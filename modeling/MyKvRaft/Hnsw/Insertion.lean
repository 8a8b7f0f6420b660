import MyKvRaft.Hnsw.Integrity

/-!
# Inserting a slot

A new slot is connected on its levels from the highest down. Until it is connected on a level
nothing there links to it, so no search meets it and its list is blank.

* `ensures_searchBaseLayer`, `ensures_descend`: the searches end and stay on their level.
* `ensures_insertPoint`: an insertion keeps the link lists sound; it fails only where a search
  finds nothing but slots that are marked.
-/

namespace MyKvRaft

variable {P : Libs} {S : Space}

namespace HnswGraph

variable {g g' : HnswGraph P} {id level : ℕ} {l : LinkList} {data : List UInt32}

/-! ## The searches -/

/-- The slots that reach a level. -/
def slots (g : HnswGraph P) (level : ℕ) : Finset ℕ :=
  (Finset.range g.linkLists.length).filter fun id => (g.linkList? id level).isSome = true

theorem mem_slots : id ∈ g.slots level ↔ g.HasLevel id level := by
  unfold slots
  rw [Finset.mem_filter, Finset.mem_range]
  exact ⟨fun h => h.2, fun h => ⟨h.lt_length, h⟩⟩

theorem card_slots_le (g : HnswGraph P) (level : ℕ) : (g.slots level).card ≤ g.linkLists.length := by
  refine (Finset.card_filter_le _ _).trans ?_
  rw [Finset.card_range]

theorem LinksSound.connections (hg : g.LinksSound) (h : g.HasLevel id level) :
    ∃ ids, g.getConnections id level = .ok ids ∧ ∀ c ∈ ids, g.HasLevel c level := by
  obtain ⟨l, hl⟩ := h.exists
  exact ⟨l.links, getConnections_of_some hl, (hg id level l hl).hasLevel⟩

/-- The slot is in a link list of the level. -/
def LinkedAt (g : HnswGraph P) (id level : ℕ) : Prop :=
  ∃ from_ l, g.linkList? from_ level = some l ∧ id ∈ l.links

/-- Along the links of a level. -/
def Reaches (g : HnswGraph P) (level ep id : ℕ) : Prop :=
  Relation.ReflTransGen (fun v c => ∃ ids, g.getConnections v level = .ok ids ∧ c ∈ ids) ep id

theorem Reaches.linkedAt {ep : ℕ} (h : g.Reaches level ep id) : id = ep ∨ g.LinkedAt id level := by
  induction h with
  | refl => exact .inl rfl
  | @tail v c _ hlink _ =>
    obtain ⟨ids, hids, hc⟩ := hlink
    obtain ⟨l, hl, rfl⟩ := getConnections_eq_ok hids
    exact .inr ⟨v, l, hl, hc⟩

theorem Reaches.hasLevel {ep : ℕ} (h : g.Reaches level ep id) (hg : g.LinksSound)
    (hep : g.HasLevel ep level) : g.HasLevel id level := by
  induction h with
  | refl => exact hep
  | @tail v c _ hlink _ =>
    obtain ⟨ids, hids, hc⟩ := hlink
    obtain ⟨l, hl, rfl⟩ := getConnections_eq_ok hids
    exact (hg v level l hl).hasLevel c hc

variable (data) in
theorem baseLayer_closed (hg : g.LinksSound) :
    (g.baseLayer S data level).Closed (g.slots level) := by
  intro v hv
  obtain ⟨ids, hids, hsub⟩ := hg.connections (mem_slots.mp hv)
  exact ⟨ids, hids, fun c hc => mem_slots.mpr (hsub c hc)⟩

/-- A search of a layer ends. What it finds is on the layer, not marked, and linked to there
    unless it is where the search starts. -/
theorem ensures_searchBaseLayer (hg : g.LinksSound) (hp : g.Params)
    (hlen : g.linkLists.length = g.curElementCount) {ep : ℕ} (hep : g.HasLevel ep level) :
    (g.searchBaseLayer S ep data level).Ensures (fun found =>
      (found.map (·.2)).Nodup ∧ (g.isMarkedDeleted ep = false → found ≠ []) ∧
      ∀ p ∈ found, g.HasLevel p.2 level ∧ g.isMarkedDeleted p.2 = false ∧
        (p.2 = ep ∨ g.LinkedAt p.2 level)) (fun _ => False) := by
  have hcard : (g.slots level).card < g.curElementCount + 1 := by
    have := card_slots_le g level
    omega
  obtain ⟨found, hfound⟩ := BestFirst.search_ok (baseLayer_closed (S := S) data hg)
    (mem_slots.mpr hep) hcard
  have hspec := BestFirst.search_found hp.ef_pos hfound
  refine Except.ensures_of_eq hfound ⟨hspec.nodup, fun hmark => ?_, fun p hp => ⟨?_, ?_, ?_⟩⟩
  · exact List.ne_nil_of_length_pos (hspec.pos (by simpa [baseLayer] using hmark))
  · exact Reaches.hasLevel (hspec.reaches p hp) hg hep
  · simpa [baseLayer] using hspec.kept p hp
  · exact Reaches.linkedAt (hspec.reaches p hp)

variable (data level) in
theorem upperLayer_closed (hg : g.LinksSound) (hmax : g.linkLists.length ≤ g.store.maxElements)
    (checked : Bool) : (g.upperLayer S checked data level).Closed (g.slots level) := by
  intro v hv
  obtain ⟨ids, hids, hsub⟩ := hg.connections (mem_slots.mp hv)
  refine ⟨ids, ?_, fun c hc => mem_slots.mpr (hsub c hc)⟩
  unfold upperLayer
  dsimp only
  rw [hids]
  dsimp only
  rw [if_neg]
  rw [Bool.and_eq_true, List.any_eq_true]
  rintro ⟨_, c, hc, hlt⟩
  have := (hsub c hc).lt_length
  rw [decide_eq_true_eq] at hlt
  omega

theorem upperLayer_links {checked : Bool} {v : ℕ} {ids : List ℕ}
    (h : (g.upperLayer S checked data level).links v = .ok ids) :
    g.getConnections v level = .ok ids := by
  unfold upperLayer at h
  dsimp only at h
  cases hc : g.getConnections v level with
  | error f => rw [hc] at h; cases h
  | ok ids' =>
    rw [hc] at h
    dsimp only at h
    split_ifs at h
    exact h

theorem upperLayer_reaches {checked : Bool} {v w : ℕ}
    (h : (g.upperLayer S checked data level).Reaches v w) : g.Reaches level v w := by
  induction h with
  | refl => exact .refl
  | tail _ hlink ih =>
    obtain ⟨ids, hids, hc⟩ := hlink
    exact ih.tail ⟨ids, upperLayer_links hids, hc⟩

variable (data) in
/-- The descent ends, on a slot that has the level below those it has gone through. -/
theorem ensures_descend (hg : g.LinksSound) (hlen : g.linkLists.length = g.curElementCount)
    (hmax : g.linkLists.length ≤ g.store.maxElements) (checked : Bool) {ep hi lo : ℕ}
    (hep : g.HasLevel ep hi) (hle : lo ≤ hi) :
    (g.descend S checked data ep hi lo).Ensures (fun id => g.HasLevel id lo ∧
      (id = ep ∨ ∃ level, g.LinkedAt id level)) (fun _ => False) := by
  unfold descend
  refine Except.ensures_map ((Except.ensures_forDown (I := fun n s => g.HasLevel s.1 (lo + n) ∧
    s.2 = g.distTo S data s.1 ∧ (s.1 = ep ∨ ∃ level, g.LinkedAt s.1 level)) ?_ ?_).mono
    (fun s h => ⟨h.1, h.2.2⟩) fun _ h => h)
  · rintro n ⟨v, d⟩ ⟨hv, hd, hfrom⟩
    have hv' : v ∈ g.slots (lo + 1 + n) := mem_slots.mpr (by
      rwa [show lo + 1 + n = lo + (n + 1) by omega])
    have hclosed := upperLayer_closed (S := S) (lo + 1 + n) data hg hmax checked
    obtain ⟨w, e, hw⟩ := Greedy.descend_ok hclosed hv' (d := d) (g.curElementCount + 1) (by
      have h1 := Finset.card_filter_le (g.slots (lo + 1 + n)) fun u =>
        (g.upperLayer S checked data (lo + 1 + n)).lt
          ((g.upperLayer S checked data (lo + 1 + n)).dist u) d = true
      have h2 := card_slots_le g (lo + 1 + n)
      omega)
    obtain ⟨he, hreach, _⟩ := Greedy.descend_spec hd hw
    have hreach' := upperLayer_reaches hreach
    refine Except.ensures_of_eq hw ⟨?_, he, ?_⟩
    · exact (hreach'.hasLevel hg (mem_slots.mp hv')).mono (by omega)
    · obtain rfl | hlinked := hreach'.linkedAt
      · exact hfrom
      · exact .inr ⟨_, hlinked⟩
  · exact ⟨by rwa [Nat.add_sub_cancel' hle], rfl, .inl rfl⟩

variable (data) in
/-- The entry point is a candidate if it is marked. -/
theorem addDeletedEntry_spec (hp : g.Params) {candidates : List (S.Dist × ℕ)} {ep : ℕ}
    (hnodup : (candidates.map (·.2)).Nodup)
    (hnew : g.isMarkedDeleted ep = true → ∀ p ∈ candidates, p.2 ≠ ep) :
    ((g.addDeletedEntry S data ep candidates).map (·.2)).Nodup ∧
    (g.addDeletedEntry S data ep candidates = [] →
      candidates = [] ∧ g.isMarkedDeleted ep = false) ∧
    ∀ p ∈ g.addDeletedEntry S data ep candidates, p ∈ candidates ∨
      (g.isMarkedDeleted ep = true ∧ p.2 = ep) := by
  unfold addDeletedEntry
  dsimp only
  split_ifs with hmark hlen
  · -- the farthest candidate goes
    have hperm := S.topCandidates.emplace_perm candidates (g.distTo S data ep, ep)
    set q := S.topCandidates.emplace candidates (g.distTo S data ep, ep) with hq
    obtain ⟨x, _, hpop⟩ := S.topCandidates.top_pop q S.topCandidates.emplace_ne_nil
    have hsub : ((S.topCandidates.pop q).map (·.2)).Nodup := by
      have hids := (hperm.map (·.2)).nodup_iff.mpr (List.nodup_cons.mpr ⟨?_, hnodup⟩)
      · exact (List.nodup_cons.mp ((hpop.map (·.2)).nodup_iff.mp hids)).2
      · intro hmem
        obtain ⟨p, hp, hpe⟩ := List.mem_map.mp hmem
        exact hnew hmark p hp hpe
    refine ⟨hsub, fun hnil => ?_, fun p hp => ?_⟩
    · have hone := hpop.length_eq
      rw [hnil, List.length_singleton] at hone
      have := hp.ef_pos
      omega
    · have hmem := hperm.mem_iff.mp (hpop.mem_iff.mpr (List.mem_cons_of_mem _ hp))
      obtain rfl | hmem := List.mem_cons.mp hmem
      · exact .inr ⟨hmark, rfl⟩
      · exact .inl hmem
  · have hperm := S.topCandidates.emplace_perm candidates (g.distTo S data ep, ep)
    refine ⟨?_, fun hnil => absurd hnil S.topCandidates.emplace_ne_nil, fun p hp => ?_⟩
    · refine (hperm.map (·.2)).nodup_iff.mpr (List.nodup_cons.mpr ⟨fun hmem => ?_, hnodup⟩)
      obtain ⟨p, hp, hpe⟩ := List.mem_map.mp hmem
      exact hnew hmark p hp hpe
    · obtain rfl | hmem := List.mem_cons.mp (hperm.mem_iff.mp hp)
      · exact .inr ⟨hmark, rfl⟩
      · exact .inl hmem
  · rw [Bool.not_eq_true] at hmark
    exact ⟨hnodup, fun hnil => ⟨hnil, hmark⟩, fun p hp => .inl hp⟩

/-! ## A new slot -/

/-- What the graph keeps between operations, as far as the links are concerned. -/
structure Sound (g : HnswGraph P) : Prop where
  params : g.Params
  links : g.LinksSound
  length : g.linkLists.length = g.curElementCount
  count_le : g.curElementCount ≤ g.store.maxElements
  base : ∀ id < g.curElementCount, g.HasLevel id 0
  entry : ∀ ep maxlevel, g.entry = some (ep, maxlevel) → g.HasLevel ep maxlevel ∧
    ∀ id level, g.HasLevel id level → level ≤ maxlevel
  empty : g.entry = none → g.linkLists = []

section Extend

variable {label : UInt64} {curlevel : ℕ}

theorem linkList?_extend_of_lt (h : id < g.linkLists.length) :
    (g.extend data label curlevel).linkList? id level = g.linkList? id level := by
  unfold linkList? extend
  dsimp only
  rw [List.getElem?_append_left h]

theorem linkList?_extend_new :
    (g.extend data label curlevel).linkList? g.linkLists.length level =
      if level ≤ curlevel then some (LinkList.blank (g.cap level)) else none := by
  unfold linkList? extend
  dsimp only
  rw [List.getElem?_concat_length, Option.bind_some, List.getElem?_map]
  split_ifs with hle
  · rw [List.getElem?_range (by omega)]
    rfl
  · rw [List.getElem?_eq_none (by rw [List.length_range]; omega)]
    rfl

theorem hasLevel_extend : (g.extend data label curlevel).HasLevel id level ↔
    g.HasLevel id level ∨ (id = g.linkLists.length ∧ level ≤ curlevel) := by
  unfold HasLevel
  obtain hlt | rfl | hgt := Nat.lt_trichotomy id g.linkLists.length
  · rw [linkList?_extend_of_lt hlt]
    exact ⟨.inl, fun h => h.resolve_right fun heq => hlt.ne heq.1⟩
  · rw [linkList?_extend_new]
    split_ifs with hle
    · exact iff_of_true rfl (.inr ⟨rfl, hle⟩)
    · refine iff_of_false Bool.false_ne_true fun h => h.elim (fun hold => ?_) fun hnew => hle hnew.2
      exact absurd (HasLevel.lt_length hold) (lt_irrefl _)
  · refine iff_of_false (fun h => ?_) fun h => h.elim (fun hold => ?_) fun hnew => ?_
    · have hlen := HasLevel.lt_length (g := g.extend data label curlevel) h
      unfold extend at hlen
      rw [List.length_append, List.length_singleton] at hlen
      omega
    · have := HasLevel.lt_length (g := g) hold
      omega
    · omega

/-- The lists of the new slot are blank, and the others are as they were. -/
theorem linkList?_extend (h : (g.extend data label curlevel).linkList? id level = some l) :
    (id = g.linkLists.length ∧ l = LinkList.blank (g.cap level)) ∨ g.linkList? id level = some l := by
  obtain hold | ⟨rfl, hle⟩ := hasLevel_extend.mp (HasLevel.of_some h)
  · right
    rwa [linkList?_extend_of_lt hold.lt_length] at h
  · left
    rw [linkList?_extend_new, if_pos hle] at h
    cases h
    exact ⟨rfl, rfl⟩

theorem Params.extend (h : g.Params) : (g.extend data label curlevel).Params :=
  ⟨h.m_pos, h.m_le, h.ef_pos⟩

theorem length_extend : (g.extend data label curlevel).linkLists.length = g.linkLists.length + 1 := by
  unfold HnswGraph.extend
  rw [List.length_append, List.length_singleton]

theorem curElementCount_extend :
    (g.extend data label curlevel).curElementCount = g.curElementCount + 1 := by
  show (g.store.elements ++ [_]).length = _
  rw [List.length_append, List.length_singleton]
  rfl

theorem Sound.extend_links (hg : g.Sound) : (g.extend data label curlevel).LinksSound := by
  intro id level l hl
  obtain ⟨_, rfl⟩ | hold := linkList?_extend hl
  · exact ⟨LinkList.lists_blank _, List.nodup_nil, List.not_mem_nil, fun c hc => by cases hc⟩
  · have h := hg.links id level l hold
    exact ⟨h.lists, h.nodup, h.not_self, fun c hc => hasLevel_extend.mpr (.inl (h.hasLevel c hc))⟩

/-- Nothing links to the new slot. -/
theorem Sound.not_linkedAt_extend (hg : g.Sound) :
    ¬(g.extend data label curlevel).LinkedAt g.linkLists.length level := by
  rintro ⟨from_, l, hl, hmem⟩
  obtain ⟨_, rfl⟩ | hold := linkList?_extend hl
  · cases hmem
  · exact absurd ((hg.links _ _ _ hold).hasLevel _ hmem).lt_length (lt_irrefl _)

end Extend

/-- A level of a slot that has no links there yet. -/
theorem ensures_connectLevel {s : HnswGraph P × ℕ} {curC ep maxlevel : ℕ} (hlinks : s.1.LinksSound)
    (hp : s.1.Params) (hlen : s.1.linkLists.length = s.1.curElementCount)
    (hfrom : s.1.HasLevel s.2 level) (hfrom_ne : s.2 ≠ curC) (hep : s.1.HasLevel ep level)
    (hep_ne : ep ≠ curC) (hblank : s.1.Blank curC level)
    (hmark : s.1.isMarkedDeleted curC = false) (hle : level ≤ maxlevel) :
    (connectLevel S data curC ep maxlevel s level).Ensures
      (fun r => Rewired s.1 r.1 level ∧ s.1.HasLevel r.2 level ∧ r.2 ≠ curC)
      (fun f => f = .emptyBack ∧ s.1.isMarkedDeleted s.2 = true) := by
  unfold connectLevel
  rw [if_neg (by omega)]
  refine Except.ensures_bind ((ensures_searchBaseLayer hlinks hp hlen hfrom).mono
    (fun _ h => h) fun _ h => h.elim) fun found hfound => ?_
  obtain ⟨hnodup, hne, hmem⟩ := hfound
  have hnew : s.1.isMarkedDeleted ep = true → ∀ p ∈ found, p.2 ≠ ep := by
    rintro hdel p hp rfl
    rw [(hmem p hp).2.1] at hdel
    cases hdel
  obtain ⟨hnd, hnil, hin⟩ := addDeletedEntry_spec data hp hnodup hnew
  refine (ensures_mutuallyConnect hlinks hp (HasLevel.of_some hblank.own) hnd (fun p hp => ?_)
    fun _ => ⟨hblank, hmark⟩).mono (fun r h => h) fun f h => ⟨h.1, ?_⟩
  · obtain hp | ⟨_, heq⟩ := hin p hp
    · obtain ⟨hlevel, _, heq | ⟨from_, l, hl, hpl⟩⟩ := hmem p hp
      · exact ⟨hlevel, heq ▸ hfrom_ne⟩
      · refine ⟨hlevel, ?_⟩
        rintro rfl
        exact hblank.unlinked from_ l hl hpl
    · exact ⟨heq ▸ hep, heq ▸ hep_ne⟩
  · by_contra hunmarked
    rw [Bool.not_eq_true] at hunmarked
    exact hne hunmarked (hnil h.2).1

theorem isMarkedDeleted_append (store : HierarchicalNSW P) (label : UInt64) (id : ℕ) :
    (store.append data label).isMarkedDeleted id = store.isMarkedDeleted id := by
  unfold HierarchicalNSW.isMarkedDeleted HierarchicalNSW.append
  dsimp only
  obtain hlt | rfl | hgt := Nat.lt_trichotomy id store.elements.length
  · rw [List.getElem?_append_left hlt]
  · rw [List.getElem?_concat_length, List.getElem?_eq_none le_rfl]
    rfl
  · rw [List.getElem?_eq_none (by rw [List.length_append, List.length_singleton]; omega),
      List.getElem?_eq_none (by omega)]

/-- The link lists of a slot that has just been added, with those that link back to it. -/
theorem ensures_connectLevels (hg : g.Sound) (data : List UInt32) (label : UInt64)
    {curlevel ep maxlevel currObj : ℕ}
    (hentry : g.entry = some (ep, maxlevel))
    (hcurr : (g.extend data label curlevel).HasLevel currObj (min curlevel maxlevel))
    (hcurr_ne : currObj ≠ g.linkLists.length) :
    (Except.forDown (connectLevel S data g.linkLists.length ep maxlevel) 0
      (min curlevel maxlevel + 1) (g.extend data label curlevel, currObj)).Ensures
      (fun s => SameShape (g.extend data label curlevel) s.1 ∧ s.1.LinksSound)
      (fun f => f = .emptyBack ∧ ∃ id, g.isMarkedDeleted id = true) := by
  set g₁ := g.extend data label curlevel with hg₁
  have hep := hg.entry ep maxlevel hentry
  -- below the level that comes next, the link lists are those of `g₁`
  refine (Except.ensures_forDown (I := fun n s => SameShape g₁ s.1 ∧ s.1.LinksSound ∧
    (∀ level < n, ∀ id, s.1.linkList? id level = g₁.linkList? id level) ∧
    g₁.HasLevel s.2 (n - 1) ∧ s.2 ≠ g.linkLists.length ∧ n ≤ min curlevel maxlevel + 1) ?_
    ⟨.refl g₁, hg.extend_links, fun _ _ _ => rfl, hcurr, hcurr_ne, le_rfl⟩).mono
    (fun s h => ⟨h.1, h.2.1⟩) fun _ h => h
  rintro n s ⟨hshape, hlinks, hsame, hlevel, hne, hle⟩
  rw [Nat.zero_add]
  have hmarked : ∀ id, s.1.isMarkedDeleted id = g.isMarkedDeleted id := by
    intro id
    unfold isMarkedDeleted
    rw [hshape.store]
    exact isMarkedDeleted_append g.store label id
  have hlen : s.1.linkLists.length = s.1.curElementCount := by
    unfold curElementCount
    rw [hshape.length, hshape.store, length_extend, hg.length]
    exact curElementCount_extend.symm
  have hcap : s.1.cap n = g.cap n := hshape.cap n
  have hblank : s.1.Blank g.linkLists.length n := by
    constructor
    · rw [hsame n (Nat.lt_succ_self n), linkList?_extend_new, if_pos (by omega), hcap]
    · intro id l hl hmem
      rw [hsame n (Nat.lt_succ_self n)] at hl
      exact hg.not_linkedAt_extend ⟨id, l, hl, hmem⟩
  have hep₁ : g₁.HasLevel ep n := (hasLevel_extend.mpr (.inl hep.1)).mono (by omega)
  refine (ensures_connectLevel hlinks (hshape.params hg.params.extend) hlen (hshape.hasLevel.mpr hlevel)
    hne (hshape.hasLevel.mpr hep₁) hep.1.lt_length.ne hblank ?_ (by omega)).mono
    (fun r h => ?_) fun f h => ⟨h.1, s.2, ?_⟩
  · rw [hmarked]
    unfold isMarkedDeleted HierarchicalNSW.isMarkedDeleted
    rw [List.getElem?_eq_none (hg.length.symm.le)]
    rfl
  · obtain ⟨hre, hr, hr_ne⟩ := h
    refine ⟨hshape.trans hre.shape, hre.sound, fun level hlt id => ?_, ?_, hr_ne, by omega⟩
    · rw [hre.other id level (by omega)]
      exact hsame level (by omega) id
    · exact (hshape.hasLevel.mp hr).mono (by omega)
  · rw [← hmarked]
    exact h.2

/-- Graphs of one shape are sound together, if their link lists are. -/
theorem Sound.of_sameShape (h : g.Sound) (hshape : SameShape g g') (hlinks : g'.LinksSound) :
    g'.Sound where
  params := hshape.params h.params
  links := hlinks
  length := by
    unfold curElementCount
    rw [hshape.length, hshape.store, h.length]
    rfl
  count_le := by
    unfold curElementCount
    rw [hshape.store]
    exact h.count_le
  base id hid := by
    unfold curElementCount at hid
    rw [hshape.store] at hid
    exact hshape.hasLevel.mpr (h.base id hid)
  entry ep maxlevel hentry := by
    rw [hshape.entry] at hentry
    obtain ⟨hep, hmax⟩ := h.entry ep maxlevel hentry
    exact ⟨hshape.hasLevel.mpr hep, fun id level hid => hmax id level (hshape.hasLevel.mp hid)⟩
  empty hentry := by
    rw [hshape.entry] at hentry
    have hlen := hshape.length
    rw [h.empty hentry] at hlen
    exact List.length_eq_zero_iff.mp hlen

/-- `enterpoint_node_` and `maxlevel_` after an insertion. -/
def newEntry (g : HnswGraph P) (curlevel : ℕ) : ℕ × ℕ :=
  match g.entry with
  | none => (g.curElementCount, curlevel)
  | some (ep, maxlevel) => if curlevel > maxlevel then (g.curElementCount, curlevel)
    else (ep, maxlevel)

/-- The graph with another place for searches to start. -/
def withEntry (g : HnswGraph P) (e : ℕ × ℕ) : HnswGraph P := { g with entry := some e }

theorem hasLevel_withEntry {e : ℕ × ℕ} :
    (g.withEntry e).HasLevel id level ↔ g.HasLevel id level := Iff.rfl

theorem LinksSound.withEntry (h : g.LinksSound) (e : ℕ × ℕ) : (g.withEntry e).LinksSound :=
  fun id level l hl => have hold := h id level l hl
  ⟨hold.lists, hold.nodup, hold.not_self, hold.hasLevel⟩

theorem SameShape.withEntry (h : SameShape g g') (e : ℕ × ℕ) :
    SameShape (g.withEntry e) (g'.withEntry e) := by
  refine ⟨?_, h.lengths⟩
  unfold HnswGraph.withEntry
  rw [h.rest]

variable (data) in
theorem Sound.extend (hg : g.Sound) (hroom : g.curElementCount < g.store.maxElements)
    (label : UInt64) (curlevel : ℕ) :
    ((g.extend data label curlevel).withEntry (g.newEntry curlevel)).Sound where
  params := ⟨hg.params.m_pos, hg.params.m_le, hg.params.ef_pos⟩
  links := hg.extend_links.withEntry _
  length := by
    show (g.extend data label curlevel).linkLists.length =
      (g.extend data label curlevel).curElementCount
    rw [curElementCount_extend, length_extend, hg.length]
  count_le := by
    show (g.extend data label curlevel).curElementCount ≤ g.store.maxElements
    rw [curElementCount_extend]
    exact hroom
  base id hid := by
    change id < (g.extend data label curlevel).curElementCount at hid
    rw [curElementCount_extend] at hid
    rw [hasLevel_withEntry, hasLevel_extend]
    obtain hlt | heq := Nat.lt_succ_iff_lt_or_eq.mp hid
    · exact .inl (hg.base id hlt)
    · exact .inr ⟨heq.trans hg.length.symm, Nat.zero_le _⟩
  entry ep maxlevel hentry := by
    have hnew : (g.extend data label curlevel).HasLevel g.curElementCount curlevel :=
      hasLevel_extend.mpr (.inr ⟨hg.length.symm, le_rfl⟩)
    have hbound : ∀ bound, curlevel ≤ bound → (∀ id level, g.HasLevel id level → level ≤ bound) →
        ∀ id level, (g.extend data label curlevel).HasLevel id level → level ≤ bound := by
      intro bound hle hold id level hid
      obtain hid | ⟨_, hlevel⟩ := hasLevel_extend.mp hid
      · exact hold id level hid
      · omega
    obtain heq := Option.some.inj hentry
    unfold newEntry at heq
    cases hold : g.entry with
    | none =>
      rw [hold] at heq
      cases heq
      refine ⟨hnew, hbound _ le_rfl fun id level hid => ?_⟩
      have := hid.lt_length
      rw [hg.empty hold] at this
      cases this
    | some e =>
      obtain ⟨ep', maxlevel'⟩ := e
      obtain ⟨hep, hmax⟩ := hg.entry ep' maxlevel' hold
      rw [hold] at heq
      dsimp only at heq
      split_ifs at heq with hlt
      · cases heq
        exact ⟨hnew, hbound _ le_rfl fun id level hid => by have := hmax id level hid; omega⟩
      · cases heq
        rw [hasLevel_withEntry, hasLevel_extend]
        exact ⟨.inl hep, hbound _ (by omega) hmax⟩
  empty hentry := by cases hentry

theorem ensures_insertPoint (hg : g.Sound) (hroom : g.curElementCount < g.store.maxElements)
    (label : UInt64) (curlevel : ℕ) :
    (g.insertPoint S data label curlevel).Ensures
      (fun r => r.Sound ∧ r.store = g.store.append data label ∧ r.numDeleted = g.numDeleted)
      (fun f => f = .emptyBack ∧ ∃ id, g.isMarkedDeleted id = true) := by
  have hsound := hg.extend data hroom label curlevel
  have hdone : ∀ r : HnswGraph P, SameShape (g.extend data label curlevel) r → r.LinksSound →
      (r.withEntry (g.newEntry curlevel)).Sound ∧ r.store = g.store.append data label ∧ r.numDeleted = g.numDeleted := by
    intro r hshape hlinks
    refine ⟨hsound.of_sameShape (hshape.withEntry _) (hlinks.withEntry _), ?_, ?_⟩
    · rw [hshape.rest]
      rfl
    · rw [hshape.rest]
      rfl
  unfold insertPoint
  cases hentry : g.entry with
  | none =>
    refine Except.ensures_ok.mpr ?_
    have h := hdone _ (.refl _) hg.extend_links
    rwa [newEntry, hentry] at h
  | some e =>
    obtain ⟨ep, maxlevel⟩ := e
    have hep := hg.entry ep maxlevel hentry
    have hep₁ : (g.extend data label curlevel).HasLevel ep maxlevel :=
      hasLevel_extend.mpr (.inl hep.1)
    have hlen₁ : (g.extend data label curlevel).linkLists.length =
        (g.extend data label curlevel).curElementCount := by
      rw [length_extend, curElementCount_extend, hg.length]
    refine Except.ensures_bind (Q := fun currObj =>
      (g.extend data label curlevel).HasLevel currObj (min curlevel maxlevel) ∧
        currObj ≠ g.linkLists.length) ?_ fun currObj hcurr => ?_
    · split_ifs with hlt
      · refine (ensures_descend data hg.extend_links hlen₁ (hlen₁.trans_le hsound.count_le) true hep₁
          hlt.le).mono (fun id h => ⟨h.1.mono (min_le_left _ _), ?_⟩) fun _ h => h.elim
        obtain rfl | ⟨level, hlinked⟩ := h.2
        · exact hep.1.lt_length.ne
        · rintro rfl
          exact hg.not_linkedAt_extend hlinked
      · exact Except.ensures_ok.mpr ⟨hep₁.mono (min_le_right _ _), hep.1.lt_length.ne⟩
    · have hlevels := ensures_connectLevels (S := S) hg data label hentry hcurr.1 hcurr.2
      rw [hg.length] at hlevels
      refine Except.ensures_bind hlevels fun s hs => Except.ensures_ok.mpr ?_
      have h := hdone s.1 hs.1 hs.2
      unfold newEntry at h
      rw [hentry] at h
      dsimp only at h
      split_ifs at h ⊢ with hlt
      · exact h
      · have hs_entry : s.1.withEntry (ep, maxlevel) = s.1 := by
          unfold withEntry
          rw [← hentry, ← show s.1.entry = g.entry from hs.1.entry]
        rwa [hs_entry] at h

end HnswGraph

end MyKvRaft
