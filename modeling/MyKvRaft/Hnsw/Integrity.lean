import MyKvRaft.Hnsw.Graph

/-!
# The integrity of the graph

`checkIntegrity` (`hnswalg.h`, lines 1381–1410) asserts that the neighbours of a slot exist,
are different from it and from one another. `Integrity` says this, and besides that a list
never outgrows its memory, that links stay on levels both ends have, and that searches start
at the highest level.
-/

namespace MyKvRaft

variable {P : Libs} {S : Space}

namespace HnswGraph

variable {g g' g'' : HnswGraph P} {id level : ℕ} {l : LinkList}

/-! ## Slots and their levels -/

/-- The slot has a link list at the level. -/
def HasLevel (g : HnswGraph P) (id level : ℕ) : Prop := (g.linkList? id level).isSome = true

theorem hasLevel_iff : g.HasLevel id level ↔
    ∃ n, (g.linkLists.map List.length)[id]? = some n ∧ level < n := by
  unfold HasLevel linkList?
  rw [List.getElem?_map]
  cases hls : g.linkLists[id]? with
  | none => simp
  | some ls => simp

theorem HasLevel.exists (h : g.HasLevel id level) : ∃ l, g.linkList? id level = some l :=
  Option.isSome_iff_exists.mp h

theorem HasLevel.of_some (h : g.linkList? id level = some l) : g.HasLevel id level :=
  Option.isSome_iff_exists.mpr ⟨l, h⟩

theorem HasLevel.mono (h : g.HasLevel id level) {level' : ℕ} (hle : level' ≤ level) :
    g.HasLevel id level' := by
  rw [hasLevel_iff] at h ⊢
  obtain ⟨n, hn, hlt⟩ := h
  exact ⟨n, hn, by omega⟩

theorem HasLevel.lt_length (h : g.HasLevel id level) : id < g.linkLists.length := by
  obtain ⟨n, hn, _⟩ := hasLevel_iff.mp h
  obtain ⟨hlt, _⟩ := List.getElem?_eq_some_iff.mp hn
  rwa [List.length_map] at hlt

theorem HasLevel.le_elementLevel (h : g.HasLevel id level) : level ≤ g.elementLevel id := by
  obtain ⟨n, hn, hlt⟩ := hasLevel_iff.mp h
  unfold elementLevel
  rw [List.getElem?_map] at hn
  cases hls : g.linkLists[id]? with
  | none => rw [hls] at hn; cases hn
  | some ls =>
    rw [hls] at hn
    cases hn
    show level ≤ ls.length - 1
    omega

theorem HasLevel.elementLevel (h : g.HasLevel id 0) : g.HasLevel id (g.elementLevel id) := by
  obtain ⟨n, hn, hlt⟩ := hasLevel_iff.mp h
  refine hasLevel_iff.mpr ⟨n, hn, ?_⟩
  unfold HnswGraph.elementLevel
  rw [List.getElem?_map] at hn
  cases hls : g.linkLists[id]? with
  | none => rw [hls] at hn; cases hn
  | some ls =>
    rw [hls] at hn
    cases hn
    show ls.length - 1 < ls.length
    omega

theorem getLinkList_of_some (h : g.linkList? id level = some l) : g.getLinkList id level = .ok l := by
  unfold getLinkList
  rw [h]

theorem getConnections_of_some (h : g.linkList? id level = some l) :
    g.getConnections id level = .ok l.links := by
  unfold getConnections
  rw [getLinkList_of_some h]
  rfl

theorem getConnections_eq_ok {ids : List ℕ} (h : g.getConnections id level = .ok ids) :
    ∃ l, g.linkList? id level = some l ∧ l.links = ids := by
  unfold getConnections getLinkList at h
  cases hl : g.linkList? id level with
  | none => rw [hl] at h; cases h
  | some l =>
    rw [hl] at h
    cases h
    exact ⟨l, rfl, rfl⟩

/-! ## Changing link lists -/

/-- The two graphs differ in what their link lists hold. -/
structure SameShape (g g' : HnswGraph P) : Prop where
  rest : g' = { g with linkLists := g'.linkLists }
  lengths : g'.linkLists.map List.length = g.linkLists.map List.length

theorem SameShape.refl (g : HnswGraph P) : SameShape g g := ⟨rfl, rfl⟩

theorem SameShape.trans (h : SameShape g g') (h' : SameShape g' g'') : SameShape g g'' := by
  refine ⟨?_, h'.lengths.trans h.lengths⟩
  rw [h'.rest, h.rest]

theorem SameShape.hasLevel (h : SameShape g g') : g'.HasLevel id level ↔ g.HasLevel id level := by
  rw [hasLevel_iff, hasLevel_iff, h.lengths]

theorem SameShape.store (h : SameShape g g') : g'.store = g.store := by rw [h.rest]

theorem SameShape.m (h : SameShape g g') : g'.m = g.m := by rw [h.rest]

theorem SameShape.cap (h : SameShape g g') (level : ℕ) : g'.cap level = g.cap level := by
  unfold HnswGraph.cap
  rw [h.m]

theorem SameShape.efConstruction (h : SameShape g g') : g'.efConstruction = g.efConstruction := by
  rw [h.rest]

theorem SameShape.entry (h : SameShape g g') : g'.entry = g.entry := by rw [h.rest]

theorem SameShape.length (h : SameShape g g') : g'.linkLists.length = g.linkLists.length := by
  have := congrArg List.length h.lengths
  rwa [List.length_map, List.length_map] at this

theorem SameShape.elementLevel (h : SameShape g g') (id : ℕ) :
    g'.elementLevel id = g.elementLevel id := by
  have hid := congrArg (·[id]?) h.lengths
  simp only [List.getElem?_map] at hid
  unfold HnswGraph.elementLevel
  cases hls : g.linkLists[id]? with
  | none =>
    rw [hls, Option.map_none, Option.map_eq_none_iff] at hid
    rw [hid]
  | some ls =>
    rw [hls, Option.map_some] at hid
    obtain ⟨ls', hls', hlen⟩ := Option.map_eq_some_iff.mp hid
    rw [hls']
    show ls'.length - 1 = ls.length - 1
    rw [hlen]

theorem sameShape_setLinkList (g : HnswGraph P) (id level : ℕ) (l : LinkList) :
    SameShape g (g.setLinkList id level l) := by
  refine ⟨rfl, List.ext_getElem? fun i => ?_⟩
  show ((g.linkLists.modify id (·.set level l)).map List.length)[i]? = _
  rw [List.getElem?_map, List.getElem?_map, List.getElem?_modify]
  cases g.linkLists[i]? with
  | none => rfl
  | some ls =>
    by_cases hi : id = i
    · simp [hi]
    · simp [hi]

theorem linkList?_setLinkList (h : g.HasLevel id level) (id' level' : ℕ) :
    (g.setLinkList id level l).linkList? id' level' =
      if id' = id ∧ level' = level then some l else g.linkList? id' level' := by
  obtain ⟨n, hn, hlt⟩ := hasLevel_iff.mp h
  rw [List.getElem?_map, Option.map_eq_some_iff] at hn
  obtain ⟨ls, hls, rfl⟩ := hn
  unfold linkList? setLinkList
  dsimp only
  rw [List.getElem?_modify]
  by_cases hid : id' = id
  · subst hid
    by_cases hlevel : level' = level
    · subst hlevel
      simp [hls, hlt]
    · simp [hls, hlevel, Ne.symm hlevel]
  · simp [hid, Ne.symm hid]

/-! ## Sound lists -/

/-- A link list that slot `id` may have at `level`. -/
structure Linked (g : HnswGraph P) (id level : ℕ) (l : LinkList) : Prop where
  lists : l.Lists (g.cap level) l.links
  nodup : l.links.Nodup
  not_self : id ∉ l.links
  hasLevel : ∀ c ∈ l.links, g.HasLevel c level

/-- All link lists are sound. -/
def LinksSound (g : HnswGraph P) : Prop :=
  ∀ id level l, g.linkList? id level = some l → g.Linked id level l

theorem Linked.of_lists (ids : List ℕ) (h : l.Lists (g.cap level) ids) (hnodup : ids.Nodup)
    (hself : id ∉ ids) (hlevel : ∀ c ∈ ids, g.HasLevel c level) : g.Linked id level l := by
  rw [← h.links] at hnodup hself hlevel
  exact ⟨⟨h.size, h.count_le, rfl⟩, hnodup, hself, hlevel⟩

theorem SameShape.linked (h : SameShape g g') (hl : g.Linked id level l) :
    g'.Linked id level l where
  lists := by
    rw [h.cap]
    exact hl.lists
  nodup := hl.nodup
  not_self := hl.not_self
  hasLevel c hc := h.hasLevel.mpr (hl.hasLevel c hc)

/-- A sound list is put in its place. -/
theorem LinksSound.set (h : g.LinksSound) (hlevel : g.HasLevel id level)
    (hl : g.Linked id level l) : (g.setLinkList id level l).LinksSound := by
  intro id' level' l' hl'
  refine (sameShape_setLinkList g id level l).linked ?_
  rw [linkList?_setLinkList hlevel] at hl'
  split_ifs at hl' with heq
  · obtain ⟨rfl, rfl⟩ := heq
    cases hl'
    exact hl
  · exact h id' level' l' hl'

/-- What the constructor fixes. -/
structure Params (g : HnswGraph P) : Prop where
  m_pos : 0 < g.m
  m_le : g.m ≤ 10000
  ef_pos : 0 < g.efConstruction

theorem Params.cap_le (h : g.Params) (level : ℕ) : g.cap level ≤ LinkList.maxCap := by
  have := h.m_le
  unfold HnswGraph.cap LinkList.maxCap
  split_ifs <;> omega

theorem Params.m_le_cap (_ : g.Params) (level : ℕ) : g.m ≤ g.cap level := by
  unfold HnswGraph.cap
  split_ifs <;> omega

theorem SameShape.params (h : SameShape g g') (hp : g.Params) : g'.Params := by
  refine ⟨?_, ?_, ?_⟩
  · rw [h.m]; exact hp.m_pos
  · rw [h.m]; exact hp.m_le
  · rw [h.efConstruction]; exact hp.ef_pos

/-! ## Choosing neighbours -/

variable {candidates : List (S.Dist × ℕ)} {limit : ℕ}

variable (limit) in
theorem chooseClosest_sublist (chosen closest : List (S.Dist × ℕ)) :
    (g.chooseClosest S limit chosen closest).Sublist (chosen ++ closest) := by
  induction closest generalizing chosen with
  | nil => exact List.sublist_append_left _ _
  | cons p closest ih =>
    unfold chooseClosest
    split_ifs
    · exact List.sublist_append_left _ _
    · simpa using ih (chosen ++ [p])
    · exact (ih chosen).trans ((List.sublist_cons_self _ _).append_left _)

variable (limit) in
theorem sublist_chooseClosest (chosen closest : List (S.Dist × ℕ)) :
    chosen.Sublist (g.chooseClosest S limit chosen closest) := by
  induction closest generalizing chosen with
  | nil => exact List.Sublist.refl _
  | cons p closest ih =>
    unfold chooseClosest
    split_ifs
    · exact List.Sublist.refl _
    · exact (List.sublist_append_left _ _).trans (ih (chosen ++ [p]))
    · exact ih chosen

theorem length_chooseClosest_le (chosen closest : List (S.Dist × ℕ)) (h : chosen.length ≤ limit) :
    (g.chooseClosest S limit chosen closest).length ≤ limit := by
  induction closest generalizing chosen with
  | nil => exact h
  | cons p closest ih =>
    unfold chooseClosest
    split_ifs with hfull
    · exact h
    · exact ih (chosen ++ [p]) (by rw [List.length_append, List.length_singleton]; omega)
    · exact ih chosen h

theorem toList_queueClosest_perm (candidates : List (S.Dist × ℕ)) :
    (S.queueClosest.toList (S.queueClosest.ofElements (S.topCandidates.toList candidates))).Perm
      candidates :=
  ((S.queueClosest.toList_perm _).trans (S.queueClosest.ofElements_perm _)).trans
    (S.topCandidates.toList_perm _)

/-- The heuristic chooses among the candidates. -/
theorem heuristic_subperm :
    (g.getNeighborsByHeuristic2 S candidates limit).Subperm candidates := by
  unfold getNeighborsByHeuristic2
  split_ifs
  · exact List.Subperm.refl _
  · have hsub := chooseClosest_sublist (g := g) (S := S) limit []
      (S.queueClosest.toList (S.queueClosest.ofElements (S.topCandidates.toList candidates)))
    exact ((S.topCandidates.ofElements_perm _).subperm.trans hsub.subperm).trans
      (toList_queueClosest_perm candidates).subperm

theorem length_heuristic_le :
    (g.getNeighborsByHeuristic2 S candidates limit).length ≤ limit := by
  unfold getNeighborsByHeuristic2
  split_ifs with hlt
  · omega
  · rw [(S.topCandidates.ofElements_perm _).length_eq]
    exact length_chooseClosest_le _ _ (Nat.zero_le _)

/-- The nearest candidate is always chosen. -/
theorem heuristic_ne_nil (hlimit : 0 < limit) (hne : candidates ≠ []) :
    g.getNeighborsByHeuristic2 S candidates limit ≠ [] := by
  unfold getNeighborsByHeuristic2
  split_ifs
  · exact hne
  · intro hnil
    have hperm := S.topCandidates.ofElements_perm (g.chooseClosest S limit []
      (S.queueClosest.toList (S.queueClosest.ofElements (S.topCandidates.toList candidates))))
    rw [hnil] at hperm
    have hchosen := hperm.symm.eq_nil
    cases hlist : S.queueClosest.toList
        (S.queueClosest.ofElements (S.topCandidates.toList candidates)) with
    | nil =>
      have hlen := (toList_queueClosest_perm (S := S) candidates).length_eq
      rw [hlist] at hlen
      exact hne (List.length_eq_zero_iff.mp hlen.symm)
    | cons p closest =>
      rw [hlist] at hchosen
      unfold chooseClosest at hchosen
      rw [if_neg (by simp only [List.length_nil]; omega), if_pos (by simp [good])] at hchosen
      have hsub := sublist_chooseClosest (g := g) (S := S) limit ([] ++ [p]) closest
      rw [hchosen] at hsub
      cases hsub

theorem popAll_perm : (popAll S candidates).Perm (candidates.map (·.2)) :=
  (S.topCandidates.toList_perm _).map _

theorem mem_popAll : id ∈ popAll S candidates ↔ ∃ p ∈ candidates, p.2 = id := by
  rw [popAll_perm.mem_iff, List.mem_map]

theorem length_popAll (candidates : List (S.Dist × ℕ)) : (popAll S candidates).length = candidates.length := by
  rw [popAll_perm.length_eq, List.length_map]

variable (g limit) in
/-- What the slots that the heuristic chooses have from the candidates. -/
theorem popAll_heuristic (hnodup : (candidates.map (·.2)).Nodup) :
    (popAll S (g.getNeighborsByHeuristic2 S candidates limit)).Nodup ∧
    (popAll S (g.getNeighborsByHeuristic2 S candidates limit)).length ≤ limit ∧
    ∀ id ∈ popAll S (g.getNeighborsByHeuristic2 S candidates limit), ∃ p ∈ candidates, p.2 = id := by
  refine ⟨?_, ?_, fun id hid => ?_⟩
  · rw [popAll_perm.nodup_iff]
    exact heuristic_subperm.nodup_map hnodup
  · rw [length_popAll]
    exact length_heuristic_le
  · obtain ⟨p, hp, hpid⟩ := mem_popAll.mp hid
    exact ⟨p, heuristic_subperm.subset hp, hpid⟩

/-! ## Connecting a slot -/

variable (level) in
/-- The list of the element itself: nothing is overwritten that may not be. -/
theorem writeLinks_eq (isUpdate : Bool) (idx : ℕ) (selected data : List ℕ)
    (hroom : idx + selected.length ≤ data.length)
    (hzero : isUpdate = false → ∀ i, idx ≤ i → ∀ x, data[i]? = some x → x = 0)
    (hlevel : ∀ id ∈ selected, g.HasLevel id level) :
    g.writeLinks level isUpdate idx selected data =
      .ok (data.take idx ++ selected ++ data.drop (idx + selected.length)) := by
  induction selected generalizing idx data with
  | nil => simp [writeLinks]
  | cons id selected ih =>
    rw [List.length_cons] at hroom
    have hlt : idx < data.length := by omega
    have hget : data[idx]? = some data[idx] := List.getElem?_eq_getElem hlt
    unfold writeLinks
    rw [hget]
    dsimp only
    rw [if_neg, if_neg, ih]
    · rw [List.take_succ_eq_append_getElem (by simpa using hlt), List.getElem_set_self,
        List.take_set_of_le le_rfl, List.drop_set_of_lt (by omega), List.length_cons]
      simp [Nat.add_assoc, Nat.add_comm 1]
    · rw [List.length_set]
      omega
    · intro hup i hi x hx
      rw [List.getElem?_set_ne (by omega)] at hx
      exact hzero hup i (by omega) x hx
    · exact fun id' hid' => hlevel id' (List.mem_cons_of_mem _ hid')
    · have := (hlevel id (List.mem_cons_self ..)).le_elementLevel
      omega
    · rintro ⟨hne, hup⟩
      exact hne (hzero hup idx le_rfl _ hget)

/-- A queue filled with slots and their distances. -/
theorem foldl_emplace_ids (f : ℕ → S.Dist) (ids : List ℕ) :
    ((ids.foldl (fun q c => S.topCandidates.emplace q (f c, c)) []).map (·.2)).Perm ids := by
  have hperm := S.topCandidates.foldl_emplace_perm (ids.map fun c => (f c, c)) []
  rw [List.append_nil, List.foldl_map] at hperm
  have hids := hperm.map (·.2)
  rwa [List.map_map, show ((·.2) ∘ fun c => (f c, c)) = fun c : ℕ => c from rfl,
    List.map_id'] at hids

/-- Only link lists of the level have been changed, and all are sound. -/
structure Rewired (g g' : HnswGraph P) (level : ℕ) : Prop where
  shape : SameShape g g'
  sound : g'.LinksSound
  other : ∀ id level', level' ≠ level → g'.linkList? id level' = g.linkList? id level'

theorem Rewired.set (h : Rewired g g' level) (hlevel : g'.HasLevel id level)
    (hl : g'.Linked id level l) : Rewired g (g'.setLinkList id level l) level where
  shape := h.shape.trans (sameShape_setLinkList g' id level l)
  sound := h.sound.set hlevel hl
  other id' level' hne := by
    rw [linkList?_setLinkList hlevel, if_neg fun heq => hne heq.2]
    exact h.other id' level' hne

theorem ensures_connectBack {curC : ℕ} {isUpdate : Bool} (hg : g.LinksSound) (hp : g.Params)
    (hid : g.HasLevel id level) (hcur : g.HasLevel curC level) (hne : id ≠ curC)
    (hnot : isUpdate = false → ∀ l, g.linkList? id level = some l → curC ∉ l.links) :
    (connectBack S curC level isUpdate g id).Ensures
      (fun g' => ∃ l, g.Linked id level l ∧ (g' = g ∨ g' = g.setLinkList id level l))
      (fun _ => False) := by
  obtain ⟨other, hother⟩ := hid.exists
  have hlinked := hg id level other hother
  have hcount := hlinked.lists.count_le
  unfold connectBack
  refine Except.ensures_bind (Q := (other = ·)) ?_ ?_
  · rw [getLinkList_of_some hother]
    exact Except.ensures_ok.mpr rfl
  rintro _ rfl
  rw [if_neg (by omega), if_neg hne, if_neg (Nat.not_lt.mpr hid.le_elementLevel)]
  split_ifs with hpresent hroom
  · exact Except.ensures_ok.mpr ⟨_, hlinked, .inl rfl⟩
  all_goals
    have habsent : curC ∉ other.links := by
      intro hmem
      cases hup : isUpdate with
      | true => exact hpresent ⟨hup, hmem⟩
      | false => exact hnot hup other hother hmem
  · refine Except.ensures_bind
      (LinkList.ensures_push hlinked.lists (hp.cap_le level) (by rw [hlinked.lists.length_eq]; omega)
        curC) fun l hl => Except.ensures_ok.mpr ⟨l, ?_, .inr rfl⟩
    refine Linked.of_lists _ hl ?_ ?_ ?_
    · exact hlinked.nodup.append (List.nodup_singleton _) (List.disjoint_singleton.mpr habsent)
    · rw [List.mem_append, List.mem_singleton, not_or]
      exact ⟨hlinked.not_self, hne⟩
    · intro c hc
      obtain hc | hc := List.mem_append.mp hc
      · exact hlinked.hasLevel c hc
      · rw [List.mem_singleton.mp hc]
        exact hcur
  · -- the list is full: the heuristic chooses among `curC` and the neighbours there are
    have hids := foldl_emplace_ids (fun c => g.distBetween S c id) (curC :: other.links)
    set q := (curC :: other.links).foldl (fun q c =>
      S.topCandidates.emplace q (g.distBetween S c id, c)) []
    have hnodup := hids.nodup_iff.mpr (List.nodup_cons.mpr ⟨habsent, hlinked.nodup⟩)
    obtain ⟨hnd, hlen, hsub⟩ := popAll_heuristic g (g.cap level) hnodup
    have hmem : ∀ c ∈ popAll S (g.getNeighborsByHeuristic2 S q (g.cap level)),
        c = curC ∨ c ∈ other.links := by
      intro c hc
      obtain ⟨p, hp, rfl⟩ := hsub c hc
      exact List.mem_cons.mp (hids.mem_iff.mp (List.mem_map_of_mem hp))
    refine Except.ensures_bind (LinkList.ensures_fill hlinked.lists.size (hp.cap_le level) hlen)
      fun l hl => Except.ensures_ok.mpr ⟨l, ?_, .inr rfl⟩
    refine Linked.of_lists _ hl hnd (fun hc => ?_) fun c hc => ?_
    · obtain heq | hc := hmem id hc
      · exact hne heq
      · exact hlinked.not_self hc
    · obtain rfl | hc := hmem c hc
      · exact hcur
      · exact hlinked.hasLevel c hc

/-- The neighbours that have been chosen get a link to the slot. -/
theorem ensures_connectAll {curC : ℕ} {isUpdate : Bool} {selected : List ℕ} (hg : g.LinksSound)
    (hp : g.Params) (hcur : g.HasLevel curC level) (hnodup : selected.Nodup)
    (hselected : ∀ id ∈ selected, g.HasLevel id level ∧ id ≠ curC)
    (hnot : isUpdate = false → ∀ id ∈ selected, ∀ l, g.linkList? id level = some l → curC ∉ l.links) :
    (selected.foldlM (connectBack S curC level isUpdate) g).Ensures (fun g' => Rewired g g' level)
      (fun _ => False) := by
  -- the slots still to come have the list they had
  have hfold := Except.ensures_foldlM (f := connectBack S curC level isUpdate) (l := selected)
    (s := g) (E := fun _ => False) (I := fun rest g' => Rewired g g' level ∧ rest.Nodup ∧
      (∀ id ∈ rest, id ∈ selected) ∧ ∀ id ∈ rest, g'.linkList? id level = g.linkList? id level)
    ?_ ⟨⟨.refl g, hg, fun _ _ _ => rfl⟩, hnodup, fun _ h => h, fun _ _ => rfl⟩
  · exact hfold.mono (fun g' h => h.1) fun _ h => h
  · rintro id rest g' ⟨hre, hnd, hsub, hsame⟩
    obtain ⟨hid, hne⟩ := hselected id (hsub id (List.mem_cons_self ..))
    have hid' := hre.shape.hasLevel.mpr hid
    refine (ensures_connectBack hre.sound (hre.shape.params hp) hid' (hre.shape.hasLevel.mpr hcur)
      hne fun hup l hl => ?_).mono (fun g'' h => ?_) fun _ h => h
    · rw [hsame id (List.mem_cons_self ..)] at hl
      exact hnot hup id (hsub id (List.mem_cons_self ..)) l hl
    · obtain ⟨l, hl, rfl | rfl⟩ := h
      · exact ⟨hre, hnd.of_cons, fun i hi => hsub i (List.mem_cons_of_mem _ hi),
          fun i hi => hsame i (List.mem_cons_of_mem _ hi)⟩
      · refine ⟨hre.set hid' hl, hnd.of_cons, fun i hi => hsub i (List.mem_cons_of_mem _ hi), ?_⟩
        intro i hi
        rw [linkList?_setLinkList hid', if_neg fun heq => ?_]
        · exact hsame i (List.mem_cons_of_mem _ hi)
        · rw [heq.1] at hi
          exact (List.nodup_cons.mp hnd).1 hi

/-- A slot that nothing links to at the level, and that has a blank list there. -/
structure Blank (g : HnswGraph P) (curC level : ℕ) : Prop where
  own : g.linkList? curC level = some (LinkList.blank (g.cap level))
  unlinked : ∀ id l, g.linkList? id level = some l → curC ∉ l.links

/-- The list of a slot, once the selected neighbours have been written to it. -/
theorem Linked.fill {curC : ℕ} {own : LinkList} {selected : List ℕ}
    (h : g.Linked curC level own) (hcap : g.cap level ≤ LinkList.maxCap) (hnd : selected.Nodup)
    (hroom : selected.length ≤ g.cap level)
    (hselected : ∀ id ∈ selected, g.HasLevel id level ∧ id ≠ curC) :
    g.Linked curC level ({ own with
      data := own.data.take 0 ++ selected ++ own.data.drop (0 + selected.length)
      }.setListCount selected.length) := by
  have hsize := h.lists.size
  have hmod : selected.length % 2 ^ 16 = selected.length := by
    unfold LinkList.maxCap at hcap
    omega
  refine Linked.of_lists selected ⟨?_, ?_, ?_⟩ hnd ?_ ?_
  · show (own.data.take 0 ++ selected ++ own.data.drop (0 + selected.length)).length = _
    simp
    omega
  · show selected.length % 2 ^ 16 ≤ _
    omega
  · show (own.data.take 0 ++ selected ++ _).take (selected.length % 2 ^ 16) = selected
    rw [hmod, List.take_zero, List.nil_append, List.take_left]
  · exact fun hmem => (hselected curC hmem).2 rfl
  · exact fun c hc => (hselected c hc).1

theorem ensures_mutuallyConnect {curC : ℕ} {isUpdate : Bool} (hg : g.LinksSound) (hp : g.Params)
    (hcur : g.HasLevel curC level) (hnodup : (candidates.map (·.2)).Nodup)
    (hcand : ∀ p ∈ candidates, g.HasLevel p.2 level ∧ p.2 ≠ curC)
    (hnew : isUpdate = false → g.Blank curC level ∧ g.isMarkedDeleted curC = false) :
    (g.mutuallyConnectNewElement S curC candidates level isUpdate).Ensures
      (fun r => Rewired g r.1 level ∧ g.HasLevel r.2 level ∧ r.2 ≠ curC)
      (fun f => f = .emptyBack ∧ candidates = []) := by
  obtain ⟨own, hown⟩ := hcur.exists
  have hlinked := hg curC level own hown
  obtain ⟨hnd, hlen, hsub⟩ := popAll_heuristic g g.m hnodup
  have hselected : ∀ id ∈ popAll S (g.getNeighborsByHeuristic2 S candidates g.m),
      g.HasLevel id level ∧ id ≠ curC := by
    intro id hid
    obtain ⟨p, hp, rfl⟩ := hsub id hid
    exact hcand p hp
  unfold mutuallyConnectNewElement
  dsimp only
  rw [if_neg (Nat.not_lt.mpr length_heuristic_le)]
  set selected := popAll S (g.getNeighborsByHeuristic2 S candidates g.m) with hsel
  cases hlast : selected.getLast? with
  | none =>
    refine Except.ensures_error.mpr ⟨rfl, ?_⟩
    by_contra hne
    rw [List.getLast?_eq_none_iff] at hlast
    have hzero := length_popAll (g.getNeighborsByHeuristic2 S candidates g.m)
    rw [← hsel, hlast] at hzero
    exact heuristic_ne_nil hp.m_pos hne (List.length_eq_zero_iff.mp hzero.symm)
  | some next =>
    dsimp only
    have hnext := hselected next (List.mem_of_getLast? hlast)
    refine Except.ensures_bind (Q := (own = ·)) ?_ ?_
    · rw [getLinkList_of_some hown]
      exact Except.ensures_ok.mpr rfl
    rintro _ rfl
    have hblank : isUpdate = false → own = LinkList.blank (g.cap level) := by
      intro hup
      have h := (hnew hup).1.own
      rw [hown, Option.some.injEq] at h
      exact h
    rw [if_neg]
    · have hroom := hlen.trans (hp.m_le_cap level)
      have hsize := hlinked.lists.size
      have hdata := writeLinks_eq (g := g) level isUpdate 0 selected own.data
        (by omega) ?_ fun id hid => (hselected id hid).1
      · refine Except.ensures_bind (Except.ensures_of_eq hdata (Q := (_ = ·)) rfl) ?_
        rintro _ rfl
        -- the own list is now a sound one
        have hl := hlinked.fill (hp.cap_le level) hnd hroom hselected
        have hre : Rewired g (g.setLinkList curC level _) level :=
          Rewired.set ⟨.refl g, hg, fun _ _ _ => rfl⟩ hcur hl
        refine Except.ensures_bind (Q := fun g' => Rewired g g' level) ?_ fun g' hg' =>
          Except.ensures_ok.mpr ⟨hg', hnext⟩
        refine (ensures_connectAll hre.sound (hre.shape.params hp) (hre.shape.hasLevel.mpr hcur) hnd
          (fun id hid => ⟨hre.shape.hasLevel.mpr (hselected id hid).1, (hselected id hid).2⟩) ?_).mono
          (fun g' hg' => ?_) fun _ h => h.elim
        · intro hup id hid l hl'
          rw [linkList?_setLinkList hcur, if_neg fun heq => (hselected id hid).2 heq.1] at hl'
          exact (hnew hup).1.unlinked id l hl'
        · exact ⟨hre.shape.trans hg'.shape, hg'.sound, fun id level' hne =>
            (hg'.other id level' hne).trans (hre.other id level' hne)⟩
      · intro hup i _ x hx
        rw [hblank hup] at hx
        exact List.eq_of_mem_replicate (List.mem_of_getElem? hx)
    · rintro ⟨hcount | ⟨_, hmark⟩, hup⟩
      · rw [hblank hup] at hcount
        exact hcount rfl
      · rw [(hnew hup).2] at hmark
        cases hmark

end HnswGraph

end MyKvRaft
