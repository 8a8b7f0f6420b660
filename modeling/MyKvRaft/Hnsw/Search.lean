import MyKvRaft.Hnsw.Operations

/-!
# Searching the index

`searchKnn` descends to the base layer, collects up to `ef` slots there, and keeps the `k`
nearest of them.

* `searchKnn_found`: what a search returns, in every state of an index and for any query.
* `searchKnn_nearest`: nothing next to a result would be a better one.
* `searchKnn_exact`: if there are not more slots than `ef`, the results are the nearest of all
  that can be reached on the base layer.
* `searchKnnBy_bareBone`: the search that looks at no marks returns what the other one would.
-/

namespace MyKvRaft

variable {P : Libs} {S : Space}

namespace HnswGraph

variable {g : HnswGraph P} {query : List UInt32} {k : ℕ} {isIdAllowed : Option (UInt64 → Bool)}

/-- The slot may be returned. -/
def Wanted (g : HnswGraph P) (isIdAllowed : Option (UInt64 → Bool)) (id : ℕ) : Prop :=
  g.isMarkedDeleted id = false ∧ (isIdAllowed.all fun f => f (g.getExternalLabel id)) = true

/-- The slots of a result, and where on the base layer they come from. -/
structure FoundFrom (g : HnswGraph P) (k : ℕ) (isIdAllowed : Option (UInt64 → Bool)) (ep : ℕ)
    (found : List ℕ) : Prop where
  nodup : found.Nodup
  length_le : found.length ≤ k
  reaches : ∀ id ∈ found, g.Reaches 0 ep id
  lt_count : ∀ id ∈ found, id < g.curElementCount
  wanted : ∀ id ∈ found, g.Wanted isIdAllowed id

/-- The slot has been found, or it is not nearer than any of the `k` that have been. -/
def NotNearer (S : Space) (g : HnswGraph P) (query : List UInt32) (k : ℕ) (found : List ℕ)
    (id : ℕ) : Prop :=
  id ∈ found ∨ (found.length = k ∧
    ∀ id' ∈ found, S.lt (g.distTo S query id) (g.distTo S query id') = false)

/-! ## The base layer -/

theorem baseLayerST_closed (hg : g.LinksSound) (query : List UInt32)
    (isIdAllowed : Option (UInt64 → Bool)) (bareBone : Bool) (ef : ℕ) :
    (g.baseLayerST S bareBone query ef isIdAllowed).Closed (g.slots 0) := by
  intro v hv
  obtain ⟨ids, hids, hsub⟩ := hg.connections (mem_slots.mp hv)
  exact ⟨ids, hids, fun c hc => mem_slots.mpr (hsub c hc)⟩

/-- As long as no slot is marked, the search need not look at the marks. -/
theorem Integrity.not_marked (h : g.Integrity) (hzero : g.numDeleted = 0) (id : ℕ) :
    g.isMarkedDeleted id = false := by
  by_contra hmark
  rw [Bool.not_eq_false] at hmark
  obtain ⟨el, hel, hdel⟩ := HierarchicalNSW.isMarkedDeleted_iff.mp hmark
  have hcount : g.store.deletedCount = 0 := h.numDeleted.symm.trans hzero
  exact absurd hdel (List.countP_eq_zero.mp hcount el (List.mem_of_getElem? hel))

/-- The marks and the filter may be skipped. -/
def MaySkip (g : HnswGraph P) (isIdAllowed : Option (UInt64 → Bool)) (bareBone : Bool) : Prop :=
  bareBone = true → g.numDeleted = 0 ∧ isIdAllowed = none

variable (g isIdAllowed) in
theorem maySkip_false : MaySkip g isIdAllowed false := fun h => by cases h

variable (g isIdAllowed) in
theorem maySkip_searchKnn :
    MaySkip g isIdAllowed (decide (g.numDeleted = 0) && isIdAllowed.isNone) := by
  intro h
  rw [Bool.and_eq_true, decide_eq_true_eq, Option.isNone_iff_eq_none] at h
  exact h

theorem kept_iff (h : g.Integrity) {bareBone : Bool} (hskip : g.MaySkip isIdAllowed bareBone)
    (ef id : ℕ) : (g.baseLayerST S bareBone query ef isIdAllowed).kept id = true ↔
      g.Wanted isIdAllowed id := by
  unfold baseLayerST Wanted
  dsimp only
  cases bareBone with
  | true =>
    obtain ⟨hzero, rfl⟩ := hskip rfl
    rw [Bool.true_or]
    exact iff_of_true rfl ⟨h.not_marked hzero id, rfl⟩
  | false => rw [Bool.false_or, Bool.and_eq_true, Bool.not_eq_true']

/-- Where the search of the base layer starts. -/
def StartsAt (S : Space) (g : HnswGraph P) (query : List UInt32) (ep : ℕ) : Prop :=
  ∃ enterpoint maxlevel, g.entry = some (enterpoint, maxlevel) ∧
    g.descend S true query enterpoint maxlevel 0 = .ok ep

/-- What `searchKnnBy` does on an index that is not empty. -/
theorem searchKnnBy_run (h : g.Integrity) (hne : g.curElementCount ≠ 0) (query : List UInt32) (k : ℕ)
    (isIdAllowed : Option (UInt64 → Bool)) (bareBone : Bool) :
    ∃ ep top, g.StartsAt S query ep ∧ g.HasLevel ep 0 ∧
      (g.baseLayerST S bareBone query (max g.ef k) isIdAllowed).search (g.curElementCount + 1) ep =
        .ok top ∧
      g.searchKnnBy S bareBone query k isIdAllowed = .ok (S.result.ofElements
        ((S.topCandidates.toList (S.topCandidates.shrink k top)).map fun rez =>
          (rez.1, g.getExternalLabel rez.2))) := by
  have hg := h.sound
  cases hentry : g.entry with
  | none =>
    have hlen := hg.length
    rw [hg.empty hentry] at hlen
    exact absurd hlen.symm hne
  | some e =>
    obtain ⟨enterpoint, maxlevel⟩ := e
    obtain ⟨ep, hdescend, hep, _⟩ := (ensures_descend (S := S) query hg.links hg.length
      (hg.length.trans_le hg.count_le) true (hg.entry enterpoint maxlevel hentry).1
      (Nat.zero_le maxlevel)).exists_ok
    have hcard : (g.slots 0).card < g.curElementCount + 1 := by
      have := card_slots_le g 0
      have := hg.length
      omega
    obtain ⟨top, htop⟩ := BestFirst.search_ok
      (baseLayerST_closed (S := S) hg.links query isIdAllowed bareBone (max g.ef k))
      (mem_slots.mpr hep) hcard
    refine ⟨ep, top, ⟨enterpoint, maxlevel, hentry, hdescend⟩, hep, htop, ?_⟩
    unfold searchKnnBy searchBaseLayerST
    rw [if_neg hne, hentry]
    dsimp only
    rw [hdescend]
    change ((g.baseLayerST S bareBone query (max g.ef k) isIdAllowed).search _ ep >>= _) = _
    rw [htop]
    rfl

/-- Nothing is left of what a search for no results has collected. -/
theorem shrink_eq_nil (hzero : max g.ef k = 0) (top : List (S.Dist × ℕ)) :
    S.topCandidates.shrink k top = [] := by
  refine List.eq_nil_of_length_eq_zero ?_
  rw [S.topCandidates.length_shrink]
  omega

/-- The `k` nearest of what the base layer has given. -/
theorem foundFrom_shrink (h : g.Integrity) {bareBone : Bool}
    (hskip : g.MaySkip isIdAllowed bareBone) {ep : ℕ} (hep : g.HasLevel ep 0)
    {top : List (S.Dist × ℕ)} {fuel : ℕ}
    (htop : (g.baseLayerST S bareBone query (max g.ef k) isIdAllowed).search fuel ep = .ok top) :
    g.FoundFrom k isIdAllowed ep ((S.topCandidates.shrink k top).map (·.2)) ∧
      ∀ p ∈ S.topCandidates.shrink k top, p.1 = g.distTo S query p.2 := by
  obtain hzero | hef := Nat.eq_zero_or_pos (max g.ef k)
  · rw [shrink_eq_nil hzero]
    exact ⟨⟨List.nodup_nil, Nat.zero_le _, by simp, by simp, by simp⟩, by simp⟩
  have hspec := BestFirst.search_found hef htop
  have hsub := S.topCandidates.shrink_subperm k top
  have hmem : ∀ id ∈ (S.topCandidates.shrink k top).map (·.2), ∃ p ∈ top, p.2 = id := by
    intro id hid
    obtain ⟨p, hp, hpid⟩ := List.mem_map.mp hid
    exact ⟨p, hsub.subset hp, hpid⟩
  refine ⟨⟨hsub.nodup_map hspec.nodup, ?_, fun id hid => ?_, fun id hid => ?_, fun id hid => ?_⟩,
    fun p hp => hspec.dist p (hsub.subset hp)⟩
  · rw [List.length_map, S.topCandidates.length_shrink]
    exact Nat.min_le_left _ _
  all_goals obtain ⟨p, hp, rfl⟩ := hmem id hid
  · exact hspec.reaches p hp
  · have hreach : g.Reaches 0 ep p.2 := hspec.reaches p hp
    exact (hreach.hasLevel h.sound.links hep).lt_length.trans_eq h.sound.length
  · exact (kept_iff h hskip _ _).mp (hspec.kept p hp)

/-- What the base layer has passed over is not among the `k` nearest. -/
theorem notNearer_of_settled (hlt : StrictWeak S.lt) {bareBone : Bool} {top : List (S.Dist × ℕ)}
    (hdist : ∀ p ∈ top, p.1 = g.distTo S query p.2) {id : ℕ}
    (hid : (g.baseLayerST S bareBone query (max g.ef k) isIdAllowed).Settled top id) :
    g.NotNearer S query k ((S.topCandidates.shrink k top).map (·.2)) id := by
  have hsub := S.topCandidates.shrink_subperm k top
  have hlen := S.topCandidates.length_shrink k top
  unfold NotNearer
  rw [List.length_map]
  obtain hmem | ⟨hfull, hfar⟩ := hid
  · obtain ⟨p, hp, rfl⟩ := BestFirst.mem_ids.mp hmem
    obtain hleft | ⟨hk, hmax⟩ := S.topCandidates.mem_shrink_or k hp
    · exact .inl (List.mem_map_of_mem hleft)
    · refine .inr ⟨hk, fun id' hid' => ?_⟩
      obtain ⟨q, hq, rfl⟩ := List.mem_map.mp hid'
      rw [← hdist p hp, ← hdist q (hsub.subset hq)]
      exact hmax (hlt.comap Prod.fst) q hq
  · change top.length = max g.ef k at hfull
    refine .inr ⟨by omega, fun id' hid' => ?_⟩
    obtain ⟨q, hq, rfl⟩ := List.mem_map.mp hid'
    rw [← hdist q (hsub.subset hq)]
    exact hfar q (hsub.subset hq)

theorem strictWeak_label : StrictWeak fun a b : UInt64 => decide (a < b) := by
  refine ⟨fun a b hab => ?_, fun a b c hab hbc => ?_⟩
  · rw [decide_eq_true_eq, UInt64.lt_iff_toNat_lt] at hab
    rw [decide_eq_false_iff_not, UInt64.lt_iff_toNat_lt]
    omega
  · rw [decide_eq_false_iff_not, UInt64.lt_iff_toNat_lt] at hab hbc ⊢
    omega

theorem FoundFrom.perm {ep : ℕ} {found found' : List ℕ} (h : g.FoundFrom k isIdAllowed ep found)
    (hperm : found'.Perm found) : g.FoundFrom k isIdAllowed ep found' where
  nodup := hperm.nodup_iff.mpr h.nodup
  length_le := hperm.length_eq.trans_le h.length_le
  reaches id hid := h.reaches id (hperm.mem_iff.mp hid)
  lt_count id hid := h.lt_count id (hperm.mem_iff.mp hid)
  wanted id hid := h.wanted id (hperm.mem_iff.mp hid)

theorem NotNearer.perm {found found' : List ℕ} {id : ℕ} (h : g.NotNearer S query k found id)
    (hperm : found'.Perm found) : g.NotNearer S query k found' id := by
  refine h.imp hperm.mem_iff.mpr fun hfull => ⟨hperm.length_eq.trans hfull.1, fun id' hid' => ?_⟩
  exact hfull.2 id' (hperm.mem_iff.mp hid')

/-! ## The results -/

/-- What is returned for a slot. -/
def entryOf (S : Space) (g : HnswGraph P) (query : List UInt32) (id : ℕ) : S.Dist × UInt64 :=
  (g.distTo S query id, g.getExternalLabel id)

/-- The results, nearest first, with what the base layer has given. -/
theorem searchKnnBy_spec (h : g.Integrity) (hne : g.curElementCount ≠ 0) (query : List UInt32) (k : ℕ)
    {bareBone : Bool} (hskip : g.MaySkip isIdAllowed bareBone) : ∃ ep top found,
      g.StartsAt S query ep ∧ g.HasLevel ep 0 ∧
      (g.baseLayerST S bareBone query (max g.ef k) isIdAllowed).search (g.curElementCount + 1) ep =
        .ok top ∧
      (g.searchKnnBy S bareBone query k isIdAllowed).map
        (fun ret => (S.result.toList ret).reverse) = .ok (found.map (g.entryOf S query)) ∧
      found.Perm ((S.topCandidates.shrink k top).map (·.2)) ∧
      g.FoundFrom k isIdAllowed ep found ∧
      (StrictWeak S.lt → found.Pairwise fun id id' =>
        S.lt (g.distTo S query id') (g.distTo S query id) = false) := by
  obtain ⟨ep, top, hstart, hep, htop, hrun⟩ := searchKnnBy_run (S := S) h hne query k isIdAllowed
    bareBone
  obtain ⟨hfrom, hdist⟩ := foundFrom_shrink h hskip hep htop
  set results := S.result.ofElements ((S.topCandidates.toList (S.topCandidates.shrink k top)).map
    fun rez => (rez.1, g.getExternalLabel rez.2))
  have hperm : (S.result.toList results).reverse.Perm
      (((S.topCandidates.shrink k top).map (·.2)).map (g.entryOf S query)) := by
    have hentries : ((S.topCandidates.shrink k top).map fun rez =>
        (rez.1, g.getExternalLabel rez.2)) =
        ((S.topCandidates.shrink k top).map (·.2)).map (g.entryOf S query) := by
      rw [List.map_map]
      refine List.map_congr_left fun p hp => ?_
      rw [hdist p hp]
      rfl
    rw [← hentries]
    exact ((List.reverse_perm _).trans (S.result.toList_perm _)).trans
      ((S.result.ofElements_perm _).trans ((S.topCandidates.toList_perm _).map _))
  obtain ⟨found, hfound, hmap⟩ := hperm.exists_map
  refine ⟨ep, top, found, hstart, hep, htop, ?_, hfound, hfrom.perm hfound, fun hlt => ?_⟩
  · rw [hrun, hmap]
    rfl
  · have hsorted := S.result.toList_sorted (hlt.lex strictWeak_label) results
    rw [← List.reverse_reverse (S.result.toList results), List.pairwise_reverse, ← hmap,
      List.pairwise_map] at hsorted
    refine hsorted.imp fun {id id'} hle => ?_
    rw [Bool.or_eq_false_iff] at hle
    exact hle.1

theorem searchKnnCloserFirst_empty (hzero : g.curElementCount = 0) :
    g.searchKnnCloserFirst S query k isIdAllowed = .ok [] := by
  unfold searchKnnCloserFirst searchKnn searchKnnBy
  rw [if_pos hzero]
  rfl

/-- A search for no results returns none. -/
theorem searchKnnBy_zero (h : g.Integrity) (hzero : max g.ef k = 0) (bareBone : Bool) :
    g.searchKnnBy S bareBone query k isIdAllowed = .ok [] := by
  by_cases hne : g.curElementCount = 0
  · unfold searchKnnBy
    rw [if_pos hne]
  · obtain ⟨ep, top, _, _, _, hrun⟩ := searchKnnBy_run (S := S) h hne query k isIdAllowed bareBone
    rw [hrun, shrink_eq_nil hzero]
    rfl

/-- A search that looks at marks and filter also finds out if there are none. -/
theorem searchKnnBy_eq (h : g.Integrity) (hlt : StrictWeak S.lt) (hzero : g.numDeleted = 0) :
    g.searchKnnBy S true query k none = g.searchKnnBy S false query k none := by
  obtain hef | hef := Nat.eq_zero_or_pos (max g.ef k)
  · rw [searchKnnBy_zero h hef, searchKnnBy_zero h hef]
  have hlayer : g.baseLayerST S true query (max g.ef k) none =
      { g.baseLayerST S false query (max g.ef k) none with stopsEarly := true } := by
    have hkept : (g.baseLayerST S true query (max g.ef k) none).kept =
        (g.baseLayerST S false query (max g.ef k) none).kept := by
      funext id
      unfold baseLayerST
      dsimp only
      rw [h.not_marked hzero id]
      rfl
    unfold baseLayerST at hkept ⊢
    dsimp only at hkept ⊢
    rw [hkept]
  have hall : ∀ id, (g.baseLayerST S false query (max g.ef k) none).kept id = true := by
    intro id
    rw [kept_iff h (maySkip_false g none)]
    exact ⟨h.not_marked hzero id, rfl⟩
  have hsearch : ∀ ep, g.searchBaseLayerST S true ep query (max g.ef k) none =
      g.searchBaseLayerST S false ep query (max g.ef k) none := by
    intro ep
    unfold searchBaseLayerST
    rw [hlayer]
    exact BestFirst.search_stopsEarly hall hlt hef _ ep true
  unfold searchKnnBy
  simp only [hsearch]

/-- The neighbours of a slot on the base layer. -/
def Neighbour (g : HnswGraph P) (id c : ℕ) : Prop :=
  ∃ ids, g.getConnections id 0 = .ok ids ∧ c ∈ ids

/-- What a caller gets: the slots found, from the nearest to the farthest. -/
structure Gives (S : Space) (g : HnswGraph P) (query : List UInt32) (k : ℕ)
    (isIdAllowed : Option (UInt64 → Bool)) (found : List ℕ) : Prop where
  returns : g.searchKnnCloserFirst S query k isIdAllowed = .ok (found.map (g.entryOf S query))
  nodup : found.Nodup
  length_le : found.length ≤ k
  wanted : ∀ id ∈ found, id < g.curElementCount ∧ g.Wanted isIdAllowed id
  sorted : StrictWeak S.lt → found.Pairwise fun id id' =>
    S.lt (g.distTo S query id') (g.distTo S query id) = false

theorem Integrity.gives (h : g.Integrity) (query : List UInt32) (k : ℕ)
    (isIdAllowed : Option (UInt64 → Bool)) :
    ∃ found, g.Gives S query k isIdAllowed found := by
  by_cases hne : g.curElementCount = 0
  · exact ⟨[], searchKnnCloserFirst_empty hne, List.nodup_nil, Nat.zero_le _, by simp, by simp⟩
  obtain ⟨ep, top, found, _, _, _, hreturns, _, hfrom, hsorted⟩ :=
    searchKnnBy_spec (S := S) h hne query k (maySkip_searchKnn g isIdAllowed)
  exact ⟨found, hreturns, hfrom.nodup, hfrom.length_le,
    fun id hid => ⟨hfrom.lt_count id hid, hfrom.wanted id hid⟩, hsorted⟩

/-- The search might always have looked at the marks. -/
theorem Integrity.searchKnn_eq (h : g.Integrity) (hlt : StrictWeak S.lt) :
    g.searchKnn S query k isIdAllowed = g.searchKnnBy S false query k isIdAllowed := by
  unfold searchKnn
  cases hbare : decide (g.numDeleted = 0) && isIdAllowed.isNone with
  | false => rfl
  | true =>
    obtain ⟨hzero, rfl⟩ := maySkip_searchKnn g isIdAllowed hbare
    exact searchKnnBy_eq h hlt hzero

/-- The results of the search with what the base layer has found, and passed over, on the way. -/
theorem Integrity.gives_settled (h : g.Integrity) (hef : 0 < max g.ef k) (hlt : StrictWeak S.lt)
    (hne : g.curElementCount ≠ 0) (query : List UInt32) (isIdAllowed : Option (UInt64 → Bool)) :
    ∃ ep top found, g.StartsAt S query ep ∧ g.HasLevel ep 0 ∧
      (g.baseLayerST S false query (max g.ef k) isIdAllowed).search (g.curElementCount + 1) ep =
        .ok top ∧
      g.Gives S query k isIdAllowed found ∧ (∀ id ∈ found, ∃ p ∈ top, p.2 = id) ∧
      ∀ id, (g.baseLayerST S false query (max g.ef k) isIdAllowed).Settled top id →
        g.NotNearer S query k found id := by
  obtain ⟨ep, top, found, hstart, hep, htop, hreturns, hperm, hfrom, hsorted⟩ :=
    searchKnnBy_spec (S := S) h hne query k (maySkip_false g isIdAllowed)
  refine ⟨ep, top, found, hstart, hep, htop, ⟨?_, hfrom.nodup, hfrom.length_le,
    fun id hid => ⟨hfrom.lt_count id hid, hfrom.wanted id hid⟩, hsorted⟩, fun id hid => ?_,
    fun id hid => (notNearer_of_settled hlt (BestFirst.search_found hef htop).dist hid).perm hperm⟩
  · unfold searchKnnCloserFirst
    rw [h.searchKnn_eq hlt]
    exact hreturns
  · obtain ⟨p, hp, hpid⟩ := List.mem_map.mp (hperm.mem_iff.mp hid)
    exact ⟨p, (S.topCandidates.shrink_subperm k top).subset hp, hpid⟩

/-! ## Searches in the states of a run -/

section Runs

variable {maxElements m efConstruction : ℕ} {allow : Bool} {h : List (HnswGraph P × IndexOp)}
  {s : HnswGraph P}

/-- A search returns up to `k` slots, each once, that are not marked and that the filter lets
    through, with their labels and distances, the nearest first. -/
theorem searchKnn_found (hm : 0 < m)
    (hr : DefinedRun S (create P maxElements m efConstruction allow) h s) (query : List UInt32)
    (k : ℕ) (isIdAllowed : Option (UInt64 → Bool)) :
    ∃ found, s.Gives S query k isIdAllowed found :=
  (hr.integrity hm).gives query k isIdAllowed

theorem searchKnn_found_sampleGraph : ∃ found, sampleGraph.Gives innerProductSpace [floatOne, 0] 1
    (some fun label => label != 2) found :=
  searchKnn_found (by decide) definedRun_sampleGraph _ _ _

/-- No neighbour of a result would be a better result. -/
theorem searchKnn_nearest (hm : 0 < m)
    (hr : DefinedRun S (create P maxElements m efConstruction allow) h s) (query : List UInt32)
    (k : ℕ) (isIdAllowed : Option (UInt64 → Bool)) (hlt : StrictWeak S.lt) :
    ∃ found, s.Gives S query k isIdAllowed found ∧ ∀ id ∈ found, ∀ c, s.Neighbour id c →
      s.Wanted isIdAllowed c → s.NotNearer S query k found c := by
  have hs := hr.integrity hm
  obtain hzero | hef := Nat.eq_zero_or_pos (max s.ef k)
  · obtain ⟨found, hgives⟩ := hs.gives (S := S) query k isIdAllowed
    have hnil : found = [] := List.eq_nil_of_length_eq_zero (by have := hgives.length_le; omega)
    exact ⟨found, hgives, by simp [hnil]⟩
  by_cases hne : s.curElementCount = 0
  · exact ⟨[], ⟨searchKnnCloserFirst_empty hne, List.nodup_nil, Nat.zero_le _, by simp, by simp⟩,
      by simp⟩
  obtain ⟨ep, top, found, _, _, htop, hgives, hfrom, hsettled⟩ := hs.gives_settled (S := S) hef hlt
    hne query isIdAllowed
  refine ⟨found, hgives, fun id hid c hc hwanted => hsettled c ?_⟩
  obtain ⟨ids, hids, hmem⟩ := hc
  obtain ⟨p, hp, rfl⟩ := hfrom id hid
  exact (BestFirst.search_locallyBest hlt hef htop).links p hp ids hids c hmem
    ((kept_iff hs (maySkip_false s isIdAllowed) _ c).mpr hwanted)

theorem searchKnn_nearest_sampleGraph : ∃ found,
    sampleGraph.Gives innerProductSpace [floatOne, 0] 1 none found ∧
    ∀ id ∈ found, ∀ c, sampleGraph.Neighbour id c → sampleGraph.Wanted none c →
      sampleGraph.NotNearer innerProductSpace [floatOne, 0] 1 found c :=
  searchKnn_nearest (by decide) definedRun_sampleGraph _ _ _ strictWeak_innerProductSpace

/-- If there are not more slots than the search may collect, it finds the nearest of all that it can
    get to from where it enters the base layer. -/
theorem searchKnn_exact (hm : 0 < m)
    (hr : DefinedRun S (create P maxElements m efConstruction allow) h s) (query : List UInt32)
    (isIdAllowed : Option (UInt64 → Bool)) (hlt : StrictWeak S.lt) (hne : s.curElementCount ≠ 0)
    (hcount : s.curElementCount ≤ max s.ef k) :
    ∃ ep found, s.StartsAt S query ep ∧ s.Gives S query k isIdAllowed found ∧
      ∀ id, s.Reaches 0 ep id → s.Wanted isIdAllowed id → s.NotNearer S query k found id := by
  have hs := hr.integrity hm
  have hef : 0 < max s.ef k := (Nat.pos_of_ne_zero hne).trans_le hcount
  obtain ⟨ep, top, found, hstart, hep, htop, hgives, _, hsettled⟩ := hs.gives_settled (S := S) hef hlt
    hne query isIdAllowed
  refine ⟨ep, found, hstart, hgives, fun id hid hwanted => hsettled id (.inl ?_)⟩
  have hcard : (s.slots 0).card ≤ max s.ef k := by
    have := card_slots_le s 0
    have := hs.sound.length
    omega
  exact BestFirst.search_exact (baseLayerST_closed hs.sound.links query isIdAllowed false (max s.ef k))
    (mem_slots.mpr hep) hcard rfl hlt htop hid ((kept_iff hs (maySkip_false s isIdAllowed) _ id).mpr hwanted)

theorem searchKnn_exact_sampleGraph : ∃ ep found,
    sampleGraph.StartsAt innerProductSpace [floatOne, 0] ep ∧
    sampleGraph.Gives innerProductSpace [floatOne, 0] 1 none found ∧
    ∀ id, sampleGraph.Reaches 0 ep id → sampleGraph.Wanted none id →
      sampleGraph.NotNearer innerProductSpace [floatOne, 0] 1 found id :=
  searchKnn_exact (by decide) definedRun_sampleGraph _ _ strictWeak_innerProductSpace
    (by decide +kernel) (by decide +kernel)

/-- The search that looks at no marks and stops early returns what the other one does. -/
theorem searchKnnBy_bareBone (hm : 0 < m)
    (hr : DefinedRun S (create P maxElements m efConstruction allow) h s) (query : List UInt32)
    (k : ℕ) (hlt : StrictWeak S.lt) (hzero : s.numDeleted = 0) :
    s.searchKnnBy S true query k none = s.searchKnnBy S false query k none :=
  searchKnnBy_eq (hr.integrity hm) hlt hzero

theorem searchKnnBy_bareBone_sampleGraph :
    sampleGraph.searchKnnBy innerProductSpace true [floatOne, 0] 1 none =
      sampleGraph.searchKnnBy innerProductSpace false [floatOne, 0] 1 none :=
  searchKnnBy_bareBone (by decide) definedRun_sampleGraph _ _ strictWeak_innerProductSpace
    (by decide +kernel)

end Runs

end HnswGraph

end MyKvRaft
