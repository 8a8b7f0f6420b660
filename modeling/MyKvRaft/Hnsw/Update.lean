import MyKvRaft.Hnsw.Insertion

/-!
# Giving a slot another vector

`updatePoint` chooses the neighbours of all neighbours of the slot anew, and then connects the
slot on each of its levels as if it were inserted.

* `ensures_updatePoint`: the update of a slot that is not marked never fails and keeps the link
  lists sound.
-/

namespace MyKvRaft

variable {P : Libs} {S : Space}

namespace HnswGraph

variable {g g' : HnswGraph P} {id level : ℕ} {l : LinkList} {data : List UInt32}

/-! ## The neighbours of the neighbours -/

/-- The candidates of one slot are some of those offered, each at most once. -/
theorem ensures_keepNearest {k : ℕ} (hk : 0 < k) {ids : List ℕ} (hnodup : ids.Nodup)
    (f : ℕ → S.Dist) :
    ((ids.map fun c => (f c, c)).foldlM (keepNearest S k) []).Ensures
      (fun q => (q.map (·.2)).Nodup ∧ ∀ p ∈ q, p.2 ∈ ids) (fun _ => False) := by
  have hids : (ids.map fun c => (f c, c)).map (·.2) = ids := by
    rw [List.map_map, show ((·.2) ∘ fun c => (f c, c)) = fun c : ℕ => c from rfl, List.map_id']
  refine (Except.ensures_foldlM (I := fun rest q => (q.map (·.2)).Nodup ∧ (rest.map (·.2)).Nodup ∧
    (∀ p ∈ q, p.2 ∈ ids ∧ p.2 ∉ rest.map (·.2)) ∧ ∀ p ∈ rest, p.2 ∈ ids) ?_ ?_).mono
    (fun q h => ⟨h.1, fun p hp => (h.2.2.1 p hp).1⟩) fun _ h => h
  · rintro p rest q ⟨hq, hrest, hmem, hoffer⟩
    rw [List.map_cons, List.nodup_cons] at hrest
    -- what is left of `q` keeps the invariant, with `p` and without it
    have hadd : ∀ q' : List (S.Dist × ℕ), q'.Subperm q →
        ((S.topCandidates.emplace q' p).map (·.2)).Nodup ∧ (rest.map (·.2)).Nodup ∧
        (∀ p' ∈ S.topCandidates.emplace q' p, p'.2 ∈ ids ∧ p'.2 ∉ rest.map (·.2)) ∧
        ∀ p' ∈ rest, p'.2 ∈ ids := by
      intro q' hsub
      have hperm := (S.topCandidates.emplace_perm q' p).map (·.2)
      refine ⟨hperm.nodup_iff.mpr (List.nodup_cons.mpr ⟨fun hin => ?_, hsub.nodup_map hq⟩), hrest.2,
        fun p' hp' => ?_, fun p' hp' => hoffer p' (List.mem_cons_of_mem _ hp')⟩
      · obtain ⟨p', hp', heq⟩ := List.mem_map.mp hin
        refine (hmem p' (hsub.subset hp')).2 ?_
        rw [List.map_cons, heq]
        exact List.mem_cons_self ..
      · obtain rfl | hp' := S.topCandidates.mem_emplace.mp hp'
        · exact ⟨hoffer p' (List.mem_cons_self ..), hrest.1⟩
        · obtain ⟨hin, hout⟩ := hmem p' (hsub.subset hp')
          rw [List.map_cons, List.mem_cons, not_or] at hout
          exact ⟨hin, hout.2⟩
    unfold keepNearest
    split_ifs with hfew
    · exact Except.ensures_ok.mpr (hadd q (List.Subperm.refl q))
    · have hne : q ≠ [] := by
        rintro rfl
        exact hfew hk
      obtain ⟨t, ht, hpop⟩ := S.topCandidates.top_pop q hne
      rw [ht]
      dsimp only
      split_ifs
      · exact Except.ensures_ok.mpr (hadd _ ((List.sublist_cons_self t _).subperm.trans
          hpop.symm.subperm))
      · refine Except.ensures_ok.mpr ⟨hq, hrest.2, fun p' hp' => ?_,
          fun p' hp' => hoffer p' (List.mem_cons_of_mem _ hp')⟩
        obtain ⟨hin, hout⟩ := hmem p' hp'
        rw [List.map_cons, List.mem_cons, not_or] at hout
        exact ⟨hin, hout.2⟩
  · refine ⟨List.nodup_nil, hids.symm ▸ hnodup, fun p hp => (List.not_mem_nil hp).elim, ?_⟩
    intro p hp
    rw [← hids]
    exact List.mem_map_of_mem hp

theorem ensures_relink {sCand : List ℕ} {neigh : ℕ} (hg : g.LinksSound) (hp : g.Params)
    (hnodup : sCand.Nodup) (hcand : ∀ c ∈ sCand, g.HasLevel c level)
    (hneigh : g.HasLevel neigh level) (hother : ∃ c ∈ sCand, c ≠ neigh) :
    (relink S level sCand g neigh).Ensures (fun g' => Rewired g g' level) (fun _ => False) := by
  obtain ⟨own, hown⟩ := hneigh.exists
  have hkeep : 0 < min g.efConstruction
      (if neigh ∈ sCand then sCand.length - 1 else sCand.length) := by
    obtain ⟨c, hc, hne⟩ := hother
    refine lt_min hp.ef_pos ?_
    split_ifs with hmem
    · rw [← List.length_erase_of_mem hmem]
      exact List.length_pos_of_mem ((List.mem_erase_of_ne hne).mpr hc)
    · exact List.length_pos_of_mem hc
  unfold relink
  dsimp only
  refine Except.ensures_bind (ensures_keepNearest hkeep (hnodup.filter _) _) fun q hq => ?_
  obtain ⟨hnd, hlen, hsub⟩ := popAll_heuristic g (g.cap level) hq.1
  refine Except.ensures_bind (Q := (own = ·)) ?_ ?_
  · rw [getLinkList_of_some hown]
    exact Except.ensures_ok.mpr rfl
  rintro _ rfl
  refine Except.ensures_bind (LinkList.ensures_fill (hg neigh level own hown).lists.size
    (hp.cap_le level) hlen) fun l hl => Except.ensures_ok.mpr ?_
  have hmem : ∀ c ∈ popAll S (g.getNeighborsByHeuristic2 S q (g.cap level)),
      c ∈ sCand ∧ c ≠ neigh := by
    intro c hc
    obtain ⟨p, hp, rfl⟩ := hsub c hc
    simpa using hq.2 p hp
  refine Rewired.set ⟨.refl g, hg, fun _ _ _ => rfl⟩ hneigh (Linked.of_lists _ hl hnd ?_ ?_)
  · exact fun hself => (hmem neigh hself).2 rfl
  · exact fun c hc => hcand c (hmem c hc).1

theorem ensures_relinkLayer (hg : g.LinksSound) (hp : g.Params) (hid : g.HasLevel id level) :
    (relinkLayer S id g level).Ensures (fun g' => SameShape g g' ∧ g'.LinksSound)
      (fun _ => False) := by
  obtain ⟨own, hown⟩ := hid.exists
  have hlinked := hg id level own hown
  unfold relinkLayer
  refine Except.ensures_bind (Q := (own.links = ·)) ?_ ?_
  · rw [getConnections_of_some hown]
    exact Except.ensures_ok.mpr rfl
  rintro _ rfl
  split_ifs
  · exact Except.ensures_ok.mpr ⟨.refl g, hg⟩
  refine Except.ensures_bind (Except.ensures_mapM (R := fun hop => ∀ c ∈ hop, g.HasLevel c level)
    fun c hc => ?_) fun hops hhops => ?_
  · obtain ⟨ids, hids, hlevel⟩ := hg.connections (hlinked.hasLevel c hc)
    rw [hids]
    exact Except.ensures_ok.mpr (List.forall_mem_cons.mpr ⟨hlinked.hasLevel c hc, hlevel⟩)
  · dsimp only
    have hcand : ∀ c ∈ S.iterate (id :: hops.flatten), g.HasLevel c level := by
      intro c hc
      rw [S.mem_iterate, List.mem_cons, List.mem_flatten] at hc
      obtain rfl | ⟨hop, hhop, hc⟩ := hc
      · exact hid
      · exact hhops hop hhop c hc
    refine (Except.ensures_foldlM (I := fun rest g' => (SameShape g g' ∧ g'.LinksSound) ∧
      ∀ c ∈ rest, c ∈ own.links) ?_ ⟨⟨.refl g, hg⟩, fun c hc => (S.mem_iterate _ _).mp hc⟩).mono
      (fun g' h => h.1) fun _ h => h
    rintro neigh rest g' ⟨⟨hshape, hlinks⟩, hrest⟩
    have hneigh := hrest neigh (List.mem_cons_self ..)
    refine (ensures_relink hlinks (hshape.params hp) (S.iterate_nodup _)
      (fun c hc => hshape.hasLevel.mpr (hcand c hc))
      (hshape.hasLevel.mpr (hlinked.hasLevel neigh hneigh)) ⟨id, ?_, ?_⟩).mono
      (fun g'' h => ⟨⟨hshape.trans h.shape, h.sound⟩, fun c hc =>
        hrest c (List.mem_cons_of_mem _ hc)⟩) fun _ h => h
    · exact (S.mem_iterate _ _).mpr (List.mem_cons_self ..)
    · rintro rfl
      exact hlinked.not_self hneigh

/-! ## The slot itself -/

theorem ensures_repairLevel {s : HnswGraph P × ℕ} {ep : ℕ} (hlinks : s.1.LinksSound)
    (hp : s.1.Params) (hlen : s.1.linkLists.length = s.1.curElementCount)
    (hfrom : s.1.HasLevel s.2 level) (hep : s.1.HasLevel ep level) (hid : s.1.HasLevel id level)
    (hmark : s.1.isMarkedDeleted id = false) :
    (repairLevel S data ep id s level).Ensures
      (fun r => SameShape s.1 r.1 ∧ r.1.LinksSound ∧ s.1.HasLevel r.2 level) (fun _ => False) := by
  unfold repairLevel
  refine Except.ensures_bind (ensures_searchBaseLayer hlinks hp hlen hfrom) fun found hfound => ?_
  obtain ⟨hnodup, _, hmem⟩ := hfound
  dsimp only
  have hperm := (S.topCandidates.ofElements_perm
    ((S.topCandidates.toList found).filter (·.2 ≠ id)))
  set filtered := S.topCandidates.ofElements ((S.topCandidates.toList found).filter (·.2 ≠ id))
  have hfiltered : ∀ p ∈ filtered, p ∈ found ∧ p.2 ≠ id := by
    intro p hp
    simpa using hperm.mem_iff.mp hp
  have hnd : (filtered.map (·.2)).Nodup := by
    have hsub : filtered.Subperm found := hperm.subperm.trans
      (List.filter_sublist.subperm.trans (S.topCandidates.toList_perm found).subperm)
    exact hsub.nodup_map hnodup
  split_ifs with hnil
  · exact Except.ensures_ok.mpr ⟨.refl _, hlinks, hfrom⟩
  · have hnew : s.1.isMarkedDeleted ep = true → ∀ p ∈ filtered, p.2 ≠ ep := by
      rintro hdel p hp rfl
      rw [(hmem p (hfiltered p hp).1).2.1] at hdel
      cases hdel
    obtain ⟨hnd', hnil', hin⟩ := addDeletedEntry_spec data hp hnd hnew
    refine (ensures_mutuallyConnect hlinks hp hid hnd' (fun p hp => ?_) fun hup => by cases hup).mono
      (fun r h => ⟨h.1.shape, h.1.sound, h.2.1⟩) fun f h => hnil (hnil' h.2).1
    obtain hp | ⟨hdel, heq⟩ := hin p hp
    · exact ⟨(hmem p (hfiltered p hp).1).1, (hfiltered p hp).2⟩
    · refine ⟨heq ▸ hep, ?_⟩
      rintro rfl
      rw [← heq, hmark] at hdel
      cases hdel

theorem ensures_repairConnections (hg : g.Sound) {ep maxlevel dataPointLevel : ℕ}
    (hep : g.HasLevel ep maxlevel) (hid : g.HasLevel id dataPointLevel)
    (hle : dataPointLevel ≤ maxlevel) (hmark : g.isMarkedDeleted id = false) :
    (g.repairConnectionsForUpdate S data ep id dataPointLevel maxlevel).Ensures
      (fun g' => SameShape g g' ∧ g'.LinksSound) (fun _ => False) := by
  unfold repairConnectionsForUpdate
  refine Except.ensures_bind (Q := fun currObj => g.HasLevel currObj dataPointLevel) ?_
    fun currObj hcurr => ?_
  · split_ifs
    · exact (ensures_descend data hg.links hg.length (hg.length.trans_le hg.count_le) false hep
        hle).mono
        (fun _ h => h.1) fun _ h => h
    · exact Except.ensures_ok.mpr (hep.mono hle)
  · rw [if_neg (by omega)]
    refine Except.ensures_map ((Except.ensures_forDown (I := fun n s => SameShape g s.1 ∧
      s.1.LinksSound ∧ g.HasLevel s.2 (n - 1) ∧ n ≤ dataPointLevel + 1) ?_
      ⟨.refl g, hg.links, hcurr, le_rfl⟩).mono (fun s h => ⟨h.1, h.2.1⟩) fun _ h => h)
    rintro n s ⟨hshape, hlinks, hlevel, hn⟩
    rw [Nat.zero_add]
    have hsound := hg.of_sameShape hshape hlinks
    refine (ensures_repairLevel hlinks hsound.params hsound.length (hshape.hasLevel.mpr hlevel)
      (hshape.hasLevel.mpr (hep.mono (by omega))) (hshape.hasLevel.mpr (hid.mono (by omega))) ?_).mono
      (fun r h => ?_) fun _ h => h
    · unfold isMarkedDeleted
      rw [hshape.store]
      exact hmark
    · exact ⟨hshape.trans h.1, h.2.1, (hshape.hasLevel.mp h.2.2).mono (by omega), by omega⟩

/-! ## The update -/

/-- A graph with the same links over a store with as many slots. -/
theorem Sound.transfer (h : g.Sound) (hlists : g'.linkLists = g.linkLists) (hm : g'.m = g.m)
    (hef : g'.efConstruction = g.efConstruction) (hentry : g'.entry = g.entry)
    (hcount : g'.curElementCount = g.curElementCount)
    (hmax : g'.curElementCount ≤ g'.store.maxElements) : g'.Sound := by
  have hlink : ∀ id level, g'.linkList? id level = g.linkList? id level := by
    intro id level
    unfold linkList?
    rw [hlists]
  have hlevel : ∀ id level, g'.HasLevel id level ↔ g.HasLevel id level := by
    intro id level
    unfold HasLevel
    rw [hlink]
  have hcap : ∀ level, g'.cap level = g.cap level := by
    intro level
    unfold cap
    rw [hm]
  refine ⟨⟨?_, ?_, ?_⟩, fun id level l hl => ?_, ?_, hmax, fun id hid => ?_,
    fun ep maxlevel he => ?_, fun he => ?_⟩
  · exact hm ▸ h.params.m_pos
  · exact hm ▸ h.params.m_le
  · exact hef ▸ h.params.ef_pos
  · have hold := h.links id level l (hlink id level ▸ hl)
    exact ⟨hcap level ▸ hold.lists, hold.nodup, hold.not_self,
      fun c hc => (hlevel c level).mpr (hold.hasLevel c hc)⟩
  · rw [hlists, hcount, h.length]
  · exact (hlevel id 0).mpr (h.base id (hcount ▸ hid))
  · obtain ⟨hep, hbound⟩ := h.entry ep maxlevel (hentry ▸ he)
    exact ⟨(hlevel ep maxlevel).mpr hep, fun id level hid => hbound id level ((hlevel id level).mp hid)⟩
  · rw [hlists]
    exact h.empty (hentry ▸ he)

theorem curElementCount_updatePoint (store : HierarchicalNSW P) (data : List UInt32) (id : ℕ) :
    (store.updatePoint data id).curElementCount = store.curElementCount := by
  unfold HierarchicalNSW.curElementCount HierarchicalNSW.updatePoint
  exact List.length_modify ..

theorem isMarkedDeleted_updatePoint (store : HierarchicalNSW P) (id id' : ℕ) :
    (store.updatePoint data id).isMarkedDeleted id' = store.isMarkedDeleted id' := by
  unfold HierarchicalNSW.isMarkedDeleted HierarchicalNSW.updatePoint
  dsimp only
  rw [List.getElem?_modify]
  cases store.elements[id']? with
  | none => rfl
  | some el =>
    by_cases hid : id = id'
    · simp [hid]
    · simp [hid]

theorem ensures_updatePoint (hg : g.Sound) (hid : id < g.curElementCount)
    (hmark : g.isMarkedDeleted id = false) :
    (g.updatePoint S data id).Ensures (fun r => r.Sound ∧
      r.store = g.store.updatePoint data id ∧ r.numDeleted = g.numDeleted) (fun _ => False) := by
  have hcount := curElementCount_updatePoint g.store data id
  have hg₁ : ({ g with store := g.store.updatePoint data id } : HnswGraph P).Sound :=
    hg.transfer rfl rfl rfl rfl hcount (hcount.trans_le hg.count_le)
  set g₁ : HnswGraph P := { g with store := g.store.updatePoint data id } with hdef
  have hid₀ : g₁.HasLevel id 0 := hg.base id hid
  have hdone : ∀ r, SameShape g₁ r → r.LinksSound →
      r.Sound ∧ r.store = g.store.updatePoint data id ∧ r.numDeleted = g.numDeleted := by
    intro r hshape hlinks
    refine ⟨hg₁.of_sameShape hshape hlinks, ?_, ?_⟩
    · rw [hshape.rest]
    · rw [hshape.rest]
  unfold updatePoint
  rw [← hdef]
  dsimp only
  cases hentry : g₁.entry with
  | none =>
    have hlen := hid₀.lt_length
    rw [hg₁.empty hentry] at hlen
    cases hlen
  | some e =>
    obtain ⟨ep, maxlevel⟩ := e
    obtain ⟨hep, hmax⟩ := hg₁.entry ep maxlevel hentry
    dsimp only
    split_ifs
    · exact Except.ensures_ok.mpr (hdone g₁ (.refl g₁) hg₁.links)
    · refine Except.ensures_bind (Q := fun g' => SameShape g₁ g' ∧ g'.LinksSound) ?_
        fun g' hg' => ?_
      · refine (Except.ensures_foldlM (I := fun rest g' => (SameShape g₁ g' ∧ g'.LinksSound) ∧
          ∀ layer ∈ rest, layer ≤ g₁.elementLevel id) ?_
          ⟨⟨.refl g₁, hg₁.links⟩, fun layer h => ?_⟩).mono (fun g' h => h.1) fun _ h => h
        · rintro layer rest g' ⟨⟨hshape, hlinks⟩, hrest⟩
          have hlayer := hid₀.elementLevel.mono (hrest layer (List.mem_cons_self ..))
          refine (ensures_relinkLayer hlinks (hshape.params hg₁.params)
            (hshape.hasLevel.mpr hlayer)).mono (fun g'' h => ?_) fun _ h => h
          exact ⟨⟨hshape.trans h.1, h.2⟩, fun i hi => hrest i (List.mem_cons_of_mem _ hi)⟩
        · rw [List.mem_range] at h
          omega
      · obtain ⟨hshape, hlinks⟩ := hg'
        have hlevel := hmax id _ hid₀.elementLevel
        refine (ensures_repairConnections (hg₁.of_sameShape hshape hlinks)
          (hshape.hasLevel.mpr hep) (hshape.hasLevel.mpr hid₀.elementLevel) hlevel ?_).mono
          (fun r h => hdone r (hshape.trans h.1) h.2) fun _ h => h
        unfold isMarkedDeleted
        rw [hshape.store, hdef]
        exact (isMarkedDeleted_updatePoint g.store id id).trans hmark

end HnswGraph

end MyKvRaft
