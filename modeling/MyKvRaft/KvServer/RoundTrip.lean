import MyKvRaft.KvServer.IndexFile
import MyKvRaft.KvServer.Searching

/-!
# The engine that is loaded

Is a recall engine that has read what another one wrote as good as that one? Two things
differ: deleted items have become active, and the index does not take over slots any more.

* `Begun.call`, `Mapped.call`, `Direct.addPoint`: what calls keep.
* `observed_full`: over an index without any room only the tables matter.
* `index_round_trip`: when saving and loading changes nothing.
-/

namespace MyKvRaft

open Transition

variable {P : Libs}

namespace RecallEngine

/-- The constructor. -/
def construct (P : Libs) (maxElements : ℕ) (allowReplaceDeleted : Bool) : RecallEngine P :=
  { create P maxElements with
    index := HierarchicalNSW.create P maxElements allowReplaceDeleted }

/-- What a caller that goes on after exceptions sees of the calls: which of them throw, and the
    tables and slots after each. -/
def observed (e : RecallEngine P) (calls : List EngineCall) :
    List (Bool × Tables × List Element) :=
  Outcome.observe (callOutcome (.source P)) (fun e => (e.tables, e.index.elements)) e calls

/-- The loaded engine has the tables of the saved one, and does the same under every later
    sequence of upserts and deletions. -/
structure RoundTrip (e loaded : RecallEngine P) : Prop where
  tables : loaded.tables = e.tables
  later : ∀ calls : List EngineCall, (∀ c ∈ calls, c.isAddPoint = false) →
    loaded.observed calls = e.observed calls

end RecallEngine

/-! ## Engines reached by calls -/

namespace HierarchicalNSW

variable {ix ix' : HierarchicalNSW P} {data : List UInt32} {l : UInt64} {replace : Bool}

theorem length_unmarkDeletedInternal {id : ℕ} (hres : ix.unmarkDeletedInternal id = some ix') :
    ix'.elements.length = ix.elements.length := by
  unfold unmarkDeletedInternal at hres
  dsimp only at hres
  split_ifs at hres
  · cases hres
    exact List.length_modify _ _ _
  · cases hres
    exact List.length_modify _ _ _

theorem length_addPointAtLevel (hadd : ix.addPointAtLevel data l = some ix') :
    ix.elements.length ≤ ix'.elements.length := by
  unfold addPointAtLevel at hadd
  cases hl : ix.labelLookup l with
  | none =>
    simp only [hl] at hadd
    split_ifs at hadd
    cases hadd
    simp
  | some id =>
    simp only [hl] at hadd
    split_ifs at hadd
    · obtain ⟨ix₁, hunmark, rfl⟩ := Option.map_eq_some_iff.mp hadd
      exact (length_unmarkDeletedInternal hunmark).ge.trans (List.length_modify _ _ _).ge
    · cases hadd
      exact (List.length_modify _ _ _).ge

/-- No slot is ever taken away. -/
theorem length_addPoint (hadd : ix.addPoint data l replace = some ix') :
    ix.elements.length ≤ ix'.elements.length := by
  unfold addPoint at hadd
  split_ifs at hadd
  · exact length_addPointAtLevel hadd
  · cases hfirst : P.first ix.deletedElements with
    | none =>
      rw [hfirst] at hadd
      exact length_addPointAtLevel hadd
    | some id =>
      rw [hfirst] at hadd
      obtain ⟨ix₁, hunmark, rfl⟩ := Option.map_eq_some_iff.mp hadd
      have hlen := length_unmarkDeletedInternal hunmark
      simp only [setExternalLabel, List.length_modify] at hlen
      simp only [updatePoint, List.length_modify]
      omega

theorem length_markDelete (hres : ix.markDelete l = some ix') :
    ix'.elements.length = ix.elements.length := by
  unfold markDelete markDeletedInternal at hres
  dsimp only at hres
  cases hl : ix.labelLookup l with
  | none =>
    rw [hl] at hres
    cases hres
  | some id =>
    simp only [hl] at hres
    split_ifs at hres
    · cases hres
      exact List.length_modify _ _ _
    · cases hres
      exact List.length_modify _ _ _

theorem first_emptySet (P : Libs) : P.first P.emptySet = none := by
  by_contra hne
  obtain ⟨id, hfirst⟩ := Option.ne_none_iff_exists'.mp hne
  have hin := P.first_some _ _ hfirst
  rw [P.contains_empty] at hin
  cases hin

/-- An index without slots takes the first one if it is not to be full without. -/
theorem create_addPoint {maxElements : ℕ} {r : Bool} :
    (create P maxElements r).addPoint data l replace =
      if r = false ∧ replace = true ∨ maxElements = 0 then none
      else some ((create P maxElements r).append data l) := by
  have hlevel : (create P maxElements r).addPointAtLevel data l =
      if maxElements = 0 then none else some ((create P maxElements r).append data l) := by
    show (if 0 ≥ maxElements then none else _) = _
    simp only [ge_iff_le, Nat.le_zero]
    rfl
  have hnone : P.first (create P maxElements r).deletedElements = none := first_emptySet P
  unfold addPoint
  rw [hnone, hlevel]
  cases r with
  | false =>
    cases replace with
    | false => simp [create]
    | true => simp [create]
  | true =>
    cases replace with
    | false => simp [create]
    | true => simp [create]

/-- Labels and slots stand for each other, and no slot can be taken over. -/
structure Direct (ix : HierarchicalNSW P) : Prop where
  replaces : ix.allowReplaceDeleted = false
  deleted : ix.deletedElements = P.emptySet
  single : ix.Single
  lookup : ∀ l id, ix.labelLookup l = some id → ∃ el, ix.elements[id]? = some el ∧ el.label = l

theorem direct_create (P : Libs) (maxElements : ℕ) : (create P maxElements false).Direct :=
  ⟨rfl, rfl, fun id el hel => by simp [create] at hel, fun l id hl => by cases hl⟩

/-- A slot is written to, but not its label. -/
theorem Direct.modify (h : ix.Direct) {f : Element → Element} (hf : ∀ el, (f el).label = el.label)
    (id : ℕ) : Direct { ix with elements := ix.elements.modify id f } := by
  refine ⟨h.replaces, h.deleted, h.single.modify hf id, fun l k hl => ?_⟩
  obtain ⟨el, hel, hlabel⟩ := h.lookup l k hl
  show ∃ el, (ix.elements.modify id f)[k]? = some el ∧ el.label = l
  rw [List.getElem?_modify, hel]
  refine ⟨_, rfl, ?_⟩
  split_ifs
  · exact (hf el).trans hlabel
  · exact hlabel

theorem Direct.append (h : ix.Direct) (hl : ix.labelLookup l = none) (data : List UInt32) :
    (ix.append data l).Direct := by
  refine ⟨h.replaces, h.deleted, h.single.append hl data, fun l' k hl' => ?_⟩
  show ∃ el, (ix.elements ++ [⟨l, data, false⟩])[k]? = some el ∧ el.label = l'
  change Function.update ix.labelLookup l (some ix.elements.length) l' = some k at hl'
  by_cases heq : l' = l
  · subst heq
    rw [Function.update_self] at hl'
    cases hl'
    exact ⟨_, List.getElem?_concat_length, rfl⟩
  · rw [Function.update_of_ne heq] at hl'
    obtain ⟨el, hel, hlabel⟩ := h.lookup l' k hl'
    exact ⟨el, (getElem?_append_lt (List.getElem?_eq_some_iff.mp hel).1 data l).trans hel, hlabel⟩

theorem Direct.setMark (h : ix.Direct) (id : ℕ) (deleted : Bool) : (ix.setMark id deleted).Direct :=
  h.modify (f := fun el => { el with deleted := deleted }) (fun _ => rfl) id

theorem Direct.updatePoint (h : ix.Direct) (data : List UInt32) (id : ℕ) :
    (ix.updatePoint data id).Direct :=
  h.modify (f := fun el => { el with data := data }) (fun _ => rfl) id

theorem Direct.addPoint (h : ix.Direct) (hadd : ix.addPoint data l replace = some ix') :
    ix'.Direct := by
  unfold HierarchicalNSW.addPoint at hadd
  rw [h.replaces] at hadd
  cases replace with
  | true => cases hadd
  | false =>
    have hlevel : ix.addPointAtLevel data l = some ix' := hadd
    unfold addPointAtLevel at hlevel
    cases hl : ix.labelLookup l with
    | none =>
      simp only [hl] at hlevel
      split_ifs at hlevel
      cases hlevel
      exact h.append hl data
    | some id =>
      simp only [hl, h.replaces, Bool.false_and, Bool.false_eq_true, if_false] at hlevel
      split_ifs at hlevel with hm
      · obtain ⟨ix₁, hunmark, rfl⟩ := Option.map_eq_some_iff.mp hlevel
        unfold unmarkDeletedInternal at hunmark
        rw [if_pos hm] at hunmark
        have hreplaces : (ix.setMark id false).allowReplaceDeleted = false := h.replaces
        simp only [hreplaces] at hunmark
        cases hunmark
        exact (h.setMark id false).updatePoint data id
      · cases hlevel
        exact h.updatePoint data id

theorem Direct.markDelete (h : ix.Direct) (hres : ix.markDelete l = some ix') : ix'.Direct := by
  unfold HierarchicalNSW.markDelete at hres
  cases hl : ix.labelLookup l with
  | none =>
    rw [hl] at hres
    cases hres
  | some id =>
    simp only [hl] at hres
    unfold markDeletedInternal at hres
    split_ifs at hres with hm
    have hreplaces : (ix.setMark id true).allowReplaceDeleted = false := h.replaces
    simp only [hreplaces] at hres
    cases hres
    exact h.setMark id true

theorem lookupOf_append (elements : List Element) (el : Element) :
    lookupOf (elements ++ [el]) =
      Function.update (lookupOf elements) el.label (some elements.length) := by
  unfold lookupOf
  rw [List.zipIdx_append, List.foldl_append]
  simp

/-- The table that is rebuilt has one of the slots of each label. -/
theorem lookupOf_spec (elements : List Element) (l : UInt64) :
    (∀ id, lookupOf elements l = some id → ∃ el, elements[id]? = some el ∧ el.label = l) ∧
      (lookupOf elements l = none → ∀ el ∈ elements, el.label ≠ l) := by
  induction elements using List.reverseRecOn with
  | nil => simp [lookupOf]
  | append_singleton elements el ih =>
    rw [lookupOf_append]
    by_cases heq : l = el.label
    · subst heq
      simp
    · rw [Function.update_of_ne heq]
      constructor
      · intro id hid
        obtain ⟨el', hel', hlabel⟩ := ih.1 id hid
        exact ⟨el', (List.getElem?_append_left (List.getElem?_eq_some_iff.mp hel').1).trans hel',
          hlabel⟩
      · intro hnone el' hel'
        rcases List.mem_append.mp hel' with hel' | hel'
        · exact ih.2 hnone el' hel'
        · rw [List.mem_singleton] at hel'
          subst hel'
          exact Ne.symm heq

/-- The index that is read from the file is the one that was written. -/
theorem Direct.ofFile_saveIndex (h : ix.Direct) (hne : ix.elements ≠ []) :
    ofFile P ix.saveIndex 0 false = ix := by
  have hlookup : lookupOf ix.elements = ix.labelLookup := by
    funext l
    obtain ⟨hsome, hnone⟩ := lookupOf_spec ix.elements l
    cases hl : lookupOf ix.elements l with
    | some id =>
      obtain ⟨el, hel, rfl⟩ := hsome id hl
      exact (h.single id el hel).symm
    | none =>
      by_contra hne
      obtain ⟨id, hid⟩ := Option.ne_none_iff_exists'.mp (Ne.symm hne)
      obtain ⟨el, hel, hlabel⟩ := h.lookup l id hid
      exact hnone hl el (List.mem_of_getElem? hel) hlabel
  have hpos : 0 < ix.elements.length := List.length_pos_iff.mpr hne
  have hset : ∀ (slots : List (Element × ℕ)) (ids : P.IdSet),
      slots.foldl (fun ids p => if p.1.deleted && false then P.insert ids p.2 else ids) ids =
        ids := by
    intro slots ids
    simp
  unfold ofFile saveIndex
  dsimp only
  rw [if_pos hpos, hlookup, hset, ← h.replaces, ← h.deleted]

end HierarchicalNSW

namespace RecallEngine

variable {e e' t : RecallEngine P} {c : EngineCall} {calls : List EngineCall} {maxElements : ℕ}
  {r : Bool} {labels : List (UInt64 × Bytes)} {deleted : List Bytes}

/-- Every active label is in the map. -/
def Mapped (e : RecallEngine P) : Prop := ∀ l ∈ e.activeLabels, e.labelToItemId l ≠ none

theorem Mapped.call (h : e.Mapped) (hres : e.call c = some e') : e'.Mapped := by
  intro l hl
  rcases call_cases hres with rfl | ⟨hs, _⟩ | ⟨_, _, hitems, hactive⟩
  · exact h l hl
  · rw [hs.active, Finset.mem_insert] at hl
    rw [hs.items]
    by_cases heq : l = P.hasher c.itemId
    · subst heq
      rw [Function.update_self]
      exact Option.some_ne_none _
    · rw [Function.update_of_ne heq]
      exact h l (hl.resolve_left heq)
  · rw [hactive] at hl
    rw [hitems]
    exact h l (Finset.mem_of_mem_erase hl)

/-- The engine is as it was constructed, or there is room, a slot and a label. -/
def Begun (maxElements : ℕ) (r : Bool) (e : RecallEngine P) : Prop :=
  e = construct P maxElements r ∨
    maxElements ≠ 0 ∧ e.index.elements ≠ [] ∧ ∃ l, e.labelToItemId l ≠ none

theorem Begun.call (h : e.Begun maxElements r) (hres : e.call c = some e') :
    e'.Begun maxElements r := by
  rcases call_cases hres with rfl | ⟨hs, data, replace, hadd⟩ | ⟨hin, hmark, hitems, _⟩
  · exact h
  · have hlabel : ∃ l, e'.labelToItemId l ≠ none := by
      refine ⟨P.hasher c.itemId, ?_⟩
      rw [hs.items, Function.update_self]
      exact Option.some_ne_none _
    rcases h with rfl | ⟨hroom, hne, _⟩
    · have hfirst : (HierarchicalNSW.create P maxElements r).addPoint data
          (P.hasher c.itemId) replace = some e'.index := hadd
      rw [HierarchicalNSW.create_addPoint] at hfirst
      split_ifs at hfirst with hfull
      refine .inr ⟨fun hzero => hfull (.inr hzero), ?_, hlabel⟩
      rw [← Option.some.inj hfirst]
      exact List.concat_ne_nil _ _
    · refine .inr ⟨hroom, fun hnil => ?_, hlabel⟩
      have hle := HierarchicalNSW.length_addPoint hadd
      rw [hnil] at hle
      exact hne (List.length_eq_zero_iff.mp (Nat.le_zero.mp hle))
  · rcases h with rfl | ⟨hroom, hne, hlabel⟩
    · exact absurd hin (Finset.notMem_empty _)
    · refine .inr ⟨hroom, fun hnil => hne ?_, hitems ▸ hlabel⟩
      have hlen := HierarchicalNSW.length_markDelete hmark
      rw [hnil] at hlen
      exact List.length_eq_zero_iff.mp hlen.symm

theorem direct_call (h : e.index.Direct) (hres : e.call c = some e') : e'.index.Direct := by
  rcases call_cases hres with rfl | ⟨_, data, replace, hadd⟩ | ⟨_, hmark, _⟩
  · exact h
  · exact h.addPoint hadd
  · exact h.markDelete hmark

theorem mapped_callAll (hreach : (construct P maxElements r).callAll calls = some e) :
    e.Mapped :=
  foldlM_invariant (fun _ _ _ h hres => h.call hres)
    (fun l hl => absurd hl (Finset.notMem_empty l)) hreach

theorem begun_callAll (hreach : (construct P maxElements r).callAll calls = some e) :
    e.Begun maxElements r :=
  foldlM_invariant (fun _ _ _ h hres => h.call hres) (.inl rfl) hreach

theorem direct_callAll (hreach : (construct P maxElements false).callAll calls = some e) :
    e.index.Direct :=
  foldlM_invariant (I := fun e : RecallEngine P => e.index.Direct)
    (fun _ _ _ h hres => direct_call h hres) (HierarchicalNSW.direct_create P maxElements) hreach

/-! ## The loaded engine -/

/-- The label of every item in the map is active, and the loading engine has no deleted item of
    its own. -/
def Restorable (e t : RecallEngine P) : Prop :=
  (∀ l, e.labelToItemId l ≠ none → l ∈ e.activeLabels) ∧ t.deletedItems ⊆ e.deletedItems

theorem tables_loaded (h : e.Mapped) (henum : e.Enumerates labels deleted) :
    (e.loaded t labels).tables = e.tables ↔ e.Restorable t := by
  have hkeys : ∀ l, l ∈ (labels.map (·.1)).toFinset ↔ e.labelToItemId l ≠ none := by
    intro l
    rw [List.mem_toFinset, List.mem_map, Option.ne_none_iff_exists']
    constructor
    · rintro ⟨⟨l, itemId⟩, hmem, rfl⟩
      exact ⟨itemId, (henum.mem_labels l itemId).mp hmem⟩
    · rintro ⟨itemId, hitem⟩
      exact ⟨(l, itemId), (henum.mem_labels l itemId).mpr hitem, rfl⟩
  have hactive : (labels.map (·.1)).toFinset = e.activeLabels ↔
      ∀ l, e.labelToItemId l ≠ none → l ∈ e.activeLabels := by
    rw [Finset.ext_iff]
    exact forall_congr' fun l => by
      rw [hkeys]
      exact ⟨Iff.mp, fun himp => ⟨himp, h l⟩⟩
  rw [tables_eq_iff]
  show _ = _ ∧ (labels.map (·.1)).toFinset = _ ∧ t.deletedItems ∪ e.deletedItems = _ ↔ _
  rw [hactive, Finset.union_eq_right]
  exact and_iff_right rfl

theorem hasThrown_callOutcome : (e.callOutcome (.source P) c).hasThrown = (e.call c).isNone := by
  cases hcall : e.call c with
  | some e' =>
    rw [callOutcome_eq_returned.mpr hcall]
    rfl
  | none =>
    cases hout : e.callOutcome (.source P) c with
    | threw e' => rfl
    | returned e' =>
      rw [callOutcome_eq_returned] at hout
      rw [hout] at hcall
      cases hcall

/-- On the loaded engine the same upserts throw. -/
theorem RoundTrip.upsertPoint (h : RoundTrip e e') (itemId : Bytes) (embedding : List UInt32) :
    e'.upsertPoint itemId embedding = none ↔ e.upsertPoint itemId embedding = none := by
  have hobs := h.later [.upsertPoint itemId embedding] (by simp [EngineCall.isAddPoint])
  have hthrown := congrArg (fun o => o.map (·.1)) hobs
  simp only [observed, Outcome.observe, List.map_cons, List.map_nil, hasThrown_callOutcome,
    List.cons.injEq, and_true] at hthrown
  rw [← Option.isNone_iff_eq_none, ← Option.isNone_iff_eq_none]
  exact Bool.eq_iff_iff.mp hthrown

/-- An upsert of an active item asks the index to take over a slot, which it never does after it
    has been read from a file. -/
theorem upsertPoint_loaded {itemId : Bytes} {embedding : List UInt32}
    (hactive : P.hasher itemId ∈ (labels.map (·.1)).toFinset) :
    (e.loaded t labels).upsertPoint itemId embedding = none := by
  have hin : P.hasher itemId ∈ (e.loaded t labels).activeLabels := hactive
  unfold RecallEngine.upsertPoint
  simp only [hin, decide_true]
  rfl

/-- How a call ends over an index without any room, and the tables it leaves. -/
def Tables.whenFull (P : Libs) (t : Tables) : EngineCall → Bool × Tables
  | .addPoint itemId _ =>
    if P.hasher itemId ∈ t.activeLabels then (false, t)
    else (true, t.store (P.hasher itemId) itemId)
  | .upsertPoint itemId _ => (true, t.store (P.hasher itemId) itemId)
  | .deletePoint itemId => (decide (P.hasher itemId ∈ t.activeLabels), t)

theorem create_addPoint_threw (data : List UInt32) (l : UInt64) (replace : Bool) :
    (Hnsw.source P).addPoint (HierarchicalNSW.create P 0 r) data l replace =
      .threw (HierarchicalNSW.create P 0 r) := by
  have hleft : (HierarchicalNSW.create P 0 r).addPointThrown l replace =
      HierarchicalNSW.create P 0 r := by
    have hnone : P.first (HierarchicalNSW.create P 0 r).deletedElements = none :=
      HierarchicalNSW.first_emptySet P
    unfold HierarchicalNSW.addPointThrown
    rw [hnone]
    exact ite_self _
  show Outcome.ofOption _ _ = _
  rw [HierarchicalNSW.create_addPoint, if_pos (.inr rfl), hleft]
  rfl

theorem callOutcome_full (hix : e.index = HierarchicalNSW.create P 0 r) (c : EngineCall) :
    (e.callOutcome (.source P) c).hasThrown = (e.tables.whenFull P c).1 ∧
      (e.callOutcome (.source P) c).state.tables = (e.tables.whenFull P c).2 ∧
      (e.callOutcome (.source P) c).state.index = e.index := by
  cases c with
  | addPoint itemId embedding =>
    show (e.addPointOutcome _ _ _).hasThrown = _ ∧ (e.addPointOutcome _ _ _).state.tables = _ ∧
      (e.addPointOutcome _ _ _).state.index = _
    by_cases hin : P.hasher itemId ∈ e.activeLabels
    · have hsame : e.addPointOutcome (.source P) itemId embedding = .returned e := if_pos hin
      have hwhen : e.tables.whenFull P (.addPoint itemId embedding) = (false, e.tables) := if_pos hin
      rw [hsame, hwhen]
      exact ⟨rfl, rfl, rfl⟩
    · obtain ⟨f, heq, hf⟩ := addPointOutcome_eq (.source P) embedding hin
      have hwhen : e.tables.whenFull P (.addPoint itemId embedding) =
          (true, e.tables.store (P.hasher itemId) itemId) := if_neg hin
      rw [hix, create_addPoint_threw] at heq
      rw [heq, hwhen, hix]
      exact ⟨rfl, (hf _).2, (hf _).1⟩
  | upsertPoint itemId embedding =>
    show (e.upsertPointOutcome _ _ _).hasThrown = _ ∧
      (e.upsertPointOutcome _ _ _).state.tables = _ ∧ (e.upsertPointOutcome _ _ _).state.index = _
    obtain ⟨f, heq, hf⟩ := upsertPointOutcome_eq (.source P) e itemId embedding
    rw [hix, create_addPoint_threw] at heq
    rw [heq, hix]
    exact ⟨rfl, (hf _).2, (hf _).1⟩
  | deletePoint itemId =>
    show (e.deletePointOutcome _ _).hasThrown = _ ∧ (e.deletePointOutcome _ _).state.tables = _ ∧
      (e.deletePointOutcome _ _).state.index = _
    have hwhen : e.tables.whenFull P (.deletePoint itemId) =
        (decide (P.hasher itemId ∈ e.activeLabels), e.tables) := rfl
    unfold deletePointOutcome
    dsimp only
    by_cases hin : P.hasher itemId ∈ e.activeLabels
    · have hmark : (Hnsw.source P).markDelete e.index (P.hasher itemId) = .threw e.index := by
        rw [hix]
        rfl
      rw [if_neg (not_not.mpr hin), hmark, hwhen, decide_eq_true hin]
      exact ⟨rfl, rfl, rfl⟩
    · rw [if_pos hin, hwhen, decide_eq_false hin]
      exact ⟨rfl, rfl, rfl⟩

/-- Over an index without any room only the tables matter. -/
theorem observed_full {r' : Bool} (htables : e.tables = e'.tables)
    (hix : e.index = HierarchicalNSW.create P 0 r)
    (hix' : e'.index = HierarchicalNSW.create P 0 r') (calls : List EngineCall) :
    e.observed calls = e'.observed calls := by
  refine Outcome.observe_congr (R := fun e e' => e.tables = e'.tables ∧
    e.index = HierarchicalNSW.create P 0 r ∧ e'.index = HierarchicalNSW.create P 0 r') ?_ ?_
    ⟨htables, hix, hix'⟩ calls
  · rintro e e' ⟨htables, hix, hix'⟩
    rw [htables, hix, hix']
    rfl
  · rintro e e' c ⟨htables, hix, hix'⟩
    obtain ⟨hthrown, hstate, hindex⟩ := callOutcome_full hix c
    obtain ⟨hthrown', hstate', hindex'⟩ := callOutcome_full hix' c
    rw [hthrown, hthrown', hstate, hstate', hindex, hindex', htables]
    exact ⟨rfl, rfl, hix, hix'⟩

/-- An engine that still is as it was constructed, with room for an item. -/
theorem construct_upsertPoint (hroom : maxElements ≠ 0) (itemId : Bytes)
    (embedding : List UInt32) :
    (construct P maxElements r).upsertPoint itemId embedding ≠ none := by
  have hadd : (construct P maxElements r).index.addPoint embedding (P.hasher itemId) false ≠
      none := by
    show (HierarchicalNSW.create P maxElements r).addPoint _ _ _ ≠ none
    rw [HierarchicalNSW.create_addPoint, if_neg (by simpa using hroom)]
    exact Option.some_ne_none _
  intro hnone
  exact hadd (Option.map_eq_none_iff.mp hnone)

/-- A loaded index without slots has no room. -/
theorem upsertPoint_loaded_empty (hnil : e.index.elements = []) (itemId : Bytes)
    (embedding : List UInt32) : (e.loaded t labels).upsertPoint itemId embedding = none := by
  have hindex : (e.loaded t labels).index = HierarchicalNSW.create P 0 false := by
    show HierarchicalNSW.ofFile P ⟨e.index.maxElements, e.index.elements⟩ 0 false = _
    rw [hnil]
    rfl
  have hadd : ∀ replace,
      (e.loaded t labels).index.addPoint embedding (P.hasher itemId) replace = none := by
    intro replace
    rw [hindex, HierarchicalNSW.create_addPoint, if_pos (.inr rfl)]
  exact Option.map_eq_none_iff.mpr (hadd _)

theorem eq_of_tables (hindex : e'.index = e.index) (htables : e'.tables = e.tables) : e' = e := by
  obtain ⟨hitems, hactive, hdeleted⟩ := tables_eq_iff.mp htables
  obtain ⟨index, items, deletedItems, active⟩ := e
  obtain ⟨index', items', deletedItems', active'⟩ := e'
  cases hindex
  cases hitems
  cases hactive
  cases hdeleted
  rfl

end RecallEngine

open RecallEngine in
/-- For every engine that calls have reached without an exception, and every engine that loads
    what it saved: the label map, the active labels and the deleted items are restored and the
    engine goes on as the saved one would, if and only if every label of the map is active, the
    loading engine has no other deleted items, and the engine had no room at all, or never took
    over slots and holds at least one. -/
theorem index_round_trip (P : Libs) (maxElements : ℕ) (r : Bool) (calls : List EngineCall)
    (e t : RecallEngine P) (labels : List (UInt64 × Bytes)) (deleted : List Bytes)
    (hreach : (construct P maxElements r).callAll calls = some e)
    (henum : e.Enumerates labels deleted) (hfits : FitsFile labels deleted) :
    (∃ n loaded, t.loadIndex (e.saveIndex labels deleted) = some (n, loaded) ∧
      RoundTrip e loaded) ↔
    e.Restorable t ∧ (maxElements = 0 ∨ (r = false ∧ e.index.elements ≠ [])) := by
  have hmapped := mapped_callAll hreach
  have hbegun := begun_callAll hreach
  rw [loadIndex_saveIndex henum hfits]
  constructor
  · rintro ⟨n, loaded, heq, htrip⟩
    cases heq
    refine ⟨(tables_loaded hmapped henum).mp htrip.tables, ?_⟩
    by_contra hcond
    obtain ⟨hroom, hkind⟩ := not_or.mp hcond
    rcases hbegun with rfl | ⟨_, hne, l, hlabel⟩
    · -- nothing is stored: the loaded index has no room
      exact construct_upsertPoint hroom [] []
        ((htrip.upsertPoint [] []).mp (upsertPoint_loaded_empty rfl [] []))
    · -- an active item: the loaded index does not take over slots
      obtain rfl : r = true := by
        by_contra hr
        exact hkind ⟨Bool.eq_false_iff.mpr hr, hne⟩
      have hvalid : e.Valid := (valid_create P maxElements).callAll hreach
      have hactive := ((tables_loaded hmapped henum).mp htrip.tables).1 l hlabel
      obtain ⟨itemId, hitem, rfl, _⟩ := hvalid.item l hactive
      have hloaded : (e.loaded t labels).upsertPoint itemId [] = none := by
        refine upsertPoint_loaded (List.mem_toFinset.mpr (List.mem_map.mpr ?_))
        exact ⟨(P.hasher itemId, itemId), (henum.mem_labels _ _).mpr hitem, rfl⟩
      exact (upsertPoint_ne_none hvalid).mpr (.inl hactive)
        ((htrip.upsertPoint itemId []).mp hloaded)
  · rintro ⟨hrestore, hkind⟩
    have htables : (e.loaded t labels).tables = e.tables := (tables_loaded hmapped henum).mpr hrestore
    refine ⟨_, _, rfl, htables, fun later _ => ?_⟩
    rcases hkind with rfl | ⟨rfl, hne⟩
    · rcases hbegun with rfl | ⟨hroom, _⟩
      · exact observed_full (r := false) htables rfl rfl later
      · exact absurd rfl hroom
    · have hindex : (e.loaded t labels).index = e.index :=
        (direct_callAll hreach).ofFile_saveIndex hne
      rw [eq_of_tables hindex htables]

/-- An engine that takes over no slots, with one item. -/
theorem index_round_trip_oneItem : ∃ e,
    (RecallEngine.construct listLibs 2 false).callAll [.upsertPoint [97] [1]] = some e ∧
    ∃ n loaded, (RecallEngine.create listLibs 4).loadIndex
      (e.saveIndex [(listLibs.hasher [97], [97])] []) = some (n, loaded) ∧
        RecallEngine.RoundTrip e loaded := by
  obtain ⟨e, hreach⟩ : ∃ e, (RecallEngine.construct listLibs 2 false).callAll
      [.upsertPoint [97] [1]] = some e := Option.isSome_iff_exists.mp (by decide +kernel)
  have hone : (RecallEngine.construct listLibs 2 false).upsertPoint [97] [1] = some e :=
    (RecallEngine.callAll_snoc _ [] _).symm.trans hreach
  obtain ⟨hs, hadd⟩ := RecallEngine.upsertPoint_stored hone
  have henum : e.Enumerates [(listLibs.hasher [97], [97])] [] := by
    refine ⟨List.nodup_singleton _, fun label itemId => ?_, List.nodup_nil, fun itemId => ?_⟩
    · rw [hs.items, List.mem_singleton, Prod.mk.injEq]
      by_cases heq : label = listLibs.hasher [97]
      · subst heq
        simp [eq_comm]
      · simp [heq, RecallEngine.construct, RecallEngine.create]
    · rw [hs.deleted]
      exact iff_of_false List.not_mem_nil (Finset.notMem_empty _)
  have hne : e.index.elements ≠ [] := by
    have hlen := (HierarchicalNSW.create_addPoint ..).symm.trans hadd
    rw [if_neg (by decide)] at hlen
    rw [← Option.some.inj hlen]
    exact List.concat_ne_nil _ _
  refine ⟨e, hreach, (index_round_trip listLibs 2 false _ e _ _ [] hreach henum
    ⟨by decide, by decide, by decide, by decide⟩).mpr ⟨⟨fun l hl => ?_, ?_⟩, .inr ⟨rfl, hne⟩⟩⟩
  · rw [hs.active, Finset.mem_insert]
    by_contra hnot
    rw [hs.items, Function.update_of_ne (fun heq => hnot (.inl heq))] at hl
    exact hl rfl
  · exact Finset.empty_subset _

/-- The loaded engine throws where the saved one does not, and takes a deleted item for an active
    one. -/
theorem index_round_trip_fails :
    ((RecallEngine.create listLibs 4).callAll [.upsertPoint [97] [1]]).map (fun e =>
      ((e.upsertPoint [97] [2]).isSome, ((RecallEngine.create listLibs 4).loadIndex
        (e.saveIndex [(listLibs.hasher [97], [97])] [])).map fun p =>
          (p.2.upsertPoint [97] [2]).isSome)) = some (true, some false) ∧
    ((RecallEngine.create listLibs 4).callAll
      [.upsertPoint [97] [1], .deletePoint [97]]).map (fun e =>
        (e.activeLabels, ((RecallEngine.create listLibs 4).loadIndex
          (e.saveIndex [(listLibs.hasher [97], [97])] [[97]])).map fun p => p.2.activeLabels)) =
      some (∅, some {listLibs.hasher [97]}) := by
  decide +kernel

end MyKvRaft
