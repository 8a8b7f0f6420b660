import MyKvRaft.Common.Outcome
import MyKvRaft.KvServer.LiveItems

/-!
# Exceptions of the index

The recall engine keeps three tables beside the index. What is in them when a call of the
index throws depends on the operation: `addPoint` and `upsertPoint` write to the tables
before they call the index, `deletePoint` writes after.

* `callOutcome_eq_returned`: without an exception these are the operations of `RecallEngine`.
* `failure_atomic`: after which exceptions the tables are what they were.
-/

namespace MyKvRaft

variable {P : Libs}

/-- What the engine calls of hnswlib. -/
structure Hnsw (P : Libs) where
  addPoint : HierarchicalNSW P → List UInt32 → UInt64 → Bool → Outcome (HierarchicalNSW P)
  markDelete : HierarchicalNSW P → UInt64 → Outcome (HierarchicalNSW P)

/-- The index that an exception of `addPoint` leaves behind: a slot that was to be taken over has
    its new label when `unmarkDeletedInternal` throws, and all other exceptions come before any
    change. -/
def HierarchicalNSW.addPointThrown (ix : HierarchicalNSW P) (label : UInt64)
    (replaceDeleted : Bool) : HierarchicalNSW P :=
  if ix.allowReplaceDeleted && replaceDeleted then
    match P.first ix.deletedElements with
    | none => ix
    | some replaced =>
      let labelReplaced := (ix.elements[replaced]?.map (·.label)).getD 0
      let ix := { ix with deletedElements := P.erase ix.deletedElements replaced }
      let ix := ix.setExternalLabel replaced label
      { ix with
        labelLookup := Function.update (Function.update ix.labelLookup labelReplaced none)
          label (some replaced) }
  else ix

/-- The functions as they are in `hnswalg.h`. -/
def Hnsw.source (P : Libs) : Hnsw P where
  addPoint ix data label replaceDeleted :=
    .ofOption (ix.addPointThrown label replaceDeleted) (ix.addPoint data label replaceDeleted)
  markDelete ix label := .ofOption ix (ix.markDelete label)

namespace RecallEngine

/-- `m_labelToItemId`, `m_activeLabels` and `m_deletedItems`. -/
structure Tables where
  labelToItemId : UInt64 → Option Bytes
  activeLabels : Finset UInt64
  deletedItems : Finset Bytes

def tables (e : RecallEngine P) : Tables := ⟨e.labelToItemId, e.activeLabels, e.deletedItems⟩

/-! ## Operations with their exceptions -/

/-- `addPoint` (lines 46–66): the tables come first. -/
def addPointOutcome (h : Hnsw P) (e : RecallEngine P) (itemId : Bytes)
    (embedding : List UInt32) : Outcome (RecallEngine P) :=
  let label := P.hasher itemId
  if label ∈ e.activeLabels then .returned e
  else
    let e := { e with deletedItems := e.deletedItems.erase itemId }
    let e := { e with labelToItemId := Function.update e.labelToItemId label (some itemId) }
    let e := { e with activeLabels := insert label e.activeLabels }
    (h.addPoint e.index embedding label false).map fun index => { e with index := index }

/-- `upsertPoint` (lines 68–92): the tables come first. -/
def upsertPointOutcome (h : Hnsw P) (e : RecallEngine P) (itemId : Bytes)
    (embedding : List UInt32) : Outcome (RecallEngine P) :=
  let label := P.hasher itemId
  let existed := label ∈ e.activeLabels
  let e := { e with deletedItems := e.deletedItems.erase itemId }
  if existed then
    let e := { e with labelToItemId := Function.update e.labelToItemId label (some itemId) }
    (h.addPoint e.index embedding label true).map fun index => { e with index := index }
  else
    let e := { e with activeLabels := insert label e.activeLabels }
    let e := { e with labelToItemId := Function.update e.labelToItemId label (some itemId) }
    (h.addPoint e.index embedding label false).map fun index => { e with index := index }

/-- `deletePoint` (lines 94–113): the index comes first. -/
def deletePointOutcome (h : Hnsw P) (e : RecallEngine P) (itemId : Bytes) :
    Outcome (RecallEngine P) :=
  let label := P.hasher itemId
  if label ∉ e.activeLabels then .returned e
  else
    ((h.markDelete e.index label).map fun index => { e with index := index }).andThen fun e =>
      let e := { e with deletedItems := insert itemId e.deletedItems }
      .returned { e with activeLabels := e.activeLabels.erase label }

def callOutcome (h : Hnsw P) (e : RecallEngine P) : EngineCall → Outcome (RecallEngine P)
  | .addPoint itemId embedding => e.addPointOutcome h itemId embedding
  | .upsertPoint itemId embedding => e.upsertPointOutcome h itemId embedding
  | .deletePoint itemId => e.deletePointOutcome h itemId

variable {h : Hnsw P} {e e' : RecallEngine P} {c : EngineCall} {itemId : Bytes}
  {embedding : List UInt32}

/-- The tables once the item has been stored. -/
def Tables.store (t : Tables) (label : UInt64) (itemId : Bytes) : Tables where
  labelToItemId := Function.update t.labelToItemId label (some itemId)
  activeLabels := insert label t.activeLabels
  deletedItems := t.deletedItems.erase itemId

theorem addPointOutcome_eq (h : Hnsw P) (embedding : List UInt32)
    (hin : P.hasher itemId ∉ e.activeLabels) :
    ∃ f : HierarchicalNSW P → RecallEngine P,
      e.addPointOutcome h itemId embedding =
        (h.addPoint e.index embedding (P.hasher itemId) false).map f ∧
      ∀ index, (f index).index = index ∧
        (f index).tables = e.tables.store (P.hasher itemId) itemId :=
  ⟨_, if_neg hin, fun _ => ⟨rfl, rfl⟩⟩

theorem upsertPointOutcome_eq (h : Hnsw P) (e : RecallEngine P) (itemId : Bytes)
    (embedding : List UInt32) :
    ∃ f : HierarchicalNSW P → RecallEngine P,
      e.upsertPointOutcome h itemId embedding = (h.addPoint e.index embedding (P.hasher itemId)
        (decide (P.hasher itemId ∈ e.activeLabels))).map f ∧
      ∀ index, (f index).index = index ∧
        (f index).tables = e.tables.store (P.hasher itemId) itemId := by
  unfold upsertPointOutcome
  by_cases hin : P.hasher itemId ∈ e.activeLabels
  · rw [decide_eq_true hin]
    refine ⟨_, if_pos hin, fun index => ⟨rfl, ?_⟩⟩
    simp [tables, Tables.store, Finset.insert_eq_of_mem hin]
  · rw [decide_eq_false hin]
    exact ⟨_, if_neg hin, fun index => ⟨rfl, rfl⟩⟩

theorem tables_eq_iff :
    e'.tables = e.tables ↔ e'.labelToItemId = e.labelToItemId ∧
      e'.activeLabels = e.activeLabels ∧ e'.deletedItems = e.deletedItems := by
  simp [tables]

/-- Storing what is stored changes nothing. -/
theorem store_eq_self {t : Tables} {label : UInt64} :
    t.store label itemId = t ↔
      label ∈ t.activeLabels ∧ t.labelToItemId label = some itemId ∧ itemId ∉ t.deletedItems := by
  obtain ⟨items, active, deleted⟩ := t
  simp only [Tables.store, Tables.mk.injEq]
  rw [Function.update_eq_self_iff, Finset.insert_eq_self, Finset.erase_eq_self]
  constructor
  · rintro ⟨hitem, hactive, hdel⟩
    exact ⟨hactive, hitem.symm, hdel⟩
  · rintro ⟨hactive, hitem, hdel⟩
    exact ⟨hitem.symm, hactive, hdel⟩

theorem call_addPoint_eq_returned :
    e.addPointOutcome (.source P) itemId embedding = .returned e' ↔
      e.addPoint itemId embedding = some e' := by
  by_cases hin : P.hasher itemId ∈ e.activeLabels
  · rw [addPoint_active hin]
    unfold addPointOutcome
    rw [if_pos hin, Outcome.returned.injEq, Option.some.injEq]
  · unfold addPointOutcome addPoint
    dsimp only
    rw [if_neg hin, if_neg hin]
    exact Outcome.map_ofOption_eq_returned

theorem call_upsertPoint_eq_returned :
    e.upsertPointOutcome (.source P) itemId embedding = .returned e' ↔
      e.upsertPoint itemId embedding = some e' := by
  unfold upsertPointOutcome upsertPoint
  dsimp only
  by_cases hin : P.hasher itemId ∈ e.activeLabels
  · rw [if_pos hin, decide_eq_true hin]
    simp only [if_pos hin]
    exact Outcome.map_ofOption_eq_returned
  · rw [if_neg hin, decide_eq_false hin]
    simp only [if_neg hin]
    exact Outcome.map_ofOption_eq_returned

theorem call_deletePoint_eq_returned :
    e.deletePointOutcome (.source P) itemId = .returned e' ↔ e.deletePoint itemId = some e' := by
  unfold deletePointOutcome deletePoint
  dsimp only
  by_cases hin : P.hasher itemId ∉ e.activeLabels
  · rw [if_pos hin, if_pos hin, Outcome.returned.injEq, Option.some.injEq]
  · rw [if_neg hin, if_neg hin]
    show (Outcome.map _ (Outcome.ofOption _ (e.index.markDelete _))).andThen _ = _ ↔ _
    cases e.index.markDelete (P.hasher itemId) with
    | none => exact iff_of_false (fun hf => by cases hf) (fun hf => by cases hf)
    | some index =>
      show Outcome.returned _ = _ ↔ some _ = _
      rw [Outcome.returned.injEq, Option.some.injEq]

/-- Without an exception the call does what `call` does. -/
theorem callOutcome_eq_returned : e.callOutcome (.source P) c = .returned e' ↔
    e.call c = some e' := by
  cases c with
  | addPoint itemId embedding => exact call_addPoint_eq_returned
  | upsertPoint itemId embedding => exact call_upsertPoint_eq_returned
  | deletePoint itemId => exact call_deletePoint_eq_returned

/-! ## After an exception -/

/-- There is nothing the call has to write to the tables before it calls the index. -/
def NothingToRecord (e : RecallEngine P) : EngineCall → Prop
  | .addPoint .. => False
  | .upsertPoint itemId _ => P.hasher itemId ∈ e.activeLabels ∧
      e.labelToItemId (P.hasher itemId) = some itemId ∧ itemId ∉ e.deletedItems
  | .deletePoint _ => True

/-- An `addPoint` that throws has stored the item in the tables. -/
theorem tables_addPoint_threw (hres : e.addPointOutcome h itemId embedding = .threw e') :
    P.hasher itemId ∉ e.activeLabels ∧
      e'.tables = e.tables.store (P.hasher itemId) itemId := by
  by_cases hin : P.hasher itemId ∈ e.activeLabels
  · unfold addPointOutcome at hres
    rw [if_pos hin] at hres
    cases hres
  · obtain ⟨f, heq, hf⟩ := addPointOutcome_eq h embedding hin
    rw [heq] at hres
    obtain ⟨index, _, rfl⟩ := Outcome.map_eq_threw.mp hres
    exact ⟨hin, (hf index).2⟩

theorem tables_upsertPoint_threw (hres : e.upsertPointOutcome h itemId embedding = .threw e') :
    e'.tables = e.tables.store (P.hasher itemId) itemId := by
  obtain ⟨f, heq, hf⟩ := upsertPointOutcome_eq h e itemId embedding
  rw [heq] at hres
  obtain ⟨index, _, rfl⟩ := Outcome.map_eq_threw.mp hres
  exact (hf index).2

theorem tables_deletePoint_threw (hres : e.deletePointOutcome h itemId = .threw e') :
    e'.tables = e.tables := by
  unfold deletePointOutcome at hres
  dsimp only at hres
  split_ifs at hres
  generalize h.markDelete e.index (P.hasher itemId) = o at hres
  cases o with
  | returned index => cases hres
  | threw index =>
    cases hres
    rfl

end RecallEngine

open RecallEngine in
/-- For everything hnswlib may do, every engine and every call of it during which the index
    throws: the tables are what they were before the call, if and only if the call had nothing to
    write to them before it called the index. -/
theorem failure_atomic (h : Hnsw P) (e e' : RecallEngine P) (c : EngineCall)
    (hthrows : e.callOutcome h c = .threw e') : e'.tables = e.tables ↔ e.NothingToRecord c := by
  cases c with
  | addPoint itemId embedding =>
    obtain ⟨hin, htables⟩ := tables_addPoint_threw hthrows
    rw [htables, store_eq_self]
    exact iff_of_false (fun h => hin h.1) not_false
  | upsertPoint itemId embedding =>
    rw [tables_upsertPoint_threw hthrows]
    exact store_eq_self
  | deletePoint itemId => exact iff_of_true (tables_deletePoint_threw hthrows) trivial

/-- An engine after an exception: the item `a` was deleted, and the call that was to insert it
    again threw. -/
def halfStored : RecallEngine listLibs :=
  [.upsertPoint [97] [1], .deletePoint [97], .upsertPoint [97] [2]].foldl
    (fun e c => (e.callOutcome (.source listLibs) c).state) (RecallEngine.create listLibs 2)

theorem failure_atomic_halfStored : ∃ e',
    halfStored.callOutcome (.source listLibs) (.deletePoint [97]) = .threw e' ∧
      e'.tables = halfStored.tables := by
  have hthrows : halfStored.callOutcome (.source listLibs) (.deletePoint [97]) = .threw _ :=
    Outcome.eq_threw (by decide +kernel)
  exact ⟨_, hthrows, (failure_atomic _ _ _ _ hthrows).mpr trivial⟩

/-- Before the call that throws the item is a deleted one, and after it an active one. -/
theorem failure_atomic_fails :
    (((RecallEngine.create listLibs 2).callAll [.upsertPoint [97] [1], .deletePoint [97]]).map
      fun e => (e.deletedItems, e.activeLabels,
        (e.callOutcome (.source listLibs) (.upsertPoint [97] [2])).hasThrown)) =
      some ({[97]}, ∅, true) ∧
    halfStored.deletedItems = ∅ ∧ halfStored.activeLabels = {listLibs.hasher [97]} := by
  decide +kernel

end MyKvRaft
