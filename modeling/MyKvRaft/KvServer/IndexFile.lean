import MyKvRaft.Common.BinaryFile
import MyKvRaft.KvServer.Exceptions

/-!
# Saving and loading the index

`RecallEngine::saveIndex` writes the index of hnswlib to one file, and to a second one the
label map and the deleted items, as binary entries. `loadIndex` reads both. Which labels are
active is not written: `loadIndex` takes every label of the map for an active one. It builds
the index with the constructor that reads a file, whose defaults are no replacement of
deleted slots and no room beyond the saved slots' own limit.

* `loadIndex_saveIndex`: what the engine is after it has read what was written.
-/

namespace MyKvRaft

open BinaryFile

variable {P : Libs}

/-! ## hnswlib -/

/-- What hnswlib writes to its file. -/
structure HnswFile where
  maxElements : ℕ
  elements : List Element
deriving DecidableEq

namespace HierarchicalNSW

/-- `saveIndex` (lines 685–713). -/
def saveIndex (ix : HierarchicalNSW P) : HnswFile := ⟨ix.maxElements, ix.elements⟩

/-- `label_lookup_[getExternalLabel(i)] = i` for every slot. -/
def lookupOf (elements : List Element) : UInt64 → Option ℕ :=
  elements.zipIdx.foldl (fun lookup p => Function.update lookup p.1.label (some p.2)) fun _ => none

/-- The constructor that reads a file (lines 78–86), with `loadIndex` (lines 716–822). -/
def ofFile (P : Libs) (file : HnswFile) (maxElementsI : ℕ) (allowReplaceDeleted : Bool) :
    HierarchicalNSW P where
  maxElements := if maxElementsI < file.elements.length then file.maxElements else maxElementsI
  allowReplaceDeleted := allowReplaceDeleted
  elements := file.elements
  labelLookup := lookupOf file.elements
  deletedElements := file.elements.zipIdx.foldl (fun ids p =>
    if p.1.deleted && allowReplaceDeleted then P.insert ids p.2 else ids) P.emptySet

end HierarchicalNSW

/-! ## The engine -/

/-- The files at `path` and at `path + ".labels"`. -/
structure IndexFiles where
  index : Option HnswFile
  labels : Option Bytes

/-- The length of an id and its bytes. -/
def itemBytes (itemId : Bytes) : Bytes :=
  leBytes 4 itemId.length ++ itemId.take (int32 itemId.length).toNat

def labelBytes (p : UInt64 × Bytes) : Bytes := leBytes 8 p.1.toNat ++ itemBytes p.2

/-- The label file: the entries of the map and the deleted items, each counted. -/
def mapBytes (labels : List (UInt64 × Bytes)) (deleted : List Bytes) : Bytes :=
  leBytes 4 labels.length ++ labels.flatMap labelBytes ++
    (leBytes 4 deleted.length ++ deleted.flatMap itemBytes)

/-- Reading an id; a negative length makes the constructor of the string throw. -/
def readItem (f : InFile) : Option (Bytes × InFile) :=
  let (strLen, f) := f.readInt32
  if strLen < 0 then none else some (f.read strLen.toNat)

namespace RecallEngine

/-- `saveIndex` (lines 180–211), when the label file can be opened. `labels` and `deleted` are the
    entries of `m_labelToItemId` and of `m_deletedItems` in the order the loops meet them. -/
def saveIndex (e : RecallEngine P) (labels : List (UInt64 × Bytes)) (deleted : List Bytes) :
    IndexFiles where
  index := some e.index.saveIndex
  labels := some (mapBytes labels deleted)

def addLabel (e : RecallEngine P) (p : UInt64 × Bytes) : RecallEngine P :=
  { e with
    labelToItemId := Function.update e.labelToItemId p.1 (some p.2)
    activeLabels := insert p.1 e.activeLabels }

def addDeleted (e : RecallEngine P) (itemId : Bytes) : RecallEngine P :=
  { e with deletedItems := insert itemId e.deletedItems }

/-- The loop over the entries of the label map (lines 236–248). -/
def loadLabels : ℕ → RecallEngine P × InFile → Option (RecallEngine P × InFile)
  | 0, p => some p
  | n + 1, (e, f) =>
    let (label, f) := f.readUInt64
    (readItem f).bind fun (itemId, f) => loadLabels n (e.addLabel (label, itemId), f)

/-- The loop over the deleted items (lines 252–258). -/
def loadDeleted : ℕ → RecallEngine P × InFile → Option (RecallEngine P × InFile)
  | 0, p => some p
  | n + 1, (e, f) => (readItem f).bind fun (itemId, f) => loadDeleted n (e.addDeleted itemId, f)

/-- `loadIndex` (lines 213–269): the returned count and the engine, `none` for an exception.
    `m_deletedItems` keeps what it has. -/
def loadIndex (e : RecallEngine P) (files : IndexFiles) : Option (ℤ × RecallEngine P) :=
  match files.index with
  | none => some (-1, e)
  | some file =>
    let e := { e with
      index := HierarchicalNSW.ofFile P file 0 false
      labelToItemId := fun _ => none
      activeLabels := ∅ }
    match files.labels with
    | none => some (-1, e)
    | some bytes =>
      let (count, f) := (InFile.mk bytes false).readInt32
      (loadLabels count.toNat (e, f)).bind fun (e, f) =>
        let (delCount, f) := f.readInt32
        (loadDeleted delCount.toNat (e, f)).map fun p => (count, p.1)

/-- The entries of the two containers that are written, in any order. -/
structure Enumerates (e : RecallEngine P) (labels : List (UInt64 × Bytes)) (deleted : List Bytes) :
    Prop where
  labels_nodup : (labels.map (·.1)).Nodup
  mem_labels : ∀ label itemId, (label, itemId) ∈ labels ↔ e.labelToItemId label = some itemId
  deleted_nodup : deleted.Nodup
  mem_deleted : ∀ itemId, itemId ∈ deleted ↔ itemId ∈ e.deletedItems

end RecallEngine

/-- Entries whose counts and lengths are not cut to 32 bits. -/
structure FitsFile (labels : List (UInt64 × Bytes)) (deleted : List Bytes) : Prop where
  labelCount : labels.length < 2 ^ 31
  deletedCount : deleted.length < 2 ^ 31
  labelItems : ∀ p ∈ labels, p.2.length < 2 ^ 31
  deletedItems : ∀ itemId ∈ deleted, itemId.length < 2 ^ 31

/-! ## The label file -/

theorem readItem_append {itemId : Bytes} (hlen : itemId.length < 2 ^ 31) (rest : Bytes) :
    readItem ⟨itemBytes itemId ++ rest, false⟩ = some (itemId, ⟨rest, false⟩) := by
  unfold readItem itemBytes
  rw [List.append_assoc, InFile.readInt32_append, int32_of_lt hlen]
  dsimp only
  rw [if_neg (by omega), Int.toNat_natCast, List.take_length, InFile.read_append]

namespace RecallEngine

theorem loadLabels_append {labels : List (UInt64 × Bytes)}
    (hlen : ∀ p ∈ labels, p.2.length < 2 ^ 31) (e : RecallEngine P) (rest : Bytes) :
    loadLabels labels.length (e, ⟨labels.flatMap labelBytes ++ rest, false⟩) =
      some (labels.foldl addLabel e, ⟨rest, false⟩) := by
  induction labels generalizing e with
  | nil => rfl
  | cons p labels ih =>
    rw [List.forall_mem_cons] at hlen
    rw [List.flatMap_cons, List.length_cons, List.foldl_cons]
    unfold labelBytes loadLabels
    rw [List.append_assoc, List.append_assoc, InFile.readUInt64_append]
    dsimp only
    rw [readItem_append hlen.1]
    exact ih hlen.2 (e.addLabel p)

theorem loadDeleted_append {deleted : List Bytes}
    (hlen : ∀ itemId ∈ deleted, itemId.length < 2 ^ 31) (e : RecallEngine P) (rest : Bytes) :
    loadDeleted deleted.length (e, ⟨deleted.flatMap itemBytes ++ rest, false⟩) =
      some (deleted.foldl addDeleted e, ⟨rest, false⟩) := by
  induction deleted generalizing e with
  | nil => rfl
  | cons itemId deleted ih =>
    rw [List.forall_mem_cons] at hlen
    rw [List.flatMap_cons, List.length_cons, List.foldl_cons]
    unfold loadDeleted
    rw [List.append_assoc, readItem_append hlen.1]
    exact ih hlen.2 (e.addDeleted itemId)

/-- The map after the entries have been added. -/
def putAll (labels : List (UInt64 × Bytes)) (items : UInt64 → Option Bytes) :
    UInt64 → Option Bytes :=
  labels.foldl (fun items p => Function.update items p.1 (some p.2)) items

/-- The engine after all entries have been added. -/
theorem foldl_addLabel (labels : List (UInt64 × Bytes)) (e : RecallEngine P) :
    labels.foldl addLabel e = { e with
      labelToItemId := putAll labels e.labelToItemId
      activeLabels := e.activeLabels ∪ (labels.map (·.1)).toFinset } := by
  induction labels generalizing e with
  | nil => simp [putAll]
  | cons p labels ih =>
    rw [List.foldl_cons, ih]
    simp [addLabel, putAll, Finset.insert_union, Finset.union_insert]

theorem foldl_addDeleted (deleted : List Bytes) (e : RecallEngine P) :
    deleted.foldl addDeleted e = { e with
      deletedItems := e.deletedItems ∪ deleted.toFinset } := by
  induction deleted generalizing e with
  | nil => simp
  | cons itemId deleted ih =>
    rw [List.foldl_cons, ih]
    simp [addDeleted, Finset.insert_union, Finset.union_insert]

/-- A map is built from its entries. -/
theorem putAll_eq_some {labels : List (UInt64 × Bytes)} (hnodup : (labels.map (·.1)).Nodup)
    (items : UInt64 → Option Bytes) (label : UInt64) (itemId : Bytes) :
    putAll labels items label = some itemId ↔
      (label, itemId) ∈ labels ∨ (label ∉ labels.map (·.1) ∧ items label = some itemId) := by
  induction labels generalizing items with
  | nil => simp [putAll]
  | cons p labels ih =>
    obtain ⟨l, id⟩ := p
    rw [List.map_cons, List.nodup_cons] at hnodup
    show putAll labels (Function.update items l (some id)) label = some itemId ↔ _
    rw [ih hnodup.2]
    by_cases hl : label = l
    · subst hl
      have hmem : (label, itemId) ∉ labels := fun hmem =>
        hnodup.1 (List.mem_map_of_mem (f := (·.1)) hmem)
      simp [hmem, hnodup.1, eq_comm]
    · simp [hl]

/-- The engine that has read what `e` wrote. -/
def loaded (e t : RecallEngine P) (labels : List (UInt64 × Bytes)) : RecallEngine P where
  index := HierarchicalNSW.ofFile P e.index.saveIndex 0 false
  labelToItemId := e.labelToItemId
  deletedItems := t.deletedItems ∪ e.deletedItems
  activeLabels := (labels.map (·.1)).toFinset

variable {e t : RecallEngine P} {labels : List (UInt64 × Bytes)} {deleted : List Bytes}

theorem loadIndex_saveIndex (henum : e.Enumerates labels deleted)
    (hfits : FitsFile labels deleted) :
    t.loadIndex (e.saveIndex labels deleted) = some ((labels.length : ℤ), e.loaded t labels) := by
  have hitems : putAll labels (fun _ => none) = e.labelToItemId := by
    funext label
    ext itemId
    rw [putAll_eq_some henum.labels_nodup, henum.mem_labels]
    simp
  have hdeleted : deleted.toFinset = e.deletedItems := by
    ext itemId
    rw [List.mem_toFinset, henum.mem_deleted]
  unfold loadIndex saveIndex mapBytes
  dsimp only
  rw [List.append_assoc, InFile.readInt32_append, int32_of_lt hfits.labelCount]
  dsimp only
  rw [Int.toNat_natCast, loadLabels_append hfits.labelItems, Option.bind_some]
  dsimp only
  rw [InFile.readInt32_append, int32_of_lt hfits.deletedCount]
  dsimp only
  have hend := loadDeleted_append hfits.deletedItems
    (labels.foldl addLabel { t with
      index := HierarchicalNSW.ofFile P e.index.saveIndex 0 false
      labelToItemId := fun _ => none
      activeLabels := ∅ }) []
  rw [List.append_nil] at hend
  rw [Int.toNat_natCast, hend, Option.map_some, foldl_addDeleted, foldl_addLabel]
  simp only [hitems, hdeleted, Finset.empty_union]
  rfl

end RecallEngine

end MyKvRaft
