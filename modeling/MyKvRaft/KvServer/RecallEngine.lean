import MyKvRaft.KvServer.Libs

/-!
# The recall engine

`HierarchicalNSW` (`third_party/hnswlib/hnswalg.h`) as a labelled store: its slots with
label, vector and delete mark, the table of labels, and the set of slots that may be
reused. `none` stands for an exception. Which neighbours a slot has in the graph is left
out. Over it, `RecallEngine` (`KvServer/RecallEngine.cpp`).

* `Valid`: the active labels are those whose slot is not marked, and the marked slots are
  those that may be reused.
* `Valid.upsertPoint`, `Valid.deletePoint`, `Valid.addPoint`: kept by every operation.
* `upsertPoint_ne_none`, `deletePoint_ne_none`: which operations throw.
-/

namespace MyKvRaft

/-- `HNSW_DIM`. -/
def hnswDim : ℕ := 128

/-- One slot of the index. -/
structure Element where
  label : UInt64
  data : List UInt32
  deleted : Bool
deriving DecidableEq

structure HierarchicalNSW (P : Libs) where
  maxElements : ℕ
  allowReplaceDeleted : Bool
  elements : List Element
  labelLookup : UInt64 → Option ℕ
  deletedElements : P.IdSet

variable {P : Libs}

namespace HierarchicalNSW

/-- The index right after its construction. -/
def create (P : Libs) (maxElements : ℕ) (allowReplaceDeleted : Bool) : HierarchicalNSW P where
  maxElements := maxElements
  allowReplaceDeleted := allowReplaceDeleted
  elements := []
  labelLookup := fun _ => none
  deletedElements := P.emptySet

def curElementCount (ix : HierarchicalNSW P) : ℕ := ix.elements.length

def isMarkedDeleted (ix : HierarchicalNSW P) (internalId : ℕ) : Bool :=
  ix.elements[internalId]?.any (·.deleted)

/-- Setting or clearing the mark of a slot. -/
def setMark (ix : HierarchicalNSW P) (internalId : ℕ) (deleted : Bool) : HierarchicalNSW P :=
  { ix with elements := ix.elements.modify internalId fun el => { el with deleted := deleted } }

/-- `markDeletedInternal` (lines 873–886). -/
def markDeletedInternal (ix : HierarchicalNSW P) (internalId : ℕ) : Option (HierarchicalNSW P) :=
  if ix.isMarkedDeleted internalId then none
  else
    let ix := ix.setMark internalId true
    if ix.allowReplaceDeleted then
      some { ix with deletedElements := P.insert ix.deletedElements internalId }
    else some ix

/-- `markDelete` (lines 853–866). -/
def markDelete (ix : HierarchicalNSW P) (label : UInt64) : Option (HierarchicalNSW P) :=
  match ix.labelLookup label with
  | none => none
  | some internalId => ix.markDeletedInternal internalId

/-- `unmarkDeletedInternal` (lines 915–928). -/
def unmarkDeletedInternal (ix : HierarchicalNSW P) (internalId : ℕ) :
    Option (HierarchicalNSW P) :=
  if ix.isMarkedDeleted internalId then
    let ix := ix.setMark internalId false
    if ix.allowReplaceDeleted then
      some { ix with deletedElements := P.erase ix.deletedElements internalId }
    else some ix
  else none

/-- `updatePoint`: the vector of a slot is overwritten. -/
def updatePoint (ix : HierarchicalNSW P) (data : List UInt32) (internalId : ℕ) :
    HierarchicalNSW P :=
  { ix with elements := ix.elements.modify internalId fun el => { el with data := data } }

/-- `addPoint(data_point, label, level)` (lines 1153–1184 and the new slot). -/
def addPointAtLevel (ix : HierarchicalNSW P) (data : List UInt32) (label : UInt64) :
    Option (HierarchicalNSW P) :=
  match ix.labelLookup label with
  | some existing =>
    if ix.allowReplaceDeleted && ix.isMarkedDeleted existing then none
    else if ix.isMarkedDeleted existing then
      (ix.unmarkDeletedInternal existing).map fun ix => ix.updatePoint data existing
    else some (ix.updatePoint data existing)
  | none =>
    if ix.curElementCount ≥ ix.maxElements then none
    else
      some { ix with
        elements := ix.elements ++ [⟨label, data, false⟩]
        labelLookup := Function.update ix.labelLookup label (some ix.curElementCount) }

/-- `setExternalLabel`. -/
def setExternalLabel (ix : HierarchicalNSW P) (internalId : ℕ) (label : UInt64) :
    HierarchicalNSW P :=
  { ix with elements := ix.elements.modify internalId fun el => { el with label := label } }

/-- `addPoint(data_point, label, replace_deleted)` (lines 954–992). -/
def addPoint (ix : HierarchicalNSW P) (data : List UInt32) (label : UInt64)
    (replaceDeleted : Bool) : Option (HierarchicalNSW P) :=
  if !ix.allowReplaceDeleted && replaceDeleted then none
  else if !replaceDeleted then ix.addPointAtLevel data label
  else
    match P.first ix.deletedElements with
    | none => ix.addPointAtLevel data label
    | some replaced =>
      let labelReplaced := (ix.elements[replaced]?.map (·.label)).getD 0
      let ix := { ix with deletedElements := P.erase ix.deletedElements replaced }
      let ix := ix.setExternalLabel replaced label
      let ix := { ix with
        labelLookup := Function.update (Function.update ix.labelLookup labelReplaced none)
          label (some replaced) }
      (ix.unmarkDeletedInternal replaced).map fun ix => ix.updatePoint data replaced

end HierarchicalNSW

/-- `RecallEngine` (`RecallEngine.h`). -/
structure RecallEngine (P : Libs) where
  index : HierarchicalNSW P
  labelToItemId : UInt64 → Option Bytes
  deletedItems : Finset Bytes
  activeLabels : Finset UInt64

namespace RecallEngine

/-- The constructor, with `allowReplaceDeleted` at its default. -/
def create (P : Libs) (maxElements : ℕ) : RecallEngine P where
  index := HierarchicalNSW.create P maxElements true
  labelToItemId := fun _ => none
  deletedItems := ∅
  activeLabels := ∅

/-- `addPoint` (lines 46–66). -/
def addPoint (e : RecallEngine P) (itemId : Bytes) (embedding : List UInt32) :
    Option (RecallEngine P) :=
  let label := P.hasher itemId
  if label ∈ e.activeLabels then some e
  else
    (e.index.addPoint embedding label false).map fun index =>
      { index := index
        labelToItemId := Function.update e.labelToItemId label (some itemId)
        deletedItems := e.deletedItems.erase itemId
        activeLabels := insert label e.activeLabels }

/-- `upsertPoint` (lines 68–92). -/
def upsertPoint (e : RecallEngine P) (itemId : Bytes) (embedding : List UInt32) :
    Option (RecallEngine P) :=
  let label := P.hasher itemId
  let existed := label ∈ e.activeLabels
  (e.index.addPoint embedding label existed).map fun index =>
    { index := index
      labelToItemId := Function.update e.labelToItemId label (some itemId)
      deletedItems := e.deletedItems.erase itemId
      activeLabels := if existed then e.activeLabels else insert label e.activeLabels }

/-- `deletePoint` (lines 94–113). -/
def deletePoint (e : RecallEngine P) (itemId : Bytes) : Option (RecallEngine P) :=
  let label := P.hasher itemId
  if label ∉ e.activeLabels then some e
  else
    (e.index.markDelete label).map fun index =>
      { e with
        index := index
        deletedItems := insert itemId e.deletedItems
        activeLabels := e.activeLabels.erase label }

def size (e : RecallEngine P) : ℕ := e.index.curElementCount

/-- What `searchTopK` (lines 115–162) makes of the slots the index hands it: those whose item is
    not deleted, with their items. -/
def filterResult (e : RecallEngine P) (found : List Element) : List (Bytes × List UInt32) :=
  found.filterMap fun el =>
    match e.labelToItemId el.label with
    | none => none
    | some itemId => if itemId ∈ e.deletedItems then none else some (itemId, el.data)

/-- What a search can find: the index hands out slots that are not marked. -/
def searchable (e : RecallEngine P) : List (Bytes × List UInt32) :=
  e.filterResult (e.index.elements.filter fun el => !el.deleted)

end RecallEngine

/-! ## The index -/

namespace HierarchicalNSW

variable {ix ix' : HierarchicalNSW P}

/-- The tables agree with the slots. -/
structure WellFormed (ix : HierarchicalNSW P) : Prop where
  replaces : ix.allowReplaceDeleted = true
  lookup : ∀ l id, ix.labelLookup l = some id → ∃ el, ix.elements[id]? = some el ∧ el.label = l
  deleted : ∀ id, P.contains ix.deletedElements id = true ↔ ix.isMarkedDeleted id = true
  marked : ∀ id el, ix.elements[id]? = some el → el.deleted = true →
    ix.labelLookup el.label = some id

/-- The label has a slot that is not marked. -/
def Holds (ix : HierarchicalNSW P) (l : UInt64) : Prop :=
  ∃ id el, ix.labelLookup l = some id ∧ ix.elements[id]? = some el ∧ el.deleted = false

theorem wellFormed_create (P : Libs) (maxElements : ℕ) :
    (create P maxElements true).WellFormed := by
  refine ⟨rfl, ?_, ?_, ?_⟩
  · intro l id h
    cases h
  · intro id
    simp [create, isMarkedDeleted]
  · intro id el h
    simp [create] at h

theorem isMarkedDeleted_iff {id : ℕ} :
    ix.isMarkedDeleted id = true ↔ ∃ el, ix.elements[id]? = some el ∧ el.deleted = true := by
  simp [isMarkedDeleted, Option.any_eq_true]

/-- The slot of a label is marked, or the label is held. -/
theorem WellFormed.holds_of_lookup (h : ix.WellFormed) {l : UInt64} {id : ℕ}
    (hl : ix.labelLookup l = some id) (hm : ix.isMarkedDeleted id = false) : ix.Holds l := by
  obtain ⟨el, hel, _⟩ := h.lookup l id hl
  refine ⟨id, el, hl, hel, ?_⟩
  by_contra hdel
  rw [Bool.not_eq_false] at hdel
  rw [isMarkedDeleted_iff.mpr ⟨el, hel, hdel⟩] at hm
  cases hm

theorem Holds.not_marked {l : UInt64} (h : ix.Holds l) {id : ℕ} (hl : ix.labelLookup l = some id) :
    ix.isMarkedDeleted id = false := by
  obtain ⟨id', el, hl', hel, hdel⟩ := h
  rw [hl] at hl'
  cases hl'
  simp [isMarkedDeleted, hel, hdel]

/-- The slot of the label is not marked and has the vector. -/
def Shows (ix : HierarchicalNSW P) (l : UInt64) (data : List UInt32) : Prop :=
  ∃ id el, ix.labelLookup l = some id ∧ ix.elements[id]? = some el ∧ el.deleted = false ∧
    el.data = data

theorem holds_iff {l : UInt64} : ix.Holds l ↔ ∃ data, ix.Shows l data := by
  constructor
  · rintro ⟨id, el, hl, hel, hdel⟩
    exact ⟨el.data, id, el, hl, hel, hdel, rfl⟩
  · rintro ⟨_, id, el, hl, hel, hdel, _⟩
    exact ⟨id, el, hl, hel, hdel⟩

theorem Shows.unique {l : UInt64} {data data' : List UInt32} (h : ix.Shows l data)
    (h' : ix.Shows l data') : data = data' := by
  obtain ⟨id, el, hl, hel, _, rfl⟩ := h
  obtain ⟨id', el', hl', hel', _, rfl⟩ := h'
  rw [hl] at hl'
  cases hl'
  rw [hel] at hel'
  cases hel'
  rfl

/-- A label whose slot is untouched shows what it showed. -/
theorem shows_congr {l : UInt64} (hlookup : ix'.labelLookup l = ix.labelLookup l)
    (hslot : ∀ id, ix.labelLookup l = some id → ix'.elements[id]? = ix.elements[id]?)
    (data : List UInt32) : ix'.Shows l data ↔ ix.Shows l data := by
  unfold Shows
  rw [hlookup]
  refine exists_congr fun id => exists_congr fun el => and_congr_right fun hl => ?_
  rw [hslot id hl]

/-- The labels show in `ix'` what they show in `ix`, but `l` shows `data`. -/
def Writes (ix ix' : HierarchicalNSW P) (l : UInt64) (data : List UInt32) : Prop :=
  ix'.Shows l data ∧ ∀ l' data', l' ≠ l → (ix'.Shows l' data' ↔ ix.Shows l' data')

theorem Writes.holds {l : UInt64} {data : List UInt32} (h : Writes ix ix' l data) (l' : UInt64) :
    ix'.Holds l' ↔ l' = l ∨ ix.Holds l' := by
  rw [holds_iff, holds_iff]
  by_cases heq : l' = l
  · subst heq
    exact iff_of_true ⟨data, h.1⟩ (.inl rfl)
  · rw [or_iff_right heq]
    exact exists_congr fun data' => h.2 l' data' heq

/-- What is in the slot that `addPoint` reuses. -/
def reuse (ix : HierarchicalNSW P) (data : List UInt32) (l old : UInt64) (id : ℕ) :
    HierarchicalNSW P :=
  { ix with
    elements := ix.elements.modify id fun _ => ⟨l, data, false⟩
    labelLookup := Function.update (Function.update ix.labelLookup old none) l (some id)
    deletedElements := P.erase (P.erase ix.deletedElements id) id }

/-- The new slot of a label. -/
def append (ix : HierarchicalNSW P) (data : List UInt32) (l : UInt64) : HierarchicalNSW P :=
  { ix with
    elements := ix.elements ++ [⟨l, data, false⟩]
    labelLookup := Function.update ix.labelLookup l (some ix.curElementCount) }

theorem addPointAtLevel_eq (h : ix.WellFormed) (data : List UInt32) (l : UInt64) :
    ix.addPointAtLevel data l =
      match ix.labelLookup l with
      | some id => if ix.isMarkedDeleted id then none else some (ix.updatePoint data id)
      | none => if ix.curElementCount ≥ ix.maxElements then none else some (ix.append data l) := by
  unfold addPointAtLevel
  cases ix.labelLookup l with
  | none => rfl
  | some id =>
    dsimp only
    rw [h.replaces, Bool.true_and]
    by_cases hm : ix.isMarkedDeleted id = true
    · rw [if_pos hm, if_pos hm]
    · rw [if_neg hm, if_neg hm, if_neg hm]

theorem addPoint_replace_eq (h : ix.WellFormed) {data : List UInt32} {l : UInt64} {id : ℕ}
    {el : Element} (hfirst : P.first ix.deletedElements = some id)
    (hel : ix.elements[id]? = some el) (hdel : el.deleted = true) :
    ix.addPoint data l true = some (ix.reuse data l el.label id) := by
  have hslot : ((ix.elements.modify id fun x => { x with label := l }).modify id fun x =>
      { x with deleted := false }).modify id (fun x => { x with data := data }) =
      ix.elements.modify id fun _ => ⟨l, data, false⟩ := by
    rw [List.modify_modify_eq, List.modify_modify_eq]
    rfl
  simp [addPoint, hfirst, hel, unmarkDeletedInternal, isMarkedDeleted, setExternalLabel, setMark,
    updatePoint, reuse, h.replaces, hdel, hslot]

theorem addPoint_eq_level (h : ix.WellFormed) {data : List UInt32} {l : UInt64} {replace : Bool}
    (hreuse : ¬ (replace = true ∧ P.first ix.deletedElements ≠ none)) :
    ix.addPoint data l replace = ix.addPointAtLevel data l := by
  unfold addPoint
  rw [h.replaces]
  cases replace with
  | false => rfl
  | true =>
    have hnone : P.first ix.deletedElements = none := by
      by_contra hne
      exact hreuse ⟨rfl, hne⟩
    rw [hnone]
    rfl

/-- What `addPoint` has done when it returns. -/
theorem addPoint_cases (h : ix.WellFormed) {data : List UInt32} {l : UInt64} {replace : Bool}
    (hadd : ix.addPoint data l replace = some ix') :
    (∃ id el, ix.labelLookup l = some id ∧ ix.elements[id]? = some el ∧ el.deleted = false ∧
      ix' = ix.updatePoint data id) ∨
    (ix.labelLookup l = none ∧ ix.curElementCount < ix.maxElements ∧ ix' = ix.append data l) ∨
    (replace = true ∧ ∃ id el, P.first ix.deletedElements = some id ∧
      ix.elements[id]? = some el ∧ el.deleted = true ∧ ix' = ix.reuse data l el.label id) := by
  by_cases hreuse : replace = true ∧ P.first ix.deletedElements ≠ none
  · obtain ⟨rfl, hne⟩ := hreuse
    obtain ⟨id, hfirst⟩ := Option.ne_none_iff_exists'.mp hne
    obtain ⟨el, hel, hdel⟩ := isMarkedDeleted_iff.mp
      ((h.deleted id).mp (P.first_some _ _ hfirst))
    rw [addPoint_replace_eq h hfirst hel hdel] at hadd
    cases hadd
    exact .inr (.inr ⟨rfl, id, el, hfirst, hel, hdel, rfl⟩)
  · rw [addPoint_eq_level h hreuse, addPointAtLevel_eq h] at hadd
    cases hl : ix.labelLookup l with
    | none =>
      simp only [hl] at hadd
      split_ifs at hadd with hfull
      cases hadd
      exact .inr (.inl ⟨rfl, by omega, rfl⟩)
    | some id =>
      simp only [hl] at hadd
      split_ifs at hadd with hm
      cases hadd
      obtain ⟨id', el, hl', hel, hdel⟩ := h.holds_of_lookup hl (Bool.eq_false_iff.mpr hm)
      rw [hl] at hl'
      cases hl'
      exact .inl ⟨id, el, rfl, hel, hdel, rfl⟩

theorem getElem?_updatePoint (data : List UInt32) (id k : ℕ) :
    (ix.updatePoint data id).elements[k]? =
      ix.elements[k]?.map fun el => if id = k then { el with data := data } else el :=
  List.getElem?_modify _ _ _ _

theorem WellFormed.updatePoint (h : ix.WellFormed) (data : List UInt32) (id : ℕ) :
    (ix.updatePoint data id).WellFormed := by
  have hsame : ∀ k, (ix.updatePoint data id).isMarkedDeleted k = ix.isMarkedDeleted k := by
    intro k
    unfold isMarkedDeleted
    rw [getElem?_updatePoint]
    cases ix.elements[k]? with
    | none => rfl
    | some el =>
      simp only [Option.map_some, Option.any_some]
      split_ifs <;> rfl
  refine ⟨h.replaces, ?_, ?_, ?_⟩
  · intro l k hl
    obtain ⟨el, hel, hlabel⟩ := h.lookup l k hl
    rw [getElem?_updatePoint, hel]
    refine ⟨_, rfl, ?_⟩
    split_ifs
    · exact hlabel
    · exact hlabel
  · intro k
    rw [hsame]
    exact h.deleted k
  · intro k el hel hdel
    rw [getElem?_updatePoint] at hel
    obtain ⟨el₀, hel₀, rfl⟩ := Option.map_eq_some_iff.mp hel
    have hkeep : (if id = k then { el₀ with data := data } else el₀).label = el₀.label ∧
        (if id = k then { el₀ with data := data } else el₀).deleted = el₀.deleted := by
      split_ifs
      · exact ⟨rfl, rfl⟩
      · exact ⟨rfl, rfl⟩
    rw [hkeep.1]
    rw [hkeep.2] at hdel
    exact h.marked k el₀ hel₀ hdel

theorem WellFormed.writes_updatePoint (h : ix.WellFormed) {l : UInt64} {id : ℕ} {el : Element}
    (hl : ix.labelLookup l = some id) (hel : ix.elements[id]? = some el)
    (hdel : el.deleted = false) (data : List UInt32) :
    Writes ix (ix.updatePoint data id) l data := by
  have hself : (ix.updatePoint data id).elements[id]? = some { el with data := data } := by
    rw [getElem?_updatePoint, hel, Option.map_some, if_pos rfl]
  refine ⟨⟨id, _, hl, hself, hdel, rfl⟩, fun l' data' hne =>
    shows_congr (by rfl) (fun k hk => ?_) data'⟩
  -- another label has another slot
  obtain ⟨el', hel', hlabel⟩ := h.lookup l' k hk
  obtain ⟨el₀, hel₀, hlabel₀⟩ := h.lookup l id hl
  have hslot : id ≠ k := by
    rintro rfl
    rw [hel'] at hel₀
    cases hel₀
    exact hne (hlabel.symm.trans hlabel₀)
  rw [getElem?_updatePoint, hel', Option.map_some, if_neg hslot]

theorem getElem?_append_lt {k : ℕ} (hk : k < ix.elements.length) (data : List UInt32)
    (l : UInt64) : (ix.append data l).elements[k]? = ix.elements[k]? :=
  List.getElem?_append_left hk

theorem WellFormed.append (h : ix.WellFormed) {l : UInt64} (hl : ix.labelLookup l = none)
    (data : List UInt32) : (ix.append data l).WellFormed := by
  have hlast : (ix.append data l).elements[ix.elements.length]? = some ⟨l, data, false⟩ := by
    simp [HierarchicalNSW.append]
  have hold : ∀ {k : ℕ} {el : Element}, ix.elements[k]? = some el →
      (ix.append data l).elements[k]? = some el := by
    intro k el hel
    rw [getElem?_append_lt (List.getElem?_eq_some_iff.mp hel).1]
    exact hel
  have hmarked : ∀ {k : ℕ} {el : Element}, (ix.append data l).elements[k]? = some el → el.deleted = true →
      ix.elements[k]? = some el := by
    intro k el hel hdel
    rcases lt_trichotomy k ix.elements.length with hk | hk | hk
    · rw [getElem?_append_lt hk] at hel
      exact hel
    · subst hk
      rw [hlast] at hel
      cases hel
      cases hdel
    · have := (List.getElem?_eq_some_iff.mp hel).1
      simp only [HierarchicalNSW.append, List.length_append, List.length_singleton] at this
      omega
  refine ⟨h.replaces, ?_, ?_, ?_⟩
  · intro l' k hl'
    by_cases heq : l' = l
    · subst heq
      simp only [HierarchicalNSW.append, Function.update_self] at hl'
      cases hl'
      exact ⟨_, hlast, rfl⟩
    · simp only [HierarchicalNSW.append, Function.update_of_ne heq] at hl'
      obtain ⟨el, hel, hlabel⟩ := h.lookup l' k hl'
      exact ⟨el, hold hel, hlabel⟩
  · intro k
    show P.contains ix.deletedElements k = true ↔ _
    rw [h.deleted, isMarkedDeleted_iff, isMarkedDeleted_iff]
    constructor
    · rintro ⟨el, hel, hdel⟩
      exact ⟨el, hold hel, hdel⟩
    · rintro ⟨el, hel, hdel⟩
      exact ⟨el, hmarked hel hdel, hdel⟩
  · intro k el hel hdel
    have hlookup := h.marked k el (hmarked hel hdel) hdel
    have hne : el.label ≠ l := by
      rintro rfl
      rw [hl] at hlookup
      cases hlookup
    simp only [HierarchicalNSW.append, Function.update_of_ne hne]
    exact hlookup

theorem WellFormed.writes_append (h : ix.WellFormed) (l : UInt64) (data : List UInt32) :
    Writes ix (ix.append data l) l data := by
  refine ⟨⟨ix.elements.length, ⟨l, data, false⟩, ?_, ?_, rfl, rfl⟩, fun l' data' hne =>
    shows_congr ?_ (fun k hk => ?_) data'⟩
  · simp [HierarchicalNSW.append, curElementCount]
  · simp [HierarchicalNSW.append]
  · simp only [HierarchicalNSW.append, Function.update_of_ne hne]
  · obtain ⟨el, hel, _⟩ := h.lookup l' k hk
    exact getElem?_append_lt (List.getElem?_eq_some_iff.mp hel).1 data l

section Reuse

variable {data : List UInt32} {l : UInt64} {id : ℕ} {el : Element}

theorem getElem?_reuse_self (hel : ix.elements[id]? = some el) (old : UInt64) :
    (ix.reuse data l old id).elements[id]? = some ⟨l, data, false⟩ := by
  simp [reuse, hel]

theorem getElem?_reuse_ne {k : ℕ} (hk : k ≠ id) (old : UInt64) :
    (ix.reuse data l old id).elements[k]? = ix.elements[k]? := by
  simp [reuse, Ne.symm hk]

theorem lookup_reuse_self (old : UInt64) : (ix.reuse data l old id).labelLookup l = some id := by
  simp [reuse]

theorem lookup_reuse_ne {l' old : UInt64} (hl : l' ≠ l) (hold : l' ≠ old) :
    (ix.reuse data l old id).labelLookup l' = ix.labelLookup l' := by
  simp [reuse, hl, hold]

/-- A marked slot is given to a label that has a slot of its own. -/
theorem WellFormed.reuse (h : ix.WellFormed) (hl : ix.Holds l) (hel : ix.elements[id]? = some el)
    (hdel : el.deleted = true) : (ix.reuse data l el.label id).WellFormed := by
  have hlookup := h.marked id el hel hdel
  refine ⟨h.replaces, ?_, ?_, ?_⟩
  · intro l' k hl'
    by_cases heq : l' = l
    · subst heq
      rw [lookup_reuse_self] at hl'
      cases hl'
      exact ⟨_, getElem?_reuse_self hel _, rfl⟩
    · by_cases hold : l' = el.label
      · subst hold
        simp [HierarchicalNSW.reuse, heq] at hl'
      · rw [lookup_reuse_ne heq hold] at hl'
        obtain ⟨el', hel', hlabel⟩ := h.lookup l' k hl'
        have hk : k ≠ id := by
          rintro rfl
          rw [hel] at hel'
          cases hel'
          exact hold hlabel.symm
        exact ⟨el', by rw [getElem?_reuse_ne hk]; exact hel', hlabel⟩
  · intro k
    by_cases hk : k = id
    · subst hk
      rw [isMarkedDeleted_iff, getElem?_reuse_self hel]
      simp [HierarchicalNSW.reuse]
    · have hcontains : P.contains (ix.reuse data l el.label id).deletedElements k =
          P.contains ix.deletedElements k := by
        simp [HierarchicalNSW.reuse, hk]
      rw [hcontains, h.deleted, isMarkedDeleted_iff, isMarkedDeleted_iff, getElem?_reuse_ne hk]
  · intro k el' hel' hdel'
    by_cases hk : k = id
    · subst hk
      rw [getElem?_reuse_self hel] at hel'
      cases hel'
      cases hdel'
    · rw [getElem?_reuse_ne hk] at hel'
      have hlookup' := h.marked k el' hel' hdel'
      have hold : el'.label ≠ el.label := by
        intro heq
        rw [heq, hlookup] at hlookup'
        exact hk (Option.some.inj hlookup').symm
      have hne : el'.label ≠ l := by
        rintro rfl
        have := hl.not_marked hlookup'
        rw [isMarkedDeleted_iff.mpr ⟨el', hel', hdel'⟩] at this
        cases this
      rw [lookup_reuse_ne hne hold]
      exact hlookup'

theorem WellFormed.writes_reuse (h : ix.WellFormed) (hel : ix.elements[id]? = some el)
    (hdel : el.deleted = true) : Writes ix (ix.reuse data l el.label id) l data := by
  have hlookup := h.marked id el hel hdel
  refine ⟨⟨id, _, lookup_reuse_self _, getElem?_reuse_self hel _, rfl, rfl⟩,
    fun l' data' hne => ?_⟩
  by_cases hold : l' = el.label
  · -- the label that loses the slot showed nothing
    subst hold
    refine iff_of_false ?_ ?_
    · rintro ⟨k, el', hl', _⟩
      simp [HierarchicalNSW.reuse, hne] at hl'
    · intro hshows
      have := (holds_iff.mpr ⟨data', hshows⟩).not_marked hlookup
      rw [isMarkedDeleted_iff.mpr ⟨el, hel, hdel⟩] at this
      cases this
  · refine shows_congr (lookup_reuse_ne hne hold) (fun k hk => ?_) data'
    have hslot : k ≠ id := by
      rintro rfl
      obtain ⟨el', hel', hlabel⟩ := h.lookup l' k hk
      rw [hel] at hel'
      cases hel'
      exact hold hlabel.symm
    exact getElem?_reuse_ne hslot _

end Reuse

/-- `markDelete` succeeds on a label that has a slot that is not marked. -/
theorem markDelete_eq (h : ix.WellFormed) {l : UInt64} {id : ℕ} (hl : ix.labelLookup l = some id)
    (hm : ix.isMarkedDeleted id = false) :
    ix.markDelete l = some { ix.setMark id true with
      deletedElements := P.insert ix.deletedElements id } := by
  unfold markDelete
  rw [hl]
  dsimp only
  unfold markDeletedInternal
  rw [if_neg (by simp [hm])]
  dsimp only
  rw [if_pos (show (ix.setMark id true).allowReplaceDeleted = true from h.replaces)]
  rfl

section Mark

variable {l : UInt64} {id : ℕ}

theorem getElem?_setMark_ne {k : ℕ} (hk : k ≠ id) (deleted : Bool) :
    (ix.setMark id deleted).elements[k]? = ix.elements[k]? := by
  simp [setMark, Ne.symm hk]

theorem getElem?_setMark_self {el : Element} (hel : ix.elements[id]? = some el) (deleted : Bool) :
    (ix.setMark id deleted).elements[id]? = some { el with deleted := deleted } := by
  simp [setMark, hel]

theorem WellFormed.markDelete (h : ix.WellFormed) (hl : ix.labelLookup l = some id) :
    WellFormed (P := P) { ix.setMark id true with
      deletedElements := P.insert ix.deletedElements id } := by
  obtain ⟨el, hel, hlabel⟩ := h.lookup l id hl
  refine ⟨h.replaces, ?_, ?_, ?_⟩
  · intro l' k hl'
    obtain ⟨el', hel', hlabel'⟩ := h.lookup l' k hl'
    by_cases hk : k = id
    · subst hk
      rw [hel] at hel'
      cases hel'
      exact ⟨_, getElem?_setMark_self hel true, hlabel'⟩
    · exact ⟨el', by rw [getElem?_setMark_ne hk]; exact hel', hlabel'⟩
  · intro k
    rw [isMarkedDeleted_iff]
    simp only [Libs.contains_insert, Bool.or_eq_true, beq_iff_eq]
    by_cases hk : k = id
    · subst hk
      rw [getElem?_setMark_self hel]
      simp
    · rw [getElem?_setMark_ne hk, ← isMarkedDeleted_iff, h.deleted]
      simp [hk]
  · intro k el' hel' hdel'
    show ix.labelLookup el'.label = some k
    by_cases hk : k = id
    · subst hk
      rw [getElem?_setMark_self hel] at hel'
      cases hel'
      rw [hlabel]
      exact hl
    · rw [getElem?_setMark_ne hk] at hel'
      exact h.marked k el' hel' hdel'

theorem shows_markDelete (h : ix.WellFormed) (hl : ix.labelLookup l = some id) (l' : UInt64)
    (data : List UInt32) : Shows (P := P) { ix.setMark id true with
      deletedElements := P.insert ix.deletedElements id } l' data ↔ l' ≠ l ∧ ix.Shows l' data := by
  obtain ⟨el, hel, hlabel⟩ := h.lookup l id hl
  by_cases hne : l' = l
  · subst hne
    refine iff_of_false ?_ fun hboth => hboth.1 rfl
    rintro ⟨k, el', hl', hel', hdel', _⟩
    change ix.labelLookup l' = some k at hl'
    rw [hl] at hl'
    cases hl'
    rw [getElem?_setMark_self hel] at hel'
    cases hel'
    cases hdel'
  · rw [and_iff_right hne]
    refine shows_congr (by rfl) (fun k hk => ?_) data
    refine getElem?_setMark_ne ?_ true
    rintro rfl
    obtain ⟨el', hel', hlabel'⟩ := h.lookup l' k hk
    rw [hel] at hel'
    cases hel'
    exact hne (hlabel'.symm.trans hlabel)

theorem holds_markDelete (h : ix.WellFormed) (hl : ix.labelLookup l = some id) (l' : UInt64) :
    Holds (P := P) { ix.setMark id true with
      deletedElements := P.insert ix.deletedElements id } l' ↔ l' ≠ l ∧ ix.Holds l' := by
  rw [holds_iff, holds_iff, ← exists_and_left]
  exact exists_congr fun data => shows_markDelete h hl l' data

end Mark

/-- `addPoint` keeps the tables in order, and the label shows the vector afterwards. -/
theorem WellFormed.addPoint (h : ix.WellFormed) {data : List UInt32} {l : UInt64} {replace : Bool}
    (hr : replace = true → ix.Holds l) (hadd : ix.addPoint data l replace = some ix') :
    ix'.WellFormed ∧ Writes ix ix' l data := by
  rcases addPoint_cases h hadd with ⟨id, el, hl, hel, hdel, rfl⟩ | ⟨hl, _, rfl⟩ |
    ⟨hrep, id, el, _, hel, hdel, rfl⟩
  · exact ⟨h.updatePoint data id, h.writes_updatePoint hl hel hdel data⟩
  · exact ⟨h.append hl data, h.writes_append l data⟩
  · exact ⟨h.reuse (hr hrep) hel hdel, h.writes_reuse hel hdel⟩

/-- When `addPoint` throws. -/
theorem addPoint_ne_none (h : ix.WellFormed) (data : List UInt32) {l : UInt64} {replace : Bool}
    (hr : replace = true → ix.Holds l) :
    ix.addPoint data l replace ≠ none ↔
      ix.Holds l ∨ (ix.labelLookup l = none ∧ ix.curElementCount < ix.maxElements) := by
  constructor
  · intro hne
    obtain ⟨ix', hadd⟩ := Option.ne_none_iff_exists'.mp hne
    rcases addPoint_cases h hadd with ⟨id, el, hl, hel, hdel, _⟩ | ⟨hl, hlt, _⟩ | ⟨hrep, _⟩
    · exact .inl ⟨id, el, hl, hel, hdel⟩
    · exact .inr ⟨hl, hlt⟩
    · exact .inl (hr hrep)
  · intro hok hnone
    have hlevel : ix.addPointAtLevel data l ≠ none := by
      rw [addPointAtLevel_eq h]
      rcases hok with hheld | ⟨hl, hlt⟩
      · have hheld' := hheld
        obtain ⟨id, el, hl, _⟩ := hheld'
        rw [hl]
        dsimp only
        rw [if_neg (by simp [hheld.not_marked hl])]
        exact Option.some_ne_none _
      · rw [hl]
        dsimp only
        rw [if_neg (by omega)]
        exact Option.some_ne_none _
    by_cases hreuse : replace = true ∧ P.first ix.deletedElements ≠ none
    · obtain ⟨rfl, hne⟩ := hreuse
      obtain ⟨id, hfirst⟩ := Option.ne_none_iff_exists'.mp hne
      obtain ⟨el, hel, hdel⟩ := isMarkedDeleted_iff.mp
        ((h.deleted id).mp (P.first_some _ _ hfirst))
      rw [addPoint_replace_eq h hfirst hel hdel] at hnone
      cases hnone
    · rw [addPoint_eq_level h hreuse] at hnone
      exact hlevel hnone

end HierarchicalNSW

/-! ## The engine -/

namespace RecallEngine

variable {e e' : RecallEngine P} {itemId : Bytes} {embedding : List UInt32}

/-- The index is in order, its active labels are those with a slot that is not marked, and each
    stands for an item. -/
structure Valid (e : RecallEngine P) : Prop where
  index : e.index.WellFormed
  active : ∀ l, l ∈ e.activeLabels ↔ e.index.Holds l
  item : ∀ l ∈ e.activeLabels, ∃ itemId, e.labelToItemId l = some itemId ∧
    P.hasher itemId = l ∧ itemId ∉ e.deletedItems

theorem valid_create (P : Libs) (maxElements : ℕ) : (create P maxElements).Valid := by
  refine ⟨HierarchicalNSW.wellFormed_create P maxElements, ?_, ?_⟩
  · intro l
    refine iff_of_false (Finset.notMem_empty l) ?_
    rintro ⟨id, el, hl, _⟩
    cases hl
  · intro l hl
    exact absurd hl (Finset.notMem_empty l)

/-- What `addPoint` and `upsertPoint` do to the tables of the engine. -/
structure Stored (e e' : RecallEngine P) (itemId : Bytes) : Prop where
  items : e'.labelToItemId = Function.update e.labelToItemId (P.hasher itemId) (some itemId)
  deleted : e'.deletedItems = e.deletedItems.erase itemId
  active : e'.activeLabels = insert (P.hasher itemId) e.activeLabels

theorem Valid.stored (h : e.Valid) (hs : Stored e e' itemId) (hindex : e'.index.WellFormed)
    (hholds : ∀ l, e'.index.Holds l ↔ l = P.hasher itemId ∨ e.index.Holds l) : e'.Valid := by
  refine ⟨hindex, ?_, ?_⟩
  · intro l
    rw [hs.active, Finset.mem_insert, hholds, h.active]
  · intro l hl
    rw [hs.items, hs.deleted]
    by_cases heq : l = P.hasher itemId
    · subst heq
      exact ⟨itemId, Function.update_self _ _ _, rfl, Finset.notMem_erase _ _⟩
    · rw [hs.active, Finset.mem_insert] at hl
      obtain ⟨itemId', hitem, hhash, hdel⟩ := h.item l (hl.resolve_left heq)
      refine ⟨itemId', ?_, hhash, fun hmem => hdel (Finset.mem_of_mem_erase hmem)⟩
      rw [Function.update_of_ne heq]
      exact hitem

theorem upsertPoint_stored (hres : e.upsertPoint itemId embedding = some e') :
    Stored e e' itemId ∧
      e.index.addPoint embedding (P.hasher itemId) (P.hasher itemId ∈ e.activeLabels) =
        some e'.index := by
  obtain ⟨index, hadd, rfl⟩ := Option.map_eq_some_iff.mp hres
  refine ⟨⟨rfl, rfl, ?_⟩, hadd⟩
  dsimp only
  split_ifs with hin
  · exact (Finset.insert_eq_of_mem hin).symm
  · rfl

theorem Valid.upsertPoint (h : e.Valid) (hres : e.upsertPoint itemId embedding = some e') :
    e'.Valid := by
  obtain ⟨hs, hadd⟩ := upsertPoint_stored hres
  obtain ⟨hwf, hwrites⟩ := h.index.addPoint
    (fun hin => (h.active _).mp (of_decide_eq_true hin)) hadd
  exact h.stored hs hwf hwrites.holds

theorem upsertPoint_ne_none (h : e.Valid) :
    e.upsertPoint itemId embedding ≠ none ↔ P.hasher itemId ∈ e.activeLabels ∨
      (e.index.labelLookup (P.hasher itemId) = none ∧
        e.index.curElementCount < e.index.maxElements) := by
  have hadd := HierarchicalNSW.addPoint_ne_none h.index embedding
    fun hin : decide (P.hasher itemId ∈ e.activeLabels) = true =>
      (h.active _).mp (of_decide_eq_true hin)
  unfold RecallEngine.upsertPoint
  rw [h.active, ← hadd]
  dsimp only
  rw [Ne, Option.map_eq_none_iff]

/-- `addPoint` leaves an active item alone. -/
theorem addPoint_active (hin : P.hasher itemId ∈ e.activeLabels) :
    e.addPoint itemId embedding = some e := by
  unfold RecallEngine.addPoint
  exact if_pos hin

theorem addPoint_stored (hin : P.hasher itemId ∉ e.activeLabels)
    (hres : e.addPoint itemId embedding = some e') : Stored e e' itemId ∧
      e.index.addPoint embedding (P.hasher itemId) false = some e'.index := by
  unfold RecallEngine.addPoint at hres
  dsimp only at hres
  rw [if_neg hin] at hres
  obtain ⟨index, hadd, rfl⟩ := Option.map_eq_some_iff.mp hres
  exact ⟨⟨rfl, rfl, rfl⟩, hadd⟩

theorem Valid.addPoint (h : e.Valid) (hres : e.addPoint itemId embedding = some e') :
    e'.Valid := by
  by_cases hin : P.hasher itemId ∈ e.activeLabels
  · rw [addPoint_active hin] at hres
    cases hres
    exact h
  · obtain ⟨hs, hadd⟩ := addPoint_stored hin hres
    obtain ⟨hwf, hwrites⟩ := h.index.addPoint (fun hf => by cases hf) hadd
    exact h.stored hs hwf hwrites.holds

/-- Deleting an item that is active never throws. -/
theorem deletePoint_eq (h : e.Valid) (hin : P.hasher itemId ∈ e.activeLabels) :
    ∃ id, e.index.labelLookup (P.hasher itemId) = some id ∧
      e.deletePoint itemId = some { e with
        index := { e.index.setMark id true with
          deletedElements := P.insert e.index.deletedElements id }
        deletedItems := insert itemId e.deletedItems
        activeLabels := e.activeLabels.erase (P.hasher itemId) } := by
  have hheld := (h.active _).mp hin
  obtain ⟨id, el, hl, _⟩ := (h.active _).mp hin
  refine ⟨id, hl, ?_⟩
  unfold RecallEngine.deletePoint
  dsimp only
  rw [if_neg (not_not.mpr hin),
    HierarchicalNSW.markDelete_eq h.index hl (hheld.not_marked hl)]
  rfl

/-- Deleting one that is not does nothing. -/
theorem deletePoint_inactive (hin : P.hasher itemId ∉ e.activeLabels) :
    e.deletePoint itemId = some e := by
  unfold RecallEngine.deletePoint
  exact if_pos hin

theorem deletePoint_ne_none (h : e.Valid) : e.deletePoint itemId ≠ none := by
  by_cases hin : P.hasher itemId ∈ e.activeLabels
  · obtain ⟨id, _, heq⟩ := deletePoint_eq h hin
    rw [heq]
    exact Option.some_ne_none _
  · rw [deletePoint_inactive hin]
    exact Option.some_ne_none _

theorem Valid.deletePoint (h : e.Valid) (hres : e.deletePoint itemId = some e') : e'.Valid := by
  by_cases hin : P.hasher itemId ∈ e.activeLabels
  · obtain ⟨id, hl, heq⟩ := deletePoint_eq h hin
    rw [heq] at hres
    cases hres
    refine ⟨h.index.markDelete hl, ?_, ?_⟩
    · intro l
      rw [HierarchicalNSW.holds_markDelete h.index hl, Finset.mem_erase, h.active]
    · intro l hl'
      obtain ⟨hne, hin'⟩ := Finset.mem_erase.mp hl'
      obtain ⟨itemId', hitem, hhash, hdel⟩ := h.item l hin'
      refine ⟨itemId', hitem, hhash, ?_⟩
      rw [Finset.mem_insert]
      rintro (rfl | hmem)
      · exact hne hhash.symm
      · exact hdel hmem
  · rw [deletePoint_inactive hin] at hres
    cases hres
    exact h

end RecallEngine

end MyKvRaft
