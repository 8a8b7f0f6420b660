import MyKvRaft.Common.Run
import MyKvRaft.KvServer.Features

/-!
# The live items of a recall engine

A recall engine is meant to be a map from items to embeddings: an upsert sets the embedding
of an item, a deletion takes the item out. What keeps it from being one is the slots that
deletions leave behind: a label that still has one cannot be inserted again, and an update
of another item takes one over while the slot it had stays as it was.

* `call_cases`: what a call that returns has done.
* `refines_map`: when no call throws and the engine is that map after each call.
-/

namespace MyKvRaft

open Transition

variable {P : Libs}

/-! ## Calls -/

/-- A call that changes the engine. -/
inductive EngineCall where
  | addPoint (itemId : Bytes) (embedding : List UInt32)
  | upsertPoint (itemId : Bytes) (embedding : List UInt32)
  | deletePoint (itemId : Bytes)
deriving DecidableEq

namespace EngineCall

def itemId : EngineCall → Bytes
  | addPoint itemId _ => itemId
  | upsertPoint itemId _ => itemId
  | deletePoint itemId => itemId

def isAddPoint : EngineCall → Bool
  | addPoint .. => true
  | _ => false

/-- The call is not a deletion. -/
def isInsert : EngineCall → Bool
  | deletePoint _ => false
  | _ => true

end EngineCall

/-- The last call that names the item. -/
def lastCall (calls : List EngineCall) (itemId : Bytes) : Option EngineCall :=
  calls.reverse.find? fun c => c.itemId = itemId

theorem lastCall_snoc (calls : List EngineCall) (c : EngineCall) (itemId : Bytes) :
    lastCall (calls ++ [c]) itemId = if c.itemId = itemId then some c else lastCall calls itemId := by
  unfold lastCall
  rw [List.reverse_append, List.reverse_singleton, List.singleton_append, List.find?_cons]
  by_cases heq : c.itemId = itemId
  · simp [heq]
  · simp [heq]

namespace RecallEngine

variable {e e' : RecallEngine P} {c : EngineCall} {calls : List EngineCall}

def call (e : RecallEngine P) : EngineCall → Option (RecallEngine P)
  | .addPoint itemId embedding => e.addPoint itemId embedding
  | .upsertPoint itemId embedding => e.upsertPoint itemId embedding
  | .deletePoint itemId => e.deletePoint itemId

def callAll (e : RecallEngine P) (calls : List EngineCall) : Option (RecallEngine P) :=
  calls.foldlM call e

theorem callAll_snoc (e : RecallEngine P) (calls : List EngineCall) (c : EngineCall) :
    e.callAll (calls ++ [c]) = (e.callAll calls).bind fun e => e.call c := foldlM_snoc e calls c

theorem Valid.call (h : e.Valid) (hres : e.call c = some e') : e'.Valid := by
  cases c with
  | addPoint itemId embedding => exact h.addPoint hres
  | upsertPoint itemId embedding => exact h.upsertPoint hres
  | deletePoint itemId => exact h.deletePoint hres

theorem Valid.callAll (h : e.Valid) (hres : e.callAll calls = some e') : e'.Valid :=
  foldlM_invariant (fun _ _ _ h hres => h.call hres) h hres

/-- What a call that returns has done: nothing, or it has stored the item, or deleted it. -/
theorem call_cases (hres : e.call c = some e') :
    e' = e ∨
    (Stored e e' c.itemId ∧ ∃ data replace,
      e.index.addPoint data (P.hasher c.itemId) replace = some e'.index) ∨
    (P.hasher c.itemId ∈ e.activeLabels ∧
      e.index.markDelete (P.hasher c.itemId) = some e'.index ∧
      e'.labelToItemId = e.labelToItemId ∧
      e'.activeLabels = e.activeLabels.erase (P.hasher c.itemId)) := by
  cases c with
  | addPoint itemId embedding =>
    by_cases hin : P.hasher itemId ∈ e.activeLabels
    · have hsame : e.addPoint itemId embedding = some e' := hres
      rw [addPoint_active hin] at hsame
      cases hsame
      exact .inl rfl
    · obtain ⟨hs, hadd⟩ := addPoint_stored hin hres
      exact .inr (.inl ⟨hs, _, _, hadd⟩)
  | upsertPoint itemId embedding =>
    obtain ⟨hs, hadd⟩ := upsertPoint_stored hres
    exact .inr (.inl ⟨hs, _, _, hadd⟩)
  | deletePoint itemId =>
    have hdel : e.deletePoint itemId = some e' := hres
    by_cases hin : P.hasher itemId ∈ e.activeLabels
    · unfold RecallEngine.deletePoint at hdel
      dsimp only at hdel
      rw [if_neg (not_not.mpr hin)] at hdel
      obtain ⟨index, hmark, rfl⟩ := Option.map_eq_some_iff.mp hdel
      exact .inr (.inr ⟨hin, hmark, rfl, rfl⟩)
    · rw [deletePoint_inactive hin] at hdel
      cases hdel
      exact .inl rfl

/-- An upsert of an item that is not active finds its label unused and a slot free. -/
def Fits (e : RecallEngine P) : EngineCall → Prop
  | .upsertPoint itemId _ => P.hasher itemId ∈ e.activeLabels ∨
      (e.index.labelLookup (P.hasher itemId) = none ∧
        e.index.curElementCount < e.index.maxElements)
  | _ => True

/-- Which calls throw. -/
theorem call_ne_none (h : e.Valid) (hc : c.isAddPoint = false) :
    e.call c ≠ none ↔ e.Fits c := by
  cases c with
  | addPoint itemId embedding => cases hc
  | upsertPoint itemId embedding => exact upsertPoint_ne_none h
  | deletePoint itemId => exact iff_of_true (deletePoint_ne_none h) trivial

/-- The vector an item is inserted or updated with is the one its label shows, and the other
    labels show what they showed. -/
theorem Valid.writes_upsertPoint (h : e.Valid) {itemId : Bytes} {embedding : List UInt32}
    (hres : e.upsertPoint itemId embedding = some e') :
    HierarchicalNSW.Writes e.index e'.index (P.hasher itemId) embedding :=
  (h.index.addPoint (fun hin => (h.active _).mp (of_decide_eq_true hin))
    (upsertPoint_stored hres).2).2

/-- A deleted label shows nothing, and the other labels show what they showed. -/
theorem Valid.shows_deletePoint (h : e.Valid) {itemId : Bytes}
    (hres : e.deletePoint itemId = some e') (l : UInt64) (data : List UInt32) :
    e'.index.Shows l data ↔ l ≠ P.hasher itemId ∧ e.index.Shows l data := by
  by_cases hin : P.hasher itemId ∈ e.activeLabels
  · obtain ⟨id, hl, heq⟩ := deletePoint_eq h hin
    rw [heq] at hres
    cases hres
    exact HierarchicalNSW.shows_markDelete h.index hl l data
  · rw [deletePoint_inactive hin] at hres
    cases hres
    rw [iff_and_self]
    rintro hshows rfl
    exact hin ((h.active _).mpr (HierarchicalNSW.holds_iff.mpr ⟨data, hshows⟩))

/-! ## The map -/

/-- The item is live with this embedding. -/
structure IsLive (e : RecallEngine P) (itemId : Bytes) (embedding : List UInt32) : Prop where
  active : P.hasher itemId ∈ e.activeLabels
  notDeleted : itemId ∉ e.deletedItems
  element : e.index.Shows (P.hasher itemId) embedding

/-- Where items have labels of their own, an item is live with what its label shows. -/
theorem Named.isLive_iff {ids : Set Bytes} (h : e.Named ids) (hinj : Set.InjOn P.hasher ids)
    {itemId : Bytes} (hid : itemId ∈ ids) (embedding : List UInt32) :
    e.IsLive itemId embedding ↔ e.index.Shows (P.hasher itemId) embedding := by
  refine ⟨IsLive.element, fun hshows => ?_⟩
  have hactive := (h.valid.active _).mpr (HierarchicalNSW.holds_iff.mpr ⟨embedding, hshows⟩)
  obtain ⟨itemId', hitem, hhash, hdeleted⟩ := h.valid.item _ hactive
  have hsame := hinj (h.named _ _ hitem).2.1 hid hhash
  subst hsame
  exact ⟨hactive, hdeleted, hshows⟩

/-- The engine is the map that the calls describe: the labels of the items that were upserted
    last show the embeddings of these upserts. -/
structure IsMap (ids : Set Bytes) (e : RecallEngine P) (calls : List EngineCall) : Prop where
  named : e.Named ids
  shows : ∀ itemId ∈ ids, ∀ embedding, e.index.Shows (P.hasher itemId) embedding ↔
    lastCall calls itemId = some (.upsertPoint itemId embedding)

variable {ids : Set Bytes}

theorem isMap_create (P : Libs) (maxElements : ℕ) (ids : Set Bytes) :
    (create P maxElements).IsMap ids [] := by
  refine ⟨named_create ids maxElements, fun itemId _ embedding => iff_of_false ?_ ?_⟩
  · rintro ⟨id, el, hl, _⟩
    cases hl
  · intro h
    cases h

theorem IsMap.upsertPoint (h : e.IsMap ids calls) (hinj : Set.InjOn P.hasher ids)
    {itemId : Bytes} (hid : itemId ∈ ids) {embedding : List UInt32}
    (hres : e.upsertPoint itemId embedding = some e') :
    e'.IsMap ids (calls ++ [.upsertPoint itemId embedding]) := by
  obtain ⟨hself, hother⟩ := h.named.valid.writes_upsertPoint hres
  refine ⟨h.named.upsertPoint hid hres, fun itemId' hid' embedding' => ?_⟩
  rw [lastCall_snoc]
  show _ ↔ (if itemId = itemId' then _ else _) = _
  by_cases heq : itemId = itemId'
  · subst heq
    rw [if_pos rfl]
    constructor
    · intro hshows
      rw [hself.unique hshows]
    · rintro hsame
      cases hsame
      exact hself
  · rw [if_neg heq, ← h.shows itemId' hid']
    exact hother _ _ fun hhash => heq (hinj hid hid' hhash.symm)

theorem IsMap.deletePoint (h : e.IsMap ids calls) (hinj : Set.InjOn P.hasher ids)
    {itemId : Bytes} (hid : itemId ∈ ids) (hres : e.deletePoint itemId = some e') :
    e'.IsMap ids (calls ++ [.deletePoint itemId]) := by
  refine ⟨(h.named.deletePoint hinj hid hres).1, fun itemId' hid' embedding => ?_⟩
  rw [lastCall_snoc, h.named.valid.shows_deletePoint hres]
  show _ ↔ (if itemId = itemId' then _ else _) = _
  by_cases heq : itemId = itemId'
  · subst heq
    rw [if_pos rfl]
    exact iff_of_false (fun hboth => hboth.1 rfl) (fun hsame => by cases hsame)
  · rw [if_neg heq, ← h.shows itemId' hid']
    exact and_iff_right fun hhash => heq (hinj hid hid' hhash.symm)

theorem IsMap.call (h : e.IsMap ids calls) (hinj : Set.InjOn P.hasher ids) (hid : c.itemId ∈ ids)
    (hc : c.isAddPoint = false) (hres : e.call c = some e') : e'.IsMap ids (calls ++ [c]) := by
  cases c with
  | addPoint itemId embedding => cases hc
  | upsertPoint itemId embedding => exact h.upsertPoint hinj hid hres
  | deletePoint itemId => exact h.deletePoint hinj hid hres

/-- As long as every call fits, none throws, and the engine is the map. -/
theorem isMap_callAll {maxElements : ℕ} (hinj : Set.InjOn P.hasher ids)
    (hcalls : ∀ c ∈ calls, c.itemId ∈ ids ∧ c.isAddPoint = false)
    (hfits : ∀ before c, before ++ [c] <+: calls → ∀ e,
      (create P maxElements).callAll before = some e → e.Fits c) :
    ∃ e, (create P maxElements).callAll calls = some e ∧ e.IsMap ids calls := by
  induction calls using List.reverseRecOn with
  | nil => exact ⟨_, rfl, isMap_create P maxElements ids⟩
  | append_singleton calls c ih =>
    obtain ⟨e, hbefore, hmap⟩ := ih (fun d hd => hcalls d (List.mem_append_left _ hd))
      fun before d hpre => hfits before d (hpre.trans (List.prefix_append _ _))
    obtain ⟨hid, hc⟩ := hcalls c (List.mem_append_right _ List.mem_cons_self)
    obtain ⟨e', hlast⟩ := Option.ne_none_iff_exists'.mp
      ((call_ne_none hmap.named.valid hc).mpr (hfits calls c (List.prefix_refl _) e hbefore))
    refine ⟨e', ?_, hmap.call hinj hid hc hlast⟩
    rw [callAll_snoc, hbefore]
    exact hlast

end RecallEngine

open RecallEngine in
/-- For every sequence of upserts and deletions of items whose hashes differ, and every size of
    the index: no call throws and after each call the live items are those whose last call is
    an upsert, with its embedding, if and only if every upsert of an item that is not active
    finds its label unused and a slot free. -/
theorem refines_map (P : Libs) (maxElements : ℕ) (ids : Set Bytes) (hinj : Set.InjOn P.hasher ids)
    (calls : List EngineCall) (hcalls : ∀ c ∈ calls, c.itemId ∈ ids ∧ c.isAddPoint = false) :
    (∀ before, before <+: calls → ∃ e, (create P maxElements).callAll before = some e ∧
      ∀ itemId ∈ ids, ∀ embedding, e.IsLive itemId embedding ↔
        lastCall before itemId = some (.upsertPoint itemId embedding)) ↔
    ∀ before c, before ++ [c] <+: calls → ∀ e,
      (create P maxElements).callAll before = some e → e.Fits c := by
  constructor
  · intro hmap before c hpre e hbefore
    have hc := (hcalls c (hpre.subset (List.mem_append_right _ List.mem_cons_self))).2
    obtain ⟨e', hres, _⟩ := hmap (before ++ [c]) hpre
    rw [callAll_snoc, hbefore] at hres
    refine (call_ne_none ((valid_create P maxElements).callAll hbefore) hc).mp ?_
    rw [show e.call c = some e' from hres]
    exact Option.some_ne_none e'
  · intro hfits before hpre
    obtain ⟨e, hres, hmap⟩ := isMap_callAll hinj (fun c hc => hcalls c (hpre.subset hc))
      fun before' c hpre' => hfits before' c (hpre'.trans hpre)
    refine ⟨e, hres, fun itemId hid embedding => ?_⟩
    rw [hmap.named.isLive_iff hinj hid]
    exact hmap.shows itemId hid embedding

/-! ### Runs on given inputs -/

/-- The call at a position, with those before it. -/
theorem prefix_snoc {before calls : List EngineCall} {c : EngineCall}
    (h : before ++ [c] <+: calls) :
    before = calls.take before.length ∧ calls[before.length]? = some c := by
  obtain ⟨rest, rfl⟩ := h
  simp

instance (e : RecallEngine P) (c : EngineCall) : Decidable (e.Fits c) :=
  match c with
  | .upsertPoint itemId _ => inferInstanceAs (Decidable (P.hasher itemId ∈ e.activeLabels ∨
      (e.index.labelLookup (P.hasher itemId) = none ∧ _)))
  | .addPoint .. => .isTrue trivial
  | .deletePoint _ => .isTrue trivial

/-- The items `a` and `b` are inserted, `a` is deleted, `b` is updated in the slot of `a`, and `a`
    is inserted again. -/
def reinserted : List EngineCall :=
  [.upsertPoint [97] [1], .upsertPoint [98] [2], .deletePoint [97], .upsertPoint [98] [3],
    .upsertPoint [97] [4]]

theorem injOn_pair : Set.InjOn listLibs.hasher {[97], [98]} := by
  have hne : listLibs.hasher [97] ≠ listLibs.hasher [98] := by decide +kernel
  rintro a (rfl | rfl) b (rfl | rfl) hab
  · rfl
  · exact absurd hab hne
  · exact absurd hab hne.symm
  · rfl

theorem refines_map_reinserted : ∃ e, (RecallEngine.create listLibs 3).callAll reinserted = some e ∧
    e.IsLive [97] [4] ∧ e.IsLive [98] [3] := by
  have hcalls : ∀ c ∈ reinserted, c.itemId ∈ ({[97], [98]} : Set Bytes) ∧ c.isAddPoint = false := by
    have hnames : ∀ c ∈ reinserted, (c.itemId = [97] ∨ c.itemId = [98]) ∧ c.isAddPoint = false := by
      decide
    exact hnames
  have hfits : ∀ n < reinserted.length, ∀ c ∈ reinserted[n]?,
      ∀ e ∈ (RecallEngine.create listLibs 3).callAll (reinserted.take n), e.Fits c := by
    decide +kernel
  obtain ⟨e, hres, hlive⟩ := (refines_map listLibs 3 {[97], [98]} injOn_pair reinserted hcalls).mpr
    (fun before c hpre e hbefore => by
      obtain ⟨htake, hc⟩ := prefix_snoc hpre
      rw [htake] at hbefore
      exact hfits before.length (List.getElem?_eq_some_iff.mp hc).1 c hc e hbefore)
    reinserted (List.prefix_refl _)
  exact ⟨e, hres, (hlive [97] (.inl rfl) [4]).mpr rfl, (hlive [98] (.inr rfl) [3]).mpr rfl⟩

/-- An item that was deleted is inserted again while its slot is there. Two items that do this and
    let each other take over their slots fill an index of three. -/
theorem refines_map_fails :
    (RecallEngine.create listLibs 2).callAll
      [.upsertPoint [97] [1], .deletePoint [97], .upsertPoint [97] [2]] = none ∧
    (RecallEngine.create listLibs 3).callAll (reinserted ++
      [.deletePoint [97], .upsertPoint [98] [5], .upsertPoint [97] [6]]) = none := by
  decide +kernel

end MyKvRaft
