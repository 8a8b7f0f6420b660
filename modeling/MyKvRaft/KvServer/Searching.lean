import MyKvRaft.KvServer.LiveItems

/-!
# What a search returns

`searchTopK` reports for every slot that the index finds the item of its label, unless the
item is in `m_deletedItems`. That is one slot for an item as long as every slot is the one
its label stands for.

* `Clean.call`: so it stays while no update takes over a slot of a deleted item.
* `search_distinct_live`: then, and only then, every search is right.
-/

namespace MyKvRaft

open Transition

variable {P : Libs} {S : Type}

/-! ## The search -/

/-- What `searchKnnCloserFirst` returns for the slots it finds: their distances and labels. -/
def HierarchicalNSW.neighbours (ix : HierarchicalNSW P) (dist : List UInt32 → List UInt32 → S)
    (query : List UInt32) (found : List ℕ) : List (S × UInt64) :=
  found.filterMap fun id => ix.elements[id]?.map fun el => (dist query el.data, el.label)

/-- What the search of the graph may find: up to `k` slots that are not marked, each once. -/
structure FindsUnmarked (find : HierarchicalNSW P → List UInt32 → ℕ → List ℕ) : Prop where
  nodup : ∀ ix query k, (find ix query k).Nodup
  length : ∀ ix query k, (find ix query k).length ≤ k
  unmarked : ∀ ix query k, ∀ id ∈ find ix query k, ∃ el, ix.elements[id]? = some el ∧
    el.deleted = false

namespace RecallEngine

/-- The item a label is reported as. -/
def reported (e : RecallEngine P) (l : UInt64) : Option Bytes :=
  match e.labelToItemId l with
  | none => none
  | some itemId => if itemId ∈ e.deletedItems then none else some itemId

/-- `searchTopK` (lines 115–162): the item ids with their scores. `topK` becomes a `size_t`. -/
def searchTopK (e : RecallEngine P) (dist : List UInt32 → List UInt32 → S)
    (find : HierarchicalNSW P → List UInt32 → ℕ → List ℕ) (query : List UInt32) (topK : ℤ) :
    List (Bytes × S) :=
  if e.index.curElementCount = 0 then []
  else
    (e.index.neighbours dist query (find e.index query (topK % 2 ^ 64).toNat)).filterMap fun p =>
      (e.reported p.2).map fun itemId => (itemId, p.1)

variable {e : RecallEngine P} {dist : List UInt32 → List UInt32 → S}
  {find : HierarchicalNSW P → List UInt32 → ℕ → List ℕ} {query : List UInt32} {topK : ℤ}

theorem reported_eq_some {l : UInt64} {itemId : Bytes} :
    e.reported l = some itemId ↔ e.labelToItemId l = some itemId ∧ itemId ∉ e.deletedItems := by
  unfold reported
  split
  · next h => simp [h]
  · next itemId' h =>
    rw [h, Option.some.injEq]
    split_ifs with hdel
    · constructor
      · intro hf
        cases hf
      · rintro ⟨rfl, hnot⟩
        exact absurd hdel hnot
    · rw [Option.some.injEq]
      constructor
      · rintro rfl
        exact ⟨rfl, hdel⟩
      · exact And.left

/-- Where the results come from. -/
theorem mem_searchTopK {r : Bytes × S} (hr : r ∈ e.searchTopK dist find query topK) :
    ∃ id ∈ find e.index query (topK % 2 ^ 64).toNat, ∃ el, e.index.elements[id]? = some el ∧
      e.reported el.label = some r.1 ∧ r.2 = dist query el.data := by
  unfold searchTopK HierarchicalNSW.neighbours at hr
  split_ifs at hr
  · cases hr
  · obtain ⟨p, hp, hreport⟩ := List.mem_filterMap.mp hr
    obtain ⟨id, hid, hslot⟩ := List.mem_filterMap.mp hp
    obtain ⟨el, hel, rfl⟩ := Option.map_eq_some_iff.mp hslot
    obtain ⟨itemId, hitem, rfl⟩ := Option.map_eq_some_iff.mp hreport
    exact ⟨id, hid, el, hel, hitem, rfl⟩

/-- The items that are returned, slot by slot. -/
theorem searchTopK_items (hne : e.index.curElementCount ≠ 0) :
    (e.searchTopK dist find query topK).map (·.1) =
      (find e.index query (topK % 2 ^ 64).toNat).filterMap fun id =>
        e.index.elements[id]?.bind fun el => e.reported el.label := by
  unfold searchTopK HierarchicalNSW.neighbours
  rw [if_neg hne, List.map_filterMap, List.filterMap_filterMap]
  refine congrArg (fun f => List.filterMap f _) (funext fun id => ?_)
  cases e.index.elements[id]? with
  | none => rfl
  | some el => simp [Function.comp_def]

end RecallEngine

/-! ## Embeddings -/

/-- The embedding a call gives to the item it names; `addPoint` gives none to an active one. -/
def RecallEngine.gives (e : RecallEngine P) : EngineCall → Option (List UInt32)
  | .addPoint itemId embedding =>
    if P.hasher itemId ∈ e.activeLabels then none else some embedding
  | .upsertPoint _ embedding => some embedding
  | .deletePoint _ => none

/-- An upsert of an active item finds no slot to take over. -/
def RecallEngine.Settles (e : RecallEngine P) : EngineCall → Prop
  | .upsertPoint itemId _ => P.hasher itemId ∈ e.activeLabels →
      P.first e.index.deletedElements = none
  | _ => True

/-- An engine, and as a history variable the embedding every item was given last. -/
structure Chronicle (P : Libs) where
  engine : RecallEngine P
  given : Bytes → Option (List UInt32)

namespace Chronicle

def create (P : Libs) (maxElements : ℕ) : Chronicle P :=
  ⟨RecallEngine.create P maxElements, fun _ => none⟩

/-- The history after a call. -/
def record (t : Chronicle P) (c : EngineCall) : Bytes → Option (List UInt32) :=
  match t.engine.gives c with
  | none => t.given
  | some embedding => Function.update t.given c.itemId (some embedding)

def call (t : Chronicle P) (c : EngineCall) : Option (Chronicle P) :=
  (t.engine.call c).map fun e => ⟨e, t.record c⟩

def callAll (t : Chronicle P) (calls : List EngineCall) : Option (Chronicle P) := calls.foldlM call t

/-- The last call that names the item puts it into the engine. -/
def Inserted (calls : List EngineCall) (itemId : Bytes) : Prop :=
  (lastCall calls itemId).any EngineCall.isInsert = true

/-- Every search returns distinct items that are live, with the distances to the embeddings they
    were given last. -/
def SearchesRight (dist : List UInt32 → List UInt32 → S) (t : Chronicle P)
    (calls : List EngineCall) : Prop :=
  ∀ find, FindsUnmarked find → ∀ query topK,
    ((t.engine.searchTopK dist find query topK).map (·.1)).Nodup ∧
    ∀ r ∈ t.engine.searchTopK dist find query topK, Inserted calls r.1 ∧
      ∃ embedding, t.given r.1 = some embedding ∧ r.2 = dist query embedding

end Chronicle

/-! ## One slot for a label -/

namespace HierarchicalNSW

variable {ix ix' : HierarchicalNSW P} {l : UInt64} {data : List UInt32} {id : ℕ}

/-- Every slot is the one its label stands for. -/
def Single (ix : HierarchicalNSW P) : Prop :=
  ∀ id el, ix.elements[id]? = some el → ix.labelLookup el.label = some id

/-- A slot is written to, but not its label. -/
theorem Single.modify (h : ix.Single) {f : Element → Element} (hf : ∀ el, (f el).label = el.label)
    (id : ℕ) : Single { ix with elements := ix.elements.modify id f } := by
  intro k el hel
  rw [List.getElem?_modify] at hel
  obtain ⟨el₀, hel₀, rfl⟩ := Option.map_eq_some_iff.mp hel
  have hlabel : (if id = k then f el₀ else el₀).label = el₀.label := by
    split_ifs
    · exact hf el₀
    · rfl
  show ix.labelLookup (if id = k then f el₀ else el₀).label = some k
  rw [hlabel]
  exact h k el₀ hel₀

theorem Single.updatePoint (h : ix.Single) (data : List UInt32) (id : ℕ) :
    (ix.updatePoint data id).Single :=
  h.modify (f := fun el => { el with data := data }) (fun _ => rfl) id

theorem Single.setMark (h : ix.Single) (id : ℕ) (deleted : Bool) : (ix.setMark id deleted).Single :=
  h.modify (f := fun el => { el with deleted := deleted }) (fun _ => rfl) id

theorem Single.append (h : ix.Single) (hl : ix.labelLookup l = none) (data : List UInt32) :
    (ix.append data l).Single := by
  intro k el hel
  rcases lt_or_ge k ix.elements.length with hk | hk
  · rw [getElem?_append_lt hk] at hel
    have hlookup := h k el hel
    have hne : el.label ≠ l := by
      rintro rfl
      rw [hl] at hlookup
      cases hlookup
    show Function.update ix.labelLookup l _ el.label = some k
    rw [Function.update_of_ne hne]
    exact hlookup
  · have hlt := (List.getElem?_eq_some_iff.mp hel).1
    simp only [HierarchicalNSW.append, List.length_append, List.length_singleton] at hlt
    obtain rfl : k = ix.elements.length := by omega
    simp only [HierarchicalNSW.append, List.getElem?_concat_length, Option.some.injEq] at hel
    subst hel
    exact Function.update_self _ _ _

/-- `addPoint` keeps it, unless it takes over a slot. -/
theorem Single.addPoint (h : ix.Single) (hwf : ix.WellFormed) {replace : Bool}
    (hadd : ix.addPoint data l replace = some ix')
    (hfirst : replace = true → P.first ix.deletedElements = none) : ix'.Single := by
  rcases addPoint_cases hwf hadd with ⟨id, el, _, _, _, rfl⟩ | ⟨hl, _, rfl⟩ |
    ⟨hrep, id, el, hsome, _⟩
  · exact h.updatePoint data id
  · exact h.append hl data
  · rw [hfirst hrep] at hsome
    cases hsome

end HierarchicalNSW

/-! ## Runs in which every update settles -/

namespace Chronicle

variable {t t' : Chronicle P} {c : EngineCall} {calls : List EngineCall}
  {dist : List UInt32 → List UInt32 → S}

/-- Every slot is the one its label stands for, and an active label stands for an item whose last
    call put it there, with the embedding it was given last. -/
structure Clean (t : Chronicle P) (calls : List EngineCall) : Prop where
  valid : t.engine.Valid
  single : t.engine.index.Single
  live : ∀ l ∈ t.engine.activeLabels, ∀ itemId, t.engine.labelToItemId l = some itemId →
    Inserted calls itemId ∧ ∀ data, t.engine.index.Shows l data → t.given itemId = some data

theorem clean_create (P : Libs) (maxElements : ℕ) : (create P maxElements).Clean [] := by
  refine ⟨RecallEngine.valid_create P maxElements, fun id el hel => ?_, fun l hl => ?_⟩
  · simp [create, RecallEngine.create, HierarchicalNSW.create] at hel
  · exact absurd hl (Finset.notMem_empty l)

theorem inserted_snoc_self (hc : c.isInsert = true) : Inserted (calls ++ [c]) c.itemId := by
  unfold Inserted
  rw [lastCall_snoc, if_pos rfl]
  exact hc

theorem inserted_snoc_ne {itemId : Bytes} (hne : itemId ≠ c.itemId) :
    Inserted (calls ++ [c]) itemId ↔ Inserted calls itemId := by
  unfold Inserted
  rw [lastCall_snoc, if_neg (Ne.symm hne)]

theorem record_ne {itemId : Bytes} (hne : itemId ≠ c.itemId) :
    t.record c itemId = t.given itemId := by
  unfold record
  cases t.engine.gives c with
  | none => rfl
  | some embedding => exact Function.update_of_ne hne _ _

/-- The item an active label stands for has that label. -/
theorem Clean.hasher (h : t.Clean calls) {l : UInt64} (hl : l ∈ t.engine.activeLabels)
    {itemId : Bytes} (hitem : t.engine.labelToItemId l = some itemId) : P.hasher itemId = l := by
  obtain ⟨itemId', hitem', hhash, _⟩ := h.valid.item l hl
  rw [hitem] at hitem'
  cases hitem'
  exact hhash

/-- The call puts the item with the embedding into the engine. -/
theorem Clean.store {e' : RecallEngine P} {embedding : List UInt32} (h : t.Clean calls)
    (hc : c.isInsert = true) (hgives : t.engine.gives c = some embedding)
    (hs : RecallEngine.Stored t.engine e' c.itemId) (hvalid : e'.Valid)
    (hsingle : e'.index.Single)
    (hwrites : HierarchicalNSW.Writes t.engine.index e'.index (P.hasher c.itemId) embedding) :
    Clean ⟨e', t.record c⟩ (calls ++ [c]) := by
  refine ⟨hvalid, hsingle, fun l hl itemId hitem => ?_⟩
  change l ∈ e'.activeLabels at hl
  change e'.labelToItemId l = some itemId at hitem
  rw [hs.active, Finset.mem_insert] at hl
  rw [hs.items] at hitem
  by_cases hlabel : l = P.hasher c.itemId
  · subst hlabel
    rw [Function.update_self] at hitem
    cases hitem
    refine ⟨inserted_snoc_self hc, fun data hshows => ?_⟩
    rw [hshows.unique hwrites.1]
    unfold record
    rw [hgives]
    exact Function.update_self _ _ _
  · rw [Function.update_of_ne hlabel] at hitem
    have hold := hl.resolve_left hlabel
    obtain ⟨hins, hgiven⟩ := h.live l hold itemId hitem
    have hne : itemId ≠ c.itemId := by
      rintro rfl
      exact hlabel (h.hasher hold hitem).symm
    refine ⟨(inserted_snoc_ne hne).mpr hins, fun data hshows => ?_⟩
    show t.record c itemId = some data
    rw [record_ne hne]
    exact hgiven data ((hwrites.2 l data hlabel).mp hshows)

/-- The call names an item and leaves the engine alone. -/
theorem Clean.skip (h : t.Clean calls) (hgives : t.engine.gives c = none)
    (hkeep : c.isInsert = true ∨ P.hasher c.itemId ∉ t.engine.activeLabels) :
    Clean ⟨t.engine, t.record c⟩ (calls ++ [c]) := by
  have hrecord : t.record c = t.given := by
    unfold record
    rw [hgives]
  refine ⟨h.valid, h.single, fun l hl itemId hitem => ?_⟩
  obtain ⟨hins, hgiven⟩ := h.live l hl itemId hitem
  refine ⟨?_, fun data hshows => by rw [hrecord]; exact hgiven data hshows⟩
  by_cases heq : itemId = c.itemId
  · subst heq
    refine inserted_snoc_self (hkeep.resolve_right (not_not.mpr ?_))
    exact h.hasher hl hitem ▸ hl
  · exact (inserted_snoc_ne heq).mpr hins

theorem Clean.deletePoint (h : t.Clean calls) {itemId : Bytes} {e' : RecallEngine P}
    (hres : t.engine.deletePoint itemId = some e') :
    Clean ⟨e', t.record (.deletePoint itemId)⟩ (calls ++ [.deletePoint itemId]) := by
  by_cases hin : P.hasher itemId ∈ t.engine.activeLabels
  · have hvalid := h.valid.deletePoint hres
    have hshows := h.valid.shows_deletePoint hres
    obtain ⟨id, hl, heq⟩ := RecallEngine.deletePoint_eq h.valid hin
    rw [heq] at hres
    cases hres
    refine ⟨hvalid, h.single.setMark id true, fun l hl itemId' hitem => ?_⟩
    obtain ⟨hne, hold⟩ := Finset.mem_erase.mp hl
    obtain ⟨hins, hgiven⟩ := h.live l hold itemId' hitem
    have hother : itemId' ≠ itemId := by
      rintro rfl
      exact hne (h.hasher hold hitem).symm
    refine ⟨(inserted_snoc_ne hother).mpr hins, fun data hdata => ?_⟩
    exact hgiven data ((hshows l data).mp hdata).2
  · rw [RecallEngine.deletePoint_inactive hin] at hres
    cases hres
    exact h.skip rfl (.inr hin)

theorem Clean.call (h : t.Clean calls) (hok : t.engine.Settles c) (hres : t.call c = some t') :
    t'.Clean (calls ++ [c]) := by
  obtain ⟨e', he, rfl⟩ := Option.map_eq_some_iff.mp hres
  have hvalid := h.valid.call he
  cases c with
  | addPoint itemId embedding =>
    by_cases hin : P.hasher itemId ∈ t.engine.activeLabels
    · have hsame : t.engine.addPoint itemId embedding = some e' := he
      rw [RecallEngine.addPoint_active hin] at hsame
      cases hsame
      exact h.skip (if_pos hin) (.inl rfl)
    · obtain ⟨hs, hadd⟩ := RecallEngine.addPoint_stored hin he
      exact h.store rfl (if_neg hin) hs hvalid
        (h.single.addPoint h.valid.index hadd fun hf => by cases hf)
        (h.valid.index.addPoint (fun hf => by cases hf) hadd).2
  | upsertPoint itemId embedding =>
    obtain ⟨hs, hadd⟩ := RecallEngine.upsertPoint_stored he
    exact h.store rfl rfl hs hvalid
      (h.single.addPoint h.valid.index hadd fun hin => hok (of_decide_eq_true hin))
      (h.valid.writes_upsertPoint he)
  | deletePoint itemId => exact h.deletePoint he

/-! ## Searches -/

theorem Clean.searchesRight (h : t.Clean calls) (dist : List UInt32 → List UInt32 → S) :
    t.SearchesRight dist calls := by
  intro find hfind query topK
  -- an unmarked slot belongs to an active label, and the label to the item that is reported
  have hslot : ∀ (id : ℕ) (el : Element), t.engine.index.elements[id]? = some el → el.deleted = false →
      ∀ itemId, t.engine.reported el.label = some itemId →
        el.label ∈ t.engine.activeLabels ∧ t.engine.labelToItemId el.label = some itemId ∧
          P.hasher itemId = el.label := by
    intro id el hel hdel itemId hreport
    have hitem := (RecallEngine.reported_eq_some.mp hreport).1
    have hactive : el.label ∈ t.engine.activeLabels :=
      (h.valid.active _).mpr ⟨id, el, h.single id el hel, hel, hdel⟩
    exact ⟨hactive, hitem, h.hasher hactive hitem⟩
  constructor
  · by_cases hne : t.engine.index.curElementCount = 0
    · unfold RecallEngine.searchTopK
      rw [if_pos hne]
      exact List.nodup_nil
    · rw [RecallEngine.searchTopK_items hne]
      refine List.pairwise_filterMap.mpr ((hfind.nodup _ _ _).imp_of_mem ?_)
      intro id id' hid hid' hdiff itemId hitem itemId' hitem' heq
      subst heq
      obtain ⟨el, hel, hreport⟩ := Option.bind_eq_some_iff.mp hitem
      obtain ⟨el', hel', hreport'⟩ := Option.bind_eq_some_iff.mp hitem'
      obtain ⟨x, hx, hdel⟩ := hfind.unmarked _ _ _ id hid
      obtain ⟨x', hx', hdel'⟩ := hfind.unmarked _ _ _ id' hid'
      rw [hel] at hx
      cases hx
      rw [hel'] at hx'
      cases hx'
      have hlabel : el.label = el'.label :=
        (hslot id el hel hdel itemId hreport).2.2.symm.trans
          (hslot id' el' hel' hdel' itemId hreport').2.2
      have hlookup := h.single id el hel
      rw [hlabel, h.single id' el' hel'] at hlookup
      exact hdiff (Option.some.inj hlookup).symm
  · intro r hr
    obtain ⟨id, hid, el, hel, hreport, hscore⟩ := RecallEngine.mem_searchTopK hr
    obtain ⟨x, hx, hdel⟩ := hfind.unmarked _ _ _ id hid
    rw [hel] at hx
    cases hx
    obtain ⟨hactive, hitem, _⟩ := hslot id el hel hdel r.1 hreport
    obtain ⟨hins, hgiven⟩ := h.live el.label hactive r.1 hitem
    exact ⟨hins, el.data, hgiven el.data ⟨id, el, h.single id el hel, hel, hdel, rfl⟩, hscore⟩

theorem Clean.callAll {maxElements : ℕ}
    (hok : ∀ before c, before ++ [c] <+: calls → ∀ t,
      (create P maxElements).callAll before = some t → t.engine.Settles c)
    (hres : (create P maxElements).callAll calls = some t) : t.Clean calls := by
  unfold Chronicle.callAll at hres
  induction calls using List.reverseRecOn generalizing t with
  | nil =>
    cases hres
    exact clean_create P maxElements
  | append_singleton calls c ih =>
    rw [foldlM_snoc, Option.bind_eq_some_iff] at hres
    obtain ⟨t₁, hbefore, hlast⟩ := hres
    exact (ih (fun before d hpre => hok before d (hpre.trans (List.prefix_append _ _)))
      hbefore).call (hok calls c (List.prefix_refl _) t₁ hbefore) hlast

/-! ## Updates that take over a slot -/

/-- The search that looks at two slots only. -/
def findAmong (a b : ℕ) (ix : HierarchicalNSW P) (_ : List UInt32) (k : ℕ) : List ℕ :=
  ([a, b].filter fun id => ix.elements[id]?.any fun el => !el.deleted).take k

theorem findsUnmarked_findAmong {a b : ℕ} (hne : a ≠ b) :
    FindsUnmarked (findAmong (P := P) a b) := by
  refine ⟨fun ix query k => ?_, fun ix query k => List.length_take_le _ _, fun ix query k id hid => ?_⟩
  · exact ((List.take_sublist _ _).trans List.filter_sublist).nodup (by simpa using hne)
  · have hmem := List.mem_of_mem_take hid
    obtain ⟨el, hel, hdel⟩ := (Option.any_eq_true _ _).mp (List.mem_filter.mp hmem).2
    exact ⟨el, hel, by simpa using hdel⟩

/-- Two unmarked slots with one label that is reported as an item: a search finds the item
    twice. -/
theorem not_searchesRight {a b : ℕ} (hne : a ≠ b) {ela elb : Element}
    (ha : t.engine.index.elements[a]? = some ela) (hb : t.engine.index.elements[b]? = some elb)
    (hdela : ela.deleted = false) (hdelb : elb.deleted = false) (hlabel : ela.label = elb.label)
    {itemId : Bytes} (hreport : t.engine.reported ela.label = some itemId) :
    ¬ t.SearchesRight dist calls := by
  intro h
  have hnodup := (h (findAmong a b) (findsUnmarked_findAmong hne) [] 2).1
  have hcount : t.engine.index.curElementCount ≠ 0 := by
    have := (List.getElem?_eq_some_iff.mp ha).1
    show t.engine.index.elements.length ≠ 0
    omega
  have hfound : findAmong a b t.engine.index [] ((2 : ℤ) % 2 ^ 64).toNat = [a, b] := by
    simp [findAmong, ha, hb, hdela, hdelb]
  rw [RecallEngine.searchTopK_items hcount, hfound] at hnodup
  simp [ha, hb, hlabel ▸ hreport, hreport] at hnodup

/-- Taking over a slot leaves the item with two. -/
theorem not_settles_step (dist : List UInt32 → List UInt32 → S) (calls : List EngineCall)
    (hvalid : t.engine.Valid) (hok : ¬ t.engine.Settles c) :
    ∃ t', t.call c = some t' ∧ ¬ t'.SearchesRight dist calls := by
  cases c with
  | addPoint itemId embedding => exact absurd trivial hok
  | deletePoint itemId => exact absurd trivial hok
  | upsertPoint itemId embedding =>
    obtain ⟨hin, hfirst⟩ := Classical.not_imp.mp hok
    obtain ⟨id, hfirst⟩ := Option.ne_none_iff_exists'.mp hfirst
    have hwf := hvalid.index
    obtain ⟨el, hel, hdel⟩ := HierarchicalNSW.isMarkedDeleted_iff.mp
      ((hwf.deleted id).mp (P.first_some _ _ hfirst))
    -- the slot the item has had
    obtain ⟨old, el₀, hl, hel₀, hdel₀⟩ := (hvalid.active _).mp hin
    have hlabel₀ : el₀.label = P.hasher itemId := by
      obtain ⟨el', hel', hlabel⟩ := hwf.lookup _ old hl
      rw [hel₀] at hel'
      cases hel'
      exact hlabel
    have hne : old ≠ id := by
      rintro rfl
      rw [hel] at hel₀
      cases hel₀
      rw [hdel] at hdel₀
      cases hdel₀
    have hcall : t.engine.upsertPoint itemId embedding ≠ none :=
      (RecallEngine.upsertPoint_ne_none hvalid).mpr (.inl hin)
    obtain ⟨e', he⟩ := Option.ne_none_iff_exists'.mp hcall
    obtain ⟨hs, hadd⟩ := RecallEngine.upsertPoint_stored he
    rw [decide_eq_true hin, HierarchicalNSW.addPoint_replace_eq hwf hfirst hel hdel] at hadd
    have hindex := (Option.some.inj hadd).symm
    refine ⟨⟨e', t.record (.upsertPoint itemId embedding)⟩, ?_, ?_⟩
    · show (t.engine.upsertPoint itemId embedding).map _ = _
      rw [he]
      rfl
    · have hold : e'.index.elements[old]? = some el₀ := by
        rw [hindex, HierarchicalNSW.getElem?_reuse_ne hne]
        exact hel₀
      have hnew : e'.index.elements[id]? = some ⟨P.hasher itemId, embedding, false⟩ := by
        rw [hindex]
        exact HierarchicalNSW.getElem?_reuse_self hel _
      have hreport : e'.reported el₀.label = some itemId := by
        rw [RecallEngine.reported_eq_some, hlabel₀, hs.items, hs.deleted]
        exact ⟨Function.update_self _ _ _, Finset.notMem_erase _ _⟩
      exact not_searchesRight hne hold hnew hdel₀ rfl hlabel₀ hreport

theorem valid_callAll {maxElements : ℕ} (hres : (create P maxElements).callAll calls = some t) :
    t.engine.Valid :=
  foldlM_invariant (I := fun t : Chronicle P => t.engine.Valid) (fun t c t' h hcall => by
    obtain ⟨e', he, rfl⟩ := Option.map_eq_some_iff.mp hcall
    exact h.call he) (RecallEngine.valid_create P maxElements) hres

end Chronicle

open Chronicle in
/-- For every sequence of calls, every size of the index and every distance: after all calls that
    do not throw every search is right, if and only if no upsert of an active item finds a slot
    of a deleted item to take over. -/
theorem search_distinct_live (P : Libs) (maxElements : ℕ) (dist : List UInt32 → List UInt32 → S)
    (calls : List EngineCall) :
    (∀ before, before <+: calls → ∀ t, (Chronicle.create P maxElements).callAll before = some t →
      t.SearchesRight dist before) ↔
    ∀ before c, before ++ [c] <+: calls → ∀ t,
      (Chronicle.create P maxElements).callAll before = some t → t.engine.Settles c := by
  constructor
  · intro hright before c hpre t hbefore
    by_contra hok
    obtain ⟨t', hcall, hwrong⟩ := not_settles_step dist (before ++ [c])
      (valid_callAll hbefore) hok
    refine hwrong (hright (before ++ [c]) hpre t' ?_)
    unfold Chronicle.callAll at hbefore ⊢
    rw [foldlM_snoc, hbefore]
    exact hcall
  · intro hok before hpre t hbefore
    exact (Clean.callAll (fun before' c hpre' => hok before' c (hpre'.trans hpre))
      hbefore).searchesRight dist

open Chronicle in
/-- Two items are inserted, the first is deleted and the second updated in the slot of the first.
    A search finds the second one twice, once with the embedding it had before. -/
theorem search_distinct_live_fails :
    FindsUnmarked (findAmong (P := listLibs) 0 1) ∧
    ((Chronicle.create listLibs 4).callAll [.upsertPoint [97] [1], .upsertPoint [98] [2],
      .deletePoint [97], .upsertPoint [98] [3]]).map (fun t =>
        t.engine.searchTopK (fun _ data => data) (findAmong 0 1) [] 2) =
      some [([98], [3]), ([98], [2])] :=
  ⟨findsUnmarked_findAmong (by decide), by decide +kernel⟩

end MyKvRaft
