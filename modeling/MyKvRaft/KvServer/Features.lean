import MyKvRaft.KvServer.Replica

/-!
# Features in the store and in the recall index

`Apply` hands a `PutFeature` to the recall index and means to write it to the store too,
but `ExecutePutAppendOnKVDB` knows only `Put` and `Append`, so the store never hears of
features.

* `apply_total`: when no exception leaves `Apply`.
* `store_and_index_agree`: when the store and the index agree on the features.
-/

namespace MyKvRaft

variable {P : Libs}

/-! ## Exceptions -/

/-- The index can take the operation: a feature of an item that is not active finds its label
    unused and a slot free. -/
def RecallEngine.Admits (e : RecallEngine P) (op : Op) : Prop :=
  op.Operation = opPutFeature → ∀ feat ∈ P.parseFromString op.Value, feat.itemId ≠ [] →
    feat.embedding.length = hnswDim → P.hasher feat.itemId ∉ e.activeLabels →
      e.index.labelLookup (P.hasher feat.itemId) = none ∧
        e.index.curElementCount < e.index.maxElements

namespace KvServer

/-- What an operation does to the index: a feature is put, an item is deleted, or nothing. -/
theorem indexed_cases (e : RecallEngine P) (op : Op) :
    (op.Operation = opPutFeature ∧ ∃ feat, P.parseFromString op.Value = some feat ∧
      feat.itemId ≠ [] ∧ feat.embedding.length = hnswDim ∧
      indexed e op = e.upsertPoint feat.itemId feat.embedding) ∨
    (op.Operation = opDeleteFeature ∧ op.Key ≠ [] ∧ indexed e op = e.deletePoint op.Key) ∨
    ((¬ ∃ feat, op.Operation = opPutFeature ∧ P.parseFromString op.Value = some feat ∧
        feat.itemId ≠ [] ∧ feat.embedding.length = hnswDim) ∧
      (¬ (op.Operation = opDeleteFeature ∧ op.Key ≠ [])) ∧ indexed e op = some e) := by
  have hne : opPutFeature ≠ opDeleteFeature := by decide +kernel
  unfold indexed updateIndex
  by_cases hput : op.Operation = opPutFeature
  · have hdel : op.Operation ≠ opDeleteFeature := hput ▸ hne
    rw [if_pos hput]
    cases hparse : P.parseFromString op.Value with
    | none =>
      refine .inr (.inr ⟨?_, fun h => hdel h.1, rfl⟩)
      rintro ⟨feat, _, hfeat, _⟩
      cases hfeat
    | some feat =>
      dsimp only
      unfold applyFeatureToIndex
      by_cases hid : feat.itemId = []
      · rw [if_pos (by simp [hid])]
        refine .inr (.inr ⟨?_, fun h => hdel h.1, rfl⟩)
        rintro ⟨feat', _, hfeat, hid', _⟩
        cases hfeat
        exact hid' hid
      · rw [if_neg (by simp [hid])]
        by_cases hdim : feat.embedding.length = hnswDim
        · rw [if_neg (not_not.mpr hdim)]
          refine .inl ⟨hput, feat, rfl, hid, hdim, ?_⟩
          simp [Option.map_map, Function.comp_def]
        · rw [if_pos hdim]
          refine .inr (.inr ⟨?_, fun h => hdel h.1, rfl⟩)
          rintro ⟨feat', _, hfeat, _, hdim'⟩
          cases hfeat
          exact hdim hdim'
  · rw [if_neg hput]
    have hnoput : ¬ ∃ feat, op.Operation = opPutFeature ∧ P.parseFromString op.Value = some feat ∧
        feat.itemId ≠ [] ∧ feat.embedding.length = hnswDim := by
      rintro ⟨_, h, _⟩
      exact hput h
    by_cases hdel : op.Operation = opDeleteFeature
    · rw [if_pos hdel]
      unfold deleteFeature
      by_cases hkey : op.Key = []
      · rw [if_pos (by simp [hkey])]
        exact .inr (.inr ⟨hnoput, fun h => h.2 hkey, rfl⟩)
      · rw [if_neg (by simp [hkey])]
        refine .inr (.inl ⟨hdel, hkey, ?_⟩)
        simp [Option.map_map, Function.comp_def]
    · rw [if_neg hdel]
      exact .inr (.inr ⟨hnoput, fun h => hdel h.1, rfl⟩)

/-- What upserts of features and deletions keep, an operation keeps. -/
theorem indexed_invariant {I : RecallEngine P → Prop}
    (hup : ∀ e itemId embedding e', I e → embedding.length = hnswDim →
      e.upsertPoint itemId embedding = some e' → I e')
    (hdel : ∀ e itemId e', I e → e.deletePoint itemId = some e' → I e')
    {e e' : RecallEngine P} {op : Op} (h : I e) (hres : indexed e op = some e') : I e' := by
  rcases indexed_cases e op with ⟨_, feat, _, _, hdim, heq⟩ | ⟨_, _, heq⟩ | ⟨_, _, heq⟩
  · rw [heq] at hres
    exact hup e feat.itemId feat.embedding e' h hdim hres
  · rw [heq] at hres
    exact hdel e op.Key e' h hres
  · rw [heq] at hres
    cases hres
    exact h

theorem indexed_ne_none {e : RecallEngine P} (h : e.Valid) (op : Op) :
    indexed e op ≠ none ↔ e.Admits op := by
  have hne : opPutFeature ≠ opDeleteFeature := by decide +kernel
  rcases indexed_cases e op with ⟨hput, feat, hparse, hid, hdim, heq⟩ | ⟨hdel, _, heq⟩ |
    ⟨hnoput, _, heq⟩
  · rw [heq, RecallEngine.upsertPoint_ne_none h]
    constructor
    · rintro hok _ feat' hparse' _ _ hin
      rw [hparse] at hparse'
      cases hparse'
      exact hok.resolve_left hin
    · intro hadmits
      by_cases hin : P.hasher feat.itemId ∈ e.activeLabels
      · exact .inl hin
      · exact .inr (hadmits hput feat hparse hid hdim hin)
  · rw [heq]
    refine iff_of_true (RecallEngine.deletePoint_ne_none h) fun hput => ?_
    exact absurd (hput.symm.trans hdel) hne
  · rw [heq]
    refine iff_of_true (Option.some_ne_none _) fun hput feat hparse hid hdim => ?_
    exact absurd ⟨feat, hput, hparse, hid, hdim⟩ hnoput

/-- `Apply` on one message after the other; with each message comes what an undecoded
    `RequestId` would hold. -/
def applyAll (s : KvServer P) (msgs : List (ℤ × ApplyMsg)) : Option (KvServer P) :=
  msgs.foldlM (fun s m => s.apply m.1 m.2) s

/-- And so does `Apply`. -/
theorem apply_invariant {I : RecallEngine P → Prop}
    (hup : ∀ e itemId embedding e', I e → embedding.length = hnswDim →
      e.upsertPoint itemId embedding = some e' → I e')
    (hdel : ∀ e itemId e', I e → e.deletePoint itemId = some e' → I e')
    {s s' : KvServer P} {uninit : ℤ} {msg : ApplyMsg} (h : I s.recallEngine)
    (hres : s.apply uninit msg = some s') : I s'.recallEngine := by
  unfold apply at hres
  cases hdup : s.ifRequestDuplicate (decodeOp uninit msg.command).ClientId
      (decodeOp uninit msg.command).RequestId with
  | true =>
    rw [applyOp_duplicate hdup] at hres
    cases hres
    exact h
  | false =>
    obtain ⟨e, he, _, hengine, _⟩ := applyOp_fresh hdup hres
    rw [hengine]
    exact indexed_invariant hup hdel h he

theorem apply_valid {s s' : KvServer P} {uninit : ℤ} {msg : ApplyMsg} (h : s.recallEngine.Valid)
    (hres : s.apply uninit msg = some s') : s'.recallEngine.Valid :=
  apply_invariant (fun _ _ _ _ h _ hres => h.upsertPoint hres)
    (fun _ _ _ h hres => h.deletePoint hres) h hres

/-- The operation is a duplicate, or the index can take it. -/
def Takes (s : KvServer P) (op : Op) : Prop :=
  s.ifRequestDuplicate op.ClientId op.RequestId = false → s.recallEngine.Admits op

theorem apply_ne_none {s : KvServer P} (h : s.recallEngine.Valid) (uninit : ℤ) (msg : ApplyMsg) :
    s.apply uninit msg ≠ none ↔ s.Takes (decodeOp uninit msg.command) := by
  unfold apply Takes
  rw [Ne, applyOp_eq_none, not_and]
  exact forall_congr' fun _ => indexed_ne_none h _

theorem applyAll_ne_none {s : KvServer P} (h : s.recallEngine.Valid)
    (msgs : List (ℤ × ApplyMsg)) :
    s.applyAll msgs ≠ none ↔ ∀ before m after, msgs = before ++ m :: after →
      ∀ s', s.applyAll before = some s' → s'.Takes (decodeOp m.1 m.2.command) := by
  unfold applyAll
  induction msgs generalizing s with
  | nil =>
    refine iff_of_true (Option.some_ne_none _) ?_
    intro before m after heq
    simp at heq
  | cons m msgs ih =>
    rw [List.foldlM_cons]
    cases hm : s.apply m.1 m.2 with
    | none =>
      refine iff_of_false (by simp) fun hall => ?_
      have htakes := hall [] m msgs rfl s rfl
      rw [← apply_ne_none h, hm] at htakes
      exact htakes rfl
    | some s₁ =>
      show List.foldlM _ s₁ msgs ≠ none ↔ _
      rw [ih (apply_valid h hm)]
      constructor
      · rintro hall before m' after heq s' hbefore
        cases before with
        | nil =>
          cases hbefore
          cases heq
          rw [← apply_ne_none h, hm]
          exact Option.some_ne_none _
        | cons b before =>
          cases heq
          rw [List.foldlM_cons, hm] at hbefore
          exact hall before m' after rfl s' hbefore
      · rintro hall before m' after heq s' hbefore
        refine hall (m :: before) m' after (by rw [heq]; rfl) s' ?_
        rw [List.foldlM_cons, hm]
        exact hbefore

end KvServer

/-- A fresh server processes all messages without an exception if and only if, whenever it comes
    to a message, that message is a duplicate or the index can take it. -/
theorem apply_total (P : Libs) (msgs : List (ℤ × ApplyMsg)) :
    (KvServer.create P).applyAll msgs ≠ none ↔ ∀ before m after, msgs = before ++ m :: after →
      ∀ s, (KvServer.create P).applyAll before = some s →
        s.Takes (decodeOp m.1 m.2.command) :=
  KvServer.applyAll_ne_none (RecallEngine.valid_create P _) msgs

/-- The messages of a log with these operations. -/
def messages (ops : List Op) : List (ℤ × ApplyMsg) :=
  ops.zipIdx.map fun x => (0, .ofCommand (x.2 + 1) (encodeOp x.1))

/-- Client `c` puts the feature of item `a`, deletes the item, and puts the feature again. -/
def readdedFeature : List Op :=
  [⟨opPutFeature, [97], featureText, [99], 1⟩, ⟨opDeleteFeature, [97], [], [99], 2⟩,
    ⟨opPutFeature, [97], featureText, [99], 3⟩]

theorem apply_total_fails : ¬ ∀ ops : List Op, (∀ op ∈ ops, op.Encodable) →
    (KvServer.create listLibs).applyAll (messages ops) ≠ none := by
  intro h
  refine h readdedFeature (by decide +kernel) ?_
  decide +kernel

/-! ## Replicas that only apply features -/

namespace Command

/-- The message puts a valid feature of the item. -/
def Puts (P : Libs) (c : Command) (itemId : Bytes) : Prop :=
  c.op.Operation = opPutFeature ∧ ∃ feat, P.parseFromString c.op.Value = some feat ∧
    feat.itemId = itemId ∧ itemId ≠ [] ∧ feat.embedding.length = hnswDim

/-- The message deletes the item. -/
def Deletes (c : Command) (itemId : Bytes) : Prop :=
  c.op.Operation = opDeleteFeature ∧ c.op.Key = itemId ∧ itemId ≠ []

/-- The message is about the item. -/
def Names (P : Libs) (c : Command) (itemId : Bytes) : Prop :=
  c.Puts P itemId ∨ c.Deletes itemId

theorem Puts.unique {c : Command} {itemId itemId' : Bytes} (h : c.Puts P itemId)
    (h' : c.Puts P itemId') : itemId = itemId' := by
  obtain ⟨_, feat, hparse, rfl, _⟩ := h
  obtain ⟨_, feat', hparse', rfl, _⟩ := h'
  rw [hparse] at hparse'
  cases hparse'
  rfl

theorem Puts.not_deletes {c : Command} {itemId itemId' : Bytes} (h : c.Puts P itemId) :
    ¬ c.Deletes itemId' := by
  intro h'
  have hne : opPutFeature ≠ opDeleteFeature := by decide +kernel
  exact hne (h.1.symm.trans h'.1)

end Command

/-- The replica is given messages that put or delete features, and no read. -/
def AppliesFeature (_ : Replica P) : Served → Prop
  | .apply _ c => ∃ itemId, c.Names P itemId
  | _ => False

/-- The item is searchable with `embedding` just when the store has a feature text for it with
    that embedding. -/
def KvServer.FeaturesAgree (s : KvServer P) : Prop :=
  ∀ itemId embedding, (itemId, embedding) ∈ s.recallEngine.searchable ↔
    ∃ value feat, P.searchElement s.kvdb itemId = some value ∧
      P.parseFromString value = some feat ∧ feat.embedding = embedding

namespace Replica

variable {r : Replica P}

/-- Such a replica has the store and the index of its log, which is about features only. -/
theorem Serves.features (h : Serves AppliesFeature r) :
    r.Follows ∧ r.Indexed ∧ ∀ c ∈ r.applied, ∃ itemId, c.Names P itemId := by
  have hplain : Serves (fun r x => DuplicatesApplied r x ∧ ScanFindsActive r x) r := by
    refine Serves.of_noGet (h.mono fun r x hok => ?_)
    cases x with
    | apply uninit c => exact ⟨trivial, trivial⟩
    | get isLeader commitIndex op => exact absurd hok id
    | search => exact absurd hok id
  refine ⟨hplain.follows fun _ _ => And.left, hplain.indexed, ?_⟩
  clear hplain
  induction h with
  | create =>
    intro c hc
    cases hc
  | @serve r r' x _ hok hres ih =>
    cases x with
    | apply uninit c =>
      simp only [Replica.serve, Option.map_eq_some_iff] at hres
      obtain ⟨server, _, rfl⟩ := hres
      intro c' hc'
      rcases List.mem_cons.mp hc' with rfl | hc'
      · exact hok
      · exact ih c' hc'
    | get isLeader commitIndex op => exact absurd hok id
    | search => exact absurd hok id

end Replica

/-- A log about features describes an empty store. -/
theorem storeOf_features {log : List Command} (h : ∀ c ∈ log, ∃ itemId, c.Names P itemId) :
    storeOf P log = P.emptyList := by
  have hputs : opPutFeature ≠ opPut ∧ opPutFeature ≠ opAppend ∧ opPutFeature ≠ opGet ∧
      opDeleteFeature ≠ opPut ∧ opDeleteFeature ≠ opAppend ∧ opDeleteFeature ≠ opGet := by
    decide +kernel
  have hkeep : ∀ c : Command, (∃ itemId, c.Names P itemId) → ∀ kvdb : P.SkipList,
      stored kvdb c.op = kvdb := by
    rintro c ⟨itemId, hname⟩ kvdb
    unfold stored KvServer.executeOnKVDB KvServer.executePutAppendOnKVDB
    rcases hname with ⟨hop, _⟩ | ⟨hop, _⟩
    · rw [hop, if_neg hputs.2.2.1, if_neg hputs.1, if_neg hputs.2.1]
    · rw [hop, if_neg hputs.2.2.2.2.2, if_neg hputs.2.2.2.1, if_neg hputs.2.2.2.2.1]
  induction log with
  | nil => rfl
  | cons c log ih =>
    have hlog := ih fun c' hc' => h c' (List.mem_cons_of_mem c hc')
    rw [storeOf, hkeep c (h c List.mem_cons_self), hlog]
    exact ite_self _

/-! ## Live items -/

/-- The latest message of the log about the item, among those that are no duplicates, puts it. -/
def LiveIn (P : Libs) : List Command → Bytes → Prop
  | [], _ => False
  | c :: earlier, itemId =>
    (Fresh earlier c.op ∧ c.Puts P itemId) ∨
      (¬ (Fresh earlier c.op ∧ c.Deletes itemId) ∧ LiveIn P earlier itemId)

/-- An item that is put and not deleted afterwards. -/
theorem liveIn_iff {log : List Command} {itemId : Bytes} :
    LiveIn P log itemId ↔ ∃ later c earlier, log = later ++ c :: earlier ∧
      Fresh earlier c.op ∧ c.Puts P itemId ∧ ∀ later₁ d later₂, later = later₁ ++ d :: later₂ →
        Fresh (later₂ ++ c :: earlier) d.op → ¬ d.Deletes itemId := by
  induction log with
  | nil => simp [LiveIn]
  | cons c log ih =>
    unfold LiveIn
    rw [ih]
    constructor
    · rintro (⟨hfresh, hputs⟩ | ⟨hkeep, later, d, earlier, rfl, hd, hputs, hafter⟩)
      · refine ⟨[], c, log, rfl, hfresh, hputs, ?_⟩
        intro later₁ d later₂ heq
        simp at heq
      · refine ⟨c :: later, d, earlier, rfl, hd, hputs, ?_⟩
        intro later₁ d' later₂ heq hfresh hdel
        cases later₁ with
        | nil =>
          cases heq
          exact hkeep ⟨hfresh, hdel⟩
        | cons x later₁ =>
          cases heq
          exact hafter later₁ d' later₂ rfl hfresh hdel
    · rintro ⟨later, d, earlier, heq, hd, hputs, hafter⟩
      cases later with
      | nil =>
        cases heq
        exact .inl ⟨hd, hputs⟩
      | cons x later =>
        cases heq
        refine .inr ⟨fun h => hafter [] _ later rfl h.1 h.2, later, d, earlier, rfl, hd, hputs, ?_⟩
        intro later₁ d' later₂ heq
        subst heq
        exact hafter (_ :: later₁) d' later₂ rfl

namespace RecallEngine

/-- Labels stand for items of `ids`, and an item whose label is not active is deleted. -/
structure Named (ids : Set Bytes) (e : RecallEngine P) : Prop where
  valid : e.Valid
  named : ∀ l itemId, e.labelToItemId l = some itemId →
    P.hasher itemId = l ∧ itemId ∈ ids ∧ (l ∈ e.activeLabels ∨ itemId ∈ e.deletedItems)

variable {ids : Set Bytes} {e e' : RecallEngine P} {itemId : Bytes}

theorem named_create (ids : Set Bytes) (maxElements : ℕ) :
    (create P maxElements).Named ids :=
  ⟨valid_create P maxElements, fun l itemId h => (by cases h)⟩

theorem Named.upsertPoint (h : e.Named ids) (hid : itemId ∈ ids) {embedding : List UInt32}
    (hres : e.upsertPoint itemId embedding = some e') : e'.Named ids := by
  obtain ⟨hs, _⟩ := upsertPoint_stored hres
  refine ⟨h.valid.upsertPoint hres, fun l itemId' hitem => ?_⟩
  rw [hs.items] at hitem
  rw [hs.active, hs.deleted, Finset.mem_insert, Finset.mem_erase]
  by_cases hl : l = P.hasher itemId
  · subst hl
    rw [Function.update_self] at hitem
    cases hitem
    exact ⟨rfl, hid, .inl (.inl rfl)⟩
  · rw [Function.update_of_ne hl] at hitem
    obtain ⟨hhash, hmem, hwhich⟩ := h.named l itemId' hitem
    refine ⟨hhash, hmem, hwhich.imp .inr fun hdel => ⟨?_, hdel⟩⟩
    rintro rfl
    exact hl hhash.symm

theorem Named.deletePoint (h : e.Named ids) (hinj : Set.InjOn P.hasher ids) (hid : itemId ∈ ids)
    (hres : e.deletePoint itemId = some e') :
    e'.Named ids ∧ e'.activeLabels = e.activeLabels.erase (P.hasher itemId) := by
  have hvalid := h.valid.deletePoint hres
  by_cases hin : P.hasher itemId ∈ e.activeLabels
  · obtain ⟨id, _, heq⟩ := deletePoint_eq h.valid hin
    rw [heq] at hres
    cases hres
    refine ⟨⟨hvalid, fun l itemId' hitem => ?_⟩, rfl⟩
    obtain ⟨hhash, hmem, hwhich⟩ := h.named l itemId' hitem
    refine ⟨hhash, hmem, ?_⟩
    simp only [Finset.mem_erase, Finset.mem_insert]
    by_cases hl : l = P.hasher itemId
    · exact .inr (.inl (hinj hmem hid (hhash.trans hl)))
    · exact hwhich.imp (fun hact => ⟨hl, hact⟩) .inr
  · rw [deletePoint_inactive hin] at hres
    cases hres
    exact ⟨h, (Finset.erase_eq_of_notMem hin).symm⟩

theorem mem_searchable {embedding : List UInt32} :
    (itemId, embedding) ∈ e.searchable ↔ ∃ el ∈ e.index.elements, el.deleted = false ∧
      e.labelToItemId el.label = some itemId ∧ itemId ∉ e.deletedItems ∧
      el.data = embedding := by
  unfold searchable filterResult
  rw [List.mem_filterMap]
  constructor
  · rintro ⟨el, hel, hres⟩
    obtain ⟨hmem, hdel⟩ := List.mem_filter.mp hel
    split at hres
    · cases hres
    · next itemId' hitem =>
      split_ifs at hres with hdeleted
      cases hres
      exact ⟨el, hmem, by simpa using hdel, hitem, hdeleted, rfl⟩
  · rintro ⟨el, hmem, hdel, hitem, hdeleted, rfl⟩
    refine ⟨el, List.mem_filter.mpr ⟨hmem, by simp [hdel]⟩, ?_⟩
    rw [hitem]
    exact if_neg hdeleted

/-- An item can be found just when its label is active. -/
theorem Named.searchable_iff (h : e.Named ids) (hinj : Set.InjOn P.hasher ids)
    (itemId : Bytes) : (∃ embedding, (itemId, embedding) ∈ e.searchable) ↔
      itemId ∈ ids ∧ P.hasher itemId ∈ e.activeLabels := by
  constructor
  · rintro ⟨embedding, hmem⟩
    obtain ⟨el, _, _, hitem, hdeleted, _⟩ := mem_searchable.mp hmem
    obtain ⟨hhash, hid, hwhich⟩ := h.named _ itemId hitem
    exact ⟨hid, hhash ▸ hwhich.resolve_right hdeleted⟩
  · rintro ⟨hid, hin⟩
    obtain ⟨itemId', hitem, hhash, hdeleted⟩ := h.valid.item _ hin
    obtain ⟨_, hid', _⟩ := h.named _ itemId' hitem
    have hsame : itemId' = itemId := hinj hid' hid hhash
    subst hsame
    obtain ⟨slot, el, hl, hel, hdel⟩ := (h.valid.active _).mp hin
    obtain ⟨el', hel', hlabel⟩ := h.valid.index.lookup _ slot hl
    rw [hel] at hel'
    cases hel'
    refine ⟨el.data, mem_searchable.mpr ⟨el, List.mem_of_getElem? hel, hdel, ?_, hdeleted, rfl⟩⟩
    rw [hlabel]
    exact hitem

end RecallEngine

/-- The index of a log about features: the active items are the live ones. -/
theorem engineOf_live {ids : Set Bytes} (hinj : Set.InjOn P.hasher ids) {log : List Command}
    (hnames : ∀ c ∈ log, ∃ itemId, c.Names P itemId)
    (hids : ∀ c ∈ log, ∀ itemId, c.Names P itemId → itemId ∈ ids) {e : RecallEngine P}
    (he : engineOf P log = some e) :
    e.Named ids ∧ ∀ itemId ∈ ids, P.hasher itemId ∈ e.activeLabels ↔ LiveIn P log itemId := by
  induction log generalizing e with
  | nil =>
    cases he
    exact ⟨RecallEngine.named_create ids _, fun itemId _ =>
      iff_of_false (Finset.notMem_empty _) id⟩
  | cons c log ih =>
    have ih' := @ih (fun c' hc' => hnames c' (List.mem_cons_of_mem c hc'))
      fun c' hc' => hids c' (List.mem_cons_of_mem c hc')
    unfold engineOf at he
    unfold LiveIn
    by_cases hfresh : Fresh log c.op
    · rw [if_pos hfresh, Option.bind_eq_some_iff] at he
      obtain ⟨e₀, he₀, hindexed⟩ := he
      obtain ⟨hnamed, hlive⟩ := ih' he₀
      obtain ⟨itemId, hname⟩ := hnames c List.mem_cons_self
      have hid := hids c List.mem_cons_self itemId hname
      rcases KvServer.indexed_cases e₀ c.op with ⟨hop, feat, hparse, hne, hdim, heq⟩ |
        ⟨hop, hkey, heq⟩ | ⟨hnoput, hnodel, _⟩
      · -- a feature is put
        have hputs : c.Puts P feat.itemId := ⟨hop, feat, hparse, rfl, hne, hdim⟩
        have hid' := hids c List.mem_cons_self _ (.inl hputs)
        rw [heq] at hindexed
        refine ⟨hnamed.upsertPoint hid' hindexed, fun itemId' hitem' => ?_⟩
        rw [(RecallEngine.upsertPoint_stored hindexed).1.active, Finset.mem_insert,
          hlive itemId' hitem']
        constructor
        · rintro (hsame | hlive')
          · exact .inl ⟨hfresh, hinj hitem' hid' hsame ▸ hputs⟩
          · exact .inr ⟨fun h => hputs.not_deletes h.2, hlive'⟩
        · rintro (⟨_, hputs'⟩ | ⟨_, hlive'⟩)
          · exact .inl (congrArg P.hasher (hputs'.unique hputs))
          · exact .inr hlive'
      · -- an item is deleted
        have hdel : c.Deletes c.op.Key := ⟨hop, rfl, hkey⟩
        have hid' := hids c List.mem_cons_self _ (.inr hdel)
        rw [heq] at hindexed
        obtain ⟨hnamed', hactive⟩ := hnamed.deletePoint hinj hid' hindexed
        refine ⟨hnamed', fun itemId' hitem' => ?_⟩
        rw [hactive, Finset.mem_erase, hlive itemId' hitem']
        constructor
        · rintro ⟨hne, hlive'⟩
          refine .inr ⟨?_, hlive'⟩
          rintro ⟨_, _, rfl, _⟩
          exact hne rfl
        · rintro (⟨_, hputs'⟩ | ⟨hkeep, hlive'⟩)
          · exact absurd hdel hputs'.not_deletes
          · refine ⟨fun hsame => hkeep ⟨hfresh, ?_⟩, hlive'⟩
            exact hinj hitem' hid' hsame ▸ hdel
      · rcases hname with ⟨hop, feat, hparse, rfl, hne, hdim⟩ | ⟨hop, rfl, hne⟩
        · exact absurd ⟨feat, hop, hparse, hne, hdim⟩ hnoput
        · exact absurd ⟨hop, hne⟩ hnodel
    · rw [if_neg hfresh] at he
      obtain ⟨hnamed, hlive⟩ := ih' he
      refine ⟨hnamed, fun itemId hitem => ?_⟩
      rw [hlive itemId hitem]
      exact ⟨fun h => .inr ⟨fun h' => hfresh h'.1, h⟩,
        fun h => h.elim (fun h' => absurd h'.1 hfresh) (·.2)⟩

/-- For a replica that has been given messages that put and delete features, and in which no two
    items it names have one hash: the store and the index agree if and only if every feature it
    has put was deleted again, duplicates apart. -/
theorem store_and_index_agree (P : Libs) (r : Replica P) (hr : Replica.Serves AppliesFeature r)
    (hinj : Set.InjOn P.hasher {itemId | ∃ c ∈ r.applied, c.Names P itemId}) :
    r.server.FeaturesAgree ↔ ∀ later c earlier itemId, r.applied = later ++ c :: earlier →
      Fresh earlier c.op → c.Puts P itemId → ∃ later₁ d later₂, later = later₁ ++ d :: later₂ ∧
        Fresh (later₂ ++ c :: earlier) d.op ∧ d.Deletes itemId := by
  obtain ⟨hf, hi, hnames⟩ := hr.features
  obtain ⟨hnamed, hlive⟩ := engineOf_live hinj hnames (fun c hc itemId h => ⟨c, hc, h⟩) hi
  have hempty : ∀ itemId, P.searchElement r.server.kvdb itemId = none := by
    intro itemId
    rw [hf.kvdb, storeOf_features hnames, P.search_empty]
  have hagree : r.server.FeaturesAgree ↔ ∀ itemId, ¬ LiveIn P r.applied itemId := by
    constructor
    · intro h itemId hl
      obtain ⟨later, c, earlier, heq, _, hputs, _⟩ := liveIn_iff.mp hl
      have hid : ∃ c ∈ r.applied, c.Names P itemId := ⟨c, by rw [heq]; simp, .inl hputs⟩
      obtain ⟨embedding, hmem⟩ := (hnamed.searchable_iff hinj itemId).mpr
        ⟨hid, (hlive itemId hid).mpr hl⟩
      obtain ⟨value, _, hvalue, _⟩ := (h itemId embedding).mp hmem
      rw [hempty] at hvalue
      cases hvalue
    · intro h itemId embedding
      constructor
      · intro hmem
        obtain ⟨hid, hin⟩ := (hnamed.searchable_iff hinj itemId).mp ⟨embedding, hmem⟩
        exact absurd ((hlive itemId hid).mp hin) (h itemId)
      · rintro ⟨value, _, hvalue, _⟩
        rw [hempty] at hvalue
        cases hvalue
  rw [hagree]
  constructor
  · intro h later c earlier itemId heq hfresh hputs
    by_contra hno
    refine h itemId (liveIn_iff.mpr ⟨later, c, earlier, heq, hfresh, hputs, ?_⟩)
    intro later₁ d later₂ hsplit hd hdel
    exact hno ⟨later₁, d, later₂, hsplit, hd, hdel⟩
  · intro h itemId hl
    obtain ⟨later, c, earlier, heq, hfresh, hputs, hafter⟩ := liveIn_iff.mp hl
    obtain ⟨later₁, d, later₂, hsplit, hd, hdel⟩ := h later c earlier itemId heq hfresh hputs
    exact hafter later₁ d later₂ hsplit hd hdel

/-! ## Runs on given inputs -/

instance (c : Command) : Decidable (∃ itemId, c.Names P itemId) :=
  decidable_of_iff
    ((c.op.Operation = opPutFeature ∧ ∃ feat ∈ P.parseFromString c.op.Value,
        feat.itemId ≠ [] ∧ feat.embedding.length = hnswDim) ∨
      (c.op.Operation = opDeleteFeature ∧ c.op.Key ≠ [])) <| by
    constructor
    · rintro (⟨hop, feat, hparse, hne, hdim⟩ | ⟨hop, hne⟩)
      · exact ⟨feat.itemId, .inl ⟨hop, feat, hparse, rfl, hne, hdim⟩⟩
      · exact ⟨c.op.Key, .inr ⟨hop, rfl, hne⟩⟩
    · rintro ⟨itemId, ⟨hop, feat, hparse, rfl, hne, hdim⟩ | ⟨hop, rfl, hne⟩⟩
      · exact .inl ⟨hop, feat, hparse, hne, hdim⟩
      · exact .inr ⟨hop, hne⟩

instance (r : Replica P) (x : Served) : Decidable (AppliesFeature r x) :=
  match x with
  | .apply _ c => inferInstanceAs (Decidable (∃ itemId, c.Names P itemId))
  | .get .. => .isFalse id
  | .search => .isFalse id

/-- Client `c` deletes item `a`. -/
def featureDelete : Command := ⟨3, ⟨opDeleteFeature, [97], [], [99], 3⟩, by decide +kernel⟩

/-- The two messages are about item `a`. -/
theorem names_featurePut {itemId : Bytes} : featurePut.Names listLibs itemId → itemId = [97] := by
  have hop : featurePut.op.Operation ≠ opDeleteFeature := by decide +kernel
  have hparse : (listLibs.parseFromString featurePut.op.Value).map (·.itemId) = some [97] := by
    decide +kernel
  rintro (⟨_, feat, hfeat, rfl, _⟩ | ⟨hdel, _⟩)
  · rw [hfeat] at hparse
    exact Option.some.inj hparse
  · exact absurd hdel hop

theorem names_featureDelete {itemId : Bytes} :
    featureDelete.Names listLibs itemId → itemId = [97] := by
  have hop : featureDelete.op.Operation ≠ opPutFeature := by decide +kernel
  rintro (⟨hput, _⟩ | ⟨_, rfl, _⟩)
  · exact absurd hput hop
  · rfl

/-- The replica whose log puts item `a` and deletes it. -/
theorem store_and_index_agree_deleted : ∃ r : Replica listLibs,
    r.applied = [featureDelete, featurePut] ∧ r.server.FeaturesAgree := by
  have hrun : ((Replica.create listLibs).serveAll AppliesFeature
      [.apply 0 featurePut, .apply 0 featureDelete]).any
        (fun r => decide (r.applied = [featureDelete, featurePut])) = true := by decide +kernel
  obtain ⟨r, hres, h⟩ := (Option.any_eq_true _ _).mp hrun
  have happlied := of_decide_eq_true h
  have hr : Replica.Serves AppliesFeature r := Replica.Serves.create.serveAll hres
  have hone : ∀ c ∈ r.applied, ∀ itemId, c.Names listLibs itemId → itemId = [97] := by
    rw [happlied]
    intro c hc itemId hname
    rcases List.mem_pair.mp hc with rfl | rfl
    · exact names_featureDelete hname
    · exact names_featurePut hname
  refine ⟨r, happlied, (store_and_index_agree listLibs r hr ?_).mpr ?_⟩
  · rintro a ⟨c, hc, ha⟩ b ⟨d, hd, hb⟩ _
    rw [hone c hc a ha, hone d hd b hb]
  · intro later c earlier itemId heq _ hputs
    obtain rfl := hone c (by rw [heq]; simp) itemId (.inl hputs)
    rw [happlied] at heq
    have hdel : featureDelete.Deletes [97] := ⟨by decide +kernel, rfl, by decide⟩
    rcases later with _ | ⟨d, _ | ⟨d', later⟩⟩
    · cases heq
      exact absurd hdel hputs.not_deletes
    · cases heq
      exact ⟨[], featureDelete, [], rfl, by decide +kernel, hdel⟩
    · simp at heq

/-- A feature that is put can be searched, and the store does not have it. -/
theorem store_and_index_agree_fails : ∃ r : Replica listLibs,
    Replica.Serves AppliesFeature r ∧ r.applied = [featurePut] ∧ ¬ r.server.FeaturesAgree := by
  have hrun : ((Replica.create listLibs).serveAll AppliesFeature [.apply 0 featurePut]).any
      (fun r => decide (r.applied = [featurePut] ∧
        r.server.recallEngine.searchable.map (·.1) = [[97]] ∧
        listLibs.searchElement r.server.kvdb [97] = none)) = true := by decide +kernel
  obtain ⟨r, hres, h⟩ := (Option.any_eq_true _ _).mp hrun
  obtain ⟨happlied, hsearch, hstore⟩ := of_decide_eq_true h
  obtain ⟨⟨_, data⟩, hmem, rfl⟩ := List.mem_map.mp (hsearch ▸ List.mem_singleton_self _)
  refine ⟨r, Replica.Serves.create.serveAll hres, happlied, fun hagree => ?_⟩
  obtain ⟨value, _, hvalue, _⟩ := (hagree [97] data).mp hmem
  rw [hstore] at hvalue
  cases hvalue

end MyKvRaft
