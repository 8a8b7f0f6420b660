import MyKvRaft.KvServer.Searching

/-!
# The vectors handed to hnswlib

hnswlib takes a pointer and reads `HNSW_DIM` floats behind it. Vectors come from features in
the log, from values of the store and from search requests. Each of the first two is handed
on only if it has `HNSW_DIM` numbers, the third is handed on as it comes.

* `OfDim.step`: every vector in the index has `HNSW_DIM` numbers, whatever the server is given.
* `vectors_of_dim`: when every vector that is handed to hnswlib has.
-/

namespace MyKvRaft

open Transition

variable {P : Libs} {S : Type}

/-! ## Searches -/

/-- `message SearchRequest`; nothing reads its `search_type`. -/
structure SearchRequest where
  queryVector : List UInt32
  topK : ℤ

/-- `message SearchResponse`, less the time that was taken. -/
structure SearchResponse (S : Type) where
  itemIds : List Bytes
  scores : List S

/-- What a server is given. Between `buildIndexIfNeeded` and the rest of `Search` other threads
    may run, so they are two steps. -/
inductive ServerStep where
  | apply (uninit : ℤ) (msg : ApplyMsg)
  | get (isLeader : Bool) (commitIndex : ℤ) (op : Op)
  | buildIndex
  | answerSearch (args : SearchRequest)

namespace KvServer

/-- How many items `Search` asks for (lines 330–332). -/
def searchTopK (args : SearchRequest) : ℤ :=
  let topK := if args.topK ≤ 0 then 10 else args.topK
  if topK > 100 then 100 else topK

/-- `Search` after `buildIndexIfNeeded` (lines 324–345). -/
def answerSearch (s : KvServer P) (dist : List UInt32 → List UInt32 → S)
    (find : HierarchicalNSW P → List UInt32 → ℕ → List ℕ) (args : SearchRequest) :
    SearchResponse S :=
  if s.recallEngine.size = 0 then ⟨[], []⟩
  else
    let result := s.recallEngine.searchTopK dist find args.queryVector (searchTopK args)
    ⟨result.map (·.1), result.map (·.2)⟩

/-- `none` if an exception ends the process. -/
def step (s : KvServer P) : ServerStep → Option (KvServer P)
  | .apply uninit msg => s.apply uninit msg
  | .get isLeader commitIndex op => some (s.get isLeader commitIndex op).1
  | .buildIndex => s.buildIndexIfNeeded
  | .answerSearch _ => some s

end KvServer

/-! ## What is handed on -/

namespace RecallEngine

/-- The vectors `addPoint` hands to hnswlib (line 65): none for an active item. -/
def handedByAdd (e : RecallEngine P) (itemId : Bytes) (embedding : List UInt32) :
    List (List UInt32) :=
  if P.hasher itemId ∈ e.activeLabels then [] else [embedding]

/-- The vectors `searchTopK` hands to hnswlib (line 132): none for an empty index. -/
def handedBySearch (e : RecallEngine P) (query : List UInt32) : List (List UInt32) :=
  if e.index.curElementCount = 0 then [] else [query]

end RecallEngine

namespace KvServer

variable (s : KvServer P)

/-- The vectors that the scan hands on for a pair of the store (lines 38–49). -/
def handedByPair (e : RecallEngine P) (pair : Bytes × Bytes) : List (List UInt32) :=
  match P.parseFromString pair.2 with
  | none => []
  | some feat =>
    if feat.embedding.length = hnswDim then e.handedByAdd pair.1 feat.embedding else []

/-- The vectors that the scan hands on, up to an exception. -/
def handedByScan : List (Bytes × Bytes) → RecallEngine P → List (List UInt32)
  | [], _ => []
  | pair :: pairs, e => handedByPair e pair ++
    match indexPair e pair with
    | none => []
    | some e' => handedByScan pairs e'

/-- The vectors `applyFeatureToIndex` hands on (lines 61–75), through `upsertPoint`. -/
def handedByFeature (feat : ItemFeature) : List (List UInt32) :=
  if feat.itemId.isEmpty then []
  else if feat.embedding.length ≠ hnswDim then []
  else [feat.embedding]

/-- The vectors `Apply` hands on. -/
def handedByApply (uninit : ℤ) (msg : ApplyMsg) : List (List UInt32) :=
  let op := decodeOp uninit msg.command
  if s.ifRequestDuplicate op.ClientId op.RequestId then []
  else if op.Operation = opPutFeature then
    match P.parseFromString op.Value with
    | none => []
    | some feat => handedByFeature feat
  else []

/-- The vectors whose `data()` is passed to hnswlib in a step. -/
def handed : ServerStep → List (List UInt32)
  | .apply uninit msg => s.handedByApply uninit msg
  | .get .. => []
  | .buildIndex => if s.indexBuilt then [] else handedByScan (P.foreach s.kvdb) s.recallEngine
  | .answerSearch args =>
    if s.recallEngine.size = 0 then [] else s.recallEngine.handedBySearch args.queryVector

/-- The vectors that are passed in a run, up to an exception. -/
def handedAll : KvServer P → List ServerStep → List (List UInt32)
  | _, [] => []
  | s, a :: steps => s.handed a ++
    match s.step a with
    | none => []
    | some s' => handedAll s' steps

/-- A search that finds something to search comes with `HNSW_DIM` numbers. -/
def QueriesOfDim : ServerStep → Prop
  | .answerSearch args => s.recallEngine.size ≠ 0 → args.queryVector.length = hnswDim
  | _ => True

variable {s} {s' : KvServer P} {a : ServerStep}

/-! ## One step -/

theorem handedByPair_dim {e : RecallEngine P} {pair : Bytes × Bytes} {v : List UInt32}
    (hv : v ∈ handedByPair e pair) : v.length = hnswDim := by
  unfold handedByPair at hv
  cases hparse : P.parseFromString pair.2 with
  | none =>
    rw [hparse] at hv
    cases hv
  | some feat =>
    simp only [hparse, RecallEngine.handedByAdd] at hv
    split_ifs at hv with hlen
    · cases hv
    · rw [List.mem_singleton.mp hv]
      exact hlen
    · cases hv

theorem handedByScan_dim {pairs : List (Bytes × Bytes)} {e : RecallEngine P} {v : List UInt32}
    (hv : v ∈ handedByScan pairs e) : v.length = hnswDim := by
  induction pairs generalizing e with
  | nil => cases hv
  | cons pair pairs ih =>
    unfold handedByScan at hv
    rcases List.mem_append.mp hv with hv | hv
    · exact handedByPair_dim hv
    · cases hpair : indexPair e pair with
      | none =>
        rw [hpair] at hv
        cases hv
      | some e' =>
        rw [hpair] at hv
        exact ih hv

theorem handedByApply_dim {uninit : ℤ} {msg : ApplyMsg} {v : List UInt32}
    (hv : v ∈ s.handedByApply uninit msg) : v.length = hnswDim := by
  unfold handedByApply at hv
  dsimp only at hv
  split_ifs at hv
  · cases hv
  · cases hparse : P.parseFromString (decodeOp uninit msg.command).Value with
    | none =>
      rw [hparse] at hv
      cases hv
    | some feat =>
      simp only [hparse, handedByFeature] at hv
      split_ifs at hv with hid hlen
      · cases hv
      · cases hv
      · rw [List.mem_singleton.mp hv]
        exact not_not.mp hlen
  · cases hv

/-- Only a query may have another length. -/
theorem handed_dim : (∀ v ∈ s.handed a, v.length = hnswDim) ↔ s.QueriesOfDim a := by
  cases a with
  | apply uninit msg => exact iff_of_true (fun v hv => handedByApply_dim hv) trivial
  | get isLeader commitIndex op => exact iff_of_true (fun v hv => by cases hv) trivial
  | buildIndex =>
    refine iff_of_true (fun v hv => ?_) trivial
    have hscan : v ∈ if s.indexBuilt then [] else handedByScan (P.foreach s.kvdb) s.recallEngine :=
      hv
    split_ifs at hscan
    · cases hscan
    · exact handedByScan_dim hscan
  | answerSearch args =>
    unfold handed QueriesOfDim RecallEngine.handedBySearch RecallEngine.size
    by_cases hempty : s.recallEngine.index.curElementCount = 0
    · simp [hempty]
    · simp [hempty]

end KvServer

/-! ## What the index holds -/

namespace HierarchicalNSW

variable {ix ix' : HierarchicalNSW P} {data : List UInt32} {l : UInt64} {replace : Bool}

/-- Every vector in the index has `HNSW_DIM` numbers. -/
def OfDim (ix : HierarchicalNSW P) : Prop := ∀ el ∈ ix.elements, el.data.length = hnswDim

theorem OfDim.modify (h : ix.OfDim) {f : Element → Element}
    (hf : ∀ el : Element, el.data.length = hnswDim → (f el).data.length = hnswDim) (id : ℕ) :
    ∀ el ∈ ix.elements.modify id f, el.data.length = hnswDim := by
  intro el hel
  obtain ⟨k, hk⟩ := List.mem_iff_getElem?.mp hel
  rw [List.getElem?_modify] at hk
  obtain ⟨el₀, hel₀, rfl⟩ := Option.map_eq_some_iff.mp hk
  have hold := h el₀ (List.mem_of_getElem? hel₀)
  split_ifs
  · exact hf el₀ hold
  · exact hold

theorem OfDim.setMark (h : ix.OfDim) (id : ℕ) (deleted : Bool) : (ix.setMark id deleted).OfDim :=
  h.modify (f := fun el => { el with deleted := deleted }) (fun _ hlen => hlen) id

theorem OfDim.updatePoint (h : ix.OfDim) (hdata : data.length = hnswDim) (id : ℕ) :
    (ix.updatePoint data id).OfDim := h.modify (fun _ _ => hdata) id

theorem OfDim.append (h : ix.OfDim) (hdata : data.length = hnswDim) :
    (ix.append data l).OfDim := by
  intro el hel
  rcases List.mem_append.mp hel with hel | hel
  · exact h el hel
  · rw [List.mem_singleton.mp hel]
    exact hdata

theorem OfDim.reuse (h : ix.OfDim) (hdata : data.length = hnswDim) (old : UInt64) (id : ℕ) :
    (ix.reuse data l old id).OfDim := h.modify (fun _ _ => hdata) id

theorem OfDim.addPoint (h : ix.OfDim) (hwf : ix.WellFormed) (hdata : data.length = hnswDim)
    (hadd : ix.addPoint data l replace = some ix') : ix'.OfDim := by
  rcases addPoint_cases hwf hadd with ⟨id, _, _, _, _, rfl⟩ | ⟨_, _, rfl⟩ |
    ⟨_, id, el, _, _, _, rfl⟩
  · exact h.updatePoint hdata id
  · exact h.append hdata
  · exact h.reuse hdata el.label id

end HierarchicalNSW

namespace RecallEngine

variable {e e' : RecallEngine P} {itemId : Bytes} {embedding : List UInt32}

/-- An engine that calls have reached, all of whose vectors have `HNSW_DIM` numbers. -/
structure OfDim (e : RecallEngine P) : Prop where
  valid : e.Valid
  index : e.index.OfDim

theorem OfDim.addPoint (h : e.OfDim) (hlen : embedding.length = hnswDim)
    (hres : e.addPoint itemId embedding = some e') : e'.OfDim := by
  by_cases hin : P.hasher itemId ∈ e.activeLabels
  · rw [addPoint_active hin] at hres
    cases hres
    exact h
  · exact ⟨h.valid.addPoint hres,
      h.index.addPoint h.valid.index hlen (addPoint_stored hin hres).2⟩

theorem OfDim.upsertPoint (h : e.OfDim) (hlen : embedding.length = hnswDim)
    (hres : e.upsertPoint itemId embedding = some e') : e'.OfDim :=
  ⟨h.valid.upsertPoint hres, h.index.addPoint h.valid.index hlen (upsertPoint_stored hres).2⟩

theorem OfDim.deletePoint (h : e.OfDim) (hres : e.deletePoint itemId = some e') : e'.OfDim := by
  refine ⟨h.valid.deletePoint hres, ?_⟩
  by_cases hin : P.hasher itemId ∈ e.activeLabels
  · obtain ⟨id, _, heq⟩ := deletePoint_eq h.valid hin
    rw [heq] at hres
    cases hres
    exact h.index.setMark id true
  · rw [deletePoint_inactive hin] at hres
    cases hres
    exact h.index

end RecallEngine

namespace KvServer

variable {s s' : KvServer P} {a : ServerStep}

theorem ofDim_indexPair {e e' : RecallEngine P} {pair : Bytes × Bytes} (h : e.OfDim)
    (hres : indexPair e pair = some e') : e'.OfDim := by
  unfold indexPair at hres
  cases hparse : P.parseFromString pair.2 with
  | none =>
    rw [hparse] at hres
    cases hres
    exact h
  | some feat =>
    simp only [hparse] at hres
    split_ifs at hres with hlen
    · exact h.addPoint hlen hres
    · cases hres
      exact h

theorem OfDim.step (h : s.recallEngine.OfDim) (hres : s.step a = some s') :
    s'.recallEngine.OfDim := by
  cases a with
  | apply uninit msg =>
    exact apply_invariant (fun _ _ _ _ h hlen hres => h.upsertPoint hlen hres)
      (fun _ _ _ h hres => h.deletePoint hres) h hres
  | get isLeader commitIndex op =>
    cases hres
    unfold get
    split_ifs
    · exact h
    · exact h
    · exact h
  | buildIndex =>
    have hbuild : s.buildIndexIfNeeded = some s' := hres
    unfold buildIndexIfNeeded at hbuild
    split_ifs at hbuild
    · cases hbuild
      exact h
    · obtain ⟨e, hscan, rfl⟩ := Option.map_eq_some_iff.mp hbuild
      exact foldlM_invariant (fun _ _ _ h hpair => ofDim_indexPair h hpair) h hscan
  | answerSearch args =>
    cases hres
    exact h

/-- In every run, from the start, whatever is applied, read and searched for. -/
theorem ofDim_run {steps : List ServerStep} (hrun : steps.foldlM step (create P) = some s) :
    s.recallEngine.index.OfDim := by
  have h : (create P).recallEngine.OfDim :=
    ⟨RecallEngine.valid_create P 10000, fun el hel => by cases hel⟩
  exact (foldlM_invariant (I := fun s : KvServer P => s.recallEngine.OfDim)
    (fun _ _ _ h hres => OfDim.step h hres) h hrun).index

end KvServer

/-! ## Runs -/

/-- For every state of the server and every sequence of applied messages, reads and searches:
    all vectors that are handed to hnswlib have `HNSW_DIM` numbers, if and only if every search
    that finds something in the index comes with `HNSW_DIM` numbers. -/
theorem vectors_of_dim (P : Libs) (s : KvServer P) (steps : List ServerStep) :
    (∀ v ∈ s.handedAll steps, v.length = hnswDim) ↔
    ∀ before a, before ++ [a] <+: steps → ∀ s', before.foldlM KvServer.step s = some s' →
      s'.QueriesOfDim a := by
  induction steps generalizing s with
  | nil => simp [KvServer.handedAll]
  | cons x steps ih =>
    unfold KvServer.handedAll
    rw [List.forall_mem_append, KvServer.handed_dim]
    constructor
    · rintro ⟨hfirst, hrest⟩ before a hpre s' hbefore
      cases before with
      | nil =>
        obtain ⟨rfl, _⟩ := List.cons_prefix_cons.mp hpre
        cases hbefore
        exact hfirst
      | cons y before =>
        obtain ⟨rfl, hbehind⟩ := List.cons_prefix_cons.mp hpre
        rw [List.foldlM_cons, Option.bind_eq_bind, Option.bind_eq_some_iff] at hbefore
        obtain ⟨s₁, hstep, hbefore⟩ := hbefore
        rw [hstep] at hrest
        exact (ih s₁).mp hrest before a hbehind s' hbefore
    · intro hall
      refine ⟨hall [] x (List.cons_prefix_cons.mpr ⟨rfl, List.nil_prefix⟩) s rfl, ?_⟩
      cases hstep : s.step x with
      | none => exact fun v hv => by cases hv
      | some s₁ =>
        refine (ih s₁).mpr fun before a hpre s' hbefore => ?_
        refine hall (x :: before) a (List.cons_prefix_cons.mpr ⟨rfl, hpre⟩) s' ?_
        rw [List.foldlM_cons, hstep]
        exact hbefore

/-- A feature is applied, and a request with one number searches for it. -/
theorem vectors_of_dim_fails :
    ((KvServer.create listLibs).handedAll [.apply 0 featurePut.msg, .buildIndex,
      .answerSearch ⟨[1], 5⟩]).map List.length = [128, 1] := by
  decide +kernel

end MyKvRaft
