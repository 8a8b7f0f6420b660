import MyKvRaft.Hnsw.Search

/-!
# The recall engine over the graph

`RecallEngine` (`RecallEngine.cpp`) with the index that it really has: `addPoint`,
`upsertPoint` and `deletePoint` change the graph, and `searchTopK` searches it.

* `GraphEngine.run_engine`: along every run the tables are those of the engine over the labelled
  store, and its searches are among those that this engine may make.
-/

namespace MyKvRaft

open Transition

variable {P : Libs} {S : Space}

namespace HnswGraph

/-- What an operation does to the labelled store, and whether it throws. -/
def outcome (S : Space) (g : HnswGraph P) (op : IndexOp) : Outcome (HierarchicalNSW P) :=
  match g.run S op with
  | .ok g' => .returned g'.store
  | .error _ => .threw (thrown g.store op)

/-- What the engine calls; the level of a new slot has been drawn. -/
def hnsw (S : Space) (g : HnswGraph P) (curlevel : ℕ) : Hnsw P where
  addPoint _ data label replaceDeleted := g.outcome S (.addPoint data label replaceDeleted curlevel)
  markDelete _ label := g.outcome S (.markDelete label)

variable {g : HnswGraph P}

theorem Integrity.outcome_eq (h : g.Integrity) {op : IndexOp}
    (hdef : isDefined (g.run S op) = true) :
    g.outcome S op = .ofOption (thrown g.store op) (runStore g.store op) := by
  have hends := ensures_run (S := S) h op
  unfold outcome
  cases hrun : g.run S op with
  | ok g' =>
    rw [hrun] at hends
    rw [hends.2]
    rfl
  | error f =>
    rw [hrun] at hends hdef
    obtain ⟨_, hnone⟩ | ⟨rfl, _⟩ := hends
    · rw [hnone]
      rfl
    · cases hdef

theorem store_step_eq_outcome (op : IndexOp) : (step S g op).store = (g.outcome S op).state := by
  unfold step outcome
  cases g.run S op <;> rfl

end HnswGraph

/-! ## The engine -/

/-- The tables, over an index that is given as the store and as the graph. -/
structure GraphEngine (P : Libs) where
  engine : RecallEngine P
  graph : HnswGraph P

/-- The call of the index that is part of a call of the engine. -/
def RecallEngine.indexOp (e : RecallEngine P) (curlevel : ℕ) : EngineCall → Option IndexOp
  | .addPoint itemId embedding =>
    if P.hasher itemId ∈ e.activeLabels then none
    else some (.addPoint embedding (P.hasher itemId) false curlevel)
  | .upsertPoint itemId embedding =>
    some (.addPoint embedding (P.hasher itemId) (decide (P.hasher itemId ∈ e.activeLabels)) curlevel)
  | .deletePoint itemId =>
    if P.hasher itemId ∉ e.activeLabels then none else some (.markDelete (P.hasher itemId))

inductive GraphEngineOp where
  | call (c : EngineCall) (curlevel : ℕ)
  | setEfSearch (ef : ℕ)

namespace GraphEngine

/-- The constructor (lines 13–32). -/
def create (P : Libs) (maxElements m efConstruction efSearch : ℕ) : GraphEngine P where
  engine := RecallEngine.create P maxElements
  graph := { HnswGraph.create P maxElements m efConstruction true with ef := efSearch }

/-- The operation on the index, if there is one. -/
def indexOp (t : GraphEngine P) : GraphEngineOp → Option IndexOp
  | .call c curlevel => t.engine.indexOp curlevel c
  | .setEfSearch ef => some (.setEf ef)

/-- An operation; the tables stay as an exception leaves them. -/
def step (S : Space) (t : GraphEngine P) (op : GraphEngineOp) : GraphEngine P where
  engine :=
    match op with
    | .call c curlevel => (t.engine.callOutcome (t.graph.hnsw S curlevel) c).state
    | .setEfSearch _ => t.engine
  graph :=
    match t.indexOp op with
    | none => t.graph
    | some op => t.graph.step S op

/-- The same on the engine over the labelled store. -/
def engineStep (e : RecallEngine P) : GraphEngineOp → RecallEngine P
  | .call c _ => (e.callOutcome (Hnsw.source P) c).state
  | .setEfSearch _ => e

/-- The operation takes no back of an empty vector. -/
def IsDefined (S : Space) (t : GraphEngine P) (op : GraphEngineOp) : Prop :=
  ∀ iop, t.indexOp op = some iop → HnswGraph.isDefined (t.graph.run S iop) = true

/-- `searchTopK` (lines 115–162). -/
def searchTopK (S : Space) (t : GraphEngine P) (query : List UInt32) (topK : ℤ) :
    Except Fault (List (Bytes × S.Dist)) :=
  if t.graph.curElementCount = 0 then .ok []
  else
    (t.graph.searchKnnCloserFirst S query (topK % 2 ^ 64).toNat none).map fun knn =>
      knn.filterMap fun p => (t.engine.reported p.2).map fun itemId => (itemId, p.1)

/-- The two sides of the engine belong together. -/
structure Agrees (t : GraphEngine P) : Prop where
  integrity : t.graph.Integrity
  store : t.graph.store = t.engine.index

variable {t : GraphEngine P}

theorem agrees_create {maxElements m efConstruction efSearch : ℕ} (hm : 0 < m) :
    (create P maxElements m efConstruction efSearch).Agrees :=
  ⟨(HnswGraph.integrity_create hm).setEf efSearch, rfl⟩

/-- Both sides of the index see the same call. -/
theorem Agrees.callOutcome_eq (h : t.Agrees) {c : EngineCall} {curlevel : ℕ}
    (hdef : t.IsDefined S (.call c curlevel)) :
    t.engine.callOutcome (t.graph.hnsw S curlevel) c =
      t.engine.callOutcome (Hnsw.source P) c := by
  have houtcome : ∀ op, t.engine.indexOp curlevel c = some op → t.graph.outcome S op =
      .ofOption (HnswGraph.thrown t.engine.index op) (HnswGraph.runStore t.engine.index op) := by
    intro op hop
    rw [← h.store]
    exact h.integrity.outcome_eq (hdef op hop)
  cases c with
  | addPoint itemId embedding =>
    unfold RecallEngine.callOutcome RecallEngine.addPointOutcome
    by_cases hin : P.hasher itemId ∈ t.engine.activeLabels
    · simp only [if_pos hin]
    · simp only [if_neg hin]
      exact congrArg (Outcome.map _) (houtcome _ (if_neg hin))
  | upsertPoint itemId embedding =>
    have hop := houtcome _ rfl
    unfold RecallEngine.callOutcome RecallEngine.upsertPointOutcome
    by_cases hin : P.hasher itemId ∈ t.engine.activeLabels
    · rw [decide_eq_true hin] at hop
      simp only [if_pos hin]
      exact congrArg (Outcome.map _) hop
    · rw [decide_eq_false hin] at hop
      simp only [if_neg hin]
      exact congrArg (Outcome.map _) hop
  | deletePoint itemId =>
    unfold RecallEngine.callOutcome RecallEngine.deletePointOutcome
    by_cases hin : P.hasher itemId ∈ t.engine.activeLabels
    · simp only [if_neg (not_not.mpr hin)]
      have hop := houtcome _ (if_neg (not_not.mpr hin))
      exact congrArg (fun o => (Outcome.map _ o).andThen _) hop
    · simp only [if_pos hin]

/-- The store of the engine is what the call of the index makes it. -/
theorem index_callOutcome (t : GraphEngine P) (c : EngineCall) (curlevel : ℕ) :
    (t.engine.callOutcome (t.graph.hnsw S curlevel) c).state.index =
      match t.engine.indexOp curlevel c with
      | none => t.engine.index
      | some op => (t.graph.outcome S op).state := by
  have hmap : ∀ (o : Outcome (HierarchicalNSW P)) (f : HierarchicalNSW P → RecallEngine P),
      (∀ ix, (f ix).index = ix) → (o.map f).state.index = o.state := by
    intro o f hf
    cases o <;> exact hf _
  cases c with
  | addPoint itemId embedding =>
    unfold RecallEngine.callOutcome RecallEngine.addPointOutcome RecallEngine.indexOp
    dsimp only
    split_ifs
    · rfl
    · exact hmap _ _ fun _ => rfl
  | upsertPoint itemId embedding =>
    unfold RecallEngine.callOutcome RecallEngine.upsertPointOutcome RecallEngine.indexOp
    dsimp only
    by_cases hin : P.hasher itemId ∈ t.engine.activeLabels
    · rw [if_pos hin, decide_eq_true hin]
      exact hmap _ _ fun _ => rfl
    · rw [if_neg hin, decide_eq_false hin]
      exact hmap _ _ fun _ => rfl
  | deletePoint itemId =>
    unfold RecallEngine.callOutcome RecallEngine.deletePointOutcome RecallEngine.indexOp
    dsimp only
    by_cases hin : P.hasher itemId ∈ t.engine.activeLabels
    · rw [if_neg (not_not.mpr hin), if_neg (not_not.mpr hin)]
      show _ = (t.graph.outcome S (.markDelete (P.hasher itemId))).state
      unfold HnswGraph.hnsw
      dsimp only
      cases t.graph.outcome S (.markDelete (P.hasher itemId)) <;> rfl
    · rw [if_pos hin, if_pos hin]
      rfl

theorem Agrees.step (h : t.Agrees) (op : GraphEngineOp) : (t.step S op).Agrees := by
  constructor
  · unfold GraphEngine.step
    dsimp only
    cases t.indexOp op with
    | none => exact h.integrity
    | some iop => exact HnswGraph.integrity_step h.integrity iop
  · cases op with
    | call c curlevel =>
      refine Eq.trans ?_ (t.index_callOutcome c curlevel).symm
      unfold GraphEngine.step indexOp
      dsimp only
      cases t.engine.indexOp curlevel c with
      | none => exact h.store
      | some iop => exact HnswGraph.store_step_eq_outcome iop
    | setEfSearch ef => exact h.store

theorem Agrees.engine_step (h : t.Agrees) {op : GraphEngineOp} (hdef : t.IsDefined S op) :
    (t.step S op).engine = engineStep t.engine op := by
  cases op with
  | call c curlevel => exact congrArg Outcome.state (h.callOutcome_eq hdef)
  | setEfSearch ef => rfl

/-! ## Searches -/

/-- The pairs that the graph returns are those of the labelled store. -/
theorem map_entryOf {g : HnswGraph P} {found : List ℕ}
    (hfound : ∀ id ∈ found, id < g.curElementCount) (query : List UInt32) :
    found.map (g.entryOf S query) = g.store.neighbours S.distFunc query found := by
  unfold HierarchicalNSW.neighbours
  rw [← List.filterMap_eq_map]
  refine List.filterMap_congr fun id hid => ?_
  have hlt : id < g.store.elements.length := hfound id hid
  unfold HnswGraph.entryOf HnswGraph.distTo HnswGraph.getDataByInternalId HnswGraph.getExternalLabel
  simp [List.getElem?_eq_getElem hlt]

/-- The slots found are not marked. -/
theorem unmarked_of_gives {g : HnswGraph P} {query : List UInt32} {k : ℕ} {found : List ℕ}
    (hgives : g.Gives S query k none found) {id : ℕ} (hid : id ∈ found) :
    ∃ el, g.store.elements[id]? = some el ∧ el.deleted = false := by
  obtain ⟨hlt, hunmarked, _⟩ := hgives.wanted id hid
  have hel := List.getElem?_eq_getElem (show id < g.store.elements.length from hlt)
  refine ⟨_, hel, ?_⟩
  by_contra hdel
  rw [Bool.not_eq_false] at hdel
  have hmark : g.isMarkedDeleted id = true :=
    HierarchicalNSW.isMarkedDeleted_iff.mpr ⟨_, hel, hdel⟩
  rw [hunmarked] at hmark
  cases hmark

/-- The searches of a graph, as a choice of the slots to be found. -/
theorem Agrees.findsUnmarked (h : t.Agrees) : ∃ find : HierarchicalNSW P → List UInt32 → ℕ → List ℕ,
    FindsUnmarked find ∧ ∀ query k, t.graph.Gives S query k none (find t.graph.store query k) := by
  have hex : ∀ (ix : HierarchicalNSW P) query k, ∃ found : List ℕ, found.Nodup ∧
      found.length ≤ k ∧ (∀ id ∈ found, ∃ el, ix.elements[id]? = some el ∧ el.deleted = false) ∧
      (ix = t.graph.store → t.graph.Gives S query k none found) := by
    intro ix query k
    by_cases hgraph : ix = t.graph.store
    · subst hgraph
      obtain ⟨found, hfound⟩ := h.integrity.gives (S := S) query k none
      exact ⟨found, hfound.nodup, hfound.length_le, fun id => unmarked_of_gives hfound,
        fun _ => hfound⟩
    · exact ⟨[], List.nodup_nil, Nat.zero_le _, by simp, fun hix => absurd hix hgraph⟩
  choose find hnodup hlength hunmarked hgives using hex
  exact ⟨find, ⟨hnodup, hlength, hunmarked⟩, fun query k => hgives _ _ _ rfl⟩

theorem Agrees.searchTopK_eq (h : t.Agrees) {find : HierarchicalNSW P → List UInt32 → ℕ → List ℕ}
    {query : List UInt32} {topK : ℤ} (hgives : t.graph.Gives S query (topK % 2 ^ 64).toNat none
      (find t.graph.store query (topK % 2 ^ 64).toNat)) :
    t.searchTopK S query topK = .ok (t.engine.searchTopK S.distFunc find query topK) := by
  unfold searchTopK RecallEngine.searchTopK
  rw [← h.store]
  by_cases hzero : t.graph.curElementCount = 0
  · rw [if_pos hzero, if_pos (show t.graph.store.curElementCount = 0 from hzero)]
  · rw [if_neg hzero, if_neg (show ¬t.graph.store.curElementCount = 0 from hzero), hgives.returns,
      map_entryOf fun id hid => (hgives.wanted id hid).1]
    rfl

/-! ## Runs -/

/-- Along every run the tables, labels, vectors and marks are those of the engine over the labelled
    store, and every search returns what this engine does for some choice of the slots found. -/
theorem run_engine {maxElements m efConstruction efSearch : ℕ} (hm : 0 < m)
    {hist : List (GraphEngine P × GraphEngineOp)}
    (hr : Run (step S) (IsDefined S) (create P maxElements m efConstruction efSearch) hist t) :
    t.graph.store = t.engine.index ∧
    t.engine = (hist.map (·.2)).foldl engineStep (RecallEngine.create P maxElements) ∧
    ∃ find, FindsUnmarked find ∧ ∀ query topK,
      t.searchTopK S query topK = .ok (t.engine.searchTopK S.distFunc find query topK) := by
  have hagrees : t.Agrees :=
    Run.invariant (agrees_create hm) (fun _ op hs _ => hs.step op) hr
  refine ⟨hagrees.store, ?_, ?_⟩
  · induction hr with
    | nil => rfl
    | @snoc hist t op hrun hdef ih =>
      have hbefore : t.Agrees :=
        Run.invariant (agrees_create hm) (fun _ op hs _ => hs.step op) hrun
      rw [List.map_append, List.foldl_append, ← ih hbefore]
      exact hbefore.engine_step hdef
  · obtain ⟨find, hfind, hgives⟩ := hagrees.findsUnmarked (S := S)
    exact ⟨find, hfind, fun query topK => hagrees.searchTopK_eq (hgives _ _)⟩

/-- An item is deleted, and the slot that it had is given to one that was there before. -/
def sampleCalls : List GraphEngineOp :=
  [.call (.upsertPoint [97] (List.replicate 128 floatOne)) 1, .setEfSearch 50,
    .call (.upsertPoint [98] (List.replicate 128 0)) 0, .call (.deletePoint [97]) 0,
    .call (.upsertPoint [98] (List.replicate 128 floatOne)) 0]

theorem run_engine_sampleCalls : ∃ t : GraphEngine listLibs,
    t.graph.store = t.engine.index ∧
    t.engine = sampleCalls.foldl engineStep (RecallEngine.create listLibs 10) ∧
    ∃ find, FindsUnmarked find ∧ ∀ query topK,
      t.searchTopK innerProductSpace query topK =
        .ok (t.engine.searchTopK innerProductSpace.distFunc find query topK) := by
  have hdef : ∀ x ∈ history (step innerProductSpace) (create listLibs 10 16 200 50) sampleCalls,
      (x.1.indexOp x.2).all (fun iop =>
        HnswGraph.isDefined (x.1.graph.run innerProductSpace iop)) = true := by decide +kernel
  exact ⟨_, run_engine (m := 16) (by decide) (run_history sampleCalls fun x hx iop hiop => by
    have hall := hdef x hx
    rw [hiop] at hall
    exact hall)⟩

end GraphEngine

end MyKvRaft
