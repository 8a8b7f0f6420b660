import MyKvRaft.KvServer.RecallEngine
import MyKvRaft.Raft.Messages

/-!
# The server

`KvServer` (`KvServer/KvServer.cpp`): the pairs, the recall engine, the table of the last
request of every client, and the channels on which write RPCs wait. A function of the
source that may throw returns an `Option`.

* `apply`: what a message of the log does (lines 354–405).
* `get`: the read RPC (lines 161–231).
* `buildIndexIfNeeded`: the scan at the first search (lines 29–53).
-/

namespace MyKvRaft

/-- The strings of `kvServer.h` lines 25–27. -/
inductive Err where
  | OK
  | ErrNoKey
  | ErrWrongLeader
deriving DecidableEq

/-- `message GetReply`; a `PutAppendReply` has no value. -/
structure Reply where
  err : Err
  value : Bytes := []
deriving DecidableEq

/-! The names of operations. -/

def opGet : Bytes := ascii ['G', 'e', 't']
def opPut : Bytes := ascii ['P', 'u', 't']
def opAppend : Bytes := ascii ['A', 'p', 'p', 'e', 'n', 'd']
def opPutFeature : Bytes := ascii ['P', 'u', 't', 'F', 'e', 'a', 't', 'u', 'r', 'e']
def opDeleteFeature : Bytes :=
  ascii ['D', 'e', 'l', 'e', 't', 'e', 'F', 'e', 'a', 't', 'u', 'r', 'e']

/-- `struct RequestRecord`. -/
structure RequestRecord where
  lastRequestId : ℤ
  lastValue : Bytes
deriving DecidableEq

structure KvServer (P : Libs) where
  kvdb : P.SkipList
  recallEngine : RecallEngine P
  indexBuilt : Bool
  waitApplyCh : ℤ → Option (List Op)
  lastRequests : Bytes → Option RequestRecord

namespace KvServer

variable {P : Libs}

/-- The constructor (lines 17–27): the skip list is empty, so the capacity is 10000. -/
def create (P : Libs) : KvServer P where
  kvdb := P.emptyList
  recallEngine := RecallEngine.create P 10000
  indexBuilt := false
  waitApplyCh := fun _ => none
  lastRequests := fun _ => none

variable (s : KvServer P)

/-! ## The store -/

/-- `ExecuteGetOpOnKVDB` (lines 88–98): the value, if the key exists. -/
def executeGetOpOnKVDB (op : Op) : Option Bytes := P.searchElement s.kvdb op.Key

/-- `ExecutePutAppendOnKVDB` (lines 100–109). -/
def executePutAppendOnKVDB (op : Op) : KvServer P :=
  if op.Operation = opPut then { s with kvdb := P.insertElement s.kvdb op.Key op.Value }
  else if op.Operation = opAppend then
    let newVal := match P.searchElement s.kvdb op.Key with
      | some oldVal => oldVal ++ op.Value
      | none => op.Value
    { s with kvdb := P.insertElement s.kvdb op.Key newVal }
  else s

/-! ## Duplicates -/

/-- `ifRequestDuplicate` (lines 111–116). -/
def ifRequestDuplicate (clientId : Bytes) (requestId : ℤ) : Bool :=
  match s.lastRequests clientId with
  | none => false
  | some record => decide (requestId ≤ record.lastRequestId)

/-- `recordRequestResult` (lines 118–123). -/
def recordRequestResult (op : Op) (lastValue : Bytes) : KvServer P :=
  { s with
    lastRequests := Function.update s.lastRequests op.ClientId (some ⟨op.RequestId, lastValue⟩) }

/-- The value recorded for a client, empty if there is none. -/
def cachedValue (clientId : Bytes) : Bytes :=
  ((s.lastRequests clientId).map (·.lastValue)).getD []

/-! ## The recall index -/

/-- `applyFeatureToIndex` (lines 61–78). -/
def applyFeatureToIndex (feat : ItemFeature) : Option (KvServer P) :=
  if feat.itemId.isEmpty then some s
  else if feat.embedding.length ≠ hnswDim then some s
  else
    (s.recallEngine.upsertPoint feat.itemId feat.embedding).map fun recallEngine =>
      { s with recallEngine := recallEngine }

/-- `deleteFeature` (lines 80–86). -/
def deleteFeature (itemId : Bytes) : Option (KvServer P) :=
  if itemId.isEmpty then some s
  else
    (s.recallEngine.deletePoint itemId).map fun recallEngine =>
      { s with recallEngine := recallEngine }

/-- One pair of the scan of `buildIndexIfNeeded`. -/
def indexPair (recallEngine : RecallEngine P) (pair : Bytes × Bytes) : Option (RecallEngine P) :=
  match P.parseFromString pair.2 with
  | none => some recallEngine
  | some feat =>
    if feat.embedding.length = hnswDim then recallEngine.addPoint pair.1 feat.embedding
    else some recallEngine

/-- `buildIndexIfNeeded` (lines 29–53). -/
def buildIndexIfNeeded : Option (KvServer P) :=
  if s.indexBuilt then some s
  else
    ((P.foreach s.kvdb).foldlM indexPair s.recallEngine).map fun recallEngine =>
      { s with recallEngine := recallEngine, indexBuilt := true }

/-! ## Apply -/

/-- What `Apply` does with an operation on the store, and the value it records for it: a `Get`
    reads, every other operation goes through `ExecutePutAppendOnKVDB`. -/
def executeOnKVDB (op : Op) : KvServer P × Bytes :=
  if op.Operation = opGet then (s, (s.executeGetOpOnKVDB op).getD [])
  else (s.executePutAppendOnKVDB op, [])

/-- What `Apply` does with an operation on the recall index. -/
def updateIndex (op : Op) : Option (KvServer P) :=
  if op.Operation = opPutFeature then
    match P.parseFromString op.Value with
    | none => some s
    | some feat => s.applyFeatureToIndex feat
  else if op.Operation = opDeleteFeature then s.deleteFeature op.Key
  else some s

/-- The branches of `Apply` for an operation that is not a duplicate (lines 360–384). -/
def execute (op : Op) : Option (KvServer P) :=
  let (s, value) := s.executeOnKVDB op
  (s.recordRequestResult op value).updateIndex op

/-- The operation is pushed to the channel of its index, if there is one (lines 391–398). -/
def notify (index : ℤ) (op : Op) : KvServer P :=
  { s with
    waitApplyCh := Function.update s.waitApplyCh index
      ((s.waitApplyCh index).map fun ch => ch ++ [op]) }

/-- `Apply` on a decoded operation. -/
def applyOp (index : ℤ) (op : Op) : Option (KvServer P) :=
  let s' := if s.ifRequestDuplicate op.ClientId op.RequestId then some s else s.execute op
  s'.map fun s' => s'.notify index op

/-- `Apply` (lines 354–405); `uninit` is what `op.RequestId` holds if it is not decoded. -/
def apply (uninit : ℤ) (msg : ApplyMsg) : Option (KvServer P) :=
  s.applyOp msg.index (decodeOp uninit msg.command)

/-! ## Reads -/

/-- What a read answers with. -/
def readReply : Option Bytes → Reply
  | some value => ⟨.OK, value⟩
  | none => ⟨.ErrNoKey, []⟩

/-- `Get` (lines 161–231), with what `GetState` and `GetCommitIndex` return. The two halves of
    the source differ in the check of the commit index, which only a node that does not lead
    makes. -/
def get (isLeader : Bool) (commitIndex : ℤ) (op : Op) : KvServer P × Reply :=
  if s.ifRequestDuplicate op.ClientId op.RequestId then
    (s, ⟨.OK, s.cachedValue op.ClientId⟩)
  else if !isLeader && !decide (commitIndex > 0) then (s, ⟨.ErrWrongLeader, []⟩)
  else
    let value := s.executeGetOpOnKVDB op
    (s.recordRequestResult op (value.getD []), readReply value)

/-! ## What an operation changes -/

section Changes

variable {s} {s' : KvServer P} {op : Op}

@[simp] theorem record_kvdb (value : Bytes) : (s.recordRequestResult op value).kvdb = s.kvdb := rfl
@[simp] theorem record_recallEngine (value : Bytes) :
    (s.recordRequestResult op value).recallEngine = s.recallEngine := rfl
@[simp] theorem notify_kvdb (index : ℤ) : (s.notify index op).kvdb = s.kvdb := rfl
@[simp] theorem notify_recallEngine (index : ℤ) :
    (s.notify index op).recallEngine = s.recallEngine := rfl
@[simp] theorem notify_lastRequests (index : ℤ) :
    (s.notify index op).lastRequests = s.lastRequests := rfl

theorem executePutAppend_eq :
    s.executePutAppendOnKVDB op = { s with kvdb := (s.executePutAppendOnKVDB op).kvdb } := by
  unfold executePutAppendOnKVDB
  split_ifs <;> rfl

theorem executeOnKVDB_eq :
    (s.executeOnKVDB op).1 = { s with kvdb := (s.executeOnKVDB op).1.kvdb } := by
  unfold executeOnKVDB
  split_ifs
  · rfl
  · exact executePutAppend_eq

/-- The recall index after an operation. -/
def indexed (e : RecallEngine P) (op : Op) : Option (RecallEngine P) :=
  (({ create P with recallEngine := e } : KvServer P).updateIndex op).map (·.recallEngine)

/-- `updateIndex` reads and changes the recall engine only. -/
theorem updateIndex_eq :
    s.updateIndex op = (indexed s.recallEngine op).map fun e => { s with recallEngine := e } := by
  have hsame : { s with recallEngine := s.recallEngine } = s := rfl
  unfold indexed updateIndex applyFeatureToIndex deleteFeature
  split_ifs
  · cases P.parseFromString op.Value with
    | none => rfl
    | some feat =>
      dsimp only
      split_ifs
      · rfl
      · rfl
      · simp only [Option.map_map, Function.comp_def]
  · rfl
  · simp only [Option.map_map, Function.comp_def]
  · rfl

/-- An operation that is not a duplicate. -/
theorem execute_eq :
    s.execute op = (indexed s.recallEngine op).map fun e =>
      { s with
        kvdb := (s.executeOnKVDB op).1.kvdb
        lastRequests := Function.update s.lastRequests op.ClientId
          (some ⟨op.RequestId, (s.executeOnKVDB op).2⟩)
        recallEngine := e } := by
  unfold execute
  dsimp only
  rw [updateIndex_eq, executeOnKVDB_eq]
  rfl

theorem applyOp_duplicate (hdup : s.ifRequestDuplicate op.ClientId op.RequestId = true)
    (index : ℤ) : s.applyOp index op = some (s.notify index op) := by
  unfold applyOp
  rw [if_pos hdup]
  rfl

/-- What `Apply` has done with an operation that is not a duplicate. -/
theorem applyOp_fresh {index : ℤ} (hdup : s.ifRequestDuplicate op.ClientId op.RequestId = false)
    (h : s.applyOp index op = some s') :
    ∃ e, indexed s.recallEngine op = some e ∧ s'.kvdb = (s.executeOnKVDB op).1.kvdb ∧
      s'.recallEngine = e ∧ s'.indexBuilt = s.indexBuilt ∧
      s'.lastRequests = Function.update s.lastRequests op.ClientId
        (some ⟨op.RequestId, (s.executeOnKVDB op).2⟩) := by
  unfold applyOp at h
  rw [if_neg (by simp [hdup]), execute_eq] at h
  simp only [Option.map_map, Option.map_eq_some_iff, Function.comp_apply] at h
  obtain ⟨e, he, rfl⟩ := h
  exact ⟨e, he, rfl, rfl, rfl, rfl⟩

/-- `Apply` ends with an exception exactly when an operation that is not a duplicate cannot be
    put into the recall index. -/
theorem applyOp_eq_none {index : ℤ} :
    s.applyOp index op = none ↔ s.ifRequestDuplicate op.ClientId op.RequestId = false ∧
      indexed s.recallEngine op = none := by
  cases hdup : s.ifRequestDuplicate op.ClientId op.RequestId with
  | true => simp [applyOp_duplicate hdup]
  | false =>
    unfold applyOp
    rw [if_neg (by simp [hdup]), execute_eq]
    simp

theorem ifRequestDuplicate_iff {clientId : Bytes} {requestId : ℤ} :
    s.ifRequestDuplicate clientId requestId = true ↔
      ∃ record, s.lastRequests clientId = some record ∧ requestId ≤ record.lastRequestId := by
  unfold ifRequestDuplicate
  cases s.lastRequests clientId with
  | none => simp
  | some record => simp

/-! ## The table of last requests -/

/-- A record uncovers nothing but greater numbers of its client. -/
theorem duplicate_record_of_le {clientId : Bytes} {requestId : ℤ}
    (hle : clientId = op.ClientId → requestId ≤ op.RequestId) (value : Bytes)
    (h : s.ifRequestDuplicate clientId requestId = true) :
    (s.recordRequestResult op value).ifRequestDuplicate clientId requestId = true := by
  rw [ifRequestDuplicate_iff] at h ⊢
  obtain ⟨record, hrecord, hcovers⟩ := h
  by_cases hclient : clientId = op.ClientId
  · refine ⟨⟨op.RequestId, value⟩, ?_, hle hclient⟩
    rw [hclient]
    exact Function.update_self _ _ _
  · exact ⟨record, (Function.update_of_ne hclient _ _).trans hrecord, hcovers⟩

/-- A request that is not a duplicate raises the number recorded for its client. -/
theorem duplicate_record (hop : s.ifRequestDuplicate op.ClientId op.RequestId = false)
    (value : Bytes) {clientId : Bytes} {requestId : ℤ}
    (h : s.ifRequestDuplicate clientId requestId = true) :
    (s.recordRequestResult op value).ifRequestDuplicate clientId requestId = true := by
  refine duplicate_record_of_le (fun hclient => ?_) value h
  obtain ⟨record, hrecord, hcovers⟩ := ifRequestDuplicate_iff.mp h
  by_contra hlt
  rw [hclient] at hrecord
  rw [ifRequestDuplicate_iff.mpr ⟨record, hrecord, by omega⟩] at hop
  cases hop

theorem duplicate_record_self (value : Bytes) :
    (s.recordRequestResult op value).ifRequestDuplicate op.ClientId op.RequestId = true :=
  ifRequestDuplicate_iff.mpr ⟨_, Function.update_self _ _ _, le_rfl⟩

theorem duplicate_congr {s' : KvServer P} (h : s'.lastRequests = s.lastRequests)
    (clientId : Bytes) (requestId : ℤ) :
    s'.ifRequestDuplicate clientId requestId = s.ifRequestDuplicate clientId requestId := by
  unfold ifRequestDuplicate
  rw [h]

/-- A record covers the numbers up to its own. -/
theorem duplicate_of_record {value : Bytes} {clientId : Bytes} {requestId : ℤ}
    (h : (s.recordRequestResult op value).ifRequestDuplicate clientId requestId = true) :
    s.ifRequestDuplicate clientId requestId = true ∨
      (clientId = op.ClientId ∧ requestId ≤ op.RequestId) := by
  obtain ⟨record, hrecord, hle⟩ := ifRequestDuplicate_iff.mp h
  by_cases hclient : clientId = op.ClientId
  · subst hclient
    simp only [recordRequestResult, Function.update_self, Option.some.injEq] at hrecord
    subst hrecord
    exact .inr ⟨rfl, hle⟩
  · simp only [recordRequestResult, Function.update_of_ne hclient] at hrecord
    exact .inl (ifRequestDuplicate_iff.mpr ⟨record, hrecord, hle⟩)

end Changes

end KvServer

end MyKvRaft
