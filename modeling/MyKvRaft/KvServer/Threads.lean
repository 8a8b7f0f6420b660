import MyKvRaft.KvServer.KvServer

/-!
# The threads of a server

What runs above the `Raft` object of one process: a thread for every RPC, and the thread of
`ServerMain.cpp` (lines 47–54) that takes messages from `applyCh` and calls `Apply`. They
meet in the critical sections of `m_reqMtx` and `m_mtx`, in the queues and in the skip
list, so a step is one of these. What `GetState`, `GetCommitIndex` and `Start` answer comes
with the step.

* `Server.step`: one step of one thread.
* `applies`, `gets`: a thread that is not interrupted does what `KvServer.apply` and
  `KvServer.get` do.
-/

namespace MyKvRaft

variable {P : Libs}

/-! ## Requests -/

/-- `message GetArgs`. -/
structure GetArgs where
  key : Bytes
  clientid : Bytes
  requestid : ℤ
deriving DecidableEq

/-- `message PutAppendArgs`. -/
structure PutAppendArgs where
  key : Bytes
  value : Bytes
  clientid : Bytes
  requestid : ℤ
  op : Bytes
deriving DecidableEq

/-- `message PutFeatureArgs`; `text` is `feature.SerializeAsString()`. -/
structure PutFeatureArgs where
  itemId : Bytes
  text : Bytes
  clientid : Bytes
  requestid : ℤ
deriving DecidableEq

inductive WriteRequest where
  | putAppend (args : PutAppendArgs)
  | putFeature (args : PutFeatureArgs)
deriving DecidableEq

inductive Request where
  | get (args : GetArgs)
  | write (request : WriteRequest)
deriving DecidableEq

/-- The operation `Get` makes of its arguments. -/
def GetArgs.op (args : GetArgs) : Op := ⟨opGet, args.key, [], args.clientid, args.requestid⟩

/-- The operation `PutAppend` and `PutFeature` make of theirs. -/
def WriteRequest.op : WriteRequest → Op
  | .putAppend args => ⟨args.op, args.key, args.value, args.clientid, args.requestid⟩
  | .putFeature args => ⟨opPutFeature, args.itemId, args.text, args.clientid, args.requestid⟩

def Request.op : Request → Op
  | .get args => args.op
  | .write request => request.op

/-- What the `Raft` object answers, if the step asks it: whether the node leads, and the commit
    index or the index of the new entry. -/
structure RaftAnswer where
  isLeader : Bool
  index : ℤ
deriving DecidableEq

/-! ## Get -/

/-- Where a `Get` is: before the call or the critical section of that name. -/
inductive GetPc where
  | getState
  | checkDuplicate (isLeader : Bool)
  | readCache
  | getCommitIndex
  | readValue
  | record (value : Option Bytes)
  | replied (reply : Reply)
deriving DecidableEq

/-- The next step of `Get` (lines 161–231). -/
def GetArgs.step (args : GetArgs) (pc : GetPc) (s : KvServer P) (raft : RaftAnswer) :
    KvServer P × GetPc :=
  match pc with
  | .getState => (s, .checkDuplicate raft.isLeader)
  | .checkDuplicate isLeader =>
    if s.ifRequestDuplicate args.clientid args.requestid then (s, .readCache)
    else if isLeader then (s, .readValue)
    else (s, .getCommitIndex)
  | .readCache => (s, .replied ⟨.OK, s.cachedValue args.clientid⟩)
  | .getCommitIndex =>
    if raft.index > 0 then (s, .readValue) else (s, .replied ⟨.ErrWrongLeader, []⟩)
  | .readValue => (s, .record (s.executeGetOpOnKVDB args.op))
  | .record value =>
    (s.recordRequestResult args.op (value.getD []), .replied (KvServer.readReply value))
  | .replied reply => (s, .replied reply)

/-! ## PutAppend and PutFeature -/

/-- Where a write is: before `Start`, before it looks for its channel, in `timeOutPop`, or before
    the check for a duplicate. -/
inductive WritePc where
  | start
  | channel (index : ℤ)
  | wait (index : ℤ)
  | timedOut
  | replied (err : Err)
deriving DecidableEq

namespace KvServer

/-- `waitApplyCh[index]`, made if it is missing (lines 250–258). -/
def openChannel (s : KvServer P) (index : ℤ) : KvServer P :=
  { s with
    waitApplyCh := Function.update s.waitApplyCh index (some ((s.waitApplyCh index).getD [])) }

/-- The channel of an index after its first element has been popped. -/
def popChannel (s : KvServer P) (index : ℤ) : KvServer P :=
  { s with
    waitApplyCh := Function.update s.waitApplyCh index ((s.waitApplyCh index).map List.tail) }

/-- The operation that the next pop from the channel of an index returns. -/
def nextCommitted (s : KvServer P) (index : ℤ) : Option Op :=
  (s.waitApplyCh index).bind List.head?

end KvServer

namespace WriteRequest

/-- The check of the operation that was popped (lines 264–271). -/
def verdict (op raftCommitOp : Op) : Err :=
  if raftCommitOp.ClientId = op.ClientId ∧ raftCommitOp.RequestId = op.RequestId then .OK
  else .ErrWrongLeader

/-- The next step of `PutAppend` (lines 233–272) or `PutFeature` (lines 274–316), which differ
    in the operation only. -/
def step (request : WriteRequest) (pc : WritePc) (s : KvServer P) (raft : RaftAnswer) :
    KvServer P × WritePc :=
  match pc with
  | .start => if raft.isLeader then (s, .channel raft.index) else (s, .replied .ErrWrongLeader)
  | .channel index => (s.openChannel index, .wait index)
  | .wait index =>
    match s.nextCommitted index with
    | none => (s, .wait index)
    | some raftCommitOp => (s.popChannel index, .replied (verdict request.op raftCommitOp))
  | .timedOut =>
    if s.ifRequestDuplicate request.op.ClientId request.op.RequestId then (s, .replied .OK)
    else (s, .replied .ErrWrongLeader)
  | .replied err => (s, .replied err)

end WriteRequest

/-! ## Handlers -/

/-- The thread of an RPC. -/
inductive Handler where
  | get (args : GetArgs) (pc : GetPc)
  | write (request : WriteRequest) (pc : WritePc)
deriving DecidableEq

def Request.handler : Request → Handler
  | .get args => .get args .getState
  | .write request => .write request .start

namespace Handler

def step (s : KvServer P) (raft : RaftAnswer) : Handler → KvServer P × Handler
  | .get args pc => let (s, pc) := args.step pc s raft; (s, .get args pc)
  | .write request pc => let (s, pc) := request.step pc s raft; (s, .write request pc)

/-- `timeOutPop` gives up on an empty channel. -/
def timeOut (s : KvServer P) : Handler → Handler
  | .write request (.wait index) =>
    if s.nextCommitted index = none then .write request .timedOut else .write request (.wait index)
  | h => h

end Handler

/-! ## The apply thread -/

/-- Where the apply thread is: in `timeOutPop` of `applyCh`, or in `Apply` before the step of
    that name. -/
inductive Applier where
  | idle
  | check (index : ℤ) (op : Op)
  | execute (index : ℤ) (op : Op)
  | record (index : ℤ) (op : Op) (value : Bytes)
  | updateIndex (index : ℤ) (op : Op)
  | findChannel (index : ℤ) (op : Op)
  | push (index : ℤ) (op : Op)
deriving DecidableEq

/-- One process above its `Raft` object. Handlers are kept when they have replied; `executed`
    is a history variable: what `Apply` has executed in this process, latest first. -/
structure Server (P : Libs) where
  kv : KvServer P
  handlers : List Handler
  applyCh : List ApplyMsg
  applier : Applier
  executed : List Op

inductive ServerInput where
  /-- An RPC arrives. -/
  | call (request : Request)
  /-- The next step of the `k`-th handler. -/
  | handler (k : ℕ) (raft : RaftAnswer)
  /-- `timeOutPop` of the `k`-th handler gives up. -/
  | timeOut (k : ℕ)
  /-- `pushMsgToKVserver` pushes a message to `applyCh`. -/
  | push (msg : ApplyMsg)
  /-- The next step of the apply thread; `uninit` is what an undecoded `RequestId` holds. -/
  | apply (uninit : ℤ)
  /-- A `Search` builds the index, if it is the first. -/
  | search
  /-- The process ends and is started again. -/
  | crash

namespace Server

def create (P : Libs) : Server P := ⟨KvServer.create P, [], [], .idle, []⟩

def stepHandler (s : Server P) (k : ℕ) (raft : RaftAnswer) : Server P :=
  match s.handlers[k]? with
  | none => s
  | some h =>
    let (kv, h) := h.step s.kv raft
    { s with kv := kv, handlers := s.handlers.set k h }

def timeOut (s : Server P) (k : ℕ) : Server P :=
  match s.handlers[k]? with
  | none => s
  | some h => { s with handlers := s.handlers.set k (h.timeOut s.kv) }

/-- `Apply` (lines 354–405), one critical section at a time; no other thread writes the skip
    list, so the two calls of an `Append` are one step. -/
def stepApplier (s : Server P) (uninit : ℤ) : Server P :=
  match s.applier with
  | .idle =>
    match s.applyCh with
    | [] => s
    | msg :: rest =>
      { s with applyCh := rest, applier := .check msg.index (decodeOp uninit msg.command) }
  | .check index op =>
    if s.kv.ifRequestDuplicate op.ClientId op.RequestId then
      { s with applier := .findChannel index op }
    else { s with applier := .execute index op }
  | .execute index op =>
    let (kv, value) := s.kv.executeOnKVDB op
    { s with kv := kv, applier := .record index op value, executed := op :: s.executed }
  | .record index op value =>
    { s with kv := s.kv.recordRequestResult op value, applier := .updateIndex index op }
  | .updateIndex index op =>
    match s.kv.updateIndex op with
    | none => create P
    | some kv => { s with kv := kv, applier := .findChannel index op }
  | .findChannel index op =>
    if (s.kv.waitApplyCh index).isSome then { s with applier := .push index op }
    else { s with applier := .idle }
  | .push index op => { s with kv := s.kv.notify index op, applier := .idle }

def search (s : Server P) : Server P :=
  match s.kv.buildIndexIfNeeded with
  | none => create P
  | some kv => { s with kv := kv }

def step (s : Server P) : ServerInput → Server P
  | .call request => { s with handlers := s.handlers ++ [request.handler] }
  | .handler k raft => s.stepHandler k raft
  | .timeOut k => s.timeOut k
  | .push msg => { s with applyCh := s.applyCh ++ [msg] }
  | .apply uninit => s.stepApplier uninit
  | .search => s.search
  | .crash => create P

/-- The process ends with the step: it crashes, or an exception leaves `Apply` or `Search`. -/
def ends (s : Server P) : ServerInput → Bool
  | .crash => true
  | .search => s.kv.buildIndexIfNeeded.isNone
  | .apply _ =>
    match s.applier with
    | .updateIndex _ op => (s.kv.updateIndex op).isNone
    | _ => false
  | _ => false

/-! ## Threads that are not interrupted -/

theorem notify_absent {s : KvServer P} {index : ℤ} (h : s.waitApplyCh index = none) (op : Op) :
    s.notify index op = s := by
  unfold KvServer.notify
  rw [h, Option.map_none, ← h, Function.update_eq_self]

/-- The end of `Apply`. -/
theorem notifies {s : Server P} {index : ℤ} {op : Op} (ha : s.applier = .findChannel index op)
    (uninit : ℤ) : ∃ n, (fun s => s.stepApplier uninit)^[n] s =
      { s with kv := s.kv.notify index op, applier := .idle } := by
  cases hch : s.kv.waitApplyCh index with
  | none =>
    refine ⟨1, ?_⟩
    rw [notify_absent hch]
    simp [stepApplier, ha, hch]
  | some ch =>
    refine ⟨2, ?_⟩
    simp [stepApplier, ha, hch]

/-- The apply thread alone does with the next message what `Apply` does. -/
theorem applies {s : Server P} {msg : ApplyMsg} {rest : List ApplyMsg} (ha : s.applier = .idle)
    (hch : s.applyCh = msg :: rest) (uninit : ℤ) :
    ∃ n executed, (fun s => s.stepApplier uninit)^[n] s =
      match s.kv.apply uninit msg with
      | none => create P
      | some kv =>
        { s with kv := kv, applyCh := rest, applier := .idle, executed := executed } := by
  let op := decodeOp uninit msg.command
  have hcheck : s.stepApplier uninit =
      { s with applyCh := rest, applier := .check msg.index op } := by
    simp only [stepApplier, ha, hch, op]
  have hcall : s.kv.apply uninit msg = s.kv.applyOp msg.index op := rfl
  rw [hcall]
  cases hdup : s.kv.ifRequestDuplicate op.ClientId op.RequestId with
  | true =>
    rw [KvServer.applyOp_duplicate hdup]
    let s₁ : Server P := { s with applyCh := rest, applier := .findChannel msg.index op }
    obtain ⟨n, hn⟩ := notifies (s := s₁) rfl uninit
    refine ⟨n + 2, s.executed, ?_⟩
    have hfind : (s.stepApplier uninit).stepApplier uninit = s₁ := by
      rw [hcheck]
      simp [stepApplier, hdup, s₁]
    rw [Function.iterate_add_apply, show (fun s : Server P => s.stepApplier uninit)^[2] s = s₁
      from hfind, hn]
  | false =>
    have hexec : s.kv.applyOp msg.index op =
        (s.kv.execute op).map fun kv => kv.notify msg.index op := by
      unfold KvServer.applyOp
      rw [if_neg (by simp [hdup])]
    rw [hexec]
    let done := s.kv.executeOnKVDB op
    let s₁ : Server P :=
      { s with
        kv := done.1.recordRequestResult op done.2
        applyCh := rest
        applier := .updateIndex msg.index op
        executed := op :: s.executed }
    have hrecord : (fun s : Server P => s.stepApplier uninit)^[4] s = s₁ := by
      show (((s.stepApplier uninit).stepApplier uninit).stepApplier uninit).stepApplier uninit = s₁
      rw [hcheck]
      simp [stepApplier, hdup, s₁, done]
    have hexecute : s.kv.execute op = s₁.kv.updateIndex op := rfl
    rw [hexecute]
    cases hupdate : s₁.kv.updateIndex op with
    | none =>
      refine ⟨5, s.executed, ?_⟩
      rw [Function.iterate_succ_apply', hrecord]
      simp [stepApplier, s₁, hupdate]
    | some kv =>
      let s₂ : Server P := { s₁ with kv := kv, applier := .findChannel msg.index op }
      obtain ⟨n, hn⟩ := notifies (s := s₂) rfl uninit
      refine ⟨n + 5, op :: s.executed, ?_⟩
      have hfind : (fun s : Server P => s.stepApplier uninit)^[5] s = s₂ := by
        rw [Function.iterate_succ_apply', hrecord]
        show (match s₁.kv.updateIndex op with
          | none => create P
          | some kv => { s₁ with kv := kv, applier := .findChannel msg.index op }) = s₂
        rw [hupdate]
      rw [Function.iterate_add_apply, hfind, hn]
      rfl

/-- The steps of a `Get`, one after the other. -/
theorem get_steps (s : KvServer P) (args : GetArgs) (raft : RaftAnswer) :
    ∃ n, (fun p : KvServer P × GetPc => args.step p.2 p.1 raft)^[n] (s, .getState) =
      ((s.get raft.isLeader raft.index args.op).1,
        .replied (s.get raft.isLeader raft.index args.op).2) := by
  unfold KvServer.get
  cases hdup : s.ifRequestDuplicate args.clientid args.requestid with
  | true =>
    refine ⟨3, ?_⟩
    simp [GetArgs.step, GetArgs.op, hdup]
  | false =>
    cases hl : raft.isLeader with
    | true =>
      refine ⟨4, ?_⟩
      simp [GetArgs.step, GetArgs.op, hdup, hl]
    | false =>
      by_cases hcommit : raft.index > 0
      · refine ⟨5, ?_⟩
        simp [GetArgs.step, GetArgs.op, hdup, hl, hcommit]
      · refine ⟨3, ?_⟩
        simp [GetArgs.step, GetArgs.op, hdup, hl, hcommit]

/-- The handler of a `Get` alone replies what `KvServer.get` replies. -/
theorem gets {s : Server P} {k : ℕ} {args : GetArgs}
    (hk : s.handlers[k]? = some (.get args .getState)) (raft : RaftAnswer) :
    ∃ n, (fun s => s.stepHandler k raft)^[n] s =
      { s with
        kv := (s.kv.get raft.isLeader raft.index args.op).1
        handlers := s.handlers.set k
          (.get args (.replied (s.kv.get raft.isLeader raft.index args.op).2)) } := by
  obtain ⟨hlt, heq⟩ := List.getElem?_eq_some_iff.mp hk
  let loc (p : KvServer P × GetPc) : Server P :=
    { s with kv := p.1, handlers := s.handlers.set k (.get args p.2) }
  have hstep : ∀ p, (loc p).stepHandler k raft = loc (args.step p.2 p.1 raft) := by
    intro p
    simp [stepHandler, loc, hlt, Handler.step]
  have hstart : s = loc (s.kv, .getState) := by
    show s = { s with handlers := s.handlers.set k (.get args .getState) }
    rw [← heq, List.set_getElem_self]
  have hloop : ∀ n p, (fun s : Server P => s.stepHandler k raft)^[n] (loc p) =
      loc ((fun p : KvServer P × GetPc => args.step p.2 p.1 raft)^[n] p) := by
    intro n
    induction n with
    | zero => exact fun p => rfl
    | succ n ih =>
      intro p
      rw [Function.iterate_succ_apply, Function.iterate_succ_apply, hstep, ih]
  obtain ⟨n, hn⟩ := get_steps s.kv args raft
  refine ⟨n, ?_⟩
  rw [congrArg (fun s : Server P => s.stepHandler k raft)^[n] hstart, hloop, hn]

end Server

end MyKvRaft
