import MyKvRaft.KvServer.Contents

/-!
# Clerks and one server

`Clerk` (`Clerk/clerk.cpp`): a client that numbers its calls and repeats the RPC of a call
until it gets an answer. Under a `Service` are the clerks, the RPCs under way, one server,
and a Raft layer that takes commands into one log and hands each of them to `Apply` once
and in order. An RPC may be lost, its request may arrive late, and it may fail on the
clerk's side at any time, whether or not a handler runs for it.

* `Clerk`: the calls and the retry loops (lines 16–146).
* `Service.step`: one step of a clerk, of a thread of the server, or of the Raft layer.
-/

namespace MyKvRaft

variable {P : Libs}

/-! ## A clerk -/

/-- A call in its retry loop; `rpc` is the RPC it waits for, if it has sent one. -/
structure ClerkCall where
  request : Request
  retryCount : ℕ
  rpc : Option ℕ
deriving DecidableEq

structure Clerk where
  ClientId : ℤ
  RequestId : ℤ
  call : Option ClerkCall
deriving DecidableEq

namespace Clerk

/-- `Init` (lines 16–26), with what `std::rand` returns after `std::srand(std::time(nullptr))`. -/
def init (rand : ℤ) : Clerk := ⟨rand, 0, none⟩

def clientid (c : Clerk) : Bytes := toString c.ClientId

/-- The request of a `Put`, once `RequestId_` is incremented. -/
def putRequest (c : Clerk) (key value : Bytes) : Request :=
  .write (.putAppend ⟨key, value, c.clientid, c.RequestId, opPut⟩)

/-- The request of a `Get`. -/
def getRequest (c : Clerk) (key : Bytes) : Request := .get ⟨key, c.clientid, c.RequestId⟩

/-- A call begins, if none is under way. -/
def begin (c : Clerk) (request : Clerk → Request) : Clerk :=
  if c.call.isSome then c
  else
    let c := { c with RequestId := c.RequestId + 1 }
    { c with call := some ⟨request c, 0, none⟩ }

/-- The RPC has failed: the call is given up after 100 failures in a row. -/
def failed (c : Clerk) : Clerk :=
  { c with
    call := c.call.bind fun call =>
      if call.retryCount + 1 > 100 then none
      else some { call with retryCount := call.retryCount + 1, rpc := none } }

/-- The RPC has been answered: the call is repeated, or it returns. -/
def answered (c : Clerk) (err : Err) : Clerk :=
  match err with
  | .ErrWrongLeader =>
    { c with call := c.call.map fun call => { call with retryCount := 0, rpc := none } }
  | _ => { c with call := none }

end Clerk

/-! ## The service -/

/-- What a handler has replied. -/
def Handler.reply : Handler → Option Err
  | .get _ (.replied reply) => some reply.err
  | .write _ (.replied err) => some err
  | _ => none

/-- The write whose handler has not called `Start` yet. -/
def Handler.starting : Handler → Option Op
  | .write request .start => some request.op
  | _ => none

/-- An RPC of a clerk: its request, and its handler once the request has arrived. -/
structure ClerkRpc where
  request : Request
  handler : Option ℕ
deriving DecidableEq

/-- `delivered` counts the commands that have been pushed to `applyCh`. `calls` and
    `acknowledged` are history variables: the calls of all clerks, and the writes for which a
    clerk has received OK, latest first. -/
structure Service (P : Libs) where
  server : Server P
  log : List Op
  delivered : ℕ
  clerks : List Clerk
  rpcs : List ClerkRpc
  calls : List Request
  acknowledged : List Op

inductive ServiceInput where
  /-- A clerk is initialised at the given time, in seconds. -/
  | init (time : ℤ)
  /-- The `i`-th clerk calls `Put` or `Get`. -/
  | put (i : ℕ) (key value : Bytes)
  | get (i : ℕ) (key : Bytes)
  /-- It sends the RPC of its call. -/
  | send (i : ℕ)
  /-- The request of the `j`-th RPC arrives. -/
  | arrive (j : ℕ)
  /-- The RPC of the `i`-th clerk fails, or is answered. -/
  | fail (i : ℕ)
  | receive (i : ℕ)
  /-- The next step of the `k`-th handler, or the end of its `timeOutPop`. -/
  | handler (k : ℕ) (raft : RaftAnswer)
  | timeOut (k : ℕ)
  /-- The next command of the log is pushed to `applyCh`. -/
  | deliver
  | apply (uninit : ℤ)

namespace Service

def init (P : Libs) : Service P := ⟨Server.create P, [], 0, [], [], [], []⟩

variable (s : Service P)

def setClerk (i : ℕ) (c : Clerk) : Service P := { s with clerks := s.clerks.set i c }

/-- The `i`-th clerk begins a call. -/
def begin (i : ℕ) (request : Clerk → Request) : Service P :=
  match s.clerks[i]? with
  | none => s
  | some c =>
    if c.call.isSome then s
    else
      { s.setClerk i (c.begin request) with
        calls := request { c with RequestId := c.RequestId + 1 } :: s.calls }

def send (i : ℕ) : Service P :=
  match s.clerks[i]? with
  | some ⟨clientId, requestId, some ⟨request, retryCount, none⟩⟩ =>
    { s.setClerk i ⟨clientId, requestId, some ⟨request, retryCount, some s.rpcs.length⟩⟩ with
      rpcs := s.rpcs ++ [⟨request, none⟩] }
  | _ => s

def arrive (j : ℕ) : Service P :=
  match s.rpcs[j]? with
  | some ⟨request, none⟩ =>
    { s with
      server := s.server.step (.call request)
      rpcs := s.rpcs.set j ⟨request, some s.server.handlers.length⟩ }
  | _ => s

def fail (i : ℕ) : Service P :=
  match s.clerks[i]? with
  | some ⟨clientId, requestId, some ⟨request, retryCount, some rpc⟩⟩ =>
    s.setClerk i (Clerk.failed ⟨clientId, requestId, some ⟨request, retryCount, some rpc⟩⟩)
  | _ => s

/-- The answer to the RPC a clerk waits for. -/
def answer (rpc : ℕ) : Option Err := do
  let sent ← s.rpcs[rpc]?
  let k ← sent.handler
  let h ← s.server.handlers[k]?
  h.reply

def receive (i : ℕ) : Service P :=
  match s.clerks[i]? with
  | some ⟨clientId, requestId, some ⟨request, retryCount, some rpc⟩⟩ =>
    match s.answer rpc with
    | none => s
    | some err =>
      { s.setClerk i (Clerk.answered ⟨clientId, requestId, some ⟨request, retryCount, some rpc⟩⟩ err)
        with
        acknowledged :=
          match err, request with
          | .OK, .write request => request.op :: s.acknowledged
          | _, _ => s.acknowledged }
  | _ => s

/-- A step of a handler; `Start` puts the operation at the end of the log. -/
def stepHandler (k : ℕ) (raft : RaftAnswer) : Service P :=
  match s.server.handlers[k]?.bind Handler.starting with
  | some op =>
    { s with
      server := s.server.step (.handler k ⟨raft.isLeader, s.log.length + 1⟩)
      log := if raft.isLeader then s.log ++ [op] else s.log }
  | none => { s with server := s.server.step (.handler k raft) }

def deliver : Service P :=
  match s.log[s.delivered]? with
  | none => s
  | some op =>
    { s with
      server := s.server.step (.push (.ofCommand (s.delivered + 1) (encodeOp op)))
      delivered := s.delivered + 1 }

/-- `rand` gives the first number after a seed. -/
def step (rand : ℤ → ℤ) (s : Service P) : ServiceInput → Service P
  | .init time => { s with clerks := s.clerks ++ [Clerk.init (rand time)] }
  | .put i key value => s.begin i fun c => c.putRequest key value
  | .get i key => s.begin i fun c => c.getRequest key
  | .send i => s.send i
  | .arrive j => s.arrive j
  | .fail i => s.fail i
  | .receive i => s.receive i
  | .handler k raft => s.stepHandler k raft
  | .timeOut k => { s with server := s.server.step (.timeOut k) }
  | .deliver => s.deliver
  | .apply uninit => { s with server := s.server.step (.apply uninit) }

end Service

end MyKvRaft
