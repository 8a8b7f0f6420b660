import MyKvRaft.Common.Run
import MyKvRaft.Raft.Node

/-!
# Processes and the cluster

A `Node` is one server process: its `Raft` object and the local state of its
threads. The threads meet only in critical sections of `m_mtx` (and of
`m_batchMtx`), so a step of a node is one critical section, or one block that
runs between two of them:

* `electionTimeoutTicker` is inside `doElection` while `election` is `some`: it
  asks one peer after the other and waits for each answer;
* every detached `sendAppendEntries` thread that waits for its RPC is a `call`; the
  `shared_ptr<int>` it counts in is an index into `counters`;
* `batchSenderLoop` is at the point `rf.batchSenderThread`;
* `applying` is what `applierTicker` has taken but not pushed yet.

A `Cluster` is `N` such processes and the messages under way. The scheduler may
let any node take a step or deliver any message; a message that is never chosen
is lost, a message is handled at most once, and an RPC may fail on the caller's
side at any time, whether or not its request is handled. A process that fails an
assertion is started again from its files, like one that crashes.
-/

namespace MyKvRaft

open Transition

/-- The runs shown in this development are those of three nodes, `0`, `1` and `2`. -/
instance threeNodes : NeZero 3 := ⟨by decide⟩

/-- The locals of `doElection` (lines 373–440): the request sent to every peer, `*votedNum`,
    the loop counter `i`, and the RPC it waits for. -/
structure Election (N : ℕ) where
  args : RequestVoteArgs
  votedNum : ℤ
  server : ℕ
  waiting : Option (Rpc N RequestVoteArgs)

/-- A `sendAppendEntries` thread; `appendNums` is the place of its counter. -/
structure AppendCall (N : ℕ) where
  rpc : Rpc N AppendEntriesArgs
  appendNums : ℕ

/-- A `leaderSendSnapShot` thread that has not read `m_currentTerm` yet (lines 699–709). -/
structure SnapshotThread (N : ℕ) where
  peerId : Fin N
  snapshotIndex : ℤ
  snapshotTerm : ℤ
  snapshotData : Bytes
  successCount : ℕ

/-- A `leaderSendSnapShot` thread that waits for its RPC. -/
structure SnapshotCall (N : ℕ) where
  rpc : Rpc N InstallSnapshotRequest
  successCount : ℕ

/-- One server process. `nextRpc` numbers its RPCs. -/
structure Node (N : ℕ) where
  rf : Raft N
  nextRpc : ℕ
  election : Option (Election N)
  calls : List (AppendCall N)
  snapshotThreads : List (SnapshotThread N)
  snapshotCalls : List (SnapshotCall N)
  counters : List ℤ
  applying : List ApplyMsg

/-- What a process may do by itself. -/
inductive Input (N : ℕ) where
  /-- The election timer fires: the critical section of `doElection`. -/
  | electionTimeout
  /-- The next iteration of the loop of `doElection`. -/
  | requestVotes
  /-- The `RequestVote` RPC under way fails. -/
  | requestVoteFails
  /-- `Start`, called at the given time. -/
  | start (command : Op) (now : ℤ)
  /-- `doHeartBeat`. -/
  | heartBeat
  /-- The next step of `batchSenderLoop`, with the clock readings for every peer. -/
  | batchSender (clock : Fin N → ℤ × ℤ)
  /-- The RPC of the `k`-th `sendAppendEntries` thread fails. -/
  | appendFails (k : ℕ)
  /-- The `k`-th `leaderSendSnapShot` thread builds and sends its request. -/
  | sendSnapShot (k : ℕ)
  /-- The RPC of the `k`-th waiting `leaderSendSnapShot` thread fails. -/
  | snapshotFails (k : ℕ)
  /-- The critical section of `applierTicker`. -/
  | apply
  /-- `applierTicker` pushes the next message to the `KvServer`. -/
  | push
  /-- The process ends and is started again. -/
  | crash

namespace Node

variable {N : ℕ}

/-- The process right after `init`. -/
def init (me : Fin N) : Node N where
  rf := Raft.init me (Persister.create none none)
  nextRpc := 0
  election := none
  calls := []
  snapshotThreads := []
  snapshotCalls := []
  counters := []
  applying := []

/-- The process ends, with all its threads, and is started again. -/
def restart (n : Node N) : Node N where
  rf := n.rf.restart
  nextRpc := n.nextRpc
  election := none
  calls := []
  snapshotThreads := []
  snapshotCalls := []
  counters := []
  applying := []

/-! ## Elections -/

def electionTimeout (n : Node N) : Node N :=
  if n.election.isSome ∨ n.rf.status = .Leader then n
  else
    let rf := n.rf.doElection
    { n with
      rf := rf
      election := some
        { args := ⟨rf.currentTerm, rf.me.val, rf.getLastLogIndex, rf.getLastLogTerm⟩
          votedNum := 1
          server := 0
          waiting := none } }

def requestVotes (n : Node N) : Node N × List (Packet N) :=
  match n.election with
  | none => (n, [])
  | some e =>
    if e.waiting.isSome then (n, [])
    else if h : e.server < N then
      if ⟨e.server, h⟩ = n.rf.me then ({ n with election := some { e with server := e.server + 1 } }, [])
      else
        let r : Rpc N RequestVoteArgs := ⟨n.nextRpc, n.rf.me, ⟨e.server, h⟩, e.args⟩
        ({ n with election := some { e with waiting := some r }, nextRpc := n.nextRpc + 1 },
          [.requestVote r])
    else ({ n with election := none }, [])

def requestVoteFails (n : Node N) : Node N :=
  match n.election with
  | none => n
  | some e =>
    if e.waiting.isSome then
      { n with election := some { e with waiting := none, server := e.server + 1 } }
    else n

/-! ## Replication -/

/-- The `nextIndex` of every peer after the clamp of `doHeartBeat`. -/
def clampNextIndex (rf : Raft N) : Raft N :=
  { rf with nextIndex := fun p => if p = rf.me then rf.nextIndex p else rf.heartBeatNextIndex p }

/-- The heartbeats of one round: to every peer whose `nextIndex` is past the snapshot. -/
def heartBeatRpcs (nextRpc : ℕ) (rf : Raft N) : List (Rpc N AppendEntriesArgs) :=
  let toAppend := (List.finRange N).filter fun p =>
    p ≠ rf.me ∧ ¬ rf.nextIndex p ≤ rf.lastSnapshotIncludeIndex
  toAppend.zipIdx.map fun x => ⟨nextRpc + x.2, rf.me, x.1, rf.heartBeatArgs x.1⟩

/-- `doHeartBeat` (lines 661–696): one counter for the round, one thread per peer. -/
def heartBeat (n : Node N) : Node N × List (Packet N) :=
  if n.rf.status ≠ .Leader then (n, [])
  else
    let rf := clampNextIndex n.rf
    let rpcs := heartBeatRpcs n.nextRpc rf
    let toSnapshot := (List.finRange N).filter fun p =>
      p ≠ rf.me ∧ rf.nextIndex p ≤ rf.lastSnapshotIncludeIndex
    ({ n with
        rf := rf
        nextRpc := n.nextRpc + rpcs.length
        calls := n.calls ++ rpcs.map fun r => ⟨r, n.counters.length⟩
        snapshotThreads := n.snapshotThreads ++ toSnapshot.map fun p =>
          ⟨p, rf.lastSnapshotIncludeIndex, rf.lastSnapshotIncludeTerm, rf.persister.snapshot,
            n.counters.length⟩
        counters := n.counters ++ [1] },
      rpcs.map .appendEntries)

def setSender (n : Node N) (pc : Option (BatchSender N)) : Node N :=
  { n with rf := { n.rf with batchSenderThread := pc } }

/-- `batchSenderLoop` (lines 1571–1665), one critical section or unlocked block at a time. -/
def batchSender (n : Node N) (clock : Fin N → ℤ × ℤ) : Node N × List (Packet N) :=
  match n.rf.batchSenderThread with
  | none => (n, [])
  | some .loopHead =>
    if n.rf.batchRunning && decide (n.rf.status = .Leader) then (n.setSender (some .collect), [])
    else (n.setSender none, [])
  | some .collect => ({ n with rf := n.rf.collectBatches clock }, [])
  | some (.send []) => (n.setSender (some .loopHead), [])
  | some (.send ((peerId, entries) :: toSend)) =>
    if entries.isEmpty || decide (n.rf.status ≠ .Leader) then
      (n.setSender (some (.send toSend)), [])
    else (n.setSender (some (.build peerId entries toSend)), [])
  | some (.build peerId entries toSend) =>
    let r : Rpc N AppendEntriesArgs := ⟨n.nextRpc, n.rf.me, peerId, n.rf.batchArgs entries⟩
    ({ n.setSender (some (.send toSend)) with
        nextRpc := n.nextRpc + 1
        calls := n.calls ++ [⟨r, n.counters.length⟩]
        counters := n.counters ++ [1] },
      [.appendEntries r])

/-- `leaderSendSnapShot` up to its RPC (lines 733–744). -/
def sendSnapShot (n : Node N) (k : ℕ) : Node N × List (Packet N) :=
  match n.snapshotThreads[k]? with
  | none => (n, [])
  | some t =>
    let r : Rpc N InstallSnapshotRequest :=
      ⟨n.nextRpc, n.rf.me, t.peerId,
        ⟨n.rf.me.val, n.rf.currentTerm, t.snapshotIndex, t.snapshotTerm, t.snapshotData⟩⟩
    ({ n with
        nextRpc := n.nextRpc + 1
        snapshotThreads := n.snapshotThreads.eraseIdx k
        snapshotCalls := n.snapshotCalls ++ [⟨r, t.successCount⟩] },
      [.installSnapshot r])

/-! ## Applying -/

def apply (n : Node N) : Node N :=
  if n.applying ≠ [] then n
  else
    match n.rf.applierTicker with
    | none => n.restart
    | some (rf, msgs) => { n with rf := rf, applying := msgs }

/-- The message the next `push` delivers. -/
def delivery (n : Node N) : Option ApplyMsg := n.applying.head?

/-! ## One step -/

def step (n : Node N) : Input N → Node N × List (Packet N)
  | .electionTimeout => (n.electionTimeout, [])
  | .requestVotes => n.requestVotes
  | .requestVoteFails => (n.requestVoteFails, [])
  | .start command now => ({ n with rf := (n.rf.start command now).1 }, [])
  | .heartBeat => n.heartBeat
  | .batchSender clock => n.batchSender clock
  | .appendFails k => ({ n with calls := n.calls.eraseIdx k }, [])
  | .sendSnapShot k => n.sendSnapShot k
  | .snapshotFails k => ({ n with snapshotCalls := n.snapshotCalls.eraseIdx k }, [])
  | .apply => (n.apply, [])
  | .push => ({ n with applying := n.applying.tail }, [])
  | .crash => (n.restart, [])

/-- A handler's result: the new object and the packets to send, or the end of the process. -/
def finish (n : Node N) (result : Option (Raft N × List (Packet N))) : Node N × List (Packet N) :=
  match result with
  | none => (n.restart, [])
  | some (rf, out) => ({ n with rf := rf }, out)

/-- A `RequestVote` reply, for the election loop that waits for it. -/
def receiveVote (n : Node N) (r : Rpc N RequestVoteArgs) (reply : RequestVoteReply) : Node N :=
  match n.election with
  | none => n
  | some e =>
    if e.waiting = some r then
      match n.rf.sendRequestVote reply e.votedNum with
      | none => n.restart
      | some (rf, votedNum) =>
        { n with
          rf := rf
          election := some
            { e with votedNum := votedNum, waiting := none, server := e.server + 1 } }
    else n

/-- An `AppendEntries` reply, for the thread that waits for it. -/
def receiveAppend (n : Node N) (r : Rpc N AppendEntriesArgs) (reply : AppendEntriesReply) :
    Node N :=
  match n.calls.find? (·.rpc = r) with
  | none => n
  | some call =>
    match n.rf.sendAppendEntries r.dst r.args reply (n.counters.getD call.appendNums 0) with
    | none => n.restart
    | some (rf, appendNums) =>
      { n with
        rf := rf
        calls := n.calls.eraseP (·.rpc = r)
        counters := n.counters.set call.appendNums appendNums }

/-- An `InstallSnapshot` reply, for the thread that waits for it. -/
def receiveSnapshot (n : Node N) (r : Rpc N InstallSnapshotRequest)
    (resp : InstallSnapshotResponse) : Node N :=
  match n.snapshotCalls.find? (·.rpc = r) with
  | none => n
  | some call =>
    let (rf, successCount) := n.rf.leaderSendSnapShot r.dst r.args.lastsnapshotincludeindex resp
      (n.counters.getD call.successCount 0)
    { n with
      rf := rf
      snapshotCalls := n.snapshotCalls.eraseP (·.rpc = r)
      counters := n.counters.set call.successCount successCount }

def receive (n : Node N) : Packet N → Node N × List (Packet N)
  | .requestVote r =>
    n.finish ((n.rf.requestVote1 r.args).map fun x => (x.1, [.requestVoteReply r x.2]))
  | .requestVoteReply r reply => (n.receiveVote r reply, [])
  | .appendEntries r =>
    n.finish ((n.rf.appendEntries1 r.args).map fun x => (x.1, [.appendEntriesReply r x.2]))
  | .appendEntriesReply r reply => (n.receiveAppend r reply, [])
  | .installSnapshot r =>
    let (rf, resp) := n.rf.installSnapshot1 r.args
    ({ n with rf := rf }, [.installSnapshotReply r resp])
  | .installSnapshotReply r resp => (n.receiveSnapshot r resp, [])

end Node

/-- The node a packet is delivered to. -/
def Packet.target {N : ℕ} : Packet N → Fin N
  | .requestVote r => r.dst
  | .requestVoteReply r _ => r.src
  | .appendEntries r => r.dst
  | .appendEntriesReply r _ => r.src
  | .installSnapshot r => r.dst
  | .installSnapshotReply r _ => r.src

/-- `N` processes and the messages under way. -/
structure Cluster (N : ℕ) where
  nodes : Fin N → Node N
  network : List (Packet N)

/-- The scheduler's choice: a node takes a step by itself, or the `k`-th message arrives. -/
inductive Action (N : ℕ) where
  | act (i : Fin N) (input : Input N)
  | deliver (k : ℕ)

namespace Action

variable {N : ℕ}

/-! Short names for the actions of the schedules in this development. -/

def timeout (i : Fin N) : Action N := .act i .electionTimeout
def ask (i : Fin N) : Action N := .act i .requestVotes
def voteLost (i : Fin N) : Action N := .act i .requestVoteFails
def put (i : Fin N) (requestId : ℤ) : Action N := .act i (.start ⟨[], [], [], [], requestId⟩ 0)
def flush (i : Fin N) : Action N := .act i (.batchSender fun _ => (10, 10))
def beat (i : Fin N) : Action N := .act i .heartBeat
def appendLost (i : Fin N) (k : ℕ) : Action N := .act i (.appendFails k)

/-- One round of `batchSenderLoop` on a leader of three nodes: both batches are sent. -/
def batchRound (i : Fin 3) : List (Action 3) := List.replicate 7 (flush i)

end Action

namespace Cluster

variable {N : ℕ}

/-- Every node started with empty files. -/
def init (N : ℕ) : Cluster N where
  nodes := Node.init
  network := []

/-- Node `i` has become `n'` and sent `out`; `rest` is the network without what it consumed. -/
def update (s : Cluster N) (i : Fin N) (result : Node N × List (Packet N))
    (rest : List (Packet N)) : Cluster N where
  nodes := Function.update s.nodes i result.1
  network := rest ++ result.2

def step (s : Cluster N) : Action N → Cluster N
  | .act i input => s.update i ((s.nodes i).step input) s.network
  | .deliver k =>
    match s.network[k]? with
    | none => s
    | some p => s.update p.target ((s.nodes p.target).receive p) (s.network.eraseIdx k)

/-- The runs of a cluster started with empty files, with every step meeting `ok`. -/
abbrev Runs (ok : Cluster N → Action N → Prop) : List (Cluster N × Action N) → Cluster N → Prop :=
  Run step ok (init N)

/-- The steps taken from the start under a list of actions, and the state they end in. -/
def trace (as : List (Action N)) : List (Cluster N × Action N) := history step (init N) as
def exec (as : List (Action N)) : Cluster N := as.foldl step (init N)

theorem runs_exec {ok : Cluster N → Action N → Prop} (as : List (Action N))
    (hok : ∀ x ∈ trace as, ok x.1 x.2) : Runs ok (trace as) (exec as) := run_history as hok

theorem mem_trace (as : List (Action N)) (a : Action N) (bs : List (Action N)) :
    (exec as, a) ∈ trace (as ++ a :: bs) := mem_history_append (init N) as a bs

end Cluster

end MyKvRaft
