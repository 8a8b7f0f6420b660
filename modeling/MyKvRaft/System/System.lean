import MyKvRaft.KvServer.Contents
import MyKvRaft.Safety.Asserts
import MyKvRaft.Safety.Effects

/-!
# The cluster and its servers

`main` (`ServerMain.cpp`) puts a `KvServer` on top of every `Raft` object: `Start`,
`GetState` and `GetCommitIndex` go down, `applyCh` goes up, and a process ends with both.
Requests of clients may arrive at any process, at any time and any number of times.

* `System.step`: one step of one thread of one process, or the delivery of a Raft message.
* `Cluster.ending`: the node whose process ends with a step.
-/

namespace MyKvRaft

variable {N : ℕ} {P : Libs}

/-! ## Where a process ends -/

/-- The node whose process ends with the step. -/
def Cluster.ending (s : Cluster N) (a : Action N) : Option (Fin N) :=
  match s.driven a with
  | none => none
  | some (i, x) => if (s.nodes i).ends x then some i else none

/-! ## The system -/

/-- `acknowledged` and `issued` are history variables: the writes a handler has replied OK to,
    and the reads that have been called, each with the writes acknowledged before its first
    call. -/
structure System (N : ℕ) (P : Libs) where
  cluster : Cluster N
  servers : Fin N → Server P
  acknowledged : List Op
  issued : List (GetArgs × List Op)

inductive SystemInput (N : ℕ) where
  /-- A step of the cluster; `Start` is left to the handlers. -/
  | raft (a : Action N)
  /-- A request arrives at process `i`. -/
  | call (i : Fin N) (request : Request)
  /-- The next step of the `k`-th handler of process `i`. -/
  | handler (i : Fin N) (k : ℕ) (now : ℤ)
  /-- `timeOutPop` of that handler gives up. -/
  | timeOut (i : Fin N) (k : ℕ)
  /-- The next step of the apply thread of process `i`. -/
  | apply (i : Fin N) (uninit : ℤ)
  /-- A `Search` at process `i`. -/
  | search (i : Fin N)

namespace System

def init (N : ℕ) (P : Libs) : System N P := ⟨Cluster.init N, fun _ => Server.create P, [], []⟩

variable (s : System N P)

/-- A step of the server of process `i`, which may end the process. -/
def stepServer (i : Fin N) (x : ServerInput) : System N P :=
  { s with
    cluster := if (s.servers i).ends x then s.cluster.step (.act i .crash) else s.cluster
    servers := Function.update s.servers i ((s.servers i).step x) }

/-- A step of the cluster, in which no message is pushed to `applyCh`. -/
def stepCluster (a : Action N) : System N P :=
  { s with
    cluster := s.cluster.step a
    servers :=
      match s.cluster.ending a with
      | none => s.servers
      | some i => Function.update s.servers i (Server.create P) }

/-- `pushMsgToKVserver` of process `i`. -/
def push (i : Fin N) : System N P :=
  match (s.cluster.nodes i).delivery with
  | none => s
  | some msg =>
    { s with
      cluster := s.cluster.step (.act i .push)
      servers := Function.update s.servers i ((s.servers i).step (.push msg)) }

def raft (a : Action N) : System N P :=
  match a with
  | .act _ (.start _ _) => s
  | .act i .push => s.push i
  | a => s.stepCluster a

def call (i : Fin N) (request : Request) : System N P :=
  { s.stepServer i (.call request) with
    issued :=
      match request with
      | .get args =>
        if args ∈ s.issued.map Prod.fst then s.issued else (args, s.acknowledged) :: s.issued
      | .write _ => s.issued }

/-- A step of a handler; a write calls `Start`, and a read asks `GetState` and
    `GetCommitIndex`. -/
def stepHandler (i : Fin N) (k : ℕ) (now : ℤ) : System N P :=
  let rf := (s.cluster.nodes i).rf
  match (s.servers i).handlers[k]? with
  | some (.write request .start) =>
    { s with
      cluster := s.cluster.step (.act i (.start request.op now))
      servers := Function.update s.servers i ((s.servers i).step
        (.handler k ⟨(rf.start request.op now).2.2, (rf.start request.op now).2.1⟩)) }
  | _ => s.stepServer i (.handler k ⟨decide (rf.status = .Leader), rf.commitIndex⟩)

/-- What the handlers of process `i` have replied is acknowledged. -/
def acknowledge (i : Fin N) : System N P :=
  { s with acknowledged := (s.servers i).acknowledged ++ s.acknowledged }

def step (s : System N P) : SystemInput N → System N P
  | .raft a => s.raft a
  | .call i request => s.call i request
  | .handler i k now => (s.stepHandler i k now).acknowledge i
  | .timeOut i k => s.stepServer i (.timeOut k)
  | .apply i uninit => s.stepServer i (.apply uninit)
  | .search i => s.stepServer i .search

end System

end MyKvRaft
