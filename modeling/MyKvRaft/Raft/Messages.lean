import MyKvRaft.KvServer.OpCoder

/-!
# Messages between Raft nodes

The messages of `Proto/raftRPC.proto`, `struct ApplyMsg` (`Raft/ApplyMsg.h`) and
the constants of `Raft/raft.h` lines 29–36. C++ `int`s are `ℤ`. The fields
`BatchId` and `MatchIndex` are written but read by no function, and are left
out. The snapshot fields of `ApplyMsg` are reserved: no function sets or reads them.

A `Packet` is one message under way: a request, or a reply together with the
request it answers (the RPC layer hands a reply to the call that sent the
request).
-/

namespace MyKvRaft

/-- `message LogEntry`. -/
structure LogEntry where
  command : Bytes
  logterm : ℤ
  logindex : ℤ
deriving DecidableEq

/-- `message AppendEntriesArgs`. -/
structure AppendEntriesArgs where
  term : ℤ
  leaderid : ℤ
  prevlogindex : ℤ
  prevlogterm : ℤ
  entries : List LogEntry
  leadercommit : ℤ
deriving DecidableEq

/-- `message AppendEntriesReply`; a field the handler does not set has the
    protobuf default. -/
structure AppendEntriesReply where
  term : ℤ := 0
  success : Bool := false
  updatenextindex : ℤ := 0
  appstate : ℤ := 0
deriving DecidableEq

/-- `message RequestVoteArgs`. -/
structure RequestVoteArgs where
  term : ℤ
  candidateid : ℤ
  lastlogindex : ℤ
  lastlogterm : ℤ
deriving DecidableEq

/-- `message RequestVoteReply`. -/
structure RequestVoteReply where
  term : ℤ
  votegranted : Bool
  votestate : ℤ
deriving DecidableEq

/-- `message InstallSnapshotRequest`. -/
structure InstallSnapshotRequest where
  leaderid : ℤ
  term : ℤ
  lastsnapshotincludeindex : ℤ
  lastsnapshotincludeterm : ℤ
  snapshotdata : Bytes
deriving DecidableEq

/-- `message InstallSnapshotResponse`. -/
structure InstallSnapshotResponse where
  term : ℤ
deriving DecidableEq

/-- `struct ApplyMsg` (`ApplyMsg.h` lines 4–14). -/
structure ApplyMsg where
  CommandValid : Bool := false
  index : ℤ := 0
  command : Bytes := []
  SnapshotValid : Bool := false
  lastIncludedIndex : ℤ := 0
  lastIncludedTerm : ℤ := 0
  snapshot : Bytes := []
deriving DecidableEq

/-- The message `applierTicker` makes for an entry (`Raft.cpp` lines 1712–1718). -/
def ApplyMsg.ofCommand (index : ℤ) (command : Bytes) : ApplyMsg where
  CommandValid := true
  index := index
  command := command

@[simp] theorem ApplyMsg.ofCommand_index (index : ℤ) (command : Bytes) :
    (ofCommand index command).index = index := rfl

@[simp] theorem ApplyMsg.ofCommand_command (index : ℤ) (command : Bytes) :
    (ofCommand index command).command = command := rfl

/-- `AppState` values (`raft.h` lines 29–30). -/
def Disconnected : ℤ := 0
def AppNormal : ℤ := 1

/-- `VoteState` values (`raft.h` lines 34–36). -/
def Vted : ℤ := 1
def Expire : ℤ := 2
def Normal : ℤ := 3

/-- One RPC: the caller's number for it, the two ends and the request. -/
structure Rpc (N : ℕ) (α : Type) where
  id : ℕ
  src : Fin N
  dst : Fin N
  args : α
deriving DecidableEq

/-- A message on the network. -/
inductive Packet (N : ℕ) where
  | requestVote (r : Rpc N RequestVoteArgs)
  | requestVoteReply (r : Rpc N RequestVoteArgs) (reply : RequestVoteReply)
  | appendEntries (r : Rpc N AppendEntriesArgs)
  | appendEntriesReply (r : Rpc N AppendEntriesArgs) (reply : AppendEntriesReply)
  | installSnapshot (r : Rpc N InstallSnapshotRequest)
  | installSnapshotReply (r : Rpc N InstallSnapshotRequest) (resp : InstallSnapshotResponse)
deriving DecidableEq

end MyKvRaft
