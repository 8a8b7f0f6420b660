import MyKvRaft.Raft.Messages

/-!
# The persister

`class Persister` (`Raft/raft.h` lines 38–256): the in-memory copies, the slots
of data waiting for the background thread, and the two files. The text archive
is taken to be lossless, so the raft-state file holds a `PersistRaftNode` itself;
an absent or empty file is `none`.

`WorkLoop` is one iteration of the background thread with both `WriteFileAtomic`
calls succeeding. A caller holds the node's lock from its `Save` or
`SaveRaftState` until `WaitFlushed` returns, so the thread is idle when data is
handed over, and the caller goes on when one iteration has run.

* `persistRaftState_file`, `persistAll_file`: after either call has waited for its
  flush, the raft-state file holds the data of that call.
-/

namespace MyKvRaft

/-- `struct BoostPersistLogEntry` (`Raft.cpp` lines 1150–1158). -/
structure PersistLogEntry where
  term : ℤ
  command : Bytes
deriving DecidableEq

/-- `struct BoostPersistRaftNode` (`Raft.cpp` lines 1161–1176). -/
structure PersistRaftNode where
  currentTerm : ℤ
  votedFor : ℤ
  lastSnapshotIncludeIndex : ℤ
  lastSnapshotIncludeTerm : ℤ
  logs : List PersistLogEntry
deriving DecidableEq

/-- `class Persister`: `m_raftState`, `m_snapshot`, the pending slots with their
    flags, the sequence numbers, and the files `m_raftPath` and `m_snapshotPath`. Only
    `Save` and `SaveRaftState` hand out sequence numbers, so none is flushed before it is
    handed out (`flushed_le`). -/
structure Persister where
  raftState : Option PersistRaftNode
  snapshot : Bytes
  pendingRaftState : Option PersistRaftNode
  pendingSnapshot : Bytes
  hasPendingRaft : Bool
  hasPendingSnapshot : Bool
  nextSeq : ℕ
  flushedSeq : ℕ
  pendingSeq : ℕ
  raftFile : Option PersistRaftNode
  snapshotFile : Option Bytes
  flushed_le : flushedSeq ≤ nextSeq
  pending_le : pendingSeq ≤ nextSeq
deriving DecidableEq

namespace Persister

/-- The constructor (lines 168–179): load both files, start with empty slots. -/
def create (raftFile : Option PersistRaftNode) (snapshotFile : Option Bytes) : Persister where
  raftState := raftFile
  snapshot := snapshotFile.getD []
  pendingRaftState := none
  pendingSnapshot := []
  hasPendingRaft := false
  hasPendingSnapshot := false
  nextSeq := 0
  flushedSeq := 0
  pendingSeq := 0
  raftFile := raftFile
  snapshotFile := snapshotFile
  flushed_le := le_rfl
  pending_le := le_rfl

/-- `Save` (lines 191–216). Returns the sequence number of the call. -/
def save (p : Persister) (raftstate : PersistRaftNode) (snapshot : Bytes) : Persister × ℕ :=
  ({ p with
      raftState := some raftstate
      snapshot := snapshot
      pendingRaftState := some raftstate
      pendingSnapshot := snapshot
      hasPendingRaft := true
      hasPendingSnapshot := true
      nextSeq := p.nextSeq + 1
      pendingSeq := p.nextSeq + 1
      flushed_le := Nat.le_succ_of_le p.flushed_le
      pending_le := le_rfl }, p.nextSeq + 1)

/-- `SaveRaftState` (lines 218–236). -/
def saveRaftState (p : Persister) (data : PersistRaftNode) : Persister × ℕ :=
  ({ p with
      raftState := some data
      pendingRaftState := some data
      hasPendingRaft := true
      nextSeq := p.nextSeq + 1
      pendingSeq := p.nextSeq + 1
      flushed_le := Nat.le_succ_of_le p.flushed_le
      pending_le := le_rfl }, p.nextSeq + 1)

/-- One iteration of `WorkLoop` (lines 114–166): take the pending data, write the
    snapshot file and then the raft-state file, publish the sequence number. -/
def workLoop (p : Persister) : Persister :=
  let writeSnap := p.hasPendingSnapshot
  let writeState := p.hasPendingRaft
  let seqToWrite := if writeSnap || writeState then p.pendingSeq else 0
  { p with
    hasPendingSnapshot := false
    hasPendingRaft := false
    snapshotFile := if writeSnap then some p.pendingSnapshot else p.snapshotFile
    raftFile := if writeState then p.pendingRaftState else p.raftFile
    flushedSeq := if seqToWrite > p.flushedSeq then seqToWrite else p.flushedSeq
    flushed_le := by
      have hseq : seqToWrite ≤ p.nextSeq := by
        show (if _ then p.pendingSeq else 0) ≤ p.nextSeq
        split_ifs
        exacts [p.pending_le, Nat.zero_le _]
      have hflushed := p.flushed_le
      split_ifs <;> omega }

/-- `WaitFlushed` (lines 237–242): the background thread runs until the call's data
    is out. -/
def waitFlushed (p : Persister) (seq : ℕ) : Persister :=
  if seq ≤ p.flushedSeq then p else p.workLoop

/-- The sequence number a call has just been given is not flushed yet. -/
theorem not_flushed (p : Persister) : ¬ p.nextSeq + 1 ≤ p.flushedSeq := by
  have := p.flushed_le
  omega

/-- `SaveRaftState` followed by `WaitFlushed`: the file holds the call's data. -/
theorem persistRaftState_file (p : Persister) (data : PersistRaftNode) :
    ((p.saveRaftState data).1.waitFlushed (p.saveRaftState data).2).raftFile = some data := by
  simp only [saveRaftState, waitFlushed, p.not_flushed, if_false, workLoop, if_true]

/-- `Save` followed by `WaitFlushed`. -/
theorem persistAll_file (p : Persister) (data : PersistRaftNode) (sn : Bytes) :
    ((p.save data sn).1.waitFlushed (p.save data sn).2).raftFile = some data := by
  simp only [save, waitFlushed, p.not_flushed, if_false, workLoop, if_true]

end Persister

end MyKvRaft
