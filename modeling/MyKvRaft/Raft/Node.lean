import MyKvRaft.Raft.Persister

/-!
# The `Raft` object

The members of `class Raft` (`Raft/raft.h` lines 383–605, without the `m_` prefix)
and its member functions that touch nothing but them (`Raft/Raft.cpp`). Every
function here runs inside one critical section of `m_mtx`.

A `std::vector` with one element per peer is a function of the peer. A function
that calls `myAssert` returns `none` where the assertion fails: `std::terminate`
ends the process, without running destructors. Reading `m_logs` out of range is
`none` as well.

Left out: the timers, and the pipeline members, whose threads are never started.
-/

namespace MyKvRaft

/-- `enum Status`. -/
inductive Status where
  | Follower
  | Candidate
  | Leader
deriving DecidableEq

/-- `struct PendingEntries` (`raft.h` lines 429–433). -/
structure PendingEntries where
  entries : List LogEntry
  firstEntryTimeMs : ℤ
deriving DecidableEq

/-- Where a running `batchSenderLoop` is: at the loop head, past the leadership check, at the
    leadership check for the first batch of `toSend`, or past that check and about to build
    the request for `peer` outside the lock. -/
inductive BatchSender (N : ℕ) where
  | loopHead
  | collect
  | send (toSend : List (Fin N × List LogEntry))
  | build (peer : Fin N) (entries : List LogEntry) (toSend : List (Fin N × List LogEntry))

/-- `class Raft`. `batchSenderThread` is `none` before the thread starts and after it exits. -/
structure Raft (N : ℕ) where
  me : Fin N
  currentTerm : ℤ
  votedFor : ℤ
  logs : List LogEntry
  commitIndex : ℤ
  lastApplied : ℤ
  nextIndex : Fin N → ℤ
  matchIndex : Fin N → ℤ
  status : Status
  lastSnapshotIncludeIndex : ℤ
  lastSnapshotIncludeTerm : ℤ
  pendingEntries : Fin N → PendingEntries
  batchRunning : Bool
  batchSenderThread : Option (BatchSender N)
  persister : Persister

/-- `myAssert` (`Raft.cpp` lines 50–55). -/
def myAssert {α : Type} (cond : Prop) [Decidable cond] (rest : Option α) : Option α :=
  if cond then rest else none

/-- `m_peers.size() / 2 + 1`. -/
def majority (N : ℕ) : ℤ := (N / 2 + 1 : ℕ)

/-- `m_logs[sliceIdx]`. -/
def slot (logs : List LogEntry) (sliceIdx : ℤ) : Option LogEntry :=
  if 0 ≤ sliceIdx then logs[sliceIdx.toNat]? else none

namespace Raft

variable {N : ℕ}

/-! ## Log addressing (lines 77–167) -/

def getSlicesIndexFromLogIndex (rf : Raft N) (logIndex : ℤ) : ℤ :=
  if logIndex ≤ rf.lastSnapshotIncludeIndex then -1
  else logIndex - rf.lastSnapshotIncludeIndex - 1

def getLogTermFromLogIndex (rf : Raft N) (logIndex : ℤ) : ℤ :=
  if logIndex = rf.lastSnapshotIncludeIndex then rf.lastSnapshotIncludeTerm
  else if logIndex < rf.lastSnapshotIncludeIndex then -1
  else
    match slot rf.logs (rf.getSlicesIndexFromLogIndex logIndex) with
    | none => -1
    | some entry => entry.logterm

def getLastLogIndex (rf : Raft N) : ℤ := rf.lastSnapshotIncludeIndex + rf.logs.length

def getLastLogTerm (rf : Raft N) : ℤ :=
  match rf.logs.getLast? with
  | none => rf.lastSnapshotIncludeTerm
  | some entry => entry.logterm

/-- `UPtodata` (lines 130–139). -/
def uptodata (rf : Raft N) (index term : ℤ) : Bool :=
  if term ≠ rf.getLastLogTerm then decide (term > rf.getLastLogTerm)
  else decide (index ≥ rf.getLastLogIndex)

def matchLog (rf : Raft N) (logIndex logTerm : ℤ) : Bool :=
  if logIndex = rf.lastSnapshotIncludeIndex then decide (logTerm = rf.lastSnapshotIncludeTerm)
  else if logIndex < rf.lastSnapshotIncludeIndex ∨ logIndex > rf.getLastLogIndex then false
  else
    match slot rf.logs (rf.getSlicesIndexFromLogIndex logIndex) with
    | none => false
    | some entry => decide (entry.logterm = logTerm)

/-! ## Persistence (lines 1178–1228) -/

def persistDate (rf : Raft N) : PersistRaftNode where
  currentTerm := rf.currentTerm
  votedFor := rf.votedFor
  lastSnapshotIncludeIndex := rf.lastSnapshotIncludeIndex
  lastSnapshotIncludeTerm := rf.lastSnapshotIncludeTerm
  logs := rf.logs.map fun log => ⟨log.logterm, log.command⟩

/-- The entries `readPersist` rebuilds: numbered by position after `index`. -/
def restoreLogs : ℤ → List PersistLogEntry → List LogEntry
  | _, [] => []
  | index, plog :: rest => ⟨plog.command, plog.term, index + 1⟩ :: restoreLogs (index + 1) rest

/-- `readPersist`; `none` is the empty string. -/
def readPersist (rf : Raft N) (data : Option PersistRaftNode) : Raft N :=
  match data with
  | none => rf
  | some d =>
    { rf with
      currentTerm := d.currentTerm
      votedFor := d.votedFor
      lastSnapshotIncludeIndex := d.lastSnapshotIncludeIndex
      lastSnapshotIncludeTerm := d.lastSnapshotIncludeTerm
      logs := restoreLogs d.lastSnapshotIncludeIndex d.logs }

def persist (rf : Raft N) : Raft N :=
  let (p, seq) := rf.persister.saveRaftState rf.persistDate
  { rf with persister := p.waitFlushed seq }

/-- `init` (lines 201–261) on a fresh object, with the given persister. -/
def init (me : Fin N) (persister : Persister) : Raft N :=
  let fresh : Raft N :=
    { me := me
      currentTerm := 0
      votedFor := -1
      logs := []
      commitIndex := 0
      lastApplied := 0
      nextIndex := fun _ => 0
      matchIndex := fun _ => 0
      status := .Follower
      lastSnapshotIncludeIndex := 0
      lastSnapshotIncludeTerm := 0
      pendingEntries := fun _ => ⟨[], 0⟩
      batchRunning := false
      batchSenderThread := none
      persister := persister }
  let rf := fresh.readPersist persister.raftState
  if rf.lastSnapshotIncludeIndex > 0 then
    { rf with lastApplied := rf.lastSnapshotIncludeIndex }
  else rf

/-- The process ends and starts again: a new `Persister` reads the files, and `init` runs. -/
def restart (rf : Raft N) : Raft N :=
  init rf.me (Persister.create rf.persister.raftFile rf.persister.snapshotFile)

/-! ## Elections (lines 373–583) -/

/-- The three assignments made wherever a greater term is seen. -/
def stepDown (rf : Raft N) (term : ℤ) : Raft N :=
  { rf with status := .Follower, currentTerm := term, votedFor := -1 }

/-- The term check of `RequestVote1` and `AppendEntries1` (lines 539–544, 1070–1074). -/
def seeTerm (rf : Raft N) (term : ℤ) : Raft N :=
  if term > rf.currentTerm then rf.stepDown term else rf

/-- The critical section of `doElection` (lines 382–417), for a node that is not leader. -/
def doElection (rf : Raft N) : Raft N :=
  persist { rf with status := .Candidate, currentTerm := rf.currentTerm + 1, votedFor := rf.me }

/-- `startBatchSenderThread` (lines 1555–1562). -/
def startBatchSenderThread (rf : Raft N) : Raft N :=
  if rf.batchRunning then rf
  else { rf with batchRunning := true, batchSenderThread := some .loopHead }

/-- The winning branch of `sendRequestVote` (lines 484–506). -/
def becomeLeader (rf : Raft N) : Raft N :=
  let lastLogIndex := rf.getLastLogIndex
  startBatchSenderThread <| persist
    { rf with
      status := .Leader
      nextIndex := fun _ => lastLogIndex + 1
      matchIndex := fun _ => 0 }

/-- `sendRequestVote` after the RPC has returned (lines 459–515): the new state and the new
    `*voteNum`. -/
def sendRequestVote (rf : Raft N) (reply : RequestVoteReply) (voteNum : ℤ) :
    Option (Raft N × ℤ) :=
  if reply.term > rf.currentTerm then some (persist (rf.stepDown reply.term), voteNum)
  else if reply.term < rf.currentTerm then some (rf, voteNum)
  else
    myAssert (reply.term = rf.currentTerm) <|
    if !reply.votegranted then some (rf, voteNum)
    else
      let voteNum := voteNum + 1
      if voteNum ≥ majority N then
        -- `*voteNum = 0`, and a second win in one term trips the assertion
        myAssert (rf.status ≠ .Leader) <| some (rf.becomeLeader, 0)
      else some (rf, voteNum)

/-- `RequestVote1` (lines 520–583); `DeferPersist` saves on every return. -/
def requestVote1 (rf : Raft N) (args : RequestVoteArgs) : Option (Raft N × RequestVoteReply) :=
  if args.term < rf.currentTerm then some (rf.persist, ⟨rf.currentTerm, false, Expire⟩)
  else
    let rf := rf.seeTerm args.term
    myAssert (args.term = rf.currentTerm) <|
    if !rf.uptodata args.lastlogindex args.lastlogterm then
      some (rf.persist, ⟨rf.currentTerm, false, Vted⟩)
    else if rf.votedFor ≠ -1 ∧ rf.votedFor ≠ args.candidateid then
      some (rf.persist, ⟨rf.currentTerm, false, Vted⟩)
    else
      let rf := { rf with votedFor := args.candidateid }
      some (rf.persist, ⟨rf.currentTerm, true, Normal⟩)

/-! ## Following a leader (lines 1007–1149) -/

/-- One iteration of the entry loop of `AppendEntries1` (lines 1099–1118). -/
def appendEntry (rf : Raft N) (log : LogEntry) : Option (Raft N) :=
  if log.logindex > rf.getLastLogIndex then some { rf with logs := rf.logs ++ [log] }
  else
    let sliceIdx := rf.getSlicesIndexFromLogIndex log.logindex
    match slot rf.logs sliceIdx with
    | none => none
    | some entry =>
      myAssert (¬ (entry.logterm = log.logterm ∧ entry.command ≠ log.command)) <|
      if entry.logterm ≠ log.logterm then some { rf with logs := rf.logs.set sliceIdx.toNat log }
      else some rf

/-- The backward search for `updatenextindex` (lines 1138–1145). -/
def mismatchHint (rf : Raft N) (prevlogindex : ℤ) : ℤ :=
  let indices := (List.range (prevlogindex - rf.lastSnapshotIncludeIndex + 1).toNat).map
    fun k : ℕ => prevlogindex - k
  match indices.find? fun index =>
    rf.getLogTermFromLogIndex index ≠ rf.getLogTermFromLogIndex prevlogindex with
  | some index => index + 1
  | none => prevlogindex

/-- The commit index a follower moves to (lines 1125–1127). -/
def followerCommit (commitIndex leadercommit lastLogIndex : ℤ) : ℤ :=
  if leadercommit > commitIndex then min leadercommit lastLogIndex else commitIndex

/-- The matching branch of `AppendEntries1` (lines 1097–1135) up to `persist`. -/
def acceptEntries (rf : Raft N) (args : AppendEntriesArgs) :
    Option (Raft N × AppendEntriesReply) :=
  match args.entries.foldlM appendEntry rf with
  | none => none
  | some rf =>
    myAssert (rf.getLastLogIndex ≥ args.prevlogindex + args.entries.length) <|
    let rf := { rf with
      commitIndex := followerCommit rf.commitIndex args.leadercommit rf.getLastLogIndex }
    myAssert (rf.getLastLogIndex ≥ rf.commitIndex) <|
    some (rf.persist, { appstate := AppNormal, success := true, term := rf.currentTerm })

/-- `AppendEntries1` (lines 1049–1149); `PersistGuard` saves on every return after the term
    check. -/
def appendEntries1 (rf : Raft N) (args : AppendEntriesArgs) :
    Option (Raft N × AppendEntriesReply) :=
  if args.term < rf.currentTerm then
    some (rf, ⟨rf.currentTerm, false, -100, AppNormal⟩)
  else
    let rf := rf.seeTerm args.term
    myAssert (args.term = rf.currentTerm) <|
    let rf := { rf with status := .Follower }
    if args.prevlogindex > rf.getLastLogIndex then
      some (rf.persist, ⟨rf.currentTerm, false, rf.getLastLogIndex + 1, AppNormal⟩)
    else if args.prevlogindex < rf.lastSnapshotIncludeIndex then
      some (rf.persist, ⟨rf.currentTerm, false, rf.lastSnapshotIncludeIndex + 1, AppNormal⟩)
    else if rf.matchLog args.prevlogindex args.prevlogterm then rf.acceptEntries args
    else some (rf.persist, ⟨rf.currentTerm, false, rf.mismatchHint args.prevlogindex, AppNormal⟩)

/-- `InstallSnapshot1` (lines 1007–1047). -/
def installSnapshot1 (rf : Raft N) (request : InstallSnapshotRequest) :
    Raft N × InstallSnapshotResponse :=
  if request.term < rf.currentTerm then (rf, ⟨rf.currentTerm⟩)
  else
    let rf := if request.term > rf.currentTerm then persist (rf.stepDown request.term) else rf
    let snapIndex := request.lastsnapshotincludeindex
    let rf :=
      if snapIndex > rf.lastSnapshotIncludeIndex then
        { rf with
          lastSnapshotIncludeIndex := snapIndex
          lastSnapshotIncludeTerm := request.lastsnapshotincludeterm
          commitIndex := max rf.commitIndex snapIndex
          lastApplied := max rf.lastApplied snapIndex }
      else rf
    let (p, seq) := rf.persister.save rf.persistDate request.snapshotdata
    ({ rf with persister := p.waitFlushed seq }, ⟨rf.currentTerm⟩)

/-! ## Leading (lines 174–193, 661–763, 845–1003) -/

/-- `leaderUpdateCommitIndex` (lines 174–193): the greatest index above `commitIndex` that a
    majority matches is committed if it is of the current term. -/
def leaderUpdateCommitIndex (rf : Raft N) : Raft N :=
  let indices := (List.range (rf.getLastLogIndex - rf.commitIndex).toNat).map
    fun k : ℕ => rf.getLastLogIndex - k
  let count (i : ℤ) : ℤ :=
    1 + ((List.finRange N).filter fun p => p ≠ rf.me ∧ rf.matchIndex p ≥ i).length
  match indices.find? fun i => count i ≥ majority N with
  | some i =>
    if rf.getLogTermFromLogIndex i = rf.currentTerm then { rf with commitIndex := i } else rf
  | none => rf

/-- The clamp of `doHeartBeat` (lines 680–684). -/
def heartBeatNextIndex (rf : Raft N) (peerId : Fin N) : ℤ :=
  if rf.nextIndex peerId < 1 then 1 else rf.nextIndex peerId

/-- The request of `startLogEntriesSendThread` (lines 714–723). -/
def heartBeatArgs (rf : Raft N) (peerId : Fin N) : AppendEntriesArgs where
  term := rf.currentTerm
  leaderid := rf.me.val
  prevlogindex := rf.nextIndex peerId - 1
  prevlogterm := rf.getLogTermFromLogIndex (rf.nextIndex peerId - 1)
  entries := []
  leadercommit := rf.commitIndex

/-- `handleTermMismatch` (lines 907–926): the new state and whether to stop. -/
def handleTermMismatch (rf : Raft N) (replyTerm : ℤ) : Raft N × Bool :=
  if replyTerm > rf.currentTerm then (persist (rf.stepDown replyTerm), true)
  else (rf, decide (replyTerm < rf.currentTerm))

/-- `handleLogMismatch` (lines 937–953). -/
def handleLogMismatch (rf : Raft N) (peerId : Fin N) (reply : AppendEntriesReply) : Raft N :=
  if reply.updatenextindex = -100 then rf
  else
    let nextIdx := if reply.updatenextindex < 1 then 1 else reply.updatenextindex
    let nextIdx :=
      if nextIdx ≤ rf.lastSnapshotIncludeIndex then rf.lastSnapshotIncludeIndex + 1 else nextIdx
    { rf with nextIndex := Function.update rf.nextIndex peerId nextIdx }

/-- `updatePeerSyncState` (lines 956–979): the new state and the new `*appendNums`. -/
def updatePeerSyncState (rf : Raft N) (peerId : Fin N) (args : AppendEntriesArgs)
    (appendNums : ℤ) : Option (Raft N × ℤ) :=
  let newMatchIndex := max (rf.matchIndex peerId) (args.prevlogindex + args.entries.length)
  let rf := { rf with
    matchIndex := Function.update rf.matchIndex peerId newMatchIndex
    nextIndex := Function.update rf.nextIndex peerId (newMatchIndex + 1) }
  myAssert (newMatchIndex ≤ rf.getLastLogIndex + 1) <| some (rf, appendNums + 1)

/-- `tryUpdateCommitIndex` (lines 982–1003). -/
def tryUpdateCommitIndex (rf : Raft N) (args : AppendEntriesArgs) (appendNums : ℤ) :
    Option (Raft N × ℤ) :=
  if appendNums < majority N then some (rf, appendNums)
  else
    let rf :=
      match args.entries.getLast? with
      | none => rf
      | some entry =>
        if entry.logterm = rf.currentTerm then
          { rf with commitIndex := max rf.commitIndex (args.prevlogindex + args.entries.length) }
        else rf
    myAssert (rf.commitIndex ≤ rf.getLastLogIndex) <| some (rf, 0)

/-- `sendAppendEntries` after the RPC has returned (lines 845–882): the new state and the new
    `*appendNums`. -/
def sendAppendEntries (rf : Raft N) (peerId : Fin N) (args : AppendEntriesArgs)
    (reply : AppendEntriesReply) (appendNums : ℤ) : Option (Raft N × ℤ) :=
  if reply.appstate = Disconnected then some (rf, appendNums)
  else
    let (rf, stop) := rf.handleTermMismatch reply.term
    if stop then some (rf, appendNums)
    else if rf.status ≠ .Leader then some (rf, appendNums)
    else
      myAssert (reply.term = rf.currentTerm) <|
      if !reply.success then some (rf.handleLogMismatch peerId reply, appendNums)
      else
        match rf.updatePeerSyncState peerId args appendNums with
        | none => none
        | some (rf, appendNums) => rf.tryUpdateCommitIndex args appendNums

/-- `leaderSendSnapShot` after the RPC has returned (lines 746–762). -/
def leaderSendSnapShot (rf : Raft N) (peerId : Fin N) (snapshotIndex : ℤ)
    (resp : InstallSnapshotResponse) (successCount : ℤ) : Raft N × ℤ :=
  if resp.term > rf.currentTerm then (persist (rf.stepDown resp.term), successCount)
  else
    let rf := { rf with
      nextIndex := Function.update rf.nextIndex peerId (snapshotIndex + 1)
      matchIndex := Function.update rf.matchIndex peerId snapshotIndex }
    (rf.leaderUpdateCommitIndex, successCount + 1)

/-! ## Client commands and batching (lines 1499–1665) -/

/-- `addToPendingBatch` (lines 1538–1552). -/
def addToPendingBatch (rf : Raft N) (entry : LogEntry) (now : ℤ) : Raft N :=
  { rf with
    pendingEntries := fun i =>
      let pending := rf.pendingEntries i
      if i = rf.me then pending
      else
        { entries := pending.entries ++ [entry]
          firstEntryTimeMs := if pending.entries.isEmpty then now else pending.firstEntryTimeMs } }

/-- The entry `Start` builds for a command. -/
def newEntry (rf : Raft N) (command : Op) : LogEntry :=
  ⟨encodeOp command, rf.currentTerm, rf.getLastLogIndex + 1⟩

/-- `Start` (lines 1499–1533): the new state, `*newLogIndex` and `*isLeader`. -/
def start (rf : Raft N) (command : Op) (now : ℤ) : Raft N × ℤ × Bool :=
  if rf.status ≠ .Leader then (rf, -1, false)
  else
    let entry := rf.newEntry command
    let rf := { rf with logs := rf.logs ++ [entry] }
    (rf.persist.addToPendingBatch entry now, entry.logindex, true)

/-- The flush condition of `batchSenderLoop` (lines 1601–1615), with the two clock readings. -/
def shouldFlush (pending : PendingEntries) (now now' : ℤ) : Bool :=
  decide (pending.entries.length ≥ 8) || decide (now - pending.firstEntryTimeMs ≥ 5) ||
    (decide (pending.entries.length ≥ 1) && decide (now' - pending.firstEntryTimeMs ≥ 2))

/-- The peers whose batch is taken in one iteration of `batchSenderLoop` (lines 1592–1623). -/
def flushPeers (rf : Raft N) (clock : Fin N → ℤ × ℤ) : List (Fin N) :=
  (List.finRange N).filter fun i =>
    i ≠ rf.me ∧ (rf.pendingEntries i).entries ≠ [] ∧
      shouldFlush (rf.pendingEntries i) (clock i).1 (clock i).2

/-- Taking the batches: they move from `m_pendingEntries` to the local `toSend`. -/
def collectBatches (rf : Raft N) (clock : Fin N → ℤ × ℤ) : Raft N :=
  let peers := rf.flushPeers clock
  { rf with
    batchSenderThread := some (.send (peers.map fun i => (i, (rf.pendingEntries i).entries)))
    pendingEntries := fun i =>
      if i ∈ peers then { rf.pendingEntries i with entries := [] } else rf.pendingEntries i }

/-- The request built for a batch (lines 1637–1652), outside the lock. -/
def batchArgs (rf : Raft N) (entries : List LogEntry) : AppendEntriesArgs :=
  let prevLogIndex := (entries.head?.map (·.logindex)).getD 0 - 1
  { term := rf.currentTerm
    leaderid := rf.me.val
    prevlogindex := prevLogIndex
    prevlogterm := rf.getLogTermFromLogIndex prevLogIndex
    entries := entries
    leadercommit := rf.commitIndex }

/-! ## Applying (lines 1703–1729) -/

/-- The critical section of `applierTicker`: the messages for
    `m_lastApplied + 1 .. m_commitIndex`; `none` if an index has no entry. -/
def applierTicker (rf : Raft N) : Option (Raft N × List ApplyMsg) :=
  let indices := (List.range (rf.commitIndex - rf.lastApplied).toNat).map
    fun k : ℕ => rf.lastApplied + 1 + k
  match indices.mapM fun index =>
    (slot rf.logs (rf.getSlicesIndexFromLogIndex index)).map fun entry =>
      ApplyMsg.ofCommand index entry.command with
  | none => none
  | some msgs => some ({ rf with lastApplied := max rf.lastApplied rf.commitIndex }, msgs)

end Raft

end MyKvRaft
