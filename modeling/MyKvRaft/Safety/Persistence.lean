import MyKvRaft.Raft.Handlers

/-!
# What is on disk

Between two critical sections the raft-state file of a node holds exactly its
persistent state (`Saved`), whatever requests, replies and timer events it is given:
every function that changes the term, the vote, the snapshot point or the log ends
in `persist` or `Save` before it releases the lock.

* `persist_before_release`: `init` on the files gives back the term, the vote, the
  snapshot point and the log of every reachable state.
-/

namespace MyKvRaft

open Transition

variable {N : ℕ}

/-- What an absent file stands for. -/
def PersistRaftNode.fresh : PersistRaftNode := ⟨0, -1, 0, 0, []⟩

namespace Raft

/-- The raft-state file holds the persistent state. -/
def Saved (rf : Raft N) : Prop := rf.persister.raftFile.getD .fresh = rf.persistDate

theorem saved_persist (rf : Raft N) : Saved rf.persist := by
  unfold Saved
  rw [persist_raftFile]
  rfl

/-- A change to neither the file nor the persistent state. -/
theorem Saved.congr {rf rf' : Raft N} (h : Saved rf)
    (hfile : rf'.persister.raftFile = rf.persister.raftFile)
    (hdate : rf'.persistDate = rf.persistDate) : Saved rf' := by
  unfold Saved
  rw [hfile, hdate]
  exact h

/-! ## Reading back -/

/-- Numbering the entries again does not change what is stored of them. -/
theorem restoreLogs_persisted (index : ℤ) (logs : List PersistLogEntry) :
    (restoreLogs index logs).map (fun log => (⟨log.logterm, log.command⟩ : PersistLogEntry)) =
      logs := by
  induction logs generalizing index with
  | nil => rfl
  | cons plog rest ih => simp [restoreLogs, ih]

theorem init_persister (me : Fin N) (p : Persister) : (init me p).persister = p := by
  unfold init readPersist
  cases p.raftState <;> dsimp only <;> split_ifs <;> rfl

theorem init_me (me : Fin N) (p : Persister) : (init me p).me = me := by
  unfold init readPersist
  cases p.raftState <;> dsimp only <;> split_ifs <;> rfl

theorem init_batchSenderThread (me : Fin N) (p : Persister) :
    (init me p).batchSenderThread = none := by
  unfold init readPersist
  cases p.raftState <;> dsimp only <;> split_ifs <;> rfl

theorem init_status (me : Fin N) (p : Persister) : (init me p).status = .Follower := by
  unfold init readPersist
  cases p.raftState <;> dsimp only <;> split_ifs <;> rfl

theorem init_pendingEntries (me : Fin N) (p : Persister) :
    (init me p).pendingEntries = fun _ => ⟨[], 0⟩ := by
  unfold init readPersist
  cases p.raftState <;> dsimp only <;> split_ifs <;> rfl

theorem init_nextIndex (me : Fin N) (p : Persister) : (init me p).nextIndex = fun _ => 0 := by
  unfold init readPersist
  cases p.raftState <;> dsimp only <;> split_ifs <;> rfl

theorem init_matchIndex (me : Fin N) (p : Persister) : (init me p).matchIndex = fun _ => 0 := by
  unfold init readPersist
  cases p.raftState <;> dsimp only <;> split_ifs <;> rfl

theorem init_commitIndex (me : Fin N) (p : Persister) : (init me p).commitIndex = 0 := by
  unfold init readPersist
  cases p.raftState <;> dsimp only <;> split_ifs <;> rfl

theorem init_lastApplied_nonneg (me : Fin N) (p : Persister) : 0 ≤ (init me p).lastApplied := by
  unfold init readPersist
  cases p.raftState <;> dsimp only <;> split_ifs <;> dsimp only <;> omega

theorem init_lastApplied (me : Fin N) (p : Persister) :
    (init me p).lastApplied = max 0 (init me p).lastSnapshotIncludeIndex := by
  unfold init readPersist
  cases p.raftState <;> dsimp only <;> split_ifs <;> dsimp only <;> omega

theorem init_logs (me : Fin N) (p : Persister) :
    (init me p).logs = restoreLogs (p.raftState.getD .fresh).lastSnapshotIncludeIndex
      (p.raftState.getD .fresh).logs := by
  unfold init readPersist
  cases p.raftState <;> dsimp only <;> split_ifs <;> rfl

/-- `init` reads back what was stored. -/
theorem init_persistDate (me : Fin N) (p : Persister) :
    (init me p).persistDate = p.raftState.getD .fresh := by
  unfold init readPersist
  cases p.raftState with
  | none => dsimp only; split_ifs <;> rfl
  | some d =>
    have hlogs := restoreLogs_persisted d.lastSnapshotIncludeIndex d.logs
    dsimp only
    split_ifs
    · simp only [persistDate, hlogs, Option.getD_some]
    · simp only [persistDate, hlogs, Option.getD_some]

theorem restart_persistDate (rf : Raft N) :
    rf.restart.persistDate = rf.persister.raftFile.getD .fresh := init_persistDate _ _

theorem saved_restart (rf : Raft N) : Saved rf.restart := by
  unfold Saved
  rw [restart_persistDate]
  unfold restart
  rw [init_persister]
  rfl

/-! ## One function at a time -/

variable {rf rf' : Raft N}

theorem saved_becomeLeader (rf : Raft N) : Saved rf.becomeLeader := by
  unfold becomeLeader
  set leading : Raft N := persist { rf with
    status := .Leader, nextIndex := fun _ => rf.getLastLogIndex + 1, matchIndex := fun _ => 0 }
  refine (saved_persist _ : Saved leading).congr ?_ ?_
  · simp
  · simp [persistDate]

theorem Saved.sendRequestVote {reply : RequestVoteReply} {k k' : ℤ} (hs : Saved rf)
    (h : rf.sendRequestVote reply k = some (rf', k')) : Saved rf' := by
  rcases sendRequestVote_cases h with ⟨_, rfl, _⟩ | ⟨rfl, _⟩ | ⟨_, _, _, rfl, _⟩ |
    ⟨_, _, _, _, rfl, _⟩
  · exact saved_persist _
  · exact hs
  · exact hs
  · exact saved_becomeLeader rf

theorem saved_requestVote1 {args : RequestVoteArgs} {reply : RequestVoteReply}
    (h : rf.requestVote1 args = some (rf', reply)) : Saved rf' := by
  rcases requestVote1_cases h with ⟨_, rfl, _⟩ | ⟨_, rfl, _⟩ | ⟨_, _, _, rfl, _⟩
  · exact saved_persist _
  · exact saved_persist _
  · exact saved_persist _

theorem Saved.appendEntries1 {args : AppendEntriesArgs} {reply : AppendEntriesReply}
    (hs : Saved rf) (h : rf.appendEntries1 args = some (rf', reply)) : Saved rf' := by
  rcases appendEntries1_cases h with ⟨_, rfl, _⟩ | ⟨_, rfl, _⟩ | ⟨_, _, _, _, hacc⟩
  · exact hs
  · exact saved_persist _
  · obtain ⟨_, _, _, rfl, _⟩ := acceptEntries_cases hacc
    exact saved_persist _

theorem Saved.sendAppendEntries {peerId : Fin N} {args : AppendEntriesArgs}
    {reply : AppendEntriesReply} {k k' : ℤ} (hs : Saved rf)
    (h : rf.sendAppendEntries peerId args reply k = some (rf', k')) : Saved rf' := by
  rcases sendAppendEntries_cases h with ⟨rfl, _⟩ | ⟨_, rfl, _⟩ | ⟨_, _, _, rfl, _⟩ |
    ⟨_, _, _, _, rfl, _⟩ | ⟨_, _, _, _, _, rfl, _⟩ | ⟨_, _, _, _, _, rfl, _⟩
  · exact hs
  · exact saved_persist _
  · obtain ⟨nextIdx, heq⟩ := rf.handleLogMismatch_eq peerId reply
    rw [heq]
    exact hs.congr rfl rfl
  · exact hs.congr rfl rfl
  · exact hs.congr rfl rfl
  · exact hs.congr rfl rfl

theorem saved_installSnapshot1 (hs : Saved rf) (request : InstallSnapshotRequest) :
    Saved (rf.installSnapshot1 request).1 := by
  unfold installSnapshot1
  by_cases hlt : request.term < rf.currentTerm
  · rw [if_pos hlt]; exact hs
  · rw [if_neg hlt]
    -- the file is written last, by `Save`
    set rf₁ := if request.term > rf.currentTerm then persist (rf.stepDown request.term) else rf
    set rf₂ := if request.lastsnapshotincludeindex > rf₁.lastSnapshotIncludeIndex then
      { rf₁ with
        lastSnapshotIncludeIndex := request.lastsnapshotincludeindex
        lastSnapshotIncludeTerm := request.lastsnapshotincludeterm
        commitIndex := max rf₁.commitIndex request.lastsnapshotincludeindex
        lastApplied := max rf₁.lastApplied request.lastsnapshotincludeindex } else rf₁
    have hfile := rf₂.persister.persistAll_file rf₂.persistDate request.snapshotdata
    unfold Saved
    show Option.getD (Persister.raftFile _) _ = _
    rw [hfile]
    rfl

theorem saved_leaderSendSnapShot (hs : Saved rf) (peerId : Fin N) (snapshotIndex : ℤ)
    (resp : InstallSnapshotResponse) (k : ℤ) :
    Saved (rf.leaderSendSnapShot peerId snapshotIndex resp k).1 := by
  unfold leaderSendSnapShot
  split_ifs
  · exact saved_persist _
  · dsimp only
    unfold leaderUpdateCommitIndex
    dsimp only
    split
    · split_ifs
      · exact hs.congr rfl rfl
      · exact hs.congr rfl rfl
    · exact hs.congr rfl rfl

theorem saved_start (hs : Saved rf) (command : Op) (now : ℤ) :
    Saved (rf.start command now).1 := by
  unfold start
  split_ifs
  · exact hs
  · exact (saved_persist { rf with logs := rf.logs ++ [rf.newEntry command] }).congr rfl rfl

theorem Saved.applierTicker {msgs : List ApplyMsg} (hs : Saved rf)
    (h : rf.applierTicker = some (rf', msgs)) : Saved rf' := by
  unfold Raft.applierTicker at h
  dsimp only at h
  split at h
  · cases h
  · cases h
    exact hs.congr rfl rfl

end Raft

/-! ## One step of a node -/

namespace Node

open Raft

/-- Whatever a node can be given: something it does by itself, or any packet. -/
def handle (n : Node N) : Input N ⊕ Packet N → Node N
  | .inl input => (n.step input).1
  | .inr packet => (n.receive packet).1

theorem saved_batchSender {n : Node N} (hs : Saved n.rf) (clock : Fin N → ℤ × ℤ) :
    Saved (n.batchSender clock).1.rf := by
  unfold batchSender
  split
  · exact hs
  · split_ifs
    · exact hs.congr rfl rfl
    · exact hs.congr rfl rfl
  · exact hs.congr rfl rfl
  · exact hs.congr rfl rfl
  · split_ifs
    · exact hs.congr rfl rfl
    · exact hs.congr rfl rfl
  · exact hs.congr rfl rfl

theorem saved_step {n : Node N} (hs : Saved n.rf) (input : Input N) : Saved (n.step input).1.rf := by
  cases input with
  | electionTimeout =>
    simp only [step, electionTimeout]
    split_ifs
    · exact hs
    · exact saved_persist _
  | requestVotes =>
    simp only [step, requestVotes]
    split
    · exact hs
    · split_ifs <;> exact hs
  | requestVoteFails =>
    simp only [step, requestVoteFails]
    split
    · exact hs
    · split_ifs <;> exact hs
  | start command now => exact saved_start hs command now
  | heartBeat =>
    simp only [step, heartBeat]
    split_ifs
    · exact hs
    · exact hs.congr rfl rfl
  | batchSender clock => exact saved_batchSender hs clock
  | appendFails k => exact hs
  | sendSnapShot k =>
    simp only [step, sendSnapShot]
    split
    · exact hs
    · exact hs
  | snapshotFails k => exact hs
  | apply =>
    simp only [step, apply]
    split_ifs
    · exact hs
    · split
      · exact saved_restart _
      · next h => exact hs.applierTicker h
  | push => exact hs
  | crash => exact saved_restart _

/-- A handler that saves its state, or fails an assertion. -/
theorem saved_finish {n : Node N} {result : Option (Raft N × List (Packet N))}
    (h : ∀ rf out, result = some (rf, out) → Saved rf) : Saved (n.finish result).1.rf := by
  unfold finish
  split
  · exact saved_restart _
  · exact h _ _ rfl

theorem saved_receive {n : Node N} (hs : Saved n.rf) (packet : Packet N) :
    Saved (n.receive packet).1.rf := by
  cases packet with
  | requestVote r =>
    refine saved_finish fun rf out h => ?_
    obtain ⟨x, hx, heq⟩ := Option.map_eq_some_iff.mp h
    cases heq
    exact saved_requestVote1 hx
  | requestVoteReply r reply =>
    simp only [receive, receiveVote]
    split
    · exact hs
    · split_ifs
      · split
        · exact saved_restart _
        · next h => exact hs.sendRequestVote h
      · exact hs
  | appendEntries r =>
    refine saved_finish fun rf out h => ?_
    obtain ⟨x, hx, heq⟩ := Option.map_eq_some_iff.mp h
    cases heq
    exact hs.appendEntries1 hx
  | appendEntriesReply r reply =>
    simp only [receive, receiveAppend]
    split
    · exact hs
    · split
      · exact saved_restart _
      · next h => exact hs.sendAppendEntries h
  | installSnapshot r => exact saved_installSnapshot1 hs r.args
  | installSnapshotReply r resp =>
    simp only [receive, receiveSnapshot]
    split
    · exact hs
    · exact saved_leaderSendSnapShot hs _ _ _ _

theorem saved_handle {n : Node N} (hs : Saved n.rf) (x : Input N ⊕ Packet N) :
    Saved (n.handle x).rf := by
  cases x with
  | inl input => exact saved_step hs input
  | inr packet => exact saved_receive hs packet

theorem saved_init (me : Fin N) : Saved (Node.init me).rf := rfl

theorem saved_run {me : Fin N} {h : List (Node N × (Input N ⊕ Packet N))} {n : Node N}
    (hr : Run handle anyStep (Node.init me) h n) : Saved n.rf := by
  refine hr.invariant (I := fun n => Saved n.rf) (saved_init me) ?_
  intro n x hs _
  exact saved_handle hs x

end Node

/-- In every state that a node reaches, whatever requests and replies it gets, `init` on its
    files rebuilds its term, its vote, its snapshot point and the terms and commands of its log. -/
theorem persist_before_release (me : Fin N) (h : List (Node N × (Input N ⊕ Packet N))) (n : Node N)
    (hr : Run Node.handle anyStep (Node.init me) h n) :
    let rf := Raft.init me (Persister.create n.rf.persister.raftFile n.rf.persister.snapshotFile)
    rf.currentTerm = n.rf.currentTerm ∧
    rf.votedFor = n.rf.votedFor ∧
    rf.lastSnapshotIncludeIndex = n.rf.lastSnapshotIncludeIndex ∧
    rf.lastSnapshotIncludeTerm = n.rf.lastSnapshotIncludeTerm ∧
    rf.logs.map (fun e => (e.logterm, e.command)) =
      n.rf.logs.map (fun e => (e.logterm, e.command)) := by
  intro rf
  have hdate : rf.persistDate = n.rf.persistDate :=
    (Raft.init_persistDate me _).trans (Node.saved_run hr)
  unfold Raft.persistDate at hdate
  simp only [PersistRaftNode.mk.injEq] at hdate
  obtain ⟨h1, h2, h3, h4, h5⟩ := hdate
  refine ⟨h1, h2, h3, h4, ?_⟩
  have := congrArg (List.map fun e : PersistLogEntry => (e.term, e.command)) h5
  simpa only [List.map_map, Function.comp_def] using this

/-- A node stands for election and is then sent a snapshot by the leader of term 5. -/
def snapshotRun : List (Input 3 ⊕ Packet 3) :=
  [.inl .electionTimeout, .inr (.installSnapshot ⟨0, 1, 0, 1, 5, 4, 3, []⟩)]

theorem persist_before_release_snapshotRun :
    let n := snapshotRun.foldl Node.handle (Node.init 0)
    let rf := Raft.init (0 : Fin 3) (Persister.create n.rf.persister.raftFile n.rf.persister.snapshotFile)
    (n.rf.currentTerm = 5 ∧ n.rf.lastSnapshotIncludeIndex = 4) ∧
    rf.currentTerm = n.rf.currentTerm ∧ rf.lastSnapshotIncludeIndex = n.rf.lastSnapshotIncludeIndex := by
  have h := persist_before_release 0 _ _ (run_history snapshotRun fun _ _ => trivial)
  exact ⟨⟨by decide, by decide⟩, h.1, h.2.2.1⟩

end MyKvRaft
