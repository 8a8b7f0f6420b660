import MyKvRaft.Leader.Moves

/-!
# What a step does besides replication

`Node.Moves` describes a node that never deals with snapshots. Here is what any node may do
to its snapshot point, to what it has applied and to its sender: most steps leave all of it
alone (`Quiet`), and the others are named one by one (`Effect`).

* `ends_restart`: where a process ends.
* `effect_handle`: every step of every node has one of the effects.
* `Effect.still_cases`: the few of them that touch the snapshot point or what is applied.
-/

namespace MyKvRaft

open Raft

variable {N : ℕ}

/-! ## Where a process ends -/

/-- Given `x`, the process ends: it crashes, fails an assertion, or reads past its log. -/
def Node.ends (n : Node N) : Input N ⊕ Packet N → Bool
  | .inl .crash => true
  | .inl .apply => decide (n.applying = []) && n.rf.applierTicker.isNone
  | .inr (.requestVote r) => (n.rf.requestVote1 r.args).isNone
  | .inr (.requestVoteReply r reply) =>
    match n.election with
    | none => false
    | some e => decide (e.waiting = some r) && (n.rf.sendRequestVote reply e.votedNum).isNone
  | .inr (.appendEntries r) => (n.rf.appendEntries1 r.args).isNone
  | .inr (.appendEntriesReply r reply) =>
    match n.calls.find? (·.rpc = r) with
    | none => false
    | some call =>
      (n.rf.sendAppendEntries r.dst r.args reply (n.counters.getD call.appendNums 0)).isNone
  | _ => false

theorem Node.ends_restart {n : Node N} {x : Input N ⊕ Packet N} (h : n.ends x = true) :
    n.handle x = n.restart := by
  unfold Node.ends at h
  split at h
  · rfl
  · rw [Bool.and_eq_true, decide_eq_true_eq, Option.isNone_iff_eq_none] at h
    simp only [handle, step, apply, h.1, h.2, ne_eq, not_true_eq_false, if_false]
  · rw [Option.isNone_iff_eq_none] at h
    simp only [handle, receive, h, Option.map_none, finish]
  · next r reply =>
    split at h
    · cases h
    · next e he =>
      rw [Bool.and_eq_true, decide_eq_true_eq, Option.isNone_iff_eq_none] at h
      simp only [handle, receive, receiveVote, he, h.1, h.2, if_true]
  · rw [Option.isNone_iff_eq_none] at h
    simp only [handle, receive, h, Option.map_none, finish]
  · next r reply =>
    split at h
    · cases h
    · next call hcall =>
      rw [Option.isNone_iff_eq_none] at h
      simp only [handle, receive, receiveAppend, hcall, h]
  · cases h

namespace Node

/-- A step that touches neither the snapshot point nor what is applied, leaves the sender where it
    is and wins no election. -/
structure Quiet (n n' : Node N) : Prop where
  me : n'.rf.me = n.rf.me
  leads : n'.rf.status = .Leader → n.rf.status = .Leader
  batchRunning : n'.rf.batchRunning = n.rf.batchRunning
  batchSenderThread : n'.rf.batchSenderThread = n.rf.batchSenderThread
  lastSnapshotIncludeIndex : n'.rf.lastSnapshotIncludeIndex = n.rf.lastSnapshotIncludeIndex
  lastApplied : n'.rf.lastApplied = n.rf.lastApplied
  applying : n'.applying = n.applying
  snapshotThreads : n'.snapshotThreads = n.snapshotThreads

theorem quiet_refl (n : Node N) : Quiet n n := ⟨rfl, id, rfl, rfl, rfl, rfl, rfl, rfl⟩

/-- What a node does when it is given `x`. -/
inductive Effect : Input N ⊕ Packet N → Node N → Node N → Prop where
  | restart {x n} (h : n.ends x = true) : Effect x n n.restart
  | quiet {x n n'} (h : Quiet n n') : Effect x n n'
  /-- It wins an election. -/
  | win {r reply n n'} (hel : Elects n r reply) (hrf : n'.rf = n.rf.becomeLeader)
      (happ : n'.applying = n.applying) (hsnap : n'.snapshotThreads = n.snapshotThreads) :
      Effect (.inr (.requestVoteReply r reply)) n n'
  /-- It sends heartbeats, or starts to send a snapshot. -/
  | beat {n} (hl : n.rf.status = .Leader) : Effect (.inl .heartBeat) n n.heartBeat.1
  /-- `batchSenderLoop` takes a step. -/
  | sender {clock n} : Effect (.inl (.batchSender clock)) n (n.batchSender clock).1
  /-- It sends a snapshot. -/
  | sendSnapShot {k n} : Effect (.inl (.sendSnapShot k)) n (n.sendSnapShot k).1
  /-- `applierTicker` takes messages to push. -/
  | apply {n rf' msgs} (h0 : n.applying = []) (h : n.rf.applierTicker = some (rf', msgs)) :
      Effect (.inl .apply) n { n with rf := rf', applying := msgs }
  /-- `applierTicker` pushes a message. -/
  | push {n} : Effect (.inl .push) n { n with applying := n.applying.tail }
  /-- It is sent a snapshot. -/
  | install {r n} :
      Effect (.inr (.installSnapshot r)) n { n with rf := (n.rf.installSnapshot1 r.args).1 }

/-! ## What a node does by itself -/

variable {n : Node N}

theorem effect_step (input : Input N) : Effect (.inl input) n (n.step input).1 := by
  cases input with
  | electionTimeout =>
    simp only [step, electionTimeout]
    split_ifs
    · exact .quiet (quiet_refl n)
    · exact .quiet ⟨rfl, fun h => (by cases h), rfl, rfl, rfl, rfl, rfl, rfl⟩
  | requestVotes =>
    simp only [step, requestVotes]
    split
    · exact .quiet (quiet_refl n)
    · split_ifs <;> exact .quiet ⟨rfl, id, rfl, rfl, rfl, rfl, rfl, rfl⟩
  | requestVoteFails =>
    simp only [step, requestVoteFails]
    split
    · exact .quiet (quiet_refl n)
    · split_ifs <;> exact .quiet ⟨rfl, id, rfl, rfl, rfl, rfl, rfl, rfl⟩
  | start command now =>
    simp only [step, Raft.start]
    split_ifs <;> exact .quiet ⟨rfl, id, rfl, rfl, rfl, rfl, rfl, rfl⟩
  | heartBeat =>
    by_cases hl : n.rf.status = .Leader
    · exact .beat hl
    · simp only [step, heartBeat, if_pos hl]
      exact .quiet (quiet_refl n)
  | batchSender clock => exact .sender
  | sendSnapShot k => exact .sendSnapShot
  | apply =>
    simp only [step, Node.apply]
    split_ifs with hnil
    · exact .quiet (quiet_refl n)
    · cases happ : n.rf.applierTicker with
      | none => exact .restart (by simp [Node.ends, not_not.mp hnil, happ])
      | some x => exact .apply (not_not.mp hnil) happ
  | push => exact .push
  | crash => exact .restart rfl
  | appendFails k => exact .quiet ⟨rfl, id, rfl, rfl, rfl, rfl, rfl, rfl⟩
  | snapshotFails k => exact .quiet ⟨rfl, id, rfl, rfl, rfl, rfl, rfl, rfl⟩

/-! ## What a message makes a node do -/

theorem quiet_seeTerm (n : Node N) (term : ℤ) : Quiet n { n with rf := n.rf.seeTerm term } := by
  unfold seeTerm
  split_ifs
  · exact ⟨rfl, fun h => (by cases h), rfl, rfl, rfl, rfl, rfl, rfl⟩
  · exact quiet_refl n

theorem effect_requestVoteReply (r : Rpc N RequestVoteArgs) (reply : RequestVoteReply) :
    Effect (.inr (.requestVoteReply r reply)) n (n.receiveVote r reply) := by
  unfold receiveVote
  cases hel : n.election with
  | none => exact .quiet (quiet_refl n)
  | some e =>
    dsimp only
    split_ifs with hw
    · cases hres : n.rf.sendRequestVote reply e.votedNum with
      | none => exact .restart (by simp [Node.ends, hel, hw, hres])
      | some x =>
        obtain ⟨rf', k'⟩ := x
        rcases sendRequestVote_cases hres with ⟨_, rfl, _⟩ | ⟨rfl, _⟩ | ⟨_, _, _, rfl, _⟩ |
          ⟨hterm, hg, hmaj, _, rfl, _⟩
        · exact .quiet ⟨rfl, fun h => (by cases h), rfl, rfl, rfl, rfl, rfl, rfl⟩
        · exact .quiet ⟨rfl, id, rfl, rfl, rfl, rfl, rfl, rfl⟩
        · exact .quiet ⟨rfl, id, rfl, rfl, rfl, rfl, rfl, rfl⟩
        · exact .win ⟨⟨e, hel, hw, hmaj⟩, hterm, hg⟩ rfl rfl rfl
    · exact .quiet (quiet_refl n)

theorem effect_appendEntriesReply (r : Rpc N AppendEntriesArgs) (reply : AppendEntriesReply) :
    Effect (.inr (.appendEntriesReply r reply)) n (n.receiveAppend r reply) := by
  unfold receiveAppend
  cases hfind : n.calls.find? (·.rpc = r) with
  | none => exact .quiet (quiet_refl n)
  | some call =>
    cases hres : n.rf.sendAppendEntries r.dst r.args reply
        (n.counters.getD call.appendNums 0) with
    | none =>
      simp only [hres]
      exact .restart (by simp only [Node.ends, hfind, hres, Option.isNone_none])
    | some x =>
      obtain ⟨rf', k'⟩ := x
      simp only [hres]
      rcases sendAppendEntries_cases hres with ⟨rfl, _⟩ | ⟨_, rfl, _⟩ | ⟨_, _, _, rfl, _⟩ |
        ⟨_, _, _, _, rfl, _⟩ | ⟨_, _, _, _, _, rfl, _⟩ | ⟨_, _, _, _, _, rfl, _⟩
      · exact .quiet ⟨rfl, id, rfl, rfl, rfl, rfl, rfl, rfl⟩
      · exact .quiet ⟨rfl, fun h => (by cases h), rfl, rfl, rfl, rfl, rfl, rfl⟩
      · obtain ⟨nextIdx, heq⟩ := n.rf.handleLogMismatch_eq r.dst reply
        rw [heq]
        exact .quiet ⟨rfl, id, rfl, rfl, rfl, rfl, rfl, rfl⟩
      · exact .quiet ⟨rfl, id, rfl, rfl, rfl, rfl, rfl, rfl⟩
      · exact .quiet ⟨rfl, id, rfl, rfl, rfl, rfl, rfl, rfl⟩
      · exact .quiet ⟨rfl, id, rfl, rfl, rfl, rfl, rfl, rfl⟩

theorem quiet_leaderUpdateCommitIndex (n : Node N) :
    Quiet n { n with rf := n.rf.leaderUpdateCommitIndex } := by
  unfold leaderUpdateCommitIndex
  dsimp only
  split
  · split_ifs <;> exact ⟨rfl, id, rfl, rfl, rfl, rfl, rfl, rfl⟩
  · exact quiet_refl n

theorem quiet_receiveSnapshot (n : Node N) (r : Rpc N InstallSnapshotRequest)
    (resp : InstallSnapshotResponse) : Quiet n (n.receiveSnapshot r resp) := by
  unfold receiveSnapshot
  split
  · exact quiet_refl n
  · simp only [leaderSendSnapShot]
    split_ifs
    · exact ⟨rfl, fun h => (by cases h), rfl, rfl, rfl, rfl, rfl, rfl⟩
    · have h := quiet_leaderUpdateCommitIndex { n with rf := { n.rf with
        nextIndex := Function.update n.rf.nextIndex r.dst (r.args.lastsnapshotincludeindex + 1)
        matchIndex := Function.update n.rf.matchIndex r.dst r.args.lastsnapshotincludeindex } }
      exact ⟨h.me, h.leads, h.batchRunning, h.batchSenderThread, h.lastSnapshotIncludeIndex,
        h.lastApplied, rfl, rfl⟩

theorem effect_receive (q : Packet N) : Effect (.inr q) n (n.receive q).1 := by
  cases q with
  | requestVote r =>
    simp only [receive, finish]
    cases hres : n.rf.requestVote1 r.args with
    | none => exact .restart (by simp [Node.ends, hres])
    | some x =>
      obtain ⟨rf', reply⟩ := x
      have hsee := quiet_seeTerm n r.args.term
      rcases requestVote1_cases hres with ⟨_, rfl, _⟩ | ⟨_, rfl, _⟩ | ⟨_, _, _, rfl, _⟩
      · exact .quiet ⟨rfl, id, rfl, rfl, rfl, rfl, rfl, rfl⟩
      · exact .quiet ⟨hsee.me, hsee.leads, hsee.batchRunning, hsee.batchSenderThread,
          hsee.lastSnapshotIncludeIndex, hsee.lastApplied, rfl, rfl⟩
      · exact .quiet ⟨hsee.me, hsee.leads, hsee.batchRunning, hsee.batchSenderThread,
          hsee.lastSnapshotIncludeIndex, hsee.lastApplied, rfl, rfl⟩
  | requestVoteReply r reply => exact effect_requestVoteReply r reply
  | appendEntries r =>
    simp only [receive, finish]
    cases hres : n.rf.appendEntries1 r.args with
    | none => exact .restart (by simp [Node.ends, hres])
    | some x =>
      obtain ⟨rf', reply⟩ := x
      have hsee := quiet_seeTerm n r.args.term
      rcases appendEntries1_cases hres with ⟨_, rfl, _⟩ | ⟨_, rfl, _⟩ | ⟨_, _, _, _, hacc⟩
      · exact .quiet ⟨rfl, id, rfl, rfl, rfl, rfl, rfl, rfl⟩
      · exact .quiet ⟨hsee.me, fun h => (by cases h), hsee.batchRunning,
          hsee.batchSenderThread, hsee.lastSnapshotIncludeIndex, hsee.lastApplied, rfl, rfl⟩
      · obtain ⟨_, _, _, rfl, _⟩ := acceptEntries_cases hacc
        exact .quiet ⟨hsee.me, fun h => (by cases h), hsee.batchRunning, hsee.batchSenderThread,
          hsee.lastSnapshotIncludeIndex, hsee.lastApplied, rfl, rfl⟩
  | appendEntriesReply r reply => exact effect_appendEntriesReply r reply
  | installSnapshot r => exact .install
  | installSnapshotReply r resp => exact .quiet (quiet_receiveSnapshot n r resp)

/-- Every step of every node has one of the effects. -/
theorem effect_handle (x : Input N ⊕ Packet N) : Effect x n (n.handle x) := by
  cases x with
  | inl input => exact effect_step input
  | inr q => exact effect_receive q

/-! ## Snapshot point and applied entries -/

/-- A step that touches neither the snapshot point nor what is applied. -/
structure Still (n n' : Node N) : Prop where
  lastSnapshotIncludeIndex : n'.rf.lastSnapshotIncludeIndex = n.rf.lastSnapshotIncludeIndex
  lastApplied : n'.rf.lastApplied = n.rf.lastApplied
  applying : n'.applying = n.applying

theorem still_batchSender (clock : Fin N → ℤ × ℤ) : Still n (n.batchSender clock).1 := by
  unfold batchSender
  split
  · exact ⟨rfl, rfl, rfl⟩
  · split_ifs <;> exact ⟨rfl, rfl, rfl⟩
  · exact ⟨rfl, rfl, rfl⟩
  · exact ⟨rfl, rfl, rfl⟩
  · split_ifs <;> exact ⟨rfl, rfl, rfl⟩
  · exact ⟨rfl, rfl, rfl⟩

theorem still_sendSnapShot (k : ℕ) : Still n (n.sendSnapShot k).1 := by
  unfold sendSnapShot
  split <;> exact ⟨rfl, rfl, rfl⟩

/-- Apart from restarts, only the applier thread and `InstallSnapshot1` move these. -/
theorem Effect.still_cases {n' : Node N} {x : Input N ⊕ Packet N} (h : Effect x n n') :
    (n.ends x = true ∧ n' = n.restart) ∨ Still n n' ∨
    (∃ rf' msgs, x = .inl .apply ∧ n.applying = [] ∧ n.rf.applierTicker = some (rf', msgs) ∧
      n' = { n with rf := rf', applying := msgs }) ∨
    (x = .inl .push ∧ n' = { n with applying := n.applying.tail }) ∨
    ∃ r, x = .inr (.installSnapshot r) ∧
      n' = { n with rf := (n.rf.installSnapshot1 r.args).1 } := by
  cases h with
  | restart hends => exact .inl ⟨hends, rfl⟩
  | quiet h => exact .inr (.inl ⟨h.lastSnapshotIncludeIndex, h.lastApplied, h.applying⟩)
  | win _ hrf happ =>
    obtain ⟨_, _, _, _, _, _, hlast, hbase, _⟩ := becomeLeader_fields n.rf
    exact .inr (.inl ⟨hrf ▸ hbase, hrf ▸ hlast, happ⟩)
  | beat hl =>
    simp only [heartBeat, hl, ne_eq, not_true_eq_false, if_false]
    exact .inr (.inl ⟨rfl, rfl, rfl⟩)
  | sender => exact .inr (.inl (still_batchSender _))
  | sendSnapShot => exact .inr (.inl (still_sendSnapShot _))
  | apply h0 happ => exact .inr (.inr (.inl ⟨_, _, rfl, h0, happ, rfl⟩))
  | push => exact .inr (.inr (.inr (.inl ⟨rfl, rfl⟩)))
  | install => exact .inr (.inr (.inr (.inr ⟨_, rfl, rfl⟩)))

end Node

end MyKvRaft
