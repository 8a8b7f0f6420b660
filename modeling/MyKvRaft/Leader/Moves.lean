import MyKvRaft.Safety.Calls

/-!
# What a step does to the buffers of a leader

An entry that `Start` appends waits in `m_pendingEntries` for every peer, is taken
into a batch by `batchSenderLoop`, and goes out in an `AppendEntries` request.
Everything a node can do with these, and with the indices it keeps for its peers,
is one of the cases of `Node.Moves`; the invariants of the following modules are
proved along these cases.

* `Cluster.driven`: the node a step drives, and what it is given.
* `Node.outcome`: the RPC whose outcome a node is about to process.
* `Node.moves_handle`: every step of a node without snapshots is one of the moves.
* `Node.appendEntries_of_step`: which `AppendEntries` requests a node sends.
-/

namespace MyKvRaft

open Transition Raft

variable {N : ℕ}

/-- Nothing that has to do with replication has changed, and the node leads only if it led
    the same term before. -/
structure Raft.Carried (rf rf' : Raft N) : Prop where
  me : rf'.me = rf.me
  logs : rf'.logs = rf.logs
  pending : rf'.pendingEntries = rf.pendingEntries
  queued : rf'.queued = rf.queued
  nextIndex : rf'.nextIndex = rf.nextIndex
  matchIndex : rf'.matchIndex = rf.matchIndex
  commitIndex : rf'.commitIndex = rf.commitIndex
  leads : rf'.status = .Leader → rf.status = .Leader ∧ rf'.currentTerm = rf.currentTerm

theorem Raft.Carried.refl (rf : Raft N) : rf.Carried rf :=
  ⟨rfl, rfl, rfl, rfl, rfl, rfl, rfl, fun h => ⟨h, rfl⟩⟩

/-- A node that has seen another term, or has given up leading. -/
theorem Raft.carried_seeTerm (rf : Raft N) (term : ℤ) : rf.Carried (rf.seeTerm term) := by
  unfold seeTerm
  split_ifs
  · exact ⟨rfl, rfl, rfl, rfl, rfl, rfl, rfl, fun h => by cases h⟩
  · exact .refl rf

namespace Node

/-- The call, and its reply if there is one, whose outcome the node is about to process. -/
def outcome (n : Node N) : Input N ⊕ Packet N → Option (AppendCall N × Option AppendEntriesReply)
  | .inl (.appendFails k) => n.calls[k]?.map (·, none)
  | .inr (.appendEntriesReply r reply) => (n.calls.find? (·.rpc = r)).map (·, some reply)
  | _ => none

/-- `calls'` is what is left of `calls` without `call`. -/
def Without (calls : List (AppendCall N)) (call : AppendCall N) (calls' : List (AppendCall N)) :
    Prop :=
  call ∈ calls ∧ calls' ⊆ calls ∧ ∀ c ∈ calls, c = call ∨ c ∈ calls'

/-- A vote that completes the majority of a running election. -/
structure Elects (n : Node N) (r : Rpc N RequestVoteArgs) (reply : RequestVoteReply) : Prop where
  election : ∃ e, n.election = some e ∧ e.waiting = some r ∧ majority N ≤ e.votedNum + 1
  term : reply.term = n.rf.currentTerm
  granted : reply.votegranted = true

/-- How far a success reply moves the commit index of a leader. -/
def Counts (n : Node N) (call : AppendCall N) (commitIndex : ℤ) : Prop :=
  let args := call.rpc.args
  (n.counters.getD call.appendNums 0 + 1 < majority N ∧ commitIndex = n.rf.commitIndex) ∨
  ((∀ e, args.entries.getLast? = some e → e.logterm ≠ n.rf.currentTerm) ∧
    commitIndex = n.rf.commitIndex) ∨
  commitIndex = max n.rf.commitIndex (args.prevlogindex + args.entries.length)

/-- What a node does when it is given `x`. -/
inductive Moves : Input N ⊕ Packet N → Node N → Node N → Prop where
  | restart (x n) : Moves x n n.restart
  | idle {x n n'} (hc : n.rf.Carried n'.rf) (hcalls : n'.calls = n.calls) : Moves x n n'
  /-- It takes entries from a leader. -/
  | follow {r n n'} (hme : n'.rf.me = n.rf.me) (hstatus : n'.rf.status = .Follower)
      (hpending : n'.rf.pendingEntries = n.rf.pendingEntries)
      (hqueued : n'.rf.queued = n.rf.queued) (hcalls : n'.calls = n.calls)
      (hnext : n'.rf.nextIndex = n.rf.nextIndex) (hmatch : n'.rf.matchIndex = n.rf.matchIndex)
      (hlen : n.rf.logs.length ≤ n'.rf.logs.length)
      (hlogs : ∀ e ∈ n'.rf.logs, e ∈ n.rf.logs ∨ e ∈ r.args.entries) :
      Moves (.inr (.appendEntries r)) n n'
  /-- It wins an election. -/
  | win {r reply n n'} (hel : Elects n r reply) (hme : n'.rf.me = n.rf.me)
      (hterm : n'.rf.currentTerm = n.rf.currentTerm) (hlogs : n'.rf.logs = n.rf.logs)
      (hpending : n'.rf.pendingEntries = n.rf.pendingEntries)
      (hqueued : n'.rf.queued = n.rf.queued ∨ n'.rf.queued = []) (hcalls : n'.calls = n.calls)
      (hnext : ∀ p, n'.rf.nextIndex p = n.rf.getLastLogIndex + 1)
      (hmatch : ∀ p, n'.rf.matchIndex p = 0) :
      Moves (.inr (.requestVoteReply r reply)) n n'
  /-- It takes a command of a client. -/
  | start {command now n} (hl : n.rf.status = .Leader) :
      Moves (.inl (.start command now)) n { n with rf := (n.rf.start command now).1 }
  /-- It sends heartbeats. -/
  | beat {n n'} (hl : n.rf.status = .Leader) (hrf : n'.rf = clampNextIndex n.rf)
      (hcalls : ∃ counter, n'.calls = n.calls ++
        (heartBeatRpcs n.nextRpc n'.rf).map fun r => ⟨r, counter⟩) :
      Moves (.inl .heartBeat) n n'
  /-- It takes batches from the buffers. -/
  | collect {clock n} (hq : n.rf.queued = []) :
      Moves (.inl (.batchSender clock)) n { n with rf := n.rf.collectBatches clock }
  /-- It leaves out a batch, which is empty if the node leads. -/
  | skip {clock n n'} (hrf : ∃ pc, n'.rf = { n.rf with batchSenderThread := pc })
      (hcalls : n'.calls = n.calls) (hsub : n'.rf.queued ⊆ n.rf.queued)
      (hq : n.rf.status = .Leader → ∀ x ∈ n.rf.queued, x ∈ n'.rf.queued ∨ x.2 = []) :
      Moves (.inl (.batchSender clock)) n n'
  /-- It sends a batch. -/
  | build {clock peer entries rest n n'}
      (hpc : n.rf.batchSenderThread = some (.build peer entries rest))
      (hrf : n'.rf = { n.rf with batchSenderThread := some (.send rest) })
      (hcalls : ∃ id counter, n'.calls = n.calls ++
        [⟨⟨id, n.rf.me, peer, n.rf.batchArgs entries⟩, counter⟩]) :
      Moves (.inl (.batchSender clock)) n n'
  /-- An RPC has failed, or its reply is of no use. -/
  | close {x call reply n n'} (ho : n.outcome x = some (call, reply))
      (hw : Without n.calls call n'.calls) (hc : n.rf.Carried n'.rf)
      (hr : n'.rf.status = .Leader → ∀ y ∈ reply,
        y.appstate = Disconnected ∨ y.term < n.rf.currentTerm) :
      Moves x n n'
  /-- A peer has rejected a request. -/
  | mismatch {r reply call n n'}
      (ho : n.outcome (.inr (.appendEntriesReply r reply)) = some (call, some reply))
      (hw : Without n.calls call n'.calls) (hl : n.rf.status = .Leader)
      (hterm : reply.term = n.rf.currentTerm) (hs : reply.success = false)
      (hrf : n'.rf = n.rf.handleLogMismatch r.dst reply) :
      Moves (.inr (.appendEntriesReply r reply)) n n'
  /-- A peer has accepted a request. -/
  | sync {r reply call c n n'}
      (ho : n.outcome (.inr (.appendEntriesReply r reply)) = some (call, some reply))
      (hw : Without n.calls call n'.calls) (hl : n.rf.status = .Leader)
      (hterm : reply.term = n.rf.currentTerm) (hs : reply.success = true)
      (hrf : n'.rf = { n.rf.synced r.dst r.args with commitIndex := c })
      (hc : Counts n call c) :
      Moves (.inr (.appendEntriesReply r reply)) n n'

/-! ## Calls -/

theorem without_eraseIdx {calls : List (AppendCall N)} {k : ℕ} {call : AppendCall N}
    (h : calls[k]? = some call) : Without calls call (calls.eraseIdx k) := by
  refine ⟨List.mem_of_getElem? h, fun c hc => List.mem_of_mem_eraseIdx hc, fun c hc => ?_⟩
  obtain ⟨j, hj⟩ := List.getElem?_of_mem hc
  by_cases hjk : j = k
  · subst hjk
    rw [h] at hj
    exact Or.inl (Option.some.inj hj).symm
  · exact Or.inr (List.mem_eraseIdx_iff_getElem?.mpr ⟨j, hjk, hj⟩)

theorem without_eraseP {calls : List (AppendCall N)} {r : Rpc N AppendEntriesArgs}
    {call : AppendCall N} (h : calls.find? (·.rpc = r) = some call) :
    Without calls call (calls.eraseP (·.rpc = r)) := by
  obtain ⟨hp, l₁, l₂, rfl, hno⟩ := List.find?_eq_some_iff_append.mp h
  have herase : (l₁ ++ call :: l₂).eraseP (·.rpc = r) = l₁ ++ l₂ := by
    rw [List.eraseP_append_right _ fun b hb => by simpa using hno b hb, List.eraseP_cons, hp]
    rfl
  rw [herase]
  refine ⟨by simp, fun c hc => ?_, fun c hc => ?_⟩
  · rcases List.mem_append.mp hc with hc | hc <;> simp [hc]
  · rcases List.mem_append.mp hc with hc | hc
    · simp [hc]
    · rcases List.mem_cons.mp hc with hc | hc <;> simp [hc]

/-! ## What a node does by itself -/

section Handle

variable {n : Node N}

theorem moves_batchSender (clock : Fin N → ℤ × ℤ) :
    Moves (.inl (.batchSender clock)) n (n.batchSender clock).1 := by
  unfold batchSender
  split
  · exact .idle (.refl _) rfl
  · next hpc =>
    have hq : n.rf.queued = [] := by simp [Raft.queued, hpc, BatchSender.queued]
    split_ifs
    · exact .skip ⟨_, rfl⟩ rfl (by simp [Raft.queued, setSender, BatchSender.queued])
        (by simp [hq])
    · exact .skip ⟨_, rfl⟩ rfl (by simp [Raft.queued, setSender]) (by simp [hq])
  · next hpc => exact .collect (by simp [Raft.queued, hpc, BatchSender.queued])
  · next hpc =>
    have hq : n.rf.queued = [] := by simp [Raft.queued, hpc, BatchSender.queued]
    exact .skip ⟨_, rfl⟩ rfl (by simp [Raft.queued, setSender, BatchSender.queued]) (by simp [hq])
  · next peer entries rest hpc =>
    have hq : n.rf.queued = (peer, entries) :: rest := by
      simp [Raft.queued, hpc, BatchSender.queued]
    split_ifs with hdrop
    · refine .skip ⟨_, rfl⟩ rfl ?_ fun hl x hx => ?_
      · rw [hq]
        exact List.subset_cons_self _ _
      · rw [hq] at hx
        rcases List.mem_cons.mp hx with rfl | hx
        · right
          simpa [hl] using hdrop
        · exact Or.inl hx
    · refine .idle ⟨rfl, rfl, rfl, ?_, rfl, rfl, rfl, fun h => ⟨h, rfl⟩⟩ rfl
      rw [hq]
      rfl
  · next peer entries rest hpc => exact .build hpc rfl ⟨_, _, rfl⟩

theorem moves_step (hp : n.Plain) (input : Input N) : Moves (.inl input) n (n.step input).1 := by
  cases input with
  | electionTimeout =>
    simp only [step, electionTimeout]
    split_ifs
    · exact .idle (.refl _) rfl
    · exact .idle ⟨rfl, rfl, rfl, rfl, rfl, rfl, rfl, fun h => by cases h⟩ rfl
  | requestVotes =>
    simp only [step, requestVotes]
    split
    · exact .idle (.refl _) rfl
    · split_ifs <;> exact .idle (.refl _) rfl
  | requestVoteFails =>
    simp only [step, requestVoteFails]
    split
    · exact .idle (.refl _) rfl
    · split_ifs <;> exact .idle (.refl _) rfl
  | start command now =>
    by_cases hl : n.rf.status = .Leader
    · exact .start hl
    · have heq : (n.rf.start command now).1 = n.rf := by
        unfold Raft.start
        rw [if_pos hl]
      simp only [step, heq]
      exact .idle (.refl _) rfl
  | heartBeat =>
    simp only [step, heartBeat]
    split_ifs with hl
    · exact .idle (.refl _) rfl
    · exact .beat (not_not.mp hl) rfl ⟨_, rfl⟩
  | batchSender clock => exact moves_batchSender clock
  | appendFails k =>
    simp only [step]
    cases hk : n.calls[k]? with
    | none =>
      refine .idle (.refl _) ?_
      exact List.eraseIdx_of_length_le (List.getElem?_eq_none_iff.mp hk)
    | some call =>
      have ho : n.outcome (.inl (.appendFails k)) = some (call, none) := by simp [outcome, hk]
      exact .close ho (without_eraseIdx hk) (.refl _) fun _ y hy => by cases hy
  | sendSnapShot k =>
    have heq : n.sendSnapShot k = (n, []) := by
      unfold sendSnapShot
      rw [hp.threads]
      rfl
    simp only [step, heq]
    exact .idle (.refl _) rfl
  | snapshotFails k => exact .idle (.refl _) rfl
  | apply =>
    simp only [step, apply]
    split_ifs
    · exact .idle (.refl _) rfl
    · cases happ : n.rf.applierTicker with
      | none => exact .restart _ _
      | some x =>
        obtain ⟨rf', msgs⟩ := x
        obtain ⟨rfl, _⟩ := applierTicker_eq happ
        exact .idle ⟨rfl, rfl, rfl, rfl, rfl, rfl, rfl, fun h => ⟨h, rfl⟩⟩ rfl
  | push => exact .idle (.refl _) rfl
  | crash => exact .restart _ _

/-! ## What a message makes a node do -/

/-- A request that is accepted only adds entries to the log. -/
theorem foldlM_appendEntry_mem {rf rf' : Raft N} {entries : List LogEntry}
    (h : entries.foldlM appendEntry rf = some rf') :
    rf.logs.length ≤ rf'.logs.length ∧ ∀ e ∈ rf'.logs, e ∈ rf.logs ∨ e ∈ entries := by
  induction entries generalizing rf with
  | nil =>
    cases h
    exact ⟨le_rfl, fun e he => Or.inl he⟩
  | cons x xs ih =>
    rw [List.foldlM_cons, Option.bind_eq_bind, Option.bind_eq_some_iff] at h
    obtain ⟨rf₁, h1, h2⟩ := h
    obtain ⟨hlen, hmem⟩ := ih h2
    have hone : rf.logs.length ≤ rf₁.logs.length ∧ ∀ e ∈ rf₁.logs, e ∈ rf.logs ∨ e = x := by
      unfold appendEntry myAssert at h1
      split_ifs at h1
      · cases h1
        refine ⟨by simp, fun e he => ?_⟩
        simpa using he
      · dsimp only at h1
        split at h1
        · cases h1
        · split_ifs at h1
          · cases h1
            exact ⟨by simp, fun e he => List.mem_or_eq_of_mem_set he⟩
          · cases h1
            exact ⟨le_rfl, fun e he => Or.inl he⟩
    refine ⟨hone.1.trans hlen, fun e he => ?_⟩
    rcases hmem e he with he | he
    · refine (hone.2 e he).imp id ?_
      rintro rfl
      exact List.mem_cons_self
    · exact Or.inr (List.mem_cons_of_mem x he)

theorem moves_appendEntries (r : Rpc N AppendEntriesArgs) :
    Moves (.inr (.appendEntries r)) n (n.receive (.appendEntries r)).1 := by
  simp only [receive, finish]
  cases hres : n.rf.appendEntries1 r.args with
  | none => exact .restart _ _
  | some x =>
    obtain ⟨rf', reply⟩ := x
    have hsee := n.rf.carried_seeTerm r.args.term
    have hfollow : n.rf.Carried (n.rf.follow r.args.term) :=
      ⟨hsee.me, hsee.logs, hsee.pending, hsee.queued, hsee.nextIndex, hsee.matchIndex,
        hsee.commitIndex, fun h => by cases h⟩
    rcases appendEntries1_cases hres with ⟨_, rfl, _⟩ | ⟨_, rfl, _⟩ | ⟨_, _, _, _, hacc⟩
    · exact .idle (.refl _) rfl
    · exact .idle ⟨hfollow.me, hfollow.logs, hfollow.pending, hfollow.queued, hfollow.nextIndex,
        hfollow.matchIndex, hfollow.commitIndex, fun h => by cases h⟩ rfl
    · obtain ⟨logs, hfold, _, rfl, _⟩ := acceptEntries_cases hacc
      obtain ⟨hlen, hmem⟩ := foldlM_appendEntry_mem hfold
      rw [hfollow.logs] at hlen hmem
      exact .follow hfollow.me rfl hfollow.pending hfollow.queued rfl hfollow.nextIndex
        hfollow.matchIndex hlen hmem

theorem queued_becomeLeader_eq (rf : Raft N) :
    rf.becomeLeader.queued = rf.queued ∨ rf.becomeLeader.queued = [] := by
  unfold becomeLeader startBatchSenderThread
  dsimp only
  split_ifs
  · exact Or.inl rfl
  · exact Or.inr rfl

theorem moves_requestVoteReply (r : Rpc N RequestVoteArgs) (reply : RequestVoteReply) :
    Moves (.inr (.requestVoteReply r reply)) n (n.receiveVote r reply) := by
  unfold receiveVote
  cases hel : n.election with
  | none => exact .idle (.refl _) rfl
  | some e =>
    dsimp only
    split_ifs with hw
    · cases hres : n.rf.sendRequestVote reply e.votedNum with
      | none => exact .restart _ _
      | some x =>
        obtain ⟨rf', k'⟩ := x
        rcases sendRequestVote_cases hres with ⟨_, rfl, _⟩ | ⟨rfl, _⟩ | ⟨_, _, _, rfl, _⟩ |
          ⟨hterm, hg, hmaj, _, rfl, _⟩
        · exact .idle ⟨rfl, rfl, rfl, rfl, rfl, rfl, rfl, fun h => by cases h⟩ rfl
        · exact .idle (.refl _) rfl
        · exact .idle (.refl _) rfl
        · obtain ⟨f1, f2, _, f4, _⟩ := becomeLeader_fields n.rf
          obtain ⟨hnext, hmatch, hpending⟩ := becomeLeader_peers n.rf
          exact .win ⟨⟨e, hel, hw, hmaj⟩, hterm, hg⟩ f1 f2 f4 hpending (queued_becomeLeader_eq _) rfl
            (fun p => congrFun hnext p) (fun p => congrFun hmatch p)
    · exact .idle (.refl _) rfl

theorem moves_appendEntriesReply (r : Rpc N AppendEntriesArgs) (reply : AppendEntriesReply) :
    Moves (.inr (.appendEntriesReply r reply)) n (n.receiveAppend r reply) := by
  unfold receiveAppend
  cases hfind : n.calls.find? (·.rpc = r) with
  | none => exact .idle (.refl _) rfl
  | some call =>
    have ho : n.outcome (.inr (.appendEntriesReply r reply)) = some (call, some reply) := by
      simp [outcome, hfind]
    have hw := without_eraseP hfind
    obtain ⟨_, hcall⟩ := call_of_find? hfind
    dsimp only
    cases hres : n.rf.sendAppendEntries r.dst r.args reply
        (n.counters.getD call.appendNums 0) with
    | none => exact .restart _ _
    | some x =>
      obtain ⟨rf', k'⟩ := x
      rcases sendAppendEntries_cases hres with ⟨rfl, _, hwhy⟩ | ⟨_, rfl, _⟩ | ⟨h1, h2, h3, rfl, _⟩ |
        ⟨h1, h2, h3, h4, rfl, _⟩ | ⟨h1, h2, h3, _, h5, rfl, _⟩ | ⟨h1, h2, h3, _, _, rfl, _⟩
      · refine .close ho hw (.refl _) fun hl y hy => ?_
        cases hy
        rcases hwhy with hwhy | hwhy | hwhy
        · exact Or.inl hwhy
        · exact Or.inr hwhy
        · exact absurd hl hwhy
      · exact .close ho hw ⟨rfl, rfl, rfl, rfl, rfl, rfl, rfl, fun h => by cases h⟩
          fun hl => by cases hl
      · exact .mismatch ho hw h1 h2 h3 rfl
      · exact .sync ho hw h1 h2 h3 rfl (Or.inl ⟨h4, rfl⟩)
      · exact .sync ho hw h1 h2 h3 rfl (Or.inr (Or.inl ⟨hcall ▸ h5, rfl⟩))
      · exact .sync ho hw h1 h2 h3 rfl (Or.inr (Or.inr (by rw [hcall])))

/-- Every step of a node without snapshots is one of the moves. -/
theorem moves_handle (hp : n.Plain) {x : Input N ⊕ Packet N}
    (hx : ∀ q, x = .inr q → Ordinary q) : Moves x n (n.handle x) := by
  cases x with
  | inl input => exact moves_step hp input
  | inr q =>
    cases q with
    | requestVote r =>
      simp only [handle, receive, finish]
      cases hres : n.rf.requestVote1 r.args with
      | none => exact .restart _ _
      | some y =>
        obtain ⟨rf', reply⟩ := y
        have hsee := n.rf.carried_seeTerm r.args.term
        rcases requestVote1_cases hres with ⟨_, rfl, _⟩ | ⟨_, rfl, _⟩ | ⟨_, _, _, rfl, _⟩
        · exact .idle ⟨rfl, rfl, rfl, rfl, rfl, rfl, rfl, fun h => ⟨h, rfl⟩⟩ rfl
        · exact .idle ⟨hsee.me, hsee.logs, hsee.pending, hsee.queued, hsee.nextIndex,
            hsee.matchIndex, hsee.commitIndex, hsee.leads⟩ rfl
        · exact .idle ⟨hsee.me, hsee.logs, hsee.pending, hsee.queued, hsee.nextIndex,
            hsee.matchIndex, hsee.commitIndex, hsee.leads⟩ rfl
    | requestVoteReply r reply => exact moves_requestVoteReply r reply
    | appendEntries r => exact moves_appendEntries r
    | appendEntriesReply r reply => exact moves_appendEntriesReply r reply
    | installSnapshot r => exact absurd (hx _ rfl) id
    | installSnapshotReply r resp => exact absurd (hx _ rfl) id

/-! ## What a node sends -/

/-- An `AppendEntries` request is a heartbeat or the batch about to be built. -/
theorem appendEntries_of_step {input : Input N} {r : Rpc N AppendEntriesArgs}
    (h : .appendEntries r ∈ (n.step input).2) :
    (input = .heartBeat ∧ n.rf.status = .Leader ∧ r.dst ≠ n.rf.me ∧
      r.args = (clampNextIndex n.rf).heartBeatArgs r.dst) ∨
    ∃ clock entries rest, input = .batchSender clock ∧
      n.rf.batchSenderThread = some (.build r.dst entries rest) ∧
      r.args = n.rf.batchArgs entries := by
  cases sends_step h with
  | heartBeat hl hr =>
    have hmem := mem_heartBeatRpcs hr
    exact .inl ⟨rfl, hl, hmem.2.1, hmem.2.2.1⟩
  | batch hpc => exact .inr ⟨_, _, _, rfl, hpc, rfl⟩

end Handle

end Node

namespace Cluster

variable (s : Cluster N)

/-- The node that takes the step `a`, and what it is given. -/
def driven : Action N → Option (Fin N × (Input N ⊕ Packet N))
  | .act i input => some (i, .inl input)
  | .deliver k => s.network[k]?.map fun q => (q.target, .inr q)

/-- A step changes the node it drives, and no other. -/
theorem step_nodes (a : Action N) (j : Fin N) :
    (s.step a).nodes j = s.nodes j ∨
      ∃ x, s.driven a = some (j, x) ∧ (s.step a).nodes j = (s.nodes j).handle x := by
  cases a with
  | act i input =>
    simp only [step, update]
    by_cases hj : j = i
    · subst hj
      exact Or.inr ⟨.inl input, rfl, Function.update_self _ _ _⟩
    · exact Or.inl (Function.update_of_ne hj _ _)
  | deliver k =>
    cases hk : s.network[k]? with
    | none =>
      left
      simp only [step, hk]
    | some q =>
      simp only [step, hk, update]
      by_cases hj : j = q.target
      · subst hj
        exact Or.inr ⟨.inr q, by simp [driven, hk], Function.update_self _ _ _⟩
      · exact Or.inl (Function.update_of_ne hj _ _)

variable {s}

theorem step_act_self {i : Fin N} {input : Input N} :
    (s.step (.act i input)).nodes i = ((s.nodes i).step input).1 := Function.update_self _ _ _

theorem step_driven {a : Action N} {j : Fin N} {x : Input N ⊕ Packet N}
    (h : s.driven a = some (j, x)) : (s.step a).nodes j = (s.nodes j).handle x := by
  cases a with
  | act i input =>
    cases h
    exact step_act_self
  | deliver k =>
    obtain ⟨q, hk, heq⟩ := Option.map_eq_some_iff.mp h
    cases heq
    simp only [step, hk, update]
    exact Function.update_self _ _ _

theorem driven_input {a : Action N} {j : Fin N} {input : Input N}
    (h : s.driven a = some (j, .inl input)) : a = .act j input := by
  cases a with
  | act i input =>
    cases h
    rfl
  | deliver k =>
    obtain ⟨q, _, hq⟩ := Option.map_eq_some_iff.mp h
    cases hq

theorem driven_packet {a : Action N} {j : Fin N} {q : Packet N}
    (h : s.driven a = some (j, .inr q)) : q ∈ s.network := by
  cases a with
  | act i input => cases h
  | deliver k =>
    obtain ⟨q', hq', heq⟩ := Option.map_eq_some_iff.mp h
    cases heq
    exact List.mem_of_getElem? hq'

/-- A message under way was so before, or the step has sent it. -/
theorem network_step {a : Action N} {q : Packet N} (h : q ∈ (s.step a).network) :
    q ∈ s.network ∨ (∃ i input, a = .act i input ∧ q ∈ ((s.nodes i).step input).2) ∨
      ∃ q', s.driven a = some (q'.target, .inr q') ∧
        q ∈ ((s.nodes q'.target).receive q').2 := by
  cases a with
  | act i input =>
    rcases List.mem_append.mp h with h | h
    · exact Or.inl h
    · exact Or.inr (Or.inl ⟨i, input, rfl, h⟩)
  | deliver k =>
    cases hk : s.network[k]? with
    | none =>
      simp only [step, hk] at h
      exact Or.inl h
    | some q' =>
      simp only [step, hk] at h
      rcases List.mem_append.mp h with h | h
      · exact Or.inl (List.mem_of_mem_eraseIdx h)
      · exact Or.inr (Or.inr ⟨q', by simp only [driven, hk, Option.map_some], h⟩)

/-- In a cluster without snapshots every step is a move of the node it drives. -/
theorem Tidy.moves (h : s.Tidy) {a : Action N} {j : Fin N} {x : Input N ⊕ Packet N}
    (hx : s.driven a = some (j, x)) : Node.Moves x (s.nodes j) ((s.nodes j).handle x) := by
  refine Node.moves_handle (h.node j).plain fun q hq => ?_
  subst hq
  exact h.packet q (driven_packet hx)

end Cluster

end MyKvRaft
