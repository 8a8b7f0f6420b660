import MyKvRaft.Raft.Cluster

/-!
# What the handlers do

One lemma per member function of `Raft` that changes the term, the vote, the
status, the log or the commit index: the cases it can end in, with the guards
that lead there. Nothing below unfolds these functions again.
-/

namespace MyKvRaft

/-- A function goes on after an assertion only if it holds. -/
theorem myAssert_eq_some {α : Type} {cond : Prop} [Decidable cond] {rest : Option α} {x : α} :
    myAssert cond rest = some x ↔ cond ∧ rest = some x := by
  unfold myAssert
  split_ifs with h
  · simp [h]
  · simp [h]

namespace Raft

variable {N : ℕ} (rf : Raft N)

/-! ## Persisting changes nothing else -/

@[simp] theorem persist_me : rf.persist.me = rf.me := rfl
@[simp] theorem persist_currentTerm : rf.persist.currentTerm = rf.currentTerm := rfl
@[simp] theorem persist_votedFor : rf.persist.votedFor = rf.votedFor := rfl
@[simp] theorem persist_logs : rf.persist.logs = rf.logs := rfl
@[simp] theorem persist_commitIndex : rf.persist.commitIndex = rf.commitIndex := rfl
@[simp] theorem persist_lastApplied : rf.persist.lastApplied = rf.lastApplied := rfl
@[simp] theorem persist_nextIndex : rf.persist.nextIndex = rf.nextIndex := rfl
@[simp] theorem persist_matchIndex : rf.persist.matchIndex = rf.matchIndex := rfl
@[simp] theorem persist_status : rf.persist.status = rf.status := rfl
@[simp] theorem persist_lastSnapshotIncludeIndex :
    rf.persist.lastSnapshotIncludeIndex = rf.lastSnapshotIncludeIndex := rfl
@[simp] theorem persist_lastSnapshotIncludeTerm :
    rf.persist.lastSnapshotIncludeTerm = rf.lastSnapshotIncludeTerm := rfl
@[simp] theorem persist_pendingEntries : rf.persist.pendingEntries = rf.pendingEntries := rfl
@[simp] theorem persist_batchRunning : rf.persist.batchRunning = rf.batchRunning := rfl
@[simp] theorem persist_batchSenderThread :
    rf.persist.batchSenderThread = rf.batchSenderThread := rfl

/-- `persist` returns after the file has been written. -/
@[simp] theorem persist_raftFile : rf.persist.persister.raftFile = some rf.persistDate :=
  rf.persister.persistRaftState_file rf.persistDate

/-! ## Terms -/

theorem seeTerm_of_le {rf : Raft N} {term : ℤ} (h : rf.currentTerm ≤ term) :
    (rf.seeTerm term).currentTerm = term := by
  unfold seeTerm
  split_ifs with hgt
  · rfl
  · show rf.currentTerm = term
    omega

@[simp] theorem seeTerm_me (term : ℤ) : (rf.seeTerm term).me = rf.me := by
  unfold seeTerm; split_ifs <;> rfl

@[simp] theorem seeTerm_logs (term : ℤ) : (rf.seeTerm term).logs = rf.logs := by
  unfold seeTerm; split_ifs <;> rfl

@[simp] theorem seeTerm_commitIndex (term : ℤ) :
    (rf.seeTerm term).commitIndex = rf.commitIndex := by
  unfold seeTerm; split_ifs <;> rfl

@[simp] theorem seeTerm_lastApplied (term : ℤ) :
    (rf.seeTerm term).lastApplied = rf.lastApplied := by
  unfold seeTerm; split_ifs <;> rfl

@[simp] theorem seeTerm_lastSnapshotIncludeIndex (term : ℤ) :
    (rf.seeTerm term).lastSnapshotIncludeIndex = rf.lastSnapshotIncludeIndex := by
  unfold seeTerm; split_ifs <;> rfl

@[simp] theorem seeTerm_lastSnapshotIncludeTerm (term : ℤ) :
    (rf.seeTerm term).lastSnapshotIncludeTerm = rf.lastSnapshotIncludeTerm := by
  unfold seeTerm; split_ifs <;> rfl

variable {rf}

/-! ## Elections -/

theorem sendRequestVote_cases {rf' : Raft N} {reply : RequestVoteReply} {k k' : ℤ}
    (h : rf.sendRequestVote reply k = some (rf', k')) :
    (reply.term > rf.currentTerm ∧ rf' = persist (rf.stepDown reply.term) ∧ k' = k) ∨
    (rf' = rf ∧ k' = k) ∨
    (reply.term = rf.currentTerm ∧ reply.votegranted = true ∧ k + 1 < majority N ∧
      rf' = rf ∧ k' = k + 1) ∨
    (reply.term = rf.currentTerm ∧ reply.votegranted = true ∧ majority N ≤ k + 1 ∧
      rf.status ≠ .Leader ∧ rf' = rf.becomeLeader ∧ k' = 0) := by
  unfold sendRequestVote myAssert at h
  dsimp only at h
  split_ifs at h with h1 h2 h3 h4 h5 h6
  · cases h; exact Or.inl ⟨h1, rfl, rfl⟩
  · cases h; exact Or.inr (Or.inl ⟨rfl, rfl⟩)
  · cases h; exact Or.inr (Or.inl ⟨rfl, rfl⟩)
  · cases h
    exact Or.inr (Or.inr (Or.inr ⟨h3, by simpa using h4, h5, h6, rfl, rfl⟩))
  · cases h
    exact Or.inr (Or.inr (Or.inl ⟨h3, by simpa using h4, by omega, rfl, rfl⟩))

/-- `RequestVote1` refuses, or it votes for a candidate whose log it finds up to date. -/
theorem requestVote1_cases {rf' : Raft N} {args : RequestVoteArgs} {reply : RequestVoteReply}
    (h : rf.requestVote1 args = some (rf', reply)) :
    (args.term < rf.currentTerm ∧ rf' = rf.persist ∧ reply.votegranted = false) ∨
    (rf.currentTerm ≤ args.term ∧ rf' = persist (rf.seeTerm args.term) ∧
      reply.votegranted = false) ∨
    (rf.currentTerm ≤ args.term ∧ rf.uptodata args.lastlogindex args.lastlogterm = true ∧
      ((rf.seeTerm args.term).votedFor = -1 ∨ (rf.seeTerm args.term).votedFor = args.candidateid) ∧
      rf' = persist { rf.seeTerm args.term with votedFor := args.candidateid } ∧
      reply.term = args.term ∧ reply.votegranted = true) := by
  have hup : (rf.seeTerm args.term).uptodata args.lastlogindex args.lastlogterm =
      rf.uptodata args.lastlogindex args.lastlogterm := by
    unfold uptodata getLastLogTerm getLastLogIndex
    simp only [seeTerm_logs, seeTerm_lastSnapshotIncludeIndex, seeTerm_lastSnapshotIncludeTerm]
  unfold requestVote1 myAssert at h
  by_cases hlt : args.term < rf.currentTerm
  · rw [if_pos hlt] at h
    cases h
    exact Or.inl ⟨hlt, rfl, rfl⟩
  · rw [if_neg hlt] at h
    have hle : rf.currentTerm ≤ args.term := by omega
    have hterm := seeTerm_of_le hle
    dsimp only at h
    rw [if_pos hterm.symm, hup] at h
    split_ifs at h with h1 h2
    · cases h; exact Or.inr (Or.inl ⟨hle, rfl, rfl⟩)
    · cases h; exact Or.inr (Or.inl ⟨hle, rfl, rfl⟩)
    · cases h
      refine Or.inr (Or.inr ⟨hle, by simpa using h1, ?_, rfl, hterm, rfl⟩)
      by_contra hne
      push Not at hne
      exact h2 hne

/-! ## Following a leader -/

/-- The node as `AppendEntries1` leaves it before it looks at the log. -/
def follow (rf : Raft N) (term : ℤ) : Raft N := { rf.seeTerm term with status := .Follower }

@[simp] theorem follow_logs (term : ℤ) : (rf.follow term).logs = rf.logs := by
  simp [follow]

@[simp] theorem follow_commitIndex (term : ℤ) :
    (rf.follow term).commitIndex = rf.commitIndex := by
  simp [follow]

@[simp] theorem follow_lastSnapshotIncludeIndex (term : ℤ) :
    (rf.follow term).lastSnapshotIncludeIndex = rf.lastSnapshotIncludeIndex := by
  simp [follow]

@[simp] theorem follow_lastSnapshotIncludeTerm (term : ℤ) :
    (rf.follow term).lastSnapshotIncludeTerm = rf.lastSnapshotIncludeTerm := by
  simp [follow]

theorem follow_currentTerm {term : ℤ} (h : rf.currentTerm ≤ term) :
    (rf.follow term).currentTerm = term := seeTerm_of_le h

/-- `AppendEntries1` past its term check, with everything it reads taken from the node before. -/
theorem appendEntries1_eq {args : AppendEntriesArgs} (hle : rf.currentTerm ≤ args.term) :
    rf.appendEntries1 args =
      if args.prevlogindex > rf.getLastLogIndex then
        some (persist (rf.follow args.term),
          ⟨args.term, false, rf.getLastLogIndex + 1, AppNormal⟩)
      else if args.prevlogindex < rf.lastSnapshotIncludeIndex then
        some (persist (rf.follow args.term),
          ⟨args.term, false, rf.lastSnapshotIncludeIndex + 1, AppNormal⟩)
      else if rf.matchLog args.prevlogindex args.prevlogterm then
        (rf.follow args.term).acceptEntries args
      else some (persist (rf.follow args.term),
        ⟨args.term, false, rf.mismatchHint args.prevlogindex, AppNormal⟩) := by
  have hterm := seeTerm_of_le hle
  have hlast : (rf.follow args.term).getLastLogIndex = rf.getLastLogIndex := by
    simp [getLastLogIndex]
  have hslice : (rf.follow args.term).getSlicesIndexFromLogIndex =
      rf.getSlicesIndexFromLogIndex := by
    funext index
    simp [getSlicesIndexFromLogIndex]
  have hmatch : (rf.follow args.term).matchLog args.prevlogindex args.prevlogterm =
      rf.matchLog args.prevlogindex args.prevlogterm := by
    unfold matchLog
    simp only [hlast, hslice, follow_logs, follow_lastSnapshotIncludeIndex,
      follow_lastSnapshotIncludeTerm]
  have hhint : (rf.follow args.term).mismatchHint args.prevlogindex =
      rf.mismatchHint args.prevlogindex := by
    unfold mismatchHint getLogTermFromLogIndex
    simp only [hslice, follow_logs, follow_lastSnapshotIncludeIndex,
      follow_lastSnapshotIncludeTerm]
  unfold appendEntries1 myAssert
  rw [if_neg (by omega)]
  dsimp only
  rw [if_pos hterm.symm]
  -- from here on the code only reads the node it has made a follower
  change (if args.prevlogindex > (rf.follow args.term).getLastLogIndex then
      some (persist (rf.follow args.term),
        (⟨(rf.follow args.term).currentTerm, false, (rf.follow args.term).getLastLogIndex + 1,
          AppNormal⟩ : AppendEntriesReply))
    else if args.prevlogindex < (rf.follow args.term).lastSnapshotIncludeIndex then
      some (persist (rf.follow args.term),
        ⟨(rf.follow args.term).currentTerm, false,
          (rf.follow args.term).lastSnapshotIncludeIndex + 1, AppNormal⟩)
    else if (rf.follow args.term).matchLog args.prevlogindex args.prevlogterm then
      (rf.follow args.term).acceptEntries args
    else some (persist (rf.follow args.term),
      ⟨(rf.follow args.term).currentTerm, false,
        (rf.follow args.term).mismatchHint args.prevlogindex, AppNormal⟩)) = _
  rw [hlast, hmatch, hhint, follow_lastSnapshotIncludeIndex, follow_currentTerm hle]

theorem appendEntries1_cases {rf' : Raft N} {args : AppendEntriesArgs}
    {reply : AppendEntriesReply} (h : rf.appendEntries1 args = some (rf', reply)) :
    (args.term < rf.currentTerm ∧ rf' = rf ∧ reply.success = false) ∨
    (rf.currentTerm ≤ args.term ∧ rf' = persist (rf.follow args.term) ∧ reply.success = false) ∨
    (rf.currentTerm ≤ args.term ∧ args.prevlogindex ≤ rf.getLastLogIndex ∧
      rf.lastSnapshotIncludeIndex ≤ args.prevlogindex ∧
      rf.matchLog args.prevlogindex args.prevlogterm = true ∧
      (rf.follow args.term).acceptEntries args = some (rf', reply)) := by
  by_cases hlt : args.term < rf.currentTerm
  · unfold appendEntries1 at h
    rw [if_pos hlt] at h
    cases h
    exact Or.inl ⟨hlt, rfl, rfl⟩
  · have hle : rf.currentTerm ≤ args.term := by omega
    rw [appendEntries1_eq hle] at h
    split_ifs at h with h1 h2 h3
    · cases h; exact Or.inr (Or.inl ⟨hle, rfl, rfl⟩)
    · cases h; exact Or.inr (Or.inl ⟨hle, rfl, rfl⟩)
    · exact Or.inr (Or.inr ⟨hle, by omega, by omega, h3, h⟩)
    · cases h; exact Or.inr (Or.inl ⟨hle, rfl, rfl⟩)

/-- The entry loop changes nothing but the log. -/
theorem appendEntry_eq {rf' : Raft N} {log : LogEntry} (h : rf.appendEntry log = some rf') :
    rf' = { rf with logs := rf'.logs } := by
  unfold appendEntry myAssert at h
  split_ifs at h
  · cases h; rfl
  · dsimp only at h
    split at h
    · cases h
    · split_ifs at h
      all_goals cases h; rfl

theorem foldlM_appendEntry_eq {rf' : Raft N} {entries : List LogEntry}
    (h : entries.foldlM appendEntry rf = some rf') : rf' = { rf with logs := rf'.logs } := by
  induction entries generalizing rf with
  | nil => simp at h; subst h; rfl
  | cons e es ih =>
    rw [List.foldlM_cons, Option.bind_eq_bind, Option.bind_eq_some_iff] at h
    obtain ⟨rf₁, h1, h2⟩ := h
    rw [ih h2, appendEntry_eq h1]

theorem acceptEntries_cases {rf' : Raft N} {args : AppendEntriesArgs} {reply : AppendEntriesReply}
    (h : rf.acceptEntries args = some (rf', reply)) :
    ∃ logs, args.entries.foldlM appendEntry rf = some { rf with logs := logs } ∧
      args.prevlogindex + args.entries.length ≤ rf.lastSnapshotIncludeIndex + logs.length ∧
      rf' = persist { rf with
        logs := logs
        commitIndex := followerCommit rf.commitIndex args.leadercommit
          (rf.lastSnapshotIncludeIndex + logs.length) } ∧
      rf'.commitIndex ≤ rf.lastSnapshotIncludeIndex + logs.length ∧
      reply = { appstate := AppNormal, success := true, term := rf.currentTerm } := by
  unfold acceptEntries at h
  cases hfold : args.entries.foldlM appendEntry rf with
  | none => simp [hfold] at h
  | some rf₁ =>
    rw [hfold] at h
    have heq := foldlM_appendEntry_eq hfold
    obtain ⟨logs, rfl⟩ : ∃ logs, rf₁ = { rf with logs := logs } := ⟨_, heq⟩
    dsimp only at h
    rw [myAssert_eq_some, myAssert_eq_some] at h
    obtain ⟨h1, h2, h3⟩ := h
    cases h3
    exact ⟨logs, rfl, h1, rfl, h2, rfl⟩

/-! ## Leading -/

@[simp] theorem startBatchSenderThread_fields (rf : Raft N) :
    rf.startBatchSenderThread.me = rf.me ∧
    rf.startBatchSenderThread.currentTerm = rf.currentTerm ∧
    rf.startBatchSenderThread.votedFor = rf.votedFor ∧
    rf.startBatchSenderThread.logs = rf.logs ∧
    rf.startBatchSenderThread.commitIndex = rf.commitIndex ∧
    rf.startBatchSenderThread.lastApplied = rf.lastApplied ∧
    rf.startBatchSenderThread.nextIndex = rf.nextIndex ∧
    rf.startBatchSenderThread.matchIndex = rf.matchIndex ∧
    rf.startBatchSenderThread.status = rf.status ∧
    rf.startBatchSenderThread.lastSnapshotIncludeIndex = rf.lastSnapshotIncludeIndex ∧
    rf.startBatchSenderThread.lastSnapshotIncludeTerm = rf.lastSnapshotIncludeTerm ∧
    rf.startBatchSenderThread.pendingEntries = rf.pendingEntries ∧
    rf.startBatchSenderThread.persister = rf.persister := by
  unfold startBatchSenderThread
  split_ifs <;> simp

theorem becomeLeader_fields (rf : Raft N) :
    rf.becomeLeader.me = rf.me ∧ rf.becomeLeader.currentTerm = rf.currentTerm ∧
      rf.becomeLeader.votedFor = rf.votedFor ∧ rf.becomeLeader.logs = rf.logs ∧
      rf.becomeLeader.status = .Leader ∧ rf.becomeLeader.commitIndex = rf.commitIndex ∧
      rf.becomeLeader.lastApplied = rf.lastApplied ∧
      rf.becomeLeader.lastSnapshotIncludeIndex = rf.lastSnapshotIncludeIndex ∧
      rf.becomeLeader.lastSnapshotIncludeTerm = rf.lastSnapshotIncludeTerm := by
  unfold becomeLeader
  simp

/-- A new leader starts from the end of its own log, and keeps the batches of earlier terms. -/
theorem becomeLeader_peers (rf : Raft N) :
    rf.becomeLeader.nextIndex = (fun _ => rf.getLastLogIndex + 1) ∧
      rf.becomeLeader.matchIndex = (fun _ => 0) ∧
      rf.becomeLeader.pendingEntries = rf.pendingEntries := by
  unfold becomeLeader
  simp

/-- A rejected request moves at most the peer's `nextIndex`. -/
theorem handleLogMismatch_eq (rf : Raft N) (peerId : Fin N) (reply : AppendEntriesReply) :
    ∃ nextIdx, rf.handleLogMismatch peerId reply =
      { rf with nextIndex := Function.update rf.nextIndex peerId nextIdx } := by
  unfold handleLogMismatch
  split_ifs
  · exact ⟨rf.nextIndex peerId, by rw [Function.update_eq_self]⟩
  · exact ⟨_, rfl⟩
  · exact ⟨_, rfl⟩

/-- The peer's indices after a successful reply. -/
def synced (rf : Raft N) (peerId : Fin N) (args : AppendEntriesArgs) : Raft N :=
  let newMatchIndex := max (rf.matchIndex peerId) (args.prevlogindex + args.entries.length)
  { rf with
    matchIndex := Function.update rf.matchIndex peerId newMatchIndex
    nextIndex := Function.update rf.nextIndex peerId (newMatchIndex + 1) }

theorem updatePeerSyncState_eq {peerId : Fin N} {args : AppendEntriesArgs} {k : ℤ}
    {x : Raft N × ℤ} (h : rf.updatePeerSyncState peerId args k = some x) :
    x = (rf.synced peerId args, k + 1) := by
  unfold updatePeerSyncState at h
  dsimp only at h
  rw [myAssert_eq_some] at h
  exact (Option.some.inj h.2).symm

/-- What a count can do: nothing yet, end, or end and move the commit index, if the request ends in
    an entry of the current term. -/
theorem tryUpdateCommitIndex_cases {rf' : Raft N} {args : AppendEntriesArgs} {k k' : ℤ}
    (h : rf.tryUpdateCommitIndex args k = some (rf', k')) :
    (k < majority N ∧ rf' = rf ∧ k' = k) ∨
    (majority N ≤ k ∧ (∀ e, args.entries.getLast? = some e → e.logterm ≠ rf.currentTerm) ∧
      rf' = rf ∧ k' = 0) ∨
    (majority N ≤ k ∧ (∃ e, args.entries.getLast? = some e ∧ e.logterm = rf.currentTerm) ∧
      rf' = { rf with
        commitIndex := max rf.commitIndex (args.prevlogindex + args.entries.length) } ∧
      rf'.commitIndex ≤ rf.getLastLogIndex ∧ k' = 0) := by
  unfold tryUpdateCommitIndex at h
  by_cases hk : k < majority N
  · rw [if_pos hk] at h
    cases h
    exact Or.inl ⟨hk, rfl, rfl⟩
  rw [if_neg hk] at h
  dsimp only at h
  rw [myAssert_eq_some] at h
  obtain ⟨hc, h⟩ := h
  have hk' : majority N ≤ k := not_lt.mp hk
  cases hlast : args.entries.getLast? with
  | none =>
    simp only [hlast] at h
    cases h
    exact Or.inr (Or.inl ⟨hk', by simp, rfl, rfl⟩)
  | some e =>
    simp only [hlast] at h hc
    by_cases he : e.logterm = rf.currentTerm
    · simp only [he, if_true] at h hc
      cases h
      exact Or.inr (Or.inr ⟨hk', ⟨e, rfl, he⟩, rfl, hc, rfl⟩)
    · simp only [he, if_false] at h
      cases h
      refine Or.inr (Or.inl ⟨hk', ?_, rfl, rfl⟩)
      rintro e' ⟨⟩
      exact he

/-- What a reply to `AppendEntries` can do: nothing, end the leadership, move the peer's
    `nextIndex` back, or count; only a count that completes a majority for a request that ends in
    an entry of the current term moves the commit index. -/
theorem sendAppendEntries_cases {rf' : Raft N} {peerId : Fin N} {args : AppendEntriesArgs}
    {reply : AppendEntriesReply} {k k' : ℤ}
    (h : rf.sendAppendEntries peerId args reply k = some (rf', k')) :
    (rf' = rf ∧ k' = k ∧
      (reply.appstate = Disconnected ∨ reply.term < rf.currentTerm ∨ rf.status ≠ .Leader)) ∨
    (reply.term > rf.currentTerm ∧ rf' = persist (rf.stepDown reply.term) ∧ k' = k) ∨
    (rf.status = .Leader ∧ reply.term = rf.currentTerm ∧ reply.success = false ∧
      rf' = rf.handleLogMismatch peerId reply ∧ k' = k) ∨
    (rf.status = .Leader ∧ reply.term = rf.currentTerm ∧ reply.success = true ∧
      k + 1 < majority N ∧ rf' = rf.synced peerId args ∧ k' = k + 1) ∨
    (rf.status = .Leader ∧ reply.term = rf.currentTerm ∧ reply.success = true ∧
      majority N ≤ k + 1 ∧ (∀ e, args.entries.getLast? = some e → e.logterm ≠ rf.currentTerm) ∧
      rf' = rf.synced peerId args ∧ k' = 0) ∨
    (rf.status = .Leader ∧ reply.term = rf.currentTerm ∧ reply.success = true ∧
      majority N ≤ k + 1 ∧ (∃ e, args.entries.getLast? = some e ∧ e.logterm = rf.currentTerm) ∧
      rf' = { rf.synced peerId args with
        commitIndex := max rf.commitIndex (args.prevlogindex + args.entries.length) } ∧
      rf'.commitIndex ≤ rf.getLastLogIndex ∧ k' = 0) := by
  unfold sendAppendEntries at h
  by_cases hd : reply.appstate = Disconnected
  · rw [if_pos hd] at h
    cases h
    exact Or.inl ⟨rfl, rfl, Or.inl hd⟩
  rw [if_neg hd] at h
  unfold handleTermMismatch at h
  by_cases hgt : reply.term > rf.currentTerm
  · simp only [hgt, if_true] at h
    cases h
    exact Or.inr (Or.inl ⟨hgt, rfl, rfl⟩)
  simp only [hgt, if_false] at h
  by_cases hlt : reply.term < rf.currentTerm
  · simp only [hlt, decide_true, if_true] at h
    cases h
    exact Or.inl ⟨rfl, rfl, Or.inr (Or.inl hlt)⟩
  simp only [hlt, decide_false, Bool.false_eq_true, if_false] at h
  by_cases hl : rf.status ≠ .Leader
  · rw [if_pos hl] at h
    cases h
    exact Or.inl ⟨rfl, rfl, Or.inr (Or.inr hl)⟩
  rw [if_neg hl, myAssert_eq_some] at h
  obtain ⟨hterm, h⟩ := h
  have hlead : rf.status = .Leader := not_not.mp hl
  cases hs : reply.success with
  | false =>
    simp only [hs, Bool.not_false, if_true] at h
    cases h
    exact Or.inr (Or.inr (Or.inl ⟨hlead, hterm, rfl, rfl, rfl⟩))
  | true =>
    simp only [hs, Bool.not_true, Bool.false_eq_true, if_false] at h
    cases hsync : rf.updatePeerSyncState peerId args k with
    | none => simp [hsync] at h
    | some x =>
      rw [hsync] at h
      obtain rfl := updatePeerSyncState_eq hsync
      rcases tryUpdateCommitIndex_cases h with ⟨hk, rfl, rfl⟩ | ⟨hk, hlast, rfl, rfl⟩ |
        ⟨hk, hlast, rfl, hc, rfl⟩
      · exact Or.inr (Or.inr (Or.inr (Or.inl ⟨hlead, hterm, rfl, hk, rfl, rfl⟩)))
      · exact Or.inr (Or.inr (Or.inr (Or.inr (Or.inl
          ⟨hlead, hterm, rfl, hk, hlast, rfl, rfl⟩))))
      · exact Or.inr (Or.inr (Or.inr (Or.inr (Or.inr
          ⟨hlead, hterm, rfl, hk, hlast, rfl, hc, rfl⟩))))

/-! ## Client commands -/

theorem start_eq (hl : rf.status = .Leader) (command : Op) (now : ℤ) :
    (rf.start command now).1 =
      (persist { rf with logs := rf.logs ++ [rf.newEntry command] }).addToPendingBatch
        (rf.newEntry command) now := by
  unfold start
  rw [if_neg (not_not.mpr hl)]

/-- A command is appended to the log and put into the buffer of every peer. -/
theorem start_pendingEntries (hl : rf.status = .Leader) (command : Op) (now : ℤ) {p : Fin N}
    (hp : p ≠ rf.me) : ((rf.start command now).1.pendingEntries p).entries =
      (rf.pendingEntries p).entries ++ [rf.newEntry command] := by
  rw [start_eq hl]
  simp [addToPendingBatch, hp]

/-! ## Applying -/

/-- `applierTicker` moves `lastApplied` to the commit index and hands out the entries between. -/
theorem applierTicker_eq {rf' : Raft N} {msgs : List ApplyMsg}
    (h : rf.applierTicker = some (rf', msgs)) :
    rf' = { rf with lastApplied := max rf.lastApplied rf.commitIndex } ∧
      ((List.range (rf.commitIndex - rf.lastApplied).toNat).map
        fun k : ℕ => rf.lastApplied + 1 + k).mapM (fun index =>
          (slot rf.logs (rf.getSlicesIndexFromLogIndex index)).map fun entry =>
            ApplyMsg.ofCommand index entry.command) = some msgs := by
  unfold applierTicker at h
  dsimp only at h
  split at h
  · cases h
  · next hm =>
    cases h
    exact ⟨rfl, hm⟩

end Raft

namespace Node

variable {N : ℕ}

theorem mem_heartBeatRpcs {nextRpc : ℕ} {rf : Raft N} {r : Rpc N AppendEntriesArgs}
    (h : r ∈ heartBeatRpcs nextRpc rf) :
    r.src = rf.me ∧ r.dst ≠ rf.me ∧ r.args = rf.heartBeatArgs r.dst ∧ nextRpc ≤ r.id := by
  obtain ⟨x, hx, rfl⟩ := List.mem_map.mp h
  have hmem := List.mem_of_getElem? (List.mem_zipIdx_iff_getElem?.mp hx)
  have hne := (List.mem_filter.mp hmem).2
  simp only [decide_eq_true_eq] at hne
  exact ⟨rfl, hne.1, rfl, Nat.le_add_right _ _⟩

/-- After the clamp every peer's `nextIndex` is at least 1. -/
theorem clampNextIndex_pos {rf : Raft N} {p : Fin N} (hp : p ≠ rf.me) :
    1 ≤ (clampNextIndex rf).nextIndex p := by
  unfold clampNextIndex Raft.heartBeatNextIndex
  dsimp only
  rw [if_neg hp]
  split_ifs <;> omega

end Node

end MyKvRaft
