import MyKvRaft.Leader.Streams
import MyKvRaft.Safety.Commit

/-!
# No assertion fails

`myAssert` ends the process when its condition is false. In a cluster started with
empty files it never does: a term is won once (`Elections`), every entry reaches a
peer once and in order (`Streams`), and indices stay within the log (`InRange`).

* `no_assertion_fails`: no handler of any node fails an assertion in any run.
* `Ranged.step`: `m_lastApplied`, `m_commitIndex` and the length of the log stay in this
  order, and the first two grow while a process lives.
-/

namespace MyKvRaft

open Consensus Transition Raft

variable {N : ℕ}

/-! ## The commit index and the log -/

/-- The indices of a node are in order. -/
structure Node.InRange (n : Node N) : Prop where
  nonneg : 0 ≤ n.rf.lastApplied
  applied : n.rf.lastApplied ≤ n.rf.commitIndex
  committed : n.rf.commitIndex ≤ n.rf.logs.length

/-- What is committed and applied stays so. -/
structure Node.Grown (n n' : Node N) : Prop where
  commitIndex : n.rf.commitIndex ≤ n'.rf.commitIndex
  lastApplied : n.rf.lastApplied ≤ n'.rf.lastApplied

/-- The indices of every node are in order. -/
def Ranged (s : Cluster N) : Prop := ∀ i, (s.nodes i).InRange

theorem ranged_init : Ranged (Cluster.init N) := fun _ => ⟨le_rfl, le_rfl, le_rfl⟩

namespace Node

variable {n n' : Node N}

theorem InRange.restart (hs : n.rf.Saved) (hsnap : n.rf.NoSnapshot) : n.restart.InRange := by
  have hcommit : n.restart.rf.commitIndex = 0 := init_commitIndex _ _
  have hindex : n.restart.rf.lastSnapshotIncludeIndex = 0 := by
    have hdate : n.rf.restart.persistDate = n.rf.persistDate := (restart_persistDate _).trans hs
    have := congrArg PersistRaftNode.lastSnapshotIncludeIndex hdate
    exact this.trans hsnap.index
  have hlast : n.restart.rf.lastApplied = 0 := by
    have hinit : n.restart.rf.lastApplied = max 0 n.restart.rf.lastSnapshotIncludeIndex :=
      init_lastApplied _ _
    rw [hinit, hindex, max_self]
  refine ⟨hlast.ge, ?_, ?_⟩
  · rw [hlast, hcommit]
  · rw [hcommit]
    exact Int.natCast_nonneg _

theorem InRange.steady (h : n.InRange) (hsteady : Steady n n')
    (hlen : n.rf.logs.length ≤ n'.rf.logs.length) : n'.InRange ∧ Grown n n' := by
  have hcommitted := h.committed
  refine ⟨⟨?_, ?_, ?_⟩, ?_, ?_⟩
  · rw [hsteady.lastApplied]
    exact h.nonneg
  · rw [hsteady.lastApplied, hsteady.commitIndex]
    exact h.applied
  · rw [hsteady.commitIndex]
    omega
  · exact hsteady.commitIndex.ge
  · exact hsteady.lastApplied.ge

/-- A follower that accepts a request moves its commit index forward, and not past its log. -/
theorem InRange.accept (h : n.InRange) (hsnap : n.rf.NoSnapshot) {args : AppendEntriesArgs}
    {rf' : Raft N} {reply : AppendEntriesReply}
    (hacc : (n.rf.follow args.term).acceptEntries args = some (rf', reply)) :
    InRange { n with rf := rf' } ∧ Grown n { n with rf := rf' } := by
  obtain ⟨logs, hfold, _, hrf, hcommit, _⟩ := acceptEntries_cases hacc
  have hlen : n.rf.logs.length ≤ logs.length := by
    have := (foldlM_appendEntry_mem hfold).1
    rwa [show (n.rf.follow args.term).logs = n.rf.logs from seeTerm_logs _ _] at this
  have hzero : (n.rf.follow args.term).lastSnapshotIncludeIndex = 0 :=
    (seeTerm_lastSnapshotIncludeIndex _ _).trans hsnap.index
  have hlast : rf'.lastApplied = n.rf.lastApplied := by simp [hrf, follow]
  have hlogs : rf'.logs = logs := by rw [hrf]; rfl
  have hraise : n.rf.commitIndex ≤ rf'.commitIndex := by
    have hcommitted := h.committed
    have hvalue : rf'.commitIndex =
        followerCommit n.rf.commitIndex args.leadercommit logs.length := by
      rw [hrf, hzero]
      simp [follow]
    rw [hvalue]
    unfold followerCommit
    split_ifs <;> omega
  rw [hzero, zero_add] at hcommit
  refine ⟨⟨?_, ?_, ?_⟩, hraise, hlast.ge⟩
  · show 0 ≤ rf'.lastApplied
    rw [hlast]
    exact h.nonneg
  · show rf'.lastApplied ≤ rf'.commitIndex
    rw [hlast]
    exact h.applied.trans hraise
  · show rf'.commitIndex ≤ rf'.logs.length
    rw [hlogs]
    exact hcommit

end Node

section Ranged

variable {s : Cluster N} {b : Ballot (Fin N) LogEntry}

/-- Given `x`, the process ends. -/
def Node.Stops (n : Node N) : Input N ⊕ Packet N → Prop
  | .inl input => n.Ends input
  | .inr q => n.Fails (.inr q)

/-- A step of node `i`: the process ends and starts again, or its indices stay in order and
    grow. -/
theorem Ranged.handle (h : Ranged s) (hb : Buffers s b) {a : Action N} {i : Fin N}
    {x : Input N ⊕ Packet N} (hx : s.driven a = some (i, x)) :
    ((s.nodes i).Stops x ∧ (s.nodes i).handle x = (s.nodes i).restart) ∨
      (((s.nodes i).handle x).InRange ∧ Node.Grown (s.nodes i) ((s.nodes i).handle x)) := by
  have hn := h i
  have htidy := hb.tidy.node i
  have hlen := (hb.tidy.moves hx).length_le htidy.saved
  cases x with
  | inl input =>
    rcases (s.nodes i).step_commit input with ⟨hwhy, hres⟩ | hsteady | ⟨_, hres⟩ |
      ⟨rf', msgs, _, happ, hres⟩
    · exact .inl ⟨hwhy, hres⟩
    · exact .inr (hn.steady hsteady hlen)
    · refine .inr ?_
      simp only [Node.handle, hres]
      exact ⟨⟨hn.nonneg, hn.applied, hn.committed⟩, le_rfl, le_rfl⟩
    · refine .inr ?_
      have hnonneg := hn.nonneg
      have hcommitted := hn.committed
      simp only [Node.handle, hres, (applierTicker_eq happ).1]
      refine ⟨⟨?_, ?_, hcommitted⟩, le_rfl, le_max_left _ _⟩
      · exact le_max_of_le_left hnonneg
      · exact max_le hn.applied le_rfl
  | inr q =>
    rcases (s.nodes i).receive_commit (hb.tidy.packet q (Cluster.driven_packet hx)) with
      ⟨hwhy, hres⟩ | hsteady | ⟨r, rf', reply, rfl, _, _, hacc, hres⟩ | ⟨r, reply, rfl, hraised⟩
    · exact .inl ⟨hwhy, hres⟩
    · exact .inr (hn.steady hsteady hlen)
    · refine .inr ?_
      simp only [Node.handle, hres]
      exact hn.accept htidy.plain.snap hacc
    · refine .inr ?_
      obtain ⟨call, hfind, _⟩ := hraised.count
      obtain ⟨hmem, hcall⟩ := Node.call_of_find? hfind
      have hbound := ((hb.node i).calls call hmem).1
      rw [hcall] at hbound
      have hcommitted := hn.committed
      simp only [Node.handle]
      refine ⟨⟨?_, ?_, ?_⟩, ?_, ?_⟩
      · rw [hraised.result]
        exact hn.nonneg
      · rw [hraised.result]
        exact hn.applied.trans (le_max_left _ _)
      · rw [hraised.result]
        exact max_le hcommitted hbound
      · rw [hraised.result]
        exact le_max_left _ _
      · rw [hraised.result]
        exact le_rfl

/-- Every step keeps the indices in order. -/
theorem Ranged.step (h : Ranged s) (hb : Buffers s b) (a : Action N) : Ranged (s.step a) := by
  intro i
  rcases s.step_nodes a i with heq | ⟨x, hx, heq⟩
  · rw [heq]
    exact h i
  · rw [heq]
    rcases h.handle hb hx with ⟨_, hres⟩ | hres
    · rw [hres]
      exact Node.InRange.restart (hb.tidy.node i).saved (hb.tidy.node i).plain.snap
    · exact hres.1

end Ranged

/-! ## The assertions -/

namespace Raft

theorem requestVote1_ne_none (rf : Raft N) (args : RequestVoteArgs) :
    rf.requestVote1 args ≠ none := by
  unfold requestVote1 myAssert
  by_cases hlt : args.term < rf.currentTerm
  · rw [if_pos hlt]
    exact Option.some_ne_none _
  · rw [if_neg hlt]
    dsimp only
    rw [if_pos (seeTerm_of_le (by omega)).symm]
    split_ifs <;> exact Option.some_ne_none _

/-- A node is elected a second time in a term it leads, or no assertion fails. -/
theorem sendRequestVote_eq_none {rf : Raft N} {reply : RequestVoteReply} {k : ℤ}
    (h : rf.sendRequestVote reply k = none) :
    reply.term = rf.currentTerm ∧ reply.votegranted = true ∧ majority N ≤ k + 1 ∧
      rf.status = .Leader := by
  unfold sendRequestVote myAssert at h
  dsimp only at h
  split_ifs at h with h1 h2 h3 h4 h5 h6
  · exact ⟨h3, by simpa using h4, h5, not_not.mp h6⟩
  · omega

/-- The assertions of a leader hold as long as its indices are within its log. -/
theorem sendAppendEntries_ne_none {rf : Raft N} {peerId : Fin N} {args : AppendEntriesArgs}
    {reply : AppendEntriesReply} {k : ℤ} (hmatch : rf.matchIndex peerId ≤ rf.getLastLogIndex)
    (hcommit : rf.commitIndex ≤ rf.getLastLogIndex)
    (hargs : args.prevlogindex + args.entries.length ≤ rf.getLastLogIndex) :
    rf.sendAppendEntries peerId args reply k ≠ none := by
  have hsync : rf.updatePeerSyncState peerId args k = some (rf.synced peerId args, k + 1) := by
    unfold updatePeerSyncState
    dsimp only
    rw [myAssert_eq_some]
    refine ⟨?_, rfl⟩
    show max (rf.matchIndex peerId) _ ≤ rf.getLastLogIndex + 1
    omega
  have hcount : (rf.synced peerId args).tryUpdateCommitIndex args (k + 1) ≠ none := by
    unfold tryUpdateCommitIndex
    split_ifs
    · exact Option.some_ne_none _
    · dsimp only
      unfold myAssert
      rw [if_pos]
      · exact Option.some_ne_none _
      · cases args.entries.getLast? with
        | none => exact hcommit
        | some e =>
          dsimp only
          split_ifs
          · exact max_le hcommit hargs
          · exact hcommit
  unfold sendAppendEntries handleTermMismatch
  by_cases hdisc : reply.appstate = Disconnected
  · rw [if_pos hdisc]
    exact Option.some_ne_none _
  · rw [if_neg hdisc]
    by_cases hgt : reply.term > rf.currentTerm
    · rw [if_pos hgt]
      exact Option.some_ne_none _
    · rw [if_neg hgt]
      dsimp only
      by_cases hstop : reply.term < rf.currentTerm
      · rw [if_pos (decide_eq_true hstop)]
        exact Option.some_ne_none _
      · have hterm : reply.term = rf.currentTerm := by omega
        rw [if_neg (by simpa using hstop), hsync]
        unfold myAssert
        rw [if_pos hterm]
        split_ifs
        · exact Option.some_ne_none _
        · exact Option.some_ne_none _
        · exact hcount

end Raft

section Fails

variable {s : Cluster N} {b : Ballot (Fin N) LogEntry}

/-- The request handler's assertions. -/
theorem Streams.appendEntries1_ne_none (h : Streams s b) (hrange : Ranged s)
    {r : Rpc N AppendEntriesArgs} (hr : .appendEntries r ∈ s.network) :
    (s.nodes r.dst).rf.appendEntries1 r.args ≠ none := by
  have hsnap := (h.buffers.tidy.node r.dst).plain.snap
  have hcommitted := (hrange r.dst).committed
  have hlogs : ((s.nodes r.dst).rf.follow r.args.term).logs = (s.nodes r.dst).rf.logs :=
    seeTerm_logs _ _
  have hzero : ((s.nodes r.dst).rf.follow r.args.term).lastSnapshotIncludeIndex = 0 :=
    (seeTerm_lastSnapshotIncludeIndex _ _).trans hsnap.index
  have hlast : ((s.nodes r.dst).rf.follow r.args.term).getLastLogIndex =
      (s.nodes r.dst).rf.logs.length := by
    rw [getLastLogIndex, hzero, hlogs, zero_add]
  unfold appendEntries1
  by_cases hlt : r.args.term < (s.nodes r.dst).rf.currentTerm
  · rw [if_pos hlt]
    exact Option.some_ne_none _
  · rw [if_neg hlt]
    dsimp only
    unfold myAssert
    rw [if_pos (seeTerm_of_le (by omega)).symm]
    change (if r.args.prevlogindex > ((s.nodes r.dst).rf.follow r.args.term).getLastLogIndex then
        some _ else if _ then some _ else if _ then
          ((s.nodes r.dst).rf.follow r.args.term).acceptEntries r.args else some _) ≠ none
    split_ifs with hprev _ _
    · exact Option.some_ne_none _
    · exact Option.some_ne_none _
    · -- the entry loop runs through, and the log reaches past the request and the commit index
      rw [hlast, not_lt] at hprev
      obtain ⟨rf', hfold, hend, _⟩ := h.accepts hr hprev
      have hgrow := (Node.foldlM_appendEntry_mem hfold).1
      have hrf := foldlM_appendEntry_eq hfold
      have hlast' : rf'.getLastLogIndex = rf'.logs.length := by
        rw [getLastLogIndex, hrf, hzero, zero_add]
      have hcommit : rf'.commitIndex = (s.nodes r.dst).rf.commitIndex := by
        rw [hrf]
        simp [follow]
      rw [hlogs] at hgrow
      unfold acceptEntries
      rw [hfold]
      dsimp only
      unfold myAssert
      rw [if_pos (by rw [hlast']; exact hend), if_pos]
      · exact Option.some_ne_none _
      · show followerCommit rf'.commitIndex _ _ ≤ rf'.getLastLogIndex
        rw [hcommit, hlast']
        unfold followerCommit
        split_ifs <;> omega
    · exact Option.some_ne_none _

/-- No node fails an assertion on what it is given in such a state. -/
theorem Streams.not_fails (h : Streams s b) (hrange : Ranged s) {a : Action N} {i : Fin N}
    {x : Input N ⊕ Packet N} (hx : s.driven a = some (i, x)) : ¬ (s.nodes i).Fails x := by
  cases x with
  | inl input => exact id
  | inr q =>
    have hq := Cluster.driven_packet hx
    cases q with
    | requestVote r => exact (s.nodes i).rf.requestVote1_ne_none r.args
    | requestVoteReply r reply =>
      rintro ⟨e, he, hw, hnone⟩
      obtain ⟨hterm, hg, hmaj, hl⟩ := sendRequestVote_eq_none hnone
      have hfree := h.buffers.elections.leader_none hq ⟨⟨e, he, hw, hmaj⟩, hterm, hg⟩
      rw [h.buffers.elections.leader ⟨hl, rfl⟩] at hfree
      cases hfree
    | appendEntries r =>
      have htarget : r.dst = i := by
        cases a with
        | act j input => cases hx
        | deliver k =>
          obtain ⟨q', _, hpq⟩ := Option.map_eq_some_iff.mp hx
          cases hpq
          rfl
      subst htarget
      exact h.appendEntries1_ne_none hrange hq
    | appendEntriesReply r reply =>
      rintro ⟨call, hfind, hnone⟩
      obtain ⟨hmem, hcall⟩ := Node.call_of_find? hfind
      have hbuf := h.buffers.node i
      have hlast := (h.buffers.tidy.node i).plain.snap.getLastLogIndex
      refine sendAppendEntries_ne_none ?_ ?_ ?_ hnone
      · rw [hlast]
        exact hbuf.matchIndex r.dst
      · rw [hlast]
        exact (hrange i).committed
      · rw [hlast, ← hcall]
        exact (hbuf.calls call hmem).1
    | installSnapshot r => exact id
    | installSnapshotReply r resp => exact id

end Fails

/-- In every run of a cluster of any size started with empty files, with messages handled at most
    once and otherwise delayed, lost or reordered, and with any crashes: no node ever fails an
    assertion. -/
theorem no_assertion_fails (h : List (Cluster N × Action N)) (s : Cluster N)
    (hr : Cluster.Runs anyStep h s) (x : Cluster N × Action N) (hx : x ∈ h) (i : Fin N)
    (y : Input N ⊕ Packet N) (hy : x.1.driven x.2 = some (i, y)) : ¬ (x.1.nodes i).Fails y := by
  obtain ⟨b, _, hF⟩ := hr.simulate (R := fun s b => Streams s b ∧ Ranged s)
    (F := fun s a _ => ∀ i y, s.driven a = some (i, y) → ¬ (s.nodes i).Fails y)
    ⟨streams_init, ranged_init⟩
    (fun s a b hR _ => by
      obtain ⟨b', hle, hR'⟩ := hR.1.step a
      exact ⟨b', hle, ⟨hR', hR.2.step hR.1.buffers a⟩, fun i y hy => hR.1.not_fails hR.2 hy⟩)
    (fun s a b b' (_ : b.Le b') hF => hF)
  exact hF x hx i y hy

open MyKvRaft.Action in
/-- Node 1 votes for node 0, which wins term 1 and sends it a command's entry. -/
def deliveredRun : List (Action 3) := electionRun ++ [put 0 1] ++ batchRound 0

/-- Node 1 accepts the request of the leader. -/
theorem no_assertion_fails_deliveredRun :
    ((appendDelivered (Cluster.exec deliveredRun) (.deliver 0)).any fun r =>
      decide (r.dst = 1 ∧ r.args.entries.length = 1)) = true ∧
    ∀ i y, (Cluster.exec deliveredRun).driven (.deliver 0) = some (i, y) →
      ¬ ((Cluster.exec deliveredRun).nodes i).Fails y := by
  refine ⟨by decide +kernel, fun i y hy => ?_⟩
  exact no_assertion_fails _ _
    (Cluster.runs_exec (deliveredRun ++ .deliver 0 :: []) fun _ _ => trivial)
    (Cluster.exec deliveredRun, .deliver 0) (Cluster.mem_trace _ _ []) i y hy

end MyKvRaft
