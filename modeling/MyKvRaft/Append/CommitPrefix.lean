import MyKvRaft.Append.Accepted

/-!
# The commit index of a follower

`AppendEntries1` compares a log with the leader's up to `prevlogindex + entries_size()`,
but it moves the commit index to `min(leadercommit, getLastLogIndex())`. What is committed
in between has been compared with nothing.

* `commit_prefix_iff`: given log matching, the entries up to the commit index stay the
  leader's exactly if the unchecked ones are.
* `commit_prefix_fails`: a heartbeat, which carries no entries, commits an entry that the
  leader does not have.
-/

namespace MyKvRaft

open Raft

variable {N : ℕ}

namespace Raft

/-- The two logs have the same entries up to `index`, as far as neither has made a snapshot
    of them. -/
def AgreesUpTo (rf lf : Raft N) (index : ℤ) : Prop :=
  ∀ j : ℤ, rf.lastSnapshotIncludeIndex < j → lf.lastSnapshotIncludeIndex < j → j ≤ index →
    rf.entryAt j = lf.entryAt j

/-- Log matching: where the two logs have an entry of the same term, they agree up to there. -/
def MatchesLog (rf lf : Raft N) : Prop :=
  ∀ (index : ℤ) (e f : LogEntry), rf.entryAt index = some e → lf.entryAt index = some f →
    e.logterm = f.logterm → rf.AgreesUpTo lf index

/-- The request moves the commit index over no entry that it does not reach and that is not the
    leader's. -/
def ChecksCommit (rf lf : Raft N) (args : AppendEntriesArgs) : Prop :=
  rf.Accepts args → rf.commitIndex < args.leadercommit →
    ∀ j : ℤ, args.prevlogindex + args.entries.length < j → j ≤ args.leadercommit →
      j ≤ rf.getLastLogIndex → rf.entryAt j = lf.entryAt j

variable {lf rf rf' : Raft N} {args : AppendEntriesArgs} {reply : AppendEntriesReply}

/-- An accepted request is right about everything up to `prevlogindex`. -/
theorem MatchesLog.upTo_prev (h : rf.MatchesLog lf) (hb : lf.Builds args)
    (hacc : rf.Accepts args) : rf.AgreesUpTo lf args.prevlogindex := by
  obtain ⟨_, hbase, hlast, hterm⟩ := accepts_iff.mp hacc
  intro j hj hj' hle
  obtain ⟨e, he⟩ : ∃ e, rf.entryAt args.prevlogindex = some e := entryAt_isSome (by omega) hlast
  obtain ⟨f, hf⟩ : ∃ f, lf.entryAt args.prevlogindex = some f :=
    entryAt_isSome (by omega) hb.last
  refine h args.prevlogindex e f he hf ?_ j hj hj' hle
  rw [← getLogTermFromLogIndex_of_entryAt he, hterm, hb.prev,
    getLogTermFromLogIndex_of_entryAt hf]

/-- And about everything it carries. -/
theorem Accepted.upTo_end (hdone : Accepted rf args rf') (h : rf.MatchesLog lf)
    (hb : lf.Builds args) (hacc : rf.Accepts args) :
    rf'.AgreesUpTo lf (args.prevlogindex + args.entries.length) := by
  intro j hj hj' hle
  rw [hdone.base] at hj
  by_cases hprev : j ≤ args.prevlogindex
  · rw [hdone.outside j (.inl hprev)]
    exact h.upTo_prev hb hacc j hj hj' hprev
  · obtain ⟨m, rfl⟩ : ∃ m : ℕ, j = args.prevlogindex + m + 1 :=
      ⟨(j - args.prevlogindex - 1).toNat, by omega⟩
    have hget := List.getElem?_eq_getElem (show m < args.entries.length by omega)
    rw [hdone.inside m _ hget, hb.entries m _ hget]

/-- The commit index has not moved. -/
theorem Accepted.upTo_commit (hdone : Accepted rf args rf') (h : rf.MatchesLog lf)
    (hb : lf.Builds args) (hacc : rf.Accepts args) {c : ℤ} (hagree : rf.AgreesUpTo lf c) :
    rf'.AgreesUpTo lf c := by
  intro j hj hj' hle
  by_cases hend : j ≤ args.prevlogindex + args.entries.length
  · exact hdone.upTo_end h hb hacc j hj hj' hend
  · rw [hdone.outside j (.inr (by omega))]
    rw [hdone.base] at hj
    exact hagree j hj hj' hle

/-- The commit index has moved to the end of the log or to `leadercommit`. -/
theorem Accepted.upTo_iff (hdone : Accepted rf args rf') (h : rf.MatchesLog lf)
    (hb : lf.Builds args) (hacc : rf.Accepts args) :
    rf'.AgreesUpTo lf (min args.leadercommit rf'.getLastLogIndex) ↔
      ∀ j : ℤ, args.prevlogindex + args.entries.length < j → j ≤ args.leadercommit →
        j ≤ rf.getLastLogIndex → rf.entryAt j = lf.entryAt j := by
  have hlast := hdone.last
  constructor
  · intro hafter j hend hcommit hj
    have hbase : rf.lastSnapshotIncludeIndex ≤ args.prevlogindex := hacc.2.2.1
    have hbase' := hb.base
    have := hafter j (by rw [hdone.base]; omega) (by omega) (by omega)
    rwa [hdone.outside j (.inr hend)] at this
  · intro hchecked j hj hj' hle
    by_cases hend : j ≤ args.prevlogindex + args.entries.length
    · exact hdone.upTo_end h hb hacc j hj hj' hend
    · rw [hdone.outside j (.inr (by omega))]
      exact hchecked j (by omega) (by omega) (by omega)

end Raft

/-- For every leader log and every follower log that match, and every request of that leader:
    entries that are the leader's up to the commit index before are so up to the commit index
    afterwards if and only if the commit index moves over no other entry. -/
theorem commit_prefix_iff (lf rf rf' : Raft N) (args : AppendEntriesArgs)
    (reply : AppendEntriesReply) (hf : rf.Contiguous) (hmatch : rf.MatchesLog lf)
    (hb : lf.Builds args) (hagree : rf.AgreesUpTo lf rf.commitIndex)
    (hres : rf.appendEntries1 args = some (rf', reply)) :
    rf'.AgreesUpTo lf rf'.commitIndex ↔ rf.ChecksCommit lf args := by
  unfold ChecksCommit
  rcases appendEntries1_spec hres with ⟨hacc, _, hres'⟩ | ⟨hacc, _, hlogs, hcommit, hbase⟩
  · have hdone := hf.accepted hb.consecutive hacc hres'
    rw [hdone.commitIndex]
    unfold followerCommit
    by_cases hraise : args.leadercommit > rf.commitIndex
    · rw [if_pos hraise, hdone.upTo_iff hmatch hb hacc]
      exact ⟨fun hchecked _ _ => hchecked, fun hchecked => hchecked hacc hraise⟩
    · rw [if_neg hraise]
      exact ⟨fun _ _ hlt => absurd hlt hraise,
        fun _ => hdone.upTo_commit hmatch hb hacc hagree⟩
  · refine ⟨fun _ h => absurd h hacc, fun _ j hj hj' hle => ?_⟩
    rw [hbase] at hj
    rw [hcommit] at hle
    rw [entryAt_congr hlogs hbase]
    exact hagree j hj hj' hle

/-- A leader of term 2 that has committed its only entry, and a follower of its term with an
    entry of term 1 in that place. -/
def committed : Raft 3 :=
  { Raft.init 1 (Persister.create (some ⟨2, 1, 0, 0, [⟨2, [2]⟩]⟩) none) with
    status := .Leader
    commitIndex := 1
    nextIndex := fun _ => 1 }
def diverged : Raft 3 := Raft.init 0 (Persister.create (some ⟨2, -1, 0, 0, [⟨1, [9]⟩]⟩) none)

theorem diverged_matchesLog : diverged.MatchesLog committed := by
  intro index e f he hf hterm
  obtain ⟨k, rfl, hk⟩ := entryAt_eq_some he
  obtain ⟨k', hindex, hk'⟩ := entryAt_eq_some hf
  have hlen : k < 1 := (List.getElem?_eq_some_iff.mp hk).1
  have hlen' : k' < 1 := (List.getElem?_eq_some_iff.mp hk').1
  obtain rfl : k = 0 := by omega
  obtain rfl : k' = 0 := by omega
  -- the only entries have different terms
  cases hk
  cases hk'
  exact absurd hterm (by decide)

theorem diverged_agrees : diverged.AgreesUpTo committed diverged.commitIndex := by
  intro j hj _ hle
  have h0 : diverged.lastSnapshotIncludeIndex = 0 := rfl
  have h1 : diverged.commitIndex = 0 := rfl
  omega

/-- The batch with the leader's entry replaces the other one before it is committed. -/
theorem commit_prefix_iff_batch :
    ∃ rf' reply, diverged.appendEntries1 (committed.batchArgs committed.logs) = some (rf', reply) ∧
      rf'.commitIndex = 1 ∧ rf'.AgreesUpTo committed rf'.commitIndex := by
  obtain ⟨⟨rf', reply⟩, hres⟩ := Option.isSome_iff_exists.mp (show
    (diverged.appendEntries1 (committed.batchArgs committed.logs)).isSome = true by decide)
  have hl : committed.Contiguous := contiguous_init 1 _
  have hb : committed.Builds (committed.batchArgs committed.logs) :=
    builds_batchArgs hl (k := 0) (n := 1) (by decide) (by decide)
  have hcommit : rf'.commitIndex = 1 :=
    congrArg (fun x : Raft 3 × AppendEntriesReply => x.1.commitIndex) (Option.some.inj hres).symm
  refine ⟨rf', reply, hres, hcommit, ?_⟩
  refine (commit_prefix_iff committed diverged rf' _ reply (contiguous_init _ _)
    diverged_matchesLog hb diverged_agrees hres).mpr fun _ _ j hend _ hlast => ?_
  have hone : diverged.getLastLogIndex = 1 := rfl
  have hend' : (1 : ℤ) < j := hend
  omega

/-- A heartbeat commits the entry that the leader does not have. -/
theorem commit_prefix_fails :
    ∃ (lf rf rf' : Raft 3) (args : AppendEntriesArgs) (reply : AppendEntriesReply),
      rf.Contiguous ∧ lf.Contiguous ∧ rf.MatchesLog lf ∧ lf.Builds args ∧
      args.term = rf.currentTerm ∧ args.leadercommit ≤ lf.getLastLogIndex ∧
      rf.AgreesUpTo lf rf.commitIndex ∧ rf.appendEntries1 args = some (rf', reply) ∧
      ¬ rf'.AgreesUpTo lf rf'.commitIndex := by
  obtain ⟨⟨rf', reply⟩, hres⟩ := Option.isSome_iff_exists.mp (show
    (diverged.appendEntries1 (committed.heartBeatArgs 0)).isSome = true by decide)
  have hcommit : rf'.commitIndex = 1 :=
    congrArg (fun x : Raft 3 × AppendEntriesReply => x.1.commitIndex) (Option.some.inj hres).symm
  have hentry : rf'.entryAt 1 = some ⟨[9], 1, 1⟩ :=
    congrArg (fun x : Raft 3 × AppendEntriesReply => x.1.entryAt 1) (Option.some.inj hres).symm
  have hbase : rf'.lastSnapshotIncludeIndex = 0 :=
    congrArg (fun x : Raft 3 × AppendEntriesReply => x.1.lastSnapshotIncludeIndex)
      (Option.some.inj hres).symm
  refine ⟨committed, diverged, rf', committed.heartBeatArgs 0, reply, contiguous_init _ _,
    contiguous_init 1 _, diverged_matchesLog, builds_heartBeatArgs (by decide) (by decide), rfl,
    by decide, diverged_agrees, hres, fun hafter => ?_⟩
  have := hafter 1 (by omega) (by decide) (by omega)
  rw [hentry] at this
  exact absurd this (by decide)

end MyKvRaft
