import MyKvRaft.Append.Contract
import MyKvRaft.Leader.Buffers

/-!
# Finding where the logs meet

A new leader does not know where a follower's log leaves its own. Heartbeats find it: each
asks about `nextIndex - 1`, and a follower that has something else there answers with an
index to go on from, which `handleLogMismatch` takes over. The answer is the follower's last
index plus one, or the first index of the term it has in the place asked about.

* `Ready.round_cases`: a round finds the place or moves `nextIndex` back, but not below 1.
* `conflict_probing_terminates`: so the place is found.
-/

namespace MyKvRaft

open Raft

variable {N : ℕ}

/-- A leader and a follower, with nothing under way between them. -/
structure Probing (N : ℕ) where
  leader : Raft N
  follower : Raft N

namespace Probing

/-- One round with the peer `p`: the heartbeat of `doHeartBeat` and, if the reply is not a
    success, `handleLogMismatch`. `none` if the follower fails an assertion. -/
def round (p : Fin N) (s : Probing N) : Option (Probing N × AppendEntriesReply) :=
  let leader := Node.clampNextIndex s.leader
  match s.follower.appendEntries1 (leader.heartBeatArgs p) with
  | none => none
  | some (follower, reply) =>
    some (⟨if reply.success then leader else leader.handleLogMismatch p reply, follower⟩, reply)

/-- The state after the given number of rounds. -/
def rounds (p : Fin N) : ℕ → Probing N → Option (Probing N)
  | 0, s => some s
  | k + 1, s =>
    match s.round p with
    | none => none
    | some (s', _) => rounds p k s'

/-- The index the next heartbeat asks about. -/
def prev (s : Probing N) (p : Fin N) : ℤ := s.leader.nextIndex p - 1

/-- Neither node has a snapshot, the follower knows of no later term than the leader's, its
    commit index is in its log, and `nextIndex` is in the leader's or next to it. -/
structure Ready (p : Fin N) (s : Probing N) : Prop where
  leader : s.leader.NoSnapshot
  follower : s.follower.NoSnapshot
  term : s.follower.currentTerm ≤ s.leader.currentTerm
  commit : s.follower.commitIndex ≤ s.follower.getLastLogIndex
  low : 1 ≤ s.leader.nextIndex p
  high : s.leader.nextIndex p ≤ s.leader.getLastLogIndex + 1

/-- The round leads from `s` to `s'` and moves `nextIndex` back, to an index from 1 up to the
    one asked about. -/
structure MovesBack (p : Fin N) (s s' : Probing N) : Prop where
  rejected : ∃ reply, s.round p = some (s', reply) ∧ reply.success = false
  leader : s'.leader.logs = s.leader.logs
  follower : s'.follower.logs = s.follower.logs
  low : 1 ≤ s'.leader.nextIndex p
  high : s'.leader.nextIndex p ≤ s.prev p
  less : s'.leader.nextIndex p < s.leader.nextIndex p

/-- The round ends in success, and both logs have the same term at the index asked about. -/
structure Meets (p : Fin N) (s : Probing N) : Prop where
  accepted : ∃ s' reply, s.round p = some (s', reply) ∧ reply.success = true
  leader : 0 ≤ s.prev p ∧ s.prev p ≤ s.leader.getLastLogIndex
  follower : s.prev p ≤ s.follower.getLastLogIndex
  term : s.follower.getLogTermFromLogIndex (s.prev p) =
    s.leader.getLogTermFromLogIndex (s.prev p)

end Probing

/-! ## The answer -/

namespace Raft

variable {rf : Raft N}

/-- A follower that has the index asked about proposes none at or below its snapshot point. -/
theorem lt_mismatchHint {prevlogindex : ℤ} (h : rf.lastSnapshotIncludeIndex < prevlogindex) :
    rf.lastSnapshotIncludeIndex < rf.mismatchHint prevlogindex := by
  unfold mismatchHint
  dsimp only
  split
  · next index hfind =>
    obtain ⟨k, hk, rfl⟩ := List.mem_map.mp (List.mem_of_find?_eq_some hfind)
    rw [List.mem_range] at hk
    omega
  · exact h

/-- A proposal that is a log index is taken over. -/
theorem handleLogMismatch_self (hs : rf.NoSnapshot) (p : Fin N) {reply : AppendEntriesReply}
    (hpos : 1 ≤ reply.updatenextindex) :
    (rf.handleLogMismatch p reply).nextIndex p = reply.updatenextindex := by
  unfold handleLogMismatch
  dsimp only
  rw [hs.index, if_neg (by omega), if_neg (show ¬ reply.updatenextindex < 1 by omega),
    if_neg (by omega)]
  exact Function.update_self _ _ _

/-- A heartbeat that is accepted fails no assertion. -/
theorem acceptEntries_heartBeat {args : AppendEntriesArgs} (hempty : args.entries = [])
    (hlast : args.prevlogindex ≤ rf.getLastLogIndex) (hcommit : rf.commitIndex ≤ rf.getLastLogIndex) :
    ∃ rf' reply, rf.acceptEntries args = some (rf', reply) ∧ reply.success = true := by
  have hraised : followerCommit rf.commitIndex args.leadercommit rf.getLastLogIndex ≤
      rf.getLastLogIndex := by
    unfold followerCommit
    split_ifs
    · exact min_le_right _ _
    · exact hcommit
  refine ⟨persist { rf with
    commitIndex := followerCommit rf.commitIndex args.leadercommit rf.getLastLogIndex },
    { appstate := AppNormal, success := true, term := rf.currentTerm }, ?_, rfl⟩
  unfold acceptEntries
  rw [hempty, List.foldlM_nil]
  dsimp only [pure]
  rw [myAssert_eq_some, myAssert_eq_some]
  exact ⟨by simpa using hlast, hraised, rfl⟩

end Raft

/-! ## One round -/

namespace Probing

variable {p : Fin N} {s : Probing N}

theorem clampNextIndex_self (h : 1 ≤ s.leader.nextIndex p) :
    (Node.clampNextIndex s.leader).nextIndex p = s.leader.nextIndex p := by
  unfold Node.clampNextIndex heartBeatNextIndex
  dsimp only
  split_ifs
  · rfl
  · omega
  · rfl

/-- A round that is not a success: the follower proposes an index from 1 up to the one asked
    about, and nothing else has changed. -/
theorem Ready.moves_back (h : Ready p s) {hint : ℤ} (hlow : 1 ≤ hint) (hhigh : hint ≤ s.prev p)
    (hres : s.follower.appendEntries1 ((Node.clampNextIndex s.leader).heartBeatArgs p) =
      some (persist (s.follower.follow s.leader.currentTerm),
        ⟨s.leader.currentTerm, false, hint, AppNormal⟩)) :
    ∃ s', MovesBack p s s' ∧ Ready p s' := by
  unfold prev at hhigh
  have hsnap : (Node.clampNextIndex s.leader).NoSnapshot := ⟨h.leader.index, h.leader.term⟩
  set reply : AppendEntriesReply := ⟨s.leader.currentTerm, false, hint, AppNormal⟩
  have hnext : ((Node.clampNextIndex s.leader).handleLogMismatch p reply).nextIndex p = hint :=
    handleLogMismatch_self hsnap p hlow
  obtain ⟨nextIdx, heq⟩ := (Node.clampNextIndex s.leader).handleLogMismatch_eq p reply
  have hround : s.round p = some
      (⟨(Node.clampNextIndex s.leader).handleLogMismatch p reply,
        persist (s.follower.follow s.leader.currentTerm)⟩, reply) := by
    unfold round
    dsimp only
    rw [hres]
    rfl
  have hhigh' := h.high
  refine ⟨_, ⟨⟨reply, hround, rfl⟩, ?_, by simp, ?_, ?_, ?_⟩, ⟨?_, ?_, ?_, ?_, ?_, ?_⟩⟩
  · dsimp only
    rw [heq]
    rfl
  · exact hnext ▸ hlow
  · exact hnext ▸ hhigh
  · show ((Node.clampNextIndex s.leader).handleLogMismatch p reply).nextIndex p < _
    omega
  · show ((Node.clampNextIndex s.leader).handleLogMismatch p reply).NoSnapshot
    rw [heq]
    exact ⟨hsnap.index, hsnap.term⟩
  · constructor
    · simp [h.follower.index]
    · simp [h.follower.term]
  · show (s.follower.follow s.leader.currentTerm).currentTerm ≤
      ((Node.clampNextIndex s.leader).handleLogMismatch p reply).currentTerm
    rw [follow_currentTerm h.term, heq]
    exact le_rfl
  · simpa [getLastLogIndex] using h.commit
  · exact hnext ▸ hlow
  · show ((Node.clampNextIndex s.leader).handleLogMismatch p reply).nextIndex p ≤
      ((Node.clampNextIndex s.leader).handleLogMismatch p reply).getLastLogIndex + 1
    rw [hnext, heq]
    show hint ≤ s.leader.getLastLogIndex + 1
    omega

/-- What a round can do. -/
theorem Ready.round_cases (h : Ready p s) :
    Meets p s ∨ ∃ s', MovesBack p s s' ∧ Ready p s' := by
  have hlow := h.low
  have hhigh := h.high
  set args := (Node.clampNextIndex s.leader).heartBeatArgs p with hargs
  have hprev : args.prevlogindex = s.prev p := by
    show (Node.clampNextIndex s.leader).nextIndex p - 1 = _
    rw [clampNextIndex_self hlow]
    rfl
  have hprevterm : args.prevlogterm = s.leader.getLogTermFromLogIndex (s.prev p) := by
    rw [← hprev]
    rfl
  have hres : s.follower.appendEntries1 args = _ := appendEntries1_eq h.term
  rw [hprev] at hres
  by_cases hshort : s.prev p > s.follower.getLastLogIndex
  · -- the follower's log is too short
    right
    rw [if_pos hshort] at hres
    have := h.follower.getLastLogIndex
    exact h.moves_back (by omega) (by omega) hres
  have hbase : s.follower.lastSnapshotIncludeIndex ≤ s.prev p := by
    rw [h.follower.index]
    unfold prev
    omega
  rw [if_neg hshort, if_neg (by omega)] at hres
  by_cases hmatch : s.follower.matchLog (s.prev p) args.prevlogterm = true
  · left
    rw [if_pos hmatch] at hres
    obtain ⟨rf', reply, hacc, hs⟩ :
        ∃ rf' reply, (s.follower.follow args.term).acceptEntries args = some (rf', reply) ∧
          reply.success = true :=
      acceptEntries_heartBeat rfl (by rw [hprev]; simpa [getLastLogIndex] using hshort)
        (by simpa [getLastLogIndex] using h.commit)
    have hround : s.round p = some (⟨if reply.success then Node.clampNextIndex s.leader else
        (Node.clampNextIndex s.leader).handleLogMismatch p reply, rf'⟩, reply) := by
      unfold round
      dsimp only
      rw [← hargs, hres, hacc]
    refine ⟨⟨_, reply, hround, hs⟩, ⟨?_, ?_⟩, by omega, ?_⟩
    · unfold prev
      omega
    · unfold prev
      omega
    · rw [(matchLog_iff hbase (by omega)).mp hmatch, hprevterm]
  · -- another term: the first index of the follower's term is proposed
    right
    rw [if_neg hmatch] at hres
    have hne : s.prev p ≠ s.follower.lastSnapshotIncludeIndex := by
      intro heq
      -- index 0 has term 0 in both logs
      have h0 : s.prev p = 0 := heq.trans h.follower.index
      refine hmatch ((matchLog_iff hbase (by omega)).mpr ?_)
      rw [hprevterm, h0]
      exact (h.follower.getLogTermFromLogIndex 0).trans (h.leader.getLogTermFromLogIndex 0).symm
    have hlt := lt_mismatchHint (lt_of_le_of_ne hbase (Ne.symm hne))
    rw [h.follower.index] at hlt
    exact h.moves_back (by omega) (mismatchHint_le _ _) hres

end Probing

/-! ## All rounds -/

/-- For every leader log, follower log and `nextIndex`: after finitely many rounds, each of which
    moves `nextIndex` back to an index from 1 up to the one asked about, a heartbeat is accepted,
    and the logs have the same term at the index it asks about. -/
theorem conflict_probing_terminates (p : Fin N) (s : Probing N) (h : s.Ready p) :
    ∃ k : ℕ,
      (∀ j < k, ∃ t t', Probing.rounds p j s = some t ∧ Probing.rounds p (j + 1) s = some t' ∧
        Probing.MovesBack p t t') ∧
      ∃ t, Probing.rounds p k s = some t ∧ Probing.Meets p t := by
  -- induction on `nextIndex`
  induction hn : (s.leader.nextIndex p).toNat using Nat.strong_induction_on generalizing s with
  | _ n ih =>
    rcases h.round_cases with hmeets | ⟨s', hback, hready⟩
    · exact ⟨0, fun j hj => absurd hj (Nat.not_lt_zero j), s, rfl, hmeets⟩
    · have hless := hback.less
      have hlow := hready.low
      obtain ⟨reply, hround, _⟩ := hback.rejected
      have hnext : ∀ k, Probing.rounds p (k + 1) s = Probing.rounds p k s' := by
        intro k
        rw [Probing.rounds, hround]
      obtain ⟨k, hbefore, t, ht, hmeets⟩ := ih _ (by omega) s' hready rfl
      refine ⟨k + 1, fun j hj => ?_, t, by rw [hnext, ht], hmeets⟩
      cases j with
      | zero => exact ⟨s, s', rfl, by rw [hnext]; rfl, hback⟩
      | succ j =>
        obtain ⟨u, u', hu, hu', hb⟩ := hbefore j (by omega)
        exact ⟨u, u', by rw [hnext, hu], by rw [hnext, hu'], hb⟩

/-- A leader with three entries of term 2 behind one of term 1, and a follower with two more
    entries of term 1. -/
def probed : Probing 3 where
  leader :=
    { Raft.init 1 (Persister.create
        (some ⟨2, 1, 0, 0, [⟨1, [1]⟩, ⟨2, [2]⟩, ⟨2, [3]⟩, ⟨2, [4]⟩]⟩) none) with
      status := .Leader
      nextIndex := fun _ => 5 }
  follower := Raft.init 0 (Persister.create
    (some ⟨1, 0, 0, 0, [⟨1, [1]⟩, ⟨1, [8]⟩, ⟨1, [9]⟩]⟩) none)

theorem conflict_probing_terminates_probed :
    ∃ k t, Probing.rounds 0 k probed = some t ∧ Probing.Meets 0 t := by
  have hready : probed.Ready 0 :=
    ⟨⟨by decide, by decide⟩, ⟨by decide, by decide⟩, by decide, by decide, by decide, by decide⟩
  obtain ⟨k, _, t, ht, hmeets⟩ := conflict_probing_terminates 0 probed hready
  exact ⟨k, t, ht, hmeets⟩

end MyKvRaft
