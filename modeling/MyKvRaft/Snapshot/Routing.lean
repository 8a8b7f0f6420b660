import MyKvRaft.Append.Probing

/-!
# Followers behind the snapshot

`doHeartBeat` sends a snapshot to a peer whose `nextIndex` is not past the leader's
snapshot point. Nothing brings it there: `handleLogMismatch` raises every proposal of a
follower to the first index behind the snapshot point.

* `startsSnapshot_iff`: when `doHeartBeat` sends a snapshot.
* `not_startsSnapshot`: no proposal of a follower makes it do so.
* `lagging_follower_routing`: so it asks a follower that lags behind about the same index again.
* `Stuck.rounds`: a follower that ends before the snapshot point rejects every heartbeat.
-/

namespace MyKvRaft

open Raft

variable {N : ℕ}

namespace Node

/-- The threads `doHeartBeat` starts to send snapshots. -/
def newSnapshotThreads (n : Node N) : List (SnapshotThread N) :=
  n.heartBeat.1.snapshotThreads.drop n.snapshotThreads.length

/-- `doHeartBeat` chooses `startSnapshotSendThread` for the peer. -/
def StartsSnapshot (n : Node N) (p : Fin N) : Prop := ∃ t ∈ n.newSnapshotThreads, t.peerId = p

instance (n : Node N) (p : Fin N) : Decidable (n.StartsSnapshot p) :=
  inferInstanceAs (Decidable (∃ t ∈ _, _))

/-- A leader sends a snapshot to the other nodes whose `nextIndex`, raised to 1, is not past its
    snapshot point. -/
theorem startsSnapshot_iff {n : Node N} (hl : n.rf.status = .Leader) (p : Fin N) :
    n.StartsSnapshot p ↔ p ≠ n.rf.me ∧
      (clampNextIndex n.rf).nextIndex p ≤ n.rf.lastSnapshotIncludeIndex := by
  have hthreads : n.newSnapshotThreads =
      ((List.finRange N).filter fun p => p ≠ n.rf.me ∧
        (clampNextIndex n.rf).nextIndex p ≤ n.rf.lastSnapshotIncludeIndex).map fun p =>
        ⟨p, n.rf.lastSnapshotIncludeIndex, n.rf.lastSnapshotIncludeTerm,
          n.rf.persister.snapshot, n.counters.length⟩ := by
    unfold newSnapshotThreads heartBeat
    rw [if_neg (not_not.mpr hl)]
    exact List.drop_left
  unfold StartsSnapshot
  rw [hthreads]
  simp

end Node

/-! ## One rejection -/

/-- The follower ends before the leader's snapshot point, or disagrees with the leader there. -/
def LagsBehind (leader follower : Raft N) : Prop :=
  follower.getLastLogIndex < leader.lastSnapshotIncludeIndex ∨
    follower.matchLog leader.lastSnapshotIncludeIndex leader.lastSnapshotIncludeTerm = false

instance (leader follower : Raft N) : Decidable (LagsBehind leader follower) :=
  inferInstanceAs (Decidable (_ ∨ _))

/-- A leader with a snapshot has asked a follower that lags behind about the snapshot point, the
    lowest index it can ask about; the follower has rejected the request, and what it proposes
    is not past the snapshot point, and not the mark `-100` that is skipped. -/
structure RejectedAtSnapshot (leader follower : Raft N) (args : AppendEntriesArgs)
    (reply : AppendEntriesReply) : Prop where
  snapshot : 0 < leader.lastSnapshotIncludeIndex
  lags : LagsBehind leader follower
  term : args.term = leader.currentTerm
  prevlogindex : args.prevlogindex = leader.lastSnapshotIncludeIndex
  prevlogterm : args.prevlogterm = leader.lastSnapshotIncludeTerm
  answered : (follower.appendEntries1 args).any (fun result => result.2 = reply) = true
  rejected : reply.success = false
  hint : reply.updatenextindex ≤ leader.lastSnapshotIncludeIndex
  processed : reply.updatenextindex ≠ -100

namespace Raft

variable {rf : Raft N} {p : Fin N} {reply : AppendEntriesReply}

/-- A proposal that is not past the snapshot point is raised to the index behind it. -/
theorem handleLogMismatch_low (hhint : reply.updatenextindex ≤ rf.lastSnapshotIncludeIndex)
    (hbase : 0 < rf.lastSnapshotIncludeIndex) (hmark : reply.updatenextindex ≠ -100) :
    (rf.handleLogMismatch p reply).nextIndex p = rf.lastSnapshotIncludeIndex + 1 := by
  unfold handleLogMismatch
  dsimp only
  rw [if_neg hmark]
  show Function.update rf.nextIndex p _ p = _
  rw [Function.update_self, if_pos]
  split_ifs
  · omega
  · exact hhint

/-- Whatever a follower proposes, `nextIndex` is past the snapshot point afterwards. -/
theorem lt_handleLogMismatch (rf : Raft N) (p : Fin N) (hmark : reply.updatenextindex ≠ -100) :
    rf.lastSnapshotIncludeIndex < (rf.handleLogMismatch p reply).nextIndex p := by
  unfold handleLogMismatch
  dsimp only
  rw [if_neg hmark]
  show _ < Function.update rf.nextIndex p _ p
  rw [Function.update_self]
  split_ifs <;> omega

end Raft

/-- No proposal of a follower makes the next `doHeartBeat` send it the snapshot. -/
theorem not_startsSnapshot (n : Node N) (p : Fin N) {reply : AppendEntriesReply}
    (hl : n.rf.status = .Leader) (hbase : 0 < n.rf.lastSnapshotIncludeIndex)
    (hmark : reply.updatenextindex ≠ -100) :
    ¬ Node.StartsSnapshot { n with rf := n.rf.handleLogMismatch p reply } p := by
  have hnext := n.rf.lt_handleLogMismatch p hmark
  obtain ⟨nextIdx, heq⟩ := n.rf.handleLogMismatch_eq p reply
  have hleads : (n.rf.handleLogMismatch p reply).status = .Leader := by rw [heq]; exact hl
  have hsame : (n.rf.handleLogMismatch p reply).lastSnapshotIncludeIndex =
      n.rf.lastSnapshotIncludeIndex := by rw [heq]
  have hclamp := Probing.clampNextIndex_self (p := p) (s := ⟨n.rf.handleLogMismatch p reply, n.rf⟩)
    (by dsimp only; omega)
  rw [Node.startsSnapshot_iff hleads]
  rintro ⟨_, hle⟩
  dsimp only at hle hclamp
  omega

/-- For every leader and every follower that lags behind its snapshot point: if the follower
    rejects the request at the snapshot point, then after `handleLogMismatch` the next
    `doHeartBeat` does not send it the snapshot, and `nextIndex` is where it was when the
    leader asked about the snapshot point. -/
theorem lagging_follower_routing (n : Node N) (p : Fin N) (follower : Raft N)
    (args : AppendEntriesArgs) (reply : AppendEntriesReply) (hl : n.rf.status = .Leader)
    (h : RejectedAtSnapshot n.rf follower args reply) :
    ¬ Node.StartsSnapshot { n with rf := n.rf.handleLogMismatch p reply } p ∧
      (n.rf.handleLogMismatch p reply).nextIndex p = args.prevlogindex + 1 := by
  have hnext := handleLogMismatch_low (p := p) h.hint h.snapshot h.processed
  exact ⟨not_startsSnapshot n p hl h.snapshot h.processed, by rw [hnext, h.prevlogindex]⟩

/-- The leader of term 2 with a snapshot up to index 2 and entry 3. -/
def trimmed : Node 3 :=
  { Node.init 1 with
    rf := { Raft.init 1 (Persister.create (some ⟨2, 1, 2, 1, [⟨2, [3]⟩]⟩) none) with
      status := .Leader
      nextIndex := fun _ => 3 } }

/-- The answer of a follower without entries. -/
def emptyAnswer : AppendEntriesReply := ⟨2, false, 1, AppNormal⟩

/-- The follower rejects the heartbeat at index 2 and asks for index 1. -/
theorem trimmed_rejected :
    RejectedAtSnapshot trimmed.rf (Raft.init 0 (Persister.create none none))
      (trimmed.rf.heartBeatArgs 0) emptyAnswer :=
  ⟨by decide, by decide, by decide, by decide, by decide, by decide, by decide, by decide,
    by decide⟩

theorem lagging_follower_routing_trimmed :
    ¬ Node.StartsSnapshot { trimmed with rf := trimmed.rf.handleLogMismatch 0 emptyAnswer } 0 :=
  (lagging_follower_routing trimmed 0 _ _ emptyAnswer (by decide) trimmed_rejected).1

/-- Not every follower that lags behind is sent the snapshot. -/
theorem lagging_follower_routing_fails :
    ¬ ∀ (n : Node 3) (p : Fin 3) (follower : Raft 3) (args : AppendEntriesArgs)
      (reply : AppendEntriesReply), p ≠ n.rf.me → n.rf.status = .Leader →
        RejectedAtSnapshot n.rf follower args reply →
          Node.StartsSnapshot { n with rf := n.rf.handleLogMismatch p reply } p := by
  intro h
  have hsent := h trimmed 0 _ _ emptyAnswer (by decide) (by decide) trimmed_rejected
  revert hsent
  decide

/-! ## All rounds -/

namespace Probing

variable {p : Fin N} {s : Probing N}

/-- The leader asks about its snapshot point, and the follower ends before it. -/
structure Stuck (p : Fin N) (s : Probing N) : Prop where
  snapshot : 0 < s.leader.lastSnapshotIncludeIndex
  next : s.leader.nextIndex p = s.leader.lastSnapshotIncludeIndex + 1
  term : s.follower.currentTerm ≤ s.leader.currentTerm
  short : s.follower.getLastLogIndex < s.leader.lastSnapshotIncludeIndex
  processed : s.follower.getLastLogIndex + 1 ≠ -100

/-- The round is a rejection, and the next one will be like it. -/
theorem Stuck.round (h : Stuck p s) : ∃ s' reply, s.round p = some (s', reply) ∧
    reply.success = false ∧ Stuck p s' ∧ s'.follower.logs = s.follower.logs := by
  have hpos := h.snapshot
  have hnext : (Node.clampNextIndex s.leader).nextIndex p = s.leader.lastSnapshotIncludeIndex + 1 :=
    (clampNextIndex_self (by rw [h.next]; omega)).trans h.next
  set reply : AppendEntriesReply :=
    ⟨s.leader.currentTerm, false, s.follower.getLastLogIndex + 1, AppNormal⟩ with hreply
  have hanswer : s.follower.appendEntries1 ((Node.clampNextIndex s.leader).heartBeatArgs p) =
      some (persist (s.follower.follow s.leader.currentTerm), reply) := by
    have hprev : ((Node.clampNextIndex s.leader).heartBeatArgs p).prevlogindex >
        s.follower.getLastLogIndex := by
      show (Node.clampNextIndex s.leader).nextIndex p - 1 > _
      have := h.short
      omega
    rw [appendEntries1_eq h.term, if_pos hprev]
    rfl
  have hshort := h.short
  have hhint : reply.updatenextindex ≤ (Node.clampNextIndex s.leader).lastSnapshotIncludeIndex := by
    show s.follower.getLastLogIndex + 1 ≤ s.leader.lastSnapshotIncludeIndex
    omega
  have hlow := handleLogMismatch_low (p := p) hhint hpos h.processed
  obtain ⟨nextIdx, heq⟩ := (Node.clampNextIndex s.leader).handleLogMismatch_eq p reply
  have hlast : (persist (s.follower.follow s.leader.currentTerm)).getLastLogIndex =
      s.follower.getLastLogIndex := by simp [getLastLogIndex]
  refine ⟨⟨(Node.clampNextIndex s.leader).handleLogMismatch p reply,
    persist (s.follower.follow s.leader.currentTerm)⟩, reply, ?_, rfl, ⟨?_, ?_, ?_, ?_, ?_⟩, by simp⟩
  · unfold Probing.round
    dsimp only
    rw [hanswer]
    rfl
  · rw [heq]
    exact hpos
  · rw [hlow, heq]
  · show (s.follower.follow s.leader.currentTerm).currentTerm ≤ _
    rw [follow_currentTerm h.term, heq]
    exact le_rfl
  · rw [hlast, heq]
    exact hshort
  · rw [hlast]
    exact h.processed

/-- However many heartbeats the leader sends, it is no further. -/
theorem Stuck.rounds (h : Stuck p s) (k : ℕ) : ∃ t, Probing.rounds p k s = some t ∧ Stuck p t ∧
    t.follower.logs = s.follower.logs := by
  induction k generalizing s with
  | zero => exact ⟨s, rfl, h, rfl⟩
  | succ k ih =>
    obtain ⟨s', reply, hround, _, hstuck, hlogs⟩ := h.round
    obtain ⟨t, ht, hstuck', hlogs'⟩ := ih hstuck
    refine ⟨t, ?_, hstuck', hlogs'.trans hlogs⟩
    rw [Probing.rounds, hround]
    exact ht

end Probing

end MyKvRaft
