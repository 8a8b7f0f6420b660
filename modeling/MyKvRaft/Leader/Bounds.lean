import MyKvRaft.Append.Contract
import MyKvRaft.Leader.Speaking
import MyKvRaft.Leader.Buffers

/-!
# The indices a leader keeps for its peers

`m_nextIndex` is set at an election, from the hints of rejected requests, from success
replies and by the clamp of `doHeartBeat`, and `m_matchIndex` at an election and from success
replies. Replies come late and in any order, so a hint may be about a follower's log of long
ago; the upper bounds hold because no hint goes past the request it answers
(`Buffers`), the lower ones because each of the places that write keeps them (`Floored`).

* `leader_bounds`: both, in every reachable state of a cluster started with empty files, and
  what they mean for heartbeats.
-/

namespace MyKvRaft

open Consensus Transition Raft

variable {N : ℕ}

/-- No index is below the first it can have. -/
structure Node.Floored (n : Node N) : Prop where
  matchIndex : ∀ p, 0 ≤ n.rf.matchIndex p
  nextIndex : n.rf.status = .Leader → ∀ p, 1 ≤ n.rf.nextIndex p

namespace Node

variable {n n' : Node N} {x : Input N ⊕ Packet N}

/-- Only the indices and the status count. -/
theorem Floored.congr (h : n.Floored) (hmatch : n'.rf.matchIndex = n.rf.matchIndex)
    (hnext : n'.rf.nextIndex = n.rf.nextIndex)
    (hleads : n'.rf.status = .Leader → n.rf.status = .Leader) : n'.Floored := by
  constructor
  · rw [hmatch]
    exact h.matchIndex
  · intro hl
    rw [hnext]
    exact h.nextIndex (hleads hl)

/-- `handleLogMismatch` sets no `nextIndex` below 1. -/
theorem handleLogMismatch_pos {rf : Raft N} (h : ∀ p, 1 ≤ rf.nextIndex p) (peerId : Fin N)
    (reply : AppendEntriesReply) (p : Fin N) :
    1 ≤ (rf.handleLogMismatch peerId reply).nextIndex p := by
  unfold handleLogMismatch
  dsimp only
  split_ifs
  · exact h p
  all_goals
    by_cases hp : p = peerId
    · subst hp
      simp only [Function.update_self]
      omega
    · simp only [Function.update_of_ne hp]
      exact h p

theorem Floored.sync (h : n.Floored) (hl : n.rf.status = .Leader) (peerId : Fin N)
    (args : AppendEntriesArgs) (p : Fin N) :
    0 ≤ (n.rf.synced peerId args).matchIndex p ∧ 1 ≤ (n.rf.synced peerId args).nextIndex p := by
  have hmatch := h.matchIndex peerId
  unfold synced
  by_cases hp : p = peerId
  · subst hp
    simp only [Function.update_self]
    omega
  · simp only [Function.update_of_ne hp]
    exact ⟨h.matchIndex p, h.nextIndex hl p⟩

theorem floored_restart (n : Node N) : n.restart.Floored := by
  constructor
  · rw [show n.restart.rf.matchIndex = fun _ => 0 from init_matchIndex _ _]
    exact fun _ => le_rfl
  · intro hl
    rw [show n.restart.rf.status = .Follower from init_status _ _] at hl
    cases hl

theorem Floored.move (h : n.Floored) (hsnap : n.rf.NoSnapshot) (hm : Moves x n n') :
    n'.Floored := by
  cases hm with
  | restart => exact floored_restart n
  | idle hc => exact h.congr hc.matchIndex hc.nextIndex fun hl => (hc.leads hl).1
  | follow _ hstatus _ _ _ hnext hmatch =>
    refine h.congr hmatch hnext fun hl => ?_
    rw [hstatus] at hl
    cases hl
  | win _ _ _ _ _ _ _ hnext hmatch =>
    constructor
    · intro p
      rw [hmatch]
    · intro _ p
      rw [hnext, hsnap.getLastLogIndex]
      omega
  | start hl =>
    have hrf := start_eq hl
    refine h.congr ?_ ?_ fun _ => hl
    · show (n.rf.start _ _).1.matchIndex = _
      rw [hrf]
      rfl
    · show (n.rf.start _ _).1.nextIndex = _
      rw [hrf]
      rfl
  | beat hl hrf =>
    constructor
    · rw [hrf]
      exact h.matchIndex
    · intro _ p
      have hnext := h.nextIndex hl p
      rw [hrf]
      unfold clampNextIndex heartBeatNextIndex
      dsimp only
      split_ifs <;> omega
  | collect => exact h.congr rfl rfl id
  | skip hrf =>
    obtain ⟨pc, hrf⟩ := hrf
    refine h.congr (by rw [hrf]) (by rw [hrf]) fun hl => ?_
    rwa [hrf] at hl
  | build _ hrf =>
    refine h.congr (by rw [hrf]) (by rw [hrf]) fun hl => ?_
    rwa [hrf] at hl
  | close _ _ hc => exact h.congr hc.matchIndex hc.nextIndex fun hl => (hc.leads hl).1
  | @mismatch r reply _ _ _ _ _ hl _ _ hrf =>
    constructor
    · obtain ⟨nextIdx, heq⟩ := n.rf.handleLogMismatch_eq r.dst reply
      rw [hrf, heq]
      exact h.matchIndex
    · intro _ p
      rw [hrf]
      exact handleLogMismatch_pos (h.nextIndex hl) r.dst reply p
  | sync _ _ hl _ _ hrf =>
    constructor
    · intro p
      rw [hrf]
      exact (h.sync hl _ _ p).1
    · intro _ p
      rw [hrf]
      exact (h.sync hl _ _ p).2

end Node

/-! ## Reachable states -/

/-- What holds of the buffers and the indices in every reachable state. -/
theorem bounded_run {h : List (Cluster N × Action N)} {s : Cluster N}
    (hr : Cluster.Runs anyStep h s) :
    (∃ b, Buffers s b) ∧ ∀ i, (s.nodes i).Floored := by
  refine hr.invariant (I := fun s : Cluster N => (∃ b, Buffers s b) ∧ ∀ i, (s.nodes i).Floored)
    ⟨⟨_, buffers_init⟩, fun i => ⟨fun _ => le_rfl, fun hl => (by cases hl)⟩⟩ ?_
  rintro s a ⟨⟨b, hb⟩, hfloor⟩ _
  obtain ⟨b', _, hb'⟩ := hb.step a
  refine ⟨⟨b', hb'⟩, fun i => ?_⟩
  rcases s.step_nodes a i with heq | ⟨x, hx, heq⟩
  · rw [heq]
    exact hfloor i
  · rw [heq]
    exact (hfloor i).move (hb.tidy.node i).plain.snap (hb.tidy.moves hx)

/-- Whatever is sent has nothing to do with snapshots. -/
theorem Cluster.Tidy.sent {s : Cluster N} (h : s.Tidy) {a : Action N} :
    ∀ q ∈ s.sent a, Node.Ordinary q := by
  intro q hq
  cases a with
  | act i input => exact Node.ordinary_step (h.node i).plain input q hq
  | deliver k =>
    unfold Cluster.sent at hq
    dsimp only at hq
    split at hq
    · cases hq
    · next q' hq' =>
      exact Node.ordinary_receive (h.packet q' (List.mem_of_getElem? hq')) q hq

/-- The node has the index that a request asks about, with the term the request says: it is an
    entry, or index 0, whose term is 0. -/
def Raft.Knows (rf : Raft N) (args : AppendEntriesArgs) : Prop :=
  (args.prevlogindex = 0 ∧ args.prevlogterm = rf.getLogTermFromLogIndex 0) ∨
    ∃ e, rf.entryAt args.prevlogindex = some e ∧ args.prevlogterm = e.logterm

/-- A heartbeat asks about an index that the leader has. -/
theorem Buffered.heartBeat {b : Ballot (Fin N) LogEntry} {n : Node N} (h : Buffered b n)
    (hfloor : n.Floored) (hsnap : n.rf.NoSnapshot) {r : Rpc N AppendEntriesArgs}
    (hr : .appendEntries r ∈ (n.step .heartBeat).2) :
    n.rf.Knows r.args ∧ r.args.prevlogterm ≠ -1 := by
  rcases Node.appendEntries_of_step hr with ⟨_, hl, hdst, hargs⟩ | ⟨clock, _, _, heq, _⟩
  · have hlow := hfloor.nextIndex hl r.dst
    have hhigh := h.nextIndex r.dst
    -- the clamp changes nothing
    have hprev : r.args.prevlogindex = n.rf.nextIndex r.dst - 1 := by
      rw [hargs]
      show (Node.clampNextIndex n.rf).nextIndex r.dst - 1 = _
      unfold Node.clampNextIndex heartBeatNextIndex
      dsimp only
      rw [if_neg hdst, if_neg (by omega)]
    have hterm : r.args.prevlogterm = n.rf.getLogTermFromLogIndex r.args.prevlogindex := by
      rw [hargs]
      rfl
    rcases eq_or_lt_of_le (show 0 ≤ r.args.prevlogindex by omega) with h0 | hpos
    · rw [← h0] at hterm
      refine ⟨.inl ⟨h0.symm, hterm⟩, ?_⟩
      rw [hterm, show n.rf.getLogTermFromLogIndex 0 = termAt n.rf.logs 0 from
        hsnap.getLogTermFromLogIndex 0]
      show (0 : ℤ) ≠ -1
      decide
    · have hlast := hsnap.getLastLogIndex
      obtain ⟨e, he⟩ : ∃ e, n.rf.entryAt r.args.prevlogindex = some e :=
        entryAt_isSome (by rw [hsnap.index]; exact hpos) (by omega)
      obtain ⟨k, _, hk⟩ := hsnap.entryAt_eq he
      have hnonneg := (h.logs e (List.mem_of_getElem? hk)).1
      rw [getLogTermFromLogIndex_of_entryAt he] at hterm
      exact ⟨.inr ⟨e, he, hterm⟩, by omega⟩
  · cases heq

/-- In every reachable state of a cluster started with empty files no node has a snapshot, no
    step sends one, the indices of every leader are in its log or next to it, and every
    heartbeat asks about an index that its sender has. -/
theorem leader_bounds (h : List (Cluster N × Action N)) (s : Cluster N)
    (hr : Cluster.Runs anyStep h s) :
    (∀ i, (s.nodes i).rf.lastSnapshotIncludeIndex = 0) ∧
    (∀ a r, .installSnapshot r ∉ s.sent a) ∧
    (∀ i, (s.nodes i).rf.status = .Leader → ∀ p,
      1 ≤ (s.nodes i).rf.nextIndex p ∧
      (s.nodes i).rf.nextIndex p ≤ (s.nodes i).rf.getLastLogIndex + 1 ∧
      0 ≤ (s.nodes i).rf.matchIndex p ∧
      (s.nodes i).rf.matchIndex p ≤ (s.nodes i).rf.getLastLogIndex) ∧
    (∀ i r, .appendEntries r ∈ s.sent (.act i .heartBeat) →
      (s.nodes i).rf.Knows r.args ∧ r.args.prevlogterm ≠ -1) := by
  obtain ⟨⟨b, hb⟩, hfloor⟩ := bounded_run hr
  have hsnap := fun i => (hb.tidy.node i).plain.snap
  refine ⟨fun i => (hsnap i).index, fun a r hq => hb.tidy.sent _ hq, fun i hl p => ?_,
    fun i r hq => (hb.node i).heartBeat (hfloor i) (hsnap i) hq⟩
  rw [(hsnap i).getLastLogIndex]
  exact ⟨(hfloor i).nextIndex hl p, (hb.node i).nextIndex p, (hfloor i).matchIndex p,
    (hb.node i).matchIndex p⟩

theorem leader_bounds_electionRun :
    Leads (Cluster.exec electionRun) 0 1 ∧
      1 ≤ ((Cluster.exec electionRun).nodes 0).rf.nextIndex 2 := by
  have hlead : Leads (Cluster.exec electionRun) 0 1 := by decide +kernel
  have hr : Cluster.Runs anyStep _ _ := Cluster.runs_exec electionRun fun _ _ => trivial
  exact ⟨hlead, ((leader_bounds _ _ hr).2.2.1 0 hlead.1 2).1⟩

end MyKvRaft
