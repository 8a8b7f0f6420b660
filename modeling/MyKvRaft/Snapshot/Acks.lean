import MyKvRaft.Leader.Speaking
import MyKvRaft.Snapshot.Install

/-!
# Acknowledged snapshots

`InstallSnapshotResponse` has nothing but a term. `leaderSendSnapShot` takes every reply for a
success whose term is not above `m_currentTerm`, the node's term when the reply comes, and not
the term of its request. A refusal carries the term of the peer, which is above that of the
request; a node that has reached that term meanwhile takes it for a success.

Nodes may start in any state (their files hold what they hold), with any requests under way,
also those of snapshots that nobody in the cluster has taken.

* `snapshot_ack_real`: in every run in which no refusal is taken for a success, an
  acknowledged snapshot has been accepted, and the peer's snapshot point still reaches it.
* `snapshot_ack_real_fails`: a leader that steps down between request and reply counts a
  refusal.
-/

namespace MyKvRaft

open Transition Raft

variable {N : ℕ}

theorem Raft.leaderUpdateCommitIndex_matchIndex (rf : Raft N) :
    rf.leaderUpdateCommitIndex.matchIndex = rf.matchIndex := by
  unfold leaderUpdateCommitIndex
  dsimp only
  split
  · split_ifs <;> rfl
  · rfl

/-! ## The snapshot point of a node -/

namespace Node

variable {n : Node N}

/-- The snapshot point of a node never goes back, also when it is started again. -/
theorem handle_base_le (hs : n.rf.Saved) (x : Input N ⊕ Packet N) :
    n.rf.lastSnapshotIncludeIndex ≤ (n.handle x).rf.lastSnapshotIncludeIndex := by
  rcases (effect_handle (n := n) x).still_cases with ⟨_, heq⟩ | hstill | ⟨rf', msgs, _, _, happ, heq⟩ |
    ⟨_, heq⟩ | ⟨r, _, heq⟩
  · rw [heq]
    exact (congrArg PersistRaftNode.lastSnapshotIncludeIndex
      ((restart_persistDate n.rf).trans hs)).ge
  · exact hstill.lastSnapshotIncludeIndex.ge
  · rw [heq, (applierTicker_eq happ).1]
  · rw [heq]
  · rw [heq]
    exact n.rf.installSnapshot1_base_le r.args

theorem saved_boot (i : Fin N) (raftFile : Option PersistRaftNode) (snapshotFile : Option Bytes) :
    Saved (Raft.init i (Persister.create raftFile snapshotFile)) := by
  unfold Saved
  rw [init_persistDate, init_persister]
  rfl

/-! ## Who answers -/

variable {r : Rpc N InstallSnapshotRequest} {resp : InstallSnapshotResponse}

/-- No node answers a snapshot by itself. -/
theorem installSnapshotReply_not_of_step {input : Input N} :
    .installSnapshotReply r resp ∉ (n.step input).2 := fun h => nomatch sends_step h

/-- The answer is that of `InstallSnapshot1` to the request it is sent with. -/
theorem installSnapshotReply_of_receive {q : Packet N}
    (h : .installSnapshotReply r resp ∈ (n.receive q).2) :
    q = .installSnapshot r ∧ resp = (n.rf.installSnapshot1 r.args).2 := by
  cases sends_receive h with
  | install => exact ⟨rfl, rfl⟩

end Node

/-! ## Acknowledgements -/

namespace Cluster

/-- The step hands a reply to the `leaderSendSnapShot` call that waits for it, and the call takes
    it for a success: it sets `m_matchIndex`. -/
def acknowledges (s : Cluster N) :
    Action N → Option (Rpc N InstallSnapshotRequest × InstallSnapshotResponse)
  | .act _ _ => none
  | .deliver k =>
    match s.network[k]? with
    | some (.installSnapshotReply r resp) =>
      if ((s.nodes r.src).snapshotCalls.find? (·.rpc = r)).isSome ∧
          ¬ resp.term > (s.nodes r.src).rf.currentTerm then some (r, resp)
      else none
    | _ => none

/-- The step hands the request to the peer, and `InstallSnapshot1` does not refuse it. -/
def Takes (s : Cluster N) (a : Action N) (r : Rpc N InstallSnapshotRequest) : Prop :=
  s.driven a = some (r.dst, .inr (.installSnapshot r)) ∧
    (s.nodes r.dst).rf.currentTerm ≤ r.args.term

/-- What is taken for a success has a term that is not above the term of the request. -/
def Heeds (s : Cluster N) (a : Action N) : Prop :=
  ∀ x ∈ s.acknowledges a, x.2.term ≤ x.1.args.term

instance (s : Cluster N) (a : Action N) : Decidable (s.Heeds a) :=
  inferInstanceAs (Decidable (∀ x ∈ s.acknowledges a, _))

/-- A state a run may start in: the files hold what the nodes hold, and no snapshot has been
    answered. -/
structure Starts (s : Cluster N) : Prop where
  saved : ∀ i, (s.nodes i).rf.Saved
  unanswered : ∀ r resp, .installSnapshotReply r resp ∉ s.network

variable {s : Cluster N} {a : Action N} {r : Rpc N InstallSnapshotRequest}
  {resp : InstallSnapshotResponse}

/-- A step that acknowledges a snapshot delivers its reply, and sets `m_matchIndex`. -/
theorem acknowledges_spec (h : s.acknowledges a = some (r, resp)) :
    .installSnapshotReply r resp ∈ s.network ∧
      ((s.step a).nodes r.src).rf.matchIndex r.dst = r.args.lastsnapshotincludeindex := by
  cases a with
  | act i input => cases h
  | deliver k =>
    unfold acknowledges at h
    dsimp only at h
    split at h
    · next r' resp' hk =>
      split_ifs at h with hcall
      cases h
      refine ⟨List.mem_of_getElem? hk, ?_⟩
      obtain ⟨call, hfind⟩ := Option.isSome_iff_exists.mp hcall.1
      simp only [step, hk, update, Packet.target, Function.update_self]
      show ((s.nodes r.src).receiveSnapshot r resp).rf.matchIndex r.dst = _
      simp only [Node.receiveSnapshot, hfind, leaderSendSnapShot, if_neg hcall.2]
      rw [leaderUpdateCommitIndex_matchIndex]
      exact Function.update_self _ _ _
    · cases h

/-- A reply under way was so before, or the step hands its request to the peer. -/
theorem reply_of_step (h : .installSnapshotReply r resp ∈ (s.step a).network) :
    .installSnapshotReply r resp ∈ s.network ∨
      (s.driven a = some (r.dst, .inr (.installSnapshot r)) ∧
        resp = ((s.nodes r.dst).rf.installSnapshot1 r.args).2) := by
  rcases network_step h with h | ⟨i, input, _, h⟩ | ⟨q', hdriven, h⟩
  · exact Or.inl h
  · exact absurd h Node.installSnapshotReply_not_of_step
  · obtain ⟨rfl, hresp⟩ := Node.installSnapshotReply_of_receive h
    exact Or.inr ⟨hdriven, hresp⟩

/-- The peer has accepted the request, and its snapshot point still reaches it. -/
def Held (h : List (Cluster N × Action N)) (s : Cluster N) (r : Rpc N InstallSnapshotRequest) :
    Prop :=
  (∃ x ∈ h, Takes x.1 x.2 r) ∧
    r.args.lastsnapshotincludeindex ≤ (s.nodes r.dst).rf.lastSnapshotIncludeIndex

/-- Every reply under way whose term is not above that of its request is to one that is held. -/
def Truthful (h : List (Cluster N × Action N)) (s : Cluster N) : Prop :=
  ∀ r resp, .installSnapshotReply r resp ∈ s.network → resp.term ≤ r.args.term → Held h s r

theorem base_le_step (hs : ∀ i, (s.nodes i).rf.Saved) (a : Action N) (i : Fin N) :
    (s.nodes i).rf.lastSnapshotIncludeIndex ≤
      ((s.step a).nodes i).rf.lastSnapshotIncludeIndex := by
  rcases s.step_nodes a i with heq | ⟨x, _, heq⟩
  · rw [heq]
  · rw [heq]
    exact Node.handle_base_le (hs i) x

variable {h : List (Cluster N × Action N)}

theorem Truthful.step (ht : Truthful h s) (hs : ∀ i, (s.nodes i).rf.Saved) (a : Action N) :
    Truthful (h ++ [(s, a)]) (s.step a) := by
  intro r resp hq hterm
  rcases reply_of_step hq with hq | ⟨hdriven, hresp⟩
  · -- an old reply: what was held still is
    obtain ⟨⟨x, hx, htakes⟩, hbase⟩ := ht r resp hq hterm
    exact ⟨⟨x, List.mem_append_left _ hx, htakes⟩, hbase.trans (base_le_step hs a r.dst)⟩
  · rcases (s.nodes r.dst).rf.installSnapshot1_cases r.args with ⟨hlt, heq⟩ | ⟨hle, hdone, _⟩
    · -- a refusal says so
      rw [hresp, heq] at hterm
      exact absurd hterm (not_le.mpr hlt)
    · refine ⟨⟨(s, a), List.mem_append_right _ List.mem_cons_self, hdriven, hle⟩, ?_⟩
      rw [step_driven hdriven]
      show _ ≤ ((s.nodes r.dst).rf.installSnapshot1 r.args).1.lastSnapshotIncludeIndex
      rw [hdone.base]
      exact le_max_right _ _

/-- Every run keeps files and replies truthful, whatever is taken for a success. -/
theorem truthful_run {s₀ : Cluster N} (h0 : s₀.Starts) (hr : Run step anyStep s₀ h s) :
    (∀ i, (s.nodes i).rf.Saved) ∧ Truthful h s := by
  induction hr with
  | nil => exact ⟨h0.saved, fun r resp hq => absurd hq (h0.unanswered r resp)⟩
  | @snoc h s a _ _ ih =>
    refine ⟨fun i => ?_, ih.2.step ih.1 a⟩
    rcases s.step_nodes a i with heq | ⟨x, _, heq⟩
    · rw [heq]
      exact ih.1 i
    · rw [heq]
      exact Node.saved_handle (ih.1 i) x

end Cluster

open Cluster in
/-- In every run, with whatever delays, elections and crashes, in which no reply with a term
    above that of its request is taken for a success: when a call sets `m_matchIndex` to the
    index of its snapshot, the peer has accepted the request before, and its snapshot point is
    not below that index. -/
theorem snapshot_ack_real (s₀ s : Cluster N) (h0 : s₀.Starts) (h : List (Cluster N × Action N))
    (hr : Run Cluster.step Heeds s₀ h s) (a : Action N) (hok : s.Heeds a)
    (r : Rpc N InstallSnapshotRequest) (resp : InstallSnapshotResponse)
    (hack : s.acknowledges a = some (r, resp)) :
    ((s.step a).nodes r.src).rf.matchIndex r.dst = r.args.lastsnapshotincludeindex ∧
      (∃ x ∈ h, Takes x.1 x.2 r) ∧
      r.args.lastsnapshotincludeindex ≤ (s.nodes r.dst).rf.lastSnapshotIncludeIndex := by
  obtain ⟨hq, hmatch⟩ := acknowledges_spec hack
  have htruth := (truthful_run h0 (hr.mono fun _ _ _ => trivial)).2
  exact ⟨hmatch, htruth r resp hq (hok _ hack)⟩

/-- Node 2 has led term 1 and has a snapshot up to index 4. It has sent the snapshot to node 0
    after it had seen term 2. -/
def snapshotSent : Cluster 3 where
  nodes := (Cluster.boot fun i =>
    if i = 2 then (some ⟨2, -1, 4, 1, []⟩, some [9]) else (some ⟨1, 2, 0, 0, []⟩, none)).nodes
  network := [.installSnapshot ⟨0, 2, 0, ⟨2, 2, 4, 1, [9]⟩⟩]

theorem starts_snapshotSent : snapshotSent.Starts := by
  refine ⟨fun i => ?_, fun r resp h => ?_⟩
  · exact Node.saved_boot i _ _
  · rw [snapshotSent, List.mem_singleton] at h
    cases h

open MyKvRaft.Action in
/-- Node 0 wins term 2, takes over the snapshot and sends it to node 1. -/
def forwardRun : List (Action 3) :=
  [timeout 0, ask 0, ask 0, .deliver 1, .deliver 1, .deliver 0, beat 0, .act 0 (.sendSnapShot 0)]

open MyKvRaft.Action in
/-- Node 1 stands for term 3 and node 0 steps down, before node 1 is sent the snapshot. -/
def refusedRun : List (Action 3) := forwardRun ++ [timeout 1, ask 1, .deliver 2, .deliver 1]

/-- Without that, node 1 accepts the snapshot. -/
theorem snapshot_ack_real_forwardRun :
    let s := (forwardRun ++ [Action.deliver 1]).foldl Cluster.step snapshotSent
    ((s.step (.deliver 1)).nodes 0).rf.matchIndex 1 = (4 : ℤ) ∧
      (4 : ℤ) ≤ (s.nodes 1).rf.lastSnapshotIncludeIndex := by
  intro s
  have hr : Run Cluster.step Cluster.Heeds snapshotSent _ s :=
    run_history (forwardRun ++ [Action.deliver 1]) (by decide +kernel)
  have hack : s.acknowledges (.deliver 1) = some (⟨1, 0, 1, ⟨0, 2, 4, 1, [9]⟩⟩, ⟨2⟩) := by
    decide +kernel
  have h := snapshot_ack_real snapshotSent s starts_snapshotSent _ hr (.deliver 1)
    (by decide +kernel) _ _ hack
  exact ⟨h.1, h.2.2⟩

/-- Node 1 refuses the snapshot, and node 0 counts it as acknowledged. -/
theorem snapshot_ack_real_fails :
    ∃ (s₀ s : Cluster 3) (h : List (Cluster 3 × Action 3)) (a : Action 3)
      (r : Rpc 3 InstallSnapshotRequest) (resp : InstallSnapshotResponse), s₀.Starts ∧
      Run Cluster.step anyStep s₀ h s ∧ s.acknowledges a = some (r, resp) ∧
      ((s.step a).nodes r.src).rf.matchIndex r.dst = r.args.lastsnapshotincludeindex ∧
      (s.nodes r.dst).rf.lastSnapshotIncludeIndex < r.args.lastsnapshotincludeindex := by
  refine ⟨snapshotSent, _, _, .deliver 2, ⟨1, 0, 1, ⟨0, 2, 4, 1, [9]⟩⟩, ⟨3⟩, starts_snapshotSent,
    run_history refusedRun fun _ _ => trivial, ?_, ?_, ?_⟩ <;> decide +kernel

end MyKvRaft
