import MyKvRaft.Leader.Speaking

/-!
# The sender of a leader

Winning an election calls `startBatchSenderThread`, which starts `batchSenderLoop` unless
`m_batchRunning` says that it runs already. The loop ends by itself when it finds that the
node does not lead, and nothing clears the flag then (`stopBatchSenderThread` has no caller).
So flag and thread stay together until a node steps down for long enough to be noticed.

* `leader_has_sender`: in every run in which no node wins with the flag set and the thread
  gone, every leader has a running loop.
* `leader_has_sender_fails`: a node that leads, steps down and is elected again has none.
-/

namespace MyKvRaft

open Transition Raft

variable {N : ℕ}

namespace Node

instance (n : Node N) (r : Rpc N RequestVoteArgs) (reply : RequestVoteReply) :
    Decidable (n.Elects r reply) :=
  decidable_of_iff ((∃ e ∈ n.election, e.waiting = some r ∧ majority N ≤ e.votedNum + 1) ∧
      reply.term = n.rf.currentTerm ∧ reply.votegranted = true)
    ⟨fun ⟨h1, h2, h3⟩ => ⟨h1, h2, h3⟩, fun h => ⟨h.election, h.term, h.granted⟩⟩

/-- If the flag is set, the loop has not ended. -/
def SenderRuns (n : Node N) : Prop :=
  n.rf.batchRunning = true → n.rf.batchSenderThread.isSome = true

instance (n : Node N) : Decidable n.SenderRuns := inferInstanceAs (Decidable (_ → _))

end Node

/-- The node that wins an election with the step. -/
def Cluster.elected (s : Cluster N) : Action N → Option (Fin N)
  | .act _ _ => none
  | .deliver k =>
    match s.network[k]? with
    | some (.requestVoteReply r reply) =>
      if (s.nodes r.src).Elects r reply then some r.src else none
    | _ => none

/-- A node wins only while its flag tells the truth. -/
def FlagTrue (s : Cluster N) (a : Action N) : Prop := ∀ i ∈ s.elected a, (s.nodes i).SenderRuns

instance (s : Cluster N) (a : Action N) : Decidable (FlagTrue s a) :=
  inferInstanceAs (Decidable (∀ i ∈ s.elected a, _))

/-! ## The invariant -/

/-- Only `startBatchSenderThread` starts the loop, and a leader has one. -/
structure Node.HasSender (n : Node N) : Prop where
  flagged : n.rf.batchSenderThread.isSome = true → n.rf.batchRunning = true
  leads : n.rf.status = .Leader → n.rf.batchSenderThread.isSome = true

namespace Node

variable {n n' : Node N}

theorem hasSender_boot (i : Fin N) (p : Persister) :
    HasSender { Node.init i with rf := Raft.init i p } := by
  refine ⟨fun h => ?_, fun h => ?_⟩
  · rw [show (Raft.init i p).batchSenderThread = none from init_batchSenderThread _ _] at h
    cases h
  · rw [show (Raft.init i p).status = .Follower from init_status _ _] at h
    cases h

theorem hasSender_restart (n : Node N) : n.restart.HasSender := by
  have h := hasSender_boot n.rf.me (Persister.create n.rf.persister.raftFile
    n.rf.persister.snapshotFile)
  exact ⟨h.flagged, h.leads⟩

theorem HasSender.congr (h : n.HasSender) (hleads : n'.rf.status = .Leader → n.rf.status = .Leader)
    (hrunning : n'.rf.batchRunning = n.rf.batchRunning)
    (hthread : n'.rf.batchSenderThread = n.rf.batchSenderThread) : n'.HasSender := by
  refine ⟨fun hsome => ?_, fun hl => ?_⟩
  · rw [hrunning]
    exact h.flagged (hthread ▸ hsome)
  · rw [hthread]
    exact h.leads (hleads hl)

/-- The loop goes on, or it ends because the node does not lead. -/
theorem HasSender.batchSender (h : n.HasSender) (clock : Fin N → ℤ × ℤ) :
    (n.batchSender clock).1.HasSender := by
  have hgo : n.rf.batchSenderThread.isSome = true → ∀ pc, (n.setSender (some pc)).HasSender :=
    fun hsome pc => ⟨fun _ => h.flagged hsome, fun _ => rfl⟩
  unfold Node.batchSender
  split
  · exact h
  · next hpc =>
    have hsome : n.rf.batchSenderThread.isSome = true := by rw [hpc]; rfl
    split_ifs with hhead
    · exact hgo hsome _
    · refine ⟨fun hf => (by cases hf), fun hl => ?_⟩
      have hrunning := h.flagged hsome
      simp only [Bool.and_eq_true, decide_eq_true_eq] at hhead
      exact absurd ⟨hrunning, hl⟩ hhead
  · next hpc => exact ⟨fun _ => h.flagged (by rw [hpc]; rfl), fun _ => rfl⟩
  · next hpc => exact hgo (by rw [hpc]; rfl) _
  · next hpc =>
    split_ifs
    · exact hgo (by rw [hpc]; rfl) _
    · exact hgo (by rw [hpc]; rfl) _
  · next hpc => exact ⟨fun _ => h.flagged (by rw [hpc]; rfl), fun _ => rfl⟩

/-- The winner starts the loop, or has one that runs. -/
theorem HasSender.win (hruns : n.SenderRuns) (hrf : n'.rf = n.rf.becomeLeader) :
    n'.HasSender := by
  have hstart : n'.rf.batchRunning = true ∧ n'.rf.batchSenderThread.isSome = true := by
    rw [hrf]
    unfold becomeLeader startBatchSenderThread
    dsimp only
    split_ifs with hflag
    · exact ⟨hflag, hruns hflag⟩
    · exact ⟨rfl, rfl⟩
  exact ⟨fun _ => hstart.1, fun _ => hstart.2⟩

theorem HasSender.handle (h : n.HasSender) (x : Input N ⊕ Packet N)
    (hruns : ∀ r reply, x = .inr (.requestVoteReply r reply) → n.Elects r reply → n.SenderRuns) :
    (n.handle x).HasSender := by
  have heffect := effect_handle (n := n) x
  generalize n.handle x = n' at heffect
  cases heffect with
  | restart => exact hasSender_restart n
  | quiet hq => exact h.congr hq.leads hq.batchRunning hq.batchSenderThread
  | win hel hrf => exact HasSender.win (hruns _ _ rfl hel) hrf
  | beat hl =>
    simp only [heartBeat, hl, ne_eq, not_true_eq_false, if_false]
    exact h.congr id rfl rfl
  | sender => exact h.batchSender _
  | sendSnapShot =>
    unfold sendSnapShot
    split
    · exact h
    · exact h.congr id rfl rfl
  | apply _ happ =>
    obtain ⟨rfl, _⟩ := applierTicker_eq happ
    exact h.congr id rfl rfl
  | push => exact h.congr id rfl rfl
  | @install r =>
    refine h.congr ?_ ?_ ?_ <;> unfold installSnapshot1 <;> dsimp only <;> split_ifs
    all_goals first | rfl | exact id | exact fun hf => by cases hf

end Node

/-! ## The cluster -/

/-- In every run from any files in which no node wins an election while its flag is set and its
    loop has ended, every leader has a loop that runs. -/
theorem leader_has_sender (files : Fin N → Option PersistRaftNode × Option Bytes)
    (h : List (Cluster N × Action N)) (s : Cluster N)
    (hr : Run Cluster.step FlagTrue (Cluster.boot files) h s) (i : Fin N)
    (hl : (s.nodes i).rf.status = .Leader) :
    (s.nodes i).rf.batchSenderThread.isSome = true := by
  have hinv := hr.invariant (I := fun s : Cluster N => ∀ i, (s.nodes i).HasSender)
    (fun i => Node.hasSender_boot i _) (fun s a hI hok i => ?_)
  · exact (hinv i).leads hl
  · rcases s.step_nodes a i with heq | ⟨x, hx, heq⟩
    · rw [heq]
      exact hI i
    · rw [heq]
      refine (hI i).handle x ?_
      rintro r reply rfl hel
      cases a with
      | act j input => cases hx
      | deliver k =>
        obtain ⟨q, hq, hqx⟩ := Option.map_eq_some_iff.mp hx
        cases hqx
        have hsrc : (s.nodes r.src).Elects r reply := hel
        have helected : s.elected (.deliver k) = some r.src := by
          simp [Cluster.elected, hq, hsrc]
        exact hok r.src helected

theorem leader_has_sender_electionRun :
    Leads (Cluster.exec electionRun) 0 1 ∧
      ((Cluster.exec electionRun).nodes 0).rf.batchSenderThread.isSome = true := by
  have hlead : Leads (Cluster.exec electionRun) 0 1 := by decide +kernel
  have hok : ∀ x ∈ Cluster.trace electionRun, FlagTrue x.1 x.2 := by decide +kernel
  have hr : Run Cluster.step FlagTrue (Cluster.boot fun _ => (none, none)) _ _ :=
    Cluster.runs_exec electionRun hok
  exact ⟨hlead, leader_has_sender _ _ _ hr 0 hlead.1⟩

open MyKvRaft.Action in
/-- Node 0 leads term 1, node 1 stands for term 2 with its vote, the loop of node 0 notices and
    ends, and node 0 wins term 3 with the vote of node 1. -/
def againRun : List (Action 3) :=
  electionRun ++ [timeout 1, ask 1, .deliver 0, flush 0, ask 0, voteLost 0, ask 0, timeout 0,
    ask 0, ask 0, .deliver 2, .deliver 2]

/-- The second time it leads without a loop: nothing sends its batches. -/
theorem leader_has_sender_fails : ∃ (h : List (Cluster 3 × Action 3)) (s : Cluster 3),
    Cluster.Runs anyStep h s ∧ ∃ i, (s.nodes i).rf.status = .Leader ∧
      (s.nodes i).rf.batchSenderThread.isSome = false :=
  ⟨_, _, Cluster.runs_exec againRun fun _ _ => trivial, 0, by decide +kernel, by decide +kernel⟩

end MyKvRaft
