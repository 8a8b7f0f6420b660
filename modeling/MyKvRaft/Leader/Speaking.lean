import MyKvRaft.Safety.Effects
import MyKvRaft.Safety.Election

/-!
# Who speaks for a term

`doHeartBeat` checks the status and builds its requests in one critical section.
`batchSenderLoop` checks the status, releases the lock and reads `m_currentTerm`
afterwards, and a `leaderSendSnapShot` thread reads it at any time after the check of
`doHeartBeat` that started it. A node between such a check and the request is
`Speaking`; if its term moves on in the meantime, it speaks for a term it has never
led.

The runs here start from any files, so that nodes with snapshots are covered.

* `only_leaders_speak`: in every run in which no node's term changes while the node is
  speaking, every `AppendEntries` and `InstallSnapshot` request is sent by a node that
  has led the request's term.
* `only_leaders_speak_fails`: in a run with such a change.
-/

namespace MyKvRaft

open Transition Raft

variable {N : ℕ}

/-- Every node started on the files it is given. -/
def Cluster.boot (files : Fin N → Option PersistRaftNode × Option Bytes) : Cluster N where
  nodes i := { Node.init i with
    rf := Raft.init i (Persister.create (files i).1 (files i).2) }
  network := []

/-- The messages a step sends. -/
def Cluster.sent (s : Cluster N) : Action N → List (Packet N)
  | .act i input => ((s.nodes i).step input).2
  | .deliver k =>
    match s.network[k]? with
    | none => []
    | some p => ((s.nodes p.target).receive p).2

/-- `Term` and `LeaderId` of a request that only a leader sends. -/
def Packet.speaks : Packet N → Option (ℤ × ℤ)
  | .appendEntries r => some (r.args.term, r.args.leaderid)
  | .installSnapshot r => some (r.args.term, r.args.leaderid)
  | _ => none

namespace Node

/-- `batchSenderLoop` is past its check of the status and has not built the request. -/
def atBuild (n : Node N) : Bool :=
  match n.rf.batchSenderThread with
  | some (.build _ _ _) => true
  | _ => false

/-- A request is on its way from the check of the status to the reading of the term. -/
def Speaking (n : Node N) : Prop := n.atBuild = true ∨ n.snapshotThreads ≠ []

instance (n : Node N) : Decidable n.Speaking :=
  decidable_of_iff (n.atBuild = true ∨ ¬ n.snapshotThreads.isEmpty) (by simp [Speaking])

/-- What a step does to a node's identity, and to its speaking: only a leader starts to speak,
    and does not change its term by that. -/
structure Framed (n n' : Node N) : Prop where
  me : n'.rf.me = n.rf.me
  speaking : n'.Speaking →
    n.Speaking ∨ (n.rf.status = .Leader ∧ n'.rf.currentTerm = n.rf.currentTerm)

variable {n n' : Node N}

theorem framed_refl (n : Node N) : Framed n n := ⟨rfl, .inl⟩

theorem framed_same (hme : n'.rf.me = n.rf.me)
    (hthread : n'.rf.batchSenderThread = n.rf.batchSenderThread)
    (hsnap : n'.snapshotThreads = n.snapshotThreads) : Framed n n' := by
  refine ⟨hme, fun h => .inl ?_⟩
  unfold Speaking atBuild at h ⊢
  rwa [hthread, hsnap] at h

theorem framed_restart (n : Node N) : Framed n n.restart := by
  refine ⟨init_me _ _, ?_⟩
  rintro (h | h)
  · have hthread : n.restart.rf.batchSenderThread = none := init_batchSenderThread _ _
    unfold atBuild at h
    rw [hthread] at h
    cases h
  · exact absurd rfl h

/-- A step that leaves snapshots and the sender alone. -/
theorem Quiet.framed (h : Quiet n n') : Framed n n' :=
  framed_same h.me h.batchSenderThread h.snapshotThreads

theorem framed_batchSender (clock : Fin N → ℤ × ℤ) : Framed n (n.batchSender clock).1 := by
  unfold batchSender
  split
  · exact framed_refl n
  · split_ifs <;> exact ⟨rfl, fun h => .inl (.inr (h.resolve_left Bool.false_ne_true))⟩
  · exact ⟨rfl, fun h => .inl (.inr (h.resolve_left Bool.false_ne_true))⟩
  · exact ⟨rfl, fun h => .inl (.inr (h.resolve_left Bool.false_ne_true))⟩
  · split_ifs with hdrop
    · exact ⟨rfl, fun h => .inl (.inr (h.resolve_left Bool.false_ne_true))⟩
    · simp only [Bool.or_eq_true, not_or, decide_eq_true_eq, not_not] at hdrop
      exact ⟨rfl, fun _ => .inr ⟨hdrop.2, rfl⟩⟩
  · exact ⟨rfl, fun h => .inl (.inr (h.resolve_left Bool.false_ne_true))⟩

theorem framed_sendSnapShot (k : ℕ) : Framed n (n.sendSnapShot k).1 := by
  unfold sendSnapShot
  split
  · exact framed_refl n
  · next t ht =>
    refine ⟨rfl, fun _ => .inl (.inr fun hnil => ?_)⟩
    rw [hnil] at ht
    cases ht

theorem installSnapshot1_frame (rf : Raft N) (request : InstallSnapshotRequest) :
    (rf.installSnapshot1 request).1.me = rf.me ∧
      (rf.installSnapshot1 request).1.batchSenderThread = rf.batchSenderThread := by
  unfold installSnapshot1
  dsimp only
  split_ifs <;> exact ⟨rfl, rfl⟩

/-- A winner whose loop still runs keeps it where it is; the others start it. -/
theorem framed_becomeLeader (hrf : n'.rf = n.rf.becomeLeader)
    (hsnap : n'.snapshotThreads = n.snapshotThreads) : Framed n n' := by
  refine ⟨by rw [hrf]; exact (becomeLeader_fields n.rf).1, ?_⟩
  rintro (h | h)
  · refine .inl (.inl ?_)
    unfold atBuild at h ⊢
    rw [hrf] at h
    unfold becomeLeader startBatchSenderThread at h
    dsimp only at h
    split_ifs at h
    exact h
  · exact .inl (.inr (hsnap ▸ h))

theorem framed_handle (x : Input N ⊕ Packet N) : Framed n (n.handle x) := by
  have heffect := effect_handle (n := n) x
  generalize n.handle x = n' at heffect
  cases heffect with
  | restart => exact framed_restart n
  | quiet h => exact h.framed
  | win _ hrf _ hsnap => exact framed_becomeLeader hrf hsnap
  | beat hl =>
    simp only [heartBeat, hl, ne_eq, not_true_eq_false, if_false]
    exact ⟨rfl, fun _ => .inr ⟨hl, rfl⟩⟩
  | sender => exact framed_batchSender _
  | sendSnapShot => exact framed_sendSnapShot _
  | apply _ h =>
    obtain ⟨rfl, _⟩ := applierTicker_eq h
    exact framed_same rfl rfl rfl
  | push => exact framed_same rfl rfl rfl
  | install =>
    exact framed_same (installSnapshot1_frame _ _).1 (installSnapshot1_frame _ _).2 rfl

/-! ## What a node says -/

/-- A node speaks in its own name and for its current term, as leader or after having passed the
    check of the status. -/
theorem speaks_step {input : Input N} {q : Packet N} (hq : q ∈ (n.step input).2) {T id : ℤ}
    (hs : q.speaks = some (T, id)) :
    T = n.rf.currentTerm ∧ id = n.rf.me.val ∧ (n.rf.status = .Leader ∨ n.Speaking) := by
  cases sends_step hq with
  | requestVote => cases hs
  | heartBeat hl hr =>
    have hargs := (mem_heartBeatRpcs hr).2.2.1
    simp only [Packet.speaks, hargs, Option.some.injEq, Prod.mk.injEq] at hs
    exact ⟨hs.1.symm, hs.2.symm, .inl hl⟩
  | batch hpc =>
    simp only [Packet.speaks, Option.some.injEq, Prod.mk.injEq] at hs
    refine ⟨hs.1.symm, hs.2.symm, .inr (.inl ?_)⟩
    unfold atBuild
    rw [hpc]
  | snapshot ht =>
    simp only [Packet.speaks, Option.some.injEq, Prod.mk.injEq] at hs
    refine ⟨hs.1.symm, hs.2.symm, .inr (.inr fun hnil => ?_)⟩
    rw [hnil] at ht
    cases ht

/-- An answer to a message is no request. -/
theorem speaks_receive {q q' : Packet N} (hq' : q' ∈ (n.receive q).2) : q'.speaks = none := by
  cases sends_receive hq' with
  | vote => rfl
  | append => rfl
  | install => rfl

end Node

/-! ## Runs -/

/-- The step changes the term of no node that is speaking. -/
def Unhurried (s : Cluster N) (a : Action N) : Prop :=
  ∀ i, (s.nodes i).Speaking →
    ((s.step a).nodes i).rf.currentTerm = (s.nodes i).rf.currentTerm

instance (s : Cluster N) (a : Action N) : Decidable (Unhurried s a) :=
  inferInstanceAs (Decidable (∀ i, (s.nodes i).Speaking → _ = _))

/-- Node `i` has led term `T` in one of the steps. -/
def HasLed (h : List (Cluster N × Action N)) (i : Fin N) (T : ℤ) : Prop :=
  ∃ x ∈ h, Leads x.1 i T

instance (h : List (Cluster N × Action N)) (i : Fin N) (T : ℤ) : Decidable (HasLed h i T) :=
  inferInstanceAs (Decidable (∃ x ∈ h, _))

/-- What the step `a` after the steps `h` sends as a leader's request is sent by the node it
    names, which has led the term it names. -/
def SpeaksAsLeader (h : List (Cluster N × Action N)) (s : Cluster N) (a : Action N) : Prop :=
  ∀ q ∈ s.sent a, ∀ T id, q.speaks = some (T, id) →
    ∃ (i : Fin N) (input : Input N), a = .act i input ∧ id = i.val ∧
      HasLed (h ++ [(s, a)]) i T

section Runs

variable {files : Fin N → Option PersistRaftNode × Option Bytes}
  {h : List (Cluster N × Action N)} {s : Cluster N}

/-- Every node knows its own number, and who is speaking has led its term. -/
theorem led_of_speaking (hr : Run Cluster.step Unhurried (Cluster.boot files) h s) (i : Fin N) :
    (s.nodes i).rf.me = i ∧
      ((s.nodes i).Speaking → HasLed h i (s.nodes i).rf.currentTerm) := by
  induction hr with
  | nil =>
    refine ⟨init_me _ _, ?_⟩
    rintro (hb | hb)
    · have hthread : ((Cluster.boot files).nodes i).rf.batchSenderThread = none :=
        init_batchSenderThread _ _
      unfold Node.atBuild at hb
      rw [hthread] at hb
      cases hb
    · exact absurd rfl hb
  | @snoc h s a hr hok ih =>
    obtain ⟨hme, hled⟩ := ih
    have hkeep : HasLed h i (s.nodes i).rf.currentTerm →
        HasLed (h ++ [(s, a)]) i (s.nodes i).rf.currentTerm := by
      rintro ⟨x, hx, hl⟩
      exact ⟨x, List.mem_append_left _ hx, hl⟩
    rcases s.step_nodes a i with heq | ⟨x, _, heq⟩
    · rw [heq]
      exact ⟨hme, fun hs => hkeep (hled hs)⟩
    · have hframe := (s.nodes i).framed_handle x
      have hterm := hok i
      rw [heq] at hterm ⊢
      refine ⟨hframe.me.trans hme, fun hs => ?_⟩
      rcases hframe.speaking hs with hs | ⟨hl, hsame⟩
      · rw [hterm hs]
        exact hkeep (hled hs)
      · rw [hsame]
        exact ⟨(s, a), by simp, hl, rfl⟩

/-- In every run from any files, with any order of the critical sections, unlocked blocks and
    messages, in which no node's term changes while the node is between its check of the status
    and the request: every `AppendEntries` and `InstallSnapshot` request with `Term` `T` and
    `LeaderId` `i` is sent by node `i`, and `i` has led `T`. -/
theorem only_leaders_speak (files : Fin N → Option PersistRaftNode × Option Bytes)
    (h : List (Cluster N × Action N)) (s : Cluster N)
    (hr : Run Cluster.step Unhurried (Cluster.boot files) h s)
    (h₁ : List (Cluster N × Action N)) (x : Cluster N × Action N)
    (h₂ : List (Cluster N × Action N)) (hx : h = h₁ ++ x :: h₂) :
    SpeaksAsLeader h₁ x.1 x.2 := by
  induction hr generalizing h₂ with
  | nil => simp at hx
  | @snoc h s a hr hok ih =>
    rcases List.eq_nil_or_concat h₂ with rfl | ⟨h₂, y, rfl⟩
    · obtain ⟨rfl, hxa⟩ := List.append_inj' hx rfl
      cases hxa
      intro q hq T id hs
      cases a with
      | act i input =>
        obtain ⟨hT, hid, hwho⟩ := Node.speaks_step hq hs
        obtain ⟨hme, hled⟩ := led_of_speaking hr i
        refine ⟨i, input, rfl, by rw [hid, hme], ?_⟩
        rcases hwho with hl | hsp
        · exact ⟨_, List.mem_append_right _ (List.mem_singleton_self _), hl, hT.symm⟩
        · obtain ⟨y, hy, hl⟩ := hled hsp
          exact ⟨y, List.mem_append_left _ hy, hT ▸ hl⟩
      | deliver k =>
        simp only [Cluster.sent] at hq
        split at hq
        · cases hq
        · rw [Node.speaks_receive hq] at hs
          cases hs
    · rw [List.concat_eq_append, ← List.cons_append, ← List.append_assoc] at hx
      obtain ⟨rfl, _⟩ := List.append_inj' hx rfl
      exact ih h₂ rfl

end Runs

open MyKvRaft.Action in
/-- Node 0 wins term 1 and takes a command; its `batchSenderLoop` passes the check of the
    status. -/
def checkedRun : List (Action 3) := electionRun ++ [put 0 1, flush 0, flush 0, flush 0]

/-- The request is built right after the check. -/
theorem only_leaders_speak_checkedRun :
    let boot := Cluster.boot fun _ : Fin 3 => (none, none)
    (∃ q ∈ (checkedRun.foldl Cluster.step boot).sent (.flush 0), q.speaks = some (1, 0)) ∧
      SpeaksAsLeader (history Cluster.step boot checkedRun)
        (checkedRun.foldl Cluster.step boot) (.flush 0) :=
  ⟨by decide +kernel, only_leaders_speak _ _ _
    (run_history (checkedRun ++ [.flush 0]) (by decide +kernel)) _ (_, _) [] history_snoc⟩

open MyKvRaft.Action in
/-- Node 1 stands for term 2 and asks node 0 for its vote while node 0 is between its check and
    the request. -/
def hurriedRun : List (Action 3) := checkedRun ++ [timeout 1, ask 1, .deliver 0]

/-- Node 0 sends a batch for term 2, which it has not led. -/
theorem only_leaders_speak_fails :
    ∃ (files : Fin 3 → Option PersistRaftNode × Option Bytes) (h h₁ h₂ : List (Cluster 3 × Action 3))
      (s : Cluster 3) (x : Cluster 3 × Action 3),
      Run Cluster.step anyStep (Cluster.boot files) h s ∧ h = h₁ ++ x :: h₂ ∧
        ¬ SpeaksAsLeader h₁ x.1 x.2 := by
  let boot := Cluster.boot fun _ : Fin 3 => (none, none)
  refine ⟨fun _ => (none, none), _, history Cluster.step boot hurriedRun, [], _,
    (hurriedRun.foldl Cluster.step boot, .flush 0),
    run_history (hurriedRun ++ [.flush 0]) fun _ _ => trivial, history_snoc, ?_⟩
  dsimp only
  have hsent : ∃ q ∈ (hurriedRun.foldl Cluster.step boot).sent (.flush 0),
      q.speaks = some (2, 0) := by decide +kernel
  have hnever : ¬ HasLed (history Cluster.step boot hurriedRun ++
      [(hurriedRun.foldl Cluster.step boot, .flush 0)]) 0 2 := by decide +kernel
  intro hspeaks
  obtain ⟨q, hq, hs⟩ := hsent
  obtain ⟨i, input, ha, _, hled⟩ := hspeaks q hq 2 0 hs
  cases ha
  exact hnever hled

end MyKvRaft
