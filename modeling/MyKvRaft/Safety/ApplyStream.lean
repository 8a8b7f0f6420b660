import MyKvRaft.Safety.Asserts
import MyKvRaft.Safety.StateMachine

/-!
# What a node hands to its `KvServer`

The facts the `KvServer` above a node relies on, in every run of a cluster started
with empty files: its term and its log only grow, its commands get new indices, and
since its last start it is handed the entries 1, 2, 3, … one after the other.

* `applierTicker_ne_none`: `m_logs[sliceIdx]` is in range.
* `node_invariant`: all of it.
-/

namespace MyKvRaft

open Consensus Transition Raft

variable {N : ℕ}

/-! ## Applying -/

theorem mapM_ne_none {α β : Type} {f : α → Option β} {l : List α} (h : ∀ x ∈ l, f x ≠ none) :
    l.mapM f ≠ none := by
  induction l with
  | nil => exact Option.some_ne_none _
  | cons x xs ih =>
    obtain ⟨y, hy⟩ := Option.ne_none_iff_exists'.mp (h x List.mem_cons_self)
    obtain ⟨ys, hys⟩ := Option.ne_none_iff_exists'.mp
      (ih fun z hz => h z (List.mem_cons_of_mem x hz))
    simp [List.mapM_cons, hy, hys]

/-- What `mapM` collects lines up with what it is given. -/
theorem map_of_mapM {α β : Type} {f : α → Option β} {g : β → α}
    (hg : ∀ x y, f x = some y → g y = x) {l : List α} {ys : List β} (h : l.mapM f = some ys) :
    ys.map g = l := by
  induction l generalizing ys with
  | nil =>
    cases h
    rfl
  | cons x xs ih =>
    simp only [List.mapM_cons, Option.bind_eq_bind, Option.bind_eq_some_iff] at h
    obtain ⟨y, hy, ys', hys', heq⟩ := h
    cases heq
    rw [List.map_cons, hg x y hy, ih hys']

namespace Raft

variable {rf rf' : Raft N} {msgs : List ApplyMsg}

/-- The entries between `m_lastApplied` and `m_commitIndex` are there. -/
theorem applierTicker_ne_none (hsnap : rf.NoSnapshot) (h0 : 0 ≤ rf.lastApplied)
    (hcommit : rf.commitIndex ≤ rf.logs.length) : rf.applierTicker ≠ none := by
  unfold applierTicker
  dsimp only
  have hall : ∀ index ∈ (List.range (rf.commitIndex - rf.lastApplied).toNat).map
      (fun k : ℕ => rf.lastApplied + 1 + k),
      ((slot rf.logs (rf.getSlicesIndexFromLogIndex index)).map fun entry =>
        ApplyMsg.ofCommand index entry.command) ≠ none := by
    intro index hindex
    obtain ⟨k, hk, rfl⟩ := List.mem_map.mp hindex
    rw [List.mem_range] at hk
    obtain ⟨j, hj⟩ : ∃ j : ℕ, rf.lastApplied + 1 + k = j + 1 :=
      ⟨(rf.lastApplied + k).toNat, by omega⟩
    rw [hj, hsnap.slot_succ, List.getElem?_eq_getElem (by omega)]
    exact Option.some_ne_none _
  obtain ⟨msgs, hmsgs⟩ := Option.ne_none_iff_exists'.mp (mapM_ne_none hall)
  rw [hmsgs]
  exact Option.some_ne_none _

theorem applierTicker_indices (h : rf.applierTicker = some (rf', msgs)) :
    msgs.map (·.index) = (List.range (rf.commitIndex - rf.lastApplied).toNat).map
      fun k : ℕ => rf.lastApplied + 1 + k := by
  refine map_of_mapM ?_ (applierTicker_eq h).2
  intro index m hm
  obtain ⟨e, _, rfl⟩ := Option.map_eq_some_iff.mp hm
  rfl

end Raft

/-! ## The history of a node -/

/-- The indices `applierTicker` of node `i` has pushed since the node was last started. -/
def pushed (i : Fin N) (h : List (Cluster N × Action N)) : List ℤ :=
  h.foldl (fun indices x =>
    match x.2 with
    | .act j .crash => if j = i then [] else indices
    | .act j .push =>
      if j = i then indices ++ ((x.1.nodes i).delivery.map (·.index)).toList else indices
    | _ => indices) []

/-- The indices the successful `Start` calls on node `i` have returned. -/
def startIndices (i : Fin N) (h : List (Cluster N × Action N)) : List ℤ :=
  h.filterMap fun x =>
    match x.2 with
    | .act j (.start command now) =>
      let result := (x.1.nodes i).rf.start command now
      if j = i ∧ result.2.2 = true then some result.2.1 else none
    | _ => none

/-- The indices 1, 2, …, `m`. -/
def countUp (m : ℕ) : List ℤ := (List.range m).map fun k : ℕ => (k : ℤ) + 1

theorem countUp_add (m k : ℕ) :
    countUp (m + k) = countUp m ++ (List.range k).map fun j : ℕ => (m : ℤ) + 1 + j := by
  unfold countUp
  rw [List.range_add, List.map_append, List.map_map]
  congr 1
  refine List.map_congr_left fun j _ => ?_
  simp only [Function.comp_apply]
  push_cast
  ring

/-- What comes first in a count from 1 is a count from 1. -/
theorem countUp_of_append {l r : List ℤ} {m : ℕ} (h : l ++ r = countUp m) :
    l = countUp l.length := by
  have hlen : l.length ≤ m := by
    have := congrArg List.length h
    simp only [List.length_append, countUp, List.length_map, List.length_range] at this
    omega
  have htake := congrArg (List.take l.length) h
  rw [List.take_left] at htake
  rw [htake, countUp, ← List.map_take, List.take_range, Nat.min_eq_left hlen]
  simp [countUp]

section Node

variable {s : Cluster N} {b : Ballot (Fin N) LogEntry} {h : List (Cluster N × Action N)}
  {a : Action N} {i : Fin N}

theorem pushed_snoc (i : Fin N) (h : List (Cluster N × Action N)) (s : Cluster N)
    (a : Action N) :
    pushed i (h ++ [(s, a)]) =
      match a with
      | .act j .crash => if j = i then [] else pushed i h
      | .act j .push =>
        if j = i then pushed i h ++ ((s.nodes i).delivery.map (·.index)).toList else pushed i h
      | _ => pushed i h := by
  unfold pushed
  rw [List.foldl_append]
  rfl

/-- What node `i` has pushed and what it is about to push are the indices up to
    `m_lastApplied`. -/
def InStep (i : Fin N) (h : List (Cluster N × Action N)) (s : Cluster N) : Prop :=
  pushed i h ++ (s.nodes i).applying.map (·.index) = countUp (s.nodes i).rf.lastApplied.toNat

/-- No process ends but by a crash. -/
theorem Streams.not_stops (hs : Streams s b) (hrange : Ranged s) {x : Input N ⊕ Packet N}
    (hx : s.driven a = some (i, x)) (hstop : (s.nodes i).Stops x) : x = .inl .crash := by
  cases x with
  | inl input =>
    cases input with
    | crash => rfl
    | apply =>
      have hn := hrange i
      exact absurd hstop (applierTicker_ne_none (hs.buffers.tidy.node i).plain.snap hn.nonneg
        hn.committed)
    | _ => exact absurd hstop id
  | inr q => exact absurd hstop (hs.not_fails hrange hx)

/-- A message leaves what is applied alone. -/
theorem Streams.receive_applied (hs : Streams s b) (hrange : Ranged s) {k : ℕ} {q : Packet N}
    (hk : s.network[k]? = some q) :
    ((s.nodes q.target).receive q).1.rf.lastApplied = (s.nodes q.target).rf.lastApplied ∧
      ((s.nodes q.target).receive q).1.applying = (s.nodes q.target).applying := by
  have hx : s.driven (.deliver k) = some (q.target, .inr q) := by
    simp only [Cluster.driven, hk, Option.map_some]
  have hq := hs.buffers.tidy.packet q (List.mem_of_getElem? hk)
  rcases (s.nodes q.target).receive_commit hq with ⟨hfail, _⟩ | hsteady |
    ⟨r, rf', reply, rfl, _, _, hacc, hres⟩ | ⟨r, reply, rfl, hraised⟩
  · exact absurd hfail (hs.not_fails hrange hx)
  · exact ⟨hsteady.lastApplied, hsteady.applying⟩
  · obtain ⟨logs, _, _, rfl, _⟩ := acceptEntries_cases hacc
    rw [hres]
    exact ⟨seeTerm_lastApplied _ _, rfl⟩
  · rw [hraised.result]
    exact ⟨rfl, hraised.applying⟩

/-- By itself a node takes the next entries when it has pushed all it had taken. -/
theorem Streams.step_applied (hs : Streams s b) (hrange : Ranged s) {input : Input N}
    (hcrash : input ≠ .crash) (hpush : input ≠ .push) :
    let n := s.nodes i
    let n' := (n.step input).1
    (n'.rf.lastApplied = n.rf.lastApplied ∧ n'.applying = n.applying) ∨
      (n.applying = [] ∧ n'.rf.lastApplied = n.rf.commitIndex ∧
        n'.applying.map (·.index) = (List.range (n.rf.commitIndex - n.rf.lastApplied).toNat).map
          fun k : ℕ => n.rf.lastApplied + 1 + k) := by
  dsimp only
  rcases (s.nodes i).step_commit input with ⟨hend, _⟩ | hsteady | ⟨rfl, _⟩ |
    ⟨rf', msgs, hempty, happ, hres⟩
  · have hx : s.driven (.act i input) = some (i, .inl input) := rfl
    cases hs.not_stops hrange hx hend
    exact absurd rfl hcrash
  · exact .inl ⟨hsteady.lastApplied, hsteady.applying⟩
  · exact absurd rfl hpush
  · refine .inr ⟨hempty, ?_, ?_⟩
    · rw [hres, (applierTicker_eq happ).1]
      exact max_eq_right (hrange i).applied
    · rw [hres]
      exact applierTicker_indices happ

theorem InStep.of_eq {h' : List (Cluster N × Action N)} {s' : Cluster N} (hin : InStep i h s)
    (hpushed : pushed i h' = pushed i h)
    (hlast : (s'.nodes i).rf.lastApplied = (s.nodes i).rf.lastApplied)
    (happ : (s'.nodes i).applying = (s.nodes i).applying) : InStep i h' s' := by
  unfold InStep
  rw [hpushed, hlast, happ]
  exact hin

theorem InStep.crash (hs : Streams s b) : InStep i (h ++ [(s, .act i .crash)])
    (s.step (.act i .crash)) := by
  have hnode : (s.step (.act i .crash)).nodes i = (s.nodes i).restart := Cluster.step_act_self
  have hrestart := Node.InRange.restart (hs.buffers.tidy.node i).saved
    (hs.buffers.tidy.node i).plain.snap
  have hlast : (s.nodes i).restart.rf.lastApplied = 0 := by
    have hle := hrestart.applied
    have hge := hrestart.nonneg
    have hcommit : (s.nodes i).restart.rf.commitIndex = 0 := init_commitIndex _ _
    omega
  unfold InStep
  rw [pushed_snoc, hnode, hlast]
  dsimp only
  rw [if_pos rfl]
  rfl

theorem InStep.push (hin : InStep i h s) : InStep i (h ++ [(s, .act i .push)])
    (s.step (.act i .push)) := by
  have hnode : (s.step (.act i .push)).nodes i =
      { s.nodes i with applying := (s.nodes i).applying.tail } := Cluster.step_act_self
  unfold InStep at hin ⊢
  rw [pushed_snoc, hnode]
  dsimp only
  rw [if_pos rfl, ← hin, List.append_assoc]
  congr 1
  unfold Node.delivery
  cases (s.nodes i).applying with
  | nil => rfl
  | cons m msgs => rfl

/-- What is pushed next is next in the count. -/
theorem InStep.act (hin : InStep i h s) (hs : Streams s b) (hrange : Ranged s)
    (input : Input N) : InStep i (h ++ [(s, .act i input)]) (s.step (.act i input)) := by
  by_cases hcrash : input = .crash
  · subst hcrash
    exact .crash hs
  · by_cases hpush : input = .push
    · subst hpush
      exact hin.push
    · have hnode : (s.step (.act i input)).nodes i = ((s.nodes i).step input).1 :=
        Cluster.step_act_self
      have hsame : pushed i (h ++ [(s, .act i input)]) = pushed i h := by
        rw [pushed_snoc]
        cases input with
        | crash => exact absurd rfl hcrash
        | push => exact absurd rfl hpush
        | _ => rfl
      rcases hs.step_applied (i := i) hrange hcrash hpush with ⟨hlast, happ⟩ |
        ⟨hempty, hlast, happ⟩
      · exact hin.of_eq hsame (hnode ▸ hlast) (hnode ▸ happ)
      · -- the entries between `m_lastApplied` and `m_commitIndex` are taken
        have h0 := (hrange i).nonneg
        have hle := (hrange i).applied
        unfold InStep at hin ⊢
        rw [hempty, List.map_nil, List.append_nil] at hin
        rw [hsame, hnode, happ, hlast, hin]
        obtain ⟨m, hm⟩ := Int.eq_ofNat_of_zero_le h0
        obtain ⟨k, hk⟩ := Int.eq_ofNat_of_zero_le (sub_nonneg.mpr hle)
        have hcommit : (s.nodes i).rf.commitIndex.toNat = m + k := by omega
        rw [hcommit, countUp_add, hk, hm]
        rfl

theorem InStep.step (hin : InStep i h s) (hs : Streams s b) (hrange : Ranged s) (a : Action N) :
    InStep i (h ++ [(s, a)]) (s.step a) := by
  cases a with
  | act j input =>
    by_cases hj : j = i
    · subst hj
      exact hin.act hs hrange input
    · have hnode : (s.step (.act j input)).nodes i = s.nodes i := by
        simp only [Cluster.step, Cluster.update, Function.update_of_ne (Ne.symm hj)]
      have hsame : pushed i (h ++ [(s, .act j input)]) = pushed i h := by
        rw [pushed_snoc]
        cases input with
        | crash => exact if_neg hj
        | push => exact if_neg hj
        | _ => rfl
      exact hin.of_eq hsame (by rw [hnode]) (by rw [hnode])
  | deliver k =>
    have hsame : pushed i (h ++ [(s, .deliver k)]) = pushed i h := pushed_snoc i h s _
    cases hk : s.network[k]? with
    | none =>
      rw [step_deliver_none hk]
      exact hin.of_eq hsame rfl rfl
    | some q =>
      by_cases hq : i = q.target
      · subst hq
        have hnode : (s.step (.deliver k)).nodes q.target = ((s.nodes q.target).receive q).1 := by
          simp only [Cluster.step, hk, Cluster.update, Function.update_self]
        obtain ⟨hlast, happ⟩ := hs.receive_applied hrange hk
        exact hin.of_eq hsame (hnode ▸ hlast) (hnode ▸ happ)
      · have hnode : (s.step (.deliver k)).nodes i = s.nodes i := by
          simp only [Cluster.step, hk, Cluster.update, Function.update_of_ne hq]
        exact hin.of_eq hsame (by rw [hnode]) (by rw [hnode])

/-- A command goes to the end of the log. -/
theorem startIndices_snoc (i : Fin N) (h : List (Cluster N × Action N)) (a : Action N)
    (hs : Streams s b) :
    startIndices i (h ++ [(s, a)]) = startIndices i h ∨
      startIndices i (h ++ [(s, a)]) = startIndices i h ++ [((s.nodes i).rf.logs.length : ℤ) + 1] ∧
        (s.nodes i).rf.logs.length + 1 ≤ ((s.step a).nodes i).rf.logs.length := by
  unfold startIndices
  rw [List.filterMap_append]
  cases a with
  | deliver k => exact .inl (List.append_nil _)
  | act j input =>
    cases input with
    | start command now =>
      by_cases hlead : j = i ∧ (s.nodes i).rf.status = .Leader
      · obtain ⟨rfl, hl⟩ := hlead
        refine .inr ⟨?_, (Cluster.start_length hl command now).ge⟩
        rw [← hs.newEntry_logindex j command]
        simp [Raft.start, hl]
      · refine .inl ?_
        have hfail : ¬ (j = i ∧ ((s.nodes i).rf.start command now).2.2 = true) := by
          rintro ⟨rfl, hok⟩
          refine hlead ⟨rfl, ?_⟩
          by_contra hl
          simp [Raft.start, hl] at hok
        simp [hfail]
    | _ => exact .inl (List.append_nil _)

end Node

/-! ## Every run -/

/-- What is known of node `i` after the steps `h`. -/
structure Handed (i : Fin N) (h : List (Cluster N × Action N)) (s : Cluster N) : Prop where
  inStep : InStep i h s
  starts : (startIndices i h).Pairwise (· < ·)
  bound : ∀ k ∈ startIndices i h, k ≤ (s.nodes i).rf.logs.length

theorem Handed.step {s : Cluster N} {b : Ballot (Fin N) LogEntry}
    {h : List (Cluster N × Action N)} {i : Fin N} (hh : Handed i h s) (hs : Streams s b)
    (hrange : Ranged s) (a : Action N) : Handed i (h ++ [(s, a)]) (s.step a) := by
  have hlen := hs.buffers.tidy.length_le_step a i
  rcases startIndices_snoc i h a hs with heq | ⟨heq, hgrow⟩
  · refine ⟨hh.inStep.step hs hrange a, heq ▸ hh.starts, ?_⟩
    intro k hk
    rw [heq] at hk
    have := hh.bound k hk
    omega
  · refine ⟨hh.inStep.step hs hrange a, ?_, ?_⟩
    · rw [heq, List.pairwise_append]
      refine ⟨hh.starts, List.pairwise_singleton _ _, ?_⟩
      intro k hk k' hk'
      rw [List.mem_singleton] at hk'
      have := hh.bound k hk
      omega
    · intro k hk
      rw [heq] at hk
      rcases List.mem_append.mp hk with hk | hk
      · have := hh.bound k hk
        omega
      · rw [List.mem_singleton] at hk
        omega

theorem Cluster.Runs.handed {h : List (Cluster N × Action N)} {s : Cluster N}
    (hr : Cluster.Runs anyStep h s) (i : Fin N) :
    ∃ b, Streams s b ∧ Ranged s ∧ Handed i h s := by
  induction hr with
  | nil => exact ⟨_, streams_init, ranged_init, rfl, .nil, fun k hk => (by cases hk)⟩
  | @snoc h s a _ _ ih =>
    obtain ⟨b, hs, hrange, hh⟩ := ih
    obtain ⟨b', _, hs'⟩ := hs.step a
    exact ⟨b', hs', hrange.step hs.buffers a, hh.step hs hrange a⟩

/-- Over the step `a` the term and the log of node `i` are not set back, and while its process
    lives its commit and applied index are not either. -/
structure Advances (s : Cluster N) (a : Action N) (i : Fin N) : Prop where
  currentTerm : (s.nodes i).rf.currentTerm ≤ ((s.step a).nodes i).rf.currentTerm
  lastLogIndex : (s.nodes i).rf.getLastLogIndex ≤ ((s.step a).nodes i).rf.getLastLogIndex
  alive : a ≠ .act i .crash → Node.Grown (s.nodes i) ((s.step a).nodes i)

theorem Streams.advances {s : Cluster N} {b : Ballot (Fin N) LogEntry} (hs : Streams s b)
    (hrange : Ranged s) (a : Action N) (i : Fin N) : Advances s a i := by
  obtain ⟨b', hle, hs'⟩ := hs.step a
  refine ⟨?_, ?_, fun ha => ?_⟩
  · rw [(hs.buffers.elections.node i).term, (hs'.buffers.elections.node i).term]
    exact Int.ofNat_le.mpr (hle.term i)
  · rw [(hs.buffers.tidy.node i).plain.snap.getLastLogIndex,
      (hs'.buffers.tidy.node i).plain.snap.getLastLogIndex]
    exact Int.ofNat_le.mpr (hs.buffers.tidy.length_le_step a i)
  · rcases s.step_nodes a i with heq | ⟨x, hx, heq⟩
    · rw [heq]
      exact ⟨le_rfl, le_rfl⟩
    · rw [heq]
      rcases hrange.handle hs.buffers hx with ⟨hstop, _⟩ | ⟨_, hgrown⟩
      · have hcrash := hs.not_stops hrange hx hstop
        subst hcrash
        exact absurd (Cluster.driven_input hx) ha
      · exact hgrown

/-- In every run of a cluster started with empty files: over each step the term and the last log
    index of a node do not decrease, nor do its commit and applied index unless it crashes; its
    commands get increasing indices; `m_lastApplied ≤ m_commitIndex ≤ getLastLogIndex()`, so
    `applierTicker` finds every entry it reads; and what it has pushed since the node was last
    started is 1, 2, 3, … -/
theorem node_invariant (h : List (Cluster N × Action N)) (s : Cluster N)
    (hr : Cluster.Runs anyStep h s) (i : Fin N) :
    (∀ x ∈ h, Advances x.1 x.2 i) ∧ (startIndices i h).Pairwise (· < ·) ∧
      (s.nodes i).rf.lastApplied ≤ (s.nodes i).rf.commitIndex ∧
      (s.nodes i).rf.commitIndex ≤ (s.nodes i).rf.getLastLogIndex ∧
      (s.nodes i).rf.applierTicker ≠ none ∧
      pushed i h = countUp (pushed i h).length := by
  obtain ⟨b, hs, hrange, hh⟩ := hr.handed i
  have hsnap := (hs.buffers.tidy.node i).plain.snap
  have hn := hrange i
  refine ⟨?_, hh.starts, hn.applied, hsnap.getLastLogIndex ▸ hn.committed,
    applierTicker_ne_none hsnap hn.nonneg hn.committed, countUp_of_append hh.inStep⟩
  obtain ⟨_, _, hF⟩ := hr.simulate (R := fun s b => Streams s b ∧ Ranged s)
    (F := fun s a _ => ∀ i, Advances s a i) ⟨streams_init, ranged_init⟩
    (fun s a b hR _ => by
      obtain ⟨b', hle, hR'⟩ := hR.1.step a
      exact ⟨b', hle, ⟨hR', hR.2.step hR.1.buffers a⟩, hR.1.advances hR.2 a⟩)
    (fun s a b b' (_ : b.Le b') hF => hF)
  exact fun x hx => hF x hx i

/-- Node 1 has pushed its first entry; it has been given two commands. -/
theorem node_invariant_appliedRun :
    pushed 1 (Cluster.trace (appliedRun ++ [.act 1 (.start ⟨[], [], [], [], 6⟩ 0)])) = [1] ∧
    startIndices 1 (Cluster.trace (appliedRun ++ [.act 1 (.start ⟨[], [], [], [], 6⟩ 0)])) =
      [1, 2] ∧
    ((Cluster.exec (appliedRun ++ [.act 1 (.start ⟨[], [], [], [], 6⟩ 0)])).nodes 1).rf.applierTicker
      ≠ none :=
  ⟨by decide +kernel, by decide +kernel,
    (node_invariant _ _ (Cluster.runs_exec _ fun _ _ => trivial) 1).2.2.2.2.1⟩

end MyKvRaft
