import MyKvRaft.Safety.Following

/-!
# Log matching

* `log_matching`: in every run of clean steps, two logs that have an entry of the same
  term at the same index have the same entries up to there.
* `log_matching_fails`: with a stale suffix kept behind an overwritten entry, they
  need not.
-/

namespace MyKvRaft

open Consensus Transition Raft

variable {N : ℕ}

/-- Entries of one term at one index have the same entries before them. -/
def LogMatching (s : Cluster N) : Prop :=
  ∀ (a b : Fin N) (i : ℤ) (e f : LogEntry),
    (s.nodes a).rf.entryAt i = some e → (s.nodes b).rf.entryAt i = some f →
    e.logterm = f.logterm → ∀ (j : ℤ) (e' f' : LogEntry), j ≤ i →
    (s.nodes a).rf.entryAt j = some e' → (s.nodes b).rf.entryAt j = some f' →
    e'.logterm = f'.logterm ∧ e'.command = f'.command

/-- The run of a cluster whose steps are all clean is recorded in a ledger. -/
theorem replicated_run {h : List (Cluster N × Action N)} {s : Cluster N}
    (hr : Cluster.Runs Clean h s) : ∃ p, Replicated s p := by
  obtain ⟨p, hp, _⟩ := hr.simulate (R := Replicated) (F := fun _ _ _ => True) replicated_init
    (fun s a p hp hok => by
      obtain ⟨p', hle, hp'⟩ := hp.step hok
      exact ⟨p', hle, hp', trivial⟩)
    (fun _ _ _ _ _ _ => trivial)
  exact ⟨p, hp⟩

theorem Replicated.logsMatch {s : Cluster N} {p : Ledger (Fin N) LogEntry}
    (h : Replicated s p) : LogMatching s := by
  intro a b i e f he hf hterm j e' f' hji he' hf'
  obtain ⟨k, rfl, hk⟩ := (h.tidy.node a).plain.snap.entryAt_eq he
  obtain ⟨k', hkk', hk'⟩ := (h.tidy.node b).plain.snap.entryAt_eq hf
  obtain ⟨m, rfl, hm⟩ := (h.tidy.node a).plain.snap.entryAt_eq he'
  obtain ⟨m', hmm', hm'⟩ := (h.tidy.node b).plain.snap.entryAt_eq hf'
  obtain rfl : k' = k := by omega
  obtain rfl : m' = m := by omega
  rw [(h.node a).log] at hk hm
  rw [(h.node b).log] at hk' hm'
  have hagree := (h.sound.log_follows a).agree (h.sound.log_follows b) hk hk'
    (by simp only [termOf, hterm])
  have hsame := getElem?_eq_of_take_eq hagree (j := m') (by omega)
  rw [hm, hm'] at hsame
  cases hsame
  exact ⟨rfl, rfl⟩

/-- Log matching holds in every state that clean steps reach. -/
theorem log_matching (h : List (Cluster N × Action N)) (s : Cluster N)
    (hr : Cluster.Runs Clean h s) : LogMatching s := by
  obtain ⟨p, hp⟩ := replicated_run hr
  exact hp.logsMatch

open MyKvRaft.Action in
/-- Node 0 leads term 1 and has an entry of its own; node 1 leads term 2 with the vote of node 2
    and overwrites it. -/
def cleanRun : List (Action 3) :=
  [timeout 0, ask 0, ask 0, .deliver 0, .deliver 0, put 0 1,
    timeout 1, ask 1, voteLost 1, ask 1, ask 1, .deliver 1, .deliver 1, put 1 5] ++
  batchRound 1 ++ [.deliver 1]

theorem log_matching_cleanRun :
    (((Cluster.exec cleanRun).nodes 0).rf.logs.map (·.logterm) = [2] ∧
      ((Cluster.exec cleanRun).nodes 1).rf.logs.map (·.logterm) = [2]) ∧
    LogMatching (Cluster.exec cleanRun) :=
  ⟨by decide +kernel,
    log_matching _ _ (Cluster.runs_exec cleanRun (by decide +kernel))⟩

open MyKvRaft.Action in
/-- Node 0 leads term 1 and has four entries of its own. Node 1 leads term 2 with the vote of
    node 2; its first entry reaches both, the next two only node 0, which keeps its fourth
    entry, of term 1. -/
def staleSuffixRun : List (Action 3) :=
  [timeout 0, ask 0, ask 0, .deliver 0, .deliver 0, put 0 1, put 0 2, put 0 3, put 0 4,
    timeout 1, ask 1, voteLost 1, ask 1, ask 1, .deliver 1, .deliver 1, put 1 5] ++
  batchRound 1 ++ [.deliver 1, .deliver 1, put 1 6, put 1 7] ++ batchRound 1 ++ [.deliver 3]

open MyKvRaft.Action in
/-- Node 2 leads term 3 with the vote of node 0 and overwrites the second entry there. -/
def divergedRun : List (Action 3) :=
  staleSuffixRun ++ [timeout 2, ask 2, .deliver 5, .deliver 5, put 2 8] ++ batchRound 2 ++
    [.deliver 5]

/-- In the end nodes 0 and 1 both have the entry of term 2 at index 3, and different entries at
    index 2. -/
theorem log_matching_fails : ∃ (h : List (Cluster 3 × Action 3)) (s : Cluster 3),
    Cluster.Runs anyStep h s ∧ ¬ LogMatching s := by
  refine ⟨_, _, Cluster.runs_exec divergedRun fun _ _ => trivial, fun hm => ?_⟩
  let op (r : ℤ) : Bytes := encodeOp ⟨[], [], [], [], r⟩
  have h := hm 0 1 3 ⟨op 7, 2, 3⟩ ⟨op 7, 2, 3⟩ (by decide +kernel) (by decide +kernel) rfl
    2 ⟨op 8, 3, 2⟩ ⟨op 6, 2, 2⟩ (by decide) (by decide +kernel) (by decide +kernel)
  exact absurd h.1 (by decide)

end MyKvRaft
