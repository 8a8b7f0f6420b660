import MyKvRaft.Safety.Election

/-!
# What a term keeps

The ballot of a run never forgets a vote, and never takes back an entry of a leader's log. So
neither do the nodes, whatever is lost, delayed or reordered, and across crashes.

* `one_vote_per_term`: a node that has voted in a term has this vote as long as it is in the term.
* `leader_append_only`: the log of a leader only grows, by entries of its term.
-/

namespace MyKvRaft

open Consensus Transition Raft

variable {N : ℕ} {s : Cluster N} {b b' : Ballot (Fin N) LogEntry}

/-- The votes and the logs of leaders in `s` are on record. -/
structure OnRecord (s : Cluster N) (b : Ballot (Fin N) LogEntry) : Prop where
  vote : ∀ i x, (s.nodes i).rf.votedFor = voteCode (some x) →
    b.vote i (s.nodes i).rf.currentTerm.toNat = some x
  lead : ∀ i T, Leads s i T →
    b.leader T.toNat = some i ∧ Extends T.toNat (s.nodes i).rf.logs (b.lead T.toNat)

theorem OnRecord.mono (h : OnRecord s b) (hle : b.Le b') : OnRecord s b' where
  vote i x hx := hle.vote (h.vote i x hx)
  lead i T hl := by
    obtain ⟨hleader, hext⟩ := h.lead i T hl
    exact ⟨hle.leader hleader, hext.trans (hle.lead hleader)⟩

theorem Elections.term_eq (h : Elections s b) (i : Fin N) :
    (s.nodes i).rf.currentTerm.toNat = b.term i := by
  rw [(h.node i).term, Int.toNat_natCast]

theorem Elections.onRecord (h : Elections s b) : OnRecord s b where
  vote i x hx := by
    have hvote := (h.node i).vote
    rw [hx] at hvote
    rw [h.term_eq, ← voteOf_voteCode (b.vote i (b.term i)), ← hvote, voteOf_voteCode]
  lead i T hl := by
    obtain ⟨hleader, hlead⟩ := (h.node i).lead hl.1
    rw [← hl.2, h.term_eq, hlead]
    exact ⟨hleader, .refl _ _⟩

/-- The ballot at the end of a run has the votes and logs of all its states on record. -/
theorem runs_onRecord {h : List (Cluster N × Action N)} (hr : Cluster.Runs anyStep h s) :
    ∃ b, Elections s b ∧ ∀ x ∈ h, OnRecord x.1 b := by
  refine hr.simulate (R := Elections) (F := fun s _ b => OnRecord s b) elections_init
    (fun s a b hel _ => ?_) fun s a b b' hle hrec => hrec.mono hle
  obtain ⟨b', hle, hel'⟩ := hel.step a
  exact ⟨b', hle, hel', hel.onRecord.mono hle⟩

/-- A node that has voted for `x` in a term has voted for `x` whenever it is in this term later. -/
theorem one_vote_per_term (h : List (Cluster N × Action N)) (s : Cluster N)
    (hr : Cluster.Runs anyStep h s) (s₁ : Cluster N) (a : Action N) (h₁ : (s₁, a) ∈ h)
    (i x : Fin N) (hvote : (s₁.nodes i).rf.votedFor = x.val)
    (hterm : (s₁.nodes i).rf.currentTerm = (s.nodes i).rf.currentTerm) :
    (s.nodes i).rf.votedFor = x.val := by
  obtain ⟨b, hel, hrec⟩ := runs_onRecord hr
  have hb := (hrec _ h₁).vote i x hvote
  rw [hterm, hel.term_eq] at hb
  rw [(hel.node i).vote, hb]
  rfl

open MyKvRaft.Action in
/-- Node 1 votes for node 0, crashes, and is asked by node 2 in the same term. -/
def secondVoteRun : List (Action 3) :=
  [timeout 0, ask 0, ask 0, .deliver 0, .act 1 .crash, timeout 2, ask 2, voteLost 2, ask 2,
    .deliver 2]

theorem one_vote_per_term_secondVoteRun :
    ((Cluster.exec secondVoteRun).nodes 1).rf.votedFor = ((0 : Fin 3).val : ℤ) :=
  one_vote_per_term _ _ (Cluster.runs_exec secondVoteRun fun _ _ => trivial) _ _
    (Cluster.mem_trace (secondVoteRun.take 4) _ (secondVoteRun.drop 5)) 1 0 (by decide +kernel)
    (by decide +kernel)

/-- A node that leads a term has all that it had in its log when it led this term before, and
    behind it only entries of the term. -/
theorem leader_append_only (h : List (Cluster N × Action N)) (s : Cluster N)
    (hr : Cluster.Runs anyStep h s) (s₁ : Cluster N) (a : Action N) (h₁ : (s₁, a) ∈ h)
    (i : Fin N) (T : ℤ) (hbefore : Leads s₁ i T) (hafter : Leads s i T) :
    Extends T.toNat (s₁.nodes i).rf.logs (s.nodes i).rf.logs := by
  obtain ⟨b, hel, hrec⟩ := runs_onRecord hr
  obtain ⟨_, hext⟩ := (hrec _ h₁).lead i T hbefore
  have hlead := ((hel.node i).lead hafter.1).2
  rw [← hel.term_eq, hafter.2] at hlead
  rwa [hlead] at hext

/-- Node 0 wins term 1, and is given a command and another one. -/
def appendingRun : List (Action 3) := electionRun ++ [.put 0 7, .put 0 8]

theorem leader_append_only_appendingRun :
    Extends 1 ((Cluster.exec (electionRun ++ [.put 0 7])).nodes 0).rf.logs
      ((Cluster.exec appendingRun).nodes 0).rf.logs :=
  leader_append_only _ _ (Cluster.runs_exec appendingRun fun _ _ => trivial) _ (.put 0 8)
    (Cluster.mem_trace (electionRun ++ [.put 0 7]) _ []) 0 1 (by decide +kernel) (by decide +kernel)

end MyKvRaft
