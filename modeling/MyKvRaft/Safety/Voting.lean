import MyKvRaft.Consensus.Ballot
import MyKvRaft.Safety.Persistence

/-!
# Votes and elections of one node

The votes and leaders of a run are kept in a `Ballot`, which observes the node that
has just taken a step (`Raft.seenIn`). `Voted` ties the state of a node to it, and
`Counted` the counter of a running election.

`sendRequestVote` asks neither whether the node is still a candidate nor whether
the reply is for the current term. What protects it is that a granted vote carries
the term of its request, that each peer is asked once, and that after a win, where
`*voteNum` is set to 0, fewer than a majority of the peers are left to be asked.

* `Voted.move`: the moves of a node that the ballot allows.
* `Counted.wins`: a count that reaches the majority is a first win of its term.
-/

namespace MyKvRaft

open Consensus Transition

variable {N : ℕ}

instance : Termed LogEntry := ⟨fun e => e.logterm.toNat⟩

/-- The value of `m_votedFor` for a vote. -/
def voteCode : Option (Fin N) → ℤ
  | none => -1
  | some x => x.val

/-- The vote a value of `m_votedFor` stands for. -/
def voteOf (votedFor : ℤ) : Option (Fin N) :=
  if h : 0 ≤ votedFor ∧ votedFor.toNat < N then some ⟨votedFor.toNat, h.2⟩ else none

theorem voteOf_voteCode (v : Option (Fin N)) : voteOf (voteCode v) = v := by
  cases v with
  | none => simp [voteOf, voteCode]
  | some x => simp [voteOf, voteCode]

theorem voteOf_val (x : Fin N) : voteOf (x.val : ℤ) = some x := voteOf_voteCode (some x)

theorem voteOf_none : voteOf (-1) = (none : Option (Fin N)) := voteOf_voteCode none

namespace Raft

/-- The log of a leader. -/
def ledLog (rf : Raft N) : Option (List LogEntry) :=
  if rf.status = .Leader then some rf.logs else none

/-- The ballot after node `i` is seen as `rf`. -/
def seenIn (rf : Raft N) (b : Ballot (Fin N) LogEntry) (i : Fin N) : Ballot (Fin N) LogEntry :=
  b.observe i rf.currentTerm.toNat (voteOf rf.votedFor) rf.ledLog

/-- Seeing node `i` as `rf` is allowed. -/
def Lawful (rf : Raft N) (b : Ballot (Fin N) LogEntry) (i : Fin N) : Prop :=
  b.Legal i rf.currentTerm.toNat (voteOf rf.votedFor) rf.ledLog

/-- Node `i` is as the ballot says. -/
structure Voted (b : Ballot (Fin N) LogEntry) (i : Fin N) (rf : Raft N) : Prop where
  me : rf.me = i
  saved : rf.Saved
  term : rf.currentTerm = b.term i
  vote : rf.votedFor = voteCode (b.vote i (b.term i))
  lead : rf.status = .Leader → b.leader (b.term i) = some i ∧ b.lead (b.term i) = rf.logs
  self : rf.status = .Leader → b.vote i (b.term i) = some i

/-! ## The moves of one node -/

section Moves

variable {b : Ballot (Fin N) LogEntry} {i : Fin N} {rf rf' : Raft N}

/-- What the vote of a node may become. -/
def VoteMove (b : Ballot (Fin N) LogEntry) (i : Fin N) (rf rf' : Raft N) : Prop :=
  (rf'.currentTerm = rf.currentTerm ∧ rf'.votedFor = rf.votedFor) ∨
  (rf.currentTerm < rf'.currentTerm ∧ rf'.votedFor = -1) ∨
  ∃ x : Fin N, rf'.votedFor = x.val ∧
    (rf.currentTerm < rf'.currentTerm ∨ rf'.currentTerm = rf.currentTerm ∧
      (rf.votedFor = -1 ∨ rf.votedFor = x.val)) ∧
    (x = i ∨ rf'.currentTerm ≤ b.term x)

/-- How a node may come to lead: it led before, or it has won. -/
def LeadMove (b : Ballot (Fin N) LogEntry) (i : Fin N) (rf rf' : Raft N) : Prop :=
  (rf.status = .Leader ∧ rf'.currentTerm = rf.currentTerm ∧
    Extends rf.currentTerm.toNat rf.logs rf'.logs) ∨
  (b.leader rf'.currentTerm.toNat = none ∧ b.vote i rf'.currentTerm.toNat = some i ∧
    ∃ Q, Majority Q ∧ ∀ n ∈ Q, b.vote n rf'.currentTerm.toNat = some i)

/-- The vote recorded for a move is the one recorded before, if any. -/
theorem Voted.voteOf_move (hb : b.Valid) (hv : Voted b i rf) (hvote : VoteMove b i rf rf')
    {x : Fin N} (hx : voteOf rf'.votedFor = some x) :
    (b.vote i rf'.currentTerm.toNat = none ∨ b.vote i rf'.currentTerm.toNat = some x) ∧
      (x = i ∨ rf'.currentTerm.toNat ≤ b.term x) := by
  have ht : rf.currentTerm.toNat = b.term i := by rw [hv.term, Int.toNat_natCast]
  have hcode : voteOf rf.votedFor = b.vote i (b.term i) := by rw [hv.vote, voteOf_voteCode]
  have hnew : rf.currentTerm < rf'.currentTerm → b.vote i rf'.currentTerm.toNat = none := by
    intro hlt
    by_contra hne
    obtain ⟨y, hy⟩ := Option.ne_none_iff_exists'.mp hne
    have hle := hb.vote_le hy
    have hterm := hv.term
    omega
  rcases hvote with ⟨h1, h2⟩ | ⟨_, h2⟩ | ⟨y, h2, h3, h4⟩
  · rw [h2, hcode] at hx
    rw [h1, ht]
    exact ⟨Or.inr hx, Or.inr (hb.candidate_le hx)⟩
  · rw [h2, voteOf_none] at hx
    cases hx
  · rw [h2, voteOf_val] at hx
    cases hx
    refine ⟨?_, h4.imp id fun h => by omega⟩
    rcases h3 with h3 | ⟨h3, h5⟩
    · exact Or.inl (hnew h3)
    · rw [h3, ht, ← hcode]
      rcases h5 with h5 | h5
      · rw [h5]; exact Or.inl voteOf_none
      · rw [h5]; exact Or.inr (voteOf_val x)

/-- Every move of a node is lawful, and leaves it as the new ballot says. -/
theorem Voted.move (hb : b.Valid) (hv : Voted b i rf) (hsaved : rf'.Saved) (hme : rf'.me = rf.me)
    (hterm : rf.currentTerm ≤ rf'.currentTerm) (hvote : VoteMove b i rf rf')
    (hlead : rf'.status = .Leader → LeadMove b i rf rf') :
    rf'.Lawful b i ∧ Voted (rf'.seenIn b i) i rf' := by
  have ht : rf.currentTerm.toNat = b.term i := by rw [hv.term, Int.toNat_natCast]
  have hle : b.term i ≤ rf'.currentTerm.toNat := by have := hv.term; omega
  have hcast : b.Legal i rf'.currentTerm.toNat (voteOf rf'.votedFor) none :=
    ⟨hle, fun x hx => hv.voteOf_move hb hvote hx, fun l hl => by cases hl⟩
  have hlaw : rf'.Lawful b i := by
    refine ⟨hle, hcast.vote, fun l hl => ?_⟩
    unfold ledLog at hl
    split_ifs at hl with hs
    cases hl
    rcases hlead hs with ⟨h1, h2, h3⟩ | ⟨h1, _, Q, hQ, h2⟩
    · left
      obtain ⟨h4, h5⟩ := hv.lead h1
      rw [h2, ht, h5]
      exact ⟨h4, ht ▸ h3⟩
    · exact Or.inr ⟨h1, Q, hQ, fun n hn => hcast.vote_mono (h2 n hn)⟩
  have hterm' : (rf'.seenIn b i).term i = rf'.currentTerm.toNat :=
    Ballot.observe_term_self _ _ _ _ _
  refine ⟨hlaw, hme.trans hv.me, hsaved, ?_, ?_, fun hl => ?_, fun hl => ?_⟩
  · rw [hterm']
    have := hv.term
    omega
  · rw [hterm', seenIn, Ballot.observe_vote_self]
    rcases hvote with ⟨h1, h2⟩ | ⟨h1, h2⟩ | ⟨x, h2, _⟩
    · rw [h1, ht, h2, hv.vote, voteOf_voteCode, Option.or_self]
    · -- in a new term nobody has this node's vote
      have hnone : b.vote i rf'.currentTerm.toNat = none := by
        by_contra hne
        obtain ⟨y, hy⟩ := Option.ne_none_iff_exists'.mp hne
        have hle' := hb.vote_le hy
        have := hv.term
        omega
      rw [h2, voteOf_none, hnone]
      rfl
    · rw [h2, voteOf_val]
      rfl
  · rw [hterm', seenIn, Ballot.observe_leader_self, Ballot.observe_lead_self]
    simp [ledLog, hl]
  · rw [hterm']
    refine hlaw.vote_mono ?_
    rcases hlead hl with ⟨h1, h2, _⟩ | ⟨_, h1, _⟩
    · rw [h2, ht]
      exact hv.self h1
    · exact h1

/-- A node that did not move. -/
theorem Voted.same (hb : b.Valid) (hv : Voted b i rf) (hsaved : rf'.Saved) (hme : rf'.me = rf.me)
    (hterm : rf'.currentTerm = rf.currentTerm) (hvote : rf'.votedFor = rf.votedFor)
    (hlead : rf'.status = .Leader → rf.status = .Leader ∧ rf'.logs = rf.logs) :
    rf'.Lawful b i ∧ Voted (rf'.seenIn b i) i rf' := by
  refine hv.move hb hsaved hme hterm.ge (Or.inl ⟨hterm, hvote⟩) fun hs => Or.inl ?_
  obtain ⟨h1, h2⟩ := hlead hs
  exact ⟨h1, hterm, h2 ▸ Extends.refl _ _⟩

/-- A node that has seen a greater term. -/
theorem Voted.raise (hb : b.Valid) (hv : Voted b i rf) (hsaved : rf'.Saved) (hme : rf'.me = rf.me)
    (hterm : rf.currentTerm < rf'.currentTerm) (hvote : rf'.votedFor = -1)
    (hlead : rf'.status ≠ .Leader) : rf'.Lawful b i ∧ Voted (rf'.seenIn b i) i rf' :=
  hv.move hb hsaved hme hterm.le (Or.inr (Or.inl ⟨hterm, hvote⟩)) fun hs => absurd hs hlead

/-- A node that leads without having won just now has led its term before. -/
theorem Voted.leader_seenIn (hv : Voted b i rf)
    (hold : rf'.status = .Leader → rf.status = .Leader ∧ rf'.currentTerm = rf.currentTerm) {u : ℕ}
    {x : Fin N} (hx : (rf'.seenIn b i).leader u = some x) : b.leader u = some x := by
  rcases Ballot.leader_observe hx with hx | ⟨rfl, rfl, hled⟩
  · exact hx
  · have hs : rf'.status = .Leader := by
      by_contra hne
      exact hled (by simp [ledLog, hne])
    obtain ⟨h1, h2⟩ := hold hs
    rw [h2, hv.term, Int.toNat_natCast]
    exact (hv.lead h1).1

end Moves

end Raft

/-! ## Counting votes -/

/-- The peers the loop of `doElection` has still to ask. -/
def toAsk (i : Fin N) (server : ℕ) : Finset (Fin N) :=
  Finset.univ.filter fun j => server ≤ j.val ∧ j ≠ i

/-- A running election of node `i`: as long as it has not won, `*voteNum` counts peers that were
    asked and voted for it; once it has won, the votes to come do not make a majority. -/
structure Counted (b : Ballot (Fin N) LogEntry) (i : Fin N) (e : Election N) : Prop where
  nonneg : 0 ≤ e.args.term
  term_le : e.args.term ≤ b.term i
  candidate : e.args.candidateid = i.val
  self : b.vote i e.args.term.toNat = some i
  waiting : ∀ r, e.waiting = some r →
    r.src = i ∧ r.dst.val = e.server ∧ r.dst ≠ i ∧ r.args = e.args
  votes : b.leader e.args.term.toNat ≠ some i → ∃ V : Finset (Fin N),
    (∀ n ∈ V, n.val < e.server ∧ n ≠ i ∧ b.vote n e.args.term.toNat = some i) ∧
      e.votedNum ≤ V.card + 1
  won : b.leader e.args.term.toNat = some i →
    e.votedNum + (toAsk i e.server).card < majority N

section Count

variable {b : Ballot (Fin N) LogEntry} {i : Fin N} {e : Election N}

theorem toAsk_succ (i : Fin N) (server : ℕ) : toAsk i (server + 1) ⊆ toAsk i server := by
  intro j hj
  simp only [toAsk, Finset.mem_filter, Finset.mem_univ, true_and] at hj ⊢
  exact ⟨by omega, hj.2⟩

/-- Asking a peer leaves one less to ask. -/
theorem toAsk_card {j : Fin N} (hj : j ≠ i) :
    (toAsk i j.val).card = (toAsk i (j.val + 1)).card + 1 := by
  have hins : toAsk i j.val = insert j (toAsk i (j.val + 1)) := by
    ext k
    simp only [toAsk, Finset.mem_filter, Finset.mem_univ, true_and, Finset.mem_insert]
    constructor
    · rintro ⟨h1, h2⟩
      by_cases hk : k = j
      · exact Or.inl hk
      · exact Or.inr ⟨by have := Fin.val_ne_of_ne hk; omega, h2⟩
    · rintro (rfl | ⟨h1, h2⟩)
      · exact ⟨le_rfl, hj⟩
      · exact ⟨by omega, h2⟩
  rw [hins, Finset.card_insert_of_notMem]
  simp [toAsk]

theorem Counted.mono {b' : Ballot (Fin N) LogEntry} (hc : Counted b i e) (hle : b.Le b')
    (hlead : ∀ u, b'.leader u = some i → b.leader u = some i) : Counted b' i e := by
  refine ⟨hc.nonneg, ?_, hc.candidate, hle.vote hc.self, hc.waiting, fun hne => ?_, fun h => ?_⟩
  · have h1 := hc.term_le
    have h2 := hle.term i
    omega
  · obtain ⟨V, hV, hcard⟩ := hc.votes fun h => hne (hle.leader h)
    exact ⟨V, fun n hn => ⟨(hV n hn).1, (hV n hn).2.1, hle.vote (hV n hn).2.2⟩, hcard⟩
  · exact hc.won (hlead _ h)

/-- The next peer, without a vote from this one. -/
theorem Counted.skip (hc : Counted b i e) :
    Counted b i { e with waiting := none, server := e.server + 1 } := by
  refine ⟨hc.nonneg, hc.term_le, hc.candidate, hc.self, by simp, fun hne => ?_, fun h => ?_⟩
  · obtain ⟨V, hV, hcard⟩ := hc.votes hne
    exact ⟨V, fun n hn => ⟨Nat.lt_succ_of_lt (hV n hn).1, (hV n hn).2⟩, hcard⟩
  · have h1 := hc.won h
    have h2 := Finset.card_le_card (toAsk_succ i e.server)
    show e.votedNum + ((toAsk i (e.server + 1)).card : ℤ) < majority N
    omega

/-- Waiting for the answer of the next peer. -/
theorem Counted.ask (hc : Counted b i e) {r : Rpc N RequestVoteArgs} (hsrc : r.src = i)
    (hdst : r.dst.val = e.server) (hne : r.dst ≠ i) (hargs : r.args = e.args) :
    Counted b i { e with waiting := some r } := by
  refine ⟨hc.nonneg, hc.term_le, hc.candidate, hc.self, ?_, hc.votes, hc.won⟩
  rintro r' ⟨⟩
  exact ⟨hsrc, hdst, hne, hargs⟩

/-- One voter more than were counted. -/
theorem Counted.voters (hc : Counted b i e) {r : Rpc N RequestVoteArgs} (hw : e.waiting = some r)
    (hvote : b.vote r.dst e.args.term.toNat = some i)
    (hne : b.leader e.args.term.toNat ≠ some i) : ∃ V : Finset (Fin N),
    (∀ n ∈ V, n.val < e.server + 1 ∧ n ≠ i ∧ b.vote n e.args.term.toNat = some i) ∧
      e.votedNum + 1 ≤ V.card + 1 := by
  obtain ⟨_, hdst, hdi, _⟩ := hc.waiting r hw
  obtain ⟨V, hV, hcard⟩ := hc.votes hne
  have hnew : r.dst ∉ V := fun h => by
    have := (hV _ h).1
    omega
  refine ⟨insert r.dst V, fun n hn => ?_, ?_⟩
  · rcases Finset.mem_insert.mp hn with rfl | hn
    · exact ⟨by omega, hdi, hvote⟩
    · exact ⟨Nat.lt_succ_of_lt (hV n hn).1, (hV n hn).2⟩
  · rw [Finset.card_insert_of_notMem hnew]
    push_cast
    omega

/-- A vote is counted. -/
theorem Counted.granted (hc : Counted b i e) {r : Rpc N RequestVoteArgs} (hw : e.waiting = some r)
    (hvote : b.vote r.dst e.args.term.toNat = some i) :
    Counted b i { e with votedNum := e.votedNum + 1, waiting := none, server := e.server + 1 } := by
  obtain ⟨_, hdst, hdi, _⟩ := hc.waiting r hw
  refine ⟨hc.nonneg, hc.term_le, hc.candidate, hc.self, by simp, hc.voters hw hvote, fun h => ?_⟩
  have h1 := hc.won h
  have h2 := toAsk_card hdi
  rw [hdst] at h2
  show e.votedNum + 1 + ((toAsk i (e.server + 1)).card : ℤ) < majority N
  omega

/-- The vote that completes a majority: the term had no leader, and fewer than a majority of the
    peers are left. -/
theorem Counted.wins (hb : b.Valid) (hc : Counted b i e) {r : Rpc N RequestVoteArgs}
    (hw : e.waiting = some r) (hvote : b.vote r.dst e.args.term.toNat = some i)
    (hmaj : majority N ≤ e.votedNum + 1) :
    b.leader e.args.term.toNat = none ∧
      (∃ Q, Majority Q ∧ ∀ n ∈ Q, b.vote n e.args.term.toNat = some i) ∧
      ((toAsk i (e.server + 1)).card : ℤ) < majority N := by
  have hne : b.leader e.args.term.toNat ≠ some i := by
    intro h
    obtain ⟨_, hdst, hdi, _⟩ := hc.waiting r hw
    have h1 := (hc.granted hw hvote).won h
    dsimp only at h1
    omega
  obtain ⟨V, hV, hcard⟩ := hc.voters hw hvote hne
  have hi : i ∉ V := fun h => (hV i h).2.1 rfl
  have hQ : ∀ n ∈ insert i V, b.vote n e.args.term.toNat = some i := by
    intro n hn
    rcases Finset.mem_insert.mp hn with rfl | hn
    · exact hc.self
    · exact (hV n hn).2.2
  have hmajority : Majority (insert i V) := by
    unfold Majority
    rw [Finset.card_insert_of_notMem hi, Fintype.card_fin]
    unfold majority at hmaj
    omega
  refine ⟨?_, ⟨_, hmajority, hQ⟩, ?_⟩
  · cases hl : b.leader e.args.term.toNat with
    | none => rfl
    | some x => exact absurd (hb.leader_unique hl hmajority hQ ▸ hl) hne
  · -- the voters and the peers still to ask are disjoint
    have hdisj : Disjoint (insert i V) (toAsk i (e.server + 1)) := by
      rw [Finset.disjoint_left]
      intro n hn hask
      simp only [toAsk, Finset.mem_filter, Finset.mem_univ, true_and] at hask
      rcases Finset.mem_insert.mp hn with rfl | hn
      · exact hask.2 rfl
      · have := (hV n hn).1
        omega
    have hunion := Finset.card_union_of_disjoint hdisj
    have hle := Finset.card_le_univ (insert i V ∪ toAsk i (e.server + 1))
    rw [Fintype.card_fin] at hle
    rw [Finset.card_insert_of_notMem hi] at hunion
    unfold majority at hmaj ⊢
    omega

end Count

end MyKvRaft
