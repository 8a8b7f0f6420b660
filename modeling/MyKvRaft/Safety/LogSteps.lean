import MyKvRaft.Safety.Replication

/-!
# One node changes its log

The four ways a step of a node is recorded in the ledger: nothing new
(`written_same`), a new term or vote (`written_observe`), leading
(`written_lead`, `written_win`) and copying from a leader (`written_copy`).
-/

namespace MyKvRaft

open Consensus Transition Raft

variable {N : ℕ} {p : Ledger (Fin N) LogEntry} {i : Fin N} {n n' : Node N} {out : List (Packet N)}

/-- A node that shows nothing new leaves the ballot as it is. -/
theorem Raft.Voted.seenIn_same {b : Ballot (Fin N) LogEntry} {rf rf' : Raft N} (hv : Voted b i rf)
    (hterm : rf'.currentTerm = rf.currentTerm) (hvote : rf'.votedFor = rf.votedFor)
    (hlead : rf'.status = .Leader → rf.status = .Leader ∧ rf'.logs = rf.logs) :
    rf'.seenIn b i = b := by
  unfold seenIn
  rw [hterm, hv.term, Int.toNat_natCast, hvote, hv.vote, voteOf_voteCode]
  refine Ballot.observe_self _ _ _ _ (Or.inr rfl) ?_
  unfold ledLog
  split_ifs with hs
  · obtain ⟨h1, h2⟩ := hlead hs
    obtain ⟨h3, h4⟩ := hv.lead h1
    exact Or.inr ⟨h3, by rw [h2, h4]⟩
  · exact Or.inl rfl

/-- A step that shows the ledger nothing new. -/
theorem written_same (h : Recorded p i n)
    (hterm : n'.rf.currentTerm = n.rf.currentTerm) (hvote : n'.rf.votedFor = n.rf.votedFor)
    (hlogs : n'.rf.logs = n.rf.logs) (hlead : n'.rf.status = .Leader → n.rf.status = .Leader)
    (hel : ∀ e, n'.election = some e → ∃ e', n.election = some e' ∧ e.args = e'.args)
    (hout : ∀ q ∈ out, LogPacket p q) : Written p p i n' out where
  ballot := (h.voted.seenIn_same hterm hvote fun h => ⟨hlead h, hlogs⟩).symm
  le := Ledger.Le.refl p
  sound := h.sound
  numbered := h.numbered
  log_ne _ _ := rfl
  ballotLog _ _ _ := rfl
  certified _ hc := hc
  node := by
    refine ⟨hlogs.trans h.logged.log, fun e he => ?_⟩
    obtain ⟨e', he', hargs⟩ := hel e he
    obtain ⟨h1, h2⟩ := h.logged.running e' he'
    rw [← hargs] at h1 h2
    exact ⟨h1, h2⟩
  out := hout

/-- The ledger after node `i` is seen in a new term or with a new vote; `bl` has the log it
    stands with. -/
def observed (p : Ledger (Fin N) LogEntry) (i : Fin N) (rf : Raft N)
    (bl : Fin N → ℕ → List LogEntry) : Ledger (Fin N) LogEntry :=
  { p with toBallot := rf.seenIn p.toBallot i, ballotLog := bl }

theorem observed_lead {rf : Raft N} (hlead : rf.status ≠ .Leader)
    (bl : Fin N → ℕ → List LogEntry) : (observed p i rf bl).lead = p.lead := by
  funext u
  show (p.toBallot.observe i _ _ rf.ledLog).lead u = p.lead u
  have hled : rf.ledLog = none := by simp [ledLog, hlead]
  rw [hled]
  by_cases hu : u = rf.currentTerm.toNat
  · subst hu; exact Ballot.observe_lead_self _ _ _ _ _
  · exact Ballot.observe_lead_ne _ _ _ _ _ hu

/-- A node that does not lead, in a new term or with a new vote. -/
theorem written_observe (bl : Fin N → ℕ → List LogEntry) (h : Recorded p i n)
    (hlaw : n'.rf.Lawful p.toBallot i) (hlead : n'.rf.status ≠ .Leader)
    (hlogs : n'.rf.logs = n.rf.logs)
    (hbl : ∀ j t, j ≠ i ∨ t ≤ p.term i → bl j t = p.ballotLog j t)
    (hblf : ∀ j t, Follows p.lead (bl j t))
    (hvote : ∀ x, voteOf n'.rf.votedFor = some x →
      p.vote i n'.rf.currentTerm.toNat = some x ∨ UpToDate (bl x n'.rf.currentTerm.toNat) (p.log i))
    (hel : ∀ e, n'.election = some e → Running (observed p i n'.rf bl) i e)
    (hout : ∀ q ∈ out, LogPacket (observed p i n'.rf bl) q) :
    Written p (observed p i n'.rf bl) i n' out := by
  have hled : n'.rf.ledLog = none := by simp [ledLog, hlead]
  have hlegal : p.toBallot.Legal i n'.rf.currentTerm.toNat (voteOf n'.rf.votedFor) none :=
    hled ▸ hlaw
  have hseen : n'.rf.seenIn p.toBallot i =
      p.toBallot.observe i n'.rf.currentTerm.toNat (voteOf n'.rf.votedFor) none := by
    unfold seenIn
    rw [hled]
  refine ⟨rfl, ⟨Ballot.Legal.le hlaw, fun _ _ => le_rfl⟩, ?_, ?_, fun _ _ => rfl, hbl,
    fun k hc => hc.of_le (Ballot.Legal.term_mono hlaw i) le_rfl, ⟨hlogs.trans h.logged.log, hel⟩, hout⟩
  · unfold observed
    rw [hseen]
    refine h.sound.observe hlegal bl hblf ?_ ?_
    · -- votes on record were cast for the logs on record
      intro j u x hx
      by_cases hxi : x = i
      · exact hbl x u (Or.inr (hxi ▸ h.sound.ballot.candidate_le hx))
      · exact hbl x u (Or.inl hxi)
    · intro x hx
      refine (hvote x hx).imp id fun hup u c hu hc htip => ?_
      exact h.sound.carried_of_upToDate (hblf _ _) hup hc htip
  · rw [observed_lead hlead]
    exact h.numbered

/-- A node sees a greater term; it does not lead and has not voted. -/
theorem written_raise (h : Recorded p i n) (hlaw : n'.rf.Lawful p.toBallot i)
    (hlead : n'.rf.status ≠ .Leader) (hterm : n.rf.currentTerm < n'.rf.currentTerm)
    (hvoted : n'.rf.votedFor = -1) (hlogs : n'.rf.logs = n.rf.logs)
    (hel : ∀ e, n'.election = some e → ∃ e', n.election = some e' ∧ e.args = e'.args)
    (hout : ∀ q ∈ out, LogPacket (observed p i n'.rf p.ballotLog) q) :
    Written p (observed p i n'.rf p.ballotLog) i n' out := by
  refine written_observe p.ballotLog h hlaw hlead hlogs (fun _ _ _ => rfl)
    h.sound.ballotLog_follows ?_ ?_ hout
  · intro x hx
    rw [hvoted, voteOf_none] at hx
    cases hx
  · intro e he
    obtain ⟨e', he', hargs⟩ := hel e he
    have hterm' : (observed p i n'.rf p.ballotLog).term i = n'.rf.currentTerm.toNat :=
      Ballot.observe_term_self _ _ _ _ _
    refine ⟨?_, fun _ ht => ?_⟩
    · rw [hargs]; exact (h.logged.running e' he').stood.congr rfl
    · -- the election was for a term the node has left
      rw [hargs, hterm'] at ht
      have h1 := (h.counted e' he').term_le
      have h2 := (h.counted e' he').nonneg
      have h3 := h.voted.term
      omega

/-! ## Leading -/

/-- The ledger after node `i` is seen leading. -/
def leading (p : Ledger (Fin N) LogEntry) (i : Fin N) (rf : Raft N) : Ledger (Fin N) LogEntry :=
  p.ledBy i (voteOf rf.votedFor) rf.logs

theorem leading_toBallot {rf : Raft N} (hterm : rf.currentTerm = p.term i)
    (hlead : rf.status = .Leader) : (leading p i rf).toBallot = rf.seenIn p.toBallot i := by
  unfold leading Ledger.ledBy seenIn ledLog
  rw [if_pos hlead, hterm, Int.toNat_natCast]

/-- A node that leads, given that its leading is sound. -/
theorem written_leading (h : Recorded p i n) (hterm : n'.rf.currentTerm = n.rf.currentTerm)
    (hlead : n'.rf.status = .Leader) (hsound : (leading p i n'.rf).Sound)
    (hle : p.Le (leading p i n'.rf)) (hpre : p.log i <+: n'.rf.logs) (hnumbered : Numbered n'.rf.logs)
    (hel : ∀ e, n'.election = some e → ∃ e', n.election = some e' ∧ e.args = e'.args)
    (hout : ∀ q ∈ out, LogPacket (leading p i n'.rf) q) :
    Written p (leading p i n'.rf) i n' out := by
  have hterm' : n'.rf.currentTerm = p.term i := hterm.trans h.voted.term
  refine ⟨leading_toBallot hterm' hlead, hle, hsound, fun t => ?_, ?_, fun _ _ _ => rfl,
    fun k hc => ?_, ?_, hout⟩
  · by_cases ht : t = p.term i
    · subst ht
      rw [leading, Ledger.ledBy_lead_self]
      exact hnumbered
    · rw [leading, Ledger.ledBy_lead_ne ht]
      exact h.numbered t
  · exact fun j hj => Ledger.ledBy_log_ne hj
  · rw [leading, Ledger.ledBy_log_self, Ledger.ledBy_term]
    exact hc.of_isPrefix ((List.take_prefix _ _).trans hpre)
  · refine ⟨Ledger.ledBy_log_self.symm, fun e he => ⟨?_, fun hnone ht => ?_⟩⟩
    · obtain ⟨e', he', hargs⟩ := hel e he
      rw [hargs]
      exact (h.logged.running e' he').stood.congr rfl
    · -- the term has a leader: this node
      rw [leading, Ledger.ledBy_term] at ht
      rw [ht, leading, Ledger.ledBy_leader_self] at hnone
      cases hnone

theorem lawful_leading (hv : Voted p.toBallot i n.rf)
    (hterm : n'.rf.currentTerm = n.rf.currentTerm) (hlead : n'.rf.status = .Leader)
    (hlaw : n'.rf.Lawful p.toBallot i) :
    p.toBallot.Legal i (p.term i) (voteOf n'.rf.votedFor) (some n'.rf.logs) := by
  unfold Lawful ledLog at hlaw
  rwa [if_pos hlead, hterm, hv.term, Int.toNat_natCast] at hlaw

theorem voteOf_same (hv : Voted p.toBallot i n.rf) (hvote : n'.rf.votedFor = n.rf.votedFor) :
    p.vote i (p.term i) = voteOf n'.rf.votedFor := by
  rw [hvote, hv.vote, voteOf_voteCode]

/-- A leader appends to its log. -/
theorem written_lead (h : Recorded p i n) (hlaw : n'.rf.Lawful p.toBallot i)
    (hlead : n.rf.status = .Leader) (hlead' : n'.rf.status = .Leader)
    (hterm : n'.rf.currentTerm = n.rf.currentTerm) (hvote : n'.rf.votedFor = n.rf.votedFor)
    (hext : Extends (p.term i) n.rf.logs n'.rf.logs) (hnumbered : Numbered n'.rf.logs)
    (hel : ∀ e, n'.election = some e → ∃ e', n.election = some e' ∧ e.args = e'.args)
    (hout : ∀ q ∈ out, LogPacket (leading p i n'.rf) q) :
    Written p (leading p i n'.rf) i n' out := by
  obtain ⟨h1, h2⟩ := h.voted.lead hlead
  have hlegal := lawful_leading h.voted hterm hlead' hlaw
  have hlog : p.log i = p.lead (p.term i) := by rw [h2, h.logged.log]
  rw [← h2] at hext
  refine written_leading h hterm hlead' ?_ ?_ (hlog ▸ hext.isPrefix) hnumbered hel hout
  · exact h.sound.extend hlegal h1 (Or.inr (voteOf_same h.voted hvote)) hlog hext
  · exact h.sound.le_ledBy hlegal hext.isPrefix.length_le

/-- A candidate wins with the log it stood with. -/
theorem written_win (h : Recorded p i n) (hlaw : n'.rf.Lawful p.toBallot i)
    (hlead' : n'.rf.status = .Leader) (hnone : p.leader (p.term i) = none)
    (hterm : n'.rf.currentTerm = n.rf.currentTerm) (hvote : n'.rf.votedFor = n.rf.votedFor)
    (hlogs : n'.rf.logs = n.rf.logs) (hstood : p.log i = p.ballotLog i (p.term i))
    (hel : ∀ e, n'.election = some e → ∃ e', n.election = some e' ∧ e.args = e'.args)
    (hout : ∀ q ∈ out, LogPacket (leading p i n'.rf) q) :
    Written p (leading p i n'.rf) i n' out := by
  have hlegal := lawful_leading h.voted hterm hlead' hlaw
  have hlog : n'.rf.logs = p.log i := hlogs.trans h.logged.log
  refine written_leading h hterm hlead' ?_ ?_ (hlog ▸ List.prefix_rfl) ?_ hel hout
  · unfold leading
    rw [hlog] at hlegal ⊢
    exact h.sound.elect hlegal hnone (Or.inr (voteOf_same h.voted hvote)) hstood
  · refine h.sound.le_ledBy hlegal ?_
    rw [h.sound.ballot.lead_nil hnone]
    exact Nat.zero_le _
  · rw [hlog]
    exact numbered_of_follows h.numbered (h.sound.log_follows i)

/-! ## Copying -/

/-- The ledger after node `i` has copied the first `k` entries of the leader of its term. -/
def copying (p : Ledger (Fin N) LogEntry) (i : Fin N) (rf : Raft N) (k : ℕ) :
    Ledger (Fin N) LogEntry :=
  p.copiedBy i (voteOf rf.votedFor) rf.logs rf.currentTerm.toNat k

theorem written_copy (h : Recorded p i n) (hlaw : n'.rf.Lawful p.toBallot i)
    (hlead' : n'.rf.status ≠ .Leader) (hle : n.rf.currentTerm ≤ n'.rf.currentTerm)
    (hvote : n'.rf.votedFor = (n.rf.seeTerm n'.rf.currentTerm).votedFor)
    (hleader : p.leader n'.rf.currentTerm.toNat ≠ none) {k : ℕ}
    (hk : k ≤ (p.lead n'.rf.currentTerm.toNat).length)
    (hcopy : Ledger.Copies ((p.lead n'.rf.currentTerm.toNat).take k) n.rf.logs n'.rf.logs)
    (hel : n'.election = n.election)
    (hout : ∀ q ∈ out, LogPacket (copying p i n'.rf k) q) :
    Written p (copying p i n'.rf k) i n' out := by
  have hled : n'.rf.ledLog = none := by simp [ledLog, hlead']
  have hlegal : p.toBallot.Legal i n'.rf.currentTerm.toNat (voteOf n'.rf.votedFor) none :=
    hled ▸ hlaw
  have hv' : voteOf n'.rf.votedFor = (none : Option (Fin N)) ∨
      p.vote i n'.rf.currentTerm.toNat = voteOf n'.rf.votedFor := by
    rcases seeTerm_cases hle with ⟨h1, h2⟩ | ⟨_, h2⟩
    · right
      rw [h1, h.voted.term, Int.toNat_natCast]
      exact voteOf_same h.voted (hvote.trans (by rw [h2]))
    · left
      rw [hvote, h2]
      exact voteOf_none
  rw [h.logged.log] at hcopy
  refine ⟨?_, Ledger.le_copiedBy hlegal, h.sound.copy hlegal hv' hk hcopy, ?_,
    fun j hj => Ledger.copiedBy_log_ne hj, fun _ _ _ => rfl, fun m hc => ?_, ?_, hout⟩
  · unfold copying Ledger.copiedBy seenIn
    rw [hled]
  · rw [copying, Ledger.copiedBy_lead]
    exact h.numbered
  · have hterm' : (copying p i n'.rf k).term i = n'.rf.currentTerm.toNat :=
      Ballot.observe_term_self _ _ _ _ _
    rw [hterm', copying, Ledger.copiedBy_log_self]
    exact (hc.of_le hlegal.term_le le_rfl).copy h.sound (List.take_prefix _ _) hcopy
  · refine ⟨Ledger.copiedBy_log_self.symm, fun e he => ⟨?_, fun hnone ht => ?_⟩⟩
    · exact (h.logged.running e (hel ▸ he)).stood.congr rfl
    · -- a candidate of this term that copies from its leader has lost
      have hterm' : (copying p i n'.rf k).term i = n'.rf.currentTerm.toNat :=
        Ballot.observe_term_self _ _ _ _ _
      rw [copying, Ledger.copiedBy_leader] at hnone
      rw [ht, hterm'] at hnone
      exact absurd hnone hleader

end MyKvRaft
