import MyKvRaft.Consensus.TermLog

/-!
# Replicating the log of a leader

The protocol in the abstract: nodes raise their term, stand for election, grant
votes, lead, append to their log and copy the log of a leader. A `Ledger` is the
ballot together with the logs, the log each candidate stood with, and how far each
node has been seen to agree with the leader of each term (`ack`).

An entry of term `t` at position `c` of the log of the leader of `t` is `Chosen` once
a majority agrees with that log up to `c`, and it is `Refuted` once a majority has
left `t` without having agreed so far. The two exclude each other
(`Chosen.not_refuted`), and the invariant `Sound` says that whatever is not refuted is
kept: by the nodes that agreed (`kept`), by the candidates they vote for (`voted`) and
by the leaders of later terms (`complete`).

Every move keeps `Sound`: `Sound.observe` (raising the term, standing, voting),
`Sound.elect`, `Sound.extend` and `Sound.copy`. A prefix that was chosen is
`Certified`; nodes keep it (`Certified.copy`), and all of them agree on it
(`Certified.agree`).
-/

namespace Consensus

variable {ν ε : Type*}

/-- A ballot with the logs. -/
structure Ledger (ν ε : Type*) extends Ballot ν ε where
  log : ν → List ε
  ballotLog : ν → ℕ → List ε
  ack : ν → ℕ → ℕ

namespace Ledger

def empty : Ledger ν ε := ⟨Ballot.empty, fun _ => [], fun _ _ => [], fun _ _ => 0⟩

/-! ## Moves that change a log -/

section Moves

variable [DecidableEq ν] (p : Ledger ν ε) (i : ν) (v : Option ν) (l : List ε)

/-- Node `i`, seen leading its term with log `l`. -/
def ledBy : Ledger ν ε where
  toBallot := p.toBallot.observe i (p.term i) v (some l)
  log := Function.update p.log i l
  ballotLog := p.ballotLog
  ack n u := if n = i ∧ u = p.term i then l.length else p.ack n u

/-- Node `i`, seen in term `t` with log `l` that agrees with the leader of `t` up to `k`. -/
def copiedBy (t k : ℕ) : Ledger ν ε where
  toBallot := p.toBallot.observe i t v none
  log := Function.update p.log i l
  ballotLog := p.ballotLog
  ack n u := if n = i ∧ u = t then max (p.ack n u) k else p.ack n u

variable {p i v l}

theorem ledBy_lead_self : (p.ledBy i v l).lead (p.term i) = l := by
  simp [ledBy, Ballot.observe_lead_self]

theorem ledBy_lead_ne {u : ℕ} (h : u ≠ p.term i) : (p.ledBy i v l).lead u = p.lead u := by
  simp [ledBy, Ballot.observe_lead_ne _ _ _ _ _ h]

theorem ledBy_term (n : ν) : (p.ledBy i v l).term n = p.term n := by
  by_cases hn : n = i
  · subst hn; exact Ballot.observe_term_self _ _ _ _ _
  · exact Ballot.observe_term_ne _ _ _ _ _ hn

theorem ledBy_leader_self : (p.ledBy i v l).leader (p.term i) = some i := by
  simp [ledBy, Ballot.observe_leader_self]

theorem ledBy_leader_ne {u : ℕ} (h : u ≠ p.term i) : (p.ledBy i v l).leader u = p.leader u := by
  simp [ledBy, Ballot.observe_leader_ne _ _ _ _ _ h]

theorem ledBy_ack_self : (p.ledBy i v l).ack i (p.term i) = l.length := by simp [ledBy]

theorem ledBy_ack_ne {n : ν} {u : ℕ} (h : ¬ (n = i ∧ u = p.term i)) :
    (p.ledBy i v l).ack n u = p.ack n u := by
  simp only [ledBy, if_neg h]

/-- What a node agreed on in a term it has left is not touched. -/
theorem ledBy_ack_of_lt {n : ν} {u : ℕ} (h : u < p.term n) :
    (p.ledBy i v l).ack n u = p.ack n u := by
  apply ledBy_ack_ne
  rintro ⟨rfl, rfl⟩
  omega

theorem ledBy_log_self : (p.ledBy i v l).log i = l := by simp [ledBy]

theorem ledBy_log_ne {n : ν} (h : n ≠ i) : (p.ledBy i v l).log n = p.log n := by simp [ledBy, h]

/-- What holds of the new log and of all old ones holds of all logs. -/
theorem log_ledBy {Q : ν → List ε → Prop} (hl : Q i l) (hlog : ∀ n, Q n (p.log n)) (n : ν) :
    Q n ((p.ledBy i v l).log n) := by
  by_cases hn : n = i
  · subst hn
    rw [ledBy_log_self]
    exact hl
  · rw [ledBy_log_ne hn]
    exact hlog n

theorem lead_ledBy {Q : ℕ → List ε → Prop} (hl : Q (p.term i) l) (hlead : ∀ u, Q u (p.lead u))
    (u : ℕ) : Q u ((p.ledBy i v l).lead u) := by
  by_cases hu : u = p.term i
  · subst hu
    rw [ledBy_lead_self]
    exact hl
  · rw [ledBy_lead_ne hu]
    exact hlead u

theorem isPrefix_ledBy (hpre : p.lead (p.term i) <+: l) (u : ℕ) :
    p.lead u <+: (p.ledBy i v l).lead u :=
  lead_ledBy (Q := fun u k => p.lead u <+: k) hpre (fun _ => List.prefix_rfl) u

variable {t k : ℕ}

theorem copiedBy_lead : (p.copiedBy i v l t k).lead = p.lead := by
  funext u
  by_cases hu : u = t
  · subst hu; exact Ballot.observe_lead_self _ _ _ _ _
  · exact Ballot.observe_lead_ne _ _ _ _ _ hu

theorem copiedBy_leader : (p.copiedBy i v l t k).leader = p.leader := by
  funext u
  by_cases hu : u = t
  · subst hu; exact Ballot.observe_leader_self _ _ _ _ _
  · exact Ballot.observe_leader_ne _ _ _ _ _ hu

theorem copiedBy_ack_self : (p.copiedBy i v l t k).ack i t = max (p.ack i t) k := by
  simp [copiedBy]

theorem copiedBy_ack_ne {n : ν} {u : ℕ} (h : ¬ (n = i ∧ u = t)) :
    (p.copiedBy i v l t k).ack n u = p.ack n u := by
  simp only [copiedBy, if_neg h]

theorem copiedBy_log_self : (p.copiedBy i v l t k).log i = l := by simp [copiedBy]

theorem copiedBy_log_ne {n : ν} (h : n ≠ i) : (p.copiedBy i v l t k).log n = p.log n := by
  simp [copiedBy, h]

theorem log_copiedBy {Q : ν → List ε → Prop} (hl : Q i l) (hlog : ∀ n, Q n (p.log n)) (n : ν) :
    Q n ((p.copiedBy i v l t k).log n) := by
  by_cases hn : n = i
  · subst hn
    rw [copiedBy_log_self]
    exact hl
  · rw [copiedBy_log_ne hn]
    exact hlog n

end Moves

/-! ## The invariant -/

section Order

variable [Termed ε]

/-- `p'` has everything on record that `p` has. -/
structure Le (p p' : Ledger ν ε) : Prop where
  ballot : p.toBallot.Le p'.toBallot
  ack : ∀ n t, p.ack n t ≤ p'.ack n t

theorem Le.refl (p : Ledger ν ε) : Le p p := ⟨Ballot.Le.refl _, fun _ _ => le_rfl⟩

theorem Le.trans {p₁ p₂ p₃ : Ledger ν ε} (h : Le p₁ p₂) (h' : Le p₂ p₃) : Le p₁ p₃ :=
  ⟨h.ballot.trans h'.ballot, fun n t => (h.ack n t).trans (h'.ack n t)⟩

end Order

variable [Fintype ν]


/-- A majority has left term `t` without agreeing with its leader up to `c`. -/
def Refuted (p : Ledger ν ε) (t c : ℕ) : Prop :=
  ∃ Q : Finset ν, Majority Q ∧ ∀ n ∈ Q, t < p.term n ∧ p.ack n t < c

/-- What a node has agreed on in a term it has left does not change any more. -/
theorem Refuted.mono {p p' : Ledger ν ε} {t c : ℕ} (h : Refuted p t c)
    (hterm : ∀ n, p.term n ≤ p'.term n)
    (hack : ∀ n, t < p.term n → p'.ack n t = p.ack n t) : Refuted p' t c := by
  obtain ⟨Q, hQ, hn⟩ := h
  refine ⟨Q, hQ, fun n hnQ => ⟨(hn n hnQ).1.trans_le (hterm n), ?_⟩⟩
  rw [hack n (hn n hnQ).1]
  exact (hn n hnQ).2

variable [Termed ε]

/-- A majority agrees with the leader of `t` up to its own entry at `c`. -/
def Chosen (p : Ledger ν ε) (t c : ℕ) : Prop :=
  Tip (p.lead t) t c ∧ ∃ Q : Finset ν, Majority Q ∧ ∀ n ∈ Q, c ≤ p.ack n t

/-- The invariant. -/
structure Sound (p : Ledger ν ε) : Prop where
  ballot : p.toBallot.Valid
  log_follows : ∀ n, Follows p.lead (p.log n)
  lead_follows : ∀ t, Follows p.lead (p.lead t)
  ballotLog_follows : ∀ n t, Follows p.lead (p.ballotLog n t)
  log_term : ∀ n e, e ∈ p.log n → termOf e ≤ p.term n
  lead_term : ∀ t e, e ∈ p.lead t → termOf e ≤ t
  ack_le : ∀ n t, p.ack n t ≤ (p.lead t).length
  ack_term : ∀ n t, 0 < p.ack n t → t ≤ p.term n
  leader_ack : ∀ {t x}, p.leader t = some x → p.ack x t = (p.lead t).length
  kept : ∀ n t c, c ≤ p.ack n t → Tip (p.lead t) t c →
    (p.lead t).take c <+: p.log n ∨ p.Refuted t c
  complete : ∀ t u c, t < u → p.leader u ≠ none → Tip (p.lead t) t c →
    (p.lead t).take c <+: p.lead u ∨ p.Refuted t c
  voted : ∀ n u x, p.vote n u = some x → ∀ t c, t < u → c ≤ p.ack n t → Tip (p.lead t) t c →
    (p.lead t).take c <+: p.ballotLog x u ∨ p.Refuted t c

theorem sound_empty : Sound (empty : Ledger ν ε) where
  ballot := Ballot.valid_empty
  log_follows _ := follows_nil
  lead_follows _ := follows_nil
  ballotLog_follows _ _ := follows_nil
  log_term _ e he := by simp [empty] at he
  lead_term _ e he := by simp [empty, Ballot.empty] at he
  ack_le _ _ := Nat.zero_le _
  ack_term _ _ h := by simp [empty] at h
  leader_ack h := by simp [empty, Ballot.empty] at h
  kept _ _ c hc ht := absurd ht.pos (by simp [empty] at hc; omega)
  complete _ _ _ _ h := by simp [empty, Ballot.empty] at h
  voted _ _ _ h := by simp [empty, Ballot.empty] at h

section Consequences

variable {p : Ledger ν ε}

/-- A term whose leader has an entry has been won. -/
theorem Sound.leader_ne_none (hs : Sound p) {t : ℕ} (h : p.lead t ≠ []) : p.leader t ≠ none :=
  fun h0 => h (hs.ballot.lead_nil h0)

/-- Nothing is of a term that nobody has won. -/
theorem Sound.term_ne (hs : Sound p) {t : ℕ} (h : p.leader t = none) {l : List ε}
    (hl : Follows p.lead l) {e : ε} (he : e ∈ l) : termOf e ≠ t := by
  rintro rfl
  have := hl.mem_lead he
  rw [hs.ballot.lead_nil h] at this
  simp at this

theorem Sound.lead_prefix_of_le {p' : Ledger ν ε} (hs : Sound p) (h : Le p p') (t : ℕ) :
    p.lead t <+: p'.lead t := by
  cases hl : p.leader t with
  | none => rw [hs.ballot.lead_nil hl]; exact List.nil_prefix
  | some x => exact (h.ballot.lead hl).isPrefix

theorem Chosen.of_isPrefix {p' : Ledger ν ε} (h : Le p p') {t c : ℕ} (hc : p.Chosen t c)
    (hlead : p.lead t <+: p'.lead t) : p'.Chosen t c := by
  obtain ⟨htip, Q, hQ, ha⟩ := hc
  exact ⟨htip.mono hlead, Q, hQ, fun n hn => (ha n hn).trans (h.ack n t)⟩

theorem Chosen.mono {p' : Ledger ν ε} (hs : Sound p) (h : Le p p') {t c : ℕ} (hc : p.Chosen t c) :
    p'.Chosen t c := hc.of_isPrefix h (hs.lead_prefix_of_le h t)

/-- What a voter agreed on is in every log that is at least as up to date as its own. -/
theorem Sound.carried_of_upToDate (hs : Sound p) {i : ν} {l : List ε} (hl : Follows p.lead l)
    (hup : UpToDate l (p.log i)) {u c : ℕ} (hc : c ≤ p.ack i u) (ht : Tip (p.lead u) u c) :
    (p.lead u).take c <+: l ∨ p.Refuted u c := by
  by_cases href : p.Refuted u c
  · exact Or.inr href
  · left
    refine upToDate_carries hl (hs.log_follows i) hs.lead_term hup ht ?_ ?_
    · exact (hs.kept i u c hc ht).resolve_right href
    · intro w huw hw
      exact (hs.complete u w c huw (hs.leader_ne_none hw) ht).resolve_right href

variable [DecidableEq ν]

theorem Chosen.not_refuted {t c : ℕ} (h : p.Chosen t c) : ¬ p.Refuted t c := by
  rintro ⟨Q, hQ, hr⟩
  obtain ⟨_, Q', hQ', ha⟩ := h
  obtain ⟨n, hn, hn'⟩ := hQ.inter hQ'
  have h1 := hr n hn
  have h2 := ha n hn'
  omega

/-- Leader completeness: what is chosen in `t` is in the log of every later leader. -/
theorem Chosen.in_lead (hs : Sound p) {t u c : ℕ} (hc : p.Chosen t c) (htu : t ≤ u)
    (hu : p.leader u ≠ none) : (p.lead t).take c <+: p.lead u := by
  rcases Nat.eq_or_lt_of_le htu with rfl | hlt
  · exact List.take_prefix _ _
  · exact (hs.complete t u c hlt hu hc.1).resolve_right hc.not_refuted

/-- The same of the log the later leader had at any time of its term: what it appends is of its
    own term, and so not chosen in `t`. -/
theorem Chosen.in_early_lead (hs : Sound p) {t u c : ℕ} (hc : p.Chosen t c) (htu : t < u)
    (hu : p.leader u ≠ none) {l : List ε} (hl : Extends u l (p.lead u)) :
    (p.lead t).take c <+: l := by
  have hin := hc.in_lead hs htu.le hu
  obtain ⟨ext, heq, hext⟩ := hl
  rw [heq] at hin
  have hlen : ((p.lead t).take c).length ≤ l.length := by
    by_contra hlong
    -- the first entry appended would be of term `t` at most
    have hk : l.length < ((p.lead t).take c).length := by omega
    have hmem := List.getElem_mem hk
    have hget := getElem?_of_isPrefix hin (List.getElem?_eq_getElem hk)
    rw [List.getElem?_append_right le_rfl] at hget
    have h1 := hext _ (List.mem_of_getElem? hget)
    have h2 := hs.lead_term t _ (List.mem_of_mem_take hmem)
    omega
  exact List.prefix_of_prefix_length_le hin (List.prefix_append l ext) hlen

/-- Whoever agreed up to `c` still holds what was chosen there. -/
theorem Chosen.in_log (hs : Sound p) {t c : ℕ} (hc : p.Chosen t c) {n : ν} (hn : c ≤ p.ack n t) :
    (p.lead t).take c <+: p.log n :=
  (hs.kept n t c hn hc.1).resolve_right hc.not_refuted

/-- Any two chosen prefixes agree as far as both go. -/
theorem Chosen.agree (hs : Sound p) {t u c d k : ℕ} (hc : p.Chosen t c) (hd : p.Chosen u d)
    (hkc : k ≤ c) (hkd : k ≤ d) : (p.lead t).take k = (p.lead u).take k := by
  -- by symmetry, let `t` be the earlier term
  suffices h : ∀ {t u c d : ℕ}, p.Chosen t c → p.Chosen u d → k ≤ c → k ≤ d → t ≤ u →
      (p.lead t).take k = (p.lead u).take k by
    rcases Nat.le_total t u with h' | h'
    · exact h hc hd hkc hkd h'
    · exact (h hd hc hkd hkc h').symm
  intro t u c d hc hd hkc hkd htu
  have hu : p.leader u ≠ none := by
    apply hs.leader_ne_none
    intro h0
    have hlen := hd.1.le_length
    have hpos := hd.1.pos
    rw [h0, List.length_nil] at hlen
    omega
  have hlen : k ≤ ((p.lead t).take c).length := by
    rw [List.length_take]
    have := hc.1.le_length
    omega
  have := take_of_isPrefix (hc.in_lead hs htu hu) hlen
  rw [this, List.take_take, Nat.min_eq_left hkc]

end Consequences

/-! ## Raising the term, standing, voting -/

variable [DecidableEq ν] {p : Ledger ν ε}

/-- A node is seen in a new term or with a new vote, and does not lead. If it has stood for
    election, its log goes on record in `bl`. -/
theorem Sound.observe (hs : Sound p) {i : ν} {t : ℕ} {v : Option ν}
    (hl : p.toBallot.Legal i t v none) (bl : ν → ℕ → List ε)
    (hbl : ∀ n u, Follows p.lead (bl n u))
    (hkeep : ∀ n u x, p.vote n u = some x → bl x u = p.ballotLog x u)
    (hvote : ∀ x, v = some x → p.vote i t = some x ∨
      ∀ u c, u < t → c ≤ p.ack i u → Tip (p.lead u) u c →
        (p.lead u).take c <+: bl x t ∨ p.Refuted u c) :
    Sound { p with toBallot := p.toBallot.observe i t v none, ballotLog := bl } := by
  have hlead : (p.toBallot.observe i t v none).lead = p.lead := by
    funext u
    by_cases hu : u = t
    · subst hu; rw [Ballot.observe_lead_self]; rfl
    · rw [Ballot.observe_lead_ne _ _ _ _ _ hu]
  have hleader : (p.toBallot.observe i t v none).leader = p.leader := by
    funext u
    by_cases hu : u = t
    · subst hu; rw [Ballot.observe_leader_self]; rfl
    · rw [Ballot.observe_leader_ne _ _ _ _ _ hu]
  have href : ∀ {u c}, p.Refuted u c →
      Refuted { p with toBallot := p.toBallot.observe i t v none, ballotLog := bl } u c :=
    fun h => h.mono hl.term_mono fun _ _ => rfl
  constructor
  case ballot => exact hs.ballot.observe hl
  case log_follows => simpa only [hlead] using hs.log_follows
  case lead_follows => simpa only [hlead] using hs.lead_follows
  case ballotLog_follows => simpa only [hlead] using hbl
  case log_term => exact fun n e he => (hs.log_term n e he).trans (hl.term_mono n)
  case lead_term => simpa only [hlead] using hs.lead_term
  case ack_le => simpa only [hlead] using hs.ack_le
  case ack_term => exact fun n u hu => (hs.ack_term n u hu).trans (hl.term_mono n)
  case leader_ack =>
    intro u x hx
    simp only [hleader, hlead] at hx ⊢
    exact hs.leader_ack hx
  case kept =>
    intro n u c hc ht
    simp only [hlead] at ht ⊢
    exact (hs.kept n u c hc ht).imp id href
  case complete =>
    intro u w c huw hw ht
    simp only [hlead, hleader] at hw ht ⊢
    exact (hs.complete u w c huw hw ht).imp id href
  case voted =>
    intro n w x hx u c huw hc ht
    simp only [hlead] at ht ⊢
    rcases Ballot.vote_observe hx with hx | ⟨rfl, rfl, hv⟩
    · rw [hkeep n w x hx]
      exact (hs.voted n w x hx u c huw hc ht).imp id href
    · rcases hvote x hv with hx | hnew
      · rw [hkeep n w x hx]
        exact (hs.voted n w x hx u c huw hc ht).imp id href
      · exact (hnew u c huw hc ht).imp id href

/-! ## Leading -/

section Lead

variable {i : ν} {v : Option ν} {l : List ε}

theorem Refuted.ledBy (hl : p.toBallot.Legal i (p.term i) v (some l)) {u c : ℕ}
    (h : p.Refuted u c) : (p.ledBy i v l).Refuted u c :=
  h.mono hl.term_mono fun _ hn => ledBy_ack_of_lt hn

theorem Sound.ack_le_ledBy (hs : Sound p) (hpre : p.lead (p.term i) <+: l) (n : ν) (u : ℕ) :
    (p.ledBy i v l).ack n u ≤ ((p.ledBy i v l).lead u).length := by
  by_cases hnu : n = i ∧ u = p.term i
  · obtain ⟨rfl, rfl⟩ := hnu
    rw [ledBy_ack_self, ledBy_lead_self]
  · rw [ledBy_ack_ne hnu]
    exact (hs.ack_le n u).trans (isPrefix_ledBy hpre u).length_le

theorem Sound.ack_term_ledBy (hs : Sound p) (n : ν) (u : ℕ) (h : 0 < (p.ledBy i v l).ack n u) :
    u ≤ (p.ledBy i v l).term n := by
  rw [ledBy_term]
  by_cases hnu : n = i ∧ u = p.term i
  · obtain ⟨rfl, rfl⟩ := hnu
    exact le_rfl
  · rw [ledBy_ack_ne hnu] at h
    exact hs.ack_term n u h

theorem Sound.leader_ack_ledBy (hs : Sound p) {u : ℕ} {x : ν}
    (hx : (p.ledBy i v l).leader u = some x) :
    (p.ledBy i v l).ack x u = ((p.ledBy i v l).lead u).length := by
  by_cases hu : u = p.term i
  · subst hu
    rw [ledBy_leader_self] at hx
    cases hx
    rw [ledBy_ack_self, ledBy_lead_self]
  · rw [ledBy_leader_ne hu] at hx
    rw [ledBy_ack_ne (fun h => hu h.2), ledBy_lead_ne hu]
    exact hs.leader_ack hx

/-- Nothing is of a new term yet. -/
theorem Sound.tip_elected (hs : Sound p) (hnone : p.leader (p.term i) = none) {u c : ℕ}
    (h : Tip ((p.ledBy i v (p.log i)).lead u) u c) : u ≠ p.term i ∧ Tip (p.lead u) u c := by
  by_cases hu : u = p.term i
  · subst hu
    rw [ledBy_lead_self] at h
    obtain ⟨k, e, _, hk, hte⟩ := h
    exact absurd hte (hs.term_ne hnone (hs.log_follows i) (List.mem_of_getElem? hk))
  · rw [ledBy_lead_ne hu] at h
    exact ⟨hu, h⟩

omit [DecidableEq ν] in
/-- One of the voters of a new leader agreed up to `c`, or all of them refute it. -/
theorem Sound.elected_carries (hs : Sound p) {Q : Finset ν} (hQ : Majority Q) {t : ℕ}
    (hvotes : ∀ n ∈ Q, p.vote n t = some i) {u c : ℕ} (hut : u < t) (hti : Tip (p.lead u) u c) :
    (p.lead u).take c <+: p.ballotLog i t ∨ p.Refuted u c := by
  by_cases hsome : ∃ n ∈ Q, c ≤ p.ack n u
  · obtain ⟨n, hn, hcn⟩ := hsome
    exact hs.voted n t i (hvotes n hn) u c hut hcn hti
  · push Not at hsome
    exact Or.inr ⟨Q, hQ, fun n hn => ⟨hut.trans_le (hs.ballot.vote_le (hvotes n hn)), hsome n hn⟩⟩

omit [Fintype ν] in
/-- An entry of its own term in the log of a leader is an old one, or just appended. -/
theorem tip_ledBy (hpre : p.lead (p.term i) <+: l) {u c : ℕ}
    (h : Tip ((p.ledBy i v l).lead u) u c) :
    Tip (p.lead u) u c ∧ ((p.ledBy i v l).lead u).take c = (p.lead u).take c ∨
      u = p.term i ∧ (p.lead u).length < c := by
  have hpre' := isPrefix_ledBy (v := v) hpre u
  by_cases hc : c ≤ (p.lead u).length
  · exact Or.inl ⟨h.of_isPrefix hpre' hc, take_of_isPrefix hpre' hc⟩
  · by_cases hu : u = p.term i
    · exact Or.inr ⟨hu, Nat.lt_of_not_le hc⟩
    · rw [ledBy_lead_ne hu] at h
      exact absurd h.le_length hc

omit [DecidableEq ν] in
/-- The voters of a later leader have left `t` without what it has not had yet. -/
theorem Sound.refuted_beyond (hs : Sound p) {t u c : ℕ} (htu : t < u) (hu : p.leader u ≠ none)
    (hlong : (p.lead t).length < c) : p.Refuted t c := by
  obtain ⟨x, hx⟩ := Option.ne_none_iff_exists'.mp hu
  obtain ⟨Q, hQ, hvotes⟩ := hs.ballot.elected hx
  exact ⟨Q, hQ, fun n hn =>
    ⟨htu.trans_le (hs.ballot.vote_le (hvotes n hn)), (hs.ack_le n t).trans_lt hlong⟩⟩

end Lead

/-- A node wins its term with the log it stood with. -/
theorem Sound.elect (hs : Sound p) {i : ν} {v : Option ν}
    (hl : p.toBallot.Legal i (p.term i) v (some (p.log i))) (hnone : p.leader (p.term i) = none)
    (hv : v = none ∨ p.vote i (p.term i) = v) (hlog : p.log i = p.ballotLog i (p.term i)) :
    Sound (p.ledBy i v (p.log i)) := by
  have hpre : p.lead (p.term i) <+: p.log i := by
    rw [hs.ballot.lead_nil hnone]
    exact List.nil_prefix
  have hfol : ∀ {k : List ε}, Follows p.lead k → Follows (p.ledBy i v (p.log i)).lead k :=
    fun hk => hk.mono (isPrefix_ledBy hpre)
  have hlog' : (p.ledBy i v (p.log i)).log = p.log := Function.update_eq_self i p.log
  constructor
  case ballot => exact hs.ballot.observe hl
  case log_follows =>
    rw [hlog']
    exact fun n => hfol (hs.log_follows n)
  case lead_follows =>
    exact lead_ledBy (Q := fun _ k => Follows _ k) (hfol (hs.log_follows i)) fun u =>
      hfol (hs.lead_follows u)
  case ballotLog_follows => exact fun n u => hfol (hs.ballotLog_follows n u)
  case log_term =>
    simp only [hlog', ledBy_term]
    exact hs.log_term
  case lead_term =>
    exact lead_ledBy (Q := fun u k => ∀ e ∈ k, termOf e ≤ u) (hs.log_term i) hs.lead_term
  case ack_le => exact hs.ack_le_ledBy hpre
  case ack_term => exact hs.ack_term_ledBy
  case leader_ack => exact hs.leader_ack_ledBy
  case kept =>
    intro n u c hc hti
    obtain ⟨hu, hti⟩ := hs.tip_elected hnone hti
    rw [ledBy_ack_ne (fun h => hu h.2)] at hc
    rw [hlog', ledBy_lead_ne hu]
    exact (hs.kept n u c hc hti).imp id (Refuted.ledBy hl)
  case complete =>
    intro u w c huw hw hti
    obtain ⟨hu, hti⟩ := hs.tip_elected hnone hti
    rw [ledBy_lead_ne hu]
    by_cases hwt : w = p.term i
    · subst hwt
      rw [ledBy_lead_self, hlog]
      obtain ⟨Q, hQ, hvotes⟩ : ∃ Q, Majority Q ∧ ∀ n ∈ Q, p.vote n (p.term i) = some i := by
        rcases hl.led _ rfl with ⟨h, _⟩ | ⟨_, Q, hQ, hn⟩
        · rw [hnone] at h
          cases h
        · exact ⟨Q, hQ, fun n hn' => Ballot.vote_of_observe hv (hn n hn')⟩
      exact (hs.elected_carries hQ hvotes huw hti).imp id fun h => hlog ▸ h.ledBy hl
    · rw [ledBy_leader_ne hwt] at hw
      rw [ledBy_lead_ne hwt]
      exact (hs.complete u w c huw hw hti).imp id (Refuted.ledBy hl)
  case voted =>
    intro n w x hx u c huw hc hti
    obtain ⟨hu, hti⟩ := hs.tip_elected hnone hti
    rw [ledBy_ack_ne (fun h => hu h.2)] at hc
    rw [ledBy_lead_ne hu]
    exact (hs.voted n w x (Ballot.vote_of_observe hv hx) u c huw hc hti).imp id (Refuted.ledBy hl)

/-- A leader appends entries of its own term. -/
theorem Sound.extend (hs : Sound p) {i : ν} {v : Option ν} {l : List ε}
    (hl : p.toBallot.Legal i (p.term i) v (some l)) (hlead : p.leader (p.term i) = some i)
    (hv : v = none ∨ p.vote i (p.term i) = v) (hlog : p.log i = p.lead (p.term i))
    (hext : Extends (p.term i) (p.lead (p.term i)) l) : Sound (p.ledBy i v l) := by
  have hpre := isPrefix_ledBy (v := v) hext.isPrefix
  have hleader : (p.ledBy i v l).leader = p.leader := by
    funext u
    by_cases hu : u = p.term i
    · subst hu
      rw [ledBy_leader_self, hlead]
    · rw [ledBy_leader_ne hu]
  have hfol : ∀ {k : List ε}, Follows p.lead k → Follows (p.ledBy i v l).lead k :=
    fun hk => hk.mono hpre
  have hfoll : Follows (p.ledBy i v l).lead l :=
    (hs.lead_follows _).extend hext hpre (by rw [ledBy_lead_self])
  have hterm : ∀ e ∈ l, termOf e ≤ p.term i := fun e he =>
    Extends.term_le hext (hs.lead_term _) he
  constructor
  case ballot => exact hs.ballot.observe hl
  case log_follows =>
    exact log_ledBy (Q := fun _ k => Follows _ k) hfoll fun n => hfol (hs.log_follows n)
  case lead_follows =>
    exact lead_ledBy (Q := fun _ k => Follows _ k) hfoll fun u => hfol (hs.lead_follows u)
  case ballotLog_follows => exact fun n u => hfol (hs.ballotLog_follows n u)
  case log_term =>
    simp only [ledBy_term]
    exact log_ledBy (Q := fun n k => ∀ e ∈ k, termOf e ≤ p.term n) hterm hs.log_term
  case lead_term =>
    exact lead_ledBy (Q := fun u k => ∀ e ∈ k, termOf e ≤ u) hterm hs.lead_term
  case ack_le => exact hs.ack_le_ledBy hext.isPrefix
  case ack_term => exact hs.ack_term_ledBy
  case leader_ack => exact hs.leader_ack_ledBy
  case kept =>
    intro n u c hc hti
    by_cases hnu : n = i ∧ u = p.term i
    · obtain ⟨rfl, rfl⟩ := hnu
      rw [ledBy_log_self, ledBy_lead_self]
      exact Or.inl (List.take_prefix _ _)
    · rw [ledBy_ack_ne hnu] at hc
      rcases tip_ledBy hext.isPrefix hti with ⟨hti, htake⟩ | ⟨_, hlong⟩
      · rw [htake]
        refine (hs.kept n u c hc hti).imp (fun h => h.trans ?_) (Refuted.ledBy hl)
        exact log_ledBy (Q := fun n k => p.log n <+: k) (hlog ▸ hext.isPrefix)
          (fun _ => List.prefix_rfl) n
      · exact absurd (hs.ack_le n u) (by omega)
  case complete =>
    intro u w c huw hw hti
    rw [hleader] at hw
    rcases tip_ledBy hext.isPrefix hti with ⟨hti, htake⟩ | ⟨_, hlong⟩
    · rw [htake]
      exact (hs.complete u w c huw hw hti).imp (fun h => h.trans (hpre w)) (Refuted.ledBy hl)
    · exact Or.inr ((hs.refuted_beyond huw hw hlong).ledBy hl)
  case voted =>
    intro n w x hx u c huw hc hti
    have hold : p.vote n w = some x := Ballot.vote_of_observe hv hx
    -- a node that has voted in a later term does not lead `u`
    rw [ledBy_ack_of_lt (huw.trans_le (hs.ballot.vote_le hold))] at hc
    rcases tip_ledBy hext.isPrefix hti with ⟨hti, htake⟩ | ⟨_, hlong⟩
    · rw [htake]
      exact (hs.voted n w x hold u c huw hc hti).imp id (Refuted.ledBy hl)
    · exact absurd (hs.ack_le n u) (by omega)

/-! ## Copying the log of a leader -/

/-- `l'` is `l` made to agree with `x`: `l` itself if it goes on from `x`, else `x`. -/
def Copies (x l l' : List ε) : Prop := x <+: l ∧ l' = l ∨ ¬ x <+: l ∧ l' = x

omit [Termed ε] in
theorem Copies.agrees {x l l' : List ε} (h : Copies x l l') : x <+: l' := by
  rcases h with ⟨h, rfl⟩ | ⟨_, rfl⟩
  · exact h
  · exact List.prefix_rfl

omit [Termed ε] in
/-- What the log and the leader have in common stays. -/
theorem Copies.keeps {lead x y l l' : List ε} (h : Copies x l l') (hx : x <+: lead)
    (hy : y <+: lead) (hyl : y <+: l) : y <+: l' := by
  rcases h with ⟨_, rfl⟩ | ⟨hne, rfl⟩
  · exact hyl
  · rcases Nat.le_total y.length l'.length with hle | hle
    · exact List.prefix_of_prefix_length_le hy hx hle
    · exact absurd ((List.prefix_of_prefix_length_le hx hy hle).trans hyl) hne

omit [Termed ε] in
theorem Copies.mem {x l l' : List ε} (h : Copies x l l') {e : ε} (he : e ∈ l') : e ∈ l ∨ e ∈ x := by
  rcases h with ⟨_, rfl⟩ | ⟨_, rfl⟩
  · exact Or.inl he
  · exact Or.inr he

section Copy

variable {i : ν} {t k : ℕ} {v : Option ν} {l : List ε}

/-- What a node agreed on in a term it has left is not touched. -/
theorem copiedBy_ack_of_lt (hl : p.toBallot.Legal i t v none) {n : ν} {u : ℕ} (hu : u < p.term n) :
    (p.copiedBy i v l t k).ack n u = p.ack n u := by
  refine copiedBy_ack_ne ?_
  rintro ⟨rfl, rfl⟩
  have := hl.term_le
  omega

theorem Refuted.copiedBy (hl : p.toBallot.Legal i t v none) {u c : ℕ} (h : p.Refuted u c) :
    (p.copiedBy i v l t k).Refuted u c :=
  h.mono hl.term_mono fun _ hu => copiedBy_ack_of_lt hl hu

theorem Sound.log_term_copiedBy (hs : Sound p) (hl : p.toBallot.Legal i t v none)
    (hcopy : Copies ((p.lead t).take k) (p.log i) l) (n : ν) (e : ε)
    (he : e ∈ (p.copiedBy i v l t k).log n) : termOf e ≤ (p.copiedBy i v l t k).term n := by
  by_cases hn : n = i
  · subst hn
    have hterm : (p.copiedBy n v l t k).term n = t := Ballot.observe_term_self _ _ _ _ _
    rw [copiedBy_log_self] at he
    rw [hterm]
    rcases hcopy.mem he with he | he
    · exact (hs.log_term n e he).trans hl.term_le
    · exact hs.lead_term t e (List.mem_of_mem_take he)
  · rw [copiedBy_log_ne hn] at he
    exact (hs.log_term n e he).trans (hl.term_mono n)

theorem Sound.ack_le_copiedBy (hs : Sound p) (hk : k ≤ (p.lead t).length) (n : ν) (u : ℕ) :
    (p.copiedBy i v l t k).ack n u ≤ (p.lead u).length := by
  by_cases hnu : n = i ∧ u = t
  · obtain ⟨rfl, rfl⟩ := hnu
    rw [copiedBy_ack_self]
    exact max_le (hs.ack_le n u) hk
  · rw [copiedBy_ack_ne hnu]
    exact hs.ack_le n u

theorem Sound.ack_term_copiedBy (hs : Sound p) (hl : p.toBallot.Legal i t v none) (n : ν) (u : ℕ)
    (h : 0 < (p.copiedBy i v l t k).ack n u) : u ≤ (p.copiedBy i v l t k).term n := by
  by_cases hnu : n = i ∧ u = t
  · obtain ⟨rfl, rfl⟩ := hnu
    exact (Ballot.observe_term_self _ _ _ _ _).ge
  · rw [copiedBy_ack_ne hnu] at h
    exact (hs.ack_term n u h).trans (hl.term_mono n)

theorem Sound.leader_ack_copiedBy (hs : Sound p) (hk : k ≤ (p.lead t).length) {u : ℕ} {x : ν}
    (hx : p.leader u = some x) : (p.copiedBy i v l t k).ack x u = (p.lead u).length := by
  by_cases hnu : x = i ∧ u = t
  · obtain ⟨rfl, rfl⟩ := hnu
    rw [copiedBy_ack_self, hs.leader_ack hx]
    exact max_eq_left hk
  · rw [copiedBy_ack_ne hnu]
    exact hs.leader_ack hx

/-- The node still has what it agreed on with a leader of `t` or of an earlier term. -/
theorem Sound.kept_copiedBy (hs : Sound p) (hl : p.toBallot.Legal i t v none)
    (hcopy : Copies ((p.lead t).take k) (p.log i) l) {u c : ℕ}
    (hc : c ≤ (p.copiedBy i v l t k).ack i u) (hti : Tip (p.lead u) u c) :
    (p.lead u).take c <+: l ∨ p.Refuted u c := by
  by_cases hu : u = t
  · subst hu
    rw [copiedBy_ack_self] at hc
    by_cases hck : c ≤ k
    · exact Or.inl ((take_prefix_of_le _ hck).trans hcopy.agrees)
    · exact (hs.kept i u c (by omega) hti).imp
        (hcopy.keeps (List.take_prefix _ _) (List.take_prefix _ _)) id
  · rw [copiedBy_ack_ne (fun h => hu h.2)] at hc
    have hut : u < t := by
      have h1 := hs.ack_term i u (hti.pos.trans_le hc)
      have h2 := hl.term_le
      omega
    rcases hs.kept i u c hc hti with h | h
    · by_cases hne : p.lead t = []
      · rcases hcopy with ⟨_, rfl⟩ | ⟨hnot, _⟩
        · exact Or.inl h
        · exact absurd (by simp [hne]) hnot
      · -- the leader of `t` holds the entry as well
        exact (hs.complete u t c hut (hs.leader_ne_none hne) hti).imp
          (fun h' => hcopy.keeps (List.take_prefix _ _) h' h) id
    · exact Or.inr h

end Copy

/-- A node copies the log of the leader of `t` up to `k`. -/
theorem Sound.copy (hs : Sound p) {i : ν} {t k : ℕ} {v : Option ν} {l : List ε}
    (hl : p.toBallot.Legal i t v none) (hv : v = none ∨ p.vote i t = v)
    (hk : k ≤ (p.lead t).length) (hcopy : Copies ((p.lead t).take k) (p.log i) l) :
    Sound (p.copiedBy i v l t k) := by
  have hlead : (p.copiedBy i v l t k).lead = p.lead := copiedBy_lead
  have hleader : (p.copiedBy i v l t k).leader = p.leader := copiedBy_leader
  have hfol : Follows p.lead l := by
    rcases hcopy with ⟨_, rfl⟩ | ⟨_, rfl⟩
    · exact hs.log_follows i
    · exact (hs.lead_follows t).of_isPrefix (List.take_prefix _ _)
  constructor
  case ballot => exact hs.ballot.observe hl
  case log_follows =>
    rw [hlead]
    exact log_copiedBy (Q := fun _ k => Follows p.lead k) hfol hs.log_follows
  case lead_follows => simpa only [hlead] using hs.lead_follows
  case ballotLog_follows =>
    rw [hlead]
    exact hs.ballotLog_follows
  case log_term => exact hs.log_term_copiedBy hl hcopy
  case lead_term => simpa only [hlead] using hs.lead_term
  case ack_le =>
    rw [hlead]
    exact hs.ack_le_copiedBy hk
  case ack_term => exact hs.ack_term_copiedBy hl
  case leader_ack =>
    rw [hlead, hleader]
    exact hs.leader_ack_copiedBy hk
  case kept =>
    intro n u c hc hti
    rw [hlead] at hti ⊢
    by_cases hn : n = i
    · subst hn
      rw [copiedBy_log_self]
      exact (hs.kept_copiedBy hl hcopy hc hti).imp id (Refuted.copiedBy hl)
    · rw [copiedBy_ack_ne (fun h => hn h.1)] at hc
      rw [copiedBy_log_ne hn]
      exact (hs.kept n u c hc hti).imp id (Refuted.copiedBy hl)
  case complete =>
    intro u w c huw hw hti
    rw [hleader] at hw
    rw [hlead] at hti ⊢
    exact (hs.complete u w c huw hw hti).imp id (Refuted.copiedBy hl)
  case voted =>
    intro n w x hx u c huw hc hti
    have hold : p.vote n w = some x := Ballot.vote_of_observe hv hx
    rw [copiedBy_ack_of_lt hl (huw.trans_le (hs.ballot.vote_le hold))] at hc
    rw [hlead] at hti ⊢
    exact (hs.voted n w x hold u c huw hc hti).imp id (Refuted.copiedBy hl)

/-! ## The moves only add -/

theorem le_copiedBy {i : ν} {t k : ℕ} {v : Option ν} {l : List ε}
    (hl : p.toBallot.Legal i t v none) : Le p (p.copiedBy i v l t k) := by
  refine ⟨hl.le, fun n u => ?_⟩
  by_cases hnu : n = i ∧ u = t
  · obtain ⟨rfl, rfl⟩ := hnu
    rw [copiedBy_ack_self]
    exact le_max_left _ _
  · rw [copiedBy_ack_ne hnu]

theorem Sound.le_ledBy (hs : Sound p) {i : ν} {v : Option ν} {l : List ε}
    (hl : p.toBallot.Legal i (p.term i) v (some l))
    (hlen : (p.lead (p.term i)).length ≤ l.length) : Le p (p.ledBy i v l) := by
  refine ⟨hl.le, fun n u => ?_⟩
  by_cases hnu : n = i ∧ u = p.term i
  · obtain ⟨rfl, rfl⟩ := hnu
    rw [ledBy_ack_self]
    exact (hs.ack_le n (p.term n)).trans hlen
  · rw [ledBy_ack_ne hnu]

/-! ## Certified prefixes -/

/-- The first `k` entries of `l` are part of what was chosen in some term up to `t`. -/
def Certified (p : Ledger ν ε) (l : List ε) (t k : ℕ) : Prop :=
  k = 0 ∨ ∃ u c, u ≤ t ∧ p.Chosen u c ∧ k ≤ c ∧ (p.lead u).take k <+: l

omit [DecidableEq ν] in
theorem Certified.le_length {l : List ε} {t k : ℕ} (h : p.Certified l t k) : k ≤ l.length := by
  rcases h with rfl | ⟨u, c, _, hc, hkc, hp⟩
  · exact Nat.zero_le _
  · have := hp.length_le
    have hlen := hc.1.le_length
    rw [List.length_take] at this
    omega

omit [DecidableEq ν] in
theorem Certified.of_le {l : List ε} {t t' k k' : ℕ} (h : p.Certified l t k) (ht : t ≤ t')
    (hk : k' ≤ k) : p.Certified l t' k' := by
  rcases h with rfl | ⟨u, c, hu, hc, hkc, hp⟩
  · exact Or.inl (by omega)
  · exact Or.inr ⟨u, c, hu.trans ht, hc, hk.trans hkc, (take_prefix_of_le _ hk).trans hp⟩

omit [DecidableEq ν] in
theorem Certified.of_isPrefix {l l' : List ε} {t k : ℕ} (h : p.Certified l t k)
    (hl : l.take k <+: l') : p.Certified l' t k := by
  rcases h with rfl | ⟨u, c, hu, hc, hkc, hp⟩
  · exact Or.inl rfl
  · refine Or.inr ⟨u, c, hu, hc, hkc, ?_⟩
    refine (prefix_take hp ?_).trans hl
    rw [List.length_take]
    omega

omit [DecidableEq ν] in
theorem Certified.mono {p' : Ledger ν ε} (hs : Sound p) (h : Le p p') {l : List ε} {t k : ℕ}
    (hc : p.Certified l t k) : p'.Certified l t k := by
  rcases hc with rfl | ⟨u, c, hu, hc, hkc, hp⟩
  · exact Or.inl rfl
  · refine Or.inr ⟨u, c, hu, hc.mono hs h, hkc, ?_⟩
    rw [take_of_isPrefix (hs.lead_prefix_of_le h u) (hkc.trans hc.1.le_length)]
    exact hp

omit [DecidableEq ν] in
/-- What is certified of the log of a leader stays so. -/
theorem Certified.lead_mono {p' : Ledger ν ε} (hs : Sound p) (h : Le p p') {t u k : ℕ}
    (hc : p.Certified (p.lead u) t k) : p'.Certified (p'.lead u) t k :=
  (hc.mono hs h).of_isPrefix ((List.take_prefix _ _).trans (hs.lead_prefix_of_le h u))

/-- Two certified prefixes are the same as far as both go. -/
theorem Certified.agree (hs : Sound p) {l l' : List ε} {t t' k : ℕ} (h : p.Certified l t k)
    (h' : p.Certified l' t' k) : l.take k = l'.take k := by
  rcases h with rfl | ⟨u, c, _, hc, hkc, hp⟩
  · simp
  rcases h' with rfl | ⟨u', c', _, hc', hkc', hp'⟩
  · simp
  have htake : ∀ {u c} {l : List ε}, p.Chosen u c → k ≤ c → (p.lead u).take k <+: l →
      l.take k = (p.lead u).take k := by
    intro u c l hc hkc hp
    have hlen : k ≤ ((p.lead u).take k).length := by
      rw [List.length_take]
      have := hc.1.le_length
      omega
    rw [take_of_isPrefix hp hlen, List.take_take, Nat.min_self]
  rw [htake hc hkc hp, htake hc' hkc' hp', hc.agree hs hc' hkc hkc']

/-- Copying the log of the leader of `t` loses nothing certified up to `t`. -/
theorem Certified.copy (hs : Sound p) {x l l' : List ε} {t k : ℕ} (h : p.Certified l t k)
    (hx : x <+: p.lead t) (hcopy : Copies x l l') : p.Certified l' t k := by
  rcases h with rfl | ⟨u, c, hu, hc, hkc, hp⟩
  · exact Or.inl rfl
  refine Or.inr ⟨u, c, hu, hc, hkc, ?_⟩
  rcases hcopy with ⟨_, rfl⟩ | ⟨hne, rfl⟩
  · exact hp
  · have hne' : p.lead t ≠ [] := by
      rintro h0
      rw [h0, List.prefix_nil] at hx
      exact hne (by rw [hx]; exact List.nil_prefix)
    have hin := (take_prefix_of_le (p.lead u) hkc).trans
      (hc.in_lead hs hu (hs.leader_ne_none hne'))
    have hcopy : Copies _ _ _ := Or.inr ⟨hne, rfl⟩
    exact hcopy.keeps hx hin hp

end Ledger

end Consensus
