import Mathlib.Data.Fintype.Card
import Mathlib.Tactic

/-!
# Voting by term

The record of who voted for whom and who led, over any finite type of nodes. A
`Ballot` keeps, for every term, the votes cast in it, its leader and the log of
that leader; it grows by observing one node at a time.

* `Majority.inter`: two majorities share a node.
* `Valid.observe`: an observation that keeps the voting rules (`Legal`) keeps the
  ballot valid and only adds to it.
* `Valid.leader_unique`: whoever has a majority of the votes of a term that has a
  leader is that leader.
-/

namespace Consensus

/-- Entries carry the term of the leader that created them. -/
class Termed (ε : Type*) where
  termOf : ε → ℕ

export Termed (termOf)

variable {ν ε : Type*}

/-- More than half of the nodes. -/
def Majority [Fintype ν] (Q : Finset ν) : Prop := Fintype.card ν < 2 * Q.card

theorem Majority.inter [Fintype ν] [DecidableEq ν] {Q Q' : Finset ν} (h : Majority Q)
    (h' : Majority Q') : ∃ v, v ∈ Q ∧ v ∈ Q' := by
  by_contra hne
  have hdisj : Disjoint Q Q' := Finset.disjoint_left.mpr fun v hv hv' => hne ⟨v, hv, hv'⟩
  have hcard := Finset.card_union_of_disjoint hdisj
  have hle := Finset.card_le_univ (Q ∪ Q')
  unfold Majority at h h'
  omega

/-- A list that goes on as the log of the leader of `t` does: by entries of `t`. -/
def Extends [Termed ε] (t : ℕ) (l l' : List ε) : Prop := ∃ ext, l' = l ++ ext ∧ ∀ e ∈ ext, termOf e = t

theorem Extends.refl [Termed ε] (t : ℕ) (l : List ε) : Extends t l l := ⟨[], by simp, by simp⟩

theorem Extends.trans [Termed ε] {t : ℕ} {l₁ l₂ l₃ : List ε} (h : Extends t l₁ l₂) (h' : Extends t l₂ l₃) :
    Extends t l₁ l₃ := by
  obtain ⟨x, rfl, hx⟩ := h
  obtain ⟨y, rfl, hy⟩ := h'
  refine ⟨x ++ y, by simp, fun e he => ?_⟩
  rcases List.mem_append.mp he with he | he
  · exact hx e he
  · exact hy e he

theorem Extends.isPrefix [Termed ε] {t : ℕ} {l l' : List ε} (h : Extends t l l') : l <+: l' := by
  obtain ⟨x, rfl, _⟩ := h
  exact List.prefix_append _ _

theorem Extends.term_le [Termed ε] {t : ℕ} {l l' : List ε} (h : Extends t l l')
    (hl : ∀ e ∈ l, termOf e ≤ t) {e : ε} (he : e ∈ l') : termOf e ≤ t := by
  obtain ⟨x, rfl, hx⟩ := h
  rcases List.mem_append.mp he with he | he
  · exact hl e he
  · exact (hx e he).le

/-- The terms the nodes have reached, the votes cast, the leaders elected, and for every term
    the log of its leader while it led. -/
structure Ballot (ν ε : Type*) where
  term : ν → ℕ
  vote : ν → ℕ → Option ν
  leader : ℕ → Option ν
  lead : ℕ → List ε

namespace Ballot

/-- Before anything has happened. -/
def empty : Ballot ν ε := ⟨fun _ => 0, fun _ _ => none, fun _ => none, fun _ => []⟩

section Order

variable [Termed ε]

/-- `b'` has everything on record that `b` has. -/
structure Le (b b' : Ballot ν ε) : Prop where
  term : ∀ n, b.term n ≤ b'.term n
  vote : ∀ {n u x}, b.vote n u = some x → b'.vote n u = some x
  leader : ∀ {u x}, b.leader u = some x → b'.leader u = some x
  lead : ∀ {u x}, b.leader u = some x → Extends u (b.lead u) (b'.lead u)

theorem Le.refl (b : Ballot ν ε) : Le b b :=
  ⟨fun _ => le_rfl, id, id, fun _ => Extends.refl _ _⟩

theorem Le.trans {b₁ b₂ b₃ : Ballot ν ε} (h : Le b₁ b₂) (h' : Le b₂ b₃) : Le b₁ b₃ :=
  ⟨fun n => (h.term n).trans (h'.term n), fun hx => h'.vote (h.vote hx),
    fun hx => h'.leader (h.leader hx), fun hx => (h.lead hx).trans (h'.lead (h.leader hx))⟩

end Order

/-- What every ballot keeps: nobody votes in a term it has not reached or for a node that has
    not, leaders have a majority of the votes, and only elected leaders have a log. -/
structure Valid [Fintype ν] (b : Ballot ν ε) : Prop where
  vote_le : ∀ {n u x}, b.vote n u = some x → u ≤ b.term n
  candidate_le : ∀ {n u x}, b.vote n u = some x → u ≤ b.term x
  elected : ∀ {u x}, b.leader u = some x → ∃ Q, Majority Q ∧ ∀ n ∈ Q, b.vote n u = some x
  lead_nil : ∀ {u}, b.leader u = none → b.lead u = []

theorem valid_empty [Fintype ν] : Valid (empty : Ballot ν ε) :=
  ⟨by simp [empty], by simp [empty], by simp [empty], by simp [empty]⟩

theorem Valid.leader_unique [Fintype ν] [DecidableEq ν] {b : Ballot ν ε} (hb : Valid b) {u : ℕ}
    {x y : ν} {Q : Finset ν} (hx : b.leader u = some x) (hQ : Majority Q)
    (hy : ∀ n ∈ Q, b.vote n u = some y) : y = x := by
  obtain ⟨Q', hQ', hx'⟩ := hb.elected hx
  obtain ⟨n, hn, hn'⟩ := hQ.inter hQ'
  have := (hy n hn).symm.trans (hx' n hn')
  exact Option.some.inj this

variable [DecidableEq ν]

/-- Node `i` is seen in term `t`, with vote `v`, and with log `l` if it leads (`led = some l`). -/
def observe (b : Ballot ν ε) (i : ν) (t : ℕ) (v : Option ν) (led : Option (List ε)) :
    Ballot ν ε where
  term := Function.update b.term i t
  vote n u := if n = i ∧ u = t then v.or (b.vote n u) else b.vote n u
  leader u := if u = t then (led.map fun _ => i).or (b.leader u) else b.leader u
  lead u := if u = t then led.getD (b.lead u) else b.lead u

section Observe

variable (b : Ballot ν ε) (i : ν) (t : ℕ) (v : Option ν) (led : Option (List ε))

@[simp] theorem observe_term_self : (b.observe i t v led).term i = t := by simp [observe]

theorem observe_term_ne {n : ν} (h : n ≠ i) : (b.observe i t v led).term n = b.term n := by
  simp [observe, h]

theorem observe_vote_self : (b.observe i t v led).vote i t = v.or (b.vote i t) := by
  simp [observe]

theorem observe_vote_ne {n : ν} {u : ℕ} (h : ¬ (n = i ∧ u = t)) :
    (b.observe i t v led).vote n u = b.vote n u := by
  simp only [observe, if_neg h]

theorem observe_leader_self : (b.observe i t v led).leader t =
    (led.map fun _ => i).or (b.leader t) := by simp [observe]

theorem observe_leader_ne {u : ℕ} (h : u ≠ t) :
    (b.observe i t v led).leader u = b.leader u := by
  simp [observe, h]

theorem observe_lead_self : (b.observe i t v led).lead t = led.getD (b.lead t) := by
  simp [observe]

theorem observe_lead_ne {u : ℕ} (h : u ≠ t) : (b.observe i t v led).lead u = b.lead u := by
  simp [observe, h]

/-- Seeing again what is on record changes nothing. -/
theorem observe_self (hv : v = none ∨ b.vote i (b.term i) = v)
    (hl : led = none ∨ b.leader (b.term i) = some i ∧ led = some (b.lead (b.term i))) :
    b.observe i (b.term i) v led = b := by
  have hvote : ∀ n u, (b.observe i (b.term i) v led).vote n u = b.vote n u := by
    intro n u
    by_cases h : n = i ∧ u = b.term i
    · obtain ⟨rfl, rfl⟩ := h
      rw [observe_vote_self]
      rcases hv with rfl | hv
      · rfl
      · rw [← hv, Option.or_self]
    · rw [observe_vote_ne _ _ _ _ _ h]
  have hleader : ∀ u, (b.observe i (b.term i) v led).leader u = b.leader u := by
    intro u
    by_cases h : u = b.term i
    · subst h
      rw [observe_leader_self]
      rcases hl with rfl | ⟨hl, rfl⟩
      · rfl
      · rw [hl]; rfl
    · rw [observe_leader_ne _ _ _ _ _ h]
  have hlead : ∀ u, (b.observe i (b.term i) v led).lead u = b.lead u := by
    intro u
    by_cases h : u = b.term i
    · subst h
      rw [observe_lead_self]
      rcases hl with rfl | ⟨_, rfl⟩ <;> rfl
    · rw [observe_lead_ne _ _ _ _ _ h]
  have hterm : (b.observe i (b.term i) v led).term = b.term := Function.update_eq_self i b.term
  cases b
  simp only [observe, mk.injEq] at *
  exact ⟨hterm, funext fun n => funext (hvote n), funext hleader, funext hlead⟩

variable {b i t v led} in
/-- A vote in the new ballot is an old one, or the one observed. -/
theorem vote_observe {n : ν} {u : ℕ} {x : ν} (hx : (b.observe i t v led).vote n u = some x) :
    b.vote n u = some x ∨ n = i ∧ u = t ∧ v = some x := by
  by_cases hnu : n = i ∧ u = t
  · obtain ⟨rfl, rfl⟩ := hnu
    rw [observe_vote_self] at hx
    cases v with
    | none => exact Or.inl (by simpa using hx)
    | some y => exact Or.inr ⟨rfl, rfl, by simpa using hx⟩
  · rw [observe_vote_ne _ _ _ _ _ hnu] at hx; exact Or.inl hx

variable {b i t v led} in
/-- If the vote observed is on record, no vote is new. -/
theorem vote_of_observe (hv : v = none ∨ b.vote i t = v) {n : ν} {u : ℕ} {x : ν}
    (hx : (b.observe i t v led).vote n u = some x) : b.vote n u = some x := by
  rcases vote_observe hx with hx | ⟨rfl, rfl, hv'⟩
  · exact hx
  · rcases hv with rfl | hv
    · cases hv'
    · rw [hv, hv']

variable {b i t v led} in
/-- A leader in the new ballot is an old one, or the node observed. -/
theorem leader_observe {u : ℕ} {x : ν} (hx : (b.observe i t v led).leader u = some x) :
    b.leader u = some x ∨ x = i ∧ u = t ∧ led ≠ none := by
  by_cases hu : u = t
  · subst hu
    rw [observe_leader_self] at hx
    cases led with
    | none => exact Or.inl (by simpa using hx)
    | some l => exact Or.inr ⟨(Option.some.inj hx).symm, rfl, by simp⟩
  · rw [observe_leader_ne _ _ _ _ _ hu] at hx
    exact Or.inl hx

end Observe

variable [Fintype ν] [Termed ε]

/-- The rules an observation keeps: terms go up, a vote is not changed, and a node leads only a
    term it has been leading, where its log has grown, or one that it has just won. -/
structure Legal (b : Ballot ν ε) (i : ν) (t : ℕ) (v : Option ν) (led : Option (List ε)) :
    Prop where
  term_le : b.term i ≤ t
  vote : ∀ x, v = some x →
    (b.vote i t = none ∨ b.vote i t = some x) ∧ (x = i ∨ t ≤ b.term x)
  led : ∀ l, led = some l →
    (b.leader t = some i ∧ Extends t (b.lead t) l) ∨
    (b.leader t = none ∧
      ∃ Q, Majority Q ∧ ∀ n ∈ Q, (b.observe i t v none).vote n t = some i)

section Growth

variable {b : Ballot ν ε} {i : ν} {t : ℕ} {v : Option ν} {led : Option (List ε)}

/-- A vote on record stays as it is. -/
theorem Legal.vote_mono (h : Legal b i t v led) {n : ν} {u : ℕ} {x : ν}
    (hx : b.vote n u = some x) : (b.observe i t v led).vote n u = some x := by
  by_cases hnu : n = i ∧ u = t
  · obtain ⟨rfl, rfl⟩ := hnu
    rw [observe_vote_self]
    cases v with
    | none => simpa using hx
    | some y =>
      rcases (h.vote y rfl).1 with hy | hy
      · rw [hx] at hy; cases hy
      · rw [hx] at hy; cases hy; rfl
  · rw [observe_vote_ne _ _ _ _ _ hnu]; exact hx

theorem Legal.leader_mono (h : Legal b i t v led) {u : ℕ} {x : ν} (hx : b.leader u = some x) :
    (b.observe i t v led).leader u = some x := by
  by_cases hu : u = t
  · subst hu
    rw [observe_leader_self]
    cases led with
    | none => simpa using hx
    | some l =>
      rcases h.led l rfl with ⟨hl, _⟩ | ⟨hl, _⟩
      · rw [hx] at hl; cases hl; rfl
      · rw [hx] at hl; cases hl
  · rw [observe_leader_ne _ _ _ _ _ hu]; exact hx

theorem Legal.term_mono (h : Legal b i t v led) (n : ν) :
    b.term n ≤ (b.observe i t v led).term n := by
  by_cases hn : n = i
  · subst hn; rw [observe_term_self]; exact h.term_le
  · rw [observe_term_ne _ _ _ _ _ hn]

theorem Legal.le (h : Legal b i t v led) : Le b (b.observe i t v led) := by
  refine ⟨h.term_mono, h.vote_mono, h.leader_mono, fun {u x} hx => ?_⟩
  by_cases hu : u = t
  · subst hu
    rw [observe_lead_self]
    cases led with
    | none => exact Extends.refl _ _
    | some l =>
      rcases h.led l rfl with ⟨_, hl⟩ | ⟨hl, _⟩
      · exact hl
      · rw [hx] at hl; cases hl
  · rw [observe_lead_ne _ _ _ _ _ hu]; exact Extends.refl _ _

theorem Valid.observe (hb : Valid b) (h : Legal b i t v led) : Valid (b.observe i t v led) where
  vote_le {n u x} hx := by
    rcases vote_observe hx with hx | ⟨rfl, rfl, _⟩
    · exact (hb.vote_le hx).trans (h.term_mono n)
    · rw [observe_term_self]
  candidate_le {n u x} hx := by
    rcases vote_observe hx with hx | ⟨rfl, rfl, hv⟩
    · exact (hb.candidate_le hx).trans (h.term_mono x)
    · rcases (h.vote x hv).2 with rfl | hle
      · rw [observe_term_self]
      · exact hle.trans (h.term_mono x)
  elected {u x} hx := by
    by_cases hu : u = t
    · subst hu
      rw [observe_leader_self] at hx
      cases led with
      | none =>
        obtain ⟨Q, hQ, hv⟩ := hb.elected (u := u) (x := x) (by simpa using hx)
        exact ⟨Q, hQ, fun n hn => h.vote_mono (hv n hn)⟩
      | some l =>
        cases hx
        rcases h.led l rfl with ⟨hl, _⟩ | ⟨_, Q, hQ, hv⟩
        · obtain ⟨Q, hQ, hv⟩ := hb.elected hl
          exact ⟨Q, hQ, fun n hn => h.vote_mono (hv n hn)⟩
        · exact ⟨Q, hQ, hv⟩
    · rw [observe_leader_ne _ _ _ _ _ hu] at hx
      obtain ⟨Q, hQ, hv⟩ := hb.elected hx
      exact ⟨Q, hQ, fun n hn => h.vote_mono (hv n hn)⟩
  lead_nil {u} hu := by
    by_cases hut : u = t
    · subst hut
      rw [observe_leader_self] at hu
      rw [observe_lead_self]
      cases led with
      | none => exact hb.lead_nil (by simpa using hu)
      | some l => cases hu
    · rw [observe_leader_ne _ _ _ _ _ hut] at hu
      rw [observe_lead_ne _ _ _ _ _ hut]
      exact hb.lead_nil hu

end Growth

end Ballot

end Consensus
