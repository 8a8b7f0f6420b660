import MyKvRaft.Consensus.Ballot

/-!
# Logs built from the logs of leaders

`lead t` is the log of the leader of term `t`. A log `Follows lead` when each of
its prefixes that ends in an entry of term `t` is a prefix of `lead t`. Every log
that leaders build by appending, and followers by copying, has this form, and it
carries the whole of log matching (`Follows.agree`).

`UpToDate` is the comparison voters make; `upToDate_carries` is what it is for.
-/

namespace Consensus

variable {ε : Type*}

/-! ## Prefixes of lists -/

theorem getElem?_of_isPrefix {l l' : List ε} (h : l <+: l') {k : ℕ} {e : ε} (he : l[k]? = some e) :
    l'[k]? = some e := by
  obtain ⟨x, rfl⟩ := h
  have hk : k < l.length := (List.getElem?_eq_some_iff.mp he).1
  rw [List.getElem?_append_left hk, he]

theorem getElem?_eq_of_take_eq {l l' : List ε} {k j : ℕ} (h : l.take k = l'.take k) (hj : j < k) :
    l[j]? = l'[j]? := by
  rw [← List.getElem?_take_of_lt hj, h, List.getElem?_take_of_lt hj]

theorem take_of_isPrefix {l l' : List ε} (h : l <+: l') {k : ℕ} (hk : k ≤ l.length) :
    l'.take k = l.take k := by
  obtain ⟨x, rfl⟩ := h
  rw [List.take_append_of_le_length hk]

theorem take_prefix_of_le (l : List ε) {k k' : ℕ} (h : k ≤ k') : l.take k <+: l.take k' := by
  have : (l.take k').take k = l.take k := by rw [List.take_take, Nat.min_eq_left h]
  rw [← this]
  exact List.take_prefix _ _

theorem prefix_take {l l' : List ε} (h : l <+: l') {k : ℕ} (hk : l.length ≤ k) :
    l <+: l'.take k := by
  obtain ⟨x, rfl⟩ := h
  rw [List.take_append, List.take_of_length_le hk]
  exact List.prefix_append _ _

variable [Termed ε]

/-! ## Logs that follow the leaders -/

def Follows (lead : ℕ → List ε) (l : List ε) : Prop :=
  ∀ k e, l[k]? = some e → l.take (k + 1) <+: lead (termOf e)

/-- `l` holds an entry of term `t` at position `c` (counted from 1). -/
def Tip (l : List ε) (t c : ℕ) : Prop := ∃ k e, c = k + 1 ∧ l[k]? = some e ∧ termOf e = t

theorem Tip.pos {l : List ε} {t c : ℕ} (h : Tip l t c) : 0 < c := by
  obtain ⟨k, _, rfl, _⟩ := h
  omega

theorem Tip.le_length {l : List ε} {t c : ℕ} (h : Tip l t c) : c ≤ l.length := by
  obtain ⟨k, e, rfl, he, _⟩ := h
  exact (List.getElem?_eq_some_iff.mp he).1

theorem Tip.of_isPrefix {l l' : List ε} (h : l <+: l') {t c : ℕ} (hc : c ≤ l.length)
    (ht : Tip l' t c) : Tip l t c := by
  obtain ⟨k, e, rfl, he, hte⟩ := ht
  refine ⟨k, e, rfl, ?_, hte⟩
  obtain ⟨x, rfl⟩ := h
  rwa [List.getElem?_append_left hc] at he

theorem Tip.mono {l l' : List ε} (h : l <+: l') {t c : ℕ} (ht : Tip l t c) : Tip l' t c := by
  obtain ⟨k, e, rfl, he, hte⟩ := ht
  exact ⟨k, e, rfl, getElem?_of_isPrefix h he, hte⟩

section

variable {lead lead' : ℕ → List ε} {l l' : List ε}

theorem follows_nil : Follows lead [] := by
  intro k e he
  simp at he

theorem Follows.of_isPrefix (h : Follows lead l) (hp : l' <+: l) : Follows lead l' := by
  intro k e he
  have hk : k < l'.length := (List.getElem?_eq_some_iff.mp he).1
  rw [← take_of_isPrefix hp hk]
  exact h k e (getElem?_of_isPrefix hp he)

theorem Follows.mono (h : Follows lead l) (hle : ∀ t, lead t <+: lead' t) : Follows lead' l :=
  fun k e he => (h k e he).trans (hle _)

/-- If no entry is of a term whose leader log changes, nothing is lost. -/
theorem Follows.congr (h : Follows lead l) (hne : ∀ e ∈ l, lead' (termOf e) = lead (termOf e)) :
    Follows lead' l := by
  intro k e he
  rw [hne e (List.mem_of_getElem? he)]
  exact h k e he

/-- The log of a leader with further entries of its own term. -/
theorem Follows.extend {t : ℕ} (h : Follows lead l) (he : Extends t l l')
    (hle : ∀ u, lead u <+: lead' u) (hlead : lead' t = l') : Follows lead' l' := by
  obtain ⟨ext, rfl, hext⟩ := he
  intro k e hk
  by_cases hkl : k < l.length
  · rw [List.getElem?_append_left hkl] at hk
    rw [List.take_append_of_le_length hkl]
    exact (h k e hk).trans (hle _)
  · rw [List.getElem?_append_right (by omega)] at hk
    rw [hext e (List.mem_of_getElem? hk), hlead]
    exact List.take_prefix _ _

/-- An entry of term `t` in a log is in the log of the leader of `t`. -/
theorem Follows.mem_lead (h : Follows lead l) {e : ε} (he : e ∈ l) : e ∈ lead (termOf e) := by
  obtain ⟨k, hk⟩ := List.getElem?_of_mem he
  have hlt : k < l.length := (List.getElem?_eq_some_iff.mp hk).1
  have : (l.take (k + 1))[k]? = some e := by rw [List.getElem?_take_of_lt (by omega), hk]
  exact List.mem_of_getElem? (getElem?_of_isPrefix (h k e hk) this)

/-- Log matching: logs with entries of one term at one place agree up to there. -/
theorem Follows.agree (h : Follows lead l) (h' : Follows lead l') {k : ℕ} {e e' : ε}
    (he : l[k]? = some e) (he' : l'[k]? = some e') (ht : termOf e = termOf e') :
    l.take (k + 1) = l'.take (k + 1) := by
  have hk : k < l.length := (List.getElem?_eq_some_iff.mp he).1
  have hk' : k < l'.length := (List.getElem?_eq_some_iff.mp he').1
  have h1 := h k e he
  have h2 := h' k e' he'
  rw [← ht] at h2
  refine List.IsPrefix.eq_of_length (List.prefix_of_prefix_length_le h1 h2 ?_) ?_ <;>
    simp only [List.length_take] <;> omega

/-- Terms do not decrease along a log. -/
theorem Follows.term_le (h : Follows lead l) (hlead : ∀ t e, e ∈ lead t → termOf e ≤ t) {i j : ℕ}
    {e f : ε} (hij : i ≤ j) (he : l[i]? = some e) (hf : l[j]? = some f) : termOf e ≤ termOf f := by
  apply hlead
  have : (l.take (j + 1))[i]? = some e := by rw [List.getElem?_take_of_lt (by omega), he]
  exact List.mem_of_getElem? (getElem?_of_isPrefix (h j f hf) this)

end

/-! ## The voters' comparison -/

/-- The term of the last entry; `0` for the empty log. -/
def lastTerm (l : List ε) : ℕ := (l.getLast?.map termOf).getD 0

/-- `l` is at least as up to date as `l'`. -/
def UpToDate (l l' : List ε) : Prop :=
  lastTerm l' < lastTerm l ∨ lastTerm l = lastTerm l' ∧ l'.length ≤ l.length

theorem lastTerm_spec {l : List ε} (h : l ≠ []) :
    ∃ e, l[l.length - 1]? = some e ∧ lastTerm l = termOf e := by
  refine ⟨l.getLast h, ?_, ?_⟩
  · rw [← List.getLast?_eq_getElem?, List.getLast?_eq_getLast_of_ne_nil h]
  · simp [lastTerm, List.getLast?_eq_getLast_of_ne_nil h]

theorem prefix_lead_lastTerm {lead : ℕ → List ε} {l : List ε} (h : Follows lead l) (hne : l ≠ []) :
    l <+: lead (lastTerm l) := by
  obtain ⟨e, he, ht⟩ := lastTerm_spec hne
  have hlen : 0 < l.length := List.length_pos_iff.mpr hne
  have := h _ e he
  rwa [Nat.sub_add_cancel hlen, List.take_length, ← ht] at this

/-- A log at least as up to date as one that holds a prefix `x` ending in an entry of term `t`
    holds `x` too, provided the leader of every later term does. -/
theorem upToDate_carries {lead : ℕ → List ε} {l l' : List ε} (h : Follows lead l)
    (h' : Follows lead l') (hlead : ∀ t e, e ∈ lead t → termOf e ≤ t) (hup : UpToDate l l') {t c : ℕ}
    (htip : Tip (lead t) t c) (hx : (lead t).take c <+: l')
    (hlater : ∀ u, t < u → lead u ≠ [] → (lead t).take c <+: lead u) :
    (lead t).take c <+: l := by
  obtain ⟨k, e, rfl, he, hte⟩ := htip
  have hk : k < (lead t).length := (List.getElem?_eq_some_iff.mp he).1
  have hlenx : ((lead t).take (k + 1)).length = k + 1 := by rw [List.length_take]; omega
  have hek : l'[k]? = some e :=
    getElem?_of_isPrefix hx (by rw [List.getElem?_take_of_lt (by omega), he])
  have hne' : l' ≠ [] := by rintro rfl; simp at hek
  have hle' : k + 1 ≤ l'.length := (List.getElem?_eq_some_iff.mp hek).1
  -- the voter's last term is at least `t`
  obtain ⟨m, hm, hmt⟩ := lastTerm_spec hne'
  have htm : t ≤ lastTerm l' := by
    rw [hmt, ← hte]
    exact h'.term_le hlead (by omega) hek hm
  have hne : l ≠ [] := by
    rintro rfl
    rcases hup with hlt | ⟨_, hle⟩
    · simp [lastTerm] at hlt
    · simp at hle; exact hne' hle
  have hpl := prefix_lead_lastTerm h hne
  rcases hup with hlt | ⟨heq, hle⟩
  · -- a later leader: its own entries come after the prefix
    have hlead_ne : lead (lastTerm l) ≠ [] := by
      intro h0
      rw [h0, List.prefix_nil] at hpl
      exact hne hpl
    have hxl := hlater (lastTerm l) (by omega) hlead_ne
    refine List.prefix_of_prefix_length_le hxl hpl ?_
    rw [hlenx]
    by_contra hshort
    obtain ⟨f, hf, hft⟩ := lastTerm_spec hne
    have hpos : 0 < l.length := List.length_pos_iff.mpr hne
    -- the last entry of `l` would lie inside the prefix, and be of a term at most `t`
    have h1 := getElem?_of_isPrefix hpl hf
    have htake := take_of_isPrefix hxl hlenx.ge
    rw [List.take_take, Nat.min_self] at htake
    have h2 : ((lead t).take (k + 1))[l.length - 1]? = some f := by
      rw [← htake, List.getElem?_take_of_lt (by omega), h1]
    have := hlead t f (List.mem_of_mem_take (List.mem_of_getElem? h2))
    omega
  · rw [heq] at hpl
    exact hx.trans (List.prefix_of_prefix_length_le (prefix_lead_lastTerm h' hne') hpl hle)

end Consensus
