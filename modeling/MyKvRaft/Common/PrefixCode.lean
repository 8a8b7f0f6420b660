import Mathlib.Tactic

/-!
# Prefix codes

A code `enc` on the values that meet `ok`. A string that begins with a word of a prefix code
tells which word it is and where it ends, and so for several words in a row.

* `IsPrefixCode.words_unique`: a string begins with one sequence of `n` words at most.
* `IsPrefixCode.not_begins`: what is cut off a sequence of `n` words does not begin with `n`
  words any more.
-/

namespace PrefixCode

variable {α β : Type*}

/-- A word and what stands behind it are both known from the whole. -/
def IsPrefixCode (ok : α → Prop) (enc : α → List β) : Prop :=
  ∀ a b rest rest', ok a → ok b → enc a ++ rest = enc b ++ rest' → a = b ∧ rest = rest'

/-- The words at the front of `data`. -/
def Begins (ok : α → Prop) (enc : α → List β) (words : List α) (data : List β) : Prop :=
  (∀ w ∈ words, ok w) ∧ words.flatMap enc <+: data

variable {ok : α → Prop} {enc : α → List β}

/-- A decoder that gives back a word and what stands behind it. -/
theorem IsPrefixCode.of_decode (dec : List β → Option (α × List β))
    (hdec : ∀ a rest, ok a → dec (enc a ++ rest) = some (a, rest)) : IsPrefixCode ok enc := by
  intro a b rest rest' ha hb heq
  have h := hdec a rest ha
  rw [heq, hdec b rest' hb] at h
  simpa [eq_comm] using h

theorem begins_cons {w : α} {words : List α} {data : List β} :
    Begins ok enc (w :: words) data ↔
      ok w ∧ ∃ rest, data = enc w ++ rest ∧ Begins ok enc words rest := by
  constructor
  · rintro ⟨hok, rest, rfl⟩
    refine ⟨hok w List.mem_cons_self, words.flatMap enc ++ rest, by simp, ?_, rest, rfl⟩
    exact fun v hv => hok v (List.mem_cons_of_mem _ hv)
  · rintro ⟨hw, rest, rfl, hok, tail, rfl⟩
    refine ⟨?_, tail, by simp⟩
    intro v hv
    rcases List.mem_cons.mp hv with rfl | hv
    · exact hw
    · exact hok v hv

theorem IsPrefixCode.words_unique (h : IsPrefixCode ok enc) {ws ws' : List α} {data : List β}
    (hws : Begins ok enc ws data) (hws' : Begins ok enc ws' data)
    (hlen : ws.length = ws'.length) : ws = ws' := by
  induction ws generalizing ws' data with
  | nil => exact (List.length_eq_zero_iff.mp hlen.symm).symm
  | cons w ws ih =>
    cases ws' with
    | nil => exact absurd hlen (by simp)
    | cons w' ws' =>
      obtain ⟨hw, rest, rfl, htail⟩ := begins_cons.mp hws
      obtain ⟨hw', rest', heq, htail'⟩ := begins_cons.mp hws'
      obtain ⟨rfl, rfl⟩ := h w w' rest rest' hw hw' heq
      rw [ih htail htail' (by simpa using hlen)]

theorem IsPrefixCode.not_begins (h : IsPrefixCode ok enc) {ws ws' : List α} {data : List β}
    (hok : ∀ w ∈ ws, ok w) (hpre : data <+: ws.flatMap enc) (hne : data ≠ ws.flatMap enc)
    (hlen : ws'.length = ws.length) : ¬ Begins ok enc ws' data := by
  intro hws'
  have hall : ws' = ws := h.words_unique ⟨hws'.1, hws'.2.trans hpre⟩ ⟨hok, List.prefix_rfl⟩ hlen
  rw [hall] at hws'
  exact hne (hpre.eq_of_length_le hws'.2.length_le)

end PrefixCode
