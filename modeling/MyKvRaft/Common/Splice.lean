import Mathlib.Tactic

/-!
# Writing a block over a list

`splice l k xs` is `l` with the block `xs` written over it from position `k` on: what lies
in front of the block and what lies behind it stays, and the list grows if the block is
longer than what is left of it.

* `getElem?_splice_lt`, `getElem?_splice_add`, `getElem?_splice_ge`: what stands in front of
  the block, in it and behind it.
* `splice_cons`: writing a block is writing its head and then its tail.
-/

namespace Splice

variable {α : Type*} {l xs : List α} {k j : ℕ}

def splice (l : List α) (k : ℕ) (xs : List α) : List α :=
  l.take k ++ xs ++ l.drop (k + xs.length)

@[simp] theorem splice_nil (l : List α) (k : ℕ) : splice l k [] = l := by
  simp [splice]

theorem length_splice (hk : k ≤ l.length) (xs : List α) :
    (splice l k xs).length = max l.length (k + xs.length) := by
  unfold splice
  rw [List.length_append, List.length_append, List.length_take, List.length_drop]
  omega

theorem getElem?_splice_lt (hk : k ≤ l.length) (hj : j < k) : (splice l k xs)[j]? = l[j]? := by
  have hlen : j < (l.take k).length := by
    rw [List.length_take]
    omega
  unfold splice
  rw [List.append_assoc, List.getElem?_append_left hlen, List.getElem?_take_of_lt hj]

theorem getElem?_splice_add (hk : k ≤ l.length) (hj : j < xs.length) :
    (splice l k xs)[k + j]? = xs[j]? := by
  have hlen : (l.take k).length = k := by
    rw [List.length_take]
    omega
  unfold splice
  rw [List.append_assoc, List.getElem?_append_right (by omega), hlen, Nat.add_sub_cancel_left,
    List.getElem?_append_left hj]

theorem getElem?_splice_ge (hk : k ≤ l.length) (hj : k + xs.length ≤ j) :
    (splice l k xs)[j]? = l[j]? := by
  have hlen : (l.take k ++ xs).length = k + xs.length := by
    rw [List.length_append, List.length_take]
    omega
  unfold splice
  rw [List.getElem?_append_right (by omega), hlen, List.getElem?_drop]
  congr 1
  omega

/-- The first element is written, then the others behind it. -/
theorem splice_cons (hk : k ≤ l.length) (x : α) (xs : List α) :
    splice (splice l k [x]) (k + 1) xs = splice l k (x :: xs) := by
  have hlen : (splice l k [x]).length = max l.length (k + 1) := length_splice hk [x]
  have hk' : k + 1 ≤ (splice l k [x]).length := by omega
  refine List.ext_getElem? fun j => ?_
  rcases lt_or_ge j k with hj | hj
  · rw [getElem?_splice_lt hk' (by omega), getElem?_splice_lt hk hj, getElem?_splice_lt hk hj]
  obtain ⟨m, rfl⟩ : ∃ m, j = k + m := ⟨j - k, by omega⟩
  cases m with
  | zero =>
    rw [getElem?_splice_lt hk' (by omega), getElem?_splice_add hk (by simp),
      getElem?_splice_add hk (by simp)]
    rfl
  | succ m =>
    rcases lt_or_ge m xs.length with hm | hm
    · rw [getElem?_splice_add hk (by simpa using hm),
        show k + (m + 1) = k + 1 + m by omega, getElem?_splice_add hk' hm,
        List.getElem?_cons_succ]
    · rw [getElem?_splice_ge hk' (by omega), getElem?_splice_ge hk (by simp),
        getElem?_splice_ge hk (by simp only [List.length_cons]; omega)]

end Splice
