import Mathlib.Tactic

/-!
# What a computation that may fail ensures

`m.Ensures Q E` is the triple of a computation in `Except`: a result has `Q`, and a
failure has `E`.

* `ensures_bind`, `ensures_foldlM`: the rules for what comes one after the other and for a loop.
* `forDown`, `ensures_forDown`: a loop over numbers that go down, and its rule.
-/

namespace Except

universe u v

variable {ε : Type v} {α β σ : Type u}

def Ensures (m : Except ε α) (Q : α → Prop) (E : ε → Prop) : Prop :=
  match m with
  | .ok a => Q a
  | .error e => E e

variable {m : Except ε α} {Q : α → Prop} {E : ε → Prop}

@[simp] theorem ensures_ok {a : α} : (Except.ok a : Except ε α).Ensures Q E ↔ Q a :=
  Iff.rfl

@[simp] theorem ensures_pure {a : α} : (pure a : Except ε α).Ensures Q E ↔ Q a := Iff.rfl

@[simp] theorem ensures_error {e : ε} :
    (Except.error e : Except ε α).Ensures Q E ↔ E e := Iff.rfl

theorem Ensures.mono {Q' : α → Prop} {E' : ε → Prop} (h : m.Ensures Q E)
    (hpost : ∀ a, Q a → Q' a) (hfail : ∀ e, E e → E' e) : m.Ensures Q' E' := by
  cases m with
  | ok a => exact hpost a h
  | error e => exact hfail e h

theorem Ensures.of_eq_error (h : m.Ensures Q E) {e : ε} (he : m = .error e) : E e := by
  subst he
  exact h

/-- A computation that cannot fail. -/
theorem Ensures.exists_ok (h : m.Ensures Q fun _ => False) : ∃ a, m = .ok a ∧ Q a := by
  cases m with
  | ok a => exact ⟨a, rfl, h⟩
  | error e => exact h.elim

theorem ensures_of_eq {a : α} (h : m = .ok a) (ha : Q a) : m.Ensures Q E := by
  subst h
  exact ha

theorem ensures_bind {f : α → Except ε β} {Q' : β → Prop} (h : m.Ensures Q E)
    (hf : ∀ a, Q a → (f a).Ensures Q' E) : (m >>= f).Ensures Q' E := by
  cases m with
  | ok a => exact hf a h
  | error e => exact h

theorem ensures_map {f : α → β} {Q' : β → Prop} (h : m.Ensures (fun a => Q' (f a)) E) :
    (m.map f).Ensures Q' E := by
  cases m with
  | ok a => exact h
  | error e => exact h

/-- A loop over a list, with an invariant about what is still to come. -/
theorem ensures_foldlM {f : σ → α → Except ε σ} {I : List α → σ → Prop}
    (hstep : ∀ a l s, I (a :: l) s → (f s a).Ensures (I l) E) {l : List α} {s : σ}
    (h : I l s) : (l.foldlM f s).Ensures (I []) E := by
  induction l generalizing s with
  | nil => exact h
  | cons a l ih =>
    rw [List.foldlM_cons]
    exact ensures_bind (hstep a l s h) fun s' hs' => ih hs'

theorem ensures_mapM {f : α → Except ε β} {R : β → Prop} {l : List α}
    (h : ∀ a ∈ l, (f a).Ensures R E) : (l.mapM f).Ensures (fun bs => ∀ b ∈ bs, R b) E := by
  induction l with
  | nil => exact ensures_pure.mpr fun b hb => absurd hb List.not_mem_nil
  | cons a l ih =>
    rw [List.mapM_cons]
    refine ensures_bind (h a (List.mem_cons_self ..)) fun b hb => ?_
    refine ensures_bind (ih fun a' ha' => h a' (List.mem_cons_of_mem _ ha')) fun bs hbs => ?_
    exact ensures_pure.mpr (List.forall_mem_cons.mpr ⟨hb, hbs⟩)

/-- `for (i = lo + n - 1; i >= lo; i--)`. -/
def forDown (f : σ → ℕ → Except ε σ) (lo : ℕ) : ℕ → σ → Except ε σ
  | 0, s => .ok s
  | n + 1, s => do
    let s ← f s (lo + n)
    forDown f lo n s

/-- An invariant that may depend on how many turns are left. -/
theorem ensures_forDown {f : σ → ℕ → Except ε σ} {lo : ℕ} {I : ℕ → σ → Prop}
    (hstep : ∀ n s, I (n + 1) s → (f s (lo + n)).Ensures (I n) E) {n : ℕ} {s : σ} (h : I n s) :
    (forDown f lo n s).Ensures (I 0) E := by
  induction n generalizing s with
  | zero => exact h
  | succ n ih => exact ensures_bind (hstep n s h) fun s' hs' => ih hs'

end Except
