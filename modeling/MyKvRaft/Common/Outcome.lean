import Mathlib.Tactic

/-!
# Operations that may throw

An operation on an object returns or throws, and the object is in some state either way.

* `observe`: what a caller that catches every exception sees of a sequence of operations.
* `observe_congr`: two states see the same, if a relation between them implies that they look
  the same and is kept by every operation.
-/

/-- How an operation ends, with the state it leaves behind. -/
inductive Outcome (σ : Type*) where
  | returned (s : σ)
  | threw (s : σ)

namespace Outcome

variable {σ τ α β : Type*}

def state : Outcome σ → σ
  | returned s => s
  | threw s => s

def hasThrown : Outcome σ → Bool
  | returned _ => false
  | threw _ => true

/-- The operation as part of one on a larger object. -/
def map (f : σ → τ) : Outcome σ → Outcome τ
  | returned s => returned (f s)
  | threw s => threw (f s)

/-- What comes after the operation, unless it throws. -/
def andThen (o : Outcome σ) (f : σ → Outcome σ) : Outcome σ :=
  match o with
  | returned s => f s
  | threw s => threw s

/-- An operation that leaves `left` behind when it throws. -/
def ofOption (left : σ) : Option σ → Outcome σ
  | some s => returned s
  | none => threw left

/-- For every operation whether it throws, and how the state looks that it leaves behind. -/
def observe (run : σ → α → Outcome σ) (view : σ → β) : σ → List α → List (Bool × β)
  | _, [] => []
  | s, a :: as => ((run s a).hasThrown, view (run s a).state) :: observe run view (run s a).state as

theorem eq_threw {o : Outcome σ} (h : o.hasThrown = true) : o = threw o.state := by
  cases o with
  | returned s => cases h
  | threw s => rfl

theorem map_eq_threw {f : σ → τ} {o : Outcome σ} {t : τ} :
    o.map f = threw t ↔ ∃ s, o = threw s ∧ f s = t := by
  cases o <;> simp [map]

theorem map_ofOption_eq_returned {f : σ → τ} {left : σ} {x : Option σ} {t : τ} :
    (ofOption left x).map f = returned t ↔ x.map f = some t := by
  cases x <;> simp [ofOption, map]

theorem observe_congr {run : σ → α → Outcome σ} {view : σ → β} {R : σ → σ → Prop}
    (hview : ∀ s t, R s t → view s = view t)
    (hstep : ∀ s t a, R s t → (run s a).hasThrown = (run t a).hasThrown ∧
      R (run s a).state (run t a).state)
    {s t : σ} (h : R s t) (as : List α) : observe run view s as = observe run view t as := by
  induction as generalizing s t with
  | nil => rfl
  | cons a as ih =>
    obtain ⟨hthrown, hnext⟩ := hstep s t a h
    unfold observe
    rw [hthrown, hview _ _ hnext, ih hnext]

end Outcome
