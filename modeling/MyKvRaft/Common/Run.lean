import Mathlib.Tactic

/-!
# Runs of a transition system

A system is a total function `step : σ → α → σ`: the scheduler picks the
action `α`, and an action that is not enabled leaves the state as it is.

* `Run step ok init h s`: `s` is reached from `init` along the steps `h`, each
  of which meets the condition `ok` on the state before it and the action.
* `Run.invariant`: a predicate kept by every step holds where a run ends.
* `Run.simulate`: a run carries an abstract state along, and facts about single
  steps that the abstract state never forgets hold of all of them at the end.
* `foldlM_snoc`, `foldlM_invariant`: the same for steps that may fail.
-/

namespace Transition

variable {σ α γ : Type*}

/-- `Run step ok init h s`: the run that starts in `init`, takes the steps `h`
    (each the state before it and its action, first step first) and ends in
    `s`; every step meets `ok`. -/
inductive Run (step : σ → α → σ) (ok : σ → α → Prop) (init : σ) : List (σ × α) → σ → Prop
  | nil : Run step ok init [] init
  | snoc {h : List (σ × α)} {s : σ} {a : α} : Run step ok init h s → ok s a →
      Run step ok init (h ++ [(s, a)]) (step s a)

/-- The condition met by every step. -/
def anyStep (_ : σ) (_ : α) : Prop := True

/-- The steps taken from `s` under a list of actions. -/
def history (step : σ → α → σ) : σ → List α → List (σ × α)
  | _, [] => []
  | s, a :: as => (s, a) :: history step (step s a) as

variable {step : σ → α → σ} {ok : σ → α → Prop} {init : σ}

theorem Run.invariant {I : σ → Prop} (h0 : I init)
    (hstep : ∀ s a, I s → ok s a → I (step s a)) {h : List (σ × α)} {s : σ}
    (hr : Run step ok init h s) : I s := by
  induction hr with
  | nil => exact h0
  | snoc _ hok ih => exact hstep _ _ ih hok

/-- A weaker condition allows more runs. -/
theorem Run.mono {ok' : σ → α → Prop} (hle : ∀ s a, ok s a → ok' s a) {h : List (σ × α)} {s : σ}
    (hr : Run step ok init h s) : Run step ok' init h s := by
  induction hr with
  | nil => exact .nil
  | snoc _ hok ih => exact .snoc ih (hle _ _ hok)

/-- Carry an abstract state `g` along a run. `R` ties it to the state of the
    run, `F s a g` is what it records about the step `(s, a)`, and `le` is the
    order it grows in. -/
theorem Run.simulate {R : σ → γ → Prop} {F : σ → α → γ → Prop} {le : γ → γ → Prop} {g₀ : γ}
    (h0 : R init g₀)
    (hstep : ∀ s a g, R s g → ok s a → ∃ g', le g g' ∧ R (step s a) g' ∧ F s a g')
    (hmono : ∀ s a g g', le g g' → F s a g → F s a g') {h : List (σ × α)} {s : σ}
    (hr : Run step ok init h s) : ∃ g, R s g ∧ ∀ x ∈ h, F x.1 x.2 g := by
  induction hr with
  | nil => exact ⟨g₀, h0, by simp⟩
  | @snoc h s a _ hok ih =>
    obtain ⟨g, hR, hF⟩ := ih
    obtain ⟨g', hle, hR', hFa⟩ := hstep s a g hR hok
    refine ⟨g', hR', fun x hx => ?_⟩
    rcases List.mem_append.mp hx with hx | hx
    · exact hmono _ _ _ _ hle (hF x hx)
    · rw [List.mem_singleton] at hx
      subst hx
      exact hFa

/-- What holds of all steps of a run is part of its condition. -/
theorem Run.of_forall {h : List (σ × α)} {s : σ} (hr : Run step ok init h s)
    (ok' : σ → α → Prop) (hall : ∀ x ∈ h, ok' x.1 x.2) :
    Run step (fun s a => ok s a ∧ ok' s a) init h s := by
  induction hr with
  | nil => exact .nil
  | @snoc h s a _ hok ih =>
    refine .snoc (ih fun x hx => hall x (List.mem_append_left _ hx)) ⟨hok, hall (s, a) ?_⟩
    exact List.mem_append_right _ List.mem_cons_self

theorem Run.append_history {h : List (σ × α)} {s : σ} (hr : Run step ok init h s) (as : List α)
    (hok : ∀ x ∈ history step s as, ok x.1 x.2) :
    Run step ok init (h ++ history step s as) (as.foldl step s) := by
  induction as generalizing h s with
  | nil => simpa [history] using hr
  | cons a as ih =>
    have hr' := Run.snoc hr (hok (s, a) (by simp [history]))
    have := ih hr' fun x hx => hok x (by simp [history, hx])
    simpa [history] using this

/-- Executing a list of actions whose steps all meet `ok` is a run. -/
theorem run_history (as : List α) (hok : ∀ x ∈ history step init as, ok x.1 x.2) :
    Run step ok init (history step init as) (as.foldl step init) := by
  simpa using Run.append_history (.nil : Run step ok init [] init) as hok

theorem history_snoc {s : σ} {as : List α} {a : α} :
    history step s (as ++ [a]) = history step s as ++ [(as.foldl step s, a)] := by
  induction as generalizing s with
  | nil => rfl
  | cons b as ih => simp [history, ih]

theorem mem_history_append (s : σ) (as : List α) (a : α) (bs : List α) :
    (as.foldl step s, a) ∈ history step s (as ++ a :: bs) := by
  induction as generalizing s with
  | nil => simp [history]
  | cons b as ih => simp [history, ih]

theorem mem_history_of_isPrefix {s : σ} {as bs : List α} (hpre : as <+: bs) {x : σ × α}
    (hx : x ∈ history step s as) : x ∈ history step s bs := by
  obtain ⟨more, rfl⟩ := hpre
  induction more using List.reverseRecOn with
  | nil => simpa using hx
  | append_singleton more a ih =>
    rw [← List.append_assoc, history_snoc]
    exact List.mem_append_left _ ih

theorem mem_of_mem_history {s : σ} {as : List α} {x : σ × α} (h : x ∈ history step s as) :
    x.2 ∈ as := by
  induction as generalizing s with
  | nil => cases h
  | cons b as ih =>
    rcases List.mem_cons.mp h with rfl | h
    · exact List.mem_cons_self
    · exact List.mem_cons_of_mem _ (ih h)

/-! ## Steps that may fail -/

section Partial

variable {step : σ → α → Option σ}

theorem foldlM_snoc (s : σ) (as : List α) (a : α) :
    (as ++ [a]).foldlM step s = (as.foldlM step s).bind fun s => step s a := by
  rw [List.foldlM_append]
  exact congrArg _ (funext fun s => by simp)

theorem foldlM_invariant {I : σ → Prop} (hstep : ∀ s a s', I s → step s a = some s' → I s')
    {as : List α} {s s' : σ} (h : I s) (hres : as.foldlM step s = some s') : I s' := by
  induction as generalizing s with
  | nil =>
    cases hres
    exact h
  | cons a as ih =>
    rw [List.foldlM_cons, Option.bind_eq_bind, Option.bind_eq_some_iff] at hres
    obtain ⟨s₁, h₁, h₂⟩ := hres
    exact ih (hstep s a s₁ h h₁) h₂

end Partial

end Transition
