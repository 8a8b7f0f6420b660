import Mathlib.Tactic

/-!
# Priority queues

A queue is a collection with an element on top that no other element is above; which one
that is among several is up to the queue. Its contents are a list whose order is up to the
queue as well.

* `toList_perm`, `toList_sorted`: emptying a queue gives its elements in descending order.
* `shrink_spec`: popping until `k` elements are left keeps the `k` smallest.
* `PriorityQueue.ofList`: a queue for every comparison.
-/

variable {α β : Type*}

/-- A comparison under which "neither is less" is an equivalence. -/
structure StrictWeak (lt : α → α → Bool) : Prop where
  asymm : ∀ a b, lt a b = true → lt b a = false
  neg_trans : ∀ a b c, lt a b = false → lt b c = false → lt a c = false

namespace StrictWeak

variable {lt : α → α → Bool}

theorem irrefl (h : StrictWeak lt) (a : α) : lt a a = false := by
  by_contra ha
  rw [Bool.not_eq_false] at ha
  rw [h.asymm a a ha] at ha
  cases ha

theorem trans (h : StrictWeak lt) {a b c : α} (hab : lt a b = true) (hbc : lt b c = true) :
    lt a c = true := by
  by_contra hac
  rw [Bool.not_eq_true] at hac
  rw [h.neg_trans b a c (h.asymm a b hab) hac] at hbc
  cases hbc

/-- The comparison the other way. -/
theorem swap (h : StrictWeak lt) : StrictWeak fun a b => lt b a :=
  ⟨fun a b hab => h.asymm b a hab, fun a b c hab hbc => h.neg_trans c b a hbc hab⟩

/-- The comparison of what two elements are mapped to. -/
theorem comap (h : StrictWeak lt) (f : β → α) : StrictWeak fun a b => lt (f a) (f b) :=
  ⟨fun a b => h.asymm (f a) (f b), fun a b c => h.neg_trans (f a) (f b) (f c)⟩

/-- The lexicographic comparison of pairs. -/
theorem lex (h : StrictWeak lt) {lt' : β → β → Bool} (h' : StrictWeak lt') :
    StrictWeak fun a b : α × β => lt a.1 b.1 || (!lt b.1 a.1 && lt' a.2 b.2) := by
  constructor
  · intro a b hab
    simp only [Bool.or_eq_true, Bool.and_eq_true, Bool.not_eq_true', Bool.or_eq_false_iff,
      Bool.and_eq_false_iff, Bool.not_eq_false'] at hab ⊢
    obtain hlt | ⟨hle, hlt⟩ := hab
    · exact ⟨h.asymm _ _ hlt, .inl hlt⟩
    · exact ⟨hle, .inr (h'.asymm _ _ hlt)⟩
  · intro a b c hab hbc
    simp only [Bool.or_eq_false_iff, Bool.and_eq_false_iff, Bool.not_eq_false'] at hab hbc ⊢
    refine ⟨h.neg_trans _ _ _ hab.1 hbc.1, ?_⟩
    -- `c` is below `a` in the first component as soon as one of the two steps is strict
    obtain hba | hab' := hab.2
    · left
      by_contra hca
      rw [Bool.not_eq_true] at hca
      rw [h.neg_trans _ _ _ hbc.1 hca] at hba
      cases hba
    · obtain hcb | hbc' := hbc.2
      · left
        by_contra hca
        rw [Bool.not_eq_true] at hca
        rw [h.neg_trans _ _ _ hca hab.1] at hcb
        cases hcb
      · exact .inr (h'.neg_trans _ _ _ hab' hbc')

theorem strictWeak_of_linearOrder [LinearOrder α] :
    StrictWeak fun a b : α => decide (a < b) := by
  refine ⟨fun a b hab => ?_, fun a b c hab hbc => ?_⟩
  · rw [decide_eq_true_eq] at hab
    exact decide_eq_false hab.not_gt
  · rw [decide_eq_false_iff_not, not_lt] at hab hbc ⊢
    exact hbc.trans hab

end StrictWeak

/-- A priority queue of a container type: which element is on top, and what is left without it. -/
structure PriorityQueue (α : Type*) (lt : α → α → Bool) where
  emplace : List α → α → List α
  top : List α → Option α
  pop : List α → List α
  emplace_perm : ∀ q x, (emplace q x).Perm (x :: q)
  top_nil : top [] = none
  top_pop : ∀ q, q ≠ [] → ∃ x, top q = some x ∧ q.Perm (x :: pop q)
  top_max : StrictWeak lt → ∀ q x, top q = some x → ∀ y ∈ q, lt x y = false

theorem List.Subperm.nodup_map {l₁ l₂ : List α} (h : l₁.Subperm l₂) {f : α → β}
    (hl : (l₂.map f).Nodup) : (l₁.map f).Nodup := by
  obtain ⟨l, hperm, hsub⟩ := h
  exact (hperm.map f).nodup_iff.mp (hl.sublist (hsub.map f))

/-- A rearrangement of what a list is mapped to comes from one of the list. -/
theorem List.Perm.exists_map {f : α → β} {m : List α} {l : List β} (h : l.Perm (m.map f)) :
    ∃ m' : List α, m'.Perm m ∧ m'.map f = l := by
  induction m generalizing l with
  | nil => exact ⟨[], List.Perm.refl _, h.eq_nil.symm⟩
  | cons a m ih =>
    obtain ⟨s, t, rfl⟩ := List.append_of_mem (h.mem_iff.mpr (List.mem_cons_self ..))
    have hrest : (s ++ t).Perm (m.map f) := (List.perm_middle.symm.trans h).cons_inv
    obtain ⟨m', hperm, hmap⟩ := ih hrest
    obtain ⟨m₁, m₂, rfl, rfl, rfl⟩ := List.map_eq_append_iff.mp hmap
    exact ⟨m₁ ++ a :: m₂, List.perm_middle.trans (hperm.cons a), by simp⟩

namespace PriorityQueue

variable {lt : α → α → Bool} (Q : PriorityQueue α lt) {q : List α} {x : α}

theorem mem_emplace {y : α} : y ∈ Q.emplace q x ↔ y = x ∨ y ∈ q := by
  rw [(Q.emplace_perm q x).mem_iff, List.mem_cons]

@[simp] theorem length_emplace : (Q.emplace q x).length = q.length + 1 := by
  rw [(Q.emplace_perm q x).length_eq, List.length_cons]

theorem emplace_ne_nil : Q.emplace q x ≠ [] := by
  intro h
  have := Q.length_emplace (q := q) (x := x)
  rw [h] at this
  cases this

theorem perm_of_top (h : Q.top q = some x) : q.Perm (x :: Q.pop q) := by
  have hne : q ≠ [] := by
    rintro rfl
    rw [Q.top_nil] at h
    cases h
  obtain ⟨y, hy, hperm⟩ := Q.top_pop q hne
  rw [h] at hy
  cases hy
  exact hperm

theorem top_eq_none : Q.top q = none ↔ q = [] := by
  constructor
  · intro h
    by_contra hne
    obtain ⟨x, hx, _⟩ := Q.top_pop q hne
    rw [h] at hx
    cases hx
  · rintro rfl
    exact Q.top_nil

theorem mem_of_top (h : Q.top q = some x) : x ∈ q :=
  (Q.perm_of_top h).mem_iff.mpr (List.mem_cons_self ..)

theorem length_pop (h : Q.top q = some x) : q.length = (Q.pop q).length + 1 := by
  rw [(Q.perm_of_top h).length_eq, List.length_cons]

/-! ## Emptying a queue -/

/-- What comes off the top of a queue, up to `n` elements. -/
def drain : ℕ → List α → List α
  | 0, _ => []
  | n + 1, q =>
    match Q.top q with
    | none => []
    | some x => x :: drain n (Q.pop q)

/-- All that comes off the top of a queue: `while (q.size() > 0)`. -/
def toList (q : List α) : List α := Q.drain q.length q

theorem drain_perm {n : ℕ} (h : q.length = n) : (Q.drain n q).Perm q := by
  induction n generalizing q with
  | zero =>
    rw [List.length_eq_zero_iff] at h
    subst h
    exact List.Perm.refl _
  | succ n ih =>
    unfold drain
    cases htop : Q.top q with
    | none =>
      rw [Q.top_eq_none] at htop
      subst htop
      cases h
    | some x =>
      have hlen : (Q.pop q).length = n := by
        have := Q.length_pop htop
        omega
      exact ((ih hlen).cons x).trans (Q.perm_of_top htop).symm

theorem toList_perm (q : List α) : (Q.toList q).Perm q := Q.drain_perm rfl

@[simp] theorem mem_toList {y : α} : y ∈ Q.toList q ↔ y ∈ q := (Q.toList_perm q).mem_iff

@[simp] theorem length_toList : (Q.toList q).length = q.length := (Q.toList_perm q).length_eq

theorem drain_sorted (hlt : StrictWeak lt) {n : ℕ} (h : q.length = n) :
    (Q.drain n q).Pairwise fun a b => lt a b = false := by
  induction n generalizing q with
  | zero => exact List.Pairwise.nil
  | succ n ih =>
    unfold drain
    cases htop : Q.top q with
    | none => exact List.Pairwise.nil
    | some x =>
      have hlen : (Q.pop q).length = n := by
        have := Q.length_pop htop
        omega
      refine List.pairwise_cons.mpr ⟨fun y hy => ?_, ih hlen⟩
      have hmem : y ∈ Q.pop q := (Q.drain_perm hlen).mem_iff.mp hy
      exact Q.top_max hlt q x htop y
        ((Q.perm_of_top htop).mem_iff.mpr (List.mem_cons_of_mem _ hmem))

theorem toList_sorted (hlt : StrictWeak lt) (q : List α) :
    (Q.toList q).Pairwise fun a b => lt a b = false := Q.drain_sorted hlt rfl

/-- A queue filled with the elements of a list. -/
def ofElements (xs : List α) : List α := xs.foldl Q.emplace []

theorem foldl_emplace_perm (xs q : List α) : (xs.foldl Q.emplace q).Perm (xs ++ q) := by
  induction xs generalizing q with
  | nil => exact List.Perm.refl _
  | cons x xs ih =>
    calc ((x :: xs).foldl Q.emplace q).Perm (xs ++ Q.emplace q x) := ih (Q.emplace q x)
      _ |>.Perm (xs ++ x :: q) := (Q.emplace_perm q x).append_left xs
      _ |>.Perm (x :: xs ++ q) := List.perm_middle

theorem ofElements_perm (xs : List α) : (Q.ofElements xs).Perm xs := by
  have h := Q.foldl_emplace_perm xs []
  rwa [List.append_nil] at h

/-! ## Popping the excess -/

/-- `while (q.size() > k) q.pop()`. -/
def shrink (k : ℕ) (q : List α) : List α := Q.pop^[q.length - k] q

/-- What is left, and what has been popped. -/
theorem iterate_pop_spec (n : ℕ) (h : n ≤ q.length) :
    ∃ out : List α, out.length = n ∧ q.Perm (out ++ Q.pop^[n] q) ∧
      (StrictWeak lt → ∀ x ∈ out, ∀ y ∈ Q.pop^[n] q, lt x y = false) := by
  induction n generalizing q with
  | zero => exact ⟨[], rfl, List.Perm.refl _, fun _ x hx => absurd hx List.not_mem_nil⟩
  | succ n ih =>
    cases htop : Q.top q with
    | none =>
      rw [Q.top_eq_none] at htop
      subst htop
      exact absurd h (by simp)
    | some x =>
      have hlen := Q.length_pop htop
      obtain ⟨out, hout, hperm, hmax⟩ := ih (q := Q.pop q) (by omega)
      rw [Function.iterate_succ_apply]
      refine ⟨x :: out, by simp [hout], (Q.perm_of_top htop).trans (hperm.cons x), ?_⟩
      intro hlt z hz y hy
      obtain rfl | hz := List.mem_cons.mp hz
      · refine Q.top_max hlt q z htop y ((Q.perm_of_top htop).mem_iff.mpr ?_)
        exact List.mem_cons_of_mem _ (hperm.mem_iff.mpr (List.mem_append_right _ hy))
      · exact hmax hlt z hz y hy

theorem shrink_spec (k : ℕ) (q : List α) :
    ∃ out : List α, q.Perm (out ++ Q.shrink k q) ∧ (Q.shrink k q).length = min k q.length ∧
      (StrictWeak lt → ∀ x ∈ out, ∀ y ∈ Q.shrink k q, lt x y = false) := by
  obtain ⟨out, hout, hperm, hmax⟩ := Q.iterate_pop_spec (q := q) (q.length - k) (by omega)
  refine ⟨out, hperm, ?_, hmax⟩
  have hlen := hperm.length_eq
  rw [List.length_append, hout] at hlen
  unfold shrink
  omega

theorem shrink_subperm (k : ℕ) (q : List α) : (Q.shrink k q).Subperm q := by
  obtain ⟨out, hperm, _, _⟩ := Q.shrink_spec k q
  exact (List.sublist_append_right out _).subperm.trans hperm.symm.subperm

theorem length_shrink (k : ℕ) (q : List α) : (Q.shrink k q).length = min k q.length := by
  obtain ⟨_, _, hlen, _⟩ := Q.shrink_spec k q
  exact hlen

/-- An element that is gone is not below any that is left, and `k` are left. -/
theorem mem_shrink_or (k : ℕ) {y : α} (hy : y ∈ q) :
    y ∈ Q.shrink k q ∨ ((Q.shrink k q).length = k ∧
      (StrictWeak lt → ∀ z ∈ Q.shrink k q, lt y z = false)) := by
  obtain ⟨out, hperm, hlen, hmax⟩ := Q.shrink_spec k q
  obtain hout | hleft := List.mem_append.mp (hperm.mem_iff.mp hy)
  · refine .inr ⟨?_, fun hlt => hmax hlt y hout⟩
    have hsum := hperm.length_eq
    rw [List.length_append] at hsum
    have hpos := List.length_pos_of_mem hout
    omega
  · exact .inl hleft

/-! ## An instance -/

/-- The first element of a list that is above those before it, and the others. -/
def extract (lt : α → α → Bool) : α → List α → α × List α
  | m, [] => (m, [])
  | m, y :: ys =>
    if lt m y then ((extract lt y ys).1, m :: (extract lt y ys).2)
    else ((extract lt m ys).1, y :: (extract lt m ys).2)

theorem extract_perm (lt : α → α → Bool) (m : α) (ys : List α) :
    (m :: ys).Perm ((extract lt m ys).1 :: (extract lt m ys).2) := by
  induction ys generalizing m with
  | nil => exact List.Perm.refl _
  | cons y ys ih =>
    unfold extract
    split_ifs
    · exact ((ih y).cons m).trans (List.Perm.swap ..)
    · exact (List.Perm.swap ..).trans (((ih m).cons y).trans (List.Perm.swap ..))

theorem extract_max {lt : α → α → Bool} (hlt : StrictWeak lt) (m : α) (ys : List α) :
    ∀ z ∈ m :: ys, lt (extract lt m ys).1 z = false := by
  induction ys generalizing m with
  | nil =>
    intro z hz
    rw [List.mem_singleton] at hz
    subst hz
    exact hlt.irrefl z
  | cons y ys ih =>
    intro z hz
    unfold extract
    split_ifs with hmy
    · obtain rfl | hz := List.mem_cons.mp hz
      · exact hlt.neg_trans _ _ _ (ih y y (List.mem_cons_self ..)) (hlt.asymm _ _ hmy)
      · exact ih y z hz
    · rw [Bool.not_eq_true] at hmy
      obtain rfl | hz := List.mem_cons.mp hz
      · exact ih z z (List.mem_cons_self ..)
      · obtain rfl | hz := List.mem_cons.mp hz
        · exact hlt.neg_trans _ _ _ (ih m m (List.mem_cons_self ..)) hmy
        · exact ih m z (List.mem_cons_of_mem _ hz)

/-- The queue that looks through its elements for the one on top. -/
def ofList (lt : α → α → Bool) : PriorityQueue α lt where
  emplace q x := x :: q
  top
    | [] => none
    | m :: ys => some (extract lt m ys).1
  pop
    | [] => []
    | m :: ys => (extract lt m ys).2
  emplace_perm _ _ := List.Perm.refl _
  top_nil := rfl
  top_pop q hne := by
    cases q with
    | nil => exact absurd rfl hne
    | cons m ys => exact ⟨_, rfl, extract_perm lt m ys⟩
  top_max hlt q x htop := by
    cases q with
    | nil => cases htop
    | cons m ys =>
      cases htop
      exact extract_max hlt m ys

end PriorityQueue
