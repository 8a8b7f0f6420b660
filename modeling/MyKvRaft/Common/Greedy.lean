import Mathlib.Tactic

/-!
# Greedy descent in a graph

From a vertex, look at its neighbours one after another and go to every one that is nearer
than the last; start again from where this leads, until a round changes nothing.

* `descend_ok`: with enough fuel the descent ends, if it can reach finitely many vertices.
* `descend_spec`: it ends in a vertex that can be reached, none of whose neighbours is nearer.
-/

/-- What a descent runs on. `links` may fail, and `tooLong` is the failure of a descent that does
    not end. -/
structure Greedy (V D ε : Type*) where
  lt : D → D → Bool
  links : V → Except ε (List V)
  dist : V → D
  tooLong : ε
  irrefl : ∀ d, lt d d = false
  trans : ∀ a b c, lt a b = true → lt b c = true → lt a c = true

namespace Greedy

variable {V D ε : Type*} (G : Greedy V D ε)

/-- The current vertex and its distance, and whether this round has changed them. -/
structure State (V D : Type*) where
  currObj : V
  curdist : D
  changed : Bool

/-- A neighbour. -/
def look (s : State V D) (cand : V) : State V D :=
  if G.lt (G.dist cand) s.curdist then ⟨cand, G.dist cand, true⟩ else s

def descend : ℕ → V → D → Except ε (V × D)
  | 0, _, _ => .error G.tooLong
  | fuel + 1, currObj, curdist =>
    match G.links currObj with
    | .error e => .error e
    | .ok l =>
      let s := l.foldl G.look ⟨currObj, curdist, false⟩
      if s.changed then descend fuel s.currObj s.curdist else .ok (s.currObj, s.curdist)

def Reaches (v w : V) : Prop :=
  Relation.ReflTransGen (fun v c => ∃ l, G.links v = .ok l ∧ c ∈ l) v w

/-- The vertices of `U` have neighbours, all of them in `U`. -/
def Closed (U : Finset V) : Prop := ∀ v ∈ U, ∃ l, G.links v = .ok l ∧ ∀ c ∈ l, c ∈ U

variable {G} {v : V} {d : D}

/-- A round has either changed nothing and found nothing nearer, or has ended in a nearer
    neighbour. -/
theorem foldl_look (l : List V) (s : State V D) :
    (l.foldl G.look s = s ∧ ∀ c ∈ l, G.lt (G.dist c) s.curdist = false) ∨
    ∃ c ∈ l, l.foldl G.look s = ⟨c, G.dist c, true⟩ ∧ G.lt (G.dist c) s.curdist = true := by
  induction l generalizing s with
  | nil => exact .inl ⟨rfl, fun c hc => absurd hc List.not_mem_nil⟩
  | cons c l ih =>
    rw [List.foldl_cons]
    by_cases hc : G.lt (G.dist c) s.curdist = true
    · right
      have hlook : G.look s c = ⟨c, G.dist c, true⟩ := if_pos hc
      rw [hlook]
      obtain ⟨heq, _⟩ | ⟨c', hc', heq, hlt⟩ := ih ⟨c, G.dist c, true⟩
      · exact ⟨c, List.mem_cons_self .., heq, hc⟩
      · exact ⟨c', List.mem_cons_of_mem _ hc', heq, G.trans _ _ _ hlt hc⟩
    · have hlook : G.look s c = s := if_neg hc
      rw [hlook]
      rw [Bool.not_eq_true] at hc
      refine (ih s).imp (fun ⟨heq, hall⟩ => ⟨heq, ?_⟩) fun ⟨c', hc', heq, hlt⟩ => ?_
      · exact List.forall_mem_cons.mpr ⟨hc, hall⟩
      · exact ⟨c', List.mem_cons_of_mem _ hc', heq, hlt⟩

theorem descend_spec {fuel : ℕ} {w : V} {e : D} (hd : d = G.dist v)
    (h : G.descend fuel v d = .ok (w, e)) :
    e = G.dist w ∧ G.Reaches v w ∧
      ∀ l, G.links w = .ok l → ∀ c ∈ l, G.lt (G.dist c) (G.dist w) = false := by
  induction fuel generalizing v d with
  | zero => cases h
  | succ fuel ih =>
    unfold descend at h
    cases hl : G.links v with
    | error e => rw [hl] at h; cases h
    | ok l =>
      rw [hl] at h
      dsimp only at h
      obtain ⟨heq, hall⟩ | ⟨c, hc, heq, _⟩ := foldl_look (G := G) l ⟨v, d, false⟩
      · rw [heq] at h
        obtain ⟨rfl, rfl⟩ : v = w ∧ d = e := by simpa using h
        refine ⟨hd, .refl, fun l' hl' => ?_⟩
        rw [hl] at hl'
        cases hl'
        rw [← hd]
        exact hall
      · rw [heq] at h
        obtain ⟨he, hreach, hmin⟩ := ih rfl h
        exact ⟨he, .head ⟨l, hl, hc⟩ hreach, hmin⟩

/-- Every round but the last leaves fewer vertices that are nearer than the current one. -/
theorem descend_ok {U : Finset V} (hU : G.Closed U) (hv : v ∈ U) (fuel : ℕ)
    (hfuel : (U.filter fun u => G.lt (G.dist u) d = true).card < fuel) :
    ∃ w e, G.descend fuel v d = .ok (w, e) := by
  induction fuel generalizing v d with
  | zero => cases hfuel
  | succ fuel ih =>
    obtain ⟨l, hl, hsub⟩ := hU v hv
    unfold descend
    rw [hl]
    dsimp only
    obtain ⟨heq, _⟩ | ⟨c, hc, heq, hlt⟩ := foldl_look (G := G) l ⟨v, d, false⟩
    · exact ⟨v, d, by rw [heq]; rfl⟩
    · rw [heq, if_pos rfl]
      refine ih (hsub c hc) (lt_of_lt_of_le (Finset.card_lt_card ?_) (Nat.le_of_lt_succ hfuel))
      refine ⟨fun u hu => ?_, fun hle => ?_⟩
      · rw [Finset.mem_filter] at hu ⊢
        exact ⟨hu.1, G.trans _ _ _ hu.2 hlt⟩
      · have hmem := hle (Finset.mem_filter.mpr ⟨hsub c hc, hlt⟩)
        rw [Finset.mem_filter, G.irrefl] at hmem
        cases hmem.2

end Greedy
