import MyKvRaft.Common.PriorityQueue

/-!
# Best-first search with a bounded list of results

The search starts from a vertex, takes the nearest candidate again and again, and looks at
those of its neighbours it has not seen. A neighbour is taken up as long as fewer than `ef`
results are there or it is nearer than the farthest of them; only vertices that are `kept`
become results.

* `search_ok`: with enough fuel the search ends, if the vertices it can reach are finitely many.
* `Found`, `search_found`: what it returns is kept, reachable and at most `ef` in number.
* `LocallyBest`, `search_locallyBest`: no neighbour of a result would improve the results.
* `search_exact`: it finds everything, if there are not more vertices than results.
* `search_stopsEarly`: if everything is kept, it may stop before `ef` results are there.
-/

/-- What a search runs on. `links` may fail, and `tooLong` is the failure of a search that does
    not end. -/
structure BestFirst (V D ε : Type*) where
  lt : D → D → Bool
  limit : D
  farthest : PriorityQueue (D × V) fun a b => lt a.1 b.1
  nearest : PriorityQueue (D × V) fun a b => lt b.1 a.1
  links : V → Except ε (List V)
  dist : V → D
  kept : V → Bool
  ef : ℕ
  trim : List (D × V) → List (D × V)
  stopsEarly : Bool
  tooLong : ε
  trim_eq : ∀ q, q.length ≤ ef + 1 → trim q = farthest.shrink ef q

namespace BestFirst

variable {V D ε : Type*}

structure State (V D : Type*) where
  visited : List V
  candidates : List (D × V)
  top : List (D × V)
  lowerBound : D

/-- The vertices of a list of results. -/
def ids (q : List (D × V)) : List V := q.map (·.2)

variable (B : BestFirst V D ε)

def start (ep : V) : State V D :=
  if B.kept ep then
    ⟨[ep], B.nearest.emplace [] (B.dist ep, ep), B.farthest.emplace [] (B.dist ep, ep), B.dist ep⟩
  else ⟨[ep], B.nearest.emplace [] (B.limit, ep), [], B.limit⟩

/-- The results once `c` has been taken up. -/
def takeUp (s : State V D) (c : V) : List (D × V) :=
  B.trim (if B.kept c then B.farthest.emplace s.top (B.dist c, c) else s.top)

/-- Whether the search ends before the nearest candidate, which is at distance `d`. -/
def stops (s : State V D) (d : D) : Bool :=
  B.lt s.lowerBound d && (B.stopsEarly || s.top.length == B.ef)

def Reaches (ep v : V) : Prop :=
  Relation.ReflTransGen (fun v c => ∃ l, B.links v = .ok l ∧ c ∈ l) ep v

/-- What has been seen, and what of it is still to be expanded. -/
structure Walked (ep : V) (s : State V D) : Prop where
  entry : ep ∈ s.visited
  nodup : s.visited.Nodup
  reached : ∀ v ∈ s.visited, B.Reaches ep v
  candidates_nodup : (ids s.candidates).Nodup
  candidates_visited : ∀ p ∈ s.candidates, p.2 ∈ s.visited

/-- What holds without any law of the distances. -/
structure Explored (ep : V) (s : State V D) : Prop extends Walked B ep s where
  top_nodup : (ids s.top).Nodup
  top_visited : ∀ p ∈ s.top, p.2 ∈ s.visited ∧ p.1 = B.dist p.2 ∧ B.kept p.2 = true
  top_length : s.top.length ≤ B.ef
  top_pos : B.kept ep = true → 0 < s.top.length

section Loop

variable [DecidableEq V]

/-- A neighbour of the current vertex. -/
def visit (s : State V D) (c : V) : State V D :=
  if c ∈ s.visited then s
  else if s.top.length < B.ef || B.lt (B.dist c) s.lowerBound then
    { visited := c :: s.visited
      candidates := B.nearest.emplace s.candidates (B.dist c, c)
      top := B.takeUp s c
      lowerBound := match B.farthest.top (B.takeUp s c) with
        | none => s.lowerBound
        | some p => p.1 }
  else { s with visited := c :: s.visited }

def expand (s : State V D) (l : List V) : State V D :=
  l.foldl B.visit { s with candidates := B.nearest.pop s.candidates }

def loop : ℕ → State V D → Except ε (State V D)
  | 0, _ => .error B.tooLong
  | fuel + 1, s =>
    match B.nearest.top s.candidates with
    | none => .ok s
    | some p =>
      if B.stops s p.1 then .ok s
      else
        match B.links p.2 with
        | .error e => .error e
        | .ok l => loop fuel (B.expand s l)

def search (fuel : ℕ) (ep : V) : Except ε (List (D × V)) :=
  match B.loop fuel (B.start ep) with
  | .error e => .error e
  | .ok s => .ok s.top

end Loop

/-! ## What is explored -/

variable {B} {ep c : V} {s s' : State V D}

theorem ids_emplace {lt : D × V → D × V → Bool} (Q : PriorityQueue (D × V) lt) (q : List (D × V))
    (d : D) (c : V) : (ids (Q.emplace q (d, c))).Perm (c :: ids q) :=
  (Q.emplace_perm q (d, c)).map _

theorem mem_ids {q : List (D × V)} {v : V} : v ∈ ids q ↔ ∃ p ∈ q, p.2 = v := List.mem_map

theorem takeUp_eq (h : s.top.length ≤ B.ef) (c : V) : B.takeUp s c = B.farthest.shrink B.ef
    (if B.kept c then B.farthest.emplace s.top (B.dist c, c) else s.top) := by
  refine B.trim_eq _ ?_
  split_ifs
  · rw [B.farthest.length_emplace]
    omega
  · omega

/-- Where the results come from. -/
theorem mem_takeUp (h : s.top.length ≤ B.ef) {p : D × V} (hp : p ∈ B.takeUp s c) :
    p ∈ s.top ∨ (B.kept c = true ∧ p = (B.dist c, c)) := by
  rw [takeUp_eq h] at hp
  have hmem := (B.farthest.shrink_subperm _ _).subset hp
  split_ifs at hmem with hc
  · obtain rfl | hmem := B.farthest.mem_emplace.mp hmem
    · exact .inr ⟨hc, rfl⟩
    · exact .inl hmem
  · exact .inl hmem

theorem length_takeUp (h : s.top.length ≤ B.ef) : (B.takeUp s c).length ≤ B.ef := by
  rw [takeUp_eq h, B.farthest.length_shrink]
  exact Nat.min_le_left _ _

/-- The results never become fewer. -/
theorem le_length_takeUp (h : s.top.length ≤ B.ef) : s.top.length ≤ (B.takeUp s c).length := by
  rw [takeUp_eq h, B.farthest.length_shrink]
  split_ifs
  · rw [B.farthest.length_emplace]
    omega
  · omega

theorem Walked.start (ep : V) : B.Walked ep (B.start ep) := by
  unfold BestFirst.start
  split_ifs
  all_goals refine ⟨by simp, by simp, by simpa using .refl, ?_, fun p hp => ?_⟩
  · exact (ids_emplace B.nearest [] (B.dist ep) ep).nodup_iff.mpr (List.nodup_singleton ep)
  · obtain rfl | hp := B.nearest.mem_emplace.mp hp
    · exact List.mem_singleton_self _
    · cases hp
  · exact (ids_emplace B.nearest [] B.limit ep).nodup_iff.mpr (List.nodup_singleton ep)
  · obtain rfl | hp := B.nearest.mem_emplace.mp hp
    · exact List.mem_singleton_self _
    · cases hp

theorem Explored.start (hef : 0 < B.ef) (ep : V) : B.Explored ep (B.start ep) := by
  have htop : (B.start ep).top =
      if B.kept ep then B.farthest.emplace [] (B.dist ep, ep) else [] := by
    unfold BestFirst.start
    split_ifs <;> rfl
  refine ⟨.start ep, ?_, fun p hp => ?_, ?_, fun hkept => ?_⟩
  · rw [htop]
    split_ifs
    · exact (ids_emplace B.farthest [] (B.dist ep) ep).nodup_iff.mpr (List.nodup_singleton ep)
    · exact List.nodup_nil
  · rw [htop] at hp
    split_ifs at hp with hkept
    · obtain rfl | hp := B.farthest.mem_emplace.mp hp
      · exact ⟨(Walked.start ep).entry, rfl, hkept⟩
      · cases hp
    · cases hp
  · rw [htop]
    split_ifs
    · rw [B.farthest.length_emplace]
      exact hef
    · exact Nat.zero_le _
  · rw [htop, if_pos hkept, B.farthest.length_emplace]
    exact Nat.succ_pos _

/-- A candidate is removed. -/
theorem Walked.pop (h : B.Walked ep s) {p : D × V} (hp : B.nearest.top s.candidates = some p) :
    B.Walked ep { s with candidates := B.nearest.pop s.candidates } where
  entry := h.entry
  nodup := h.nodup
  reached := h.reached
  candidates_nodup := by
    have hperm := (B.nearest.perm_of_top hp).map (·.2)
    exact (List.nodup_cons.mp (hperm.nodup_iff.mp h.candidates_nodup)).2
  candidates_visited q hq := h.candidates_visited q
    ((B.nearest.perm_of_top hp).mem_iff.mpr (List.mem_cons_of_mem _ hq))

theorem Explored.pop (h : B.Explored ep s) {p : D × V} (hp : B.nearest.top s.candidates = some p) :
    B.Explored ep { s with candidates := B.nearest.pop s.candidates } :=
  { h.toWalked.pop hp, h with }

/-- The vertices of `U` have neighbours, all of them in `U`. -/
def Closed (B : BestFirst V D ε) (U : Finset V) : Prop :=
  ∀ v ∈ U, ∃ l, B.links v = .ok l ∧ ∀ c ∈ l, c ∈ U

theorem Closed.reaches {U : Finset V} (hU : B.Closed U) (hep : ep ∈ U) {v : V}
    (hv : B.Reaches ep v) : v ∈ U := by
  induction hv with
  | refl => exact hep
  | tail _ hlink ih =>
    obtain ⟨l, hl, hc⟩ := hlink
    obtain ⟨l', hl', hsub⟩ := hU _ ih
    rw [hl] at hl'
    cases hl'
    exact hsub _ hc

theorem length_start (ep : V) :
    (B.start ep).candidates.length = 1 ∧ (B.start ep).visited.length = 1 := by
  unfold start
  split_ifs
  · exact ⟨B.nearest.length_emplace, rfl⟩
  · exact ⟨B.nearest.length_emplace, rfl⟩

/-! ## How good the results are -/

/-- `v` is a result, or there are `ef` results and it is not nearer than any of them. -/
def Settled (B : BestFirst V D ε) (found : List (D × V)) (v : V) : Prop :=
  v ∈ ids found ∨ (found.length = B.ef ∧ ∀ p ∈ found, B.lt (B.dist v) p.1 = false)

/-- All neighbours of `v` have been seen. -/
def Expanded (B : BestFirst V D ε) (s : State V D) (v : V) : Prop :=
  ∃ l, B.links v = .ok l ∧ ∀ c ∈ l, c ∈ s.visited

/-- The results are the nearest of what has been seen. -/
structure Best (B : BestFirst V D ε) (s : State V D) : Prop where
  bound : ∀ p, B.farthest.top s.top = some p → s.lowerBound = p.1
  settled : ∀ v ∈ s.visited, B.kept v = true → B.Settled s.top v
  candidates : ∀ p ∈ s.candidates, B.kept p.2 = true → p.1 = B.dist p.2

/-- What has been seen is a candidate, or `done`, or has been passed over. -/
def Frontier (B : BestFirst V D ε) (done : V → Prop) (s : State V D) : Prop :=
  ∀ v ∈ s.visited, v ∈ ids s.candidates ∨ done v ∨ (v ∉ ids s.top ∧ s.top.length = B.ef)

theorem Best.start (ep : V) : B.Best (B.start ep) := by
  unfold BestFirst.start
  split_ifs with hkept
  · refine ⟨fun p hp => ?_, fun v hv _ => ?_, fun p hp _ => ?_⟩
    · obtain rfl | hmem := B.farthest.mem_emplace.mp (B.farthest.mem_of_top hp)
      · rfl
      · cases hmem
    · obtain rfl := List.mem_singleton.mp hv
      exact .inl (mem_ids.mpr ⟨_, B.farthest.mem_emplace.mpr (.inl rfl), rfl⟩)
    · obtain rfl | hmem := B.nearest.mem_emplace.mp hp
      · rfl
      · cases hmem
  · refine ⟨fun p hp => ?_, fun v hv hv' => ?_, fun p hp hp' => ?_⟩
    · rw [B.farthest.top_nil] at hp
      cases hp
    · obtain rfl := List.mem_singleton.mp hv
      exact absurd hv' hkept
    · obtain rfl | hmem := B.nearest.mem_emplace.mp hp
      · exact absurd hp' hkept
      · cases hmem

theorem Frontier.start (done : V → Prop) (ep : V) : B.Frontier done (B.start ep) := by
  intro v hv
  left
  unfold BestFirst.start at hv ⊢
  split_ifs at hv ⊢
  · obtain rfl := List.mem_singleton.mp hv
    exact mem_ids.mpr ⟨_, B.nearest.mem_emplace.mpr (.inl rfl), rfl⟩
  · obtain rfl := List.mem_singleton.mp hv
    exact mem_ids.mpr ⟨_, B.nearest.mem_emplace.mpr (.inl rfl), rfl⟩

/-- No result is farther than the bound. -/
theorem Best.le_bound (h : B.Best s) (hlt : StrictWeak B.lt) {p : D × V} (hp : p ∈ s.top) :
    B.lt s.lowerBound p.1 = false := by
  cases htop : B.farthest.top s.top with
  | none =>
    rw [B.farthest.top_eq_none] at htop
    rw [htop] at hp
    cases hp
  | some q =>
    rw [h.bound q htop]
    exact B.farthest.top_max (hlt.comap Prod.fst) s.top q htop p hp

/-- What is not nearer than any result is not below the bound. -/
theorem Best.bound_le (h : B.Best s) {d : D} (hne : s.top ≠ [])
    (hd : ∀ p ∈ s.top, B.lt d p.1 = false) : B.lt d s.lowerBound = false := by
  obtain ⟨q, hq, _⟩ := B.farthest.top_pop s.top hne
  rw [h.bound q hq]
  exact hd q (B.farthest.mem_of_top hq)

/-- What was settled before a neighbour was taken up is settled afterwards. -/
theorem Best.settled_takeUp (h : B.Best s) (hexp : B.Explored ep s) (hlt : StrictWeak B.lt)
    (hef : 0 < B.ef) (htaken : s.top.length < B.ef ∨ B.lt (B.dist c) s.lowerBound = true) {v : V}
    (hv : B.Settled s.top v) : B.Settled (B.takeUp s c) v := by
  obtain hids | ⟨hfull, hfar⟩ := hv
  · obtain ⟨p, hp, rfl⟩ := mem_ids.mp hids
    have hp' : p ∈ if B.kept c then B.farthest.emplace s.top (B.dist c, c) else s.top := by
      split_ifs
      · exact B.farthest.mem_emplace.mpr (.inr hp)
      · exact hp
    unfold Settled
    rw [takeUp_eq hexp.top_length]
    obtain hleft | ⟨hlen, hmax⟩ := B.farthest.mem_shrink_or B.ef hp'
    · exact .inl (mem_ids.mpr ⟨p, hleft, rfl⟩)
    · refine .inr ⟨hlen, fun q hq => ?_⟩
      rw [← (hexp.top_visited p hp).2.1]
      exact hmax (hlt.comap Prod.fst) q hq
  · right
    have hle := length_takeUp (c := c) hexp.top_length
    have hge := le_length_takeUp (c := c) hexp.top_length
    refine ⟨by omega, fun q hq => ?_⟩
    obtain hq | ⟨_, rfl⟩ := mem_takeUp hexp.top_length hq
    · exact hfar q hq
    · have hnear : B.lt (B.dist c) s.lowerBound = true := htaken.resolve_left (by omega)
      have hne : s.top ≠ [] := List.ne_nil_of_length_pos (by omega)
      exact hlt.neg_trans _ _ _ (h.bound_le hne hfar) (hlt.asymm _ _ hnear)

/-- The neighbour that is taken up is settled. -/
theorem settled_takeUp_self (hexp : B.Explored ep s) (hlt : StrictWeak B.lt)
    (hkept : B.kept c = true) : B.Settled (B.takeUp s c) c := by
  unfold Settled
  rw [takeUp_eq hexp.top_length, if_pos hkept]
  have hmem : (B.dist c, c) ∈ B.farthest.emplace s.top (B.dist c, c) :=
    B.farthest.mem_emplace.mpr (.inl rfl)
  obtain hleft | ⟨hlen, hmax⟩ := B.farthest.mem_shrink_or B.ef hmem
  · exact .inl (mem_ids.mpr ⟨_, hleft, rfl⟩)
  · exact .inr ⟨hlen, fun q hq => hmax (hlt.comap Prod.fst) q hq⟩

/-- The invariant of the loop. -/
structure Searching (B : BestFirst V D ε) (ep : V) (s : State V D) : Prop where
  explored : B.Explored ep s
  best : B.Best s
  frontier : B.Frontier (B.Expanded s) s

theorem Searching.start (hef : 0 < B.ef) (ep : V) : B.Searching ep (B.start ep) :=
  ⟨.start hef ep, .start ep, .start _ ep⟩

/-- Where the search stops, all results have been expanded. -/
theorem Searching.expanded (h : B.Searching ep s) (hlt : StrictWeak B.lt)
    (hend : ∀ p, B.nearest.top s.candidates = some p → B.stops s p.1 = true) {p : D × V}
    (hp : p ∈ s.top) : B.Expanded s p.2 := by
  obtain ⟨hvisited, hdist, hkept⟩ := h.explored.top_visited p hp
  obtain hcand | hdone | ⟨hout, _⟩ := h.frontier p.2 hvisited
  · obtain ⟨q, hq, hqp⟩ := mem_ids.mp hcand
    obtain ⟨t, ht, _⟩ := B.nearest.top_pop s.candidates (List.ne_nil_of_mem hq)
    have hstop := hend t ht
    unfold stops at hstop
    rw [Bool.and_eq_true] at hstop
    have hqd : q.1 = p.1 := by
      rw [hdist, ← hqp]
      exact h.best.candidates q hq (hqp ▸ hkept)
    -- the candidate is not nearer than the nearest one, which is beyond the bound
    have hfar : B.lt p.1 t.1 = false := by
      rw [← hqd]
      exact B.nearest.top_max (hlt.comap Prod.fst).swap s.candidates t ht q hq
    rw [hlt.neg_trans _ _ _ (h.best.le_bound hlt hp) hfar] at hstop
    cases hstop.1
  · exact hdone
  · exact absurd (mem_ids.mpr ⟨p, hp, rfl⟩) hout

/-- A candidate beyond the bound means that there are `ef` results, if everything is kept. -/
theorem Searching.full_of_beyond (h : B.Searching ep s) (hkept : ∀ v, B.kept v = true)
    (hlt : StrictWeak B.lt) {p : D × V} (hp : p ∈ s.candidates)
    (hfar : B.lt s.lowerBound p.1 = true) : s.top.length = B.ef := by
  obtain hids | ⟨hfull, _⟩ :=
    h.best.settled p.2 (h.explored.candidates_visited p hp) (hkept p.2)
  · obtain ⟨q, hq, hqp⟩ := mem_ids.mp hids
    have hle := h.best.le_bound hlt hq
    rw [(h.explored.top_visited q hq).2.1, hqp, ← h.best.candidates p hp (hkept p.2), hfar] at hle
    cases hle
  · exact hfull

theorem Closed.visited (hclosed : ∀ u ∈ s.visited, B.Expanded s u) (hep : ep ∈ s.visited) {v : V}
    (hv : B.Reaches ep v) : v ∈ s.visited := by
  induction hv with
  | refl => exact hep
  | tail _ hlink ih =>
    obtain ⟨l, hl, hc⟩ := hlink
    obtain ⟨l', hl', hsub⟩ := hclosed _ ih
    rw [hl] at hl'
    cases hl'
    exact hsub _ hc

/-! ## Looking at the neighbours -/

variable [DecidableEq V]

theorem visit_visited (s : State V D) (c : V) :
    (B.visit s c).visited = if c ∈ s.visited then s.visited else c :: s.visited := by
  unfold visit
  split_ifs <;> rfl

theorem mem_visit {v : V} : v ∈ (B.visit s c).visited ↔ v = c ∨ v ∈ s.visited := by
  rw [visit_visited]
  split_ifs with h
  · constructor
    · exact .inr
    · rintro (rfl | hv)
      · exact h
      · exact hv
  · exact List.mem_cons

theorem visit_top (s : State V D) (c : V) :
    (B.visit s c).top = s.top ∨ (c ∉ s.visited ∧ (B.visit s c).top = B.takeUp s c) := by
  unfold visit
  split_ifs with hmem
  · exact .inl rfl
  · exact .inr ⟨hmem, rfl⟩
  · exact .inl rfl

theorem visit_candidates (s : State V D) (c : V) : (B.visit s c).candidates = s.candidates ∨
    (c ∉ s.visited ∧ (B.visit s c).candidates = B.nearest.emplace s.candidates (B.dist c, c)) := by
  unfold visit
  split_ifs with hmem
  · exact .inl rfl
  · exact .inr ⟨hmem, rfl⟩
  · exact .inl rfl

theorem Walked.visit (h : B.Walked ep s) (hc : B.Reaches ep c) :
    B.Walked ep (B.visit s c) where
  entry := mem_visit.mpr (.inr h.entry)
  nodup := by
    rw [visit_visited]
    split_ifs with hmem
    · exact h.nodup
    · exact List.nodup_cons.mpr ⟨hmem, h.nodup⟩
  reached v hv := by
    obtain rfl | hv := mem_visit.mp hv
    · exact hc
    · exact h.reached v hv
  candidates_nodup := by
    obtain heq | ⟨hmem, heq⟩ := visit_candidates (B := B) s c
    · rw [heq]
      exact h.candidates_nodup
    · rw [heq, (ids_emplace B.nearest s.candidates (B.dist c) c).nodup_iff, List.nodup_cons]
      refine ⟨fun hids => ?_, h.candidates_nodup⟩
      obtain ⟨p, hp, rfl⟩ := mem_ids.mp hids
      exact hmem (h.candidates_visited p hp)
  candidates_visited p hp := by
    rw [mem_visit]
    obtain heq | ⟨_, heq⟩ := visit_candidates (B := B) s c
    · exact .inr (h.candidates_visited p (heq ▸ hp))
    · rw [heq, B.nearest.mem_emplace] at hp
      obtain rfl | hp := hp
      · exact .inl rfl
      · exact .inr (h.candidates_visited p hp)

theorem Explored.visit (h : B.Explored ep s) (hc : B.Reaches ep c) :
    B.Explored ep (B.visit s c) where
  toWalked := h.toWalked.visit hc
  top_nodup := by
    obtain heq | ⟨hmem, heq⟩ := visit_top (B := B) s c
    · rw [heq]
      exact h.top_nodup
    · rw [heq, takeUp_eq h.top_length]
      refine (B.farthest.shrink_subperm _ _).nodup_map ?_
      split_ifs
      · show (ids (B.farthest.emplace s.top (B.dist c, c))).Nodup
        rw [(ids_emplace B.farthest s.top (B.dist c) c).nodup_iff, List.nodup_cons]
        refine ⟨fun hids => ?_, h.top_nodup⟩
        obtain ⟨p, hp, rfl⟩ := mem_ids.mp hids
        exact hmem (h.top_visited p hp).1
      · exact h.top_nodup
  top_visited p hp := by
    rw [mem_visit]
    have hold : ∀ p ∈ s.top, (p.2 = c ∨ p.2 ∈ s.visited) ∧ p.1 = B.dist p.2 ∧ B.kept p.2 = true :=
      fun p hp => ⟨.inr (h.top_visited p hp).1, (h.top_visited p hp).2⟩
    obtain heq | ⟨_, heq⟩ := visit_top (B := B) s c
    · exact hold p (heq ▸ hp)
    · obtain hp | ⟨hkept, rfl⟩ := mem_takeUp h.top_length (heq ▸ hp)
      · exact hold p hp
      · exact ⟨.inl rfl, rfl, hkept⟩
  top_length := by
    obtain heq | ⟨_, heq⟩ := visit_top (B := B) s c
    · rw [heq]
      exact h.top_length
    · rw [heq]
      exact length_takeUp h.top_length
  top_pos hkept := by
    obtain heq | ⟨_, heq⟩ := visit_top (B := B) s c
    · rw [heq]
      exact h.top_pos hkept
    · rw [heq]
      exact (h.top_pos hkept).trans_le (le_length_takeUp h.top_length)

/-- Every neighbour in turn, for any property that looking at one of them keeps. -/
theorem foldl_visit {I : State V D → Prop} {l : List V} (h : I s)
    (hstep : ∀ s, ∀ c ∈ l, I s → I (B.visit s c)) : I (l.foldl B.visit s) := by
  induction l generalizing s with
  | nil => exact h
  | cons c l ih =>
    refine ih (hstep s c (List.mem_cons_self ..) h) fun s c' hc' => ?_
    exact hstep s c' (List.mem_cons_of_mem _ hc')

theorem mem_foldl_visit {l : List V} {v : V} :
    v ∈ (l.foldl B.visit s).visited ↔ v ∈ l ∨ v ∈ s.visited := by
  induction l generalizing s with
  | nil => simp
  | cons c l ih =>
    rw [List.foldl_cons, ih, mem_visit, List.mem_cons]
    tauto

theorem mem_expand {l : List V} {v : V} :
    v ∈ (B.expand s l).visited ↔ v ∈ l ∨ v ∈ s.visited := mem_foldl_visit

theorem Walked.expand (h : B.Walked ep s) {p : D × V} {l : List V}
    (hp : B.nearest.top s.candidates = some p) (hl : B.links p.2 = .ok l) :
    B.Walked ep (B.expand s l) := by
  have hreach := h.reached p.2 (h.candidates_visited p (B.nearest.mem_of_top hp))
  exact foldl_visit (h.pop hp) fun s c hc hs => hs.visit (hreach.tail ⟨l, hl, hc⟩)

theorem Explored.expand (h : B.Explored ep s) {p : D × V} {l : List V}
    (hp : B.nearest.top s.candidates = some p) (hl : B.links p.2 = .ok l) :
    B.Explored ep (B.expand s l) := by
  have hreach := h.reached p.2 (h.candidates_visited p (B.nearest.mem_of_top hp))
  exact foldl_visit (h.pop hp) fun s c hc hs => hs.visit (hreach.tail ⟨l, hl, hc⟩)

/-! ## The loop -/

/-- The loop ends when the candidates are used up or the nearest of them is too far. -/
theorem loop_spec {I : State V D → Prop} (hstep : ∀ s p l, I s →
      B.nearest.top s.candidates = some p → B.stops s p.1 = false → B.links p.2 = .ok l →
      I (B.expand s l)) {fuel : ℕ} (h : I s) (hrun : B.loop fuel s = .ok s') :
    I s' ∧ ∀ p, B.nearest.top s'.candidates = some p → B.stops s' p.1 = true := by
  induction fuel generalizing s with
  | zero => cases hrun
  | succ fuel ih =>
    unfold loop at hrun
    cases htop : B.nearest.top s.candidates with
    | none =>
      simp only [htop, Except.ok.injEq] at hrun
      subst hrun
      exact ⟨h, fun p hp => by rw [htop] at hp; cases hp⟩
    | some p =>
      simp only [htop] at hrun
      split_ifs at hrun with hstop
      · rw [Except.ok.injEq] at hrun
        subst hrun
        refine ⟨h, fun p' hp' => ?_⟩
        rw [htop] at hp'
        cases hp'
        exact hstop
      · cases hl : B.links p.2 with
        | error e =>
          rw [hl] at hrun
          cases hrun
        | ok l =>
          rw [hl] at hrun
          exact ih (hstep s p l h htop (by simpa using hstop) hl) hrun

/-- A vertex that becomes a candidate has been seen for the first time. -/
theorem visit_counts (s : State V D) (c : V) :
    (B.visit s c).candidates.length + s.visited.length ≤
      s.candidates.length + (B.visit s c).visited.length := by
  unfold visit
  split_ifs
  · exact le_rfl
  · show (B.nearest.emplace _ _).length + _ ≤ _ + (c :: s.visited).length
    rw [B.nearest.length_emplace, List.length_cons]
    omega
  · show s.candidates.length + _ ≤ _ + (c :: s.visited).length
    rw [List.length_cons]
    omega

theorem foldl_visit_counts (l : List V) (s : State V D) :
    (l.foldl B.visit s).candidates.length + s.visited.length ≤
      s.candidates.length + (l.foldl B.visit s).visited.length := by
  induction l generalizing s with
  | nil => exact le_rfl
  | cons c l ih =>
    have hc := visit_counts (B := B) s c
    have hl := ih (B.visit s c)
    rw [List.foldl_cons]
    omega

theorem Walked.length_visited_le {U : Finset V} (hU : B.Closed U) (hep : ep ∈ U)
    (h : B.Walked ep s) : s.visited.length ≤ U.card := by
  rw [← List.toFinset_card_of_nodup h.nodup]
  refine Finset.card_le_card fun v hv => ?_
  exact hU.reaches hep (h.reached v (List.mem_toFinset.mp hv))

/-- The vertices not seen yet and the candidates become fewer in every turn. -/
theorem loop_ok {U : Finset V} (hU : B.Closed U) (hep : ep ∈ U) (fuel : ℕ)
    (h : B.Walked ep s) (hfuel : U.card + s.candidates.length < s.visited.length + fuel) :
    ∃ s', B.loop fuel s = .ok s' := by
  induction fuel generalizing s with
  | zero =>
    have := h.length_visited_le hU hep
    omega
  | succ fuel ih =>
    unfold loop
    cases htop : B.nearest.top s.candidates with
    | none => exact ⟨s, rfl⟩
    | some p =>
      dsimp only
      split_ifs
      · exact ⟨s, rfl⟩
      · have hreach := h.reached p.2 (h.candidates_visited p (B.nearest.mem_of_top htop))
        obtain ⟨l, hl, _⟩ := hU p.2 (hU.reaches hep hreach)
        rw [hl]
        refine ih (h.expand htop hl) ?_
        have hpop := B.nearest.length_pop htop
        have hcounts := foldl_visit_counts (B := B) l
          { s with candidates := B.nearest.pop s.candidates }
        have hexpand : B.expand s l =
          l.foldl B.visit { s with candidates := B.nearest.pop s.candidates } := rfl
        rw [← hexpand] at hcounts
        dsimp only at hcounts
        omega

theorem search_ok {U : Finset V} (hU : B.Closed U) (hep : ep ∈ U) {fuel : ℕ}
    (hfuel : U.card < fuel) : ∃ found, B.search fuel ep = .ok found := by
  obtain ⟨hcand, hvisited⟩ := length_start (B := B) ep
  obtain ⟨s', hs'⟩ := loop_ok hU hep fuel (Walked.start ep) (by omega)
  exact ⟨s'.top, by rw [search, hs']⟩

theorem search_eq_ok {fuel : ℕ} {found : List (D × V)} (h : B.search fuel ep = .ok found) :
    ∃ s, B.loop fuel (B.start ep) = .ok s ∧ s.top = found := by
  unfold search at h
  cases hs : B.loop fuel (B.start ep) with
  | error e =>
    rw [hs] at h
    cases h
  | ok s =>
    rw [hs] at h
    cases h
    exact ⟨s, rfl, rfl⟩

/-- The results of a search. -/
structure Found (B : BestFirst V D ε) (ep : V) (found : List (D × V)) : Prop where
  nodup : (ids found).Nodup
  length_le : found.length ≤ B.ef
  reaches : ∀ p ∈ found, B.Reaches ep p.2
  dist : ∀ p ∈ found, p.1 = B.dist p.2
  kept : ∀ p ∈ found, B.kept p.2 = true
  pos : B.kept ep = true → 0 < found.length

theorem search_found (hef : 0 < B.ef) {fuel : ℕ} {found : List (D × V)}
    (h : B.search fuel ep = .ok found) : B.Found ep found := by
  obtain ⟨s, hs, rfl⟩ := search_eq_ok h
  obtain ⟨hexp, _⟩ := loop_spec (fun s p l hs hp _ hl => Explored.expand hs hp hl)
    (Explored.start hef ep) hs
  exact ⟨hexp.top_nodup, hexp.top_length, fun p hp => hexp.reached p.2 (hexp.top_visited p hp).1,
    fun p hp => (hexp.top_visited p hp).2.1, fun p hp => (hexp.top_visited p hp).2.2, hexp.top_pos⟩

/-! ## Keeping the invariant -/

theorem Best.visit (h : B.Best s) (hexp : B.Explored ep s) (hlt : StrictWeak B.lt)
    (hef : 0 < B.ef) (c : V) : B.Best (B.visit s c) := by
  unfold BestFirst.visit
  split_ifs with hmem htaken
  · exact h
  · rw [Bool.or_eq_true, decide_eq_true_eq] at htaken
    refine ⟨fun p hp => ?_, fun v hv hkept => ?_, fun p hp hkept => ?_⟩
    · dsimp only at hp ⊢
      rw [hp]
    · obtain rfl | hv := List.mem_cons.mp hv
      · exact settled_takeUp_self hexp hlt hkept
      · exact h.settled_takeUp hexp hlt hef htaken (h.settled v hv hkept)
    · obtain rfl | hp := B.nearest.mem_emplace.mp hp
      · rfl
      · exact h.candidates p hp hkept
  · rw [Bool.or_eq_true, decide_eq_true_eq, not_or, Bool.not_eq_true] at htaken
    refine ⟨h.bound, fun v hv hkept => ?_, h.candidates⟩
    obtain rfl | hv := List.mem_cons.mp hv
    · right
      have hlen : s.top.length = B.ef := le_antisymm hexp.top_length (Nat.le_of_not_lt htaken.1)
      exact ⟨hlen, fun p hp => hlt.neg_trans _ _ _ htaken.2 (h.le_bound hlt hp)⟩
    · exact h.settled v hv hkept

theorem Frontier.visit {done : V → Prop} (h : B.Frontier done s) (hexp : B.Explored ep s) (c : V) :
    B.Frontier done (B.visit s c) := by
  unfold BestFirst.visit
  split_ifs with hmem htaken
  · exact h
  · intro v hv
    have hcand := (ids_emplace B.nearest s.candidates (B.dist c) c).mem_iff (a := v)
    show v ∈ ids (B.nearest.emplace s.candidates (B.dist c, c)) ∨ _ ∨
      (v ∉ ids (B.takeUp s c) ∧ (B.takeUp s c).length = B.ef)
    rw [hcand, List.mem_cons]
    obtain rfl | hv := List.mem_cons.mp hv
    · exact .inl (.inl rfl)
    · refine (h v hv).imp .inr fun hdone => hdone.imp_right fun ⟨hout, hfull⟩ => ⟨fun hids => ?_, ?_⟩
      · obtain ⟨p, hp, rfl⟩ := mem_ids.mp hids
        obtain hp | ⟨_, rfl⟩ := mem_takeUp hexp.top_length hp
        · exact hout (mem_ids.mpr ⟨p, hp, rfl⟩)
        · exact hmem hv
      · have hle := length_takeUp (c := c) hexp.top_length
        have hge := le_length_takeUp (c := c) hexp.top_length
        omega
  · rw [Bool.or_eq_true, decide_eq_true_eq, not_or] at htaken
    intro v hv
    obtain rfl | hv := List.mem_cons.mp hv
    · refine .inr (.inr ⟨fun hids => ?_, ?_⟩)
      · obtain ⟨p, hp, rfl⟩ := mem_ids.mp hids
        exact hmem (hexp.top_visited p hp).1
      · exact le_antisymm hexp.top_length (Nat.le_of_not_lt htaken.1)
    · exact h v hv

theorem Searching.expand (h : B.Searching ep s) (hlt : StrictWeak B.lt) (hef : 0 < B.ef)
    {p : D × V} {l : List V} (hp : B.nearest.top s.candidates = some p)
    (hl : B.links p.2 = .ok l) : B.Searching ep (B.expand s l) := by
  have hpop := B.nearest.perm_of_top hp
  have hreach := h.explored.reached p.2 (h.explored.candidates_visited p (B.nearest.mem_of_top hp))
  -- the neighbours are looked at while `p.2` counts as done
  have hall : B.Explored ep (B.expand s l) ∧ B.Best (B.expand s l) ∧
      B.Frontier (fun v => B.Expanded s v ∨ v = p.2) (B.expand s l) := by
    refine foldl_visit (I := fun s' => B.Explored ep s' ∧ B.Best s' ∧
      B.Frontier (fun v => B.Expanded s v ∨ v = p.2) s') ⟨h.explored.pop hp, ⟨h.best.bound, h.best.settled, ?_⟩, ?_⟩ ?_
    · exact fun q hq => h.best.candidates q (hpop.mem_iff.mpr (List.mem_cons_of_mem _ hq))
    · intro v hv
      obtain hcand | hdone | hout := h.frontier v hv
      · obtain ⟨q, hq, rfl⟩ := mem_ids.mp hcand
        obtain rfl | hq := List.mem_cons.mp (hpop.mem_iff.mp hq)
        · exact .inr (.inl (.inr rfl))
        · exact .inl (mem_ids.mpr ⟨q, hq, rfl⟩)
      · exact .inr (.inl (.inl hdone))
      · exact .inr (.inr hout)
    · rintro s' c hc ⟨hexp, hbest, hfront⟩
      exact ⟨hexp.visit (hreach.tail ⟨l, hl, hc⟩), hbest.visit hexp hlt hef c, hfront.visit hexp c⟩
  refine ⟨hall.1, hall.2.1, fun v hv => ?_⟩
  refine (hall.2.2 v hv).imp_right fun hdone => hdone.imp_left ?_
  rintro (⟨l', hl', hsub⟩ | rfl)
  · exact ⟨l', hl', fun c hc => mem_expand.mpr (.inr (hsub c hc))⟩
  · exact ⟨l, hl, fun c hc => mem_expand.mpr (.inl hc)⟩

/-- Neither the entry nor a neighbour of a result would improve the results. -/
structure LocallyBest (B : BestFirst V D ε) (ep : V) (found : List (D × V)) : Prop where
  entry : B.kept ep = true → B.Settled found ep
  links : ∀ p ∈ found, ∀ l, B.links p.2 = .ok l → ∀ c ∈ l, B.kept c = true → B.Settled found c

theorem search_searching (hlt : StrictWeak B.lt) (hef : 0 < B.ef) {fuel : ℕ}
    {found : List (D × V)} (h : B.search fuel ep = .ok found) :
    ∃ s, s.top = found ∧ B.Searching ep s ∧
      ∀ p, B.nearest.top s.candidates = some p → B.stops s p.1 = true := by
  obtain ⟨s, hs, rfl⟩ := search_eq_ok h
  exact ⟨s, rfl, loop_spec (fun s p l hs hp _ hl => Searching.expand hs hlt hef hp hl)
    (Searching.start hef ep) hs⟩

theorem search_locallyBest (hlt : StrictWeak B.lt) (hef : 0 < B.ef) {fuel : ℕ}
    {found : List (D × V)} (h : B.search fuel ep = .ok found) : B.LocallyBest ep found := by
  obtain ⟨s, rfl, hs, hend⟩ := search_searching hlt hef h
  refine ⟨hs.best.settled ep hs.explored.entry, fun p hp l hl c hc hkept => ?_⟩
  obtain ⟨l', hl', hsub⟩ := hs.expanded hlt hend hp
  rw [hl] at hl'
  cases hl'
  exact hs.best.settled c (hsub c hc) hkept

/-- As many results as there are vertices are all vertices. -/
theorem Found.all_of_full {U : Finset V} (hU : B.Closed U) (hep : ep ∈ U) (hcard : U.card ≤ B.ef)
    {found : List (D × V)} (h : B.Found ep found) (hfull : found.length = B.ef) {v : V}
    (hv : v ∈ U) : v ∈ ids found := by
  have hsub : (ids found).toFinset ⊆ U := by
    intro w hw
    obtain ⟨p, hp, rfl⟩ := mem_ids.mp (List.mem_toFinset.mp hw)
    exact hU.reaches hep (h.reaches p hp)
  have heq : (ids found).toFinset = U := by
    refine Finset.eq_of_subset_of_card_le hsub ?_
    rw [List.toFinset_card_of_nodup h.nodup, ids, List.length_map]
    omega
  rw [← heq] at hv
  exact List.mem_toFinset.mp hv

theorem search_exact {U : Finset V} (hU : B.Closed U) (hep : ep ∈ U) (hcard : U.card ≤ B.ef)
    (hlate : B.stopsEarly = false) (hlt : StrictWeak B.lt) {fuel : ℕ} {found : List (D × V)}
    (h : B.search fuel ep = .ok found) {v : V} (hv : B.Reaches ep v) (hkept : B.kept v = true) :
    v ∈ ids found := by
  have hef : 0 < B.ef := (Finset.card_pos.mpr ⟨ep, hep⟩).trans_le hcard
  have hfound := search_found hef h
  obtain ⟨s, rfl, hs, hend⟩ := search_searching hlt hef h
  by_cases hfull : s.top.length = B.ef
  · exact hfound.all_of_full hU hep hcard hfull (hU.reaches hep hv)
  · -- the search has run out of candidates, so what it has seen is closed
    have hnil : s.candidates = [] := by
      by_contra hne
      obtain ⟨t, ht, _⟩ := B.nearest.top_pop s.candidates hne
      have hstop := hend t ht
      simp [stops, hlate, hfull] at hstop
    have hclosed : ∀ u ∈ s.visited, B.Expanded s u := by
      intro u hu
      obtain hcand | hdone | hout := hs.frontier u hu
      · rw [hnil] at hcand
        cases hcand
      · exact hdone
      · exact absurd hout.2 hfull
    have hvisited := Closed.visited hclosed hs.explored.entry hv
    exact (hs.best.settled v hvisited hkept).resolve_right fun hout => hfull hout.1

/-- A search in which everything is kept may stop as soon as the nearest candidate is beyond the
    bound. -/
theorem search_stopsEarly (hkept : ∀ v, B.kept v = true) (hlt : StrictWeak B.lt) (hef : 0 < B.ef)
    (fuel : ℕ) (ep : V) (early : Bool) :
    ({ B with stopsEarly := early } : BestFirst V D ε).search fuel ep = B.search fuel ep := by
  have hloop : ∀ s, B.Searching ep s →
      ({ B with stopsEarly := early } : BestFirst V D ε).loop fuel s = B.loop fuel s := by
    induction fuel with
    | zero => exact fun s _ => rfl
    | succ fuel ih =>
      intro s hs
      unfold loop
      dsimp only
      cases htop : B.nearest.top s.candidates with
      | none => rfl
      | some p =>
        have hstop : ({ B with stopsEarly := early } : BestFirst V D ε).stops s p.1 =
            B.stops s p.1 := by
          unfold stops
          dsimp only
          by_cases hfar : B.lt s.lowerBound p.1 = true
          · rw [hs.full_of_beyond hkept hlt (B.nearest.mem_of_top htop) hfar, beq_self_eq_true,
              Bool.or_true, Bool.or_true]
          · rw [Bool.not_eq_true] at hfar
            rw [hfar, Bool.false_and, Bool.false_and]
        dsimp only
        rw [hstop]
        split_ifs
        · rfl
        · cases hl : B.links p.2 with
          | error e => rfl
          | ok l => exact ih _ (hs.expand hlt hef htop hl)
  unfold search
  rw [← hloop (B.start ep) (.start hef ep)]
  rfl

end BestFirst
