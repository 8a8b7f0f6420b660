import MyKvRaft.Common.Run

/-!
# Lists of visited slots

A search marks the slots it has seen by writing a tag into an array
(`third_party/hnswlib/visited_list_pool.h`). The arrays are used again by later searches,
which pick the next tag instead of clearing the array; only when the 16 bits of the tag
overflow is it cleared. The memory of a new array is not initialised.

* `isVisited_reset`: a list that has been reset marks nothing, also after an overflow.
* `pool_visited`: whichever searches run at the same time, each sees exactly the slots that
  it has marked itself.
-/

namespace MyKvRaft

open Transition

/-- A tag that does not overflow. -/
theorem toNat_add_one {v : UInt16} (h : v + 1 ≠ 0) : (v + 1).toNat = v.toNat + 1 := by
  have hne : (v + 1).toNat ≠ 0 := fun hc => h (UInt16.toNat_inj.mp hc)
  have hlt := v.toNat_lt
  rw [UInt16.toNat_add] at hne ⊢
  change (v.toNat + 1) % 2 ^ 16 ≠ 0 at hne
  show (v.toNat + 1) % 2 ^ 16 = v.toNat + 1
  omega

/-- `VisitedList`: no entry is above the tag. -/
structure VisitedList where
  curV : UInt16
  mass : List UInt16
  le_curV : ∀ v ∈ mass, v.toNat ≤ curV.toNat

namespace VisitedList

/-- The constructor: `curV` is `-1`, and `mass` is what the memory holds. -/
def new (mass : List UInt16) : VisitedList where
  curV := -1
  mass := mass
  le_curV v _ := by
    have := v.toNat_lt
    show v.toNat ≤ 65535
    omega

def reset (vl : VisitedList) : VisitedList :=
  if hwrap : vl.curV + 1 = 0 then
    { curV := 1
      mass := List.replicate vl.mass.length 0
      le_curV v hv := by
        rw [List.eq_of_mem_replicate hv]
        decide }
  else
    { curV := vl.curV + 1
      mass := vl.mass
      le_curV v hv := by
        rw [toNat_add_one hwrap]
        exact (vl.le_curV v hv).trans (Nat.le_succ _) }

/-- `visited_array[id] = visited_array_tag`. -/
def mark (vl : VisitedList) (id : ℕ) : VisitedList where
  curV := vl.curV
  mass := vl.mass.set id vl.curV
  le_curV v hv := by
    obtain hv | rfl := List.mem_or_eq_of_mem_set hv
    · exact vl.le_curV v hv
    · exact le_rfl

/-- `visited_array[id] == visited_array_tag`. -/
def isVisited (vl : VisitedList) (id : ℕ) : Bool := vl.mass[id]? == some vl.curV

variable {vl : VisitedList} {id id' : ℕ}

theorem length_mass_reset (vl : VisitedList) : vl.reset.mass.length = vl.mass.length := by
  unfold reset
  split_ifs
  · exact List.length_replicate
  · rfl

theorem length_mass_mark (vl : VisitedList) (id : ℕ) :
    (vl.mark id).mass.length = vl.mass.length := List.length_set

/-- Nothing is marked in a list that has been reset. -/
theorem isVisited_reset (vl : VisitedList) (id : ℕ) : vl.reset.isVisited id = false := by
  unfold isVisited reset
  rw [beq_eq_false_iff_ne]
  intro hid
  split_ifs at hid with hwrap
  · have hzero := List.eq_of_mem_replicate (List.mem_of_getElem? hid)
    cases hzero
  · have hle := vl.le_curV _ (List.mem_of_getElem? hid)
    rw [toNat_add_one hwrap] at hle
    omega

theorem isVisited_mark (hid : id < vl.mass.length) :
    (vl.mark id).isVisited id' = (decide (id' = id) || vl.isVisited id') := by
  unfold isVisited mark
  dsimp only
  by_cases heq : id' = id
  · subst heq
    rw [List.getElem?_set_self hid, decide_eq_true rfl, Bool.true_or]
    exact beq_self_eq_true _
  · rw [List.getElem?_set_ne (Ne.symm heq), decide_eq_false heq, Bool.false_or]

end VisitedList

/-! ## The pool -/

/-- `VisitedListPool`, with the lists that have been allocated; a pointer is a place among them. -/
structure VisitedListPool where
  numelements : ℕ
  lists : List VisitedList
  pool : List ℕ

namespace VisitedListPool

/-- `new VisitedList(numelements)`. -/
def allocate (p : VisitedListPool) (memory : ℕ → UInt16) : VisitedListPool :=
  { p with lists := p.lists ++ [.new ((List.range p.numelements).map memory)] }

/-- The constructor. -/
def create (numelements : ℕ) : List (ℕ → UInt16) → VisitedListPool
  | [] => ⟨numelements, [], []⟩
  | memory :: rest =>
    let p := (create numelements rest).allocate memory
    { p with pool := (p.lists.length - 1) :: p.pool }

/-- What `getFreeVisitedList` does under the lock: a list of the pool, or a new one. -/
def getFreeVisitedList (p : VisitedListPool) (memory : ℕ → UInt16) : ℕ × VisitedListPool :=
  match p.pool with
  | rez :: pool => (rez, { p with pool := pool })
  | [] => (p.lists.length, p.allocate memory)

def modify (p : VisitedListPool) (a : ℕ) (f : VisitedList → VisitedList) : VisitedListPool :=
  { p with lists := p.lists.modify a f }

def releaseVisitedList (p : VisitedListPool) (vl : ℕ) : VisitedListPool :=
  { p with pool := vl :: p.pool }

def isVisited (p : VisitedListPool) (a id : ℕ) : Bool := p.lists[a]?.any (·.isVisited id)

variable {p : VisitedListPool} {a b id : ℕ}

@[simp] theorem length_lists_modify (f : VisitedList → VisitedList) :
    (p.modify a f).lists.length = p.lists.length := List.length_modify ..

theorem isVisited_modify (f : VisitedList → VisitedList) (hne : a ≠ b) :
    (p.modify a f).isVisited b id = p.isVisited b id := by
  unfold isVisited modify
  dsimp only
  rw [List.getElem?_modify_ne _ _ hne]

theorem isVisited_modify_self (ha : a < p.lists.length) (f : VisitedList → VisitedList) :
    (p.modify a f).isVisited a id = (f (p.lists.get ⟨a, ha⟩)).isVisited id := by
  unfold isVisited modify
  dsimp only
  rw [List.getElem?_modify_eq, List.getElem?_eq_getElem ha]
  rfl

theorem isVisited_allocate (ha : a < p.lists.length) (memory : ℕ → UInt16) :
    (p.allocate memory).isVisited a id = p.isVisited a id := by
  unfold isVisited allocate
  dsimp only
  rw [List.getElem?_append_left ha]

/-- The lists are arrays of the right size, and each list of the pool is there once. -/
structure Sound (p : VisitedListPool) : Prop where
  size : ∀ vl ∈ p.lists, vl.mass.length = p.numelements
  nodup : p.pool.Nodup
  lt_length : ∀ a ∈ p.pool, a < p.lists.length

theorem Sound.allocate (h : p.Sound) (memory : ℕ → UInt16) : (p.allocate memory).Sound where
  size vl hvl := by
    obtain hvl | hvl := List.mem_append.mp hvl
    · exact h.size vl hvl
    · rw [List.mem_singleton.mp hvl]
      show ((List.range p.numelements).map memory).length = p.numelements
      rw [List.length_map, List.length_range]
  nodup := h.nodup
  lt_length a ha := by
    have := h.lt_length a ha
    show a < (p.lists ++ [_]).length
    rw [List.length_append]
    omega

theorem Sound.modify (h : p.Sound) (a : ℕ) {f : VisitedList → VisitedList}
    (hf : ∀ vl, (f vl).mass.length = vl.mass.length) : (p.modify a f).Sound where
  size vl hvl := by
    obtain ⟨i, hi⟩ := List.mem_iff_getElem?.mp hvl
    unfold VisitedListPool.modify at hi
    dsimp only at hi
    rw [List.getElem?_modify] at hi
    obtain ⟨vl', hvl', rfl⟩ := Option.map_eq_some_iff.mp hi
    have hsize := h.size vl' (List.mem_of_getElem? hvl')
    split_ifs
    · exact (hf vl').trans hsize
    · exact hsize
  nodup := h.nodup
  lt_length a' ha' := by
    rw [length_lists_modify]
    exact h.lt_length a' ha'

theorem Sound.release (h : p.Sound) (ha : a < p.lists.length) (hnot : a ∉ p.pool) :
    (p.releaseVisitedList a).Sound where
  size := h.size
  nodup := List.nodup_cons.mpr ⟨hnot, h.nodup⟩
  lt_length a' ha' := by
    obtain rfl | ha' := List.mem_cons.mp ha'
    · exact ha
    · exact h.lt_length a' ha'

theorem sound_create (numelements : ℕ) (memories : List (ℕ → UInt16)) :
    (create numelements memories).Sound := by
  induction memories with
  | nil => exact ⟨by simp [create], List.nodup_nil, by simp [create]⟩
  | cons memory rest ih =>
    have hlen : ((create numelements rest).allocate memory).lists.length =
        (create numelements rest).lists.length + 1 := List.length_append
    refine (ih.allocate memory).release (by omega) fun hin => ?_
    have := ih.lt_length _ hin
    omega

/-- The list `a` has been taken out of `p`, or is new. -/
structure Hands (p : VisitedListPool) (a : ℕ) (p' : VisitedListPool) : Prop where
  sound : p'.Sound
  numelements : p'.numelements = p.numelements
  length_le : p.lists.length ≤ p'.lists.length
  lt_length : a < p'.lists.length
  not_mem : a ∉ p'.pool
  pool_subset : ∀ b ∈ p'.pool, b ∈ p.pool
  unowned : a ∈ p.pool ∨ a = p.lists.length
  others : ∀ b < p.lists.length, ∀ id, p'.isVisited b id = p.isVisited b id

theorem hands_getFreeVisitedList (h : p.Sound) (memory : ℕ → UInt16) :
    p.Hands (p.getFreeVisitedList memory).1 (p.getFreeVisitedList memory).2 := by
  unfold getFreeVisitedList
  cases hpool : p.pool with
  | nil =>
    dsimp only
    have hlen : (p.allocate memory).lists.length = p.lists.length + 1 := List.length_append
    have hnil : (p.allocate memory).pool = [] := hpool
    refine ⟨h.allocate memory, rfl, by omega, by omega, ?_, fun b hb => ?_, .inr rfl,
      fun b hb id => isVisited_allocate hb memory⟩
    · rw [hnil]
      exact List.not_mem_nil
    · rw [hnil] at hb
      cases hb
  | cons rez pool =>
    dsimp only
    have hnodup := h.nodup
    rw [hpool, List.nodup_cons] at hnodup
    have hsub : ∀ b ∈ pool, b ∈ p.pool := fun b hb => hpool ▸ List.mem_cons_of_mem _ hb
    have hrez : rez ∈ p.pool := hpool ▸ List.mem_cons_self ..
    exact ⟨⟨h.size, hnodup.2, fun b hb => h.lt_length b (hsub b hb)⟩, rfl, le_rfl,
      h.lt_length rez hrez, hnodup.1, hsub, .inl hrez, fun _ _ _ => rfl⟩

end VisitedListPool

/-! ## Searches at the same time -/

/-- How far a search is with its list. -/
inductive Holding where
  | nothing
  | taken (vl : ℕ)
  | searching (vl : ℕ)

def Holding.list? : Holding → Option ℕ
  | nothing => none
  | taken vl | searching vl => some vl

/-- The searches that run at the same time, and as a history variable what each has marked. -/
structure Searches (ι : Type*) where
  lists : VisitedListPool
  holding : ι → Holding
  marked : ι → Finset ℕ

inductive SearchAct (ι : Type*) where
  | getFree (i : ι) (memory : ℕ → UInt16)
  | reset (i : ι)
  | visit (i : ι) (id : ℕ)
  | release (i : ι)

namespace Searches

variable {ι : Type*} [DecidableEq ι]

def init (numelements : ℕ) (memories : List (ℕ → UInt16)) : Searches ι where
  lists := .create numelements memories
  holding _ := .nothing
  marked _ := ∅

/-- A step of one search. `getFreeVisitedList` resets the list when it has left the lock. -/
def step (s : Searches ι) : SearchAct ι → Searches ι
  | .getFree i memory =>
    match s.holding i with
    | .nothing =>
      { s with
        lists := (s.lists.getFreeVisitedList memory).2
        holding := Function.update s.holding i (.taken (s.lists.getFreeVisitedList memory).1) }
    | _ => s
  | .reset i =>
    match s.holding i with
    | .taken vl =>
      { lists := s.lists.modify vl VisitedList.reset
        holding := Function.update s.holding i (.searching vl)
        marked := Function.update s.marked i ∅ }
    | _ => s
  | .visit i id =>
    match s.holding i with
    | .searching vl =>
      if id < s.lists.numelements then
        { s with
          lists := s.lists.modify vl fun l => l.mark id
          marked := Function.update s.marked i (insert id (s.marked i)) }
      else s
    | _ => s
  | .release i =>
    match s.holding i with
    | .searching vl =>
      { s with
        lists := s.lists.releaseVisitedList vl
        holding := Function.update s.holding i .nothing }
    | _ => s

/-- No list is in two hands, and a search finds in its list what it has marked. -/
structure Exclusive (s : Searches ι) : Prop where
  sound : s.lists.Sound
  held : ∀ i vl, (s.holding i).list? = some vl → vl < s.lists.lists.length ∧ vl ∉ s.lists.pool
  distinct : ∀ i j vl, (s.holding i).list? = some vl → (s.holding j).list? = some vl → i = j
  visited : ∀ i vl, s.holding i = .searching vl → ∀ id < s.lists.numelements,
    (s.lists.isVisited vl id = true ↔ id ∈ s.marked i)

omit [DecidableEq ι] in
theorem exclusive_init (numelements : ℕ) (memories : List (ℕ → UInt16)) :
    (init numelements memories : Searches ι).Exclusive :=
  ⟨VisitedListPool.sound_create numelements memories, fun _ _ h => (by cases h),
    fun _ _ _ h => (by cases h), fun _ _ h => (by cases h)⟩

variable {s : Searches ι} {i : ι} {vl : ℕ}

theorem Exclusive.getFree (h : s.Exclusive) (hi : s.holding i = .nothing) {a : ℕ}
    {p : VisitedListPool} (hp : s.lists.Hands a p) :
    ({ s with lists := p, holding := Function.update s.holding i (.taken a) } :
      Searches ι).Exclusive := by
  have hunheld : ∀ j, (s.holding j).list? ≠ some a := by
    intro j hj
    obtain ⟨hlt, hnot⟩ := h.held j a hj
    obtain hin | rfl := hp.unowned
    · exact hnot hin
    · exact lt_irrefl _ hlt
  refine ⟨hp.sound, fun j vl hj => ?_, fun j j' vl hj hj' => ?_, fun j vl hj id hid => ?_⟩
  all_goals dsimp only at *
  · by_cases heq : j = i
    · subst heq
      rw [Function.update_self] at hj
      obtain rfl := Option.some.inj hj
      exact ⟨hp.lt_length, hp.not_mem⟩
    · rw [Function.update_of_ne heq] at hj
      obtain ⟨hlt, hnot⟩ := h.held j vl hj
      exact ⟨hlt.trans_le hp.length_le, fun hin => hnot (hp.pool_subset vl hin)⟩
  · by_cases heq : j = i <;> by_cases heq' : j' = i
    · rw [heq, heq']
    · subst heq
      rw [Function.update_self] at hj
      rw [Function.update_of_ne heq'] at hj'
      obtain rfl := Option.some.inj hj
      exact absurd hj' (hunheld j')
    · subst heq'
      rw [Function.update_self] at hj'
      rw [Function.update_of_ne heq] at hj
      obtain rfl := Option.some.inj hj'
      exact absurd hj (hunheld j)
    · rw [Function.update_of_ne heq] at hj
      rw [Function.update_of_ne heq'] at hj'
      exact h.distinct j j' vl hj hj'
  · by_cases heq : j = i
    · subst heq
      rw [Function.update_self] at hj
      cases hj
    · rw [Function.update_of_ne heq] at hj
      rw [hp.numelements] at hid
      rw [hp.others vl (h.held j vl (by rw [hj]; rfl)).1]
      exact h.visited j vl hj id hid

/-- A search writes to the list that it has. -/
theorem Exclusive.write (h : s.Exclusive) (hi : (s.holding i).list? = some vl)
    {f : VisitedList → VisitedList} (hf : ∀ l, (f l).mass.length = l.mass.length)
    (marks : Finset ℕ) (hmarks : ∀ id < s.lists.numelements,
      ((s.lists.modify vl f).isVisited vl id = true ↔ id ∈ marks)) :
    ({ lists := s.lists.modify vl f
       holding := Function.update s.holding i (.searching vl)
       marked := Function.update s.marked i marks } : Searches ι).Exclusive := by
  have hlist : ∀ j, ((Function.update s.holding i (.searching vl)) j).list? =
      (s.holding j).list? := by
    intro j
    by_cases heq : j = i
    · subst heq
      rw [Function.update_self]
      exact hi.symm
    · rw [Function.update_of_ne heq]
  refine ⟨h.sound.modify vl hf, fun j vl' hj => ?_, fun j j' vl' hj hj' => ?_,
    fun j vl' hj id hid => ?_⟩
  all_goals dsimp only at *
  · rw [hlist] at hj
    rw [VisitedListPool.length_lists_modify]
    exact h.held j vl' hj
  · rw [hlist] at hj hj'
    exact h.distinct j j' vl' hj hj'
  · by_cases heq : j = i
    · subst heq
      rw [Function.update_self] at hj
      obtain rfl := Holding.searching.inj hj
      rw [Function.update_self]
      exact hmarks id hid
    · rw [Function.update_of_ne heq] at hj
      rw [Function.update_of_ne heq]
      have hne : vl ≠ vl' := by
        rintro rfl
        exact heq (h.distinct j i vl (by rw [hj]; rfl) hi)
      rw [VisitedListPool.isVisited_modify f hne]
      exact h.visited j vl' hj id hid

theorem Exclusive.release (h : s.Exclusive) (hi : (s.holding i).list? = some vl) :
    ({ s with
       lists := s.lists.releaseVisitedList vl
       holding := Function.update s.holding i .nothing } : Searches ι).Exclusive := by
  obtain ⟨hlt, hnot⟩ := h.held i vl hi
  have hother : ∀ j vl', ((Function.update s.holding i .nothing) j).list? = some vl' →
      j ≠ i ∧ (s.holding j).list? = some vl' := by
    intro j vl' hj
    by_cases heq : j = i
    · subst heq
      rw [Function.update_self] at hj
      cases hj
    · rw [Function.update_of_ne heq] at hj
      exact ⟨heq, hj⟩
  refine ⟨h.sound.release hlt hnot, fun j vl' hj => ?_, fun j j' vl' hj hj' => ?_,
    fun j vl' hj id hid => ?_⟩
  all_goals dsimp only at *
  · obtain ⟨hne, hj⟩ := hother j vl' hj
    obtain ⟨hlt', hnot'⟩ := h.held j vl' hj
    refine ⟨hlt', fun hin => ?_⟩
    obtain rfl | hin := List.mem_cons.mp hin
    · exact hne (h.distinct j i vl' hj hi)
    · exact hnot' hin
  · exact h.distinct j j' vl' (hother j vl' hj).2 (hother j' vl' hj').2
  · by_cases heq : j = i
    · subst heq
      rw [Function.update_self] at hj
      cases hj
    · rw [Function.update_of_ne heq] at hj
      exact h.visited j vl' hj id hid

theorem Exclusive.step (h : s.Exclusive) (a : SearchAct ι) : (s.step a).Exclusive := by
  cases a with
  | getFree i memory =>
    unfold Searches.step
    dsimp only
    cases hi : s.holding i with
    | nothing => exact h.getFree hi (VisitedListPool.hands_getFreeVisitedList h.sound memory)
    | taken vl => exact h
    | searching vl => exact h
  | reset i =>
    unfold Searches.step
    dsimp only
    cases hi : s.holding i with
    | nothing => exact h
    | searching vl => exact h
    | taken vl =>
      have hlist : (s.holding i).list? = some vl := by rw [hi]; rfl
      refine h.write hlist VisitedList.length_mass_reset ∅ fun id _ => ?_
      rw [VisitedListPool.isVisited_modify_self (h.held i vl hlist).1, VisitedList.isVisited_reset]
      simp
  | visit i id =>
    unfold Searches.step
    dsimp only
    cases hi : s.holding i with
    | nothing => exact h
    | taken vl => exact h
    | searching vl =>
      have hlist : (s.holding i).list? = some vl := by rw [hi]; rfl
      obtain ⟨hlt, _⟩ := h.held i vl hlist
      dsimp only
      split_ifs with hid
      swap
      · exact h
      have hwrite := h.write hlist (f := fun l => l.mark id) (VisitedList.length_mass_mark · id)
        (insert id (s.marked i)) fun id' hid' => ?_
      · rwa [← hi, Function.update_eq_self] at hwrite
      · have hsize := h.sound.size _ (List.get_mem s.lists.lists ⟨vl, hlt⟩)
        have hold := h.visited i vl hi id' hid'
        rw [VisitedListPool.isVisited_modify_self hlt, VisitedList.isVisited_mark (by rwa [hsize]),
          Bool.or_eq_true, decide_eq_true_iff, Finset.mem_insert]
        unfold VisitedListPool.isVisited at hold
        rw [List.getElem?_eq_getElem hlt] at hold
        exact or_congr_right hold
  | release i =>
    unfold Searches.step
    dsimp only
    cases hi : s.holding i with
    | nothing => exact h
    | taken vl => exact h
    | searching vl => exact h.release (by rw [hi]; rfl)

/-- Whatever searches run at the same time, and whatever is in the memory of new lists: in the list of
    a search exactly those slots are marked that it has marked itself, and the list is its own. -/
theorem pool_visited (numelements : ℕ) (memories : List (ℕ → UInt16))
    (h : List (Searches ι × SearchAct ι)) (s : Searches ι)
    (hr : Run step anyStep (init numelements memories) h s) :
    (∀ i vl, s.holding i = .searching vl → ∀ id < s.lists.numelements,
      (s.lists.isVisited vl id = true ↔ id ∈ s.marked i)) ∧
    ∀ i j vl, (s.holding i).list? = some vl → (s.holding j).list? = some vl → i = j := by
  have hs : s.Exclusive :=
    Run.invariant (exclusive_init numelements memories) (fun _ a hs _ => hs.step a) hr
  exact ⟨hs.visited, hs.distinct⟩

/-- Two searches overlap, and a third one gets a list that the first has given back. -/
def sampleActs : List (SearchAct Bool) :=
  [.getFree true fun _ => 1, .reset true, .getFree false fun _ => 1, .visit true 1, .reset false,
    .visit false 0, .release true, .getFree true fun _ => 0, .reset true, .visit true 2]

theorem pool_visited_sampleActs :
    (∀ i vl, (sampleActs.foldl step (init 3 [fun _ => 7])).holding i = .searching vl → ∀ id <
      (sampleActs.foldl step (init 3 [fun _ => 7])).lists.numelements,
      ((sampleActs.foldl step (init 3 [fun _ => 7])).lists.isVisited vl id = true ↔
        id ∈ (sampleActs.foldl step (init 3 [fun _ => 7])).marked i)) ∧
    ∀ i j vl, ((sampleActs.foldl step (init 3 [fun _ => 7])).holding i).list? = some vl →
      ((sampleActs.foldl step (init 3 [fun _ => 7])).holding j).list? = some vl → i = j :=
  pool_visited 3 [fun _ => 7] _ _ (run_history sampleActs fun _ _ => trivial)

end Searches

end MyKvRaft
