import MyKvRaft.Common.BestFirst
import MyKvRaft.Common.Ensures
import MyKvRaft.Common.Greedy

/-!
# Distances and link lists

What the graph of `HierarchicalNSW` (`third_party/hnswlib/hnswalg.h`) is made of: the space
that measures distances, with the containers over it; the ways in which an operation can
fail; and the link lists, each a 16-bit count and an array of neighbours.

* `LinkList.ensures_fill`, `LinkList.ensures_push`: how a list is written.
-/

namespace MyKvRaft

/-- `SpaceInterface<dist_t>` with `dist_t`, and the containers of `hnswalg.h`. `<` on floats is no
    order where a NaN comes in; `std::priority_queue` and `std::unordered_set` leave it open which
    of several elements comes first. -/
structure Space where
  Dist : Type
  lt : Dist → Dist → Bool
  lt_irrefl : ∀ d, lt d d = false
  lt_trans : ∀ a b c, lt a b = true → lt b c = true → lt a c = true
  /-- `std::numeric_limits<dist_t>::max()`. -/
  limit : Dist
  /-- `fstdistfunc_`. -/
  distFunc : List UInt32 → List UInt32 → Dist
  /-- A queue over `CompareByFirst`. -/
  topCandidates : PriorityQueue (Dist × ℕ) fun a b => lt a.1 b.1
  /-- A queue over `CompareByFirst` that is filled with negated distances. -/
  candidateSet : PriorityQueue (Dist × ℕ) fun a b => lt b.1 a.1
  /-- `queue_closest`: pairs of a negated distance and a slot. -/
  queueClosest : PriorityQueue (Dist × ℕ) fun a b =>
    lt b.1 a.1 || (!lt a.1 b.1 && decide (a.2 < b.2))
  /-- The queue that `searchKnn` returns: pairs of a distance and a label. -/
  result : PriorityQueue (Dist × UInt64) fun a b =>
    lt a.1 b.1 || (!lt b.1 a.1 && decide (a.2 < b.2))
  /-- An `std::unordered_set<tableint>` that has been given these elements, as it is iterated. -/
  iterate : List ℕ → List ℕ
  iterate_nodup : ∀ ids, (iterate ids).Nodup
  mem_iterate : ∀ ids id, id ∈ iterate ids ↔ id ∈ ids

/-- How an operation of the index can end other than by returning. -/
inductive Fault where
  /- exceptions about what the caller asks for -/
  | replacementDisabled
  | labelNotFound
  | alreadyDeleted
  | notDeleted
  | updatesDeleted
  | tooManyElements
  | resizeTooSmall
  /- exceptions about the graph -/
  | tooManySelected
  | notBlank
  | memoryCorruption
  | nonExistentLevel
  | badCount
  | selfLink
  | levelAboveMax
  | candError
  | levelError
  /- exceptions about a file -/
  | cannotOpen
  | corrupted
  /- no exception: the behaviour is undefined, or there is no end -/
  | outOfBounds
  | emptyTop
  | emptyBack
  | endless
deriving DecidableEq

namespace Fault

/-- The text of the `std::runtime_error`. -/
def what : Fault → Option String
  | replacementDisabled => some "Replacement of deleted elements is disabled in constructor"
  | labelNotFound => some "Label not found"
  | alreadyDeleted => some "The requested to delete element is already deleted"
  | notDeleted => some "The requested to undelete element is not deleted"
  | updatesDeleted => some ("Can't use addPoint to update deleted elements if replacement of " ++
      "deleted elements is enabled.")
  | tooManyElements => some "The number of elements exceeds the specified limit"
  | resizeTooSmall =>
      some "Cannot resize, max element is less than the current number of elements"
  | tooManySelected =>
      some "Should be not be more than M_ candidates returned by the heuristic"
  | notBlank => some "The newly inserted element should have blank link list"
  | memoryCorruption => some "Possible memory corruption"
  | nonExistentLevel => some "Trying to make a link on a non-existent level"
  | badCount => some "Bad value of sz_link_list_other"
  | selfLink => some "Trying to connect an element to itself"
  | levelAboveMax => some "Level of item to be updated cannot be bigger than max level"
  | candError => some "cand error"
  | levelError => some "Level error"
  | cannotOpen => some "Cannot open file"
  | corrupted => some "Index seems to be corrupted or unsupported"
  | outOfBounds | emptyTop | emptyBack | endless => none

/-- Exceptions that refuse what the caller asks for; the others would be about the graph itself. -/
def refuses : Fault → Bool
  | replacementDisabled | labelNotFound | alreadyDeleted | notDeleted | updatesDeleted
  | tooManyElements | resizeTooSmall => true
  | _ => false

end Fault

/-- A link list: its count, and the neighbours with what is left of earlier ones behind them. -/
structure LinkList where
  count : ℕ
  data : List ℕ
deriving DecidableEq

namespace LinkList

/-- Zeroed memory for up to `cap` neighbours. -/
def blank (cap : ℕ) : LinkList := ⟨0, List.replicate cap 0⟩

def links (l : LinkList) : List ℕ := l.data.take l.count

/-- `setListCount`: the count is an `unsigned short`. -/
def setListCount (l : LinkList) (size : ℕ) : LinkList := { l with count := size % 2 ^ 16 }

/-- The neighbours are written to the front of the list. -/
def fill (l : LinkList) (ids : List ℕ) : Except Fault LinkList :=
  if ids.length ≤ l.data.length then
    .ok ({ l with data := ids ++ l.data.drop ids.length }.setListCount ids.length)
  else .error .outOfBounds

/-- A neighbour is written behind the others. -/
def push (l : LinkList) (id : ℕ) : Except Fault LinkList :=
  if l.count < l.data.length then
    .ok ({ l with data := l.data.set l.count id }.setListCount (l.count + 1))
  else .error .outOfBounds

/-- A list of memory for `cap` neighbours that holds `ids`. -/
structure Lists (l : LinkList) (cap : ℕ) (ids : List ℕ) : Prop where
  size : l.data.length = cap
  count_le : l.count ≤ cap
  links : l.links = ids

variable {l : LinkList} {cap : ℕ} {ids : List ℕ} {fail : Fault → Prop}

theorem lists_blank (cap : ℕ) : (blank cap).Lists cap [] :=
  ⟨List.length_replicate, Nat.zero_le _, rfl⟩

theorem Lists.length_eq (h : l.Lists cap ids) : ids.length = l.count := by
  rw [← h.links, LinkList.links, List.length_take, h.size]
  exact Nat.min_eq_left h.count_le

theorem Lists.length_le (h : l.Lists cap ids) : ids.length ≤ cap := by
  rw [h.length_eq]
  exact h.count_le

/-- Up to here a count fits its 16 bits. -/
def maxCap : ℕ := 20000

theorem ensures_fill (hsize : l.data.length = cap) (hcap : cap ≤ maxCap) {ids : List ℕ}
    (hlen : ids.length ≤ cap) : (l.fill ids).Ensures (·.Lists cap ids) fail := by
  unfold fill
  rw [if_pos (by omega)]
  have hcount : ids.length % 2 ^ 16 = ids.length := by
    unfold maxCap at hcap
    omega
  refine ⟨?_, ?_, ?_⟩
  · show (ids ++ l.data.drop ids.length).length = cap
    rw [List.length_append, List.length_drop]
    omega
  · show ids.length % 2 ^ 16 ≤ cap
    omega
  · show (ids ++ l.data.drop ids.length).take (ids.length % 2 ^ 16) = ids
    rw [hcount, List.take_left]

theorem ensures_push (h : l.Lists cap ids) (hcap : cap ≤ maxCap) (hlen : ids.length < cap)
    (id : ℕ) : (l.push id).Ensures (·.Lists cap (ids ++ [id])) fail := by
  have hcount := h.length_eq
  unfold push
  rw [if_pos (by rw [h.size]; omega)]
  have hmod : (l.count + 1) % 2 ^ 16 = l.count + 1 := by
    unfold maxCap at hcap
    omega
  refine ⟨?_, ?_, ?_⟩
  · show (l.data.set l.count id).length = cap
    rw [List.length_set, h.size]
  · show (l.count + 1) % 2 ^ 16 ≤ cap
    omega
  · show (l.data.set l.count id).take ((l.count + 1) % 2 ^ 16) = ids ++ [id]
    have hlt : l.count < l.data.length := by
      rw [h.size]
      omega
    rw [hmod, List.take_add_one, List.getElem?_set_self hlt, List.take_set_of_le le_rfl]
    exact congrArg (· ++ [id]) h.links

end LinkList

/-! ## An instance -/

/-- The bits of `1.0f`. -/
def floatOne : UInt32 := 0x3f800000

/-- `InnerProductSpace` (`space_ip.h`) on vectors of `0.0f` and `1.0f`, with containers that are
    lists. -/
def innerProductSpace : Space where
  Dist := ℤ
  lt a b := decide (a < b)
  lt_irrefl d := by simp
  lt_trans a b c hab hbc := by
    rw [decide_eq_true_eq] at *
    omega
  limit := (2 ^ 24 - 1) * 2 ^ 104
  distFunc x y := 1 - ((x.zip y).countP fun p => p.1 == floatOne && p.2 == floatOne : ℕ)
  topCandidates := .ofList _
  candidateSet := .ofList _
  queueClosest := .ofList _
  result := .ofList _
  iterate := List.dedup
  iterate_nodup := List.nodup_dedup
  mem_iterate ids id := List.mem_dedup

theorem strictWeak_innerProductSpace : StrictWeak innerProductSpace.lt :=
  StrictWeak.strictWeak_of_linearOrder (α := ℤ)

end MyKvRaft
