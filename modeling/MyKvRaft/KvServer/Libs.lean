import MyKvRaft.KvServer.OpCoder

/-!
# What the `KvServer` is built on

The server keeps its pairs in a `SkipList` (a submodule that is not part of the
repository), reads features with code generated by protobuf, labels items with
`std::hash`, and its HNSW index keeps a `std::unordered_set` of slots, of which it takes
`*begin()`. `Libs` says what is known of these: a skip list is a map whose
`insert_element` overwrites, and the first element of a set is one of its elements.
-/

namespace MyKvRaft

/-- `message ItemFeature` (`KvServerRPC.proto`); a `float` is its four bytes. -/
structure ItemFeature where
  itemId : Bytes
  embedding : List UInt32
  attrs : List (Bytes × Bytes)
  timestamp : ℤ
deriving DecidableEq

/-- The code outside the repository. -/
structure Libs where
  /-- `SkipList<std::string, std::string>`. -/
  SkipList : Type
  emptyList : SkipList
  insertElement : SkipList → Bytes → Bytes → SkipList
  searchElement : SkipList → Bytes → Option Bytes
  foreach : SkipList → List (Bytes × Bytes)
  search_empty : ∀ key, searchElement emptyList key = none
  search_insert : ∀ kvdb key value key', searchElement (insertElement kvdb key value) key' =
    if key' = key then some value else searchElement kvdb key'
  mem_foreach : ∀ kvdb key value, (key, value) ∈ foreach kvdb ↔
    searchElement kvdb key = some value
  /-- `ItemFeature::ParseFromString`. -/
  parseFromString : Bytes → Option ItemFeature
  /-- `std::hash<std::string>`. -/
  hasher : Bytes → UInt64
  /-- `std::unordered_set<tableint>`. -/
  IdSet : Type
  emptySet : IdSet
  contains : IdSet → ℕ → Bool
  insert : IdSet → ℕ → IdSet
  erase : IdSet → ℕ → IdSet
  /-- `*begin()`, for a set that is not empty. -/
  first : IdSet → Option ℕ
  contains_empty : ∀ id, contains emptySet id = false
  contains_insert : ∀ ids id id', contains (insert ids id) id' = (id' == id || contains ids id')
  contains_erase : ∀ ids id id', contains (erase ids id) id' = (id' != id && contains ids id')
  first_some : ∀ ids id, first ids = some id → contains ids id = true
  first_none : ∀ ids, first ids = none → ∀ id, contains ids id = false

attribute [simp] Libs.search_empty Libs.search_insert Libs.contains_empty Libs.contains_insert
  Libs.contains_erase

/-! ## An instance -/

namespace Listed

/-- A skip list as the list of its pairs: no key comes twice. -/
def Pairs : Type := { kvdb : List (Bytes × Bytes) // (kvdb.map (·.1)).Nodup }

def insertList : List (Bytes × Bytes) → Bytes → Bytes → List (Bytes × Bytes)
  | [], key, value => [(key, value)]
  | p :: kvdb, key, value =>
    if p.1 = key then (key, value) :: kvdb else p :: insertList kvdb key value

theorem mem_keys_insertList {kvdb : List (Bytes × Bytes)} {key value key' : Bytes} :
    key' ∈ (insertList kvdb key value).map (·.1) ↔ key' = key ∨ key' ∈ kvdb.map (·.1) := by
  induction kvdb with
  | nil => simp [insertList]
  | cons p kvdb ih =>
    unfold insertList
    by_cases hp : p.1 = key
    · rw [if_pos hp]
      simp [hp]
    · rw [if_neg hp, List.map_cons, List.mem_cons, ih, List.map_cons, List.mem_cons]
      tauto

theorem nodup_insertList {kvdb : List (Bytes × Bytes)} (h : (kvdb.map (·.1)).Nodup)
    (key value : Bytes) : ((insertList kvdb key value).map (·.1)).Nodup := by
  induction kvdb with
  | nil => simp [insertList]
  | cons p kvdb ih =>
    rw [List.map_cons, List.nodup_cons] at h
    unfold insertList
    by_cases hp : p.1 = key
    · rw [if_pos hp, List.map_cons, List.nodup_cons]
      exact ⟨hp ▸ h.1, h.2⟩
    · rw [if_neg hp, List.map_cons, List.nodup_cons, mem_keys_insertList]
      exact ⟨fun hmem => hmem.elim hp h.1, ih h.2⟩

def insertElement (kvdb : Pairs) (key value : Bytes) : Pairs :=
  ⟨insertList kvdb.1 key value, nodup_insertList kvdb.2 key value⟩

def searchElement (kvdb : Pairs) (key : Bytes) : Option Bytes :=
  (kvdb.1.find? fun p => p.1 = key).map (·.2)

theorem search_insert (kvdb : Pairs) (key value key' : Bytes) :
    searchElement (insertElement kvdb key value) key' =
      if key' = key then some value else searchElement kvdb key' := by
  obtain ⟨kvdb, h⟩ := kvdb
  unfold searchElement insertElement
  dsimp only
  clear h
  induction kvdb with
  | nil =>
    by_cases hkey : key' = key
    · simp [insertList, hkey]
    · simp [insertList, hkey, Ne.symm hkey]
  | cons p kvdb ih =>
    unfold insertList
    by_cases hp : p.1 = key
    · rw [if_pos hp]
      by_cases hkey : key' = key
      · simp [hkey]
      · simp [hkey, Ne.symm hkey, hp]
    · rw [if_neg hp]
      by_cases hp' : p.1 = key'
      · have hkey : key' ≠ key := fun h => hp (hp'.trans h)
        simp [hp', hkey]
      · simpa [hp'] using ih

theorem mem_pairs (kvdb : Pairs) (key value : Bytes) :
    (key, value) ∈ kvdb.1 ↔ searchElement kvdb key = some value := by
  obtain ⟨kvdb, h⟩ := kvdb
  unfold searchElement
  dsimp only
  induction kvdb with
  | nil => simp
  | cons p kvdb ih =>
    rw [List.map_cons, List.nodup_cons] at h
    rw [List.mem_cons]
    by_cases hp : p.1 = key
    · have hnot : (key, value) ∉ kvdb := fun hmem =>
        h.1 (List.mem_map.mpr ⟨_, hmem, hp.symm⟩)
      rw [List.find?_cons_of_pos (by simpa using hp)]
      constructor
      · rintro (heq | hmem)
        · simp [← heq]
        · exact absurd hmem hnot
      · intro hval
        left
        rw [← hp, ← Option.some.inj hval]
    · have hne : (key, value) ≠ p := fun heq => hp (by rw [← heq])
      rw [List.find?_cons_of_neg (by simpa using hp), ← ih h.2]
      simp [hne]

/-- Features as protobuf writes them: field 1 is the id, of less than 128 bytes, and field 2 has
    the 512 bytes of 128 floats. Other texts are not read. -/
def parseFromString : Bytes → Option ItemFeature
  | 10 :: len :: rest =>
    match rest.drop len.toNat with
    | 18 :: 128 :: 4 :: floats =>
      if len.toNat < 128 ∧ rest.length = len.toNat + 3 + 512 then
        some ⟨rest.take len.toNat, (List.range 128).map (fun k =>
          UInt32.ofNat (u32Value (floats.getD (4 * k) 0) (floats.getD (4 * k + 1) 0)
            (floats.getD (4 * k + 2) 0) (floats.getD (4 * k + 3) 0))), [], 0⟩
      else none
    | _ => none
  | _ => none

end Listed

/-- Pairs and slots in lists; strings are labelled by their bytes as a number, so short ones get
    different labels. -/
def listLibs : Libs where
  SkipList := Listed.Pairs
  emptyList := ⟨[], List.nodup_nil⟩
  insertElement := Listed.insertElement
  searchElement := Listed.searchElement
  foreach kvdb := kvdb.1
  search_empty _ := rfl
  search_insert := Listed.search_insert
  mem_foreach := Listed.mem_pairs
  parseFromString := Listed.parseFromString
  hasher id := UInt64.ofNat (id.foldl (fun n b => 256 * n + b.toNat + 1) 0)
  IdSet := List ℕ
  emptySet := []
  contains ids id := ids.contains id
  insert ids id := id :: ids
  erase ids id := ids.filter (· != id)
  first ids := ids.head?
  contains_empty _ := rfl
  contains_insert ids id id' := List.contains_cons
  contains_erase ids id id' := by
    by_cases h : id' = id
    · simp [h]
    · simp [h]
  first_some ids id h := by
    simpa using List.mem_of_mem_head? h
  first_none ids h id := by
    rw [List.head?_eq_none_iff] at h
    simp [h]

end MyKvRaft
