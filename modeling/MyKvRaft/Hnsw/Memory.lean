import MyKvRaft.Common.InStream
import MyKvRaft.Hnsw.Operations

/-!
# The memory of the index

`HierarchicalNSW` keeps its slots in one block of memory, `data_level0_memory_`: for each the
link list of level 0, the vector and the label. The lists of the levels above are in a block of
their own. `HnswMemory` is the object with these blocks, and reads them through the offsets that
it has; `Represents` says which graph it holds.

* `represents_memory`: the memory of a sound graph.
-/

namespace MyKvRaft

open BinaryFile

variable {P : Libs}

/-- The fields that `saveIndex` writes in front of the slots. `maxlevel` is an `int` and `mult` a
    `double`, as their bits. -/
structure IndexHeader where
  offsetLevel0 : UInt64
  maxElements : UInt64
  curElementCount : UInt64
  sizeDataPerElement : UInt64
  labelOffset : UInt64
  offsetData : UInt64
  maxlevel : UInt32
  enterpointNode : UInt32
  maxM : UInt64
  maxM0 : UInt64
  m : UInt64
  mult : UInt64
  efConstruction : UInt64
deriving DecidableEq

/-- `HierarchicalNSW` as it is in memory. Of `data_level0_memory_`, `linkLists_` and
    `element_levels_` the part for the slots in use. -/
structure HnswMemory (P : Libs) where
  header : IndexHeader
  dataSize : UInt64
  sizeLinksPerElement : UInt64
  ef : ℕ
  dataLevel0Memory : Bytes
  linkLists : List Bytes
  elementLevels : List ℕ
  labelLookup : UInt64 → Option ℕ
  numDeleted : ℕ
  allowReplaceDeleted : Bool
  deletedElements : P.IdSet

/-- `len` bytes of a block, if they are in it. -/
def peek (block : Bytes) (addr len : ℕ) : Option Bytes :=
  if addr + len ≤ block.length then some ((block.drop addr).take len) else none

/-- A link list in memory: its count in two bytes, a byte whose low bit is the deletion mark, one
    that is zero, and the neighbours. -/
def LinkList.toBytes (mark : Bool) (l : LinkList) : Bytes :=
  leBytes 2 l.count ++ ([if mark then 1 else 0, 0] ++ l.data.flatMap (leBytes 4))

def words : Bytes → List ℕ
  | a :: b :: c :: d :: bytes => leValue [a, b, c, d] :: words bytes
  | _ => []

/-- `getListCount` and the neighbours behind it. -/
def LinkList.ofBytes (bytes : Bytes) : LinkList := ⟨leValue (bytes.take 2), words (bytes.drop 4)⟩

def deleteMark : UInt8 := 0x01

namespace HnswMemory

variable (mem : HnswMemory P)

/-- `data_level0_memory_ + internal_id * size_data_per_element_ + offset`. -/
def slotAddress (id : UInt32) (offset : UInt64) : ℕ :=
  (id.toUInt64 * mem.header.sizeDataPerElement + offset).toNat

def getExternalLabel (id : UInt32) : Option UInt64 :=
  (peek mem.dataLevel0Memory (mem.slotAddress id mem.header.labelOffset) 8).map fun bytes =>
    UInt64.ofNat (leValue bytes)

def getDataByInternalId (id : UInt32) : Option Bytes :=
  peek mem.dataLevel0Memory (mem.slotAddress id mem.header.offsetData) mem.dataSize.toNat

/-- `isMarkedDeleted` (lines 934–937). -/
def isMarkedDeleted (id : UInt32) : Option Bool :=
  (peek mem.dataLevel0Memory (mem.slotAddress id mem.header.offsetLevel0 + 2) 1).map
    (·.any fun c => c &&& deleteMark != 0)

/-- `get_linklist_at_level` (lines 486–503), with the list that is there. -/
def getLinkListAtLevel (id : UInt32) (level : ℕ) : Option LinkList :=
  if level = 0 then
    (peek mem.dataLevel0Memory (mem.slotAddress id mem.header.offsetLevel0)
      (mem.header.maxM0 * 4 + 4).toNat).map .ofBytes
  else
    (mem.linkLists[id.toNat]?.bind fun block =>
      peek block ((level - 1) * mem.sizeLinksPerElement.toNat) mem.sizeLinksPerElement.toNat).map
        .ofBytes

/-- `enterpoint_node_` with `maxlevel_`. -/
def entry : Option (ℕ × ℕ) :=
  if mem.header.maxlevel = -1 then none
  else some (mem.header.enterpointNode.toNat, mem.header.maxlevel.toNat)

/-- `indexFileSize` (lines 658–683). -/
def indexFileSize : ℕ :=
  8 + 8 + 8 + 8 + 8 + 8 + 4 + 4 + 8 + 8 + 8 + 8 + 8 +
    mem.header.curElementCount.toNat * mem.header.sizeDataPerElement.toNat +
    (mem.elementLevels.map fun level =>
      4 + if level > 0 then mem.sizeLinksPerElement.toNat * level else 0).sum

/-- The blocks have the sizes that the fields give them, and no size outgrows its type. -/
structure Shaped : Prop where
  slots : mem.dataLevel0Memory.length =
    mem.header.curElementCount.toNat * mem.header.sizeDataPerElement.toNat
  room : mem.header.curElementCount ≤ mem.header.maxElements
  allocated : mem.header.maxElements.toNat * mem.header.sizeDataPerElement.toNat < 2 ^ 63
  ids : mem.header.curElementCount.toNat ≤ 2 ^ 32
  sizeLinks : mem.sizeLinksPerElement = mem.header.maxM * 4 + 4
  sizeLinks_pos : 0 < mem.sizeLinksPerElement.toNat
  levels : mem.elementLevels.length = mem.header.curElementCount.toNat
  lists : mem.linkLists.map List.length =
    mem.elementLevels.map (mem.sizeLinksPerElement.toNat * ·)
  lists_lt : ∀ block ∈ mem.linkLists, block.length < 2 ^ 32
  file : mem.indexFileSize < 2 ^ 63

/-- The object holds the graph `g`, whose vectors have `dim` coordinates. -/
structure Represents (dim : ℕ) (g : HnswGraph P) : Prop where
  maxElements : mem.header.maxElements.toNat = g.store.maxElements
  count : mem.header.curElementCount.toNat = g.curElementCount
  entry : mem.entry = g.entry
  maxM : mem.header.maxM.toNat = g.cap 1
  maxM0 : mem.header.maxM0.toNat = g.cap 0
  m : mem.header.m.toNat = g.m
  efConstruction : mem.header.efConstruction.toNat = g.efConstruction
  ef : mem.ef = g.ef
  dataSize : mem.dataSize.toNat = 4 * dim
  label : ∀ id < g.curElementCount,
    mem.getExternalLabel (UInt32.ofNat id) = some (g.getExternalLabel id)
  data : ∀ id < g.curElementCount, mem.getDataByInternalId (UInt32.ofNat id) =
    some ((g.getDataByInternalId id).flatMap fun x => leBytes 4 x.toNat)
  mark : ∀ id < g.curElementCount,
    mem.isMarkedDeleted (UInt32.ofNat id) = some (g.isMarkedDeleted id)
  links : ∀ id < g.curElementCount, ∀ level,
    (mem.getLinkListAtLevel (UInt32.ofNat id) level).map LinkList.links =
      (g.linkList? id level).map LinkList.links
  labelLookup : mem.labelLookup = g.store.labelLookup
  numDeleted : mem.numDeleted = g.numDeleted
  allowReplaceDeleted : mem.allowReplaceDeleted = g.store.allowReplaceDeleted
  deletedElements : mem.deletedElements = g.store.deletedElements

end HnswMemory

/-! ## Blocks of memory -/

theorem peek_append (before bytes after : Bytes) :
    peek (before ++ (bytes ++ after)) before.length bytes.length = some bytes := by
  unfold peek
  rw [if_pos (by simp), List.drop_left, List.take_left]

/-- A part of one of several blocks of `size` bytes that stand one behind the other. -/
theorem peek_flatMap {α : Type} {enc : α → Bytes} {size : ℕ} {xs : List α} {i : ℕ} {x : α}
    (hsize : ∀ y ∈ xs, (enc y).length = size) (hx : xs[i]? = some x) (before bytes after : Bytes)
    (henc : enc x = before ++ (bytes ++ after)) :
    peek (xs.flatMap enc) (i * size + before.length) bytes.length = some bytes := by
  obtain ⟨hi, rfl⟩ := List.getElem?_eq_some_iff.mp hx
  have hsplit : xs.flatMap enc =
      ((xs.take i).flatMap enc ++ before) ++ (bytes ++ (after ++ (xs.drop (i + 1)).flatMap enc)) := by
    conv_lhs => rw [← List.take_append_drop i xs, List.drop_eq_getElem_cons hi]
    rw [List.flatMap_append, List.flatMap_cons, henc]
    simp only [List.append_assoc]
  have hlen : ((xs.take i).flatMap enc).length = i * size := by
    rw [List.length_flatMap, List.map_congr_left fun y hy => hsize y (List.mem_of_mem_take hy),
      List.map_const', List.sum_replicate, List.length_take, Nat.min_eq_left hi.le, smul_eq_mul]
  have h := peek_append ((xs.take i).flatMap enc ++ before) bytes
    (after ++ (xs.drop (i + 1)).flatMap enc)
  rwa [← hsplit, List.length_append, hlen] at h

theorem length_flatMap_const {α : Type} {enc : α → Bytes} {size : ℕ} {xs : List α}
    (hsize : ∀ y ∈ xs, (enc y).length = size) : (xs.flatMap enc).length = xs.length * size := by
  rw [List.length_flatMap, List.map_congr_left hsize, List.map_const', List.sum_replicate,
    smul_eq_mul]

theorem words_flatMap (ids : List ℕ) :
    words (ids.flatMap (leBytes 4)) = ids.map (· % 2 ^ 32) := by
  induction ids with
  | nil => rfl
  | cons id ids ih =>
    have hword : leValue (leBytes 4 id) = id % 2 ^ 32 := leValue_leBytes 4 id
    rw [List.flatMap_cons, List.map_cons, ← hword, ← ih]
    rfl

namespace LinkList

theorem length_toBytes (mark : Bool) (l : LinkList) :
    (l.toBytes mark).length = l.data.length * 4 + 4 := by
  unfold toBytes
  rw [List.length_append, List.length_append, length_leBytes,
    length_flatMap_const fun _ _ => length_leBytes 4 _]
  simp only [List.length_cons, List.length_nil]
  omega

/-- The neighbours are read as they have been written. -/
theorem links_ofBytes {l : LinkList} {cap : ℕ} {ids : List ℕ} (h : l.Lists cap ids)
    (hcap : cap ≤ maxCap) (hids : ∀ c ∈ ids, c < 2 ^ 32) (mark : Bool) :
    (ofBytes (l.toBytes mark)).links = ids := by
  have hcount : leValue ((l.toBytes mark).take 2) = l.count := by
    have htake : (l.toBytes mark).take 2 = leBytes 2 l.count := List.take_left' (length_leBytes ..)
    have hle := h.count_le
    unfold maxCap at hcap
    rw [htake, leValue_leBytes]
    exact Nat.mod_eq_of_lt (by omega)
  have hdata : words ((l.toBytes mark).drop 4) = l.data.map (· % 2 ^ 32) := by
    rw [← words_flatMap]
    rfl
  show (words _).take (leValue _) = ids
  rw [hcount, hdata, ← List.map_take]
  have hlinks : l.data.take l.count = ids := h.links
  rw [hlinks]
  conv_rhs => rw [← List.map_id ids]
  exact List.map_congr_left fun c hc => Nat.mod_eq_of_lt (hids c hc)

end LinkList

/-! ## The memory of a graph -/

namespace HnswGraph

variable (g : HnswGraph P)

/-- `size_data_per_element_`. -/
def slotSize (dim : ℕ) : ℕ := g.cap 0 * 4 + 4 + 4 * dim + 8

/-- A slot in `data_level0_memory_`. -/
def slotBytes (p : Element × List LinkList) : Bytes :=
  (p.2.headD (.blank 0)).toBytes p.1.deleted ++
    ((p.1.data.flatMap fun x => leBytes 4 x.toNat) ++ leBytes 8 p.1.label.toNat)

/-- The object that holds the graph. -/
def memory (dim : ℕ) (mult : UInt64) : HnswMemory P where
  header :=
    { offsetLevel0 := 0
      maxElements := .ofNat g.store.maxElements
      curElementCount := .ofNat g.curElementCount
      sizeDataPerElement := .ofNat (g.slotSize dim)
      labelOffset := .ofNat (g.cap 0 * 4 + 4 + 4 * dim)
      offsetData := .ofNat (g.cap 0 * 4 + 4)
      maxlevel := match g.entry with
        | none => -1
        | some (_, maxlevel) => .ofNat maxlevel
      enterpointNode := match g.entry with
        | none => -1
        | some (enterpoint, _) => .ofNat enterpoint
      maxM := .ofNat (g.cap 1)
      maxM0 := .ofNat (g.cap 0)
      m := .ofNat g.m
      mult := mult
      efConstruction := .ofNat g.efConstruction }
  dataSize := .ofNat (4 * dim)
  sizeLinksPerElement := .ofNat (g.cap 1 * 4 + 4)
  ef := g.ef
  dataLevel0Memory := (g.store.elements.zip g.linkLists).flatMap slotBytes
  linkLists := g.linkLists.map fun ls => ls.tail.flatMap (·.toBytes false)
  elementLevels := g.linkLists.map (·.length - 1)
  labelLookup := g.store.labelLookup
  numDeleted := g.numDeleted
  allowReplaceDeleted := g.store.allowReplaceDeleted
  deletedElements := g.store.deletedElements

/-- The sizes are within their types, and every vector has `dim` coordinates. -/
structure FitsMemory (dim : ℕ) : Prop where
  dims : ∀ el ∈ g.store.elements, el.data.length = dim
  slots : g.store.maxElements ≤ 2 ^ 32
  slot : g.slotSize dim < 2 ^ 63
  allocated : g.store.maxElements * g.slotSize dim < 2 ^ 63
  levels : ∀ ls ∈ g.linkLists, (g.cap 1 * 4 + 4) * (ls.length - 1) < 2 ^ 32
  efConstruction : g.efConstruction < 2 ^ 64
  file : (g.memory dim 0).indexFileSize < 2 ^ 63

variable {g} {dim id : ℕ} {mult : UInt64}

theorem toNat_ofNat {n : ℕ} (hn : n < 2 ^ 64) : (UInt64.ofNat n).toNat = n :=
  UInt64.toNat_ofNat_of_lt' hn

variable (mult) in
theorem FitsMemory.sizes (hf : g.FitsMemory dim) (h : g.Integrity) :
    g.store.maxElements < 2 ^ 64 ∧ g.curElementCount ≤ g.store.maxElements ∧
      (g.memory dim mult).header.curElementCount.toNat = g.curElementCount ∧
      (g.memory dim mult).header.maxElements.toNat = g.store.maxElements ∧
      (g.memory dim mult).header.sizeDataPerElement.toNat = g.slotSize dim ∧
      (g.memory dim mult).sizeLinksPerElement.toNat = g.cap 1 * 4 + 4 := by
  have hslots := hf.slots
  have hslot := hf.slot
  have hcount := h.sound.count_le
  have hcap := h.sound.params.cap_le 1
  unfold LinkList.maxCap at hcap
  refine ⟨by omega, hcount, toNat_ofNat (by omega), toNat_ofNat (by omega),
    toNat_ofNat (by omega), toNat_ofNat (by omega)⟩

/-- The slot `id` with its link lists. -/
theorem Integrity.slot (h : g.Integrity) (hid : id < g.curElementCount) :
    ∃ el l ls, g.store.elements[id]? = some el ∧ g.linkLists[id]? = some (l :: ls) ∧
      (g.store.elements.zip g.linkLists)[id]? = some (el, l :: ls) := by
  have hel : g.store.elements[id]? = some g.store.elements[id] := List.getElem?_eq_getElem hid
  have hlen : id < g.linkLists.length := h.sound.length ▸ hid
  obtain ⟨l, hl⟩ := (h.sound.base id hid).exists
  unfold linkList? at hl
  rw [List.getElem?_eq_getElem hlen, Option.bind_some] at hl
  cases hls : g.linkLists[id] with
  | nil =>
    rw [hls] at hl
    cases hl
  | cons l ls =>
    have hls' : g.linkLists[id]? = some (l :: ls) := by rw [List.getElem?_eq_getElem hlen, hls]
    exact ⟨_, l, ls, hel, hls', by rw [List.getElem?_zip_eq_some]; exact ⟨hel, hls'⟩⟩

theorem length_slotBytes (h : g.Integrity) (hf : g.FitsMemory dim) :
    ∀ p ∈ g.store.elements.zip g.linkLists, (slotBytes p).length = g.slotSize dim := by
  intro p hp
  obtain ⟨i, hi⟩ := List.mem_iff_getElem?.mp hp
  obtain ⟨hel, hls⟩ := List.getElem?_zip_eq_some.mp hi
  have hid : i < g.curElementCount := (List.getElem?_eq_some_iff.mp hel).1
  obtain ⟨el, l, ls, hel', hls', -⟩ := h.slot hid
  rw [hel] at hel'
  rw [hls] at hls'
  obtain rfl := Option.some.inj hel'
  have hl : g.linkList? i 0 = some l := by
    unfold linkList?
    rw [hls, hls']
    rfl
  unfold slotBytes slotSize
  rw [Option.some.inj hls', List.headD_cons, List.length_append, List.length_append,
    LinkList.length_toBytes, (h.sound.links i 0 l hl).lists.size, length_leBytes,
    length_flatMap_const fun _ _ => length_leBytes 4 _,
    hf.dims _ (List.mem_of_getElem? hel)]
  omega

variable (mult) in
theorem slotAddress_memory (h : g.Integrity) (hf : g.FitsMemory dim) (hid : id < g.curElementCount)
    (off : ℕ) (hoff : off ≤ g.slotSize dim) :
    (g.memory dim mult).slotAddress (UInt32.ofNat id) (.ofNat off) = id * g.slotSize dim + off := by
  obtain ⟨-, hcount, -, -, hsize, -⟩ := hf.sizes mult h
  have hslots := hf.slots
  have hslot := hf.slot
  have hmul : (id + 1) * g.slotSize dim ≤ g.store.maxElements * g.slotSize dim :=
    Nat.mul_le_mul_right _ (by omega)
  have hall := hf.allocated
  rw [Nat.add_mul, Nat.one_mul] at hmul
  unfold HnswMemory.slotAddress
  rw [UInt64.toNat_add, UInt64.toNat_mul, hsize, UInt32.toNat_toUInt64,
    UInt32.toNat_ofNat_of_lt' (show id < 2 ^ 32 by omega), toNat_ofNat (show off < 2 ^ 64 by omega),
    Nat.mod_eq_of_lt (show id * g.slotSize dim < 2 ^ 64 by omega), Nat.mod_eq_of_lt (by omega)]

variable (mult) in
/-- A part of the slot `id`. -/
theorem peek_slot (h : g.Integrity) (hf : g.FitsMemory dim) {p : Element × List LinkList}
    (hp : (g.store.elements.zip g.linkLists)[id]? = some p) (before bytes after : Bytes)
    (henc : slotBytes p = before ++ (bytes ++ after)) :
    peek (g.memory dim mult).dataLevel0Memory (id * g.slotSize dim + before.length) bytes.length =
      some bytes :=
  peek_flatMap (length_slotBytes h hf) hp before bytes after henc

/-- The lists above level 0 have the same size. -/
theorem length_upperLists (h : g.Integrity) {l : LinkList} {ls : List LinkList}
    (hls : g.linkLists[id]? = some (l :: ls)) :
    ∀ l' ∈ ls, (l'.toBytes false).length = g.cap 1 * 4 + 4 := by
  intro l' hl'
  obtain ⟨j, hj⟩ := List.mem_iff_getElem?.mp hl'
  have hlist : g.linkList? id (j + 1) = some l' := by
    unfold linkList?
    rw [hls, Option.bind_some, List.getElem?_cons_succ, hj]
  rw [LinkList.length_toBytes, (h.sound.links id (j + 1) l' hlist).lists.size]
  rfl

/-- A list is read with the neighbours it has. -/
theorem links_ofBytes_toBytes (h : g.Integrity) (hf : g.FitsMemory dim) {l : LinkList} {level : ℕ}
    (hl : g.linkList? id level = some l) (mark : Bool) :
    (LinkList.ofBytes (l.toBytes mark)).links = l.links := by
  have hlinked := h.sound.links id level l hl
  refine LinkList.links_ofBytes hlinked.lists (h.sound.params.cap_le level) (fun c hc => ?_) mark
  have hlt := (hlinked.hasLevel c hc).lt_length
  have hlen := h.sound.length
  have hcount := h.sound.count_le
  have hslots := hf.slots
  omega

theorem length_upperBlock (h : g.Integrity) {ls : List LinkList} (hls : ls ∈ g.linkLists) :
    (ls.tail.flatMap (·.toBytes false)).length = (g.cap 1 * 4 + 4) * (ls.length - 1) := by
  obtain ⟨i, hi⟩ := List.mem_iff_getElem?.mp hls
  obtain ⟨el, l, tail, -, htail, -⟩ := h.slot (h.sound.length ▸ (List.getElem?_eq_some_iff.mp hi).1)
  rw [hi] at htail
  obtain rfl := Option.some.inj htail
  show (tail.flatMap _).length = (g.cap 1 * 4 + 4) * tail.length
  rw [length_flatMap_const (length_upperLists h hi), Nat.mul_comm]

theorem shaped_memory (h : g.Integrity) (hf : g.FitsMemory dim) :
    (g.memory dim mult).Shaped := by
  obtain ⟨hmax, hcount, hcur, hmaxEq, hsize, hlinks⟩ := hf.sizes mult h
  have hslots := hf.slots
  constructor
  case slots =>
    show ((g.store.elements.zip g.linkLists).flatMap slotBytes).length = _
    rw [hcur, hsize, length_flatMap_const (length_slotBytes h hf), List.length_zip,
      h.sound.length]
    exact congrArg (· * _) (Nat.min_self _)
  case room => exact UInt64.le_iff_toNat_le.mpr (by rw [hcur, hmaxEq]; exact hcount)
  case allocated =>
    rw [hmaxEq, hsize]
    exact hf.allocated
  case ids =>
    rw [hcur]
    omega
  case sizeLinks =>
    refine UInt64.toNat_inj.mp ?_
    have hcap := h.sound.params.cap_le 1
    unfold LinkList.maxCap at hcap
    rw [hlinks, UInt64.toNat_add, UInt64.toNat_mul,
      show (g.memory dim mult).header.maxM = .ofNat (g.cap 1) from rfl, toNat_ofNat (by omega)]
    show g.cap 1 * 4 + 4 = (g.cap 1 * 4 % 2 ^ 64 + 4) % 2 ^ 64
    omega
  case sizeLinks_pos =>
    rw [hlinks]
    omega
  case levels =>
    rw [hcur]
    show (g.linkLists.map _).length = _
    rw [List.length_map]
    exact h.sound.length
  case lists =>
    rw [hlinks]
    show (g.linkLists.map _).map List.length = (g.linkLists.map _).map _
    rw [List.map_map, List.map_map]
    exact List.map_congr_left fun ls hls => length_upperBlock h hls
  case lists_lt =>
    intro block hblock
    obtain ⟨ls, hls, rfl⟩ := List.mem_map.mp hblock
    rw [length_upperBlock h hls]
    exact hf.levels ls hls
  case file => exact hf.file

/-! ## Reading a slot -/

section Slot

variable {el : Element} {l : LinkList} {ls : List LinkList}

theorem linkList?_zero (hls : g.linkLists[id]? = some (l :: ls)) : g.linkList? id 0 = some l := by
  unfold linkList?
  rw [hls]
  rfl

theorem length_baseList (h : g.Integrity) (hls : g.linkLists[id]? = some (l :: ls)) (mark : Bool) :
    (l.toBytes mark).length = g.cap 0 * 4 + 4 := by
  rw [LinkList.length_toBytes, (h.sound.links id 0 l (linkList?_zero hls)).lists.size]

theorem slot_dim (hf : g.FitsMemory dim)
    (hp : (g.store.elements.zip g.linkLists)[id]? = some (el, l :: ls)) :
    id < g.curElementCount ∧ g.linkLists[id]? = some (l :: ls) ∧
      (el.data.flatMap fun x => leBytes 4 x.toNat).length = 4 * dim := by
  obtain ⟨hel, hls⟩ := List.getElem?_zip_eq_some.mp hp
  refine ⟨(List.getElem?_eq_some_iff.mp hel).1, hls, ?_⟩
  rw [length_flatMap_const fun _ _ => length_leBytes 4 _, hf.dims _ (List.mem_of_getElem? hel),
    Nat.mul_comm]

theorem getExternalLabel_memory (h : g.Integrity) (hf : g.FitsMemory dim)
    (hp : (g.store.elements.zip g.linkLists)[id]? = some (el, l :: ls)) :
    (g.memory dim mult).getExternalLabel (.ofNat id) = some el.label := by
  obtain ⟨hid, hls, hdim⟩ := slot_dim hf hp
  have haddr := slotAddress_memory mult h hf hid (g.cap 0 * 4 + 4 + 4 * dim)
    (by unfold slotSize; omega)
  have hpeek := peek_slot mult h hf hp
    (l.toBytes el.deleted ++ el.data.flatMap fun x => leBytes 4 x.toNat)
    (leBytes 8 el.label.toNat) [] (by simp [slotBytes])
  rw [List.length_append, length_baseList h hls, hdim, length_leBytes, ← haddr] at hpeek
  unfold HnswMemory.getExternalLabel
  rw [show (g.memory dim mult).header.labelOffset = .ofNat (g.cap 0 * 4 + 4 + 4 * dim) from rfl,
    hpeek, Option.map_some, leValue_leBytes,
    Nat.mod_eq_of_lt (show el.label.toNat < 256 ^ 8 from el.label.toNat_lt), UInt64.ofNat_toNat]

theorem getDataByInternalId_memory (h : g.Integrity) (hf : g.FitsMemory dim)
    (hp : (g.store.elements.zip g.linkLists)[id]? = some (el, l :: ls)) :
    (g.memory dim mult).getDataByInternalId (.ofNat id) =
      some (el.data.flatMap fun x => leBytes 4 x.toNat) := by
  obtain ⟨hid, hls, hdim⟩ := slot_dim hf hp
  have haddr := slotAddress_memory mult h hf hid (g.cap 0 * 4 + 4)
    (by unfold slotSize; omega)
  have hpeek := peek_slot mult h hf hp (l.toBytes el.deleted)
    (el.data.flatMap fun x => leBytes 4 x.toNat) (leBytes 8 el.label.toNat) (by simp [slotBytes])
  rw [length_baseList h hls, hdim, ← haddr] at hpeek
  have hslot := hf.slot
  unfold slotSize at hslot
  unfold HnswMemory.getDataByInternalId
  rw [show (g.memory dim mult).header.offsetData = .ofNat (g.cap 0 * 4 + 4) from rfl,
    show (g.memory dim mult).dataSize = .ofNat (4 * dim) from rfl, toNat_ofNat (by omega)]
  exact hpeek

theorem isMarkedDeleted_memory (h : g.Integrity) (hf : g.FitsMemory dim)
    (hp : (g.store.elements.zip g.linkLists)[id]? = some (el, l :: ls)) :
    (g.memory dim mult).isMarkedDeleted (.ofNat id) = some el.deleted := by
  obtain ⟨hid, -⟩ := slot_dim hf hp
  have haddr := slotAddress_memory mult h hf hid 0 (Nat.zero_le _)
  have hpeek := peek_slot mult h hf hp (leBytes 2 l.count) [if el.deleted then 1 else 0]
    ([0] ++ (l.data.flatMap (leBytes 4) ++
      ((el.data.flatMap fun x => leBytes 4 x.toNat) ++ leBytes 8 el.label.toNat)))
    (by simp [slotBytes, LinkList.toBytes])
  rw [length_leBytes] at hpeek
  unfold HnswMemory.isMarkedDeleted
  rw [show (g.memory dim mult).header.offsetLevel0 = .ofNat 0 from rfl, haddr]
  have hmark : ∀ d : Bool, [if d then (1 : UInt8) else 0].any (fun c => c &&& deleteMark != 0) = d := by
    decide
  show (peek _ (id * g.slotSize dim + 0 + 2) 1).map _ = _
  rw [Nat.add_zero]
  rw [show [if el.deleted then (1 : UInt8) else 0].length = 1 from rfl] at hpeek
  rw [hpeek, Option.map_some, hmark]

theorem getLinkListAtLevel_memory (h : g.Integrity) (hf : g.FitsMemory dim)
    (hp : (g.store.elements.zip g.linkLists)[id]? = some (el, l :: ls)) (level : ℕ) :
    ((g.memory dim mult).getLinkListAtLevel (.ofNat id) level).map LinkList.links =
      (g.linkList? id level).map LinkList.links := by
  obtain ⟨hid, hls, -⟩ := slot_dim hf hp
  obtain ⟨-, hcount, -, -, -, hlinks⟩ := hf.sizes mult h
  have hslots := hf.slots
  unfold HnswMemory.getLinkListAtLevel
  cases level with
  | zero =>
    have haddr := slotAddress_memory mult h hf hid 0 (Nat.zero_le _)
    have hpeek := peek_slot mult h hf hp [] (l.toBytes el.deleted)
      ((el.data.flatMap fun x => leBytes 4 x.toNat) ++ leBytes 8 el.label.toNat)
      (by simp [slotBytes])
    have hcap := h.sound.params.cap_le 0
    unfold LinkList.maxCap at hcap
    have hsize : ((g.memory dim mult).header.maxM0 * 4 + 4).toNat = g.cap 0 * 4 + 4 := by
      rw [UInt64.toNat_add, UInt64.toNat_mul,
        show (g.memory dim mult).header.maxM0 = .ofNat (g.cap 0) from rfl, toNat_ofNat (by omega)]
      show (g.cap 0 * 4 % 2 ^ 64 + 4) % 2 ^ 64 = _
      omega
    rw [if_pos rfl, show (g.memory dim mult).header.offsetLevel0 = .ofNat 0 from rfl, haddr, hsize,
      ← length_baseList h hls el.deleted]
    have hl := linkList?_zero hls
    rw [show id * g.slotSize dim + 0 = id * g.slotSize dim + ([] : Bytes).length from rfl, hpeek,
      Option.map_some, Option.map_some, links_ofBytes_toBytes h hf hl, hl]
    rfl
  | succ level =>
    have hblock : (g.memory dim mult).linkLists[(UInt32.ofNat id).toNat]? =
        some (ls.flatMap (·.toBytes false)) := by
      rw [UInt32.toNat_ofNat_of_lt' (show id < 2 ^ 32 by omega)]
      show (g.linkLists.map _)[id]? = _
      rw [List.getElem?_map, hls]
      rfl
    have hlist : g.linkList? id (level + 1) = ls[level]? := by
      unfold linkList?
      rw [hls, Option.bind_some, List.getElem?_cons_succ]
    rw [if_neg (by omega), hblock, Option.bind_some, hlinks, hlist, Nat.add_sub_cancel]
    have hlens := length_upperLists h hls
    cases hl : ls[level]? with
    | some l' =>
      have hpeek := peek_flatMap hlens hl [] (l'.toBytes false) [] (by simp)
      rw [hlens l' (List.mem_of_getElem? hl)] at hpeek
      rw [show level * (g.cap 1 * 4 + 4) = level * (g.cap 1 * 4 + 4) + ([] : Bytes).length from rfl,
        hpeek, Option.map_some, Option.map_some, links_ofBytes_toBytes h hf (hlist.trans hl)]
      rfl
    | none =>
      have hle := List.getElem?_eq_none_iff.mp hl
      have hmul : ls.length * (g.cap 1 * 4 + 4) ≤ level * (g.cap 1 * 4 + 4) :=
        Nat.mul_le_mul_right _ hle
      unfold peek
      rw [if_neg (by rw [length_flatMap_const hlens]; omega)]
      rfl

end Slot

theorem entry_memory (h : g.Integrity) (hf : g.FitsMemory dim) :
    (g.memory dim mult).entry = g.entry := by
  unfold HnswMemory.entry memory
  dsimp only
  cases hentry : g.entry with
  | none => rfl
  | some e =>
    obtain ⟨ep, maxlevel⟩ := e
    obtain ⟨hlevel, -⟩ := h.sound.entry ep maxlevel hentry
    have hep := hlevel.lt_length
    have hlen := h.sound.length
    have hcount := h.sound.count_le
    have hslots := hf.slots
    obtain ⟨n, hn, hlt⟩ := hasLevel_iff.mp hlevel
    rw [List.getElem?_map, Option.map_eq_some_iff] at hn
    obtain ⟨ls, hls, rfl⟩ := hn
    have hbound := hf.levels ls (List.mem_of_getElem? hls)
    have hpos : 4 * (ls.length - 1) ≤ (g.cap 1 * 4 + 4) * (ls.length - 1) :=
      Nat.mul_le_mul_right _ (by omega)
    have hmax : maxlevel < 2 ^ 32 - 1 := by omega
    have hne : UInt32.ofNat maxlevel ≠ -1 := by
      intro heq
      have := congrArg UInt32.toNat heq
      rw [UInt32.toNat_ofNat_of_lt' (show maxlevel < 2 ^ 32 by omega)] at this
      change maxlevel = 2 ^ 32 - 1 at this
      omega
    dsimp only
    rw [if_neg hne, UInt32.toNat_ofNat_of_lt' (show ep < 2 ^ 32 by omega),
      UInt32.toNat_ofNat_of_lt' (show maxlevel < 2 ^ 32 by omega)]

theorem represents_memory (h : g.Integrity) (hf : g.FitsMemory dim) :
    (g.memory dim mult).Represents dim g := by
  obtain ⟨-, -, hcur, hmax, -, -⟩ := hf.sizes mult h
  have hslot := hf.slot
  have hcap₀ := h.sound.params.cap_le 0
  have hcap₁ := h.sound.params.cap_le 1
  have hm := h.sound.params.m_le
  unfold LinkList.maxCap at hcap₀ hcap₁
  constructor
  case maxElements => exact hmax
  case count => exact hcur
  case entry => exact entry_memory h hf
  case maxM => exact toNat_ofNat (by omega)
  case maxM0 => exact toNat_ofNat (by omega)
  case m => exact toNat_ofNat (by omega)
  case efConstruction => exact toNat_ofNat hf.efConstruction
  case ef => rfl
  case dataSize =>
    refine toNat_ofNat ?_
    unfold slotSize at hslot
    omega
  case label =>
    intro id hid
    obtain ⟨el, l, ls, hel, -, hp⟩ := h.slot hid
    rw [getExternalLabel_memory h hf hp]
    unfold getExternalLabel
    rw [hel]
    rfl
  case data =>
    intro id hid
    obtain ⟨el, l, ls, hel, -, hp⟩ := h.slot hid
    rw [getDataByInternalId_memory h hf hp]
    unfold HnswGraph.getDataByInternalId
    rw [hel]
    rfl
  case mark =>
    intro id hid
    obtain ⟨el, l, ls, hel, -, hp⟩ := h.slot hid
    rw [isMarkedDeleted_memory h hf hp]
    unfold isMarkedDeleted HierarchicalNSW.isMarkedDeleted
    rw [hel]
    rfl
  case links =>
    intro id hid level
    obtain ⟨el, l, ls, -, -, hp⟩ := h.slot hid
    exact getLinkListAtLevel_memory h hf hp level
  case labelLookup => rfl
  case numDeleted => rfl
  case allowReplaceDeleted => rfl
  case deletedElements => rfl

end HnswGraph

end MyKvRaft
