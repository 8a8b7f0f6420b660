import MyKvRaft.Hnsw.Memory

/-!
# The index file

`saveIndex` writes the fields of the index, then the block of the slots in use, then for each slot
how many bytes the lists above level 0 take and these bytes. `loadIndex` walks over a file once to
see whether its end is where the sizes in it say, and then reads it.

* `loadIndex_saveIndex`: what has been saved is loaded again.
-/

namespace MyKvRaft

open BinaryFile

variable {P : Libs}

/-! ## Writing -/

namespace IndexHeader

/-- Lines 689–702. -/
def toBytes (h : IndexHeader) : Bytes :=
  leBytes 8 h.offsetLevel0.toNat ++ leBytes 8 h.maxElements.toNat ++
    leBytes 8 h.curElementCount.toNat ++ leBytes 8 h.sizeDataPerElement.toNat ++
    leBytes 8 h.labelOffset.toNat ++ leBytes 8 h.offsetData.toNat ++ leBytes 4 h.maxlevel.toNat ++
    leBytes 4 h.enterpointNode.toNat ++ leBytes 8 h.maxM.toNat ++ leBytes 8 h.maxM0.toNat ++
    leBytes 8 h.m.toNat ++ leBytes 8 h.mult.toNat ++ leBytes 8 h.efConstruction.toNat

/-- Lines 730–749. -/
def read : Reader IndexHeader := do
  let offsetLevel0 ← readUInt64
  let maxElements ← readUInt64
  let curElementCount ← readUInt64
  let sizeDataPerElement ← readUInt64
  let labelOffset ← readUInt64
  let offsetData ← readUInt64
  let maxlevel ← readUInt32
  let enterpointNode ← readUInt32
  let maxM ← readUInt64
  let maxM0 ← readUInt64
  let m ← readUInt64
  let mult ← readUInt64
  let efConstruction ← readUInt64
  return ⟨offsetLevel0, maxElements, curElementCount, sizeDataPerElement, labelOffset, offsetData,
    maxlevel, enterpointNode, maxM, maxM0, m, mult, efConstruction⟩

/-- The limit that is asked for, or the one in the file (lines 734–737). -/
def limited (h : IndexHeader) (maxElementsI : UInt64) : IndexHeader :=
  { h with maxElements :=
      if maxElementsI < h.curElementCount then h.maxElements else maxElementsI }

end IndexHeader

namespace HnswMemory

/-- `linkListSize` and the lists of a slot (lines 706–711). -/
def listBytes (mem : HnswMemory P) (p : ℕ × Bytes) : Bytes :=
  let linkListSize : UInt32 :=
    if p.1 > 0 then (mem.sizeLinksPerElement * UInt64.ofNat p.1).toUInt32 else 0
  leBytes 4 linkListSize.toNat ++
    if linkListSize ≠ 0 then p.2.take linkListSize.toNat else []

/-- `saveIndex` (lines 685–713). -/
def saveIndex (mem : HnswMemory P) : Bytes :=
  mem.header.toBytes ++
    (mem.dataLevel0Memory.take
      (mem.header.curElementCount * mem.header.sizeDataPerElement).toNat ++
    (mem.elementLevels.zip mem.linkLists).flatMap mem.listBytes)

end HnswMemory

/-! ## Reading -/

/-- A `size_t` as the argument of `seekg`. -/
def streamoff (n : UInt64) : ℤ := (n.toNat : ℤ).bmod (2 ^ 64)

/-- Passing over the lists of a slot (lines 764–768). -/
def skipLinkList : Reader Unit := do
  let linkListSize ← readUInt32
  if linkListSize ≠ 0 then seekCur linkListSize.toNat

/-- The loop of the check (lines 759–769), which may throw. -/
def checkLinkLists (totalFilesize : ℕ) : ℕ → InStream → Option InStream
  | 0, input => some input
  | n + 1, input =>
    if input.tellg.all (totalFilesize ≤ ·) then none
    else checkLinkLists totalFilesize n (skipLinkList.run input).2

/-- The check (lines 757–773). -/
def checkFile (header : IndexHeader) (totalFilesize : ℕ) (input : InStream) : Bool :=
  let input :=
    ((seekCur (streamoff (header.curElementCount * header.sizeDataPerElement))).run input).2
  match checkLinkLists totalFilesize header.curElementCount.toNat input with
  | none => false
  | some input => input.tellg == some totalFilesize

/-- `linkListSize` and the lists of a slot (lines 799–811). -/
def readLinkList : Reader (UInt32 × Bytes) := do
  let linkListSize ← readUInt32
  if linkListSize = 0 then return (linkListSize, [])
  else
    let list ← read linkListSize.toNat
    return (linkListSize, list)

def readLinkLists : ℕ → Reader (List (UInt32 × Bytes))
  | 0 => return []
  | n + 1 => do
    let list ← readLinkList
    let lists ← readLinkLists n
    return list :: lists

/-- `label_lookup_[getExternalLabel(i)] = i`; `i` is a `size_t`, what is kept a `tableint`. -/
def lookupOfLabels (labels : List UInt64) : UInt64 → Option ℕ :=
  labels.zipIdx.foldl (fun lookup p =>
    Function.update lookup p.1 (some (UInt32.ofNat p.2).toNat)) fun _ => none

/-- The slots that are marked, if they may be taken over (lines 814–819). -/
def deletedOfMarks (P : Libs) (allowReplaceDeleted : Bool) (marks : List Bool) : P.IdSet :=
  marks.zipIdx.foldl (fun ids p =>
    if p.1 && allowReplaceDeleted then P.insert ids (UInt32.ofNat p.2).toNat else ids) P.emptySet

namespace HnswMemory

/-- The index while its labels and marks have not been read. -/
def ofBlocks (P : Libs) (header : IndexHeader) (dataSize : UInt64) (dataLevel0Memory : Bytes)
    (lists : List (UInt32 × Bytes)) (allowReplaceDeleted : Bool) : HnswMemory P where
  header := header
  dataSize := dataSize
  sizeLinksPerElement := header.maxM * 4 + 4
  ef := 10
  dataLevel0Memory := dataLevel0Memory
  linkLists := lists.map (·.2)
  elementLevels := lists.map fun p =>
    if p.1 = 0 then 0 else p.1.toNat / (header.maxM * 4 + 4).toNat
  labelLookup := fun _ => none
  numDeleted := 0
  allowReplaceDeleted := allowReplaceDeleted
  deletedElements := P.emptySet

/-- The blocks fit in what has been allocated for them, and no size is divided by zero. -/
def inBounds (header : IndexHeader) (lists : List (UInt32 × Bytes)) : Bool :=
  decide (header.curElementCount ≤ header.maxElements) &&
  decide ((header.curElementCount * header.sizeDataPerElement).toNat ≤
    (header.maxElements * header.sizeDataPerElement).toNat) &&
  decide ((header.curElementCount * header.sizeDataPerElement).toNat < 2 ^ 63) &&
  (header.maxM * 4 + 4 != 0 || lists.all fun p => p.1 == 0)

/-- The labels and the marks are read off the block of the slots (lines 797–819). -/
def readSlots (mem : HnswMemory P) (fits : Bool) : Except Fault (HnswMemory P) :=
  let ids := (List.range mem.header.curElementCount.toNat).map UInt32.ofNat
  match fits, ids.mapM mem.getExternalLabel, ids.mapM mem.isMarkedDeleted with
  | true, some labels, some marks =>
    .ok { mem with
      labelLookup := lookupOfLabels labels
      numDeleted := marks.count true
      deletedElements := deletedOfMarks P mem.allowReplaceDeleted marks }
  | _, _, _ => .error .outOfBounds

/-- What follows the check (lines 777–819). -/
def readBlocks (P : Libs) (header : IndexHeader) (dataSize : UInt64) (input : InStream)
    (allowReplaceDeleted : Bool) : Except Fault (HnswMemory P) :=
  let (dataLevel0Memory, input) :=
    (read (header.curElementCount * header.sizeDataPerElement).toNat).run input
  let (lists, _) := (readLinkLists header.curElementCount.toNat).run input
  (ofBlocks P header dataSize dataLevel0Memory lists allowReplaceDeleted).readSlots
    (inBounds header lists)

/-- `loadIndex` (lines 716–822) into a new object, when there is memory enough. The file is read
    from the same position a second time once it has passed the check. -/
def loadIndex (P : Libs) (file : Option Bytes) (dataSize maxElementsI : UInt64)
    (allowReplaceDeleted : Bool) : Except Fault (HnswMemory P) :=
  match file with
  | none => .error .cannotOpen
  | some bytes =>
    let (header, input) := IndexHeader.read.run (.ofFile bytes)
    if checkFile header bytes.length input = false then .error .corrupted
    else readBlocks P (header.limited maxElementsI) dataSize input allowReplaceDeleted

end HnswMemory

/-! ## Reading what has been written -/

theorem reads_header (h : IndexHeader) : Reads IndexHeader.read h.toBytes h := by
  rw [← List.append_nil h.toBytes]
  unfold IndexHeader.toBytes IndexHeader.read
  simp only [List.append_assoc]
  iterate 6 refine (reads_readUInt64 _).bind ?_
  iterate 2 refine (reads_readUInt32 _).bind ?_
  iterate 5 refine (reads_readUInt64 _).bind ?_
  exact reads_pure h

theorem length_header (h : IndexHeader) : h.toBytes.length = 96 := by
  unfold IndexHeader.toBytes
  simp only [List.length_append, length_leBytes]

/-- A block of lists as it is in the file. -/
def blockBytes (block : Bytes) : Bytes := leBytes 4 block.length ++ block

theorem length_blockBytes (block : Bytes) : (blockBytes block).length = 4 + block.length := by
  rw [blockBytes, List.length_append, length_leBytes]

/-- How many bytes come, and that it is none. -/
theorem ofNat_length {block : Bytes} (hlen : block.length < 2 ^ 32) :
    (UInt32.ofNat block.length).toNat = block.length ∧
      (UInt32.ofNat block.length = 0 ↔ block = []) := by
  have htoNat : (UInt32.ofNat block.length).toNat = block.length :=
    UInt32.toNat_ofNat_of_lt' hlen
  refine ⟨htoNat, ?_⟩
  rw [← UInt32.toNat_inj, htoNat]
  exact List.length_eq_zero_iff

theorem reads_readLinkList {block : Bytes} (hlen : block.length < 2 ^ 32) :
    Reads readLinkList (blockBytes block) (UInt32.ofNat block.length, block) := by
  obtain ⟨htoNat, hzero⟩ := ofNat_length hlen
  have hsize := reads_readUInt32 (UInt32.ofNat block.length)
  rw [htoNat] at hsize
  refine hsize.bind ?_
  split_ifs with h0
  · rw [hzero.mp h0]
    exact reads_pure _
  · rw [htoNat]
    exact (reads_read block).map _

theorem reads_readLinkLists {blocks : List Bytes} (hlen : ∀ b ∈ blocks, b.length < 2 ^ 32) :
    Reads (readLinkLists blocks.length) (blocks.flatMap blockBytes)
      (blocks.map fun b => (UInt32.ofNat b.length, b)) := by
  induction blocks with
  | nil => exact reads_pure _
  | cons b blocks ih =>
    refine (reads_readLinkList (hlen b List.mem_cons_self)).bind (Reads.map ?_ _)
    exact ih fun b' hb' => hlen b' (List.mem_cons_of_mem _ hb')

/-! ## The check -/

theorem run_skipLinkList {s : InStream} {block rest : Bytes} (hs : s.failed = false)
    (hlen : block.length < 2 ^ 32) (hrest : s.rest = blockBytes block ++ rest)
    (hpos : s.pos + (blockBytes block).length < 2 ^ 63) :
    skipLinkList.run s = ((), { s with pos := s.pos + (blockBytes block).length }) := by
  obtain ⟨htoNat, hzero⟩ := ofNat_length hlen
  have hsize := reads_readUInt32 (UInt32.ofNat block.length)
  rw [htoNat] at hsize
  rw [blockBytes, List.append_assoc] at hrest
  rw [length_blockBytes] at hpos ⊢
  unfold skipLinkList
  rw [run_bind, hsize s _ hs hrest, length_leBytes]
  dsimp only
  split_ifs with h0
  · rw [htoNat, run_seekCur (s := { s with pos := s.pos + 4 }) hs
      (show s.pos + 4 + block.length < 2 ^ 63 by omega)]
    simp only [Nat.add_assoc]
  · rw [not_not] at h0
    rw [hzero.mp h0]
    rfl

theorem checkLinkLists_blocks {blocks : List Bytes} (hlen : ∀ b ∈ blocks, b.length < 2 ^ 32)
    {s : InStream} (hs : s.failed = false) (hrest : s.rest = blocks.flatMap blockBytes)
    {total : ℕ} (htotal : s.pos + s.rest.length = total) (hmax : total < 2 ^ 63) :
    checkLinkLists total blocks.length s = some { s with pos := total } := by
  induction blocks generalizing s with
  | nil =>
    rw [hrest] at htotal
    obtain rfl : s.pos = total := htotal
    rfl
  | cons b blocks ih =>
    have hb := hlen b List.mem_cons_self
    rw [hrest, List.flatMap_cons, List.length_append] at htotal
    have hblock := length_blockBytes b
    have htell : s.tellg.all (total ≤ ·) = false := by
      unfold InStream.tellg
      rw [if_neg (by rw [hs]; decide)]
      exact decide_eq_false (by omega)
    rw [List.flatMap_cons] at hrest
    rw [List.length_cons, checkLinkLists, htell, if_neg Bool.false_ne_true,
      run_skipLinkList hs hb hrest (by omega)]
    have hnext := s.rest_add hrest
    refine ih (fun b' hb' => hlen b' (List.mem_cons_of_mem _ hb')) hs hnext ?_
    rw [hnext]
    dsimp only
    omega

theorem streamoff_of_lt {n : UInt64} (hn : n.toNat < 2 ^ 63) : streamoff n = n.toNat := by
  unfold streamoff
  rw [Int.bmod_def]
  omega

/-! ## The file of an index -/

namespace HnswMemory

variable {mem : HnswMemory P} {dim : ℕ} {g : HnswGraph P}

theorem Shaped.toNat_slots (hs : mem.Shaped) :
    (mem.header.curElementCount * mem.header.sizeDataPerElement).toNat =
        mem.dataLevel0Memory.length ∧
      mem.dataLevel0Memory.length ≤
        (mem.header.maxElements * mem.header.sizeDataPerElement).toNat ∧
      mem.dataLevel0Memory.length < 2 ^ 63 := by
  have hroom := UInt64.le_iff_toNat_le.mp hs.room
  have hle : mem.dataLevel0Memory.length ≤
      mem.header.maxElements.toNat * mem.header.sizeDataPerElement.toNat :=
    hs.slots ▸ Nat.mul_le_mul_right _ hroom
  have hall := hs.allocated
  refine ⟨?_, ?_, by omega⟩
  · rw [UInt64.toNat_mul, ← hs.slots, Nat.mod_eq_of_lt (by omega)]
  · rw [UInt64.toNat_mul, Nat.mod_eq_of_lt (by omega)]
    exact hle

/-- A block of lists is as long as the level of the slot asks for. -/
theorem Shaped.length_block (hs : mem.Shaped) {p : ℕ × Bytes}
    (hp : p ∈ mem.elementLevels.zip mem.linkLists) :
    p.2.length = mem.sizeLinksPerElement.toNat * p.1 ∧ p.2.length < 2 ^ 32 := by
  obtain ⟨i, hi⟩ := List.mem_iff_getElem?.mp hp
  obtain ⟨hlevel, hblock⟩ := List.getElem?_zip_eq_some.mp hi
  have hlist := congrArg (·[i]?) hs.lists
  simp only [List.getElem?_map, hlevel, hblock, Option.map_some, Option.some.injEq] at hlist
  exact ⟨hlist, hs.lists_lt _ (List.mem_of_getElem? hblock)⟩

theorem Shaped.length_lists (hs : mem.Shaped) :
    mem.linkLists.length = mem.elementLevels.length := by
  simpa using congrArg List.length hs.lists

theorem Shaped.listBytes_eq (hs : mem.Shaped) {p : ℕ × Bytes}
    (hp : p ∈ mem.elementLevels.zip mem.linkLists) : mem.listBytes p = blockBytes p.2 := by
  obtain ⟨hlen, hlt⟩ := hs.length_block hp
  obtain ⟨htoNat, hzero⟩ := ofNat_length hlt
  have hpos := hs.sizeLinks_pos
  have hsize : (if p.1 > 0 then (mem.sizeLinksPerElement * UInt64.ofNat p.1).toUInt32 else 0) =
      UInt32.ofNat p.2.length := by
    split_ifs with hlevel
    · have hle : p.1 ≤ mem.sizeLinksPerElement.toNat * p.1 := Nat.le_mul_of_pos_left _ hpos
      refine UInt32.toNat_inj.mp ?_
      rw [UInt64.toNat_toUInt32, UInt64.toNat_mul,
        UInt64.toNat_ofNat_of_lt' (show p.1 < 2 ^ 64 by omega), ← hlen, htoNat]
      omega
    · rw [show p.1 = 0 by omega, Nat.mul_zero] at hlen
      rw [hlen]
      rfl
  unfold listBytes blockBytes
  dsimp only
  rw [hsize, htoNat]
  split_ifs with h0
  · rw [List.take_length]
  · rw [not_not] at h0
    rw [hzero.mp h0]

theorem Shaped.saveIndex_eq (hs : mem.Shaped) : mem.saveIndex =
    mem.header.toBytes ++ (mem.dataLevel0Memory ++ mem.linkLists.flatMap blockBytes) := by
  have hsnd : (mem.elementLevels.zip mem.linkLists).map (·.2) = mem.linkLists :=
    List.map_snd_zip hs.length_lists.le
  unfold saveIndex
  rw [hs.toNat_slots.1, List.take_length, List.flatMap_congr fun p hp => hs.listBytes_eq hp]
  conv_rhs => rw [← hsnd, List.flatMap_map]

theorem Shaped.length_saveIndex (hs : mem.Shaped) : mem.saveIndex.length = mem.indexFileSize := by
  have hblocks : mem.linkLists.map (fun b => (blockBytes b).length) = mem.elementLevels.map
      fun level => 4 + if level > 0 then mem.sizeLinksPerElement.toNat * level else 0 := by
    have hlens := congrArg (List.map fun n => 4 + n) hs.lists
    rw [List.map_map, List.map_map] at hlens
    rw [List.map_congr_left fun b _ => length_blockBytes b]
    refine hlens.trans (List.map_congr_left fun level _ => ?_)
    show 4 + mem.sizeLinksPerElement.toNat * level = _
    split_ifs with hlevel
    · rfl
    · rw [show level = 0 by omega, Nat.mul_zero]
  rw [hs.saveIndex_eq, List.length_append, List.length_append, length_header, hs.slots,
    List.length_flatMap, hblocks]
  unfold indexFileSize
  omega

/-- The stream behind the fields of a saved index. -/
theorem Shaped.run_header (hs : mem.Shaped) :
    IndexHeader.read.run (.ofFile mem.saveIndex) = (mem.header, ⟨mem.saveIndex, 96, false⟩) ∧
      InStream.rest ⟨mem.saveIndex, 96, false⟩ =
        mem.dataLevel0Memory ++ mem.linkLists.flatMap blockBytes := by
  have hrest : (InStream.ofFile mem.saveIndex).rest = mem.header.toBytes ++
      (mem.dataLevel0Memory ++ mem.linkLists.flatMap blockBytes) := hs.saveIndex_eq
  have hread := reads_header mem.header _ _ rfl hrest
  have hnext := InStream.rest_add hrest
  rw [length_header] at hread hnext
  exact ⟨hread, hnext⟩

theorem Shaped.checkFile (hs : mem.Shaped) :
    checkFile mem.header mem.saveIndex.length ⟨mem.saveIndex, 96, false⟩ = true := by
  obtain ⟨hslots, -, hlt⟩ := hs.toNat_slots
  obtain ⟨-, hrest⟩ := hs.run_header
  have hfile := hs.length_saveIndex ▸ hs.file
  have htotal := congrArg List.length hs.saveIndex_eq
  rw [List.length_append, List.length_append, length_header] at htotal
  have hnext := InStream.rest_add hrest
  have hcheck : checkLinkLists mem.saveIndex.length mem.linkLists.length
      ⟨mem.saveIndex, 96 + mem.dataLevel0Memory.length, false⟩ =
        some ⟨mem.saveIndex, mem.saveIndex.length, false⟩ :=
    checkLinkLists_blocks hs.lists_lt rfl hnext (by rw [hnext]; dsimp only; omega) hfile
  rw [hs.length_lists, hs.levels] at hcheck
  unfold MyKvRaft.checkFile
  rw [streamoff_of_lt (by rw [hslots]; exact hlt), hslots,
    run_seekCur rfl (show 96 + mem.dataLevel0Memory.length < 2 ^ 63 by omega)]
  dsimp only
  rw [hcheck]
  simp [InStream.tellg]

theorem mapM_range' {β : Type} {f : ℕ → Option β} {xs : List β} (k : ℕ)
    (hf : ∀ i < xs.length, f (k + i) = xs[i]?) :
    (List.range' k xs.length).mapM f = some xs := by
  induction xs generalizing k with
  | nil => rfl
  | cons x xs ih =>
    have hx : f k = some x := hf 0 (Nat.zero_lt_succ _)
    have hrest := ih (k + 1) fun i hi => by
      rw [Nat.add_right_comm]
      exact hf (i + 1) (Nat.succ_lt_succ hi)
    rw [List.length_cons, List.range'_succ, List.mapM_cons, hx, hrest]
    rfl

/-- What is read of every slot, in a row. -/
theorem mapM_slots {β : Type} {n : ℕ} {f : UInt32 → Option β} {xs : List β} (hlen : xs.length = n)
    (hf : ∀ id < n, f (.ofNat id) = xs[id]?) :
    ((List.range n).map UInt32.ofNat).mapM f = some xs := by
  subst hlen
  rw [List.mapM_map, List.range_eq_range']
  refine mapM_range' 0 fun i hi => ?_
  rw [Nat.zero_add]
  exact hf i hi

theorem Represents.labels (hr : mem.Represents dim g) :
    ((List.range mem.header.curElementCount.toNat).map UInt32.ofNat).mapM mem.getExternalLabel =
      some (g.store.elements.map (·.label)) := by
  rw [hr.count]
  refine mapM_slots (List.length_map _) fun id hid => ?_
  have hel : g.store.elements[id]? = some g.store.elements[id] := List.getElem?_eq_getElem hid
  rw [hr.label id hid, HnswGraph.getExternalLabel, List.getElem?_map, hel]
  rfl

theorem Represents.marks (hr : mem.Represents dim g) :
    ((List.range mem.header.curElementCount.toNat).map UInt32.ofNat).mapM mem.isMarkedDeleted =
      some (g.store.elements.map (·.deleted)) := by
  rw [hr.count]
  refine mapM_slots (List.length_map _) fun id hid => ?_
  have hel : g.store.elements[id]? = some g.store.elements[id] := List.getElem?_eq_getElem hid
  rw [hr.mark id hid, HnswGraph.isMarkedDeleted, HierarchicalNSW.isMarkedDeleted,
    List.getElem?_map, hel]
  rfl

/-- The slots in order, with the numbers they get. -/
theorem foldl_zipIdx {α γ σ : Type} {n : ℕ} (hn : n ≤ 2 ^ 32) (f : σ → γ × ℕ → σ) (h : α → γ)
    {xs : List α} (hlen : xs.length = n) (s : σ) :
    (xs.map h).zipIdx.foldl (fun s p => f s (p.1, (UInt32.ofNat p.2).toNat)) s =
      xs.zipIdx.foldl (fun s p => f s (h p.1, p.2)) s := by
  rw [List.zipIdx_map, List.foldl_map]
  refine List.foldl_ext _ _ _ fun s p hp => ?_
  obtain ⟨x, i⟩ := p
  have hi : i < xs.length := by simpa using List.snd_lt_of_mem_zipIdx hp
  show f s (h x, (UInt32.ofNat i).toNat) = f s (h x, i)
  rw [UInt32.toNat_ofNat_of_lt' (show i < 2 ^ 32 by omega)]

/-- The lists of the slots, as they are read. -/
def lists (mem : HnswMemory P) : List (UInt32 × Bytes) :=
  mem.linkLists.map fun b => (UInt32.ofNat b.length, b)

theorem Shaped.levels_lists (hs : mem.Shaped) :
    mem.lists.map (fun p => if p.1 = 0 then 0 else p.1.toNat / mem.sizeLinksPerElement.toNat) =
      mem.elementLevels := by
  have hlens := congrArg (List.map fun n => n / mem.sizeLinksPerElement.toNat) hs.lists
  rw [List.map_map, List.map_map] at hlens
  have hpos := hs.sizeLinks_pos
  unfold HnswMemory.lists
  rw [List.map_map]
  refine (List.map_congr_left fun b hb => ?_).trans (hlens.trans ?_)
  · obtain ⟨htoNat, hzero⟩ := ofNat_length (hs.lists_lt b hb)
    show (if UInt32.ofNat b.length = 0 then 0
      else (UInt32.ofNat b.length).toNat / mem.sizeLinksPerElement.toNat) = b.length / _
    split_ifs with h0
    · rw [hzero.mp h0, List.length_nil, Nat.zero_div]
    · rw [htoNat]
  · conv_rhs => rw [← List.map_id mem.elementLevels]
    refine List.map_congr_left fun level _ => ?_
    exact Nat.mul_div_cancel_left level hpos

/-- What `loadIndex` makes of the file of `mem`. -/
def reloaded (mem : HnswMemory P) (g : HnswGraph P) (maxElementsI : UInt64) (allow : Bool) :
    HnswMemory P :=
  { mem with
    header := mem.header.limited maxElementsI
    ef := 10
    labelLookup := (g.reload maxElementsI.toNat allow).store.labelLookup
    numDeleted := (g.reload maxElementsI.toNat allow).numDeleted
    allowReplaceDeleted := allow
    deletedElements := (g.reload maxElementsI.toNat allow).store.deletedElements }

variable {maxElementsI : UInt64} {allow : Bool}

theorem Shaped.limited (hs : mem.Shaped)
    (hmax : maxElementsI.toNat * mem.header.sizeDataPerElement.toNat < 2 ^ 63) :
    mem.header.curElementCount ≤ (mem.header.limited maxElementsI).maxElements ∧
      (mem.header.limited maxElementsI).maxElements.toNat * mem.header.sizeDataPerElement.toNat < 2 ^ 63 := by
  unfold IndexHeader.limited
  dsimp only
  split_ifs with hlt
  · exact ⟨hs.room, hs.allocated⟩
  · exact ⟨UInt64.not_lt.mp hlt, hmax⟩

theorem Shaped.inBounds (hs : mem.Shaped)
    (hmax : maxElementsI.toNat * mem.header.sizeDataPerElement.toNat < 2 ^ 63) :
    inBounds (mem.header.limited maxElementsI) mem.lists = true := by
  obtain ⟨hroom, hall⟩ := hs.limited hmax
  obtain ⟨hslots, -, hlt⟩ := hs.toNat_slots
  have hmul := Nat.mul_le_mul_right mem.header.sizeDataPerElement.toNat
    (UInt64.le_iff_toNat_le.mp hroom)
  rw [← hs.slots] at hmul
  have hne : (mem.header.limited maxElementsI).maxM * 4 + 4 ≠ 0 := by
    have hpos := hs.sizeLinks_pos
    rw [hs.sizeLinks] at hpos
    intro h0
    rw [show mem.header.maxM * 4 + 4 = 0 from h0] at hpos
    exact absurd hpos (by decide)
  unfold HnswMemory.inBounds
  simp only [Bool.and_eq_true, decide_eq_true_eq, Bool.or_eq_true, bne_iff_ne]
  refine ⟨⟨⟨hroom, ?_⟩, ?_⟩, .inl hne⟩
  · show (mem.header.curElementCount * mem.header.sizeDataPerElement).toNat ≤
      ((mem.header.limited maxElementsI).maxElements * mem.header.sizeDataPerElement).toNat
    rw [hslots, UInt64.toNat_mul, Nat.mod_eq_of_lt (by omega)]
    exact hmul
  · show (mem.header.curElementCount * mem.header.sizeDataPerElement).toNat < 2 ^ 63
    rw [hslots]
    exact hlt

theorem Shaped.ofBlocks_eq (hs : mem.Shaped) :
    ofBlocks P (mem.header.limited maxElementsI) mem.dataSize mem.dataLevel0Memory mem.lists allow =
      { mem with
        header := mem.header.limited maxElementsI
        ef := 10
        labelLookup := fun _ => none
        numDeleted := 0
        allowReplaceDeleted := allow
        deletedElements := P.emptySet } := by
  have hlinks : mem.sizeLinksPerElement =
      (mem.header.limited maxElementsI).maxM * 4 + 4 := hs.sizeLinks
  have hblocks : mem.lists.map (·.2) = mem.linkLists := by
    unfold HnswMemory.lists
    rw [List.map_map]
    exact List.map_id _
  unfold ofBlocks
  rw [← hlinks, hblocks, hs.levels_lists]

theorem readSlots_eq {mem' : HnswMemory P} {labels : List UInt64} {marks : List Bool}
    (hlabels : ((List.range mem'.header.curElementCount.toNat).map UInt32.ofNat).mapM
      mem'.getExternalLabel = some labels)
    (hmarks : ((List.range mem'.header.curElementCount.toNat).map UInt32.ofNat).mapM
      mem'.isMarkedDeleted = some marks) :
    mem'.readSlots true = .ok { mem' with
      labelLookup := lookupOfLabels labels
      numDeleted := marks.count true
      deletedElements := deletedOfMarks P mem'.allowReplaceDeleted marks } := by
  unfold readSlots
  dsimp only
  rw [hlabels, hmarks]

theorem lookupOfLabels_map {elements : List Element} (hids : elements.length ≤ 2 ^ 32) :
    lookupOfLabels (elements.map (·.label)) = HierarchicalNSW.lookupOf elements :=
  foldl_zipIdx hids (fun (lookup : UInt64 → Option ℕ) p => Function.update lookup p.1 (some p.2))
    Element.label rfl _

theorem deletedOfMarks_map {elements : List Element} (hids : elements.length ≤ 2 ^ 32) :
    deletedOfMarks P allow (elements.map (·.deleted)) = elements.zipIdx.foldl (fun ids p =>
      if p.1.deleted && allow then P.insert ids p.2 else ids) P.emptySet :=
  foldl_zipIdx hids (fun ids p => if p.1 && allow then P.insert ids p.2 else ids) Element.deleted
    rfl _

theorem count_marks (elements : List Element) :
    (elements.map (·.deleted)).count true = elements.countP (·.deleted) := by
  rw [List.count, List.countP_map]
  exact List.countP_congr fun el _ => by simp

theorem Shaped.loadIndex_eq (hs : mem.Shaped) (hr : mem.Represents dim g)
    (hmax : maxElementsI.toNat * mem.header.sizeDataPerElement.toNat < 2 ^ 63) :
    loadIndex P (some mem.saveIndex) mem.dataSize maxElementsI allow =
      .ok (mem.reloaded g maxElementsI allow) := by
  obtain ⟨hheader, hrest⟩ := hs.run_header
  have hread := reads_read mem.dataLevel0Memory _ _ rfl hrest
  have hlists := reads_readLinkLists hs.lists_lt _ [] rfl
    ((InStream.rest_add hrest).trans (List.append_nil _).symm)
  rw [hs.length_lists, hs.levels] at hlists
  rw [← hs.toNat_slots.1] at hread
  unfold loadIndex
  dsimp only
  rw [hheader]
  dsimp only
  rw [hs.checkFile, if_neg (by decide)]
  unfold readBlocks
  rw [show (mem.header.limited maxElementsI).curElementCount = mem.header.curElementCount from rfl,
    show (mem.header.limited maxElementsI).sizeDataPerElement = mem.header.sizeDataPerElement
      from rfl, hread]
  dsimp only
  rw [hs.toNat_slots.1, hlists]
  show (ofBlocks P _ _ _ mem.lists allow).readSlots (HnswMemory.inBounds _ mem.lists) = _
  rw [hs.inBounds hmax, hs.ofBlocks_eq]
  refine Eq.trans (readSlots_eq hr.labels hr.marks) (congrArg Except.ok ?_)
  have hids : g.store.elements.length ≤ 2 ^ 32 := by
    rw [show g.store.elements.length = mem.header.curElementCount.toNat from hr.count.symm]
    exact hs.ids
  unfold reloaded
  rw [lookupOfLabels_map hids, deletedOfMarks_map hids, count_marks]
  rfl

/-- An index that has been saved is loaded with the same blocks, as the graph that the reload of
    the index gives. -/
theorem loadIndex_saveIndex (hs : mem.Shaped) (hr : mem.Represents dim g)
    (hmax : maxElementsI.toNat * mem.header.sizeDataPerElement.toNat < 2 ^ 63) :
    mem.saveIndex.length = mem.indexFileSize ∧
    ∃ mem', loadIndex P (some mem.saveIndex) mem.dataSize maxElementsI allow = .ok mem' ∧
      mem'.Shaped ∧ mem'.Represents dim (g.reload maxElementsI.toNat allow) ∧
      mem'.dataLevel0Memory = mem.dataLevel0Memory ∧ mem'.linkLists = mem.linkLists := by
  obtain ⟨hroom, hall⟩ := hs.limited hmax
  refine ⟨hs.length_saveIndex, _, hs.loadIndex_eq hr hmax, ?_, ?_, rfl, rfl⟩
  · exact ⟨hs.slots, hroom, hall, hs.ids, hs.sizeLinks, hs.sizeLinks_pos, hs.levels, hs.lists,
      hs.lists_lt, hs.file⟩
  · refine ⟨?_, hr.count, hr.entry, hr.maxM, hr.maxM0, hr.m, hr.efConstruction, rfl, hr.dataSize,
      hr.label, hr.data, hr.mark, hr.links, rfl, rfl, rfl, rfl⟩
    show (if maxElementsI < mem.header.curElementCount then mem.header.maxElements
        else maxElementsI).toNat =
      if maxElementsI.toNat < g.curElementCount then g.store.maxElements else maxElementsI.toNat
    rw [← hr.count, ← hr.maxElements]
    by_cases hlt : maxElementsI < mem.header.curElementCount
    · rw [if_pos hlt, if_pos (UInt64.lt_iff_toNat_lt.mp hlt)]
    · rw [if_neg hlt, if_neg fun h => hlt (UInt64.lt_iff_toNat_lt.mpr h)]

end HnswMemory

/-! ## Saved indexes -/

namespace HnswGraph

theorem fitsMemory_sampleGraph : sampleGraph.FitsMemory 2 where
  dims := by decide +kernel
  slots := by decide +kernel
  slot := by decide +kernel
  allocated := by decide +kernel
  levels := by decide +kernel
  efConstruction := by decide +kernel
  file := by decide +kernel

end HnswGraph

/-- The file of a small index. -/
def sampleFile : Bytes := (HnswGraph.sampleGraph.memory 2 0).saveIndex

section Runs

variable {S : Space} {maxElements m efConstruction dim : ℕ} {allowReplaceDeleted : Bool}
  {h : List (HnswGraph P × IndexOp)} {s : HnswGraph P}

/-- In every state that an index can be in and that its types have room for, the object in memory
    holds the graph, and whatever object holds it writes a file of the size it says, from which
    `loadIndex` makes an object that holds the graph of the reload. -/
theorem HnswGraph.run_saveIndex (hm : 0 < m)
    (hr : DefinedRun S (HnswGraph.create P maxElements m efConstruction allowReplaceDeleted) h s)
    (hf : s.FitsMemory dim) (mult : UInt64) :
    ((s.memory dim mult).Shaped ∧ (s.memory dim mult).Represents dim s) ∧
    ∀ mem : HnswMemory P, mem.Shaped → mem.Represents dim s → ∀ (maxElementsI : UInt64) (allow : Bool),
      maxElementsI.toNat * mem.header.sizeDataPerElement.toNat < 2 ^ 63 →
      mem.saveIndex.length = mem.indexFileSize ∧
      ∃ mem', HnswMemory.loadIndex P (some mem.saveIndex) mem.dataSize maxElementsI allow =
          .ok mem' ∧
        mem'.Shaped ∧ mem'.Represents dim (s.reload maxElementsI.toNat allow) ∧
        mem'.dataLevel0Memory = mem.dataLevel0Memory ∧ mem'.linkLists = mem.linkLists :=
  ⟨⟨shaped_memory (hr.integrity hm) hf, represents_memory (hr.integrity hm) hf⟩,
    fun _ hs hmem _ _ hmax => HnswMemory.loadIndex_saveIndex hs hmem hmax⟩

theorem HnswGraph.run_saveIndex_sampleGraph :
    sampleFile.length = (sampleGraph.memory 2 0).indexFileSize ∧
    ∃ mem', HnswMemory.loadIndex listLibs (some sampleFile) 8 20 true = .ok mem' ∧
      mem'.Shaped ∧ mem'.Represents 2 (sampleGraph.reload 20 true) ∧
      mem'.dataLevel0Memory = (sampleGraph.memory 2 0).dataLevel0Memory ∧
      mem'.linkLists = (sampleGraph.memory 2 0).linkLists :=
  (run_saveIndex (by decide) definedRun_sampleGraph fitsMemory_sampleGraph 0).2 _
    (run_saveIndex (by decide) definedRun_sampleGraph fitsMemory_sampleGraph 0).1.1
    (run_saveIndex (by decide) definedRun_sampleGraph fitsMemory_sampleGraph 0).1.2 20 true
    (by decide +kernel)

end Runs

theorem HnswMemory.loadIndex_sampleFile : HnswMemory.loadIndex listLibs (some sampleFile) 8 0 false =
    .ok ((HnswGraph.sampleGraph.memory 2 0).reloaded HnswGraph.sampleGraph 0 false) := by
  have hs := (HnswGraph.definedRun_sampleGraph).integrity (by decide)
  exact (HnswGraph.shaped_memory hs HnswGraph.fitsMemory_sampleGraph).loadIndex_eq
    (HnswGraph.represents_memory hs HnswGraph.fitsMemory_sampleGraph) (by decide +kernel)

end MyKvRaft
