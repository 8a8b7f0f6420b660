import MyKvRaft.Hnsw.SavedIndex

/-!
# Files that are no index

`loadIndex` is given a name and takes the file as it finds it. Its check follows the sizes in the
file up to where they end.

* `loadIndex_cut`: a file that lacks bytes at its end, or has more of them, is refused.
* `loadIndex_eq_ok`: nothing in a file that is loaded is passed over.
-/

namespace MyKvRaft

open BinaryFile

variable {P : Libs}

/-! ## Files that go on -/

theorem stable_header : Stable IndexHeader.read := by
  unfold IndexHeader.read
  iterate 6 refine stable_readUInt64.bind fun _ => ?_
  iterate 2 refine stable_readUInt32.bind fun _ => ?_
  iterate 5 refine stable_readUInt64.bind fun _ => ?_
  exact stable_pure _

theorem stable_skipLinkList : Stable skipLinkList := by
  refine stable_readUInt32.bind fun linkListSize => ?_
  split_ifs
  · exact stable_seekCur _
  · exact stable_pure _

section Check

variable {total : ℕ} {n : ℕ} {s s' : InStream}

/-- The check goes on where it has not passed the end. -/
theorem tellg_all_eq_false (h : s.tellg.all (total ≤ ·) = false) :
    s.failed = false ∧ s.pos < total := by
  unfold InStream.tellg at h
  split_ifs at h with hfail
  · cases h
  · exact ⟨Bool.eq_false_iff.mpr hfail, Nat.lt_of_not_le (of_decide_eq_false h)⟩

/-- A check that ends where the file does started before that. -/
theorem checkLinkLists_start (h : checkLinkLists total n s = some s')
    (hend : s'.tellg = some total) : s.failed = false ∧ s.pos ≤ total := by
  cases n with
  | zero =>
    cases h
    exact ⟨(tellg_eq_some hend).1, (tellg_eq_some hend).2.le⟩
  | succ n =>
    unfold checkLinkLists at h
    split_ifs at h with htell
    rw [Bool.not_eq_true] at htell
    exact ⟨(tellg_all_eq_false htell).1, (tellg_all_eq_false htell).2.le⟩

theorem checkLinkLists_extend (h : checkLinkLists total n s = some s')
    (hend : s'.tellg = some total) {total' : ℕ} (hle : total ≤ total') (more : Bytes) :
    checkLinkLists total' n (s.extend more) = some (s'.extend more) := by
  induction n generalizing s with
  | zero =>
    cases h
    rfl
  | succ n ih =>
    unfold checkLinkLists at h ⊢
    split_ifs at h with htell
    rw [Bool.not_eq_true] at htell
    obtain ⟨hs, hpos⟩ := tellg_all_eq_false htell
    have htell' : (s.extend more).tellg.all (total' ≤ ·) = false := by
      unfold InStream.tellg
      rw [if_neg (show ¬(s.extend more).failed = true by rw [show (s.extend more).failed = false from hs]; decide)]
      exact decide_eq_false (show ¬total' ≤ s.pos by omega)
    rw [htell', if_neg (by decide), stable_skipLinkList.extend s more (checkLinkLists_start h hend).1]
    exact ih h

end Check

/-- The file has its end where it says. -/
def accepts (file : Bytes) : Bool :=
  let (header, input) := IndexHeader.read.run (.ofFile file)
  checkFile header file.length input

/-- The states of the check on a file that is accepted. -/
theorem accepts_eq_true {file : Bytes} : accepts file = true ↔
    ∃ s', checkLinkLists file.length
        (IndexHeader.read.run (.ofFile file)).1.curElementCount.toNat
        ((seekCur (streamoff ((IndexHeader.read.run (.ofFile file)).1.curElementCount *
          (IndexHeader.read.run (.ofFile file)).1.sizeDataPerElement))).run
            (IndexHeader.read.run (.ofFile file)).2).2 = some s' ∧
      s'.tellg = some file.length := by
  unfold accepts checkFile
  generalize IndexHeader.read.run (.ofFile file) = r
  obtain ⟨header, input⟩ := r
  dsimp only
  split
  next hnone => simp [hnone]
  next s' hsome => simp [hsome]

theorem accepts_append {file more : Bytes} (h : accepts file = true) (hmore : more ≠ []) :
    accepts (file ++ more) = false := by
  obtain ⟨s', hcheck, hend⟩ := accepts_eq_true.mp h
  have hseek := (checkLinkLists_start hcheck hend).1
  have hread := (stable_seekCur _).not_failed hseek
  have hheader := stable_header.extend (.ofFile file) more hread
  have hskip := (stable_seekCur _).extend _ more hseek
  have hpos := List.length_pos_iff.mpr hmore
  rw [Bool.eq_false_iff]
  intro hlong
  obtain ⟨s'', hcheck', hend'⟩ := accepts_eq_true.mp hlong
  have hfile : InStream.ofFile (file ++ more) = (InStream.ofFile file).extend more := rfl
  rw [hfile, hheader] at hcheck'
  dsimp only at hcheck'
  rw [hskip] at hcheck'
  rw [checkLinkLists_extend hcheck hend (by simp) more] at hcheck'
  obtain rfl := Option.some.inj hcheck'
  rw [show (s'.extend more).tellg = s'.tellg from rfl, hend, Option.some.injEq,
    List.length_append] at hend'
  omega

theorem loadIndex_eq_corrupted {file : Bytes} (h : accepts file = false)
    (dataSize maxElementsI : UInt64) (allow : Bool) :
    HnswMemory.loadIndex P (some file) dataSize maxElementsI allow = .error .corrupted := by
  unfold HnswMemory.loadIndex
  exact if_pos h

/-! ## What has been loaded -/

theorem consumes_header : Consumes IndexHeader.read fun h c => c = h.toBytes := by
  unfold IndexHeader.read
  iterate 6 refine consumes_readUInt64.bind fun _ => ?_
  iterate 2 refine consumes_readUInt32.bind fun _ => ?_
  iterate 5 refine consumes_readUInt64.bind fun _ => ?_
  refine consumes_pure ?_
  intros
  subst_vars
  unfold IndexHeader.toBytes
  simp only [List.append_nil, List.append_assoc]

theorem consumes_readLinkList : Consumes readLinkList fun p c =>
    c = blockBytes p.2 ∧ p.2.length < 2 ^ 32 := by
  refine consumes_readUInt32.bind fun linkListSize => ?_
  split_ifs with h0
  · refine consumes_pure fun c hc => ?_
    rw [hc, h0]
    exact ⟨rfl, by decide⟩
  · refine (consumes_read _).map _ ?_
    rintro got c ⟨rfl, hlen⟩ c' rfl
    rw [← hlen]
    exact ⟨rfl, hlen ▸ linkListSize.toNat_lt⟩

theorem consumes_readLinkLists (n : ℕ) : Consumes (readLinkLists n) fun lists c =>
    lists.length = n ∧ c = (lists.map (·.2)).flatMap blockBytes ∧
      ∀ p ∈ lists, p.2.length < 2 ^ 32 := by
  induction n with
  | zero => exact consumes_pure ⟨rfl, rfl, fun p hp => by cases hp⟩
  | succ n ih =>
    refine consumes_readLinkList.bind fun list => ih.map _ ?_
    rintro lists c ⟨hlen, rfl, hlists⟩ c' ⟨rfl, hlist⟩
    refine ⟨by rw [List.length_cons, hlen], by rw [List.map_cons, List.flatMap_cons], ?_⟩
    intro p hp
    obtain rfl | hp := List.mem_cons.mp hp
    · exact hlist
    · exact hlists p hp

/-- Reading goes where the check has gone. -/
theorem run_readLinkList {s : InStream} (hs : (skipLinkList.run s).2.failed = false)
    (hpos : (skipLinkList.run s).2.pos ≤ s.bytes.length) :
    (readLinkList.run s).2 = (skipLinkList.run s).2 := by
  have hbytes := stable_readUInt32.bytes s
  unfold skipLinkList at hs hpos ⊢
  unfold readLinkList
  rw [run_bind] at hs hpos ⊢
  rw [run_bind]
  generalize (readUInt32.run s).1 = k at *
  generalize (readUInt32.run s).2 = s₁ at *
  by_cases h0 : k = 0
  · rw [if_pos h0, if_neg (not_not.mpr h0)]
    rfl
  · rw [if_pos h0] at hs hpos ⊢
    rw [if_neg h0]
    have hskip := run_seekCur_of_not_failed hs
    rw [hskip] at hs hpos ⊢
    rw [← hbytes] at hpos
    exact run_read hs hpos

/-- The blocks are read up to where the check has come. -/
theorem run_readLinkLists {n : ℕ} {s s' : InStream}
    (h : checkLinkLists s.bytes.length n s = some s') (hend : s'.tellg = some s.bytes.length) :
    ((readLinkLists n).run s).2 = s' := by
  induction n generalizing s with
  | zero =>
    cases h
    rfl
  | succ n ih =>
    unfold checkLinkLists at h
    split_ifs at h with htell
    have hbytes := stable_skipLinkList.bytes s
    obtain ⟨hnext, hpos⟩ := checkLinkLists_start h hend
    rw [← hbytes] at h hend
    rw [← ih h hend, ← run_readLinkList hnext hpos]
    rfl

theorem checkLinkLists_bytes {total n : ℕ} {s s' : InStream}
    (h : checkLinkLists total n s = some s') : s'.bytes = s.bytes := by
  induction n generalizing s with
  | zero =>
    cases h
    rfl
  | succ n ih =>
    unfold checkLinkLists at h
    split_ifs at h
    rw [ih h, stable_skipLinkList.bytes]

namespace HnswMemory

theorem readSlots_eq_ok {m mem : HnswMemory P} {fits : Bool} (h : m.readSlots fits = .ok mem) :
    fits = true ∧ mem.header = m.header ∧ mem.dataLevel0Memory = m.dataLevel0Memory ∧
      mem.linkLists = m.linkLists := by
  unfold readSlots at h
  dsimp only at h
  split at h
  · cases h
    exact ⟨rfl, rfl, rfl, rfl⟩
  · cases h

/-- The blocks, where the check has walked over them. -/
theorem readBlocks_eq_ok {header : IndexHeader} {dataSize : UInt64} {input s' : InStream}
    {allow : Bool} {mem : HnswMemory P} (h : readBlocks P header dataSize input allow = .ok mem)
    (hcheck : checkLinkLists input.bytes.length header.curElementCount.toNat
      ((seekCur (streamoff (header.curElementCount * header.sizeDataPerElement))).run input).2 =
        some s') (hend : s'.tellg = some input.bytes.length) :
    mem.header = header ∧
      input.rest = mem.dataLevel0Memory ++ mem.linkLists.flatMap blockBytes ∧
      mem.dataLevel0Memory.length =
        (header.curElementCount * header.sizeDataPerElement).toNat ∧
      mem.linkLists.length = header.curElementCount.toNat ∧
      ∀ block ∈ mem.linkLists, block.length < 2 ^ 32 := by
  obtain ⟨hfits, hheader, hmem, hlists⟩ := readSlots_eq_ok h
  have hlt : (header.curElementCount * header.sizeDataPerElement).toNat < 2 ^ 63 := by
    unfold inBounds at hfits
    simp only [Bool.and_eq_true, decide_eq_true_eq] at hfits
    exact hfits.1.2
  change mem.header = header at hheader
  change mem.dataLevel0Memory = ((BinaryFile.read _).run input).1 at hmem
  change mem.linkLists =
    ((readLinkLists _).run ((BinaryFile.read _).run input).2).1.map (·.2) at hlists
  rw [streamoff_of_lt hlt] at hcheck
  generalize (header.curElementCount * header.sizeDataPerElement).toNat = size at *
  -- the stream behind the slots, where the check has sought to and where reading them ends
  obtain ⟨hseek, hpos⟩ := checkLinkLists_start hcheck hend
  have hrun := run_seekCur_of_not_failed hseek
  rw [hrun] at hcheck hseek hpos
  dsimp only at hcheck hseek hpos
  have hread : ((BinaryFile.read size).run input).2 = { input with pos := input.pos + size } :=
    run_read hseek hpos
  obtain ⟨-, c, hrest, hc, hlen⟩ := consumes_read size input (by rw [hread]; exact hseek)
  have hwalk : ((readLinkLists header.curElementCount.toNat).run
      ((BinaryFile.read size).run input).2).2 = s' := by
    rw [hread]
    exact run_readLinkLists hcheck hend
  obtain ⟨hs', hlast⟩ := tellg_eq_some hend
  obtain ⟨-, c', hrest', hcount, hc', hblocks⟩ := consumes_readLinkLists _ _ (by
    rw [hwalk]
    exact hs')
  have hnil : s'.rest = [] := by
    unfold InStream.rest
    rw [hlast, checkLinkLists_bytes hcheck]
    exact List.drop_length
  rw [hwalk, hnil, List.append_nil, hc', ← hlists] at hrest'
  refine ⟨hheader, ?_, ?_, ?_, ?_⟩
  · rw [hrest, hrest', hmem, hc]
  · rw [hmem, hc, hlen]
  · rw [hlists, List.length_map, hcount]
  · intro block hblock
    rw [hlists] at hblock
    obtain ⟨p, hp, rfl⟩ := List.mem_map.mp hblock
    exact hblocks p hp

end HnswMemory

namespace HnswMemory

/-- A file that has been cut off, or that goes on after its end, is refused. -/
theorem loadIndex_cut {file file' : Bytes} {dataSize maxElementsI : UInt64} {allow : Bool}
    (hfile : loadIndex P (some file) dataSize maxElementsI allow ≠ .error .corrupted)
    (hpre : file <+: file' ∨ file' <+: file) (hne : file ≠ file')
    (dataSize' maxElementsI' : UInt64) (allow' : Bool) :
    loadIndex P (some file') dataSize' maxElementsI' allow' = .error .corrupted := by
  have hacc : accepts file = true := by
    rw [← Bool.not_eq_false]
    exact fun hno => hfile (loadIndex_eq_corrupted hno _ _ _)
  refine loadIndex_eq_corrupted ?_ _ _ _
  obtain ⟨more, rfl⟩ | ⟨more, rfl⟩ := hpre
  · refine accepts_append hacc fun hnil => hne ?_
    rw [hnil, List.append_nil]
  · rw [Bool.eq_false_iff]
    intro hshort
    have hlong : accepts (file' ++ more) = false := accepts_append hshort fun hnil => hne (by
      rw [hnil, List.append_nil])
    rw [hacc] at hlong
    cases hlong

theorem loadIndex_cut_sampleFile :
    loadIndex listLibs (some sampleFile.dropLast) 8 0 false = .error .corrupted ∧
    loadIndex listLibs (some (sampleFile ++ [0])) 8 0 false = .error .corrupted := by
  have hfile : loadIndex listLibs (some sampleFile) 8 0 false ≠ .error .corrupted := by
    intro heq
    rw [loadIndex_sampleFile] at heq
    cases heq
  exact ⟨loadIndex_cut hfile (.inr (List.dropLast_prefix _)) (by decide +kernel) _ _ _,
    loadIndex_cut hfile (.inl (List.prefix_append _ _)) (by decide +kernel) _ _ _⟩

/-- Every byte of a file that is loaded is in the fields, in the block of the slots or in the
    blocks of the lists, and these have the sizes that the file gives. -/
theorem loadIndex_eq_ok {file : Bytes} {dataSize maxElementsI : UInt64} {allow : Bool}
    {mem : HnswMemory P}
    (h : loadIndex P (some file) dataSize maxElementsI allow = .ok mem) :
    ∃ header : IndexHeader, mem.header = header.limited maxElementsI ∧
      file = header.toBytes ++ (mem.dataLevel0Memory ++ mem.linkLists.flatMap blockBytes) ∧
      mem.dataLevel0Memory.length =
        (header.curElementCount * header.sizeDataPerElement).toNat ∧
      mem.linkLists.length = header.curElementCount.toNat ∧
      ∀ block ∈ mem.linkLists, block.length < 2 ^ 32 := by
  have hacc : accepts file = true := by
    rw [← Bool.not_eq_false]
    intro hno
    rw [loadIndex_eq_corrupted hno] at h
    cases h
  obtain ⟨s', hcheck, hend⟩ := accepts_eq_true.mp hacc
  have hseek := (checkLinkLists_start hcheck hend).1
  have hread := (stable_seekCur _).not_failed hseek
  obtain ⟨-, c, hfile, rfl⟩ := consumes_header (.ofFile file) hread
  have hbytes := stable_header.bytes (.ofFile file)
  unfold loadIndex at h
  unfold accepts at hacc
  dsimp only at h
  generalize IndexHeader.read.run (.ofFile file) = r at *
  obtain ⟨header, input⟩ := r
  change input.bytes = file at hbytes
  subst hbytes
  dsimp only at h hacc
  rw [hacc, if_neg (by decide)] at h
  obtain ⟨hheader, hrest, hblocks⟩ := readBlocks_eq_ok h hcheck hend
  refine ⟨header, hheader, ?_, hblocks⟩
  rw [← hrest]
  exact hfile

theorem loadIndex_eq_ok_sampleFile :
    ∃ mem : HnswMemory listLibs, loadIndex listLibs (some sampleFile) 8 0 false = .ok mem ∧
    ∃ header : IndexHeader, mem.header = header.limited 0 ∧
      sampleFile = header.toBytes ++ (mem.dataLevel0Memory ++ mem.linkLists.flatMap blockBytes) ∧
      mem.dataLevel0Memory.length =
        (header.curElementCount * header.sizeDataPerElement).toNat ∧
      mem.linkLists.length = header.curElementCount.toNat ∧
      ∀ block ∈ mem.linkLists, block.length < 2 ^ 32 :=
  ⟨_, loadIndex_sampleFile, loadIndex_eq_ok loadIndex_sampleFile⟩

end HnswMemory

end MyKvRaft
