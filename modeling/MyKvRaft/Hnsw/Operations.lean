import MyKvRaft.Common.Run
import MyKvRaft.Hnsw.Update
import MyKvRaft.KvServer.Exceptions
import MyKvRaft.KvServer.RoundTrip

/-!
# Runs of the index

Any sequence of operations on an index, with any levels drawn for new slots, any distances and
any choice that the queues and sets of the standard library may make.

* `ensures_run`: an operation on a sound index does to its labels and vectors what it does to
  the labelled store, or throws because of what the caller asked for, as the store does, or
  finds nothing but marked slots where a new one is to be connected, and takes the back of an
  empty vector.
* `run_checkIntegrity`, `run_store`: what this means for the states of a run.
-/

namespace MyKvRaft

open Transition

variable {P : Libs} {S : Space}

/-! ## Marks -/

theorem countP_modify {α : Type*} (p : α → Bool) (f : α → α) {l : List α} {i : ℕ} {a : α}
    (h : l[i]? = some a) : (l.modify i f).countP p + (if p a then 1 else 0) =
      l.countP p + (if p (f a) then 1 else 0) := by
  induction l generalizing i with
  | nil => cases h
  | cons b l ih =>
    cases i with
    | zero =>
      obtain rfl := Option.some.inj h
      rw [List.modify_zero_cons, List.countP_cons, List.countP_cons]
      omega
    | succ i =>
      have := ih (i := i) h
      rw [List.modify_succ_cons, List.countP_cons, List.countP_cons]
      omega

namespace HierarchicalNSW

variable {ix ix' : HierarchicalNSW P} {id : ℕ}

def deletedCount (ix : HierarchicalNSW P) : ℕ := ix.elements.countP (·.deleted)

/-- Slots, marks and places in the table of labels are as they were. -/
structure SameMarks (ix ix' : HierarchicalNSW P) : Prop where
  count : ix'.curElementCount = ix.curElementCount
  marked : ∀ id, ix'.isMarkedDeleted id = ix.isMarkedDeleted id
  deletedCount : ix'.deletedCount = ix.deletedCount

theorem sameMarks_modify (ix : HierarchicalNSW P) (id : ℕ) {f : Element → Element}
    (hf : ∀ el, (f el).deleted = el.deleted) :
    SameMarks ix { ix with elements := ix.elements.modify id f } := by
  have hmap : (ix.elements.modify id f).map (·.deleted) = ix.elements.map (·.deleted) := by
    refine List.ext_getElem? fun i => ?_
    rw [List.getElem?_map, List.getElem?_map, List.getElem?_modify]
    cases ix.elements[i]? with
    | none => rfl
    | some el =>
      by_cases hi : id = i
      · simp [hi, hf]
      · simp [hi]
  refine ⟨List.length_modify .., fun i => ?_, ?_⟩
  · have hi := congrArg (fun marks => (marks[i]?).any fun b => b) hmap
    simpa [isMarkedDeleted, List.getElem?_map, Option.any_map] using hi
  · have hcount := congrArg (List.countP fun b => b) hmap
    simpa [deletedCount, List.countP_map, Function.comp_def] using hcount

theorem isMarkedDeleted_lt (h : ix.isMarkedDeleted id = true) : id < ix.curElementCount := by
  obtain ⟨el, hel, _⟩ := isMarkedDeleted_iff.mp h
  exact (List.getElem?_eq_some_iff.mp hel).1

theorem isMarkedDeleted_setMark (ix : HierarchicalNSW P) (hid : id < ix.curElementCount)
    (deleted : Bool) (id' : ℕ) : (ix.setMark id deleted).isMarkedDeleted id' =
      if id' = id then deleted else ix.isMarkedDeleted id' := by
  unfold isMarkedDeleted setMark
  dsimp only
  rw [List.getElem?_modify]
  by_cases heq : id' = id
  · subst heq
    rw [List.getElem?_eq_getElem (show id' < ix.elements.length from hid)]
    simp
  · rw [if_neg heq]
    cases ix.elements[id']? with
    | none => rfl
    | some el => simp [Ne.symm heq]

/-- What marking a slot does. -/
theorem markDeletedInternal_spec (h : ix.markDeletedInternal id = some ix')
    (hid : id < ix.curElementCount) :
    ix'.curElementCount = ix.curElementCount ∧ ix'.labelLookup = ix.labelLookup ∧
    ix'.maxElements = ix.maxElements ∧ ix'.deletedCount = ix.deletedCount + 1 := by
  unfold markDeletedInternal at h
  dsimp only at h
  split_ifs at h with hmark
  all_goals
    obtain rfl := Option.some.inj h
    refine ⟨List.length_modify .., rfl, rfl, ?_⟩
    obtain ⟨el, hget⟩ : ∃ el, ix.elements[id]? = some el := ⟨_, List.getElem?_eq_getElem hid⟩
    have hcount := countP_modify (·.deleted) (fun el : Element => { el with deleted := true }) hget
    have hclear : el.deleted = false := by
      by_contra hdel
      rw [Bool.not_eq_false] at hdel
      exact hmark (isMarkedDeleted_iff.mpr ⟨el, hget, hdel⟩)
    rw [hclear] at hcount
    simpa [deletedCount, setMark] using hcount

/-- What clearing a mark does. -/
theorem unmarkDeletedInternal_spec (h : ix.unmarkDeletedInternal id = some ix') :
    id < ix.curElementCount ∧ ix'.curElementCount = ix.curElementCount ∧
    ix'.labelLookup = ix.labelLookup ∧ ix'.maxElements = ix.maxElements ∧
    ix'.isMarkedDeleted id = false ∧ ix'.deletedCount + 1 = ix.deletedCount := by
  unfold unmarkDeletedInternal at h
  dsimp only at h
  split_ifs at h with hmark
  all_goals
    have hid := isMarkedDeleted_lt hmark
    obtain rfl := Option.some.inj h
    refine ⟨hid, List.length_modify .., rfl, rfl, ?_, ?_⟩
    · have hclear := isMarkedDeleted_setMark ix hid false id
      rw [if_pos rfl] at hclear
      exact hclear
    · obtain ⟨el, hget, hdel⟩ := isMarkedDeleted_iff.mp hmark
      have hcount := countP_modify (·.deleted) (fun el : Element => { el with deleted := false }) hget
      rw [hdel] at hcount
      simpa [deletedCount, setMark] using hcount

theorem unmarkDeletedInternal_of_marked (h : ix.isMarkedDeleted id = true) :
    ∃ ix', ix.unmarkDeletedInternal id = some ix' := by
  unfold unmarkDeletedInternal
  rw [if_pos h]
  dsimp only
  split_ifs
  · exact ⟨_, rfl⟩
  · exact ⟨_, rfl⟩

theorem addPoint_takeOver (hallow : ix.allowReplaceDeleted = true)
    (hfirst : P.first ix.deletedElements = some id) (data : List UInt32) (label : UInt64) :
    ix.addPoint data label true = ((ix.addPointThrown label true).unmarkDeletedInternal id).map
      fun ix => ix.updatePoint data id := by
  unfold addPoint addPointThrown
  rw [if_neg (by simp [hallow]), if_neg (by simp), if_pos (by simp [hallow]), hfirst]

/-- The slots that may be taken over are marked. -/
def FreeMarked (ix : HierarchicalNSW P) : Prop :=
  ∀ id, P.contains ix.deletedElements id = true →
    ix.allowReplaceDeleted = true ∧ ix.isMarkedDeleted id = true

theorem FreeMarked.of_subset (h : ix.FreeMarked)
    (hallow : ix'.allowReplaceDeleted = ix.allowReplaceDeleted)
    (hsub : ∀ id, P.contains ix'.deletedElements id = true →
      P.contains ix.deletedElements id = true)
    (hmark : ∀ id, P.contains ix'.deletedElements id = true → ix.isMarkedDeleted id = true →
      ix'.isMarkedDeleted id = true) : ix'.FreeMarked := by
  intro id hid
  obtain ⟨hall, hmarked⟩ := h id (hsub id hid)
  exact ⟨hallow.trans hall, hmark id hid hmarked⟩

theorem FreeMarked.append (h : ix.FreeMarked) (data : List UInt32) (label : UInt64) :
    (ix.append data label).FreeMarked := by
  refine h.of_subset rfl (fun _ => id) fun id _ hmark => ?_
  have hlt := isMarkedDeleted_lt hmark
  unfold isMarkedDeleted HierarchicalNSW.append at *
  dsimp only
  rw [List.getElem?_append_left hlt]
  exact hmark

theorem FreeMarked.markDeletedInternal (h : ix.FreeMarked)
    (hmark : ix.markDeletedInternal id = some ix') (hid : id < ix.curElementCount) :
    ix'.FreeMarked := by
  have hset := isMarkedDeleted_setMark ix hid true
  have hkeep : ∀ id', ix.isMarkedDeleted id' = true → (ix.setMark id true).isMarkedDeleted id' = true
    | id', hm => by
      rw [hset]
      split_ifs
      · rfl
      · exact hm
  unfold HierarchicalNSW.markDeletedInternal at hmark
  dsimp only at hmark
  split_ifs at hmark with _ hallow
  · obtain rfl := Option.some.inj hmark
    intro id' hid'
    refine ⟨hallow, ?_⟩
    show (ix.setMark id true).isMarkedDeleted id' = true
    rw [P.contains_insert, Bool.or_eq_true, beq_iff_eq] at hid'
    obtain rfl | hin := hid'
    · rw [hset, if_pos rfl]
    · exact hkeep id' (h id' hin).2
  · obtain rfl := Option.some.inj hmark
    exact h.of_subset rfl (fun _ h => h) fun id' _ => hkeep id'

theorem FreeMarked.unmarkDeletedInternal (h : ix.FreeMarked)
    (hunmark : ix.unmarkDeletedInternal id = some ix') : ix'.FreeMarked := by
  have hid := (unmarkDeletedInternal_spec hunmark).1
  have hset := isMarkedDeleted_setMark ix hid false
  unfold HierarchicalNSW.unmarkDeletedInternal at hunmark
  dsimp only at hunmark
  split_ifs at hunmark with _ hallow
  · obtain rfl := Option.some.inj hunmark
    refine h.of_subset rfl (fun id' hid' => ?_) fun id' hid' hm => ?_
    all_goals rw [P.contains_erase, Bool.and_eq_true, bne_iff_ne] at hid'
    · exact hid'.2
    · show (ix.setMark id false).isMarkedDeleted id' = true
      rw [hset, if_neg hid'.1]
      exact hm
  · obtain rfl := Option.some.inj hunmark
    intro id' hid'
    exact absurd (h id' hid').1 hallow

theorem freeMarked_ofFile (P : Libs) (file : HnswFile) (maxElementsI : ℕ) (allow : Bool) :
    (ofFile P file maxElementsI allow).FreeMarked := by
  intro id hid
  have hfold : ∀ (l : List (Element × ℕ)) (ids : P.IdSet), P.contains (l.foldl (fun ids p =>
      if p.1.deleted && allow then P.insert ids p.2 else ids) ids) id = true →
      P.contains ids id = true ∨ ∃ p ∈ l, p.2 = id ∧ p.1.deleted = true ∧ allow = true := by
    intro l
    induction l with
    | nil => exact fun ids h => .inl h
    | cons p l ih =>
      intro ids h
      rw [List.foldl_cons] at h
      obtain hin | ⟨p', hp', hrest⟩ := ih _ h
      · split_ifs at hin with hp
        · rw [P.contains_insert, Bool.or_eq_true, beq_iff_eq] at hin
          rw [Bool.and_eq_true] at hp
          exact hin.elim (fun heq => .inr ⟨p, List.mem_cons_self .., heq.symm, hp⟩) .inl
        · exact .inl hin
      · exact .inr ⟨p', List.mem_cons_of_mem _ hp', hrest⟩
  obtain hempty | ⟨p, hp, rfl, hdel, hallow⟩ := hfold _ _ hid
  · rw [P.contains_empty] at hempty
    cases hempty
  · exact ⟨hallow, isMarkedDeleted_iff.mpr ⟨p.1, List.mem_zipIdx_iff_getElem?.mp hp, hdel⟩⟩

end HierarchicalNSW

/-! ## Operations -/

inductive IndexOp where
  | addPoint (data : List UInt32) (label : UInt64) (replaceDeleted : Bool) (curlevel : ℕ)
  | markDelete (label : UInt64)
  | unmarkDelete (label : UInt64)
  | setEf (ef : ℕ)
  | resizeIndex (newMaxElements : ℕ)
  | reload (maxElementsI : ℕ) (allowReplaceDeleted : Bool)

namespace HnswGraph

variable {g g' : HnswGraph P} {id : ℕ}

variable (S) in
def run (g : HnswGraph P) : IndexOp → Except Fault (HnswGraph P)
  | .addPoint data label replaceDeleted curlevel => g.addPoint S data label replaceDeleted curlevel
  | .markDelete label => g.markDelete label
  | .unmarkDelete label => g.unmarkDelete label
  | .setEf ef => .ok { g with ef := ef }
  | .resizeIndex n => g.resizeIndex n
  | .reload maxElementsI allow => .ok (g.reload maxElementsI allow)

/-- The same on the labelled store. -/
def runStore (store : HierarchicalNSW P) : IndexOp → Option (HierarchicalNSW P)
  | .addPoint data label replaceDeleted _ => store.addPoint data label replaceDeleted
  | .markDelete label => store.markDelete label
  | .unmarkDelete label => (store.labelLookup label).bind store.unmarkDeletedInternal
  | .setEf _ => some store
  | .resizeIndex n =>
    if n < store.curElementCount then none else some { store with maxElements := n }
  | .reload maxElementsI allow =>
    some (HierarchicalNSW.ofFile P store.saveIndex maxElementsI allow)

/-- The store that an exception leaves behind. -/
def thrown (store : HierarchicalNSW P) : IndexOp → HierarchicalNSW P
  | .addPoint _ label replaceDeleted _ => store.addPointThrown label replaceDeleted
  | _ => store

/-- The invariant of the index. -/
structure Integrity (g : HnswGraph P) : Prop where
  sound : g.Sound
  numDeleted : g.numDeleted = g.store.deletedCount
  free : g.store.FreeMarked
  lookup : ∀ label id, g.store.labelLookup label = some id → id < g.curElementCount

theorem integrity_create {maxElements m efConstruction : ℕ} {allowReplaceDeleted : Bool}
    (hm : 0 < m) : (create P maxElements m efConstruction allowReplaceDeleted).Integrity where
  sound := by
    refine ⟨⟨?_, ?_, ?_⟩, fun id level l hl => ?_, rfl, Nat.zero_le _, fun id hid => ?_,
      fun ep maxlevel h => ?_, fun _ => rfl⟩
    · exact lt_min hm (by norm_num)
    · exact Nat.min_le_right _ _
    · exact (lt_min hm (by norm_num)).trans_le (le_max_right _ _)
    · simp [create, linkList?] at hl
    · cases hid
    · cases h
  numDeleted := rfl
  free id h := by
    rw [show (create P maxElements m efConstruction allowReplaceDeleted).store.deletedElements =
      P.emptySet from rfl, P.contains_empty] at h
    cases h
  lookup label id h := by cases h

/-- How an operation may end: with a sound index over the store that the labelled store gives, with
    an exception where that throws, or without a candidate to connect a new slot to. -/
def Ends (g : HnswGraph P) (store' : Option (HierarchicalNSW P))
    (r : Except Fault (HnswGraph P)) : Prop :=
  r.Ensures (fun g' => g'.Integrity ∧ store' = some g'.store)
    (fun f => (f.refuses = true ∧ store' = none) ∨
      (f = .emptyBack ∧ ∃ id, g.isMarkedDeleted id = true))

theorem Integrity.updatePoint (h : g.Integrity) (data : List UInt32) (hid : id < g.curElementCount)
    (hmark : g.isMarkedDeleted id = false) {E : Fault → Prop} :
    (g.updatePoint S data id).Ensures
      (fun r => r.Integrity ∧ r.store = g.store.updatePoint data id) E := by
  have hsame := g.store.sameMarks_modify id (f := fun el => { el with data := data }) fun _ => rfl
  refine (ensures_updatePoint h.sound hid hmark).mono (fun r hr => ⟨⟨hr.1, ?_, ?_, ?_⟩, hr.2.1⟩)
    fun _ hf => hf.elim
  · rw [hr.2.2, hr.2.1, h.numDeleted]
    exact hsame.deletedCount.symm
  · rw [hr.2.1]
    exact h.free.of_subset rfl (fun _ h => h) fun id' _ hm => (hsame.marked id').trans hm
  · intro label id' hl
    unfold HnswGraph.curElementCount
    rw [hr.2.1] at hl ⊢
    rw [curElementCount_updatePoint]
    exact h.lookup label id' hl

/-- Unmarking, and then a new vector. -/
theorem Integrity.unmark (h : g.Integrity) {store' : HierarchicalNSW P}
    (hstore : g.store.unmarkDeletedInternal id = some store') :
    ({ g with store := store', numDeleted := g.numDeleted - 1 } : HnswGraph P).Integrity := by
  obtain ⟨_, hcount, hlookup, hmax, _, hdel⟩ := HierarchicalNSW.unmarkDeletedInternal_spec hstore
  refine ⟨h.sound.transfer rfl rfl rfl rfl hcount ?_, ?_, h.free.unmarkDeletedInternal hstore, ?_⟩
  · show store'.curElementCount ≤ store'.maxElements
    rw [hcount, hmax]
    exact h.sound.count_le
  · have := h.numDeleted
    show g.numDeleted - 1 = store'.deletedCount
    omega
  · intro label id' hl
    rw [show HnswGraph.curElementCount _ = store'.curElementCount from rfl, hcount]
    exact h.lookup label id' (hlookup ▸ hl)

theorem Integrity.insertPoint (h : g.Integrity) (hroom : g.curElementCount < g.store.maxElements)
    (data : List UInt32) (label : UInt64) (curlevel : ℕ) :
    Ends g (some (g.store.append data label)) (g.insertPoint S data label curlevel) := by
  refine (ensures_insertPoint h.sound hroom label curlevel).mono (fun r hr => ?_) fun f hf => .inr hf
  obtain ⟨hsound, hstore, hdel⟩ := hr
  refine ⟨⟨hsound, ?_, by rw [hstore]; exact h.free.append data label, fun l id hl => ?_⟩,
    by rw [hstore]⟩
  · rw [hdel, hstore, h.numDeleted]
    unfold HierarchicalNSW.deletedCount HierarchicalNSW.append
    simp
  · have hcount : r.curElementCount = g.curElementCount + 1 := by
      unfold HnswGraph.curElementCount
      rw [hstore]
      exact List.length_append
    rw [hstore] at hl
    unfold HierarchicalNSW.append at hl
    dsimp only at hl
    rw [Function.update_apply] at hl
    split_ifs at hl
    · obtain rfl := Option.some.inj hl
      show g.curElementCount < r.curElementCount
      omega
    · have := h.lookup l id hl
      omega

theorem Integrity.addPointAtLevel (h : g.Integrity) (data : List UInt32) (label : UInt64)
    (curlevel : ℕ) : Ends g (g.store.addPointAtLevel data label)
      (g.addPointAtLevel S data label curlevel) := by
  unfold HnswGraph.addPointAtLevel HierarchicalNSW.addPointAtLevel
  cases hl : g.store.labelLookup label with
  | none =>
    dsimp only
    by_cases hfull : g.curElementCount ≥ g.store.maxElements
    · rw [if_pos (show g.store.curElementCount ≥ g.store.maxElements from hfull), if_pos hfull]
      exact .inl ⟨rfl, rfl⟩
    · rw [if_neg (show ¬g.store.curElementCount ≥ g.store.maxElements from hfull), if_neg hfull]
      exact h.insertPoint (Nat.lt_of_not_le hfull) data label curlevel
  | some existing =>
    dsimp only
    have hid := h.lookup label existing hl
    by_cases hmark : g.isMarkedDeleted existing = true
    · have hmark' : g.store.isMarkedDeleted existing = true := hmark
      by_cases hallow : g.store.allowReplaceDeleted = true
      · rw [if_pos (by rw [hallow, hmark']; rfl), if_pos ⟨hallow, hmark⟩]
        exact .inl ⟨rfl, rfl⟩
      · rw [if_neg (by rw [hmark', Bool.and_true]; exact hallow), if_pos hmark',
          if_neg fun hc => hallow hc.1, if_pos hmark]
        obtain ⟨store', hstore⟩ := HierarchicalNSW.unmarkDeletedInternal_of_marked hmark'
        obtain ⟨_, hcount, _, _, hclear, _⟩ := HierarchicalNSW.unmarkDeletedInternal_spec hstore
        unfold HnswGraph.unmarkDeletedInternal
        rw [hstore]
        refine ((h.unmark hstore).updatePoint data (hid.trans_eq hcount.symm) hclear).mono
          (fun r hr => ⟨hr.1, ?_⟩) fun _ hf => hf
        rw [hr.2]
        rfl
    · have hmark' : ¬g.store.isMarkedDeleted existing = true := hmark
      rw [if_neg (by rw [Bool.and_eq_true]; exact fun hc => hmark' hc.2), if_neg hmark',
        if_neg fun hc => hmark hc.2, if_neg hmark]
      rw [Bool.not_eq_true] at hmark
      refine (h.updatePoint data hid hmark).mono (fun r hr => ⟨hr.1, ?_⟩) fun _ hf => hf
      rw [hr.2]

/-- The index while `addPoint` is about to unmark the slot that it takes over. -/
theorem Integrity.addPointThrown (h : g.Integrity) (label : UInt64) (replaceDeleted : Bool) :
    ({ g with store := g.store.addPointThrown label replaceDeleted } : HnswGraph P).Integrity ∧
    HierarchicalNSW.SameMarks g.store (g.store.addPointThrown label replaceDeleted) := by
  unfold HierarchicalNSW.addPointThrown
  split_ifs
  swap
  · exact ⟨h, rfl, fun _ => rfl, rfl⟩
  cases hfirst : P.first g.store.deletedElements with
  | none => exact ⟨h, rfl, fun _ => rfl, rfl⟩
  | some replaced =>
    dsimp only
    obtain ⟨hcount, hmarked, hdel⟩ := g.store.sameMarks_modify replaced
      (f := fun el => { el with label := label }) fun _ => rfl
    refine ⟨⟨h.sound.transfer rfl rfl rfl rfl hcount ?_, ?_, ?_, fun l id hl => ?_⟩,
      hcount, hmarked, hdel⟩
    · exact hcount.trans_le h.sound.count_le
    · exact h.numDeleted.trans hdel.symm
    · refine h.free.of_subset rfl (fun id hid => ?_) fun id _ hm => (hmarked id).trans hm
      change P.contains (P.erase g.store.deletedElements replaced) id = true at hid
      rw [P.contains_erase, Bool.and_eq_true] at hid
      exact hid.2
    · change id < (g.store.elements.modify replaced _).length
      rw [List.length_modify]
      change Function.update (Function.update g.store.labelLookup _ none) label (some replaced) l =
        some id at hl
      rw [Function.update_apply, Function.update_apply] at hl
      split_ifs at hl
      · obtain rfl := Option.some.inj hl
        exact HierarchicalNSW.isMarkedDeleted_lt
          (h.free replaced (P.first_some _ _ hfirst)).2
      · exact h.lookup l id hl

theorem addPoint_takeOver (hallow : g.store.allowReplaceDeleted = true) {replaced : ℕ}
    (hfirst : P.first g.store.deletedElements = some replaced) (data : List UInt32)
    (label : UInt64) (curlevel : ℕ) : g.addPoint S data label true curlevel =
      (({ g with store := g.store.addPointThrown label true } : HnswGraph P).unmarkDeletedInternal
        replaced >>= fun g' => g'.updatePoint S data replaced) := by
  unfold HnswGraph.addPoint HierarchicalNSW.addPointThrown
  rw [if_neg (by simp [hallow]), if_neg (by simp), if_pos (by simp [hallow]), hfirst]
  rfl

/-- Taking over a slot does not fail. -/
theorem Integrity.takeOver (h : g.Integrity) (hallow : g.store.allowReplaceDeleted = true)
    {replaced : ℕ} (hfirst : P.first g.store.deletedElements = some replaced)
    (data : List UInt32) (label : UInt64) (curlevel : ℕ) :
    (g.addPoint S data label true curlevel).Ensures
      (fun g' => g'.Integrity ∧ g.store.addPoint data label true = some g'.store)
      fun _ => False := by
  obtain ⟨hgiven, hsame⟩ := h.addPointThrown label true
  have hmark := (hsame.marked replaced).trans (h.free replaced (P.first_some _ _ hfirst)).2
  obtain ⟨store', hunmark⟩ := HierarchicalNSW.unmarkDeletedInternal_of_marked hmark
  obtain ⟨hlt, hcount, _, _, hclear, _⟩ := HierarchicalNSW.unmarkDeletedInternal_spec hunmark
  have hupdate := (hgiven.unmark hunmark).updatePoint (S := S) (E := fun _ => False) data
    (hlt.trans_eq hcount.symm) hclear
  rw [addPoint_takeOver hallow hfirst, HierarchicalNSW.addPoint_takeOver hallow hfirst, hunmark]
  unfold HnswGraph.unmarkDeletedInternal
  rw [hunmark]
  refine hupdate.mono (fun r hr => ⟨hr.1, ?_⟩) fun _ hf => hf
  rw [hr.2]
  rfl

theorem Integrity.addPoint (h : g.Integrity) (data : List UInt32) (label : UInt64)
    (replaceDeleted : Bool) (curlevel : ℕ) :
    Ends g (g.store.addPoint data label replaceDeleted)
      (g.addPoint S data label replaceDeleted curlevel) := by
  by_cases hallow : g.store.allowReplaceDeleted = false ∧ replaceDeleted = true
  · unfold HnswGraph.addPoint HierarchicalNSW.addPoint
    rw [if_pos hallow, if_pos (by simp [hallow.1, hallow.2])]
    exact .inl ⟨rfl, rfl⟩
  by_cases hreplace : replaceDeleted = false
  · unfold HnswGraph.addPoint HierarchicalNSW.addPoint
    rw [if_neg hallow, if_neg (by simpa using hallow), if_pos hreplace, if_pos (by simp [hreplace])]
    exact h.addPointAtLevel data label curlevel
  rw [Bool.not_eq_false] at hreplace
  subst hreplace
  cases hfirst : P.first g.store.deletedElements with
  | none =>
    unfold HnswGraph.addPoint HierarchicalNSW.addPoint
    rw [if_neg hallow, if_neg (by simpa using hallow), if_neg (by simp), if_neg (by simp), hfirst]
    exact h.addPointAtLevel data label curlevel
  | some replaced =>
    have htrue : g.store.allowReplaceDeleted = true := by
      by_contra hfalse
      exact hallow ⟨Bool.eq_false_iff.mpr hfalse, rfl⟩
    exact (h.takeOver htrue hfirst data label curlevel).mono (fun _ hr => hr) fun _ hf => hf.elim

theorem Integrity.markDeletedInternal (h : g.Integrity) (hid : id < g.curElementCount) :
    Ends g (g.store.markDeletedInternal id) (g.markDeletedInternal id) := by
  unfold HnswGraph.markDeletedInternal
  cases hstore : g.store.markDeletedInternal id with
  | none => exact .inl ⟨rfl, rfl⟩
  | some store' =>
    obtain ⟨hcount, hlookup, hmax, hdel⟩ := HierarchicalNSW.markDeletedInternal_spec hstore hid
    refine ⟨⟨h.sound.transfer rfl rfl rfl rfl hcount ?_, ?_, h.free.markDeletedInternal hstore hid,
      fun l id hl => ?_⟩, rfl⟩
    · show store'.curElementCount ≤ store'.maxElements
      rw [hcount, hmax]
      exact h.sound.count_le
    · show g.numDeleted + 1 = store'.deletedCount
      rw [hdel, h.numDeleted]
    · show id < store'.curElementCount
      rw [hcount]
      exact h.lookup l id (hlookup ▸ hl)

theorem Integrity.unmarkDeletedInternal (h : g.Integrity) :
    Ends g (g.store.unmarkDeletedInternal id) (g.unmarkDeletedInternal id) := by
  unfold HnswGraph.unmarkDeletedInternal
  cases hstore : g.store.unmarkDeletedInternal id with
  | none => exact .inl ⟨rfl, rfl⟩
  | some store' => exact ⟨h.unmark hstore, rfl⟩

theorem Integrity.reload (h : g.Integrity) (maxElementsI : ℕ) (allow : Bool) :
    (g.reload maxElementsI allow).Integrity := by
  refine ⟨h.sound.transfer rfl rfl rfl rfl rfl ?_, rfl,
    HierarchicalNSW.freeMarked_ofFile P _ maxElementsI allow, fun l id hl => ?_⟩
  · show g.store.elements.length ≤
      if maxElementsI < g.store.elements.length then g.store.maxElements else maxElementsI
    have := h.sound.count_le
    unfold HnswGraph.curElementCount HierarchicalNSW.curElementCount at this
    split_ifs <;> omega
  · obtain ⟨el, hel, _⟩ := (HierarchicalNSW.lookupOf_spec g.store.elements l).1 id hl
    exact (List.getElem?_eq_some_iff.mp hel).1

theorem Integrity.setEf (h : g.Integrity) (ef : ℕ) : ({ g with ef := ef } : HnswGraph P).Integrity :=
  ⟨h.sound.transfer rfl rfl rfl rfl rfl h.sound.count_le, h.numDeleted, h.free, h.lookup⟩

theorem ensures_run (h : g.Integrity) (op : IndexOp) :
    Ends g (runStore g.store op) (g.run S op) := by
  cases op with
  | addPoint data label replaceDeleted curlevel =>
    exact h.addPoint data label replaceDeleted curlevel
  | markDelete label =>
    show Ends g (g.store.markDelete label) (g.markDelete label)
    unfold markDelete HierarchicalNSW.markDelete
    cases hl : g.store.labelLookup label with
    | none => exact .inl ⟨rfl, rfl⟩
    | some id => exact h.markDeletedInternal (h.lookup label id hl)
  | unmarkDelete label =>
    show Ends g ((g.store.labelLookup label).bind g.store.unmarkDeletedInternal)
      (g.unmarkDelete label)
    unfold unmarkDelete
    cases hl : g.store.labelLookup label with
    | none => exact .inl ⟨rfl, rfl⟩
    | some id => exact h.unmarkDeletedInternal
  | setEf ef => exact ⟨h.setEf ef, rfl⟩
  | resizeIndex n =>
    show Ends g (if n < g.store.curElementCount then none else
      some { g.store with maxElements := n }) (g.resizeIndex n)
    unfold resizeIndex
    by_cases hn : n < g.curElementCount
    · rw [if_pos (show n < g.store.curElementCount from hn), if_pos hn]
      exact .inl ⟨rfl, rfl⟩
    · rw [if_neg (show ¬n < g.store.curElementCount from hn), if_neg hn]
      exact ⟨⟨h.sound.transfer rfl rfl rfl rfl rfl (Nat.le_of_not_lt hn), h.numDeleted,
        h.free, h.lookup⟩, rfl⟩
  | reload maxElementsI allow => exact ⟨h.reload maxElementsI allow, rfl⟩

theorem integrity_thrown (h : g.Integrity) (op : IndexOp) :
    ({ g with store := thrown g.store op } : HnswGraph P).Integrity := by
  cases op with
  | addPoint data label replaceDeleted curlevel => exact (h.addPointThrown label replaceDeleted).1
  | _ => exact h

/-- An operation that throws has changed nothing. -/
theorem Integrity.thrown_eq (h : g.Integrity) {op : IndexOp} {f : Fault}
    (hf : g.run S op = .error f) : thrown g.store op = g.store := by
  cases op with
  | addPoint data label replaceDeleted curlevel =>
    show g.store.addPointThrown label replaceDeleted = g.store
    unfold HierarchicalNSW.addPointThrown
    split_ifs with htake
    swap
    · rfl
    rw [Bool.and_eq_true] at htake
    obtain ⟨hallow, rfl⟩ := htake
    cases hfirst : P.first g.store.deletedElements with
    | none => rfl
    | some replaced => exact ((h.takeOver hallow hfirst data label curlevel).of_eq_error hf).elim
  | _ => rfl

/-! ## Runs -/

variable (S) in
def step (g : HnswGraph P) (op : IndexOp) : HnswGraph P :=
  match g.run S op with
  | .ok g' => g'
  | .error _ => { g with store := thrown g.store op }

def storeStep (store : HierarchicalNSW P) (op : IndexOp) : HierarchicalNSW P :=
  (runStore store op).getD (thrown store op)

/-- The operation does not take the back of an empty vector. -/
def isDefined (r : Except Fault (HnswGraph P)) : Bool :=
  match r with
  | .error .emptyBack => false
  | _ => true

variable (S) in
/-- The runs without undefined behaviour. -/
def DefinedRun (g : HnswGraph P) : List (HnswGraph P × IndexOp) → HnswGraph P → Prop :=
  Run (step S) (fun g op => isDefined (g.run S op) = true) g

theorem integrity_step (h : g.Integrity) (op : IndexOp) : (step S g op).Integrity := by
  have hends := ensures_run (S := S) h op
  unfold step
  cases hrun : g.run S op with
  | ok g' =>
    rw [hrun] at hends
    exact hends.1
  | error f => exact integrity_thrown h op

theorem store_step (h : g.Integrity) {op : IndexOp} (hdef : isDefined (g.run S op) = true) :
    (step S g op).store = storeStep g.store op := by
  have hends := ensures_run (S := S) h op
  unfold step storeStep
  cases hrun : g.run S op with
  | ok g' =>
    rw [hrun] at hends
    rw [hends.2]
    rfl
  | error f =>
    rw [hrun] at hends hdef
    obtain ⟨_, hnone⟩ | ⟨rfl, _⟩ := hends
    · rw [hnone]
      rfl
    · cases hdef

/-- The asserts of `checkIntegrity` on the link list of a slot (lines 1386–1398). -/
def checkList (g : HnswGraph P) (i level : ℕ) : Bool :=
  match g.linkList? i level with
  | none => false
  | some l => l.links.all (fun c => c < g.curElementCount && c != i) &&
      l.links.dedup.length == l.count

/-- The asserts of `checkIntegrity` on all link lists (lines 1384–1399). -/
def checkLinks (g : HnswGraph P) : Bool :=
  (List.range g.curElementCount).all fun i =>
    (List.range (g.elementLevel i + 1)).all fun level => g.checkList i level

/-- The neighbours of a slot on a level, none where it has no list. -/
def linksAt (g : HnswGraph P) (i level : ℕ) : List ℕ :=
  (g.linkList? i level).elim [] LinkList.links

/-- What `inbound_connections_num` counts for a slot (line 1393). -/
def inboundConnectionsNum (g : HnswGraph P) (id : ℕ) : ℕ :=
  ((List.range g.curElementCount).flatMap fun i =>
    (List.range (g.elementLevel i + 1)).flatMap (g.linksAt i)).count id

/-- `checkIntegrity` (lines 1381–1410): whether all its asserts hold. -/
def checkIntegrity (g : HnswGraph P) : Bool :=
  g.checkLinks && (g.curElementCount ≤ 1 ||
    (List.range g.curElementCount).all fun i => 0 < g.inboundConnectionsNum i)

theorem Sound.checkLinks (h : g.Sound) : g.checkLinks = true := by
  unfold HnswGraph.checkLinks
  rw [List.all_eq_true]
  intro i hi
  rw [List.all_eq_true]
  intro level hlevel
  rw [List.mem_range] at hi hlevel
  obtain ⟨l, hl⟩ := ((h.base i hi).elementLevel.mono (Nat.lt_succ_iff.mp hlevel)).exists
  have hlinked := h.links i level l hl
  unfold checkList
  rw [hl, Bool.and_eq_true, List.all_eq_true]
  refine ⟨fun c hc => ?_, ?_⟩
  · rw [Bool.and_eq_true, decide_eq_true_eq, bne_iff_ne]
    refine ⟨h.length ▸ (hlinked.hasLevel c hc).lt_length, ?_⟩
    rintro rfl
    exact hlinked.not_self hc
  · rw [hlinked.nodup.dedup, hlinked.lists.length_eq]
    exact beq_self_eq_true _

/-- A slot is counted if some list names it. -/
theorem inboundConnectionsNum_pos {id : ℕ} : 0 < g.inboundConnectionsNum id ↔
    ∃ i < g.curElementCount, ∃ level ≤ g.elementLevel i, id ∈ g.linksAt i level := by
  unfold inboundConnectionsNum
  simp [List.count_pos_iff]

/-- On lists that are sound the check says whether every slot can be got to from another one. -/
theorem Sound.checkIntegrity_iff (h : g.Sound) : g.checkIntegrity = true ↔
    g.curElementCount ≤ 1 ∨ ∀ id < g.curElementCount,
      ∃ i < g.curElementCount, ∃ level ≤ g.elementLevel i, id ∈ g.linksAt i level := by
  unfold checkIntegrity
  rw [h.checkLinks, Bool.true_and, Bool.or_eq_true, decide_eq_true_eq, List.all_eq_true]
  simp only [List.mem_range, decide_eq_true_eq, inboundConnectionsNum_pos]

section Runs

variable {maxElements m efConstruction : ℕ} {allow : Bool} {h : List (HnswGraph P × IndexOp)}
  {s : HnswGraph P}

theorem DefinedRun.integrity (hm : 0 < m)
    (hr : DefinedRun S (create P maxElements m efConstruction allow) h s) : s.Integrity :=
  Run.invariant (integrity_create hm) (fun _ op hs _ => integrity_step hs op) hr

/-- A slot is marked and taken over, and the vector of another one is replaced. -/
def sampleOps : List IndexOp :=
  [.addPoint [floatOne, 0] 1 false 0, .addPoint [0, floatOne] 2 false 1, .markDelete 1,
    .addPoint [floatOne, floatOne] 3 true 0, .addPoint [0, 0] 4 false 2,
    .addPoint [floatOne, 0] 2 false 0]

def sampleGraph : HnswGraph listLibs :=
  sampleOps.foldl (step innerProductSpace) (create listLibs 10 2 4 true)

theorem definedRun_sampleGraph : DefinedRun innerProductSpace (create listLibs 10 2 4 true)
    (history (step innerProductSpace) (create listLibs 10 2 4 true) sampleOps) sampleGraph :=
  run_history sampleOps (by decide +kernel)

/-- In every state that an index can be in, the asserts on its link lists hold, and so the check
    passes exactly if every slot is in a list of another one. The next operation returns or throws
    for what it has been asked, unless it connects a new slot and finds nothing but slots that are
    marked. -/
theorem run_checkIntegrity (hm : 0 < m)
    (hr : DefinedRun S (create P maxElements m efConstruction allow) h s) :
    s.checkLinks = true ∧
    (s.checkIntegrity = true ↔ s.curElementCount ≤ 1 ∨ ∀ id < s.curElementCount,
      ∃ i < s.curElementCount, ∃ level ≤ s.elementLevel i, id ∈ s.linksAt i level) ∧
    ∀ op f, s.run S op = .error f → f.refuses = true ∨
      (f = .emptyBack ∧ ∃ id, s.isMarkedDeleted id = true) := by
  have hs := hr.integrity hm
  refine ⟨hs.sound.checkLinks, hs.sound.checkIntegrity_iff, fun op f hf => ?_⟩
  have hends := (ensures_run (S := S) hs op).of_eq_error hf
  exact hends.imp_left fun hrefuse => hrefuse.1

theorem run_checkIntegrity_sampleGraph : sampleGraph.checkLinks = true ∧
    (sampleGraph.checkIntegrity = true ↔ sampleGraph.curElementCount ≤ 1 ∨
      ∀ id < sampleGraph.curElementCount, ∃ i < sampleGraph.curElementCount,
        ∃ level ≤ sampleGraph.elementLevel i, id ∈ sampleGraph.linksAt i level) ∧
    ∀ op f, sampleGraph.run innerProductSpace op = .error f → f.refuses = true ∨
      (f = .emptyBack ∧ ∃ id, sampleGraph.isMarkedDeleted id = true) :=
  run_checkIntegrity (by decide) definedRun_sampleGraph

/-- Six vectors for an index with `M = 2`, all on the base layer, where a list has room for four
    neighbours. Only the second slot has the first one for a neighbour, until its list is full. -/
def crowdedOps : List IndexOp :=
  [.addPoint [0, floatOne, 0] 0 false 0, .addPoint [floatOne, floatOne, floatOne] 1 false 0,
    .addPoint [0, 0, floatOne] 2 false 0, .addPoint [floatOne, 0, 0] 3 false 0,
    .addPoint [floatOne, 0, floatOne] 4 false 0, .addPoint [0, floatOne, floatOne] 5 false 0]

-- The check fails on an index that has been built by nothing but insertions.
example : ((crowdedOps.foldl (step innerProductSpace) (create listLibs 10 2 4 false)).checkLinks,
    (crowdedOps.foldl (step innerProductSpace) (create listLibs 10 2 4 false)).checkIntegrity) =
    (true, false) := by decide +kernel

/-- The labels, vectors and marks of an index are those of the labelled store after the same
    operations, and an operation throws where the store does, and then has changed nothing. -/
theorem run_store (hm : 0 < m)
    (hr : DefinedRun S (create P maxElements m efConstruction allow) h s) :
    s.store = (h.map (·.2)).foldl storeStep (HierarchicalNSW.create P maxElements allow) ∧
    ∀ op, isDefined (s.run S op) = true →
      ((∃ f, s.run S op = .error f) ↔ runStore s.store op = none) ∧
      ∀ f, s.run S op = .error f → step S s op = s := by
  refine ⟨?_, fun op hdef => ⟨?_, fun f hf => ?_⟩⟩
  · induction hr with
    | nil => rfl
    | @snoc h s op hrun hdef ih =>
      rw [List.map_append, List.foldl_append, ← ih]
      exact store_step (DefinedRun.integrity hm hrun) hdef
  · have hends := ensures_run (S := S) (hr.integrity hm) op
    cases hrun : s.run S op with
    | ok g' =>
      rw [hrun] at hends
      rw [hends.2]
      simp
    | error f =>
      rw [hrun] at hends hdef
      obtain ⟨_, hnone⟩ | ⟨rfl, _⟩ := hends
      · simp [hnone]
      · cases hdef
  · unfold step
    rw [hf]
    show { s with store := thrown s.store op } = s
    rw [(hr.integrity hm).thrown_eq hf]

theorem run_store_sampleGraph :
    sampleGraph.store = sampleOps.foldl storeStep (HierarchicalNSW.create listLibs 10 true) ∧
    ∀ op, isDefined (sampleGraph.run innerProductSpace op) = true →
      ((∃ f, sampleGraph.run innerProductSpace op = .error f) ↔
        runStore sampleGraph.store op = none) ∧
      ∀ f, sampleGraph.run innerProductSpace op = .error f →
        step innerProductSpace sampleGraph op = sampleGraph :=
  run_store (by decide) definedRun_sampleGraph

end Runs

end HnswGraph

end MyKvRaft
