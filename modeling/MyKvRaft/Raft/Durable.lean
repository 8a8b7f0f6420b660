import MyKvRaft.Raft.WorkLoop

/-!
# What `WaitFlushed` promises

`Raft::persist` (`Raft.cpp` lines 1224–1228) goes on when `WaitFlushed` (`raft.h` lines 237–242)
returns, and votes and acknowledgements are sent after it. `WorkLoop` drops what
`WriteFileAtomic` returns (lines 153 and 156) and publishes `seqToWrite` in either case.

As long as no write of the iteration under way has failed, the process is as `Tracked.Ordered`
says. Once one has failed, `Stranded` says what the files hold until the thread publishes.

* `waitFlushed_durable_iff`: the schedules in which the files hold everything `WaitFlushed` has
  returned for.
* `waitFlushed_durable_fails`: a lost raft state, and a lost snapshot behind later writes that
  succeed.
-/

namespace MyKvRaft

open Transition

/-! ## The promise -/

/-- The condition `WaitFlushed` waits for (line 240). -/
def PersisterProcess.waitFlushed (p : PersisterProcess) (seq : ℕ) : Bool :=
  decide (p.flushedSeq ≥ seq)

/-- Call number `j` is a `Save`; number 0 stands for the initial contents. -/
def IsSave (calls : List SaveCall) : ℕ → Prop
  | 0 => True
  | j + 1 => (calls[j]?.bind (·.snapshot)).isSome

/-- The raft-state file holds the data of a call numbered at least `seq`, the snapshot file that
    of a `Save` at least as recent as the last one numbered at most `seq`. -/
structure Durable (raft₀ snap₀ : Option Bytes) (calls : List SaveCall) (p : PersisterProcess)
    (seq : ℕ) : Prop where
  raftFile : ∃ i, seq ≤ i ∧ i ≤ calls.length ∧ p.raftFile.contents = raftData raft₀ calls i
  snapshotFile : ∃ j, lastSave calls seq ≤ j ∧ IsSave calls j ∧
    p.snapshotFile.contents = snapshotData snap₀ calls j

/-- Once `WaitFlushed(seq)` has returned, the data is in the files and stays there. -/
def FlushesDurably (raftFile snapshotFile : AtomicFile) (as : List PersisterAct) : Prop :=
  ∀ before now seq, before <+: now → now <+: as →
    (PersisterProcess.exec raftFile snapshotFile before).waitFlushed seq = true →
    Durable raftFile.contents snapshotFile.contents (callsOf now)
      (PersisterProcess.exec raftFile snapshotFile now) seq

/-! ## Failing writes -/

/-- The step is the last critical section of an iteration (lines 158–164). -/
def PersisterProcess.publishes (p : PersisterProcess) : PersisterAct → Bool
  | .work _ =>
    match p.thread with
    | .publish _ => true
    | _ => false
  | _ => false

theorem PersisterProcess.publishes_iff {p : PersisterProcess} {a : PersisterAct} :
    p.publishes a = true ↔ ∃ seqToWrite io, p.thread = .publish seqToWrite ∧ a = .work io := by
  constructor
  · intro h
    unfold publishes at h
    split at h
    · split at h
      next io _ seqToWrite ht => exact ⟨seqToWrite, io, ht, rfl⟩
      next => exact absurd h Bool.false_ne_true
    · exact absurd h Bool.false_ne_true
  · rintro ⟨seqToWrite, io, ht, rfl⟩
    simp [publishes, ht]

/-- A process, and whether a `WriteFileAtomic` of the iteration under way has returned false. -/
structure Watched where
  process : PersisterProcess
  failed : Bool

namespace Watched

def create (raftFile snapshotFile : AtomicFile) : Watched := ⟨.create raftFile snapshotFile, false⟩

def step (w : Watched) (a : PersisterAct) : Watched where
  process := w.process.step a
  failed := if w.process.thread = .waiting then false else w.failed || w.process.writeFails a

/-- If the step publishes a number, no write of the iteration has failed. -/
def Reports (w : Watched) (a : PersisterAct) : Prop :=
  w.process.publishes a = true → w.failed = false

instance (w : Watched) (a : PersisterAct) : Decidable (w.Reports a) :=
  inferInstanceAs (Decidable (_ → _))

end Watched

/-- Every sequence number that is published is that of an iteration whose writes all succeeded. -/
def ReportsWrites (raftFile snapshotFile : AtomicFile) (as : List PersisterAct) : Prop :=
  ∀ x ∈ history Watched.step (Watched.create raftFile snapshotFile) as, x.1.Reports x.2

instance (raftFile snapshotFile : AtomicFile) (as : List PersisterAct) :
    Decidable (ReportsWrites raftFile snapshotFile as) :=
  inferInstanceAs (Decidable (∀ _ ∈ _, _))

/-- Different calls have different data. -/
structure DistinctData (raft₀ snap₀ : Option Bytes) (calls : List SaveCall) : Prop where
  raft : Set.InjOn (raftData raft₀ calls) (Set.Iic calls.length)
  snapshot : Set.InjOn (snapshotData snap₀ calls) {j | IsSave calls j}

/-! ## Numbers -/

theorem isSave_iff {calls : List SaveCall} {j : ℕ} : IsSave calls j ↔ lastSave calls j = j := by
  cases j with
  | zero => exact ⟨fun _ => rfl, fun _ => trivial⟩
  | succ j =>
    have hle := lastSave_le calls j
    unfold IsSave lastSave
    split_ifs with hsave
    · exact ⟨fun _ => rfl, fun _ => hsave⟩
    · refine ⟨fun h => absurd h hsave, fun h => ?_⟩
      omega

theorem IsSave.le_length {calls : List SaveCall} {j : ℕ} (h : IsSave calls j) :
    j ≤ calls.length := by
  cases j with
  | zero => exact Nat.zero_le _
  | succ j =>
    by_contra hlt
    have hnone : calls[j]? = none := List.getElem?_eq_none (by omega)
    simp [IsSave, hnone] at h

theorem IsSave.append {calls : List SaveCall} {j : ℕ} (h : IsSave calls j)
    (more : List SaveCall) : IsSave (calls ++ more) j := by
  rw [isSave_iff, lastSave_append h.le_length]
  exact isSave_iff.mp h

/-- Fewer calls are different, too. -/
theorem DistinctData.of_append {raft₀ snap₀ : Option Bytes} {calls more : List SaveCall}
    (h : DistinctData raft₀ snap₀ (calls ++ more)) : DistinctData raft₀ snap₀ calls := by
  constructor
  case raft =>
    intro i hi i' hi' heq
    have hlen : calls.length ≤ (calls ++ more).length := by simp
    refine h.raft (le_trans hi hlen) (le_trans hi' hlen) ?_
    rw [raftData_append hi, raftData_append hi']
    exact heq
  case snapshot =>
    intro j hj j' hj' heq
    refine h.snapshot (hj.append more) (hj'.append more) ?_
    rw [snapshotData_append hj.le_length, snapshotData_append hj'.le_length]
    exact heq

/-! ## What the files hold -/

/-- The raft-state file is at call `i` and the snapshot file at call `j`, neither of them behind
    `m_flushedSeq`. -/
structure OnDisk (raft₀ snap₀ : Option Bytes) (calls : List SaveCall) (p : PersisterProcess)
    (i j : ℕ) : Prop where
  flushed : p.flushedSeq ≤ i
  recent : lastSave calls p.flushedSeq ≤ j
  issued : i ≤ calls.length
  isSave : IsSave calls j
  raftFile : p.raftFile.contents = raftData raft₀ calls i
  snapshotFile : p.snapshotFile.contents = snapshotData snap₀ calls j

section OnDisk

variable {raft₀ snap₀ : Option Bytes} {calls : List SaveCall} {p : PersisterProcess} {i j : ℕ}

theorem OnDisk.durable (h : OnDisk raft₀ snap₀ calls p i j) {seq : ℕ} (hseq : seq ≤ p.flushedSeq) :
    Durable raft₀ snap₀ calls p seq where
  raftFile := ⟨i, hseq.trans h.flushed, h.issued, h.raftFile⟩
  snapshotFile := ⟨j, (lastSave_mono calls hseq).trans h.recent, h.isSave, h.snapshotFile⟩

theorem OnDisk.call (h : OnDisk raft₀ snap₀ calls p i j) {c : SaveCall} {p' : PersisterProcess}
    (hp : Tracked.Submitted p c p') : OnDisk raft₀ snap₀ (calls ++ [c]) p' i j where
  flushed := hp.flushedSeq ▸ h.flushed
  recent := by
    rw [hp.flushedSeq, lastSave_append (h.flushed.trans h.issued)]
    exact h.recent
  issued := h.issued.trans (by simp)
  isSave := h.isSave.append [c]
  raftFile := by rw [hp.raftFile, raftData_append h.issued, h.raftFile]
  snapshotFile := by rw [hp.snapshotFile, snapshotData_append h.isSave.le_length, h.snapshotFile]

theorem Tracked.Ordered.onDisk {g : Tracked} (h : g.Ordered raft₀ snap₀) :
    OnDisk raft₀ snap₀ g.calls g.process g.raftCall g.snapshotCall where
  flushed := h.flushed
  recent := (lastSave_mono g.calls h.flushed).trans h.snapshot_ge
  issued := h.raft_le.trans h.goal_le
  isSave := isSave_iff.mpr h.isSave
  raftFile := h.raftFile
  snapshotFile := h.snapshotFile

end OnDisk

/-! ## An iteration brings something new -/

/-- The pending data is newer than that of the iteration under way, and what this one still has to
    write is newer than what the files hold. -/
structure Tracked.Behind (g : Tracked) : Prop where
  raftPending : g.process.hasPendingRaft = true → g.goal < g.calls.length
  snapshotPending : g.process.hasPendingSnapshot = true →
    lastSave g.calls g.goal < lastSave g.calls g.calls.length
  inFlight :
    match g.process.thread with
    | .writeSnapshot _ _ _ seqToWrite =>
      g.raftCall < seqToWrite ∧ g.snapshotCall < lastSave g.calls seqToWrite
    | .writeState _ _ seqToWrite => g.raftCall < seqToWrite
    | _ => True

namespace Tracked

variable {raft₀ snap₀ : Option Bytes} {g : Tracked}

theorem Behind.call (hb : g.Behind) (h : g.Ordered raft₀ snap₀) {c : SaveCall}
    {p' : PersisterProcess} (hp : Submitted g.process c p') :
    Behind ⟨p', g.calls ++ [c], g.raftCall, g.snapshotCall⟩ := by
  have hgoal : goal ⟨p', g.calls ++ [c], g.raftCall, g.snapshotCall⟩ = g.goal :=
    goal_of_thread hp.thread rfl
  have hle := h.goal_le
  have hlen : (g.calls ++ [c]).length = g.calls.length + 1 := by simp
  constructor
  case raftPending =>
    intro _
    rw [hgoal, hlen]
    omega
  case snapshotPending =>
    intro hs
    have hsave := lastSave_le g.calls g.goal
    rw [hgoal, hlen, lastSave_append hle, lastSave_snoc]
    cases hc : c.snapshot with
    | some sn =>
      rw [if_pos Option.isSome_some]
      omega
    | none =>
      rw [if_neg (by decide)]
      refine hb.snapshotPending ?_
      rw [hp.snapshot.1, hc] at hs
      exact hs
  case inFlight =>
    have hflight := hb.inFlight
    unfold goal at hle
    dsimp only
    rw [hp.thread]
    cases ht : g.process.thread with
    | writeSnapshot point data stateToWrite seqToWrite =>
      simp only [ht] at hflight hle ⊢
      rw [lastSave_append hle]
      exact hflight
    | writeState point data seqToWrite =>
      simp only [ht] at hflight
      exact hflight
    | waiting | publish | returned => trivial

/-- What is pending is newer than the number `n` the iteration brings the files to. -/
theorem Behind.pending (hb : g.Behind) {n : ℕ} (hgoal : g.goal = n) :
    (g.process.hasPendingRaft = true → n < g.calls.length) ∧
      (g.process.hasPendingSnapshot = true →
        lastSave g.calls n < lastSave g.calls g.calls.length) := by
  subst hgoal
  exact ⟨hb.raftPending, hb.snapshotPending⟩

theorem Behind.work (hb : g.Behind) (h : g.Ordered raft₀ snap₀) {g' : Tracked}
    (hg : Works g g') : g'.Behind := by
  have hflight := hb.inFlight
  have hle := h.snapshot_le
  cases hg with
  | idle => exact hb
  | returns hwait hr hs =>
    exact ⟨fun hf => absurd (hr.symm.trans hf) Bool.false_ne_true,
      fun hf => absurd (hs.symm.trans hf) Bool.false_ne_true, trivial⟩
  | takeBoth hwait hr hs =>
    obtain ⟨hraft, -⟩ := hb.pending (n := g.raftCall) (by rw [goal, hwait])
    exact ⟨fun hf => absurd hf Bool.false_ne_true, fun hf => absurd hf Bool.false_ne_true,
      hraft hr, lt_of_le_of_lt hle (hb.snapshotPending hs)⟩
  | takeState hwait hr hs =>
    obtain ⟨hraft, -⟩ := hb.pending (n := g.raftCall) (by rw [goal, hwait])
    exact ⟨fun hf => absurd hf Bool.false_ne_true, fun hf => absurd hf Bool.false_ne_true,
      hraft hr⟩
  | @writeSnapshot point next data d seqToWrite f ht hsame hholds =>
    obtain ⟨hraft, hsnap⟩ := hb.pending (n := seqToWrite) (by rw [goal, ht])
    simp only [ht] at hflight
    exact ⟨hraft, hsnap, hflight⟩
  | @renameSnapshot data d seqToWrite f ht hplaced =>
    obtain ⟨hraft, hsnap⟩ := hb.pending (n := seqToWrite) (by rw [goal, ht])
    simp only [ht] at hflight
    exact ⟨hraft, hsnap, hflight.1⟩
  | @writeState point next data seqToWrite f ht hsame hholds =>
    obtain ⟨hraft, hsnap⟩ := hb.pending (n := seqToWrite) (by rw [goal, ht])
    simp only [ht] at hflight
    exact ⟨hraft, hsnap, hflight⟩
  | @renameState data seqToWrite f ht hplaced =>
    obtain ⟨hraft, hsnap⟩ := hb.pending (n := seqToWrite) (by rw [goal, ht])
    exact ⟨hraft, hsnap, trivial⟩
  | @publish seqToWrite ht =>
    have hcall := h.inFlight
    simp only [InFlight, ht] at hcall
    obtain ⟨hraft, hsnap⟩ := hb.pending (n := g.raftCall) (by rw [goal, ht, hcall])
    exact ⟨hraft, hsnap, trivial⟩

theorem Behind.step (hb : g.Behind) (h : g.Ordered raft₀ snap₀) {a : PersisterAct}
    (ha : g.process.writeFails a = false) : (g.step a).Behind := by
  obtain ⟨io, rfl⟩ | ⟨rfl, hstep⟩ | ⟨c, hc, hstep⟩ := g.step_cases a
  · exact hb.work h (h.works ha)
  · rw [hstep]
    exact ⟨hb.raftPending, hb.snapshotPending, hb.inFlight⟩
  · rw [hstep]
    exact hb.call h (.of_call hc)

end Tracked

/-! ## After a failed write -/

/-- A write of the iteration under way has failed: the files are not behind `m_flushedSeq`, but
    one of them is behind the number the thread is going to publish. -/
structure Stranded (raft₀ snap₀ : Option Bytes) (calls : List SaveCall) (p : PersisterProcess)
    (i j : ℕ) : Prop extends OnDisk raft₀ snap₀ calls p i j where
  inFlight :
    match p.thread with
    | .writeState point data seqToWrite =>
      p.raftFile.Holds data point ∧ some data = raftData raft₀ calls seqToWrite ∧
        p.flushedSeq < seqToWrite ∧ seqToWrite ≤ calls.length ∧ j < lastSave calls seqToWrite
    | .publish seqToWrite =>
      p.flushedSeq < seqToWrite ∧ seqToWrite ≤ calls.length ∧
        (i < seqToWrite ∨ j < lastSave calls seqToWrite)
    | _ => False

theorem AtomicFile.writeFileAtomic_of_returnsFalse (f : AtomicFile) {data : Bytes}
    {io : IoResult} {point : WritePoint} (hio : point.returnsFalse data io = true) :
    f.writeFileAtomic data io point = (f, none) := by
  cases point with
  | atOpen | atRename =>
    have hfails : io = .fails := by simpa [WritePoint.returnsFalse] using hio
    rw [hfails]
    rfl
  | atWrite off =>
    obtain ⟨hlt, rfl | rfl⟩ : off < data.length ∧ (io = .fails ∨ io = .moves 0) := by
      simpa [WritePoint.returnsFalse] using hio
    · rw [writeFileAtomic, if_pos hlt]
    · rw [writeFileAtomic, if_pos hlt]

section Stranded

variable {raft₀ snap₀ : Option Bytes} {calls : List SaveCall} {p : PersisterProcess} {i j : ℕ}

/-- The first write that fails: what the iteration has taken does not reach its file. -/
theorem Tracked.Ordered.stranded {g : Tracked} (h : g.Ordered raft₀ snap₀) (hb : g.Behind)
    {io : IoResult} (hio : g.process.writeFails (.work io) = true) :
    Stranded raft₀ snap₀ g.calls (g.process.work io) g.raftCall g.snapshotCall := by
  have hflight := h.inFlight
  have hbehind := hb.inFlight
  have hle := h.goal_le
  unfold Tracked.InFlight at hflight
  unfold Tracked.goal at hle
  unfold PersisterProcess.writeFails at hio
  cases ht : g.process.thread with
  | waiting | publish | returned => simp [ht] at hio
  | writeSnapshot point data stateToWrite seqToWrite =>
    simp only [ht] at hflight hbehind hle hio
    obtain ⟨-, -, d, rfl, hd⟩ := hflight
    have hwork : g.process.work io =
        { g.process with thread := .writeState .atOpen d seqToWrite } := by
      simp [PersisterProcess.work, ht, AtomicFile.writeFileAtomic_of_returnsFalse _ hio,
        PersisterProcess.afterSnapshot]
    rw [hwork]
    exact { h.onDisk with
      inFlight := ⟨trivial, hd, lt_of_le_of_lt h.flushed hbehind.1, hle, hbehind.2⟩ }
  | writeState point data seqToWrite =>
    simp only [ht] at hbehind hle hio
    have hwork : g.process.work io = { g.process with thread := .publish seqToWrite } := by
      simp [PersisterProcess.work, ht, AtomicFile.writeFileAtomic_of_returnsFalse _ hio]
    rw [hwork]
    exact { h.onDisk with
      inFlight := ⟨lt_of_le_of_lt h.flushed hbehind, hle, .inl hbehind⟩ }

theorem Stranded.call (h : Stranded raft₀ snap₀ calls p i j) {c : SaveCall}
    {p' : PersisterProcess} (hp : Tracked.Submitted p c p') :
    Stranded raft₀ snap₀ (calls ++ [c]) p' i j := by
  refine { h.toOnDisk.call hp with inFlight := ?_ }
  have hflight := h.inFlight
  rw [hp.thread, hp.raftFile, hp.flushedSeq]
  cases ht : p.thread with
  | waiting | returned | writeSnapshot =>
    rw [ht] at hflight
    exact hflight
  | writeState point data seqToWrite =>
    simp only [ht] at hflight ⊢
    obtain ⟨hholds, hdata, hlt, hle, hbehind⟩ := hflight
    rw [raftData_append hle, lastSave_append hle]
    exact ⟨hholds, hdata, hlt, hle.trans (by simp), hbehind⟩
  | publish seqToWrite =>
    simp only [ht] at hflight ⊢
    obtain ⟨hlt, hle, hbehind⟩ := hflight
    rw [lastSave_append hle]
    exact ⟨hlt, hle.trans (by simp), hbehind⟩

/-- A step of the thread up to the one that publishes. -/
theorem Stranded.work (h : Stranded raft₀ snap₀ calls p i j) (io : IoResult)
    (hpub : ∀ seqToWrite, p.thread ≠ .publish seqToWrite) :
    ∃ i', Stranded raft₀ snap₀ calls (p.work io) i' j := by
  have hflight := h.inFlight
  cases ht : p.thread with
  | waiting | returned | writeSnapshot =>
    rw [ht] at hflight
    exact hflight.elim
  | publish seqToWrite => exact absurd ht (hpub seqToWrite)
  | writeState point data seqToWrite =>
    simp only [ht] at hflight
    obtain ⟨hholds, hdata, hlt, hle, hbehind⟩ := hflight
    cases hio : point.returnsFalse data io with
    | true =>
      have hwork : p.work io = { p with thread := .publish seqToWrite } := by
        simp [PersisterProcess.work, ht, AtomicFile.writeFileAtomic_of_returnsFalse _ hio]
      rw [hwork]
      exact ⟨i, { h.toOnDisk with inFlight := ⟨hlt, hle, .inr hbehind⟩ }⟩
    | false =>
      obtain ⟨-, f, next, hwrite, hsame, hnext⟩ | ⟨rfl, f, hwrite, hplaced⟩ := hholds.step hio
      · have hwork : p.work io =
            { p with raftFile := f, thread := .writeState next data seqToWrite } := by
          simp [PersisterProcess.work, ht, hwrite]
        rw [hwork]
        exact ⟨i, { h.toOnDisk with
          raftFile := hsame.trans h.raftFile
          inFlight := ⟨hnext, hdata, hlt, hle, hbehind⟩ }⟩
      · -- the raft state of the batch is written, its snapshot is not
        have hwork : p.work io = { p with raftFile := f, thread := .publish seqToWrite } := by
          simp [PersisterProcess.work, ht, hwrite]
        rw [hwork]
        exact ⟨seqToWrite, { h.toOnDisk with
          flushed := hlt.le
          issued := hle
          raftFile := hplaced.trans hdata
          inFlight := ⟨hlt, hle, .inr hbehind⟩ }⟩

theorem work_publish {seqToWrite : ℕ} (ht : p.thread = .publish seqToWrite) (io : IoResult) :
    p.work io = { p with
      flushedSeq := if seqToWrite > 0 ∧ seqToWrite > p.flushedSeq then seqToWrite else p.flushedSeq
      thread := .waiting } := by
  simp [PersisterProcess.work, ht]

/-- Publishing after a failed write: `WaitFlushed` returns for data that is in no file. -/
theorem Stranded.lost (h : Stranded raft₀ snap₀ calls p i j) {seqToWrite : ℕ}
    (ht : p.thread = .publish seqToWrite) (io : IoResult)
    (hdistinct : DistinctData raft₀ snap₀ calls) :
    (p.work io).waitFlushed seqToWrite = true ∧
      ¬ Durable raft₀ snap₀ calls (p.work io) seqToWrite := by
  have hflight := h.inFlight
  simp only [ht] at hflight
  obtain ⟨hlt, hle, hbehind⟩ := hflight
  rw [work_publish ht]
  refine ⟨?_, fun hd => ?_⟩
  · have hpub : seqToWrite > 0 ∧ seqToWrite > p.flushedSeq := ⟨by omega, hlt⟩
    simp [PersisterProcess.waitFlushed, hpub]
  · obtain ⟨i', hge, hi', hraft⟩ := hd.raftFile
    obtain ⟨j', hrecent, hj', hsnap⟩ := hd.snapshotFile
    have hi : i = i' := hdistinct.raft h.issued hi' (h.raftFile.symm.trans hraft)
    have hj : j = j' := hdistinct.snapshot h.isSave hj' (h.snapshotFile.symm.trans hsnap)
    omega

end Stranded

/-! ## Runs -/

namespace Watched

def exec (raftFile snapshotFile : AtomicFile) (as : List PersisterAct) : Watched :=
  as.foldl step (create raftFile snapshotFile)

theorem exec_snoc (raftFile snapshotFile : AtomicFile) (as : List PersisterAct)
    (a : PersisterAct) :
    exec raftFile snapshotFile (as ++ [a]) = (exec raftFile snapshotFile as).step a := by
  simp [exec]

theorem exec_process (raftFile snapshotFile : AtomicFile) (as : List PersisterAct) :
    (exec raftFile snapshotFile as).process = PersisterProcess.exec raftFile snapshotFile as := by
  induction as using List.reverseRecOn with
  | nil => rfl
  | append_singleton as a ih =>
    rw [exec_snoc, PersisterProcess.exec_snoc, ← ih]
    rfl

/-- Where a schedule stands that has published nothing after a failed write: all writes of the
    iteration have succeeded so far, or one has failed. -/
inductive Stands (raft₀ snap₀ : Option Bytes) (w : Watched) (g : Tracked) : Prop
  | intact (hfailed : w.failed = false) (hordered : g.Ordered raft₀ snap₀) (hbehind : g.Behind)
  | stranded (hfailed : w.failed = true)
      (hstranded : ∃ i j, Stranded raft₀ snap₀ g.calls g.process i j)

/-- One step: a write may fail, but the failure is not published. -/
theorem Stands.step {raft₀ snap₀ : Option Bytes} {w : Watched} {g : Tracked}
    (h : Stands raft₀ snap₀ w g) (hw : w.process = g.process) {a : PersisterAct}
    (ha : w.Reports a) : Stands raft₀ snap₀ (w.step a) (g.step a) := by
  cases h with
  | intact hfailed hordered hbehind =>
    cases hfails : g.process.writeFails a with
    | false =>
      refine .intact ?_ (hordered.step hfails) (hbehind.step hordered hfails)
      simp [Watched.step, hfailed, hw, hfails]
    | true =>
      cases a with
      | save _ _ | saveRaftState _ | stop => exact absurd hfails Bool.false_ne_true
      | work io =>
        have hwait : g.process.thread ≠ .waiting := by
          intro ht
          simp [PersisterProcess.writeFails, ht] at hfails
        have hstep : (g.step (.work io)).calls = g.calls := List.append_nil _
        refine .stranded ?_ ⟨g.raftCall, g.snapshotCall, ?_⟩
        · simp [Watched.step, hw, hfails, hwait]
        · rw [hstep]
          exact hordered.stranded hbehind hfails
  | stranded hfailed hstranded =>
    obtain ⟨i, j, h⟩ := hstranded
    have hwait : w.process.thread ≠ .waiting := by
      intro ht
      have hflight := h.inFlight
      rw [← hw, ht] at hflight
      exact hflight
    refine .stranded (by simp [Watched.step, hfailed, hwait]) ?_
    obtain ⟨io, rfl⟩ | ⟨rfl, hstep⟩ | ⟨c, hc, hstep⟩ := g.step_cases a
    · have hcalls : (g.step (.work io)).calls = g.calls := List.append_nil _
      rw [hcalls]
      refine (h.work io fun seqToWrite ht => ?_).imp fun i' h' => ⟨j, h'⟩
      have hreport := ha (PersisterProcess.publishes_iff.mpr ⟨seqToWrite, io, hw ▸ ht, rfl⟩)
      exact absurd (hfailed.symm.trans hreport) (by decide)
    · rw [hstep]
      exact ⟨i, j, { h with }⟩
    · rw [hstep]
      exact ⟨i, j, h.call (.of_call hc)⟩

theorem stands_exec (raftFile snapshotFile : AtomicFile) {as : List PersisterAct}
    (hok : ReportsWrites raftFile snapshotFile as) :
    Stands raftFile.contents snapshotFile.contents (exec raftFile snapshotFile as)
      (Tracked.exec raftFile snapshotFile as) := by
  induction as using List.reverseRecOn with
  | nil =>
    refine .intact rfl (Tracked.ordered_exec raftFile snapshotFile (by simp)) ?_
    exact ⟨fun hf => absurd hf Bool.false_ne_true, fun hf => absurd hf Bool.false_ne_true, trivial⟩
  | append_singleton as a ih =>
    unfold ReportsWrites at hok
    rw [history_snoc] at hok
    have ih := ih fun x hx => hok x (List.mem_append_left _ hx)
    rw [exec_snoc, Tracked.exec_snoc]
    refine ih.step ?_ (hok (_, a) (List.mem_append_right _ (List.mem_singleton_self _)))
    rw [exec_process, (Tracked.exec_process raftFile snapshotFile as).1]

end Watched

theorem ReportsWrites.of_isPrefix {raftFile snapshotFile : AtomicFile}
    {as bs : List PersisterAct} (h : ReportsWrites raftFile snapshotFile bs) (hpre : as <+: bs) :
    ReportsWrites raftFile snapshotFile as :=
  fun x hx => h x (mem_history_of_isPrefix hpre hx)

theorem ReportsWrites.onDisk {raftFile snapshotFile : AtomicFile} {as : List PersisterAct}
    (h : ReportsWrites raftFile snapshotFile as) :
    ∃ i j, OnDisk raftFile.contents snapshotFile.contents (callsOf as)
      (PersisterProcess.exec raftFile snapshotFile as) i j := by
  have hstands := Watched.stands_exec raftFile snapshotFile h
  rw [← (Tracked.exec_process raftFile snapshotFile as).1,
    ← (Tracked.exec_process raftFile snapshotFile as).2]
  cases hstands with
  | intact hfailed hordered hbehind => exact ⟨_, _, hordered.onDisk⟩
  | stranded hfailed hstranded =>
    obtain ⟨i, j, h⟩ := hstranded
    exact ⟨i, j, h.toOnDisk⟩

namespace PersisterProcess

/-- `m_flushedSeq` never decreases. -/
theorem flushedSeq_le_step (p : PersisterProcess) (a : PersisterAct) :
    p.flushedSeq ≤ (p.step a).flushedSeq := by
  cases a with
  | save _ _ | saveRaftState _ | stop => exact le_rfl
  | work io =>
    show p.flushedSeq ≤ (p.work io).flushedSeq
    unfold work
    split
    · split_ifs
      · unfold take
        split_ifs <;> exact le_rfl
      · exact le_rfl
    · exact le_rfl
    · exact le_rfl
    · dsimp only
      split_ifs <;> omega
    · exact le_rfl

theorem flushedSeq_le_exec (raftFile snapshotFile : AtomicFile) {before now : List PersisterAct}
    (hpre : before <+: now) :
    (exec raftFile snapshotFile before).flushedSeq ≤
      (exec raftFile snapshotFile now).flushedSeq := by
  obtain ⟨more, rfl⟩ := hpre
  induction more using List.reverseRecOn with
  | nil => rw [List.append_nil]
  | append_singleton more a ih =>
    rw [← List.append_assoc, exec_snoc]
    exact ih.trans (flushedSeq_le_step _ a)

end PersisterProcess

theorem FlushesDurably.of_isPrefix {raftFile snapshotFile : AtomicFile}
    {as bs : List PersisterAct} (h : FlushesDurably raftFile snapshotFile bs) (hpre : as <+: bs) :
    FlushesDurably raftFile snapshotFile as :=
  fun before now seq hb hn => h before now seq hb (hn.trans hpre)

theorem ReportsWrites.flushesDurably {raftFile snapshotFile : AtomicFile}
    {as : List PersisterAct} (h : ReportsWrites raftFile snapshotFile as) :
    FlushesDurably raftFile snapshotFile as := by
  intro before now seq hbefore hnow hwait
  obtain ⟨i, j, hdisk⟩ := (h.of_isPrefix hnow).onDisk
  refine hdisk.durable ?_
  have hle := PersisterProcess.flushedSeq_le_exec raftFile snapshotFile hbefore
  have hseq : seq ≤ (PersisterProcess.exec raftFile snapshotFile before).flushedSeq :=
    of_decide_eq_true hwait
  omega

theorem FlushesDurably.reportsWrites {raftFile snapshotFile : AtomicFile}
    {as : List PersisterAct} (h : FlushesDurably raftFile snapshotFile as)
    (hdistinct : DistinctData raftFile.contents snapshotFile.contents (callsOf as)) :
    ReportsWrites raftFile snapshotFile as := by
  induction as using List.reverseRecOn with
  | nil =>
    intro x hx
    cases hx
  | append_singleton as a ih =>
    have hcalls := callsOf_snoc as a
    have hold : DistinctData raftFile.contents snapshotFile.contents (callsOf as) :=
      (hcalls ▸ hdistinct).of_append
    have ih := ih (h.of_isPrefix (List.prefix_append _ _)) hold
    have hstands := Watched.stands_exec raftFile snapshotFile ih
    have hprocess := Tracked.exec_process raftFile snapshotFile as
    unfold ReportsWrites
    rw [history_snoc]
    intro x hx
    rcases List.mem_append.mp hx with hx | hx
    · exact ih x hx
    rw [List.mem_singleton] at hx
    subst hx
    show (Watched.exec raftFile snapshotFile as).process.publishes a = true → _
    rw [Watched.exec_process, PersisterProcess.publishes_iff]
    rintro ⟨seqToWrite, io, ht, rfl⟩
    cases hstands with
    | intact hfailed hordered hbehind => exact hfailed
    | stranded hfailed hstranded =>
      -- the step publishes, and what it publishes is not in the files
      obtain ⟨i, j, hst⟩ := hstranded
      rw [hprocess.1, hprocess.2] at hst
      obtain ⟨hwait, hlost⟩ := hst.lost ht io hold
      have hexec : PersisterProcess.exec raftFile snapshotFile (as ++ [.work io]) =
          (PersisterProcess.exec raftFile snapshotFile as).work io :=
        PersisterProcess.exec_snoc raftFile snapshotFile as (.work io)
      have hsame : callsOf (as ++ [.work io]) = callsOf as := hcalls.trans (List.append_nil _)
      have hdurable := h _ _ seqToWrite List.prefix_rfl List.prefix_rfl (hexec ▸ hwait)
      rw [hexec, hsame] at hdurable
      exact absurd hdurable hlost

/-- In every schedule of calls, system calls that may fail and steps of the thread: if every number
    published is that of an iteration whose writes all succeeded, then whenever `WaitFlushed` has
    returned, both files hold what it was called for. If different calls have different data, the
    converse holds, too. -/
theorem waitFlushed_durable_iff (raftFile snapshotFile : AtomicFile) (as : List PersisterAct) :
    (ReportsWrites raftFile snapshotFile as → FlushesDurably raftFile snapshotFile as) ∧
      (DistinctData raftFile.contents snapshotFile.contents (callsOf as) →
        FlushesDurably raftFile snapshotFile as → ReportsWrites raftFile snapshotFile as) :=
  ⟨fun h => h.flushesDurably, fun hdistinct h => h.reportsWrites hdistinct⟩

/-- Steps of the thread that write one byte to a new file. -/
def writeByte : List PersisterAct := List.replicate 4 (.work (.moves 1))

/-- A raft state is written, and the snapshot of the `Save` after it fails at `open` in an
    iteration that has not published yet. -/
def brokenOff : List PersisterAct :=
  [.saveRaftState [1], .work (.moves 1)] ++ writeByte ++
    [.work (.moves 1), .save [2] [3], .work (.moves 1), .work .fails]

theorem waitFlushed_durable_iff_brokenOff :
    FlushesDurably ⟨none, none⟩ ⟨none, none⟩ brokenOff ∧
      ReportsWrites ⟨none, none⟩ ⟨none, none⟩ brokenOff := by
  have hflush : FlushesDurably ⟨none, none⟩ ⟨none, none⟩ brokenOff :=
    (waitFlushed_durable_iff ⟨none, none⟩ ⟨none, none⟩ brokenOff).1 (by decide +kernel)
  refine ⟨hflush, (waitFlushed_durable_iff ⟨none, none⟩ ⟨none, none⟩ brokenOff).2 ?_ hflush⟩
  have hcalls : callsOf brokenOff = [⟨[1], none⟩, ⟨[2], some [3]⟩] := by decide
  rw [hcalls]
  constructor
  case raft =>
    intro i hi i' hi' heq
    have hi : i ≤ 2 := hi
    have hi' : i' ≤ 2 := hi'
    interval_cases i <;> interval_cases i' <;> first | rfl | exact absurd heq (by decide)
  case snapshot =>
    intro j hj j' hj' heq
    have hle : j ≤ 2 := IsSave.le_length hj
    have hle' : j' ≤ 2 := IsSave.le_length hj'
    have hsave := isSave_iff.mp hj
    have hsave' := isSave_iff.mp hj'
    interval_cases j <;> interval_cases j' <;> first | rfl | contradiction

/-- The raft state is lost at `open`. -/
def lostState : List PersisterAct :=
  [.saveRaftState [1], .work (.moves 1), .work .fails, .work (.moves 1)]

/-- The snapshot of a `Save` is lost, then its raft state and that of a later call are written. -/
def lostSnapshot : List PersisterAct :=
  [.save [1] [3], .work (.moves 1), .work .fails] ++ writeByte ++
    [.work (.moves 1), .saveRaftState [2], .work (.moves 1)] ++ writeByte ++ [.work (.moves 1)]

/-- `WaitFlushed(1)` returns with no raft-state file; `WaitFlushed(2)` returns with the raft state
    of call 2 and no snapshot of call 1. -/
theorem waitFlushed_durable_fails :
    ¬ FlushesDurably ⟨none, none⟩ ⟨none, none⟩ lostState ∧
      ¬ FlushesDurably ⟨none, none⟩ ⟨none, none⟩ lostSnapshot := by
  constructor
  · intro h
    obtain ⟨i, hge, hle, hraft⟩ :=
      (h lostState lostState 1 List.prefix_rfl List.prefix_rfl (by decide +kernel)).raftFile
    have hi : i = 1 := le_antisymm hle hge
    rw [hi] at hraft
    exact absurd hraft (by decide +kernel)
  · intro h
    obtain ⟨j, hge, hsave, hsnap⟩ := (h lostSnapshot lostSnapshot 2 List.prefix_rfl
      List.prefix_rfl (by decide +kernel)).snapshotFile
    have hge : 1 ≤ j := hge
    have hle : j ≤ 2 := hsave.le_length
    have hsave := isSave_iff.mp hsave
    interval_cases j
    · exact absurd hsnap (by decide +kernel)
    · exact absurd hsave (by decide +kernel)

end MyKvRaft
