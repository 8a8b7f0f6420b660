import MyKvRaft.Common.Run
import MyKvRaft.Raft.Persister

/-!
# The persister's background thread, step by step

`Persister` treats one iteration of `WorkLoop` as one step, which is enough for a
caller that waits for its flush. Here the thread is interleaved with the calls at
the grain of its critical sections and system calls (`Raft/raft.h` lines 64–242):
taking the pending data, then `open`, every `write` and `rename` of each
`WriteFileAtomic`, then publishing `m_flushedSeq`. The process may end in any of
these states; what a new process reads is `contents` of the two files.

The calls are issued one at a time, and the section of `m_mtx` in them touches only
the copies for readers, so a call is one step. A string moved from is empty.

* `persister_crash_consistency`: which calls' data the two files hold at every point
  of every schedule.
* `workLoop_refines`: an undisturbed iteration does what `Persister.workLoop` does.
-/

namespace MyKvRaft

open Transition

/-! ## `WriteFileAtomic` -/

/-- A file and the `.tmp` file beside it; `none` is an absent file. -/
structure AtomicFile where
  contents : Option Bytes
  tmp : Option Bytes
deriving DecidableEq

/-- What a system call does: it fails, or it succeeds (a `write` with `n` bytes). -/
inductive IoResult where
  | fails
  | moves (n : ℕ)
deriving DecidableEq

/-- Where a call of `WriteFileAtomic` is: before `open`, in the loop with `off` bytes
    written, before `rename`. -/
inductive WritePoint where
  | atOpen
  | atWrite (off : ℕ)
  | atRename
deriving DecidableEq

/-- The next step of `WriteFileAtomic` (lines 64–82): the files, and where the call goes on;
    `none` when it has returned. -/
def AtomicFile.writeFileAtomic (f : AtomicFile) (data : Bytes) (io : IoResult) :
    WritePoint → AtomicFile × Option WritePoint
  | .atOpen =>
    match io with
    | .fails => (f, none)
    | .moves _ => ({ f with tmp := some [] }, some (.atWrite 0))
  | .atWrite off =>
    if off < data.length then
      match io with
      | .fails | .moves 0 => (f, none)
      | .moves (n + 1) =>
        ({ f with tmp := some (data.take (off + (n + 1))) },
          some (.atWrite (min (off + (n + 1)) data.length)))
    else (f, some .atRename)
  | .atRename =>
    match io with
    | .fails => (f, none)
    | .moves _ => (⟨f.tmp, none⟩, none)

/-! ## The process -/

/-- Where the background thread is, with the locals of the iteration. -/
inductive WorkPoint where
  /-- In `m_cv.wait`. -/
  | waiting
  /-- In the first `WriteFileAtomic`; `stateToWrite` is `none` if `writeState` is false. -/
  | writeSnapshot (point : WritePoint) (snapshotToWrite : Bytes) (stateToWrite : Option Bytes)
      (seqToWrite : ℕ)
  /-- In the second `WriteFileAtomic`. -/
  | writeState (point : WritePoint) (stateToWrite : Bytes) (seqToWrite : ℕ)
  /-- Before the last critical section. -/
  | publish (seqToWrite : ℕ)
  /-- `WorkLoop` has returned. -/
  | returned
deriving DecidableEq

/-- `class Persister` in a process, with the archives as bytes. -/
structure PersisterProcess where
  raftState : Bytes
  snapshot : Bytes
  pendingRaftState : Bytes
  pendingSnapshot : Bytes
  hasPendingRaft : Bool
  hasPendingSnapshot : Bool
  stop : Bool
  nextSeq : ℕ
  flushedSeq : ℕ
  pendingSeq : ℕ
  raftFile : AtomicFile
  snapshotFile : AtomicFile
  thread : WorkPoint
deriving DecidableEq

/-- What happens next: a call, the destructor's first section, or a step of the thread. -/
inductive PersisterAct where
  | save (raftstate snapshot : Bytes)
  | saveRaftState (data : Bytes)
  | stop
  | work (io : IoResult)
deriving DecidableEq

namespace PersisterProcess

/-- The constructor (lines 168–179) on the files it finds; `ReadFile` leaves the string empty
    if there is no file. -/
def create (raftFile snapshotFile : AtomicFile) : PersisterProcess where
  raftState := raftFile.contents.getD []
  snapshot := snapshotFile.contents.getD []
  pendingRaftState := []
  pendingSnapshot := []
  hasPendingRaft := false
  hasPendingSnapshot := false
  stop := false
  nextSeq := 0
  flushedSeq := 0
  pendingSeq := 0
  raftFile := raftFile
  snapshotFile := snapshotFile
  thread := .waiting

/-- `Save` (lines 191–216). -/
def save (p : PersisterProcess) (raftstate snapshot : Bytes) : PersisterProcess :=
  { p with
    raftState := raftstate
    snapshot := snapshot
    pendingRaftState := raftstate
    pendingSnapshot := snapshot
    hasPendingRaft := true
    hasPendingSnapshot := true
    nextSeq := p.nextSeq + 1
    pendingSeq := p.nextSeq + 1 }

/-- `SaveRaftState` (lines 218–236). -/
def saveRaftState (p : PersisterProcess) (data : Bytes) : PersisterProcess :=
  { p with
    raftState := data
    pendingRaftState := data
    hasPendingRaft := true
    nextSeq := p.nextSeq + 1
    pendingSeq := p.nextSeq + 1 }

/-- Where an iteration goes after the snapshot is written, or if there is none. -/
def afterSnapshot (stateToWrite : Option Bytes) (seqToWrite : ℕ) : WorkPoint :=
  match stateToWrite with
  | some data => .writeState .atOpen data seqToWrite
  | none => .publish seqToWrite

/-- The first critical section of an iteration, once the wait is over (lines 124–149). -/
def take (p : PersisterProcess) : PersisterProcess :=
  if p.stop && !p.hasPendingRaft && !p.hasPendingSnapshot then { p with thread := .returned }
  else
    let snapshotToWrite := if p.hasPendingSnapshot then some p.pendingSnapshot else none
    let stateToWrite := if p.hasPendingRaft then some p.pendingRaftState else none
    let seqToWrite := if p.hasPendingSnapshot || p.hasPendingRaft then p.pendingSeq else 0
    { p with
      pendingSnapshot := if p.hasPendingSnapshot then [] else p.pendingSnapshot
      hasPendingSnapshot := false
      pendingRaftState := if p.hasPendingRaft then [] else p.pendingRaftState
      hasPendingRaft := false
      thread :=
        match snapshotToWrite with
        | some data => .writeSnapshot .atOpen data stateToWrite seqToWrite
        | none => afterSnapshot stateToWrite seqToWrite }

/-- One step of `WorkLoop` (lines 114–166). -/
def work (p : PersisterProcess) (io : IoResult) : PersisterProcess :=
  match p.thread with
  | .waiting =>
    if p.stop || p.hasPendingRaft || p.hasPendingSnapshot then p.take else p
  | .writeSnapshot point data stateToWrite seqToWrite =>
    let (f, next) := p.snapshotFile.writeFileAtomic data io point
    { p with
      snapshotFile := f
      thread :=
        match next with
        | some point => .writeSnapshot point data stateToWrite seqToWrite
        | none => afterSnapshot stateToWrite seqToWrite }
  | .writeState point data seqToWrite =>
    let (f, next) := p.raftFile.writeFileAtomic data io point
    { p with
      raftFile := f
      thread :=
        match next with
        | some point => .writeState point data seqToWrite
        | none => .publish seqToWrite }
  | .publish seqToWrite =>
    { p with
      flushedSeq :=
        if seqToWrite > 0 ∧ seqToWrite > p.flushedSeq then seqToWrite else p.flushedSeq
      thread := .waiting }
  | .returned => p

def step (p : PersisterProcess) : PersisterAct → PersisterProcess
  | .save raftstate snapshot => p.save raftstate snapshot
  | .saveRaftState data => p.saveRaftState data
  | .stop => { p with stop := true }
  | .work io => p.work io

/-- The process after a schedule, started on the given files. -/
def exec (raftFile snapshotFile : AtomicFile) (as : List PersisterAct) : PersisterProcess :=
  as.foldl step (create raftFile snapshotFile)

theorem exec_snoc (raftFile snapshotFile : AtomicFile) (as : List PersisterAct)
    (a : PersisterAct) :
    exec raftFile snapshotFile (as ++ [a]) = (exec raftFile snapshotFile as).step a := by
  simp [exec]

end PersisterProcess

/-- No system call of `WriteFileAtomic` fails in this step. -/
def PersisterAct.succeeds : PersisterAct → Bool
  | .work .fails | .work (.moves 0) => false
  | _ => true

/-- `WriteFileAtomic` returns false in this step (lines 68, 73 and 80). -/
def WritePoint.returnsFalse (data : Bytes) (io : IoResult) : WritePoint → Bool
  | .atOpen | .atRename => decide (io = .fails)
  | .atWrite off => decide (off < data.length ∧ (io = .fails ∨ io = .moves 0))

namespace PersisterProcess

/-- A `WriteFileAtomic` of the thread returns false in this step. -/
def writeFails (p : PersisterProcess) : PersisterAct → Bool
  | .work io =>
    match p.thread with
    | .writeSnapshot point data _ _ | .writeState point data _ => point.returnsFalse data io
    | _ => false
  | _ => false

theorem writeFails_of_succeeds (p : PersisterProcess) {a : PersisterAct} (ha : a.succeeds) :
    p.writeFails a = false := by
  have hwork : ∀ (io : IoResult) (data : Bytes) (point : WritePoint),
      (PersisterAct.work io).succeeds → point.returnsFalse data io = false := by
    rintro (_ | _ | n) data point hio
    · exact absurd hio (by decide)
    · exact absurd hio (by decide)
    · cases point <;> simp [WritePoint.returnsFalse]
  cases a with
  | work io =>
    unfold writeFails
    dsimp only
    split
    · exact hwork _ _ _ ha
    · exact hwork _ _ _ ha
    · rfl
  | _ => rfl

theorem afterSnapshot_ne_returned (stateToWrite : Option Bytes) (seqToWrite : ℕ) :
    afterSnapshot stateToWrite seqToWrite ≠ .returned := by
  cases stateToWrite <;> exact WorkPoint.noConfusion

/-- `WorkLoop` returns from its wait only, with nothing pending. -/
theorem work_returned {p : PersisterProcess} {io : IoResult} (hbefore : p.thread ≠ .returned)
    (hafter : (p.work io).thread = .returned) :
    p.thread = .waiting ∧ p.hasPendingRaft = false ∧ p.hasPendingSnapshot = false := by
  unfold work at hafter
  split at hafter
  next ht =>
    split_ifs at hafter
    · by_cases hstop : (p.stop && !p.hasPendingRaft && !p.hasPendingSnapshot) = true
      · simp only [Bool.and_eq_true, Bool.not_eq_true'] at hstop
        exact ⟨ht, hstop.1.2, hstop.2⟩
      · rw [take, if_neg hstop] at hafter
        dsimp only at hafter
        split at hafter
        · exact absurd hafter WorkPoint.noConfusion
        · exact absurd hafter (afterSnapshot_ne_returned _ _)
    · exact absurd hafter hbefore
  next =>
    dsimp only at hafter
    split at hafter
    · exact absurd hafter WorkPoint.noConfusion
    · exact absurd hafter (afterSnapshot_ne_returned _ _)
  next =>
    dsimp only at hafter
    split at hafter <;> exact absurd hafter WorkPoint.noConfusion
  next => exact absurd hafter WorkPoint.noConfusion
  next ht => exact absurd ht hbefore

end PersisterProcess

/-! ## Numbering the calls -/

/-- The data of a `Save` or, with `snapshot` `none`, of a `SaveRaftState`. -/
structure SaveCall where
  raftstate : Bytes
  snapshot : Option Bytes
deriving DecidableEq

def PersisterAct.call : PersisterAct → Option SaveCall
  | .save raftstate snapshot => some ⟨raftstate, some snapshot⟩
  | .saveRaftState data => some ⟨data, none⟩
  | .stop | .work _ => none

/-- The calls of a schedule; call number `i` is the `i`-th of them, counted from 1. -/
def callsOf (as : List PersisterAct) : List SaveCall := as.filterMap PersisterAct.call

theorem callsOf_snoc (as : List PersisterAct) (a : PersisterAct) :
    callsOf (as ++ [a]) = callsOf as ++ a.call.toList := by
  rw [callsOf, callsOf, List.filterMap_append, List.filterMap_cons]
  cases a.call <;> rfl

/-- The raft state of call number `i`; number 0 stands for the initial contents. -/
def raftData (initial : Option Bytes) (calls : List SaveCall) : ℕ → Option Bytes
  | 0 => initial
  | i + 1 => calls[i]?.map (·.raftstate)

/-- The snapshot of call number `j`, a `Save`; number 0 stands for the initial contents. -/
def snapshotData (initial : Option Bytes) (calls : List SaveCall) : ℕ → Option Bytes
  | 0 => initial
  | j + 1 => calls[j]?.bind (·.snapshot)

/-- The number of the last `Save` numbered at most `i`, or 0. -/
def lastSave (calls : List SaveCall) : ℕ → ℕ
  | 0 => 0
  | i + 1 => if (calls[i]?.bind (·.snapshot)).isSome then i + 1 else lastSave calls i

theorem lastSave_le (calls : List SaveCall) (i : ℕ) : lastSave calls i ≤ i := by
  induction i with
  | zero => exact le_rfl
  | succ i ih =>
    rw [lastSave]
    split_ifs
    · exact le_rfl
    · omega

theorem lastSave_mono (calls : List SaveCall) : Monotone (lastSave calls) := by
  refine monotone_nat_of_le_succ fun i => ?_
  have hle := lastSave_le calls i
  rw [lastSave]
  split_ifs <;> omega

/-- The last `Save` is a `Save`. -/
theorem lastSave_isSave (calls : List SaveCall) (i : ℕ) (hpos : 0 < lastSave calls i) :
    ∃ c ∈ calls[lastSave calls i - 1]?, c.snapshot.isSome := by
  induction i with
  | zero => exact absurd hpos (Nat.lt_irrefl 0)
  | succ i ih =>
    rw [lastSave] at hpos ⊢
    split_ifs at hpos ⊢ with hsave
    · obtain ⟨sn, hsn⟩ := Option.isSome_iff_exists.mp hsave
      obtain ⟨c, hc, hcs⟩ := Option.bind_eq_some_iff.mp hsn
      exact ⟨c, hc, by rw [hcs]; rfl⟩
    · exact ih hpos

/-- A later call changes nothing about the calls before it. -/
theorem raftData_append {initial : Option Bytes} {calls more : List SaveCall} {i : ℕ}
    (hi : i ≤ calls.length) : raftData initial (calls ++ more) i = raftData initial calls i := by
  cases i with
  | zero => rfl
  | succ i => rw [raftData, raftData, List.getElem?_append_left hi]

theorem snapshotData_append {initial : Option Bytes} {calls more : List SaveCall} {j : ℕ}
    (hj : j ≤ calls.length) :
    snapshotData initial (calls ++ more) j = snapshotData initial calls j := by
  cases j with
  | zero => rfl
  | succ j => rw [snapshotData, snapshotData, List.getElem?_append_left hj]

theorem lastSave_append {calls more : List SaveCall} {i : ℕ} (hi : i ≤ calls.length) :
    lastSave (calls ++ more) i = lastSave calls i := by
  induction i with
  | zero => rfl
  | succ i ih =>
    rw [lastSave, lastSave, List.getElem?_append_left hi, ih (by omega)]

theorem raftData_snoc (initial : Option Bytes) (calls : List SaveCall) (c : SaveCall) :
    raftData initial (calls ++ [c]) (calls.length + 1) = some c.raftstate := by
  simp [raftData]

theorem snapshotData_snoc (initial : Option Bytes) (calls : List SaveCall) (c : SaveCall) :
    snapshotData initial (calls ++ [c]) (calls.length + 1) = c.snapshot := by
  simp [snapshotData]

theorem lastSave_snoc (calls : List SaveCall) (c : SaveCall) :
    lastSave (calls ++ [c]) (calls.length + 1) =
      if c.snapshot.isSome then calls.length + 1 else lastSave calls calls.length := by
  rw [lastSave, List.getElem?_concat_length, Option.bind_some, lastSave_append le_rfl]

/-! ## The invariant -/

/-- A `WriteFileAtomic` that has not renamed yet: the `.tmp` file holds what is written. -/
def AtomicFile.Holds (f : AtomicFile) (data : Bytes) : WritePoint → Prop
  | .atOpen => True
  | .atWrite off => off ≤ data.length ∧ f.tmp = some (data.take off)
  | .atRename => f.tmp = some data

/-- A step that does not fail goes on, with the file as it was, or `rename` has put the data in
    place. -/
theorem AtomicFile.Holds.step {f : AtomicFile} {data : Bytes} {p : WritePoint} {io : IoResult}
    (h : f.Holds data p) (hio : p.returnsFalse data io = false) :
    (p ≠ .atRename ∧ ∃ f' p', f.writeFileAtomic data io p = (f', some p') ∧
        f'.contents = f.contents ∧ f'.Holds data p') ∨
      (p = .atRename ∧ ∃ f', f.writeFileAtomic data io p = (f', none) ∧
        f'.contents = some data) := by
  cases p with
  | atOpen =>
    obtain _ | n := io
    · exact absurd hio (by simp [WritePoint.returnsFalse])
    · exact .inl ⟨WritePoint.noConfusion, _, _, rfl, rfl, Nat.zero_le _, rfl⟩
  | atRename =>
    obtain _ | n := io
    · exact absurd hio (by simp [WritePoint.returnsFalse])
    · exact .inr ⟨rfl, _, rfl, h⟩
  | atWrite off =>
    refine .inl ⟨WritePoint.noConfusion, ?_⟩
    by_cases hlt : off < data.length
    · obtain _ | _ | n := io
      · exact absurd hio (by simp [WritePoint.returnsFalse, hlt])
      · exact absurd hio (by simp [WritePoint.returnsFalse, hlt])
      rw [writeFileAtomic, if_pos hlt]
      refine ⟨_, _, rfl, rfl, min_le_right _ _, ?_⟩
      rcases le_total (off + (n + 1)) data.length with hle | hle
      · rw [min_eq_left hle]
      · rw [min_eq_right hle, List.take_of_length_le hle, List.take_length]
    · have hend : f.writeFileAtomic data io (.atWrite off) = (f, some .atRename) := if_neg hlt
      refine ⟨_, _, hend, rfl, ?_⟩
      have htmp : f.tmp = some (data.take off) := h.2
      rw [Holds, htmp, List.take_of_length_le (by omega)]

theorem lastSave_lastSave (calls : List SaveCall) (i : ℕ) :
    lastSave calls (lastSave calls i) = lastSave calls i := by
  induction i with
  | zero => rfl
  | succ i ih =>
    by_cases hsave : (calls[i]?.bind (·.snapshot)).isSome
    · rw [lastSave, if_pos hsave, lastSave, if_pos hsave]
    · rw [lastSave, if_neg hsave, ih]

/-- A process with the calls made so far and the numbers of the calls whose data the two files
    hold. -/
structure Tracked where
  process : PersisterProcess
  calls : List SaveCall
  raftCall : ℕ
  snapshotCall : ℕ

namespace Tracked

/-- A file gets a new number when `rename` puts the data of an iteration in place. -/
def step (g : Tracked) (a : PersisterAct) : Tracked where
  process := g.process.step a
  calls := g.calls ++ a.call.toList
  raftCall :=
    match g.process.thread, a with
    | .writeState .atRename _ seqToWrite, .work _ => seqToWrite
    | _, _ => g.raftCall
  snapshotCall :=
    match g.process.thread, a with
    | .writeSnapshot .atRename _ _ seqToWrite, .work _ => lastSave g.calls seqToWrite
    | _, _ => g.snapshotCall

/-- The number the iteration under way brings the files to. -/
def goal (g : Tracked) : ℕ :=
  match g.process.thread with
  | .writeSnapshot _ _ _ seqToWrite | .writeState _ _ seqToWrite | .publish seqToWrite => seqToWrite
  | .waiting | .returned => g.raftCall

/-- What the locals of the iteration hold at each point of it. -/
def InFlight (raft₀ snap₀ : Option Bytes) (g : Tracked) : Prop :=
  match g.process.thread with
  | .waiting | .returned => True
  | .writeSnapshot point data stateToWrite seqToWrite =>
    g.process.snapshotFile.Holds data point ∧
      some data = snapshotData snap₀ g.calls (lastSave g.calls seqToWrite) ∧
      ∃ d, stateToWrite = some d ∧ some d = raftData raft₀ g.calls seqToWrite
  | .writeState point data seqToWrite =>
    g.process.raftFile.Holds data point ∧ some data = raftData raft₀ g.calls seqToWrite ∧
      g.snapshotCall = lastSave g.calls seqToWrite
  | .publish seqToWrite => g.raftCall = seqToWrite

/-- The two files, the iteration under way and the pending slots are, in this order, at least as
    recent as each other, and no call lies behind the slots. -/
structure Ordered (raft₀ snap₀ : Option Bytes) (g : Tracked) : Prop where
  nextSeq : g.process.nextSeq = g.calls.length
  pendingSeq : g.process.pendingSeq = g.calls.length
  flushed : g.process.flushedSeq ≤ g.raftCall
  raft_le : g.raftCall ≤ g.goal
  goal_le : g.goal ≤ g.calls.length
  snapshot_ge : lastSave g.calls g.raftCall ≤ g.snapshotCall
  snapshot_le : g.snapshotCall ≤ lastSave g.calls g.goal
  isSave : lastSave g.calls g.snapshotCall = g.snapshotCall
  raftFile : g.process.raftFile.contents = raftData raft₀ g.calls g.raftCall
  snapshotFile : g.process.snapshotFile.contents = snapshotData snap₀ g.calls g.snapshotCall
  raftIdle : g.process.hasPendingRaft = false → g.goal = g.calls.length
  snapshotIdle : g.process.hasPendingSnapshot = false →
    lastSave g.calls g.goal = lastSave g.calls g.calls.length
  raftPending : g.process.hasPendingRaft = true →
    some g.process.pendingRaftState = raftData raft₀ g.calls g.calls.length
  snapshotPending : g.process.hasPendingSnapshot = true → g.process.hasPendingRaft = true ∧
    some g.process.pendingSnapshot = snapshotData snap₀ g.calls (lastSave g.calls g.calls.length)
  inFlight : g.InFlight raft₀ snap₀

variable {raft₀ snap₀ : Option Bytes} {g : Tracked}

theorem Ordered.snapshotCall_le (h : g.Ordered raft₀ snap₀) : g.snapshotCall ≤ g.goal :=
  h.snapshot_le.trans (lastSave_le _ _)

/-- Facts about the numbers up to `goal` survive a new call. -/
theorem InFlight.append (h : g.InFlight raft₀ snap₀) (hgoal : g.goal ≤ g.calls.length)
    (more : List SaveCall) {process : PersisterProcess}
    (hthread : process.thread = g.process.thread) (hraft : process.raftFile = g.process.raftFile)
    (hsnap : process.snapshotFile = g.process.snapshotFile) :
    InFlight raft₀ snap₀ ⟨process, g.calls ++ more, g.raftCall, g.snapshotCall⟩ := by
  unfold InFlight at h ⊢
  simp only [goal] at hgoal
  dsimp only
  rw [hthread, hraft, hsnap]
  cases ht : g.process.thread with
  | waiting | returned => trivial
  | publish seqToWrite =>
    rw [ht] at h
    exact h
  | writeState point data seqToWrite =>
    simp only [ht] at h hgoal ⊢
    rw [raftData_append hgoal, lastSave_append hgoal]
    exact h
  | writeSnapshot point data stateToWrite seqToWrite =>
    simp only [ht] at h hgoal ⊢
    rw [raftData_append hgoal, lastSave_append hgoal,
      snapshotData_append ((lastSave_le _ _).trans hgoal)]
    exact h

theorem goal_of_thread {g g' : Tracked} (hthread : g'.process.thread = g.process.thread)
    (hraft : g'.raftCall = g.raftCall) : g'.goal = g.goal := by
  unfold goal
  rw [hthread, hraft]

/-- `p'` is `p` after call `c`. -/
structure Submitted (p : PersisterProcess) (c : SaveCall) (p' : PersisterProcess) : Prop where
  thread : p'.thread = p.thread
  raftFile : p'.raftFile = p.raftFile
  snapshotFile : p'.snapshotFile = p.snapshotFile
  nextSeq : p'.nextSeq = p.nextSeq + 1
  pendingSeq : p'.pendingSeq = p.nextSeq + 1
  flushedSeq : p'.flushedSeq = p.flushedSeq
  raft : p'.hasPendingRaft = true ∧ p'.pendingRaftState = c.raftstate
  snapshot : p'.hasPendingSnapshot = (c.snapshot.isSome || p.hasPendingSnapshot) ∧
    p'.pendingSnapshot = c.snapshot.getD p.pendingSnapshot

theorem Submitted.save (p : PersisterProcess) (raftstate snapshot : Bytes) :
    Submitted p ⟨raftstate, some snapshot⟩ (p.save raftstate snapshot) :=
  ⟨rfl, rfl, rfl, rfl, rfl, rfl, ⟨rfl, rfl⟩, rfl, rfl⟩

theorem Submitted.saveRaftState (p : PersisterProcess) (data : Bytes) :
    Submitted p ⟨data, none⟩ (p.saveRaftState data) :=
  ⟨rfl, rfl, rfl, rfl, rfl, rfl, ⟨rfl, rfl⟩, rfl, rfl⟩

/-- A call keeps the order: its data is in the slots, and everything else is older. -/
theorem Ordered.call (h : g.Ordered raft₀ snap₀) {c : SaveCall} {p' : PersisterProcess}
    (hp : Submitted g.process c p') :
    Ordered raft₀ snap₀ ⟨p', g.calls ++ [c], g.raftCall, g.snapshotCall⟩ := by
  have hgoal : goal ⟨p', g.calls ++ [c], g.raftCall, g.snapshotCall⟩ = g.goal :=
    goal_of_thread hp.thread rfl
  have hraft := h.raft_le.trans h.goal_le
  have hsnap := h.snapshotCall_le.trans h.goal_le
  have hlen : (g.calls ++ [c]).length = g.calls.length + 1 := by simp
  constructor
  case nextSeq => rw [hlen, ← h.nextSeq]; exact hp.nextSeq
  case pendingSeq => rw [hlen, ← h.nextSeq]; exact hp.pendingSeq
  case flushed => exact hp.flushedSeq ▸ h.flushed
  case raft_le => rw [hgoal]; exact h.raft_le
  case goal_le => rw [hgoal, hlen]; exact Nat.le_succ_of_le h.goal_le
  case snapshot_ge => rw [lastSave_append hraft]; exact h.snapshot_ge
  case snapshot_le => rw [hgoal, lastSave_append h.goal_le]; exact h.snapshot_le
  case isSave => rw [lastSave_append hsnap]; exact h.isSave
  case raftFile => rw [raftData_append hraft, ← h.raftFile, ← hp.raftFile]
  case snapshotFile => rw [snapshotData_append hsnap, ← h.snapshotFile, ← hp.snapshotFile]
  case raftIdle => exact fun hf => absurd hp.raft.1 (by rw [hf]; decide)
  case snapshotIdle =>
    intro hf
    rw [hp.snapshot.1, Bool.or_eq_false_iff] at hf
    rw [hgoal, hlen, lastSave_append h.goal_le, lastSave_snoc, hf.1]
    exact h.snapshotIdle hf.2
  case raftPending =>
    intro _
    rw [hlen, raftData_snoc, hp.raft.2]
  case snapshotPending =>
    intro ht
    refine ⟨hp.raft.1, ?_⟩
    rw [hp.snapshot.2, hlen, lastSave_snoc]
    cases hc : c.snapshot with
    | some sn => rw [if_pos Option.isSome_some, snapshotData_snoc, hc, Option.getD_some]
    | none =>
      rw [hp.snapshot.1, hc] at ht
      rw [if_neg (by decide), snapshotData_append (lastSave_le _ _), Option.getD_none]
      exact (h.snapshotPending ht).2
  case inFlight => exact h.inFlight.append h.goal_le [c] hp.thread hp.raftFile hp.snapshotFile

/-- What a step of the thread does in which no write fails. -/
inductive Works (g : Tracked) : Tracked → Prop
  | idle : Works g g
  | returns (hwait : g.process.thread = .waiting) (hraft : g.process.hasPendingRaft = false)
      (hsnap : g.process.hasPendingSnapshot = false) :
      Works g { g with process := { g.process with thread := .returned } }
  | takeBoth (hwait : g.process.thread = .waiting) (hraft : g.process.hasPendingRaft = true)
      (hsnap : g.process.hasPendingSnapshot = true) :
      Works g { g with
        process := { g.process with
          pendingSnapshot := []
          hasPendingSnapshot := false
          pendingRaftState := []
          hasPendingRaft := false
          thread := .writeSnapshot .atOpen g.process.pendingSnapshot
            (some g.process.pendingRaftState) g.calls.length } }
  | takeState (hwait : g.process.thread = .waiting) (hraft : g.process.hasPendingRaft = true)
      (hsnap : g.process.hasPendingSnapshot = false) :
      Works g { g with
        process := { g.process with
          hasPendingSnapshot := false
          pendingRaftState := []
          hasPendingRaft := false
          thread := .writeState .atOpen g.process.pendingRaftState g.calls.length } }
  | writeSnapshot {point next : WritePoint} {data d : Bytes} {seqToWrite : ℕ} {f : AtomicFile}
      (ht : g.process.thread = .writeSnapshot point data (some d) seqToWrite)
      (hsame : f.contents = g.process.snapshotFile.contents) (hholds : f.Holds data next) :
      Works g { g with
        process := { g.process with
          snapshotFile := f
          thread := .writeSnapshot next data (some d) seqToWrite } }
  | renameSnapshot {data d : Bytes} {seqToWrite : ℕ} {f : AtomicFile}
      (ht : g.process.thread = .writeSnapshot .atRename data (some d) seqToWrite)
      (hplaced : f.contents = some data) :
      Works g { g with
        process := { g.process with
          snapshotFile := f
          thread := .writeState .atOpen d seqToWrite }
        snapshotCall := lastSave g.calls seqToWrite }
  | writeState {point next : WritePoint} {data : Bytes} {seqToWrite : ℕ} {f : AtomicFile}
      (ht : g.process.thread = .writeState point data seqToWrite)
      (hsame : f.contents = g.process.raftFile.contents) (hholds : f.Holds data next) :
      Works g { g with
        process := { g.process with
          raftFile := f
          thread := .writeState next data seqToWrite } }
  | renameState {data : Bytes} {seqToWrite : ℕ} {f : AtomicFile}
      (ht : g.process.thread = .writeState .atRename data seqToWrite)
      (hplaced : f.contents = some data) :
      Works g { g with
        process := { g.process with raftFile := f, thread := .publish seqToWrite }
        raftCall := seqToWrite }
  | publish {seqToWrite : ℕ} (ht : g.process.thread = .publish seqToWrite) :
      Works g { g with
        process := { g.process with
          flushedSeq := if seqToWrite > 0 ∧ seqToWrite > g.process.flushedSeq then seqToWrite
            else g.process.flushedSeq
          thread := .waiting } }

/-- What the first critical section takes: the data of the most recent calls. -/
theorem Ordered.works_take (h : g.Ordered raft₀ snap₀) (hwait : g.process.thread = .waiting)
    (hwake : (g.process.stop || g.process.hasPendingRaft || g.process.hasPendingSnapshot) = true) :
    Works g { g with process := g.process.take } := by
  cases hr : g.process.hasPendingRaft with
  | false =>
    have hs : g.process.hasPendingSnapshot = false :=
      Bool.eq_false_iff.mpr fun hs => absurd (h.snapshotPending hs).1 (by rw [hr]; decide)
    rw [hr, hs, Bool.or_false, Bool.or_false] at hwake
    have htake : g.process.take = { g.process with thread := .returned } := by
      simp [PersisterProcess.take, hr, hs, hwake]
    rw [htake]
    exact .returns hwait hr hs
  | true =>
    cases hs : g.process.hasPendingSnapshot with
    | true =>
      have htake : g.process.take =
          { g.process with
            pendingSnapshot := []
            hasPendingSnapshot := false
            pendingRaftState := []
            hasPendingRaft := false
            thread := .writeSnapshot .atOpen g.process.pendingSnapshot
              (some g.process.pendingRaftState) g.calls.length } := by
        simp [PersisterProcess.take, hr, hs, h.pendingSeq]
      rw [htake]
      exact .takeBoth hwait hr hs
    | false =>
      have htake : g.process.take =
          { g.process with
            hasPendingSnapshot := false
            pendingRaftState := []
            hasPendingRaft := false
            thread := .writeState .atOpen g.process.pendingRaftState g.calls.length } := by
        simp [PersisterProcess.take, hr, hs, h.pendingSeq, PersisterProcess.afterSnapshot]
      rw [htake]
      exact .takeState hwait hr hs

theorem Ordered.works (h : g.Ordered raft₀ snap₀) {io : IoResult}
    (hio : g.process.writeFails (.work io) = false) : Works g (g.step (.work io)) := by
  have hflight := h.inFlight
  unfold InFlight at hflight
  cases ht : g.process.thread with
  | waiting =>
    have hstep : g.step (.work io) = { g with process := g.process.work io } := by
      simp [step, ht, PersisterAct.call, PersisterProcess.step]
    rw [hstep, PersisterProcess.work, ht]
    dsimp only
    split_ifs with hwake
    · exact h.works_take ht hwake
    · exact .idle
  | returned =>
    have hstep : g.step (.work io) = g := by
      simp [step, ht, PersisterAct.call, PersisterProcess.step, PersisterProcess.work]
    rw [hstep]
    exact .idle
  | publish seqToWrite =>
    have hstep : g.step (.work io) = { g with process := g.process.work io } := by
      simp [step, ht, PersisterAct.call, PersisterProcess.step]
    rw [hstep, PersisterProcess.work, ht]
    exact .publish ht
  | writeState point data seqToWrite =>
    simp only [ht] at hflight
    simp only [PersisterProcess.writeFails, ht] at hio
    obtain ⟨hne, f, next, hwrite, hsame, hholds⟩ | ⟨rfl, f, hwrite, hplaced⟩ := hflight.1.step hio
    · have hstep : g.step (.work io) = { g with process :=
          { g.process with raftFile := f, thread := .writeState next data seqToWrite } } := by
        cases point with
        | atRename => exact absurd rfl hne
        | _ => simp [step, ht, PersisterAct.call, PersisterProcess.step, PersisterProcess.work, hwrite]
      rw [hstep]
      exact .writeState ht hsame hholds
    · have hstep : g.step (.work io) = { g with
          process := { g.process with raftFile := f, thread := .publish seqToWrite }
          raftCall := seqToWrite } := by
        simp [step, ht, PersisterAct.call, PersisterProcess.step, PersisterProcess.work, hwrite]
      rw [hstep]
      exact .renameState ht hplaced
  | writeSnapshot point data stateToWrite seqToWrite =>
    simp only [ht] at hflight
    simp only [PersisterProcess.writeFails, ht] at hio
    obtain ⟨hholds, _, d, rfl, _⟩ := hflight
    obtain ⟨hne, f, next, hwrite, hsame, hholds⟩ | ⟨rfl, f, hwrite, hplaced⟩ := hholds.step hio
    · have hstep : g.step (.work io) = { g with process := { g.process with
          snapshotFile := f, thread := .writeSnapshot next data (some d) seqToWrite } } := by
        cases point with
        | atRename => exact absurd rfl hne
        | _ => simp [step, ht, PersisterAct.call, PersisterProcess.step, PersisterProcess.work, hwrite]
      rw [hstep]
      exact .writeSnapshot ht hsame hholds
    · have hstep : g.step (.work io) = { g with
          process := { g.process with
            snapshotFile := f, thread := .writeState .atOpen d seqToWrite }
          snapshotCall := lastSave g.calls seqToWrite } := by
        simp [step, ht, PersisterAct.call, PersisterProcess.step, PersisterProcess.work, hwrite,
          PersisterProcess.afterSnapshot]
      rw [hstep]
      exact .renameSnapshot ht hplaced

/-- A step within an iteration, or at its end: what it does to the files is in order, and the slots
    and the number the iteration aims at are as they were. -/
theorem Ordered.goesOn (h : g.Ordered raft₀ snap₀) {raftFile snapshotFile : AtomicFile}
    {flushedSeq raftCall snapshotCall : ℕ} {thread : WorkPoint} {g' : Tracked}
    (hg' : g' = ⟨{ g.process with
      raftFile := raftFile
      snapshotFile := snapshotFile
      flushedSeq := flushedSeq
      thread := thread }, g.calls, raftCall, snapshotCall⟩)
    (hgoal : g'.goal = g.goal) (hflushed : flushedSeq ≤ raftCall) (hraft : raftCall ≤ g.goal)
    (hge : lastSave g.calls raftCall ≤ snapshotCall)
    (hle : snapshotCall ≤ lastSave g.calls g.goal)
    (hsave : lastSave g.calls snapshotCall = snapshotCall)
    (hraftFile : raftFile.contents = raftData raft₀ g.calls raftCall)
    (hsnapshotFile : snapshotFile.contents = snapshotData snap₀ g.calls snapshotCall)
    (hflight : g'.InFlight raft₀ snap₀) : g'.Ordered raft₀ snap₀ := by
  subst hg'
  exact { h with
    flushed := hflushed
    raft_le := hgoal ▸ hraft
    goal_le := hgoal ▸ h.goal_le
    snapshot_ge := hge
    snapshot_le := hgoal ▸ hle
    isSave := hsave
    raftFile := hraftFile
    snapshotFile := hsnapshotFile
    raftIdle := fun hf => hgoal ▸ h.raftIdle hf
    snapshotIdle := fun hf => hgoal ▸ h.snapshotIdle hf
    inFlight := hflight }

/-- The thread takes all that is pending, and aims at the most recent call. -/
theorem Ordered.taken (h : g.Ordered raft₀ snap₀) (hwait : g.process.thread = .waiting)
    {pendingRaftState pendingSnapshot : Bytes} {thread : WorkPoint} {g' : Tracked}
    (hg' : g' = { g with process := { g.process with
      pendingRaftState := pendingRaftState
      pendingSnapshot := pendingSnapshot
      hasPendingRaft := false
      hasPendingSnapshot := false
      thread := thread } })
    (hgoal : g'.goal = g.calls.length) (hflight : g'.InFlight raft₀ snap₀) :
    g'.Ordered raft₀ snap₀ := by
  have hraft := h.raft_le.trans h.goal_le
  have hle := h.snapshot_le
  rw [show g.goal = g.raftCall by rw [goal, hwait]] at hle
  subst hg'
  exact { h with
    raft_le := hgoal ▸ hraft
    goal_le := hgoal.le
    snapshot_le := hgoal ▸ hle.trans (lastSave_mono g.calls hraft)
    raftIdle := fun _ => hgoal
    snapshotIdle := fun _ => by rw [hgoal]
    raftPending := fun hf => absurd hf Bool.false_ne_true
    snapshotPending := fun hf => absurd hf Bool.false_ne_true
    inFlight := hflight }

/-- A step of the thread in which no write fails keeps the order. -/
theorem Ordered.work (h : g.Ordered raft₀ snap₀) {g' : Tracked} (hg : Works g g') :
    g'.Ordered raft₀ snap₀ := by
  have hflight := h.inFlight
  unfold InFlight at hflight
  cases hg with
  | idle => exact h
  | returns hwait hr hs =>
    exact h.goesOn rfl (by simp only [goal, hwait]) h.flushed h.raft_le h.snapshot_ge h.snapshot_le
      h.isSave h.raftFile h.snapshotFile trivial
  | takeBoth hwait hr hs =>
    exact h.taken hwait rfl rfl ⟨trivial, (h.snapshotPending hs).2, _, rfl, h.raftPending hr⟩
  | takeState hwait hr hs =>
    -- without a pending snapshot the snapshot file is at the last `Save` already
    have hgoal : g.goal = g.raftCall := by rw [goal, hwait]
    have hidle := h.snapshotIdle hs
    have hle := h.snapshot_le
    have hge := h.snapshot_ge
    rw [hgoal] at hidle hle
    have hcall : g.snapshotCall = lastSave g.calls g.calls.length := by omega
    exact h.taken hwait rfl rfl ⟨trivial, h.raftPending hr, hcall⟩
  | @writeSnapshot point next data d seqToWrite f ht hsame hholds =>
    simp only [ht] at hflight
    exact h.goesOn rfl (by simp only [goal, ht]) h.flushed h.raft_le h.snapshot_ge h.snapshot_le
      h.isSave h.raftFile (hsame.trans h.snapshotFile) ⟨hholds, hflight.2⟩
  | @renameSnapshot data d seqToWrite f ht hplaced =>
    -- the snapshot file moves first, to the last `Save` of this iteration
    simp only [ht] at hflight
    obtain ⟨-, hdata, d', hd', hd⟩ := hflight
    rw [Option.some.inj hd'.symm] at hd
    have hgoal : g.goal = seqToWrite := by rw [goal, ht]
    have hseq : g.raftCall ≤ seqToWrite := hgoal ▸ h.raft_le
    exact h.goesOn rfl hgoal.symm h.flushed h.raft_le (lastSave_mono g.calls hseq)
      (by rw [hgoal]) (lastSave_lastSave g.calls seqToWrite) h.raftFile (hplaced.trans hdata)
      ⟨trivial, hd, rfl⟩
  | @writeState point next data seqToWrite f ht hsame hholds =>
    simp only [ht] at hflight
    exact h.goesOn rfl (by simp only [goal, ht]) h.flushed h.raft_le h.snapshot_ge h.snapshot_le
      h.isSave (hsame.trans h.raftFile) h.snapshotFile ⟨hholds, hflight.2⟩
  | @renameState data seqToWrite f ht hplaced =>
    -- the raft-state file moves to the data of this iteration
    simp only [ht] at hflight
    obtain ⟨-, hdata, hcall⟩ := hflight
    have hgoal : g.goal = seqToWrite := by rw [goal, ht]
    exact h.goesOn rfl hgoal.symm (h.flushed.trans (hgoal ▸ h.raft_le)) hgoal.ge hcall.ge
      (by rw [hgoal, hcall]) h.isSave (hplaced.trans hdata) h.snapshotFile rfl
  | @publish seqToWrite ht =>
    simp only [ht] at hflight
    have hflushed := h.flushed
    exact h.goesOn rfl (by simp only [goal, ht, hflight]) (by split_ifs <;> omega) h.raft_le
      h.snapshot_ge h.snapshot_le h.isSave h.raftFile h.snapshotFile trivial

theorem Submitted.of_call {p : PersisterProcess} {a : PersisterAct} {c : SaveCall}
    (hc : a.call = some c) : Submitted p c (p.step a) := by
  cases a with
  | save raftstate snapshot =>
    cases hc
    exact .save p raftstate snapshot
  | saveRaftState data =>
    cases hc
    exact .saveRaftState p data
  | stop => cases hc
  | work io => cases hc

/-- A step is one of the thread, the destructor's, or a call. -/
theorem step_cases (g : Tracked) (a : PersisterAct) :
    (∃ io, a = .work io) ∨
      (a = .stop ∧ g.step a = { g with process := { g.process with stop := true } }) ∨
      ∃ c, a.call = some c ∧
        g.step a = ⟨g.process.step a, g.calls ++ [c], g.raftCall, g.snapshotCall⟩ := by
  cases a with
  | work io => exact .inl ⟨io, rfl⟩
  | stop => exact .inr (.inl ⟨rfl, by simp [step, PersisterAct.call, PersisterProcess.step]⟩)
  | save raftstate snapshot => exact .inr (.inr ⟨_, rfl, by simp [step, PersisterAct.call]⟩)
  | saveRaftState data => exact .inr (.inr ⟨_, rfl, by simp [step, PersisterAct.call]⟩)

/-- One step of the process. -/
theorem Ordered.step (h : g.Ordered raft₀ snap₀) {a : PersisterAct}
    (ha : g.process.writeFails a = false) : (g.step a).Ordered raft₀ snap₀ := by
  obtain ⟨io, rfl⟩ | ⟨rfl, hstep⟩ | ⟨c, hc, hstep⟩ := g.step_cases a
  · exact h.work (h.works ha)
  · rw [hstep]
    exact { h with }
  · rw [hstep]
    exact h.call (.of_call hc)

/-- Neither file goes back. -/
theorem Ordered.raftCall_le_step (h : g.Ordered raft₀ snap₀) (a : PersisterAct) :
    g.raftCall ≤ (g.step a).raftCall := by
  have hle := h.raft_le
  unfold goal at hle
  unfold Tracked.step
  dsimp only
  split
  next ht => simpa only [ht] using hle
  next => exact le_rfl

theorem Ordered.snapshotCall_le_step (h : g.Ordered raft₀ snap₀) (a : PersisterAct) :
    g.snapshotCall ≤ (g.step a).snapshotCall := by
  have hle := h.snapshot_le
  unfold goal at hle
  unfold Tracked.step
  dsimp only
  split
  next ht => simpa only [ht] using hle
  next => exact le_rfl

/-- When `WorkLoop` returns, the files hold the most recent data. -/
theorem Ordered.returns (h : g.Ordered raft₀ snap₀) {a : PersisterAct}
    (hbefore : g.process.thread ≠ .returned)
    (hafter : (g.step a).process.thread = .returned) :
    (g.step a).raftCall = (g.step a).calls.length ∧
      (g.step a).snapshotCall = lastSave (g.step a).calls (g.step a).calls.length := by
  have hge := h.snapshot_ge
  have hle := h.snapshot_le
  cases a with
  | save _ _ => exact absurd hafter hbefore
  | saveRaftState _ => exact absurd hafter hbefore
  | stop => exact absurd hafter hbefore
  | work io =>
    obtain ⟨ht, hr, hs⟩ := PersisterProcess.work_returned hbefore hafter
    have hgoal : g.goal = g.raftCall := by rw [goal, ht]
    have hraft := h.raftIdle hr
    have hsnap := h.snapshotIdle hs
    have hstep : g.step (.work io) = { g with process := g.process.work io } := by
      simp [Tracked.step, ht, PersisterAct.call, PersisterProcess.step]
    rw [hgoal] at hraft hsnap hle
    rw [hstep]
    exact ⟨hraft, by dsimp only; omega⟩

end Tracked

namespace Tracked

/-- A fresh process: both files are at number 0, their initial contents. -/
def create (raftFile snapshotFile : AtomicFile) : Tracked :=
  ⟨.create raftFile snapshotFile, [], 0, 0⟩

def exec (raftFile snapshotFile : AtomicFile) (as : List PersisterAct) : Tracked :=
  as.foldl step (create raftFile snapshotFile)

theorem exec_snoc (raftFile snapshotFile : AtomicFile) (as : List PersisterAct)
    (a : PersisterAct) :
    exec raftFile snapshotFile (as ++ [a]) = (exec raftFile snapshotFile as).step a := by
  simp [exec]

/-- The numbers are carried along; the process is not affected by them. -/
theorem exec_process (raftFile snapshotFile : AtomicFile) (as : List PersisterAct) :
    (exec raftFile snapshotFile as).process = PersisterProcess.exec raftFile snapshotFile as ∧
      (exec raftFile snapshotFile as).calls = callsOf as := by
  induction as using List.reverseRecOn with
  | nil => exact ⟨rfl, rfl⟩
  | append_singleton as a ih =>
    rw [exec_snoc, PersisterProcess.exec_snoc, callsOf_snoc, ← ih.1, ← ih.2]
    exact ⟨rfl, rfl⟩

theorem ordered_exec (raftFile snapshotFile : AtomicFile) {as : List PersisterAct}
    (hio : ∀ a ∈ as, a.succeeds) :
    (exec raftFile snapshotFile as).Ordered raftFile.contents snapshotFile.contents := by
  induction as using List.reverseRecOn with
  | nil => constructor <;> simp [exec, create, goal, PersisterProcess.create, lastSave, raftData,
      snapshotData, InFlight]
  | append_singleton as a ih =>
    rw [exec_snoc]
    refine (ih fun b hb => hio b ?_).step (PersisterProcess.writeFails_of_succeeds _ (hio a ?_))
    · exact List.mem_append_left _ hb
    · exact List.mem_append_right _ (List.mem_singleton_self a)

end Tracked

/-! ## Crash consistency -/

/-- With the given calls made, the raft-state file is at call `i` and the snapshot file at
    call `j`. -/
structure Consistent (raft₀ snap₀ : Option Bytes) (calls : List SaveCall) (p : PersisterProcess)
    (i j : ℕ) : Prop where
  numbered : p.nextSeq = calls.length
  flushed : p.flushedSeq ≤ i
  issued : i ≤ calls.length
  raftFile : p.raftFile.contents = raftData raft₀ calls i
  snapshotFile : p.snapshotFile.contents = snapshotData snap₀ calls j
  isSave : 0 < j → ∃ c ∈ calls[j - 1]?, c.snapshot.isSome
  recent : lastSave calls i ≤ j

theorem Tracked.Ordered.consistent {raft₀ snap₀ : Option Bytes} {g : Tracked}
    (h : g.Ordered raft₀ snap₀) :
    Consistent raft₀ snap₀ g.calls g.process g.raftCall g.snapshotCall where
  numbered := h.nextSeq
  flushed := h.flushed
  issued := h.raft_le.trans h.goal_le
  raftFile := h.raftFile
  snapshotFile := h.snapshotFile
  isSave := fun hpos => by
    have hsave := lastSave_isSave g.calls g.snapshotCall (h.isSave.symm ▸ hpos)
    rwa [h.isSave] at hsave
  recent := h.snapshot_ge

/-- In every schedule without failing writes, after every number `t` of steps: the raft-state
    file is at a call not older than `m_flushedSeq`, the snapshot file at a `Save` not older than
    the last one up to that call, neither goes back, and when `WorkLoop` returns both are at the
    most recent calls. -/
theorem persister_crash_consistency (raftFile snapshotFile : AtomicFile)
    (as : List PersisterAct) (hio : ∀ a ∈ as, a.succeeds) :
    ∃ raftCall snapshotCall : ℕ → ℕ, Monotone raftCall ∧ Monotone snapshotCall ∧ ∀ t,
      let calls := callsOf (as.take t)
      let calls' := callsOf (as.take (t + 1))
      let p := PersisterProcess.exec raftFile snapshotFile (as.take t)
      let p' := PersisterProcess.exec raftFile snapshotFile (as.take (t + 1))
      Consistent raftFile.contents snapshotFile.contents calls p (raftCall t) (snapshotCall t) ∧
        (p.thread ≠ .returned → p'.thread = .returned →
          raftCall (t + 1) = calls'.length ∧
            snapshotCall (t + 1) = lastSave calls' calls'.length) := by
  have hord : ∀ t, (Tracked.exec raftFile snapshotFile (as.take t)).Ordered raftFile.contents
      snapshotFile.contents := fun t =>
    Tracked.ordered_exec raftFile snapshotFile fun a ha => hio a (List.mem_of_mem_take ha)
  -- a schedule that is not over takes one more step from `t` to `t + 1`
  have hnext : ∀ t, Tracked.exec raftFile snapshotFile (as.take (t + 1)) =
        Tracked.exec raftFile snapshotFile (as.take t) ∨
      ∃ a, Tracked.exec raftFile snapshotFile (as.take (t + 1)) =
        (Tracked.exec raftFile snapshotFile (as.take t)).step a := by
    intro t
    rcases lt_or_ge t as.length with hlt | hge
    · refine .inr ⟨as[t], ?_⟩
      rw [← Tracked.exec_snoc, List.take_append_getElem hlt]
    · refine .inl ?_
      rw [List.take_of_length_le hge, List.take_of_length_le (by omega)]
  refine ⟨fun t => (Tracked.exec raftFile snapshotFile (as.take t)).raftCall,
    fun t => (Tracked.exec raftFile snapshotFile (as.take t)).snapshotCall,
    monotone_nat_of_le_succ fun t => ?_, monotone_nat_of_le_succ fun t => ?_, fun t => ?_⟩
  · rcases hnext t with heq | ⟨a, heq⟩
    · rw [heq]
    · rw [heq]
      exact (hord t).raftCall_le_step a
  · rcases hnext t with heq | ⟨a, heq⟩
    · rw [heq]
    · rw [heq]
      exact (hord t).snapshotCall_le_step a
  · simp only [← (Tracked.exec_process raftFile snapshotFile _).1,
      ← (Tracked.exec_process raftFile snapshotFile _).2]
    refine ⟨(hord t).consistent, fun hbefore hafter => ?_⟩
    rcases hnext t with heq | ⟨a, heq⟩
    · exact absurd (heq ▸ hafter) hbefore
    · rw [heq] at hafter ⊢
      exact (hord t).returns hbefore hafter

/-- A `Save` arrives while the data of a `SaveRaftState` is being written, then the process is
    stopped. -/
def coalescedRun : List PersisterAct :=
  [.saveRaftState [1], .work (.moves 1), .save [2] [3], .work (.moves 1), .saveRaftState [4],
    .stop] ++ List.replicate 16 (.work (.moves 1))

theorem persister_crash_consistency_coalescedRun :
    (∃ raftCall snapshotCall : ℕ → ℕ, Monotone raftCall ∧ Monotone snapshotCall ∧ ∀ t,
      let calls := callsOf (coalescedRun.take t)
      let calls' := callsOf (coalescedRun.take (t + 1))
      let p := PersisterProcess.exec ⟨none, none⟩ ⟨none, none⟩ (coalescedRun.take t)
      let p' := PersisterProcess.exec ⟨none, none⟩ ⟨none, none⟩ (coalescedRun.take (t + 1))
      Consistent none none calls p (raftCall t) (snapshotCall t) ∧
        (p.thread ≠ .returned → p'.thread = .returned →
          raftCall (t + 1) = calls'.length ∧
            snapshotCall (t + 1) = lastSave calls' calls'.length)) ∧
      (PersisterProcess.exec ⟨none, none⟩ ⟨none, none⟩ coalescedRun).thread = .returned :=
  ⟨persister_crash_consistency ⟨none, none⟩ ⟨none, none⟩ coalescedRun (by decide), by decide⟩

/-! ## The iteration as one step -/

/-- `q` is `p` with the archives as bytes. -/
structure Encodes (encode : PersistRaftNode → Bytes) (p : Persister) (q : PersisterProcess) :
    Prop where
  raftState : q.raftState = (p.raftState.map encode).getD []
  snapshot : q.snapshot = p.snapshot
  hasPendingRaft : q.hasPendingRaft = p.hasPendingRaft
  hasPendingSnapshot : q.hasPendingSnapshot = p.hasPendingSnapshot
  pendingRaftState : p.hasPendingRaft = true →
    p.pendingRaftState.map encode = some q.pendingRaftState
  pendingSnapshot : p.hasPendingSnapshot = true → q.pendingSnapshot = p.pendingSnapshot
  nextSeq : q.nextSeq = p.nextSeq
  flushedSeq : q.flushedSeq = p.flushedSeq
  pendingSeq : q.pendingSeq = p.pendingSeq
  raftFile : q.raftFile.contents = p.raftFile.map encode
  snapshotFile : q.snapshotFile.contents = p.snapshotFile

/-- Steps of the thread in which a `WriteFileAtomic` with this data runs to its end. -/
def wholeWrite : Bytes → List PersisterAct
  | [] => List.replicate 3 (.work (.moves 1))
  | data => [.work (.moves 1), .work (.moves data.length), .work (.moves 1), .work (.moves 1)]

namespace PersisterProcess

theorem exec_writeSnapshot {q : PersisterProcess} {data : Bytes} {stateToWrite : Option Bytes}
    {seqToWrite : ℕ} (ht : q.thread = .writeSnapshot .atOpen data stateToWrite seqToWrite) :
    (wholeWrite data).foldl step q =
      { q with
        snapshotFile := ⟨some data, none⟩
        thread := afterSnapshot stateToWrite seqToWrite } := by
  cases data with
  | nil => simp [wholeWrite, step, work, ht, AtomicFile.writeFileAtomic]
  | cons b data => simp [wholeWrite, step, work, ht, AtomicFile.writeFileAtomic]

theorem exec_writeState {q : PersisterProcess} {data : Bytes} {seqToWrite : ℕ}
    (ht : q.thread = .writeState .atOpen data seqToWrite) :
    (wholeWrite data).foldl step q =
      { q with raftFile := ⟨some data, none⟩, thread := .publish seqToWrite } := by
  cases data with
  | nil => simp [wholeWrite, step, work, ht, AtomicFile.writeFileAtomic]
  | cons b data => simp [wholeWrite, step, work, ht, AtomicFile.writeFileAtomic]

end PersisterProcess

/-- One iteration that runs to its end without a call in between does what
    `Persister.workLoop` does. -/
theorem workLoop_refines {encode : PersistRaftNode → Bytes} {p : Persister}
    {q : PersisterProcess} (h : Encodes encode p q) (hwait : q.thread = .waiting)
    (hpend : q.hasPendingRaft = true) :
    ∃ as : List PersisterAct, (as.foldl PersisterProcess.step q).thread = .waiting ∧
      Encodes encode p.workLoop (as.foldl PersisterProcess.step q) := by
  have hpr : p.hasPendingRaft = true := h.hasPendingRaft ▸ hpend
  have hstate := h.pendingRaftState hpr
  have hflushed : (if 0 < p.pendingSeq ∧ p.flushedSeq < p.pendingSeq then p.pendingSeq
      else p.flushedSeq) =
      if p.flushedSeq < p.pendingSeq then p.pendingSeq else p.flushedSeq := by
    split_ifs <;> omega
  cases hs : q.hasPendingSnapshot with
  | false =>
    have hps : p.hasPendingSnapshot = false := h.hasPendingSnapshot ▸ hs
    have htake : [PersisterAct.work (.moves 1)].foldl PersisterProcess.step q =
        { q with
          hasPendingSnapshot := false
          pendingRaftState := []
          hasPendingRaft := false
          thread := .writeState .atOpen q.pendingRaftState q.pendingSeq } := by
      simp [PersisterProcess.step, PersisterProcess.work, hwait, PersisterProcess.take, hpend, hs,
        PersisterProcess.afterSnapshot]
    refine ⟨[.work (.moves 1)] ++ wholeWrite q.pendingRaftState ++ [.work (.moves 1)], ?_⟩
    rw [List.foldl_append, List.foldl_append, htake, PersisterProcess.exec_writeState rfl]
    refine ⟨rfl, ?_⟩
    constructor <;> simp [PersisterProcess.step, PersisterProcess.work, Persister.workLoop, hpr, hps,
      h.raftState, h.snapshot, h.nextSeq, h.flushedSeq, h.pendingSeq, h.snapshotFile, hstate,
      hflushed]
  | true =>
    have hps : p.hasPendingSnapshot = true := h.hasPendingSnapshot ▸ hs
    let taken : PersisterProcess :=
      { q with
        pendingSnapshot := []
        hasPendingSnapshot := false
        pendingRaftState := []
        hasPendingRaft := false
        thread := .writeSnapshot .atOpen q.pendingSnapshot (some q.pendingRaftState) q.pendingSeq }
    have htake : [PersisterAct.work (.moves 1)].foldl PersisterProcess.step q = taken := by
      simp [taken, PersisterProcess.step, PersisterProcess.work, hwait, PersisterProcess.take,
        hpend, hs]
    have hsnap := PersisterProcess.exec_writeSnapshot (q := taken) rfl
    refine ⟨[.work (.moves 1)] ++ wholeWrite q.pendingSnapshot ++ wholeWrite q.pendingRaftState ++
      [.work (.moves 1)], ?_⟩
    rw [List.foldl_append, List.foldl_append, List.foldl_append, htake, hsnap,
      PersisterProcess.exec_writeState rfl]
    refine ⟨rfl, ?_⟩
    constructor <;> simp [taken, PersisterProcess.step, PersisterProcess.work, Persister.workLoop, hpr, hps,
      h.raftState, h.snapshot, h.nextSeq, h.flushedSeq, h.pendingSeq, h.pendingSnapshot hps, hstate,
      hflushed]

end MyKvRaft
