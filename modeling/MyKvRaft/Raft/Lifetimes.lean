import MyKvRaft.Raft.WorkLoop

/-!
# The persister from process to process

A process that ends, at whatever point, leaves the two files and what stands in their `.tmp`
files. The next one reads the files, knows nothing of the calls that were made before, and counts
its own calls from 1 again (`Raft/raft.h` lines 168–179).

* `flushed_calls_last`: what has once been flushed is never lost, however often the process ends.
-/

namespace MyKvRaft

/-- A step of the process that runs, or its end and the start of the next one. -/
inductive LifetimeAct where
  | act (a : PersisterAct)
  | crash
deriving DecidableEq

def LifetimeAct.succeeds : LifetimeAct → Bool
  | .act a => a.succeeds
  | .crash => true

namespace PersisterProcess

def stepLifetimes (p : PersisterProcess) : LifetimeAct → PersisterProcess
  | .act a => p.step a
  | .crash => create p.raftFile p.snapshotFile

/-- The process that runs after a schedule, the first one started on the given files. -/
def execLifetimes (raftFile snapshotFile : AtomicFile) (as : List LifetimeAct) :
    PersisterProcess :=
  as.foldl stepLifetimes (create raftFile snapshotFile)

end PersisterProcess

/-- The calls of the processes that have ended, and of the one that runs. -/
structure CallHistory where
  ended : List SaveCall
  current : List SaveCall

namespace CallHistory

def calls (h : CallHistory) : List SaveCall := h.ended ++ h.current

def step (h : CallHistory) : LifetimeAct → CallHistory
  | .act a => { h with current := h.current ++ a.call.toList }
  | .crash => ⟨h.calls, []⟩

end CallHistory

def callHistory (as : List LifetimeAct) : CallHistory := as.foldl .step ⟨[], []⟩

/-- Counted over all processes, the raft-state file is at call `i` and the snapshot file at call
    `j`. What the process that runs has flushed is not behind them. -/
structure OnFile (raft₀ snap₀ : Option Bytes) (h : CallHistory) (p : PersisterProcess) (i j : ℕ) :
    Prop where
  raftFile : p.raftFile.contents = raftData raft₀ h.calls i
  snapshotFile : p.snapshotFile.contents = snapshotData snap₀ h.calls j
  issued : i ≤ h.calls.length
  isSave : 0 < j → ∃ c ∈ h.calls[j - 1]?, c.snapshot.isSome
  flushed : ∀ seq ≤ p.flushedSeq, 0 < seq → h.ended.length + seq ≤ i
  flushedSave : ∀ seq ≤ p.flushedSeq, 0 < lastSave h.current seq →
    h.ended.length + lastSave h.current seq ≤ j

/-! ## The numbers over all processes -/

/-- The process that runs, with the numbers of the calls whose data it has found in the files. -/
structure Lifetimes where
  tracked : Tracked
  ended : List SaveCall
  foundRaft : ℕ
  foundSnapshot : ℕ

namespace Lifetimes

def history (l : Lifetimes) : CallHistory := ⟨l.ended, l.tracked.calls⟩

/-- A number of the process that runs, counted over all of them; number 0 is what it has found. -/
def overall (l : Lifetimes) (found : ℕ) : ℕ → ℕ
  | 0 => found
  | i + 1 => l.ended.length + (i + 1)

def raftCall (l : Lifetimes) : ℕ := l.overall l.foundRaft l.tracked.raftCall

def snapshotCall (l : Lifetimes) : ℕ := l.overall l.foundSnapshot l.tracked.snapshotCall

def create (raftFile snapshotFile : AtomicFile) : Lifetimes :=
  ⟨.create raftFile snapshotFile, [], 0, 0⟩

def step (l : Lifetimes) : LifetimeAct → Lifetimes
  | .act a => { l with tracked := l.tracked.step a }
  | .crash =>
    ⟨.create l.tracked.process.raftFile l.tracked.process.snapshotFile, l.history.calls, l.raftCall,
      l.snapshotCall⟩

def exec (raftFile snapshotFile : AtomicFile) (as : List LifetimeAct) : Lifetimes :=
  as.foldl step (create raftFile snapshotFile)

theorem exec_snoc (raftFile snapshotFile : AtomicFile) (as : List LifetimeAct) (a : LifetimeAct) :
    exec raftFile snapshotFile (as ++ [a]) = (exec raftFile snapshotFile as).step a := by
  simp [exec]

theorem exec_process (raftFile snapshotFile : AtomicFile) (as : List LifetimeAct) :
    (exec raftFile snapshotFile as).tracked.process =
        PersisterProcess.execLifetimes raftFile snapshotFile as ∧
      (exec raftFile snapshotFile as).history = callHistory as := by
  induction as using List.reverseRecOn with
  | nil => exact ⟨rfl, rfl⟩
  | append_singleton as a ih =>
    have hprocess : PersisterProcess.execLifetimes raftFile snapshotFile (as ++ [a]) =
        (PersisterProcess.execLifetimes raftFile snapshotFile as).stepLifetimes a := by
      simp [PersisterProcess.execLifetimes]
    have hcalls : callHistory (as ++ [a]) = (callHistory as).step a := by simp [callHistory]
    rw [exec_snoc, hprocess, hcalls, ← ih.1, ← ih.2]
    cases a with
    | act a => exact ⟨rfl, rfl⟩
    | crash => exact ⟨rfl, rfl⟩

/-- What the process that runs has found is data of the calls before it, and it has kept the order
    of the calls since. -/
structure Sound (raft₀ snap₀ : Option Bytes) (l : Lifetimes) : Prop where
  tracked : l.tracked.Ordered (raftData raft₀ l.ended l.foundRaft)
    (snapshotData snap₀ l.ended l.foundSnapshot)
  foundRaft_le : l.foundRaft ≤ l.ended.length
  foundSnapshot_le : l.foundSnapshot ≤ l.ended.length
  foundSave : 0 < l.foundSnapshot → ∃ c ∈ l.ended[l.foundSnapshot - 1]?, c.snapshot.isSome

variable {raft₀ snap₀ : Option Bytes} {l : Lifetimes}

theorem overall_le (found : ℕ) (hfound : found ≤ l.ended.length) {i : ℕ}
    (hi : i ≤ l.tracked.calls.length) : l.overall found i ≤ l.history.calls.length := by
  unfold history CallHistory.calls
  rw [List.length_append]
  cases i with
  | zero => exact hfound.trans (Nat.le_add_right _ _)
  | succ i => exact Nat.add_le_add_left hi _

/-- The data of a call, by its number in its process and by the one over all of them. -/
theorem raftData_overall {found : ℕ} (hfound : found ≤ l.ended.length) (i : ℕ) :
    raftData (raftData raft₀ l.ended found) l.tracked.calls i =
      raftData raft₀ l.history.calls (l.overall found i) := by
  cases i with
  | zero => exact (raftData_append hfound).symm
  | succ i =>
    show _ = ((l.ended ++ l.tracked.calls)[l.ended.length + i]?).map _
    rw [List.getElem?_append_right (by omega), Nat.add_sub_cancel_left]
    rfl

theorem snapshotData_overall {found : ℕ} (hfound : found ≤ l.ended.length) (j : ℕ) :
    snapshotData (snapshotData snap₀ l.ended found) l.tracked.calls j =
      snapshotData snap₀ l.history.calls (l.overall found j) := by
  cases j with
  | zero => exact (snapshotData_append hfound).symm
  | succ j =>
    show _ = ((l.ended ++ l.tracked.calls)[l.ended.length + j]?).bind _
    rw [List.getElem?_append_right (by omega), Nat.add_sub_cancel_left]
    rfl

/-- Numbers of the process that runs are counted on from those of the processes before. -/
theorem overall_mono {found : ℕ} (hfound : found ≤ l.ended.length) :
    Monotone (l.overall found) := by
  intro i k hik
  cases i with
  | zero =>
    cases k with
    | zero => exact le_rfl
    | succ k => exact hfound.trans (Nat.le_add_right _ _)
  | succ i =>
    cases k with
    | zero => omega
    | succ k => exact Nat.add_le_add_left hik _

/-- A number of the process that runs, if it is not the one for what it has found. -/
theorem le_overall (found : ℕ) {k i : ℕ} (hpos : 0 < k) (hki : k ≤ i) :
    l.ended.length + k ≤ l.overall found i := by
  cases i with
  | zero => omega
  | succ i => exact Nat.add_le_add_left hki _

theorem Sound.isSave (h : l.Sound raft₀ snap₀) (hpos : 0 < l.snapshotCall) :
    ∃ c ∈ l.history.calls[l.snapshotCall - 1]?, c.snapshot.isSome := by
  have hsave := h.tracked.consistent.isSave
  have hfound := h.foundSnapshot_le
  unfold snapshotCall at hpos ⊢
  unfold history CallHistory.calls
  dsimp only
  cases hj : l.tracked.snapshotCall with
  | zero =>
    rw [hj] at hpos
    change 0 < l.foundSnapshot at hpos
    show ∃ c ∈ (l.ended ++ l.tracked.calls)[l.foundSnapshot - 1]?, _
    rw [List.getElem?_append_left (by omega)]
    exact h.foundSave hpos
  | succ j =>
    rw [hj] at hsave
    show ∃ c ∈ (l.ended ++ l.tracked.calls)[l.ended.length + j]?, _
    rw [List.getElem?_append_right (by omega), Nat.add_sub_cancel_left]
    exact hsave (Nat.succ_pos j)

theorem Sound.onFile (h : l.Sound raft₀ snap₀) :
    OnFile raft₀ snap₀ l.history l.tracked.process l.raftCall l.snapshotCall := by
  have hord := h.tracked
  constructor
  case raftFile =>
    rw [hord.raftFile, raftData_overall h.foundRaft_le]
    rfl
  case snapshotFile =>
    rw [hord.snapshotFile, snapshotData_overall h.foundSnapshot_le]
    rfl
  case issued => exact overall_le _ h.foundRaft_le hord.consistent.issued
  case isSave => exact h.isSave
  case flushed => exact fun seq hseq hpos => le_overall _ hpos (hseq.trans hord.flushed)
  case flushedSave =>
    intro seq hseq hpos
    refine le_overall _ hpos (le_trans ?_ hord.snapshot_ge)
    exact lastSave_mono _ (hseq.trans hord.flushed)

/-- A process that has just been started. -/
theorem tracked_create (raftFile snapshotFile : AtomicFile) :
    (Tracked.create raftFile snapshotFile).Ordered raftFile.contents snapshotFile.contents :=
  Tracked.ordered_exec raftFile snapshotFile fun _ ha => absurd ha List.not_mem_nil

theorem sound_create (raftFile snapshotFile : AtomicFile) :
    (create raftFile snapshotFile).Sound raftFile.contents snapshotFile.contents where
  tracked := tracked_create raftFile snapshotFile
  foundRaft_le := le_rfl
  foundSnapshot_le := le_rfl
  foundSave := fun hpos => absurd hpos (Nat.lt_irrefl 0)

/-- The next process starts where the files are. -/
theorem Sound.crash (h : l.Sound raft₀ snap₀) : (l.step .crash).Sound raft₀ snap₀ := by
  have hfile := h.onFile
  refine ⟨?_, hfile.issued, ?_, hfile.isSave⟩
  · show Tracked.Ordered (raftData raft₀ l.history.calls l.raftCall)
      (snapshotData snap₀ l.history.calls l.snapshotCall) _
    rw [← hfile.raftFile, ← hfile.snapshotFile]
    exact tracked_create _ _
  · exact overall_le _ h.foundSnapshot_le (h.tracked.snapshotCall_le.trans h.tracked.goal_le)

theorem Sound.step (h : l.Sound raft₀ snap₀) {a : LifetimeAct} (ha : a.succeeds) :
    (l.step a).Sound raft₀ snap₀ := by
  cases a with
  | act a =>
    exact { h with
      tracked := h.tracked.step (PersisterProcess.writeFails_of_succeeds _ ha) }
  | crash => exact h.crash

/-- Neither file goes back, and the end of a process leaves both as they are. -/
theorem Sound.mono (h : l.Sound raft₀ snap₀) (a : LifetimeAct) :
    l.raftCall ≤ (l.step a).raftCall ∧ l.snapshotCall ≤ (l.step a).snapshotCall := by
  cases a with
  | act a =>
    exact ⟨overall_mono h.foundRaft_le (h.tracked.raftCall_le_step a),
      overall_mono h.foundSnapshot_le (h.tracked.snapshotCall_le_step a)⟩
  | crash => exact ⟨le_rfl, le_rfl⟩

theorem sound_exec (raftFile snapshotFile : AtomicFile) {as : List LifetimeAct}
    (hio : ∀ a ∈ as, a.succeeds) :
    (exec raftFile snapshotFile as).Sound raftFile.contents snapshotFile.contents := by
  induction as using List.reverseRecOn with
  | nil => exact sound_create raftFile snapshotFile
  | append_singleton as a ih =>
    rw [exec_snoc]
    refine (ih fun b hb => hio b (List.mem_append_left _ hb)).step (hio a ?_)
    exact List.mem_append_right _ (List.mem_singleton_self a)

/-- A number that no step lowers does not go back in a schedule. -/
theorem monotone_exec {raftFile snapshotFile : AtomicFile} {as : List LifetimeAct} {f : Lifetimes → ℕ}
    (hstep : ∀ t a, f (exec raftFile snapshotFile (as.take t)) ≤
      f ((exec raftFile snapshotFile (as.take t)).step a)) :
    Monotone fun t => f (exec raftFile snapshotFile (as.take t)) := by
  refine monotone_nat_of_le_succ fun t => ?_
  rcases lt_or_ge t as.length with hlt | hge
  · have hsnoc := exec_snoc raftFile snapshotFile (as.take t) as[t]
    rw [List.take_append_getElem hlt] at hsnoc
    rw [hsnoc]
    exact hstep t as[t]
  · rw [List.take_of_length_le hge, List.take_of_length_le (by omega)]

end Lifetimes

/-- In every schedule without failing writes, with the process ended and started again at any
    points of it: at every time the files are at two calls, neither goes back, and both are at
    least at what a process has flushed; so they stay there in all processes that follow. -/
theorem flushed_calls_last (raftFile snapshotFile : AtomicFile) (as : List LifetimeAct)
    (hio : ∀ a ∈ as, a.succeeds) :
    ∃ raftCall snapshotCall : ℕ → ℕ, Monotone raftCall ∧ Monotone snapshotCall ∧ ∀ t,
      OnFile raftFile.contents snapshotFile.contents (callHistory (as.take t))
        (PersisterProcess.execLifetimes raftFile snapshotFile (as.take t)) (raftCall t)
        (snapshotCall t) := by
  have hsound : ∀ t, (Lifetimes.exec raftFile snapshotFile (as.take t)).Sound raftFile.contents
      snapshotFile.contents := fun t =>
    Lifetimes.sound_exec raftFile snapshotFile fun a ha => hio a (List.mem_of_mem_take ha)
  refine ⟨fun t => (Lifetimes.exec raftFile snapshotFile (as.take t)).raftCall,
    fun t => (Lifetimes.exec raftFile snapshotFile (as.take t)).snapshotCall,
    Lifetimes.monotone_exec fun t a => ((hsound t).mono a).1,
    Lifetimes.monotone_exec fun t a => ((hsound t).mono a).2, fun t => ?_⟩
  obtain ⟨hprocess, hhistory⟩ := Lifetimes.exec_process raftFile snapshotFile (as.take t)
  rw [← hprocess, ← hhistory]
  exact (hsound t).onFile

/-- A snapshot is saved and flushed; the process ends while the state of a later call is being
    written, and the next one ends before it has written anything. -/
def crashingRun : List LifetimeAct :=
  .act (.save [1] [2]) :: List.replicate 10 (.act (.work (.moves 1))) ++
    [.act (.saveRaftState [3]), .act (.work (.moves 1)), .act (.work (.moves 1)), .crash,
      .act (.save [4] [5]), .act (.work (.moves 1)), .crash]

theorem flushed_calls_last_crashingRun :
    ∃ raftCall snapshotCall : ℕ → ℕ, Monotone raftCall ∧ Monotone snapshotCall ∧ ∀ t,
      OnFile none none (callHistory (crashingRun.take t))
        (PersisterProcess.execLifetimes ⟨none, none⟩ ⟨none, none⟩ (crashingRun.take t)) (raftCall t)
        (snapshotCall t) :=
  flushed_calls_last ⟨none, none⟩ ⟨none, none⟩ crashingRun (by decide)

example : (PersisterProcess.execLifetimes ⟨none, none⟩ ⟨none, none⟩ crashingRun).raftState = [1] ∧
    (PersisterProcess.execLifetimes ⟨none, none⟩ ⟨none, none⟩ crashingRun).snapshot = [2] := by
  decide

end MyKvRaft
