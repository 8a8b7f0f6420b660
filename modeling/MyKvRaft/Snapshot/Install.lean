import MyKvRaft.Safety.Persistence

/-!
# Snapshots that arrive

`InstallSnapshot1` moves the snapshot point only for a snapshot that reaches further, but it
hands the data of every request that passes the term check to `Save`. A request that has been
overtaken by a later one so replaces the later data and leaves the later index.

* `installSnapshot1_cases`: a request is refused, or everything it changes is `Installed`.
* `snapshot_data_matches`: in every sequence of requests without an overtaken one, the data
  is that of a request with the snapshot point's index.
* `snapshot_data_matches_fails`: an overtaken request breaks it.
-/

namespace MyKvRaft

open Transition Raft

variable {N : ℕ}

/-- `Save` followed by `WaitFlushed`: both copies of the snapshot are the call's data. -/
theorem Persister.persistAll_snapshot (p : Persister) (data : PersistRaftNode) (sn : Bytes) :
    ((p.save data sn).1.waitFlushed (p.save data sn).2).snapshot = sn ∧
      ((p.save data sn).1.waitFlushed (p.save data sn).2).snapshotFile = some sn := by
  simp only [save, waitFlushed, p.not_flushed, if_false, workLoop, if_true, and_self]

namespace Raft

/-- What a request that passes the term check does to a node. -/
structure Installed (rf : Raft N) (request : InstallSnapshotRequest) (rf' : Raft N) : Prop where
  currentTerm : rf'.currentTerm = request.term
  base : rf'.lastSnapshotIncludeIndex =
    max rf.lastSnapshotIncludeIndex request.lastsnapshotincludeindex
  lastApplied : rf'.lastApplied =
    if request.lastsnapshotincludeindex > rf.lastSnapshotIncludeIndex then
      max rf.lastApplied request.lastsnapshotincludeindex
    else rf.lastApplied
  snapshot : rf'.persister.snapshot = request.snapshotdata
  snapshotFile : rf'.persister.snapshotFile = some request.snapshotdata

/-- `InstallSnapshot1` refuses a request of an earlier term, and takes over the others. -/
theorem installSnapshot1_cases (rf : Raft N) (request : InstallSnapshotRequest) :
    (request.term < rf.currentTerm ∧
      rf.installSnapshot1 request = (rf, ⟨rf.currentTerm⟩)) ∨
    (rf.currentTerm ≤ request.term ∧ Installed rf request (rf.installSnapshot1 request).1 ∧
      (rf.installSnapshot1 request).2.term = request.term) := by
  by_cases hlt : request.term < rf.currentTerm
  · left
    unfold installSnapshot1
    exact ⟨hlt, if_pos hlt⟩
  · right
    unfold installSnapshot1
    rw [if_neg hlt]
    -- the node after the term check, and then with the snapshot point moved
    set rf₁ := if request.term > rf.currentTerm then persist (rf.stepDown request.term) else rf
      with hrf₁
    set rf₂ := if request.lastsnapshotincludeindex > rf₁.lastSnapshotIncludeIndex then
      { rf₁ with
        lastSnapshotIncludeIndex := request.lastsnapshotincludeindex
        lastSnapshotIncludeTerm := request.lastsnapshotincludeterm
        commitIndex := max rf₁.commitIndex request.lastsnapshotincludeindex
        lastApplied := max rf₁.lastApplied request.lastsnapshotincludeindex } else rf₁ with hrf₂
    have hterm : rf₁.currentTerm = request.term := by
      rw [hrf₁]
      split_ifs
      · rfl
      · omega
    have hbase : rf₁.lastSnapshotIncludeIndex = rf.lastSnapshotIncludeIndex := by
      rw [hrf₁]
      split_ifs <;> rfl
    have hlast : rf₁.lastApplied = rf.lastApplied := by
      rw [hrf₁]
      split_ifs <;> rfl
    have hterm₂ : rf₂.currentTerm = request.term := by
      rw [hrf₂]
      split_ifs <;> exact hterm
    have hsave := rf₂.persister.persistAll_snapshot rf₂.persistDate request.snapshotdata
    refine ⟨by omega, ⟨hterm₂, ?_, ?_, hsave.1, hsave.2⟩, hterm₂⟩
    · show rf₂.lastSnapshotIncludeIndex = _
      rw [hrf₂, ← hbase]
      split_ifs with hnew
      · exact (max_eq_right hnew.le).symm
      · exact (max_eq_left (not_lt.mp hnew)).symm
    · show rf₂.lastApplied = _
      rw [hrf₂, ← hbase, ← hlast]
      split_ifs <;> rfl

/-- The snapshot point never goes back. -/
theorem installSnapshot1_base_le (rf : Raft N) (request : InstallSnapshotRequest) :
    rf.lastSnapshotIncludeIndex ≤ (rf.installSnapshot1 request).1.lastSnapshotIncludeIndex := by
  rcases rf.installSnapshot1_cases request with ⟨_, heq⟩ | ⟨_, hdone, _⟩
  · rw [heq]
  · rw [hdone.base]
    exact le_max_left _ _

/-! ## Sequences of requests -/

/-- The node after it has handled the request. -/
def afterInstall (rf : Raft N) (request : InstallSnapshotRequest) : Raft N :=
  (rf.installSnapshot1 request).1

/-- A request that passes the term check reaches the snapshot point, if there is one. -/
def NotOvertaken (rf : Raft N) (request : InstallSnapshotRequest) : Prop :=
  rf.currentTerm ≤ request.term → 0 < rf.lastSnapshotIncludeIndex →
    rf.lastSnapshotIncludeIndex ≤ request.lastsnapshotincludeindex

instance (rf : Raft N) (request : InstallSnapshotRequest) : Decidable (rf.NotOvertaken request) :=
  inferInstanceAs (Decidable (_ → _ → _))

/-- If there is a snapshot, its data is that of a request with its index, in memory and on disk. -/
def HoldsSnapshot (h : List (Raft N × InstallSnapshotRequest)) (rf : Raft N) : Prop :=
  0 < rf.lastSnapshotIncludeIndex → ∃ x ∈ h,
    x.2.lastsnapshotincludeindex = rf.lastSnapshotIncludeIndex ∧
      rf.persister.snapshot = x.2.snapshotdata ∧
      rf.persister.snapshotFile = some x.2.snapshotdata

variable {rf : Raft N} {request : InstallSnapshotRequest}
  {h : List (Raft N × InstallSnapshotRequest)}

theorem HoldsSnapshot.step (hold : HoldsSnapshot h rf) (hok : rf.NotOvertaken request) :
    HoldsSnapshot (h ++ [(rf, request)]) (rf.afterInstall request) := by
  unfold afterInstall
  rcases rf.installSnapshot1_cases request with ⟨_, heq⟩ | ⟨hle, hdone, _⟩
  · rw [heq]
    intro hpos
    obtain ⟨x, hx, hrest⟩ := hold hpos
    exact ⟨x, List.mem_append_left _ hx, hrest⟩
  · intro hpos
    refine ⟨(rf, request), List.mem_append_right _ List.mem_cons_self, ?_, hdone.snapshot,
      hdone.snapshotFile⟩
    -- the request reaches the snapshot point, so it is the new one
    have hreach := hok hle
    have hbase := hdone.base
    dsimp only
    omega

end Raft

/-- In every sequence of requests, in any order and with any terms and indices, of which none
    that passes the term check is behind the snapshot point, the snapshot of a node that started
    without one is that of a request with the index of the snapshot point. -/
theorem snapshot_data_matches (rf₀ rf : Raft N) (h0 : rf₀.lastSnapshotIncludeIndex = 0)
    (h : List (Raft N × InstallSnapshotRequest))
    (hr : Run afterInstall NotOvertaken rf₀ h rf) : HoldsSnapshot h rf := by
  induction hr with
  | nil =>
    intro hpos
    omega
  | snoc _ hok ih => exact ih.step hok

/-- Snapshots up to index 3 and up to index 5, of the leader of term 1. -/
def snapshotTo (index : ℤ) (data : Bytes) : InstallSnapshotRequest := ⟨1, 1, index, 1, data⟩

/-- A node without snapshot. -/
def fresh : Raft 3 := Raft.init 0 (Persister.create none none)

theorem snapshot_data_matches_inOrder :
    HoldsSnapshot (history afterInstall fresh [snapshotTo 3 [7], snapshotTo 5 [8]])
      ([snapshotTo 3 [7], snapshotTo 5 [8]].foldl afterInstall fresh) :=
  snapshot_data_matches fresh _ rfl _ (run_history _ (by decide))

/-- The first request arrives after the second one: the snapshot point is 5, the data that of
    index 3. -/
theorem snapshot_data_matches_fails : ∃ (rf₀ rf : Raft 3)
    (h : List (Raft 3 × InstallSnapshotRequest)), rf₀.lastSnapshotIncludeIndex = 0 ∧
      Run afterInstall anyStep rf₀ h rf ∧ 0 < rf.lastSnapshotIncludeIndex ∧
      ∀ x ∈ h, x.2.lastsnapshotincludeindex = rf.lastSnapshotIncludeIndex →
        rf.persister.snapshot ≠ x.2.snapshotdata := by
  refine ⟨fresh, _, _, rfl, run_history [snapshotTo 5 [8], snapshotTo 3 [7]] fun _ _ => trivial,
    by decide, by decide⟩

end MyKvRaft
