import MyKvRaft.Append.Contract
import MyKvRaft.Snapshot.Install

/-!
# What a snapshot does to the log behind it

The log is addressed from the snapshot point on. `InstallSnapshot1` moves the snapshot
point and leaves `m_logs` as it is, so every entry moves with it, also those the snapshot
covers.

* `Shifted`: every entry is found as far up as the snapshot point has moved.
* `suffix_kept`: so the last index is never what it was.
-/

namespace MyKvRaft

open Raft

variable {N : ℕ}

namespace Raft

/-- The term and the command found at an index. -/
def contentAt (rf : Raft N) (index : ℤ) : Option (ℤ × Bytes) :=
  (rf.entryAt index).map fun e => (e.logterm, e.command)

/-- Behind `snapIndex` the logs have the same entries, and they end at the same index. -/
structure SameSuffix (rf rf' : Raft N) (snapIndex : ℤ) : Prop where
  last : rf'.getLastLogIndex = rf.getLastLogIndex
  content : ∀ index : ℤ, snapIndex < index → index ≤ rf.getLastLogIndex →
    rf'.contentAt index = rf.contentAt index

/-- The snapshot is newer than the node's, and the node has its last entry. -/
structure CoversPrefix (rf : Raft N) (request : InstallSnapshotRequest) : Prop where
  term : rf.currentTerm ≤ request.term
  newer : rf.lastSnapshotIncludeIndex < request.lastsnapshotincludeindex
  entry : ∃ e, rf.entryAt request.lastsnapshotincludeindex = some e ∧
    e.logterm = request.lastsnapshotincludeterm

/-- `rf'` has the entries of `rf` `distance` further up. -/
structure Shifted (rf rf' : Raft N) (distance : ℤ) : Prop where
  base : rf'.lastSnapshotIncludeIndex = rf.lastSnapshotIncludeIndex + distance
  last : rf'.getLastLogIndex = rf.getLastLogIndex + distance
  entry : ∀ index : ℤ, rf'.entryAt (index + distance) = rf.entryAt index

variable {rf rf' : Raft N} {request : InstallSnapshotRequest}

/-- The entries alone move with the snapshot point. -/
theorem shifted_of_logs (hlogs : rf'.logs = rf.logs) : Shifted rf rf'
    (rf'.lastSnapshotIncludeIndex - rf.lastSnapshotIncludeIndex) := by
  refine ⟨by omega, ?_, fun index => ?_⟩
  · unfold getLastLogIndex
    rw [hlogs]
    omega
  · by_cases hle : index ≤ rf.lastSnapshotIncludeIndex
    · rw [entryAt_of_le hle, entryAt_of_le (by omega)]
    · obtain ⟨k, rfl⟩ := exists_position (not_le.mp hle)
      have hindex : rf.lastSnapshotIncludeIndex + k + 1 +
          (rf'.lastSnapshotIncludeIndex - rf.lastSnapshotIncludeIndex) =
          rf'.lastSnapshotIncludeIndex + k + 1 := by omega
      rw [hindex, entryAt_position, entryAt_position, hlogs]

/-- `InstallSnapshot1` does not touch the entries. -/
theorem installSnapshot1_logs (rf : Raft N) (request : InstallSnapshotRequest) :
    (rf.installSnapshot1 request).1.logs = rf.logs := by
  unfold installSnapshot1
  dsimp only
  split_ifs <;> rfl

theorem CoversPrefix.shifted (h : rf.CoversPrefix request) :
    Shifted rf (rf.installSnapshot1 request).1
      (request.lastsnapshotincludeindex - rf.lastSnapshotIncludeIndex) := by
  have hnewer := h.newer
  have hbase : (rf.installSnapshot1 request).1.lastSnapshotIncludeIndex =
      request.lastsnapshotincludeindex := by
    rcases rf.installSnapshot1_cases request with ⟨hlt, _⟩ | ⟨_, hdone, _⟩
    · have := h.term
      omega
    · rw [hdone.base]
      omega
  rw [← hbase]
  exact shifted_of_logs (rf.installSnapshot1_logs request)

end Raft

/-- For every node and every snapshot that is newer than its own and whose last entry it has:
    `InstallSnapshot1` does not keep the log behind the snapshot. The last index grows by as
    much as the snapshot point moves, and every entry is found so much further up. -/
theorem suffix_kept (rf : Raft N) (request : InstallSnapshotRequest)
    (h : rf.CoversPrefix request) :
    ¬ rf.SameSuffix (rf.installSnapshot1 request).1 request.lastsnapshotincludeindex ∧
      (rf.installSnapshot1 request).1.getLastLogIndex = rf.getLastLogIndex +
        (request.lastsnapshotincludeindex - rf.lastSnapshotIncludeIndex) ∧
      ∀ index : ℤ, (rf.installSnapshot1 request).1.contentAt
        (index + (request.lastsnapshotincludeindex - rf.lastSnapshotIncludeIndex)) =
          rf.contentAt index := by
  have hshift := h.shifted
  have hnewer := h.newer
  refine ⟨fun hsame => ?_, hshift.last, fun index => ?_⟩
  · have hlast := hshift.last
    rw [hsame.last] at hlast
    omega
  · unfold contentAt
    rw [hshift.entry]

/-- A node with the entries 1 to 3 of term 1. -/
def threeEntries : Raft 3 :=
  Raft.init 0 (Persister.create (some ⟨1, -1, 0, 0, [⟨1, [1]⟩, ⟨1, [2]⟩, ⟨1, [3]⟩]⟩) none)

/-- It is given a snapshot up to its entry 2. -/
theorem suffix_kept_threeEntries :
    (threeEntries.installSnapshot1 (snapshotTo 2 [7])).1.getLastLogIndex = 5 := by
  have hcovers : threeEntries.CoversPrefix (snapshotTo 2 [7]) :=
    ⟨by decide, by decide, ⟨[2], 1, 2⟩, by decide, by decide⟩
  rw [(suffix_kept threeEntries (snapshotTo 2 [7]) hcovers).2.1]
  decide

/-- Entry 3 is found at index 5, and at index 3 is what was entry 1. -/
theorem suffix_kept_fails : ∃ (rf : Raft 3) (request : InstallSnapshotRequest),
    rf.CoversPrefix request ∧ rf.getLastLogIndex = 3 ∧
      request.lastsnapshotincludeindex = 2 ∧ rf.contentAt 3 = some (1, [3]) ∧
      (rf.installSnapshot1 request).1.getLastLogIndex = 5 ∧
      (rf.installSnapshot1 request).1.contentAt 3 = some (1, [1]) := by
  refine ⟨threeEntries, snapshotTo 2 [7], ⟨by decide, by decide, ⟨[2], 1, 2⟩, by decide, by decide⟩,
    by decide, by decide, by decide, by decide, by decide⟩

end MyKvRaft
