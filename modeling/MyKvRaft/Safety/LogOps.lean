import MyKvRaft.Common.Splice
import MyKvRaft.Consensus.TermLog
import MyKvRaft.Safety.Calls
import MyKvRaft.Safety.Voting

/-!
# The log of a node without snapshot

A cluster that starts with empty files never takes a snapshot, so log index `k` is
position `k - 1` of `m_logs`. Here the functions that address the log are read in
these terms. The entry loop of `AppendEntries1` is summed up for any snapshot point:

* `foldlM_appendEntry_logs`: the loop writes the entries over the log from
  `prevlogindex` on and keeps everything behind them.
* `matchLog_iff`, `uptodata_iff`: the two checks made before.
-/

namespace MyKvRaft

open Consensus Raft Splice

variable {N : ℕ}

/-- The term of the `k`-th entry, with 0 for `k = 0` and -1 past the end. -/
def termAt (l : List LogEntry) (k : ℕ) : ℤ :=
  if k = 0 then 0 else (l[k - 1]?.map (·.logterm)).getD (-1)

theorem termAt_succ (l : List LogEntry) (k : ℕ) :
    termAt l (k + 1) = (l[k]?.map (·.logterm)).getD (-1) := by
  simp [termAt]

theorem slot_natCast (l : List LogEntry) (k : ℕ) : slot l (k : ℤ) = l[k]? := by
  simp [slot]

namespace Raft

/-- The entry at a log index. -/
def entryAt (rf : Raft N) (index : ℤ) : Option LogEntry :=
  slot rf.logs (rf.getSlicesIndexFromLogIndex index)

namespace NoSnapshot

variable {rf : Raft N}

theorem getLastLogIndex (h : NoSnapshot rf) : rf.getLastLogIndex = rf.logs.length := by
  simp [Raft.getLastLogIndex, h.index]

/-- The entry at log index `k + 1`. -/
theorem slot_succ (h : NoSnapshot rf) (k : ℕ) :
    slot rf.logs (rf.getSlicesIndexFromLogIndex (k + 1)) = rf.logs[k]? := by
  have : rf.getSlicesIndexFromLogIndex (k + 1) = k := by
    unfold getSlicesIndexFromLogIndex
    rw [h.index, if_neg (by omega)]
    omega
  rw [this, slot_natCast]

theorem entryAt_succ (h : NoSnapshot rf) (k : ℕ) : rf.entryAt (k + 1) = rf.logs[k]? :=
  h.slot_succ k

theorem entryAt_eq (h : NoSnapshot rf) {index : ℤ} {e : LogEntry}
    (he : rf.entryAt index = some e) : ∃ k : ℕ, index = k + 1 ∧ rf.logs[k]? = some e := by
  by_cases hpos : index ≤ 0
  · have : rf.getSlicesIndexFromLogIndex index = -1 := by
      unfold getSlicesIndexFromLogIndex
      rw [h.index, if_pos hpos]
    unfold entryAt slot at he
    rw [this] at he
    cases he
  · obtain ⟨k, rfl⟩ : ∃ k : ℕ, index = k + 1 := ⟨(index - 1).toNat, by omega⟩
    exact ⟨k, rfl, by rwa [h.entryAt_succ] at he⟩

theorem getLogTermFromLogIndex (h : NoSnapshot rf) (k : ℕ) :
    rf.getLogTermFromLogIndex k = termAt rf.logs k := by
  unfold Raft.getLogTermFromLogIndex
  rw [h.index, h.term]
  cases k with
  | zero => simp [termAt]
  | succ k =>
    rw [if_neg (by omega), if_neg (by omega), termAt_succ]
    push_cast
    rw [h.slot_succ]
    cases rf.logs[k]? <;> rfl

theorem matchLog_iff (h : NoSnapshot rf) {k : ℕ} {term : ℤ} :
    rf.matchLog k term = true ↔ k ≤ rf.logs.length ∧ termAt rf.logs k = term := by
  unfold Raft.matchLog
  rw [h.getLastLogIndex, h.index, h.term]
  cases k with
  | zero => simp [termAt, eq_comm]
  | succ k =>
    push_cast
    rw [if_neg (by omega), termAt_succ, h.slot_succ]
    by_cases hk : k < rf.logs.length
    · rw [if_neg (by omega), List.getElem?_eq_getElem hk]
      simp
      omega
    · rw [if_pos (by omega)]
      simp
      omega

theorem getLastLogTerm (h : NoSnapshot rf) (hterm : ∀ e ∈ rf.logs, 0 ≤ e.logterm) :
    rf.getLastLogTerm = lastTerm rf.logs := by
  unfold Raft.getLastLogTerm lastTerm
  rw [h.term]
  cases hl : rf.logs.getLast? with
  | none => rfl
  | some e =>
    have := hterm e (List.mem_of_getLast? hl)
    simp [termOf, Int.toNat_of_nonneg this]

/-- `UPtodata`, with the candidate's log described by its length and last term. -/
theorem uptodata_iff (h : NoSnapshot rf) (hterm : ∀ e ∈ rf.logs, 0 ≤ e.logterm)
    {l : List LogEntry} {index term : ℤ} (hindex : index = l.length) (hlast : term = lastTerm l) :
    rf.uptodata index term = true ↔ UpToDate l rf.logs := by
  unfold Raft.uptodata UpToDate
  rw [h.getLastLogTerm hterm, h.getLastLogIndex, hindex, hlast]
  split_ifs with hne
  · simp
    omega
  · simp
    omega

end NoSnapshot

/-! ## The entry loop -/

/-- One entry at its place: it is appended, or written over the entry that is there. -/
theorem appendEntry_logs {rf rf' : Raft N} {e : LogEntry} {k : ℕ} (hk : k ≤ rf.logs.length)
    (hindex : e.logindex = rf.lastSnapshotIncludeIndex + k + 1)
    (hsame : ∀ l, rf.logs[k]? = some l → l.logterm = e.logterm → l.command = e.command → l = e)
    (hres : rf.appendEntry e = some rf') : rf'.logs = splice rf.logs k [e] := by
  unfold appendEntry at hres
  rw [Raft.getLastLogIndex, hindex] at hres
  unfold splice
  by_cases hend : rf.lastSnapshotIncludeIndex + k + 1 > rf.lastSnapshotIncludeIndex + rf.logs.length
  · rw [if_pos hend] at hres
    cases hres
    have hlen : rf.logs.length = k := by omega
    rw [← hlen, List.take_length, List.drop_of_length_le (by simp), List.append_nil]
  · rw [if_neg hend] at hres
    have hlt : k < rf.logs.length := by omega
    have hsl : rf.getSlicesIndexFromLogIndex (rf.lastSnapshotIncludeIndex + k + 1) = k := by
      unfold getSlicesIndexFromLogIndex
      rw [if_neg (by omega)]
      omega
    dsimp only at hres
    rw [hsl, slot_natCast, List.getElem?_eq_getElem hlt] at hres
    dsimp only at hres
    rw [myAssert_eq_some] at hres
    obtain ⟨hassert, hres⟩ := hres
    split_ifs at hres with hterm
    · cases hres
      simp only [Int.toNat_natCast]
      rw [List.set_eq_take_append_cons_drop, if_pos hlt]
      simp
    · -- the same term: the assertion says that the command is the same too
      cases hres
      have hterm' : rf.logs[k].logterm = e.logterm := not_not.mp hterm
      have hcommand : rf.logs[k].command = e.command := by
        by_contra hne
        exact hassert ⟨hterm', hne⟩
      have heq := hsame _ (List.getElem?_eq_getElem hlt) hterm' hcommand
      rw [← heq, List.append_assoc, List.singleton_append, List.length_singleton,
        List.cons_getElem_drop_succ, List.take_append_drop]

/-- The loop writes the entries, which are to stand from position `k` on, over the log; where
    term and command are the same, so is the entry. -/
theorem foldlM_appendEntry_logs {entries : List LogEntry} {rf rf' : Raft N} {k : ℕ}
    (hk : k ≤ rf.logs.length)
    (hindex : ∀ (j : ℕ) (e : LogEntry), entries[j]? = some e →
      e.logindex = rf.lastSnapshotIncludeIndex + k + j + 1)
    (hsame : ∀ j e l, entries[j]? = some e → rf.logs[k + j]? = some l → l.logterm = e.logterm →
      l.command = e.command → l = e)
    (hres : entries.foldlM appendEntry rf = some rf') : rf'.logs = splice rf.logs k entries := by
  induction entries generalizing rf k with
  | nil =>
    simp only [List.foldlM_nil, Option.pure_def, Option.some.injEq] at hres
    subst hres
    simp
  | cons e es ih =>
    rw [List.foldlM_cons, Option.bind_eq_bind, Option.bind_eq_some_iff] at hres
    obtain ⟨rf₁, h1, h2⟩ := hres
    have hlogs : rf₁.logs = splice rf.logs k [e] :=
      appendEntry_logs hk (by simpa using hindex 0 e rfl)
        (fun l hl => hsame 0 e l rfl (by simpa using hl)) h1
    have hbase : rf₁.lastSnapshotIncludeIndex = rf.lastSnapshotIncludeIndex := by
      rw [appendEntry_eq h1]
    have hk' : k + 1 ≤ rf₁.logs.length := by
      rw [hlogs, length_splice hk]
      simp
    have := ih hk'
      (fun j x hx => by
        have := hindex (j + 1) x (by simpa using hx)
        push_cast at this ⊢
        omega)
      (fun j x l hx hl hterm => by
        -- behind the entry the log is as before
        rw [hlogs, getElem?_splice_ge hk (by simp)] at hl
        exact hsame (j + 1) x l (by simpa using hx)
          (by rw [← hl]; congr 1; omega) hterm)
      h2
    rw [this, hlogs, splice_cons hk]

end Raft

end MyKvRaft
