import MyKvRaft.Safety.Replication

/-!
# What one `AppendEntries` request does

The log of a node whose indices count up from its snapshot point, read by index, and
`AppendEntries1` on it. Nothing is assumed of where the request comes from but that its
entries are numbered from `prevlogindex + 1` on.

* `accepted_iff`: which requests the node answers with success.
* `Accepted`: what an accepted request makes of the log.
* `append_entries_contract`: both, with what a rejected request leaves alone.
-/

namespace MyKvRaft

open Raft Splice

variable {N : ℕ}

/-- The indices of the log count up from the snapshot point. -/
def Raft.Contiguous (rf : Raft N) : Prop :=
  ∀ (k : ℕ) (e : LogEntry), rf.logs[k]? = some e →
    e.logindex = rf.lastSnapshotIncludeIndex + k + 1

/-- The entries of the request are numbered from `prevlogindex + 1` on. -/
def AppendEntriesArgs.Consecutive (args : AppendEntriesArgs) : Prop :=
  ∀ (j : ℕ) (e : LogEntry), args.entries[j]? = some e → e.logindex = args.prevlogindex + j + 1

theorem consecutive_iff (args : AppendEntriesArgs) : args.Consecutive ↔
    ∀ x ∈ args.entries.zipIdx, x.1.logindex = args.prevlogindex + x.2 + 1 := by
  simp only [AppendEntriesArgs.Consecutive, Prod.forall, List.mk_mem_zipIdx_iff_getElem?]
  exact forall_comm

instance (args : AppendEntriesArgs) : Decidable args.Consecutive :=
  decidable_of_iff _ (consecutive_iff args).symm

namespace Raft

variable {rf rf' : Raft N} {args : AppendEntriesArgs} {reply : AppendEntriesReply}

/-! ## Numbering -/

theorem contiguous_congr (hlogs : rf'.logs = rf.logs)
    (hbase : rf'.lastSnapshotIncludeIndex = rf.lastSnapshotIncludeIndex) :
    rf'.Contiguous ↔ rf.Contiguous := by
  unfold Contiguous
  rw [hlogs, hbase]

/-- `readPersist` numbers the entries by position. -/
theorem getElem?_restoreLogs (index : ℤ) (logs : List PersistLogEntry) (k : ℕ) :
    (restoreLogs index logs)[k]? =
      logs[k]?.map fun plog => ⟨plog.command, plog.term, index + k + 1⟩ := by
  induction logs generalizing index k with
  | nil => rfl
  | cons plog rest ih =>
    cases k with
    | zero => simp [restoreLogs]
    | succ k =>
      rw [restoreLogs, List.getElem?_cons_succ, List.getElem?_cons_succ, ih]
      congr 1
      funext plog
      rw [LogEntry.mk.injEq]
      refine ⟨rfl, rfl, ?_⟩
      push_cast
      ring

/-- What is stored of a log, numbered again, is the log if and only if its indices count up. -/
theorem restoreLogs_eq_iff (rf : Raft N) :
    restoreLogs rf.lastSnapshotIncludeIndex rf.persistDate.logs = rf.logs ↔ rf.Contiguous := by
  have hrestored : ∀ k : ℕ,
      (restoreLogs rf.lastSnapshotIncludeIndex rf.persistDate.logs)[k]? = rf.logs[k]?.map
        fun e => { e with logindex := rf.lastSnapshotIncludeIndex + k + 1 } := by
    intro k
    rw [getElem?_restoreLogs, persistDate, List.getElem?_map, Option.map_map]
    rfl
  constructor
  · intro h k e he
    have := hrestored k
    rw [h, he] at this
    exact congrArg LogEntry.logindex (Option.some.inj this)
  · intro h
    refine List.ext_getElem? fun k => ?_
    rw [hrestored]
    cases he : rf.logs[k]? with
    | none => rfl
    | some e =>
      rw [Option.map_some, ← h k e he]

theorem readPersist_persistDate_iff (rf : Raft N) :
    (rf.readPersist (some rf.persistDate)).logs = rf.logs ↔ rf.Contiguous := restoreLogs_eq_iff rf

/-- A process that starts numbers its log from the snapshot point on. -/
theorem contiguous_init (me : Fin N) (p : Persister) : (init me p).Contiguous := by
  have hdate := init_persistDate me p
  rw [← restoreLogs_eq_iff, hdate, init_logs]
  congr 1
  exact congrArg PersistRaftNode.lastSnapshotIncludeIndex hdate

/-! ## The log by index -/

theorem entryAt_position (rf : Raft N) (k : ℕ) :
    rf.entryAt (rf.lastSnapshotIncludeIndex + k + 1) = rf.logs[k]? := by
  have hslice : rf.getSlicesIndexFromLogIndex (rf.lastSnapshotIncludeIndex + k + 1) = k := by
    unfold getSlicesIndexFromLogIndex
    rw [if_neg (by omega)]
    omega
  unfold entryAt
  rw [hslice, slot_natCast]

theorem entryAt_of_le {index : ℤ} (h : index ≤ rf.lastSnapshotIncludeIndex) :
    rf.entryAt index = none := by
  unfold entryAt getSlicesIndexFromLogIndex
  rw [if_pos h]
  rfl

/-- An index above the snapshot point is a position of the log. -/
theorem exists_position {index : ℤ} (h : rf.lastSnapshotIncludeIndex < index) :
    ∃ k : ℕ, index = rf.lastSnapshotIncludeIndex + k + 1 :=
  ⟨(index - rf.lastSnapshotIncludeIndex - 1).toNat, by omega⟩

theorem entryAt_eq_some {index : ℤ} {e : LogEntry} (h : rf.entryAt index = some e) :
    ∃ k : ℕ, index = rf.lastSnapshotIncludeIndex + k + 1 ∧ rf.logs[k]? = some e := by
  have hpos : rf.lastSnapshotIncludeIndex < index := by
    by_contra hle
    rw [entryAt_of_le (by omega)] at h
    cases h
  obtain ⟨k, rfl⟩ := exists_position hpos
  exact ⟨k, rfl, by rwa [entryAt_position] at h⟩

theorem entryAt_isSome {index : ℤ} (hpos : rf.lastSnapshotIncludeIndex < index)
    (hlast : index ≤ rf.getLastLogIndex) : ∃ e, rf.entryAt index = some e := by
  obtain ⟨k, rfl⟩ := exists_position hpos
  have hk : k < rf.logs.length := by
    unfold getLastLogIndex at hlast
    omega
  exact ⟨rf.logs[k], by rw [entryAt_position, List.getElem?_eq_getElem hk]⟩

/-- Entries are read alike where log and snapshot point are the same. -/
theorem entryAt_congr (hlogs : rf'.logs = rf.logs)
    (hbase : rf'.lastSnapshotIncludeIndex = rf.lastSnapshotIncludeIndex) (index : ℤ) :
    rf'.entryAt index = rf.entryAt index := by
  unfold entryAt getSlicesIndexFromLogIndex
  rw [hlogs, hbase]

/-- The term at an index above the snapshot point. -/
theorem getLogTermFromLogIndex_of_entryAt {index : ℤ} {e : LogEntry}
    (h : rf.entryAt index = some e) : rf.getLogTermFromLogIndex index = e.logterm := by
  obtain ⟨k, hk, _⟩ := entryAt_eq_some h
  unfold getLogTermFromLogIndex
  rw [if_neg (by omega), if_neg (by omega), show slot rf.logs _ = some e from h]

theorem getLogTermFromLogIndex_snapshot (rf : Raft N) :
    rf.getLogTermFromLogIndex rf.lastSnapshotIncludeIndex = rf.lastSnapshotIncludeTerm := by
  unfold getLogTermFromLogIndex
  rw [if_pos rfl]

theorem Contiguous.logindex (h : rf.Contiguous) {index : ℤ} {e : LogEntry}
    (he : rf.entryAt index = some e) : e.logindex = index := by
  obtain ⟨k, rfl, hk⟩ := entryAt_eq_some he
  exact h k e hk

/-- `matchLog` compares the terms wherever there is an entry or the snapshot point. -/
theorem matchLog_iff {index term : ℤ} (hbase : rf.lastSnapshotIncludeIndex ≤ index)
    (hlast : index ≤ rf.getLastLogIndex) :
    rf.matchLog index term = true ↔ rf.getLogTermFromLogIndex index = term := by
  unfold matchLog
  by_cases heq : index = rf.lastSnapshotIncludeIndex
  · rw [if_pos heq, heq, getLogTermFromLogIndex_snapshot]
    simp [eq_comm]
  · obtain ⟨e, he⟩ := entryAt_isSome (lt_of_le_of_ne hbase (Ne.symm heq)) hlast
    rw [if_neg heq, if_neg (by omega), getLogTermFromLogIndex_of_entryAt he,
      show slot rf.logs _ = some e from he]
    simp

/-! ## Which requests are accepted -/

theorem accepts_iff : rf.Accepts args ↔ rf.currentTerm ≤ args.term ∧
    rf.lastSnapshotIncludeIndex ≤ args.prevlogindex ∧ args.prevlogindex ≤ rf.getLastLogIndex ∧
    rf.getLogTermFromLogIndex args.prevlogindex = args.prevlogterm := by
  unfold Accepts
  constructor
  · rintro ⟨hterm, hlast, hbase, hmatch⟩
    exact ⟨hterm, hbase, hlast, (matchLog_iff hbase hlast).mp hmatch⟩
  · rintro ⟨hterm, hbase, hlast, hmatch⟩
    exact ⟨hterm, hlast, hbase, (matchLog_iff hbase hlast).mpr hmatch⟩

/-- `AppendEntries1` accepts a request, or it changes neither the log nor the commit index. -/
theorem appendEntries1_spec (h : rf.appendEntries1 args = some (rf', reply)) :
    (rf.Accepts args ∧ reply.success = true ∧
      (rf.follow args.term).acceptEntries args = some (rf', reply)) ∨
    (¬ rf.Accepts args ∧ reply.success = false ∧ rf'.logs = rf.logs ∧
      rf'.commitIndex = rf.commitIndex ∧
      rf'.lastSnapshotIncludeIndex = rf.lastSnapshotIncludeIndex) := by
  by_cases hacc : rf.Accepts args
  · obtain ⟨hterm, hlast, hbase, hmatch⟩ := hacc
    rw [appendEntries1_eq hterm, if_neg (by omega), if_neg (by omega), if_pos hmatch] at h
    refine .inl ⟨⟨hterm, hlast, hbase, hmatch⟩, ?_, h⟩
    obtain ⟨_, _, _, _, _, rfl⟩ := acceptEntries_cases h
    rfl
  · right
    rcases appendEntries1_cases h with ⟨_, rfl, hs⟩ | ⟨_, rfl, hs⟩ | ⟨hle, hlast, hbase, hmatch, _⟩
    · exact ⟨hacc, hs, rfl, rfl, rfl⟩
    · exact ⟨hacc, hs, by simp, by simp, by simp⟩
    · exact absurd ⟨hle, hlast, hbase, hmatch⟩ hacc

theorem success_iff (h : rf.appendEntries1 args = some (rf', reply)) :
    reply.success = true ↔ rf.Accepts args := by
  rcases appendEntries1_spec h with ⟨hacc, hs, _⟩ | ⟨hacc, hs, _⟩
  · exact ⟨fun _ => hacc, fun _ => hs⟩
  · rw [hs]
    exact ⟨fun hf => (by cases hf), fun hf => absurd hf hacc⟩

/-! ## What an accepted request does -/

/-- `rf'` is `rf` with the entries of the request at their indices. -/
structure Accepted (rf : Raft N) (args : AppendEntriesArgs) (rf' : Raft N) : Prop where
  base : rf'.lastSnapshotIncludeIndex = rf.lastSnapshotIncludeIndex
  inside : ∀ (j : ℕ) (e : LogEntry), args.entries[j]? = some e →
    rf'.entryAt (args.prevlogindex + j + 1) = some e
  outside : ∀ index : ℤ, index ≤ args.prevlogindex ∨
    args.prevlogindex + args.entries.length < index → rf'.entryAt index = rf.entryAt index
  last : rf'.getLastLogIndex = max rf.getLastLogIndex (args.prevlogindex + args.entries.length)
  contiguous : rf'.Contiguous
  commitIndex : rf'.commitIndex =
    followerCommit rf.commitIndex args.leadercommit rf'.getLastLogIndex

/-- The log after the entry loop, by position. -/
theorem Contiguous.accept_splice (h : rf.Contiguous) (hargs : args.Consecutive) {k : ℕ}
    (hk : args.prevlogindex = rf.lastSnapshotIncludeIndex + k) (hlen : k ≤ rf.logs.length)
    (hres : (rf.follow args.term).acceptEntries args = some (rf', reply)) :
    rf'.logs = splice rf.logs k args.entries ∧
      rf'.lastSnapshotIncludeIndex = rf.lastSnapshotIncludeIndex ∧
      rf'.commitIndex =
        followerCommit rf.commitIndex args.leadercommit rf'.getLastLogIndex := by
  obtain ⟨logs, hfold, _, hrf, _, _⟩ := acceptEntries_cases hres
  have hlogs : rf'.logs = logs := by rw [hrf]; rfl
  have hbase : rf'.lastSnapshotIncludeIndex = rf.lastSnapshotIncludeIndex := by
    rw [hrf]
    exact follow_lastSnapshotIncludeIndex _
  have hsplice := foldlM_appendEntry_logs (k := k) (by simpa using hlen)
    (fun j e he => by
      have hindex := hargs j e he
      rw [follow_lastSnapshotIncludeIndex]
      omega)
    (fun j e l he hl hterm hcommand => by
      -- both are numbered, so the same term and command make the same entry
      rw [follow_logs] at hl
      have hindex := hargs j e he
      have hlocal := h _ l hl
      cases e
      cases l
      simp only [LogEntry.mk.injEq] at hterm hcommand hindex hlocal ⊢
      refine ⟨hcommand, hterm, ?_⟩
      push_cast at hlocal
      omega) hfold
  rw [follow_logs] at hsplice
  refine ⟨by rw [hlogs]; exact hsplice, hbase, ?_⟩
  unfold getLastLogIndex
  rw [hlogs, hbase, hrf]
  simp

theorem Contiguous.accepted (h : rf.Contiguous) (hargs : args.Consecutive)
    (hacc : rf.Accepts args)
    (hres : (rf.follow args.term).acceptEntries args = some (rf', reply)) :
    Accepted rf args rf' := by
  obtain ⟨_, hlast, hbase, _⟩ := hacc
  unfold getLastLogIndex at hlast
  obtain ⟨k, hk⟩ : ∃ k : ℕ, args.prevlogindex = rf.lastSnapshotIncludeIndex + k :=
    ⟨(args.prevlogindex - rf.lastSnapshotIncludeIndex).toNat, by omega⟩
  have hlen : k ≤ rf.logs.length := by omega
  obtain ⟨hlogs, hbase', hcommit⟩ := h.accept_splice hargs hk hlen hres
  have hat : ∀ m : ℕ, rf'.entryAt (rf.lastSnapshotIncludeIndex + m + 1) =
      (splice rf.logs k args.entries)[m]? := by
    intro m
    rw [← hlogs, ← hbase']
    exact entryAt_position rf' m
  have hinside : ∀ (j : ℕ) (e : LogEntry), args.entries[j]? = some e →
      rf'.entryAt (args.prevlogindex + j + 1) = some e := by
    intro j e he
    have hj : j < args.entries.length := (List.getElem?_eq_some_iff.mp he).1
    rw [hk, show rf.lastSnapshotIncludeIndex + k + j + 1 =
      rf.lastSnapshotIncludeIndex + (k + j : ℕ) + 1 by push_cast; ring, hat,
      getElem?_splice_add hlen hj]
    exact he
  have houtside : ∀ index : ℤ, index ≤ args.prevlogindex ∨
      args.prevlogindex + args.entries.length < index →
      rf'.entryAt index = rf.entryAt index := by
    intro index hindex
    rcases le_or_gt index rf.lastSnapshotIncludeIndex with hle | hgt
    · rw [entryAt_of_le hle, entryAt_of_le (by omega)]
    · obtain ⟨m, rfl⟩ := exists_position hgt
      rw [hat, entryAt_position]
      rcases hindex with hfront | hbehind
      · exact getElem?_splice_lt hlen (by omega)
      · exact getElem?_splice_ge hlen (by omega)
  refine ⟨hbase', hinside, houtside, ?_, fun m e hm => ?_, hcommit⟩
  · unfold getLastLogIndex
    rw [hbase', hlogs, length_splice hlen, hk]
    push_cast
    omega
  · -- an entry is one of the request's or one that was there before
    rw [hbase']
    rw [hlogs] at hm
    rcases lt_or_ge m k with hlt | hge
    · exact h m e (by rwa [getElem?_splice_lt hlen hlt] at hm)
    · rcases lt_or_ge m (k + args.entries.length) with hin | hbehind
      · obtain ⟨j, rfl⟩ : ∃ j, m = k + j := ⟨m - k, by omega⟩
        rw [getElem?_splice_add hlen (by omega)] at hm
        have := hargs j e hm
        push_cast
        omega
      · exact h m e (by rwa [getElem?_splice_ge hlen hbehind] at hm)

end Raft

/-! ## The contract -/

/-- A request of a term that is not behind, with entries numbered from `prevlogindex + 1` on,
    given to a node whose indices count up from its snapshot point: it succeeds exactly if the
    node has `prevlogindex` with the term of the request; then the entries stand at their
    indices and nothing else has changed, and otherwise nothing has. -/
theorem append_entries_contract (rf rf' : Raft N) (args : AppendEntriesArgs)
    (reply : AppendEntriesReply) (hlogs : rf.Contiguous) (hterm : rf.currentTerm ≤ args.term)
    (hargs : args.Consecutive) (hres : rf.appendEntries1 args = some (rf', reply)) :
    (reply.success = true ↔ rf.lastSnapshotIncludeIndex ≤ args.prevlogindex ∧
      args.prevlogindex ≤ rf.getLastLogIndex ∧
      rf.getLogTermFromLogIndex args.prevlogindex = args.prevlogterm) ∧
    (reply.success = true →
      rf'.lastSnapshotIncludeIndex = rf.lastSnapshotIncludeIndex ∧
      (∀ (j : ℕ) (e : LogEntry), args.entries[j]? = some e →
        rf'.entryAt (args.prevlogindex + j + 1) = some e) ∧
      (∀ index : ℤ, index ≤ args.prevlogindex ∨
        args.prevlogindex + args.entries.length < index →
          rf'.entryAt index = rf.entryAt index) ∧
      rf'.getLastLogIndex =
        max rf.getLastLogIndex (args.prevlogindex + args.entries.length) ∧
      rf'.Contiguous) ∧
    (reply.success = false → rf'.logs = rf.logs ∧ rf'.commitIndex = rf.commitIndex) := by
  refine ⟨?_, fun hs => ?_, fun hs => ?_⟩
  · rw [success_iff hres, accepts_iff]
    exact and_iff_right hterm
  · rcases appendEntries1_spec hres with ⟨hacc, _, hres'⟩ | ⟨_, hf, _⟩
    · have hdone := hlogs.accepted hargs hacc hres'
      exact ⟨hdone.base, hdone.inside, hdone.outside, hdone.last, hdone.contiguous⟩
    · rw [hs] at hf
      cases hf
  · rcases appendEntries1_spec hres with ⟨_, ht, _⟩ | ⟨_, _, hlogs', hcommit, _⟩
    · rw [hs] at ht
      cases ht
    · exact ⟨hlogs', hcommit⟩

/-- A node with a snapshot up to index 2 and the entries 3 and 4 of term 1. -/
def restored : Raft 3 := Raft.init 0 (Persister.create (some ⟨2, -1, 2, 1, [⟨1, [1]⟩, ⟨1, [2]⟩]⟩) none)

/-- Entry 3 again, another entry 4 and a new entry 5. -/
def straddling : AppendEntriesArgs := ⟨2, 1, 2, 1, [⟨[1], 1, 3⟩, ⟨[3], 2, 4⟩, ⟨[4], 2, 5⟩], 0⟩

theorem append_entries_contract_straddling :
    ∃ rf' reply, restored.appendEntries1 straddling = some (rf', reply) ∧
      reply.success = true ∧ rf'.getLastLogIndex = 5 ∧
      rf'.entryAt 3 = some ⟨[1], 1, 3⟩ ∧ rf'.entryAt 4 = some ⟨[3], 2, 4⟩ ∧
      rf'.entryAt 5 = some ⟨[4], 2, 5⟩ := by
  obtain ⟨⟨rf', reply⟩, hres⟩ := Option.isSome_iff_exists.mp
    (show (restored.appendEntries1 straddling).isSome = true by decide)
  obtain ⟨hiff, hdone, _⟩ := append_entries_contract restored rf' straddling reply
    (contiguous_init _ _) (by decide) (by decide) hres
  have hs : reply.success = true := hiff.mpr (by decide)
  obtain ⟨_, hinside, _, hlast, _⟩ := hdone hs
  exact ⟨rf', reply, hres, hs, hlast.trans (by decide), hinside 0 _ rfl, hinside 1 _ rfl,
    hinside 2 _ rfl⟩

end MyKvRaft
