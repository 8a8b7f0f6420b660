import MyKvRaft.Append.Contract

/-!
# Requests of one leader, in any order

A follower that is given nothing but `AppendEntries` requests built from one leader log, in
any order and any number of times. A request that is accepted puts the leader's entries at
their indices (`Accepted`), and no later one takes them away: it writes the same entries
there, or none.

* `accepted_entries_stay`: what has been acknowledged stays, and the log does not shrink.
-/

namespace MyKvRaft

open Transition Raft

variable {N : ℕ}

namespace Raft

/-- The request is one of the leader `lf`: it says what the log of `lf` has at `prevlogindex`
    and carries a run of its entries from there, consecutively numbered. -/
structure Builds (lf : Raft N) (args : AppendEntriesArgs) : Prop where
  term : args.term = lf.currentTerm
  base : lf.lastSnapshotIncludeIndex ≤ args.prevlogindex
  last : args.prevlogindex ≤ lf.getLastLogIndex
  prev : args.prevlogterm = lf.getLogTermFromLogIndex args.prevlogindex
  consecutive : args.Consecutive
  entries : ∀ (j : ℕ) (e : LogEntry), args.entries[j]? = some e →
    lf.entryAt (args.prevlogindex + j + 1) = some e

/-- The node after it has handled the request, if no assertion has failed. -/
def afterAppend (rf : Raft N) (args : AppendEntriesArgs) : Raft N :=
  match rf.appendEntries1 args with
  | none => rf
  | some (rf', _) => rf'

/-- The request is answered with success. -/
def Acknowledges (rf : Raft N) (args : AppendEntriesArgs) : Prop :=
  ∃ reply, (rf.appendEntries1 args).map (·.2) = some reply ∧ reply.success = true

/-- The request is one of `lf`, and no assertion fails. -/
def OneLeader (lf rf : Raft N) (args : AppendEntriesArgs) : Prop :=
  lf.Builds args ∧ rf.appendEntries1 args ≠ none

variable {lf rf rf' : Raft N} {args : AppendEntriesArgs}

/-! ## The requests of the program -/

/-- A heartbeat to a peer whose `nextIndex` is in the log or next to it. -/
theorem builds_heartBeatArgs {peerId : Fin N}
    (hbase : lf.lastSnapshotIncludeIndex < lf.nextIndex peerId)
    (hlast : lf.nextIndex peerId ≤ lf.getLastLogIndex + 1) :
    lf.Builds (lf.heartBeatArgs peerId) where
  term := rfl
  base := by
    show _ ≤ lf.nextIndex peerId - 1
    omega
  last := by
    show lf.nextIndex peerId - 1 ≤ _
    omega
  prev := rfl
  consecutive := fun j e he => by cases he
  entries := fun j e he => by cases he

/-- A batch that is a piece of the log. -/
theorem builds_batchArgs (hl : lf.Contiguous) {k n : ℕ} (hk : k < lf.logs.length) (hn : 0 < n) :
    lf.Builds (lf.batchArgs ((lf.logs.drop k).take n)) := by
  have hget : ∀ (j : ℕ) (e : LogEntry), ((lf.logs.drop k).take n)[j]? = some e →
      lf.logs[k + j]? = some e := by
    intro j e he
    have hj : j < n := by
      have := (List.getElem?_eq_some_iff.mp he).1
      rw [List.length_take] at this
      omega
    rwa [List.getElem?_take_of_lt hj, List.getElem?_drop] at he
  have hhead : ((lf.logs.drop k).take n).head? = some lf.logs[k] := by
    rw [List.head?_eq_getElem?, List.getElem?_take_of_lt hn, List.getElem?_drop,
      Nat.add_zero, List.getElem?_eq_getElem hk]
  have hprev : (lf.batchArgs ((lf.logs.drop k).take n)).prevlogindex =
      lf.lastSnapshotIncludeIndex + k := by
    show ((((lf.logs.drop k).take n).head?).map (·.logindex)).getD 0 - 1 = _
    rw [hhead, Option.map_some, Option.getD_some, hl k _ (List.getElem?_eq_getElem hk)]
    omega
  refine ⟨rfl, ?_, ?_, rfl, fun j e he => ?_, fun j e he => ?_⟩
  · rw [hprev]
    omega
  · rw [hprev, getLastLogIndex]
    omega
  · rw [hprev, hl _ e (hget j e he)]
    push_cast
    ring
  · rw [hprev, ← hget j e he, ← entryAt_position]
    congr 1
    push_cast
    ring

/-! ## One request -/

/-- What no request of the leader takes away. -/
structure Stays (lf rf rf' : Raft N) : Prop where
  contiguous : rf'.Contiguous
  length : rf.logs.length ≤ rf'.logs.length
  entry : ∀ (index : ℤ) (e : LogEntry), lf.entryAt index = some e → rf.entryAt index = some e →
    rf'.entryAt index = some e

theorem Contiguous.stays (h : rf.Contiguous) (hb : lf.Builds args)
    {reply : AppendEntriesReply} (hres : rf.appendEntries1 args = some (rf', reply)) :
    Stays lf rf rf' := by
  rcases appendEntries1_spec hres with ⟨hacc, _, hres'⟩ | ⟨_, _, hlogs, _, hbase⟩
  · have hdone := h.accepted hb.consecutive hacc hres'
    refine ⟨hdone.contiguous, ?_, fun index e hle hre => ?_⟩
    · have hlast := hdone.last
      have hbase := hdone.base
      unfold getLastLogIndex at hlast
      omega
    · by_cases hout : index ≤ args.prevlogindex ∨
        args.prevlogindex + args.entries.length < index
      · rw [hdone.outside index hout]
        exact hre
      · -- the request writes the leader's entry over itself
        obtain ⟨j, rfl⟩ : ∃ j : ℕ, index = args.prevlogindex + j + 1 :=
          ⟨(index - args.prevlogindex - 1).toNat, by omega⟩
        have hj : j < args.entries.length := by omega
        have hget := List.getElem?_eq_getElem hj
        have hsame := hb.entries j _ hget
        rw [hle] at hsame
        rw [hdone.inside j _ hget, hsame]
  · refine ⟨(contiguous_congr hlogs hbase).mpr h, ?_, fun index e _ hre => ?_⟩
    · rw [hlogs]
    · rw [entryAt_congr hlogs hbase]
      exact hre

/-- What an acknowledged request covers stands in the log. -/
theorem Contiguous.covered (h : rf.Contiguous) (hb : lf.Builds args)
    {reply : AppendEntriesReply} (hres : rf.appendEntries1 args = some (rf', reply))
    (hs : reply.success = true) {index : ℤ} (hlow : args.prevlogindex < index)
    (hhigh : index ≤ args.prevlogindex + args.entries.length) :
    ∃ e, lf.entryAt index = some e ∧ rf'.entryAt index = some e := by
  rcases appendEntries1_spec hres with ⟨hacc, _, hres'⟩ | ⟨_, hf, _⟩
  · have hdone := h.accepted hb.consecutive hacc hres'
    obtain ⟨j, rfl⟩ : ∃ j : ℕ, index = args.prevlogindex + j + 1 :=
      ⟨(index - args.prevlogindex - 1).toNat, by omega⟩
    have hj : j < args.entries.length := by omega
    have hget := List.getElem?_eq_getElem hj
    exact ⟨_, hb.entries j _ hget, hdone.inside j _ hget⟩
  · rw [hs] at hf
    cases hf

/-- A request that fails no assertion. -/
theorem OneLeader.result (h : OneLeader lf rf args) :
    ∃ reply, rf.appendEntries1 args = some (rf.afterAppend args, reply) := by
  obtain ⟨x, hx⟩ := Option.ne_none_iff_exists'.mp h.2
  refine ⟨x.2, ?_⟩
  unfold afterAppend
  rw [hx]

/-! ## Any sequence of requests -/

/-- The requests handled so far have left the leader's entries where they said. -/
structure Kept (lf : Raft N) (h : List (Raft N × AppendEntriesArgs)) (rf : Raft N) : Prop where
  contiguous : rf.Contiguous
  length : ∀ x ∈ h, x.1.logs.length ≤ rf.logs.length
  covered : ∀ x ∈ h, x.1.Acknowledges x.2 → ∀ index : ℤ, x.2.prevlogindex < index →
    index ≤ x.2.prevlogindex + x.2.entries.length →
      ∃ e, lf.entryAt index = some e ∧ rf.entryAt index = some e

theorem Kept.step {h : List (Raft N × AppendEntriesArgs)} (hk : Kept lf h rf)
    (hok : OneLeader lf rf args) :
    Kept lf (h ++ [(rf, args)]) (rf.afterAppend args) := by
  obtain ⟨reply, hres⟩ := hok.result
  have hstays := hk.contiguous.stays hok.1 hres
  refine ⟨hstays.contiguous, fun x hx => ?_, fun x hx hack index hlow hhigh => ?_⟩
  · rcases List.mem_append.mp hx with hx | hx
    · exact (hk.length x hx).trans hstays.length
    · rw [List.mem_singleton] at hx
      subst hx
      exact hstays.length
  · rcases List.mem_append.mp hx with hx | hx
    · obtain ⟨e, hle, hre⟩ := hk.covered x hx hack index hlow hhigh
      exact ⟨e, hle, hstays.entry index e hle hre⟩
    · rw [List.mem_singleton] at hx
      subst hx
      obtain ⟨reply', hmap, hs⟩ := hack
      have hreply : reply = reply' := by
        dsimp only at hmap
        rw [hres] at hmap
        exact Option.some.inj hmap
      exact hk.contiguous.covered hok.1 hres (hreply ▸ hs) hlow hhigh

end Raft

/-- For every leader log and every follower with contiguous indices, and every sequence of
    requests of that leader of which none fails an assertion: what a request that was answered
    with success covers is still the leader's at the end, and the log has not shrunk. -/
theorem accepted_entries_stay (lf rf₀ rf : Raft N) (hf : rf₀.Contiguous)
    (h : List (Raft N × AppendEntriesArgs)) (hr : Run afterAppend (OneLeader lf) rf₀ h rf) :
    ∀ x ∈ h, x.1.logs.length ≤ rf.logs.length ∧
      (x.1.Acknowledges x.2 → ∀ index : ℤ, x.2.prevlogindex < index →
        index ≤ x.2.prevlogindex + x.2.entries.length →
          ∃ e, lf.entryAt index = some e ∧ rf.entryAt index = some e) := by
  have hkept : Kept lf h rf := by
    induction hr with
    | nil => exact ⟨hf, fun x hx => (by cases hx), fun x hx => (by cases hx)⟩
    | snoc _ hok ih => exact ih.step hok
  exact fun x hx => ⟨hkept.length x hx, hkept.covered x hx⟩

/-- A leader of term 2 with three entries, and a follower with a stale one. -/
def ahead : Raft 3 :=
  Raft.init 1 (Persister.create (some ⟨2, 1, 0, 0, [⟨1, [1]⟩, ⟨2, [2]⟩, ⟨2, [3]⟩]⟩) none)
def behind : Raft 3 := Raft.init 0 (Persister.create (some ⟨1, 0, 0, 0, [⟨1, [1]⟩, ⟨1, [9]⟩]⟩) none)

/-- The batch with the entries `k + 1 .. k + n`. -/
def batch (k n : ℕ) : AppendEntriesArgs := ahead.batchArgs ((ahead.logs.drop k).take n)

/-- The last entry arrives first and is refused, then all three, and then the first again,
    which has been overtaken. -/
def overtaken : List AppendEntriesArgs := [batch 2 1, batch 0 3, batch 0 1]

theorem accepted_entries_stay_overtaken :
    ∃ e, ahead.entryAt 3 = some e ∧
      (overtaken.foldl afterAppend behind).entryAt 3 = some e := by
  have hbuilds : ∀ args ∈ overtaken, ahead.Builds args := by
    have hl : ahead.Contiguous := contiguous_init _ _
    simp only [overtaken, List.forall_mem_cons, List.not_mem_nil, false_imp_iff, forall_true_iff,
      and_true]
    exact ⟨builds_batchArgs hl (by decide) (by decide),
      builds_batchArgs hl (by decide) (by decide), builds_batchArgs hl (by decide) (by decide)⟩
  have hpass : ∀ x ∈ history afterAppend behind overtaken,
      (x.1.appendEntries1 x.2).isSome = true := by decide
  have hok : ∀ x ∈ history afterAppend behind overtaken, OneLeader ahead x.1 x.2 := fun x hx =>
    ⟨hbuilds x.2 (mem_of_mem_history hx), Option.isSome_iff_ne_none.mp (hpass x hx)⟩
  have hmem : (behind.afterAppend (batch 2 1), batch 0 3) ∈ history afterAppend behind overtaken :=
    mem_history_append behind [batch 2 1] (batch 0 3) [batch 0 1]
  have hack : (behind.afterAppend (batch 2 1)).Acknowledges (batch 0 3) := ⟨_, rfl, by decide⟩
  exact (accepted_entries_stay ahead behind _ (contiguous_init _ _) _
    (run_history overtaken hok) _ hmem).2 hack 3 (by decide) (by decide)

end MyKvRaft
