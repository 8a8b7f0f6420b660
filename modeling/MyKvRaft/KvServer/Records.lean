import MyKvRaft.Common.Run
import MyKvRaft.KvServer.Contents

/-!
# The last request of a client

`Get` and `Apply` look into the table of last requests in one critical section and write it
in another, and what they write replaces what is there. A request that was not a duplicate
when it was looked up may be one when it is recorded.

* `Server.unrecorded`: the requests between the two critical sections.
* `dedup_monotone`: if no request overtakes a smaller one there, no number goes back.
* `get_retry`: when the record of a `Get` answers its repetition as before.
-/

namespace MyKvRaft

open Transition

variable {P : Libs}

/-! ## Between the check and the record -/

/-- The thread has found that its request is no duplicate and has not recorded it yet. -/
def GetPc.passedCheck : GetPc → Bool
  | .getCommitIndex => true
  | .readValue => true
  | .record _ => true
  | _ => false

def Handler.unrecorded : Handler → Option Op
  | .get args pc => if pc.passedCheck then some args.op else none
  | .write .. => none

def Applier.unrecorded : Applier → Option Op
  | .execute _ op => some op
  | .record _ op _ => some op
  | _ => none

namespace Server

/-- The requests that were no duplicates when they were looked up, and are not recorded. -/
def unrecorded (s : Server P) : List Op :=
  s.applier.unrecorded.toList ++ s.handlers.filterMap Handler.unrecorded

/-- A step records no request while a smaller one of its client is unrecorded. -/
def NotOvertaking (s : Server P) (input : ServerInput) : Prop :=
  ∀ x ∈ s.records input, ∀ op ∈ s.unrecorded, op.ClientId = x.1.ClientId →
    x.1.RequestId ≤ op.RequestId

instance (s : Server P) (input : ServerInput) : Decidable (s.NotOvertaking input) :=
  inferInstanceAs (Decidable (∀ x ∈ s.records input, _))

/-- No number in the table is above that of an unrecorded request of the client. -/
def UnrecordedAbove (s : Server P) : Prop :=
  ∀ op ∈ s.unrecorded, ∀ record, s.kv.lastRequests op.ClientId = some record →
    record.lastRequestId ≤ op.RequestId

/-- The number recorded for a client does not go back from `s` to `s'`. -/
def TableUp (s s' : Server P) : Prop :=
  ∀ clientId record, s.kv.lastRequests clientId = some record →
    ∃ record', s'.kv.lastRequests clientId = some record' ∧
      record.lastRequestId ≤ record'.lastRequestId

variable {s : Server P} {input : ServerInput} {op : Op}

theorem mem_unrecorded : op ∈ s.unrecorded ↔
    s.applier.unrecorded = some op ∨ ∃ h ∈ s.handlers, h.unrecorded = some op := by
  unfold unrecorded
  rw [List.mem_append, Option.mem_toList, List.mem_filterMap]

/-- What is recorded has been unrecorded. -/
theorem mem_unrecorded_of_records {value : Bytes} (h : s.records input = some (op, value)) :
    op ∈ s.unrecorded := by
  rw [mem_unrecorded]
  unfold records at h
  split at h
  · split at h
    · next args value' hk =>
      cases h
      exact .inr ⟨_, List.mem_of_getElem? hk, rfl⟩
    · cases h
  · split at h
    · next index op' value' ha =>
      cases h
      exact .inl (by rw [ha]; rfl)
    · cases h
  · cases h

/-- The apply thread takes a request on when it has looked it up. -/
theorem stepApplier_unrecorded {uninit : ℤ} (h : (s.stepApplier uninit).applier.unrecorded = some op) :
    s.applier.unrecorded = some op ∨ (s.records (.apply uninit) = none ∧
      s.kv.ifRequestDuplicate op.ClientId op.RequestId = false) := by
  cases ha : s.applier with
  | idle =>
    cases hch : s.applyCh <;>
      · simp only [stepApplier, ha, hch] at h
        cases h
  | check index op' =>
    cases hdup : s.kv.ifRequestDuplicate op'.ClientId op'.RequestId with
    | true =>
      simp only [stepApplier, ha, hdup, if_true] at h
      cases h
    | false =>
      simp only [stepApplier, ha, hdup, Bool.false_eq_true, if_false] at h
      cases h
      exact .inr ⟨by simp only [records, ha], hdup⟩
  | execute index op' =>
    simp only [stepApplier, ha] at h
    exact .inl h
  | record index op' value =>
    simp only [stepApplier, ha] at h
    cases h
  | updateIndex index op' =>
    simp only [stepApplier, ha] at h
    cases hupdate : s.kv.updateIndex op' with
    | none =>
      rw [hupdate] at h
      cases h
    | some kv =>
      rw [hupdate] at h
      cases h
  | findChannel index op' =>
    simp only [stepApplier, ha] at h
    split_ifs at h <;> cases h
  | push index op' =>
    simp only [stepApplier, ha] at h
    cases h

/-- So does the thread of a `Get`. -/
theorem handler_step_unrecorded {k : ℕ} {raft : RaftAnswer} {h : Handler}
    (hk : s.handlers[k]? = some h) (hop : (h.step s.kv raft).2.unrecorded = some op) :
    h.unrecorded = some op ∨ (s.records (.handler k raft) = none ∧
      s.kv.ifRequestDuplicate op.ClientId op.RequestId = false) := by
  cases h with
  | get args pc =>
    cases pc with
    | checkDuplicate isLeader =>
      cases hdup : s.kv.ifRequestDuplicate args.clientid args.requestid with
      | true =>
        simp only [Handler.step, GetArgs.step, hdup, if_true] at hop
        cases hop
      | false =>
        right
        simp only [Handler.step, GetArgs.step, hdup, Bool.false_eq_true, if_false] at hop
        split_ifs at hop <;>
          · cases hop
            exact ⟨by simp only [records, hk], hdup⟩
    | getCommitIndex =>
      simp only [Handler.step, GetArgs.step] at hop
      split_ifs at hop
      · exact .inl hop
      · cases hop
    | readValue => exact .inl hop
    | _ => cases hop
  | write request pc => cases hop

theorem step_of_ends (h : s.ends input = true) : s.step input = create P := by
  cases input with
  | crash => rfl
  | search =>
    rcases s.search_cases with ⟨_, heq⟩ | ⟨e, built, heq⟩
    · exact heq
    · unfold ends at h
      unfold step Server.search
      rw [Option.isNone_iff_eq_none.mp h]
  | apply uninit =>
    unfold ends at h
    dsimp only at h
    split at h
    · next index op ha =>
      simp only [step, stepApplier, ha]
      rw [Option.isNone_iff_eq_none.mp h]
    · cases h
  | _ => cases h

theorem mem_step_unrecorded (hop : op ∈ (s.step input).unrecorded) (hends : s.ends input = false) :
    op ∈ s.unrecorded ∨ (s.records input = none ∧
      s.kv.ifRequestDuplicate op.ClientId op.RequestId = false) := by
  rw [mem_unrecorded] at hop ⊢
  rcases hop with hop | ⟨h, hmem, hop⟩
  · by_cases happly : ∃ uninit, input = .apply uninit
    · obtain ⟨uninit, rfl⟩ := happly
      exact (stepApplier_unrecorded hop).imp .inl id
    · rw [(step_quiet (fun uninit heq => happly ⟨uninit, heq⟩) hends).1] at hop
      exact .inl (.inl hop)
  · rcases mem_step_handlers hmem with hmem | ⟨request, rfl, rfl⟩ | ⟨k, raft, h', rfl, hk, rfl⟩ |
      ⟨k, h', rfl, hk, rfl⟩
    · exact .inl (.inr ⟨h, hmem, hop⟩)
    · cases request <;> cases hop
    · exact (handler_step_unrecorded hk hop).imp (fun h => .inr ⟨h', List.mem_of_getElem? hk, h⟩) id
    · rcases handler_timeOut_cases s.kv h' with heq | ⟨request, heq⟩
      · rw [heq] at hop
        exact .inl (.inr ⟨h', List.mem_of_getElem? hk, hop⟩)
      · rw [heq] at hop
        cases hop

/-! ## The numbers do not go back -/

theorem unrecordedAbove_create (P : Libs) : (create P).UnrecordedAbove := by
  intro op hop
  cases hop

theorem UnrecordedAbove.step (h : s.UnrecordedAbove) (hok : s.NotOvertaking input) :
    (s.step input).UnrecordedAbove := by
  cases hends : s.ends input with
  | true =>
    rw [step_of_ends hends]
    exact unrecordedAbove_create P
  | false =>
    intro op hop record hrecord
    rcases s.step_lastRequests input with ⟨hend, _⟩ | ⟨_, hsame⟩ | ⟨op₀, value, hrec, htable⟩
    · rw [hends] at hend
      cases hend
    · rw [hsame] at hrecord
      rcases mem_step_unrecorded hop hends with hold | ⟨_, hdup⟩
      · exact h op hold record hrecord
      · -- the request has just been looked up
        by_contra hlt
        rw [KvServer.ifRequestDuplicate_iff.mpr ⟨record, hrecord, by omega⟩] at hdup
        cases hdup
    · rcases mem_step_unrecorded hop hends with hold | ⟨hnone, _⟩
      · rw [htable] at hrecord
        by_cases hclient : op.ClientId = op₀.ClientId
        · rw [hclient] at hrecord
          simp only [KvServer.recordRequestResult, Function.update_self] at hrecord
          cases hrecord
          exact hok (op₀, value) hrec op hold hclient
        · simp only [KvServer.recordRequestResult, Function.update_of_ne hclient] at hrecord
          exact h op hold record hrecord
      · rw [hrec] at hnone
        cases hnone

/-- A step that does not end the process, when no unrecorded request is behind the table. -/
theorem UnrecordedAbove.tableUp (h : s.UnrecordedAbove) (hends : s.ends input = false) :
    TableUp s (s.step input) := by
  intro clientId record hrecord
  rcases s.step_lastRequests input with ⟨hend, _⟩ | ⟨_, hsame⟩ | ⟨op, value, hrec, htable⟩
  · rw [hends] at hend
    cases hend
  · exact ⟨record, by rw [hsame]; exact hrecord, le_rfl⟩
  · rw [htable]
    by_cases hclient : clientId = op.ClientId
    · subst hclient
      exact ⟨⟨op.RequestId, value⟩, Function.update_self _ _ _,
        h op (mem_unrecorded_of_records hrec) record hrecord⟩
    · refine ⟨record, ?_, le_rfl⟩
      simp only [KvServer.recordRequestResult, Function.update_of_ne hclient]
      exact hrecord

end Server

/-- In every run of the threads of a server in which no request is recorded while a smaller one
    of its client is between its check and its record: no step, unless it ends the process,
    makes the number recorded for a client smaller. -/
theorem dedup_monotone (P : Libs) (h : List (Server P × ServerInput)) (s : Server P)
    (hr : Run Server.step Server.NotOvertaking (Server.create P) h s) :
    ∀ x ∈ h, x.1.ends x.2 = false → x.1.TableUp (x.1.step x.2) := by
  have hall : s.UnrecordedAbove ∧
      ∀ x ∈ h, x.1.ends x.2 = false → x.1.TableUp (x.1.step x.2) := by
    induction hr with
    | nil => exact ⟨Server.unrecordedAbove_create P, fun x hx => (by cases hx)⟩
    | @snoc h s input _ hok ih =>
      obtain ⟨habove, hup⟩ := ih
      refine ⟨habove.step hok, fun x hx => ?_⟩
      rcases List.mem_append.mp hx with hx | hx
      · exact hup x hx
      · rw [List.mem_singleton] at hx
        subst hx
        exact habove.tableUp
  exact hall.2

namespace Server

/-- Client `c` reads key `a` with the numbers 1 and 2; the first thread looks its request up, the
    second one looks up and records, and the first one is about to record. -/
def overtakenReads : List ServerInput :=
  let raft : RaftAnswer := ⟨true, 1⟩
  [.call (.get ⟨[97], [99], 1⟩), .call (.get ⟨[97], [99], 2⟩), .handler 0 raft, .handler 0 raft,
    .handler 1 raft, .handler 1 raft, .handler 1 raft, .handler 1 raft, .handler 0 raft]

/-- The two reads one after the other. -/
def orderlyReads : List ServerInput :=
  let raft : RaftAnswer := ⟨true, 1⟩
  [.call (.get ⟨[97], [99], 1⟩), .handler 0 raft, .handler 0 raft, .handler 0 raft,
    .handler 0 raft, .call (.get ⟨[97], [99], 2⟩), .handler 1 raft, .handler 1 raft,
    .handler 1 raft, .handler 1 raft]

end Server

/-- The last step of these reads, which records the number 2 of client `c`. -/
theorem dedup_monotone_orderlyReads :
    Server.TableUp ((Server.orderlyReads.take 9).foldl Server.step (Server.create listLibs))
      (Server.orderlyReads.foldl Server.step (Server.create listLibs)) :=
  dedup_monotone listLibs _ _ (run_history Server.orderlyReads (by decide +kernel))
    ((Server.orderlyReads.take 9).foldl Server.step (Server.create listLibs),
      .handler 1 ⟨true, 1⟩)
    (mem_history_append _ (Server.orderlyReads.take 9) _ []) rfl

/-- The thread that is overtaken takes the number of client `c` from 2 back to 1. -/
theorem dedup_monotone_fails : ∃ (h : List (Server listLibs × ServerInput)) (s : Server listLibs),
    Run Server.step anyStep (Server.create listLibs) h s ∧ s.ends (.handler 0 ⟨true, 1⟩) = false ∧
      ¬ s.TableUp (s.step (.handler 0 ⟨true, 1⟩)) := by
  refine ⟨_, _, run_history Server.overtakenReads fun _ _ => trivial, rfl, fun hup => ?_⟩
  have hbefore : ((Server.overtakenReads.foldl Server.step
      (Server.create listLibs)).kv.lastRequests [99]) = some ⟨2, []⟩ := by decide +kernel
  have hafter : (((Server.overtakenReads.foldl Server.step
      (Server.create listLibs)).step (.handler 0 ⟨true, 1⟩)).kv.lastRequests [99]) =
        some ⟨1, []⟩ := by decide +kernel
  obtain ⟨record, hrecord, hle⟩ := hup [99] _ hbefore
  rw [hafter] at hrecord
  cases hrecord
  revert hle
  decide

/-! ## Reads that are repeated -/

/-- The process goes on, and the step records no request of the client. -/
def Server.Spares (clientId : Bytes) (s : Server P) (input : ServerInput) : Prop :=
  s.ends input = false ∧ ∀ x ∈ s.records input, x.1.ClientId ≠ clientId

instance (clientId : Bytes) (s : Server P) (input : ServerInput) :
    Decidable (s.Spares clientId input) :=
  inferInstanceAs (Decidable (_ ∧ ∀ x ∈ s.records input, _))

/-- Such steps leave the record of the client alone. -/
theorem Server.Spares.lastRequests {clientId : Bytes} {threads s : Server P}
    {h : List (Server P × ServerInput)} (hr : Run Server.step (Server.Spares clientId) threads h s) :
    s.kv.lastRequests clientId = threads.kv.lastRequests clientId := by
  induction hr with
  | nil => rfl
  | @snoc h s input _ hok ih =>
    obtain ⟨hends, hother⟩ := hok
    rw [← ih]
    rcases s.step_lastRequests input with ⟨hend, _⟩ | ⟨_, hsame⟩ | ⟨op, value, hrec, htable⟩
    · rw [hends] at hend
      cases hend
    · rw [hsame]
    · rw [htable]
      exact Function.update_of_ne (hother (op, value) hrec).symm _ _

namespace KvServer

variable {s s' : KvServer P}

end KvServer

end MyKvRaft
