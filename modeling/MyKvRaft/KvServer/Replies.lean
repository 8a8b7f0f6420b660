import MyKvRaft.Common.Run
import MyKvRaft.KvServer.Threads

/-!
# What an OK reply means

A write replies OK when it pops its own operation from the channel of its index, or when it
has timed out and finds its `RequestId` in the table of last requests. Both should mean
that `Apply` has executed it. But `Apply` also hands out the operations it skips, and a
`Get` or a later write of the same client fills the table too.

* `Justified.step`: which steps keep the meaning of OK.
* `ok_means_executed`: in every run of such steps.
-/

namespace MyKvRaft

open Transition

variable {P : Libs}

/-! ## Requests on their way -/

/-- The two operations are of one request. -/
def Op.SameRequest (op op' : Op) : Prop :=
  op.ClientId = op'.ClientId ∧ op.RequestId = op'.RequestId

instance (op op' : Op) : Decidable (op.SameRequest op') := inferInstanceAs (Decidable (_ ∧ _))

namespace Handler

/-- The operation of a write that has not replied yet. -/
def pending : Handler → Option Op
  | .write _ (.replied _) => none
  | .write request _ => some request.op
  | .get _ _ => none

/-- The operation of a write that has replied OK. -/
def acknowledged : Handler → Option Op
  | .write request (.replied .OK) => some request.op
  | _ => none

theorem acknowledged_write {request : WriteRequest} {pc : WritePc} {op : Op} :
    acknowledged (.write request pc) = some op ↔ pc = .replied .OK ∧ op = request.op := by
  unfold acknowledged
  split
  · next heq =>
    cases heq
    simp [eq_comm]
  · next hne =>
    refine iff_of_false (by simp) ?_
    rintro ⟨rfl, _⟩
    exact hne request rfl

end Handler

/-- The operation `Apply` is past the check with. -/
def Applier.checked : Applier → Option Op
  | .record _ op _ => some op
  | .updateIndex _ op => some op
  | .findChannel _ op => some op
  | .push _ op => some op
  | _ => none

/-- The operation is in a channel. -/
def KvServer.Queued (s : KvServer P) (op : Op) : Prop :=
  ∃ index ch, s.waitApplyCh index = some ch ∧ op ∈ ch

namespace Server

def pending (s : Server P) : List Op := s.handlers.filterMap Handler.pending

def acknowledged (s : Server P) : List Op := s.handlers.filterMap Handler.acknowledged

/-- `Apply` has checked the operation, and its handler may still find it in the channel. -/
def Passed (s : Server P) (op : Op) : Prop := s.applier.checked = some op ∨ s.kv.Queued op

/-- `Apply` has executed an operation of the request. -/
def Executed (s : Server P) (op : Op) : Prop := ∃ op' ∈ s.executed, op'.SameRequest op

instance (s : Server P) (op : Op) : Decidable (s.Executed op) :=
  inferInstanceAs (Decidable (∃ op' ∈ s.executed, _))

/-- The writes under way that a record of `requestId` for the client covers are executed. -/
def Settled (s : Server P) (clientId : Bytes) (requestId : ℤ) : Prop :=
  ∀ op ∈ s.pending, op.ClientId = clientId → op.RequestId ≤ requestId → s.Executed op

instance (s : Server P) (clientId : Bytes) (requestId : ℤ) :
    Decidable (s.Settled clientId requestId) :=
  inferInstanceAs (Decidable (∀ op ∈ s.pending, _))

end Server

/-- A number is recorded for a client only when the writes under way that it covers are executed;
    an operation is taken for a duplicate only when it is, or no write under way has its
    number; and a write is called only when it is, or the server has not seen its number. -/
def RecordsExecuted (s : Server P) : ServerInput → Prop
  | .call (.write request) => s.Executed request.op ∨
      (s.kv.ifRequestDuplicate request.op.ClientId request.op.RequestId = false ∧
        ∀ op, s.Passed op → ¬ op.SameRequest request.op)
  | .handler k _ =>
    match s.handlers[k]? with
    | some (.get args (.record _)) => s.Settled args.clientid args.requestid
    | _ => True
  | .apply _ =>
    match s.applier with
    | .check _ op => s.kv.ifRequestDuplicate op.ClientId op.RequestId = true →
        ∀ op' ∈ s.pending, op.SameRequest op' → s.Executed op'
    | .record _ op _ => s.Settled op.ClientId op.RequestId
    | _ => True
  | _ => True

/-! ## What a step changes -/

theorem GetArgs.step_eq {args : GetArgs} {pc : GetPc} (hpc : ∀ value, pc ≠ .record value)
    (s : KvServer P) (raft : RaftAnswer) : (args.step pc s raft).1 = s := by
  unfold GetArgs.step
  split
  · rfl
  · split_ifs <;> rfl
  · rfl
  · split_ifs <;> rfl
  · rfl
  · next value => exact absurd rfl (hpc value)
  · rfl

namespace KvServer

variable {s : KvServer P} {index : ℤ} {op op' : Op}

/-- Whoever puts `ch` for the channel of an index adds no more than `ch` has. -/
theorem queued_update {ch : Option (List Op)}
    (h : ({ s with waitApplyCh := Function.update s.waitApplyCh index ch } : KvServer P).Queued op) :
    s.Queued op ∨ ∃ ops, ch = some ops ∧ op ∈ ops := by
  obtain ⟨j, ops, hj, hop⟩ := h
  dsimp only at hj
  by_cases hji : j = index
  · subst hji
    rw [Function.update_self] at hj
    exact .inr ⟨ops, hj, hop⟩
  · rw [Function.update_of_ne hji] at hj
    exact .inl ⟨j, ops, hj, hop⟩

theorem queued_openChannel (h : (s.openChannel index).Queued op) : s.Queued op := by
  rcases queued_update h with h | ⟨ops, hch, hop⟩
  · exact h
  · cases hold : s.waitApplyCh index with
    | none =>
      rw [hold] at hch
      cases hch
      cases hop
    | some old =>
      rw [hold] at hch
      cases hch
      exact ⟨index, old, hold, hop⟩

theorem queued_popChannel (h : (s.popChannel index).Queued op) : s.Queued op := by
  rcases queued_update h with h | ⟨ops, hch, hop⟩
  · exact h
  · obtain ⟨old, hold, rfl⟩ := Option.map_eq_some_iff.mp hch
    exact ⟨index, old, hold, List.mem_of_mem_tail hop⟩

theorem queued_notify (h : (s.notify index op').Queued op) : s.Queued op ∨ op = op' := by
  rcases queued_update h with h | ⟨ops, hch, hop⟩
  · exact .inl h
  · obtain ⟨old, hold, rfl⟩ := Option.map_eq_some_iff.mp hch
    rcases List.mem_append.mp hop with hop | hop
    · exact .inl ⟨index, old, hold, hop⟩
    · exact .inr (List.mem_singleton.mp hop)

theorem queued_of_nextCommitted (h : s.nextCommitted index = some op) : s.Queued op := by
  obtain ⟨ch, hch, hhead⟩ := Option.bind_eq_some_iff.mp h
  exact ⟨index, ch, hch, List.mem_of_mem_head? hhead⟩

end KvServer

theorem GetArgs.step_queued {args : GetArgs} {pc : GetPc} {s : KvServer P} {raft : RaftAnswer}
    {op : Op} (h : (args.step pc s raft).1.Queued op) : s.Queued op := by
  cases pc with
  | record value => exact h
  | _ =>
    rw [step_eq (fun value hpc => by cases hpc)] at h
    exact h

namespace WriteRequest

variable {request : WriteRequest} {pc : WritePc} {s : KvServer P} {raft : RaftAnswer}

/-- A write changes the channels only. -/
theorem step_eq : (request.step pc s raft).1 =
    { s with waitApplyCh := (request.step pc s raft).1.waitApplyCh } := by
  unfold step
  split
  · split_ifs <;> rfl
  · rfl
  · split <;> rfl
  · split_ifs <;> rfl
  · rfl

theorem step_queued {op : Op} (h : (request.step pc s raft).1.Queued op) : s.Queued op := by
  cases pc with
  | start =>
    simp only [step] at h
    split_ifs at h <;> exact h
  | channel index => exact KvServer.queued_openChannel h
  | wait index =>
    simp only [step] at h
    split at h
    · exact h
    · exact KvServer.queued_popChannel h
  | timedOut =>
    simp only [step] at h
    split_ifs at h <;> exact h
  | replied err => exact h

/-- When a write replies OK, the table has its number or a channel has its operation. -/
theorem step_ok (h : (request.step pc s raft).2 = .replied .OK) : pc = .replied .OK ∨
    s.ifRequestDuplicate request.op.ClientId request.op.RequestId = true ∨
      ∃ op, s.Queued op ∧ op.SameRequest request.op := by
  cases pc with
  | start =>
    simp only [step] at h
    split_ifs at h
    cases h
  | channel index => cases h
  | wait index =>
    simp only [step] at h
    split at h
    · cases h
    · next raftCommitOp hnext =>
      have hverdict : verdict request.op raftCommitOp = .OK := WritePc.replied.inj h
      unfold verdict at hverdict
      split_ifs at hverdict with hsame
      exact .inr (.inr ⟨raftCommitOp, KvServer.queued_of_nextCommitted hnext, hsame⟩)
  | timedOut =>
    simp only [step] at h
    split_ifs at h with hdup
    · exact .inr (.inl hdup)
    · cases h
  | replied err => exact .inl h

end WriteRequest

/-! ## The invariant -/

namespace Server

variable {s : Server P}

/-- The writes under way that the table covers, or whose operation has passed the check, are
    executed, and so are those that have replied OK. -/
structure Justified (s : Server P) : Prop where
  covered : ∀ op ∈ s.pending, s.kv.ifRequestDuplicate op.ClientId op.RequestId = true →
    s.Executed op
  passed : ∀ op ∈ s.pending, ∀ op', s.Passed op' → op'.SameRequest op → s.Executed op
  acknowledged : ∀ op ∈ s.acknowledged, s.Executed op

theorem justified_create (P : Libs) : (create P).Justified where
  covered op hop := by cases hop
  passed op hop := by cases hop
  acknowledged op hop := by cases hop

/-- A step that calls no write, and adds to the table, to what has passed and to the replies only
    what is executed. -/
theorem Justified.of_executed {s' : Server P} (h : s.Justified) (hexec : s.executed ⊆ s'.executed)
    (hpending : ∀ op ∈ s'.pending, op ∈ s.pending)
    (hack : ∀ op ∈ s'.acknowledged, op ∈ s.acknowledged ∨ s'.Executed op)
    (hdup : ∀ op ∈ s.pending, s'.kv.ifRequestDuplicate op.ClientId op.RequestId = true →
      s.kv.ifRequestDuplicate op.ClientId op.RequestId = true ∨ s'.Executed op)
    (hpassed : ∀ op ∈ s.pending, ∀ op', s'.Passed op' → op'.SameRequest op →
      s.Passed op' ∨ s'.Executed op) : s'.Justified := by
  have hkeep : ∀ {op}, s.Executed op → s'.Executed op :=
    fun ⟨op', hop', hsame⟩ => ⟨op', hexec hop', hsame⟩
  refine ⟨fun op hop hd => ?_, fun op hop op' hp hsame => ?_, fun op hop => ?_⟩
  · have hop := hpending op hop
    exact (hdup op hop hd).elim (fun hd => hkeep (h.covered op hop hd)) id
  · have hop := hpending op hop
    exact (hpassed op hop op' hp hsame).elim (fun hp => hkeep (h.passed op hop op' hp hsame)) id
  · exact (hack op hop).elim (fun hop => hkeep (h.acknowledged op hop)) id

theorem mem_filterMap_set {α : Type} {f : Handler → Option α} {l : List Handler} {k : ℕ}
    {h : Handler} {x : α} (hx : x ∈ (l.set k h).filterMap f) : f h = some x ∨ x ∈ l.filterMap f := by
  obtain ⟨h', hmem, heq⟩ := List.mem_filterMap.mp hx
  rcases List.mem_or_eq_of_mem_set hmem with hmem | rfl
  · exact .inr (List.mem_filterMap.mpr ⟨h', hmem, heq⟩)
  · exact .inl heq

theorem mem_pending {request : WriteRequest} {pc : WritePc} (h : .write request pc ∈ s.handlers)
    (hpc : ∀ err, pc ≠ .replied err) : request.op ∈ s.pending := by
  refine List.mem_filterMap.mpr ⟨_, h, ?_⟩
  cases pc with
  | replied err => exact absurd rfl (hpc err)
  | _ => rfl

/-- A step of a `Get`. -/
theorem Justified.get (h : s.Justified) {k : ℕ} {raft : RaftAnswer} {args : GetArgs} {pc : GetPc}
    (hk : s.handlers[k]? = some (.get args pc)) (hok : RecordsExecuted s (.handler k raft)) :
    (s.stepHandler k raft).Justified := by
  have hstep : s.stepHandler k raft =
      { s with
        kv := (args.step pc s.kv raft).1
        handlers := s.handlers.set k (.get args (args.step pc s.kv raft).2) } := by
    simp only [stepHandler, hk, Handler.step]
  rw [hstep]
  refine h.of_executed (fun _ hop => hop) ?_ ?_ ?_ ?_
  · exact fun op hop => (mem_filterMap_set hop).resolve_left (by simp [Handler.pending])
  · exact fun op hop => .inl ((mem_filterMap_set hop).resolve_left (by simp [Handler.acknowledged]))
  · intro op hop hd
    by_cases hrecord : ∃ value, pc = .record value
    · obtain ⟨value, rfl⟩ := hrecord
      rcases KvServer.duplicate_of_record hd with hd | ⟨hclient, hle⟩
      · exact .inl hd
      · simp only [RecordsExecuted, hk] at hok
        exact .inr (hok op hop hclient hle)
    · push Not at hrecord
      rw [GetArgs.step_eq hrecord] at hd
      exact .inl hd
  · rintro op hop op' (hp | hp) _
    · exact .inl (.inl hp)
    · exact .inl (.inr (GetArgs.step_queued hp))

/-- A step of a write. -/
theorem Justified.write (h : s.Justified) {k : ℕ} {raft : RaftAnswer} {request : WriteRequest}
    {pc : WritePc} (hk : s.handlers[k]? = some (.write request pc)) :
    (s.stepHandler k raft).Justified := by
  have hstep : s.stepHandler k raft =
      { s with
        kv := (request.step pc s.kv raft).1
        handlers := s.handlers.set k (.write request (request.step pc s.kv raft).2) } := by
    simp only [stepHandler, hk, Handler.step]
  have hmem := List.mem_of_getElem? hk
  rw [hstep]
  refine h.of_executed (fun _ hop => hop) ?_ ?_ ?_ ?_
  · intro op hop
    rcases mem_filterMap_set hop with heq | hop
    · have hpc : ∀ err, pc ≠ .replied err := by
        rintro err rfl
        cases heq
      have hop : op = request.op := by
        cases hpc' : (request.step pc s.kv raft).2 with
        | replied err =>
          rw [hpc'] at heq
          cases heq
        | _ =>
          rw [hpc'] at heq
          exact (Option.some.inj heq).symm
      exact hop ▸ mem_pending hmem hpc
    · exact hop
  · intro op hop
    rcases mem_filterMap_set hop with heq | hop
    · obtain ⟨hreply, rfl⟩ := Handler.acknowledged_write.mp heq
      by_cases hpc : ∃ err, pc = .replied err
      · obtain ⟨err, rfl⟩ := hpc
        refine .inl (List.mem_filterMap.mpr ⟨_, hmem, ?_⟩)
        exact Handler.acknowledged_write.mpr ⟨hreply, rfl⟩
      · push Not at hpc
        have hpending := mem_pending hmem hpc
        rcases WriteRequest.step_ok hreply with hpc' | hdup | ⟨op', hqueued, hsame⟩
        · exact absurd hpc' (hpc .OK)
        · exact .inr (h.covered _ hpending hdup)
        · exact .inr (h.passed _ hpending op' (.inr hqueued) hsame)
    · exact .inl hop
  · intro op hop hd
    rw [WriteRequest.step_eq] at hd
    exact .inl hd
  · rintro op hop op' (hp | hp) _
    · exact .inl (.inl hp)
    · exact .inl (.inr (WriteRequest.step_queued hp))

theorem Justified.timeOut (h : s.Justified) (k : ℕ) : (s.timeOut k).Justified := by
  unfold Server.timeOut
  cases hk : s.handlers[k]? with
  | none => exact h
  | some hd =>
    have hsame : ∀ {α : Type} {f : Handler → Option α} {x : α}, f (hd.timeOut s.kv) = f hd →
        x ∈ (s.handlers.set k (hd.timeOut s.kv)).filterMap f → x ∈ s.handlers.filterMap f := by
      intro α f x heq hx
      rcases mem_filterMap_set hx with hx | hx
      · exact List.mem_filterMap.mpr ⟨hd, List.mem_of_getElem? hk, heq ▸ hx⟩
      · exact hx
    have hboth : Handler.pending (hd.timeOut s.kv) = Handler.pending hd ∧
        Handler.acknowledged (hd.timeOut s.kv) = Handler.acknowledged hd := by
      unfold Handler.timeOut
      split
      · split_ifs
        · exact ⟨rfl, rfl⟩
        · exact ⟨rfl, rfl⟩
      · exact ⟨rfl, rfl⟩
    refine h.of_executed (fun _ hop => hop) ?_ ?_ (fun op _ hd => .inl hd)
      (fun op _ op' hp _ => .inl hp)
    · exact fun op hop => hsame hboth.1 hop
    · exact fun op hop => .inl (hsame hboth.2 hop)

/-- A step of the apply thread that executes nothing and leaves the table alone. -/
theorem Justified.applier (h : s.Justified) {kv : KvServer P} {a : Applier} {ch : List ApplyMsg}
    (htable : kv.ifRequestDuplicate = s.kv.ifRequestDuplicate)
    (hqueued : ∀ op, kv.Queued op → s.Passed op)
    (hchecked : ∀ op, a.checked = some op →
      s.Passed op ∨ ∀ op' ∈ s.pending, op.SameRequest op' → s.Executed op') :
    ({ s with kv := kv, applier := a, applyCh := ch } : Server P).Justified := by
  refine h.of_executed (fun _ hop => hop) (fun _ => id) (fun _ => .inl) ?_ ?_
  · intro op _ hd
    exact .inl (htable ▸ hd)
  · rintro op hop op' (hp | hp) hsame
    · exact (hchecked op' hp).imp_right fun hexec => hexec op hop hsame
    · exact .inl (hqueued op' hp)

theorem Justified.execute (h : s.Justified) {index : ℤ} {op : Op}
    (ha : s.applier = .execute index op) (uninit : ℤ) : (s.stepApplier uninit).Justified := by
  simp only [stepApplier, ha]
  refine h.of_executed (List.subset_cons_self _ _) (fun _ => id) (fun _ => .inl) ?_ ?_
  · intro op' _ hd
    left
    rw [KvServer.executeOnKVDB_eq] at hd
    exact hd
  · rintro op' _ op'' (hp | hp) hsame
    · cases hp
      exact .inr ⟨_, List.mem_cons_self, hsame⟩
    · rw [KvServer.executeOnKVDB_eq] at hp
      exact .inl (.inr hp)

theorem Justified.record (h : s.Justified) {index : ℤ} {op : Op} {value : Bytes}
    (ha : s.applier = .record index op value) {uninit : ℤ}
    (hok : RecordsExecuted s (.apply uninit)) : (s.stepApplier uninit).Justified := by
  simp only [stepApplier, ha]
  refine h.of_executed (fun _ hop => hop) (fun _ => id) (fun _ => .inl) ?_ ?_
  · intro op' hop' hd
    rcases KvServer.duplicate_of_record hd with hd | ⟨hclient, hle⟩
    · exact .inl hd
    · simp only [RecordsExecuted, ha] at hok
      exact .inr (hok op' hop' hclient hle)
  · rintro op' _ op'' (hp | hp) _
    · exact .inl (.inl (by rw [ha]; exact hp))
    · exact .inl (.inr hp)

/-- A step of the apply thread. -/
theorem Justified.apply (h : s.Justified) {uninit : ℤ} (hok : RecordsExecuted s (.apply uninit)) :
    (s.stepApplier uninit).Justified := by
  cases ha : s.applier with
  | idle =>
    cases hch : s.applyCh with
    | nil => simpa [stepApplier, ha, hch] using h
    | cons msg rest =>
      simp only [stepApplier, ha, hch]
      exact h.applier rfl (fun _ => .inr) fun op hp => by cases hp
  | check index op =>
    simp only [stepApplier, ha]
    split_ifs with hdup
    · refine h.applier rfl (fun _ => .inr) fun op' hp => ?_
      cases hp
      simp only [RecordsExecuted, ha] at hok
      exact .inr (hok hdup)
    · exact h.applier rfl (fun _ => .inr) fun op' hp => by cases hp
  | execute index op => exact h.execute ha uninit
  | record index op value => exact h.record ha hok
  | updateIndex index op =>
    simp only [stepApplier, ha]
    cases hupdate : s.kv.updateIndex op with
    | none => exact justified_create P
    | some kv =>
      rw [KvServer.updateIndex_eq, Option.map_eq_some_iff] at hupdate
      obtain ⟨e, _, rfl⟩ := hupdate
      exact h.applier rfl (fun _ => .inr) fun op' hp => .inl (.inl (by rw [ha]; exact hp))
  | findChannel index op =>
    simp only [stepApplier, ha]
    split_ifs
    · exact h.applier rfl (fun _ => .inr) fun op' hp => .inl (.inl (by rw [ha]; exact hp))
    · exact h.applier rfl (fun _ => .inr) fun op' hp => by cases hp
  | push index op =>
    simp only [stepApplier, ha]
    refine h.applier rfl (fun op' hp => ?_) fun op' hp => by cases hp
    rcases KvServer.queued_notify hp with hp | rfl
    · exact .inr hp
    · exact .inl (by rw [ha]; rfl)

/-- The call of a write that is executed, or that the server has not seen. -/
theorem Justified.call (h : s.Justified) {request : Request}
    (hok : RecordsExecuted s (.call request)) : (s.step (.call request)).Justified := by
  have hpending : (s.step (.call request)).pending =
      s.pending ++ [request.handler].filterMap Handler.pending := List.filterMap_append
  have hacks : (s.step (.call request)).acknowledged = s.acknowledged := by
    refine List.filterMap_append.trans ?_
    cases request with
    | get args => exact List.append_nil _
    | write request => exact List.append_nil _
  refine ⟨fun op hop hd => ?_, fun op hop op' hp hsame => ?_, fun op hop => ?_⟩
  · rw [hpending] at hop
    rcases List.mem_append.mp hop with hop | hop
    · exact h.covered op hop hd
    · cases request with
      | get args => cases hop
      | write request =>
        obtain rfl := List.mem_singleton.mp hop
        rcases hok with hexec | ⟨hnew, _⟩
        · exact hexec
        · exact absurd (hnew.symm.trans hd) (by simp)
  · rw [hpending] at hop
    rcases List.mem_append.mp hop with hop | hop
    · exact h.passed op hop op' hp hsame
    · cases request with
      | get args => cases hop
      | write request =>
        obtain rfl := List.mem_singleton.mp hop
        rcases hok with hexec | ⟨_, hnew⟩
        · exact hexec
        · exact absurd hsame (hnew op' hp)
  · rw [hacks] at hop
    exact h.acknowledged op hop

theorem Justified.search (h : s.Justified) : s.search.Justified := by
  unfold Server.search KvServer.buildIndexIfNeeded
  split_ifs
  · exact h
  · cases (P.foreach s.kv.kvdb).foldlM KvServer.indexPair s.kv.recallEngine with
    | none => exact justified_create P
    | some e => exact ⟨h.covered, h.passed, h.acknowledged⟩

theorem Justified.step (h : s.Justified) {input : ServerInput} (hok : RecordsExecuted s input) :
    (s.step input).Justified := by
  cases input with
  | call request => exact h.call hok
  | handler k raft =>
    cases hk : s.handlers[k]? with
    | none => simpa [Server.step, stepHandler, hk] using h
    | some hd =>
      cases hd with
      | get args pc => exact h.get hk hok
      | write request pc => exact h.write hk
  | timeOut k => exact h.timeOut k
  | push msg => exact ⟨h.covered, h.passed, h.acknowledged⟩
  | apply uninit => exact h.apply hok
  | search => exact h.search
  | crash => exact justified_create P

end Server

/-! ## Every run -/

/-- In every run that records only what is executed: whatever write has replied OK, `Apply` has
    executed an operation of its request. -/
theorem ok_means_executed (P : Libs) (h : List (Server P × ServerInput)) (s : Server P)
    (hr : Run Server.step RecordsExecuted (Server.create P) h s) :
    ∀ op ∈ s.acknowledged, s.Executed op := by
  have hs : s.Justified := hr.invariant (Server.justified_create P) fun s x hs hok => hs.step hok
  exact hs.acknowledged

/-! ## Runs on given inputs -/

section Decidable

variable (s : Server P)

instance (k : ℕ) (raft : RaftAnswer) : Decidable (RecordsExecuted s (.handler k raft)) :=
  show Decidable (match s.handlers[k]? with
    | some (.get args (.record _)) => s.Settled args.clientid args.requestid
    | _ => True) from
  match s.handlers[k]? with
  | some (.get args (.record _)) =>
    inferInstanceAs (Decidable (s.Settled args.clientid args.requestid))
  | some (.get _ .getState) => .isTrue trivial
  | some (.get _ (.checkDuplicate _)) => .isTrue trivial
  | some (.get _ .readCache) => .isTrue trivial
  | some (.get _ .getCommitIndex) => .isTrue trivial
  | some (.get _ .readValue) => .isTrue trivial
  | some (.get _ (.replied _)) => .isTrue trivial
  | some (.write _ _) => .isTrue trivial
  | none => .isTrue trivial

instance (msg : ApplyMsg) : Decidable (RecordsExecuted s (.push msg)) := .isTrue trivial

instance (uninit : ℤ) : Decidable (RecordsExecuted s (.apply uninit)) :=
  show Decidable (match s.applier with
    | .check _ op => s.kv.ifRequestDuplicate op.ClientId op.RequestId = true →
        ∀ op' ∈ s.pending, op.SameRequest op' → s.Executed op'
    | .record _ op _ => s.Settled op.ClientId op.RequestId
    | _ => True) from
  match s.applier with
  | .check _ op => inferInstanceAs
      (Decidable (s.kv.ifRequestDuplicate op.ClientId op.RequestId = true → ∀ op' ∈ s.pending, _))
  | .record _ op _ => inferInstanceAs (Decidable (s.Settled op.ClientId op.RequestId))
  | .idle => .isTrue trivial
  | .execute _ _ => .isTrue trivial
  | .updateIndex _ _ => .isTrue trivial
  | .findChannel _ _ => .isTrue trivial
  | .push _ _ => .isTrue trivial

end Decidable

/-- Client `c` puts a value under the key `a`. -/
def putRequest : WriteRequest := .putAppend ⟨[97], [1], [99], 1, opPut⟩

/-- The next read of that client. -/
def getRequest : GetArgs := ⟨[97], [99], 2⟩

/-- The put is executed and its handler takes it from the channel. -/
def servedPut : List ServerInput :=
  [.handler 0 ⟨true, 1⟩, .handler 0 ⟨true, 0⟩, .push (.ofCommand 1 (encodeOp putRequest.op)),
    .apply 0, .apply 0, .apply 0, .apply 0, .apply 0, .apply 0, .apply 0, .handler 0 ⟨true, 0⟩]

/-- The put waits while the read fills the table, and times out. -/
def overtakenPut : List ServerInput :=
  [.call (.write putRequest), .handler 0 ⟨true, 1⟩, .handler 0 ⟨true, 0⟩,
    .call (.get getRequest), .handler 1 ⟨true, 0⟩, .handler 1 ⟨true, 0⟩, .handler 1 ⟨true, 0⟩,
    .handler 1 ⟨true, 0⟩, .timeOut 0, .handler 0 ⟨true, 0⟩]

/-- A fresh server has not seen any write. -/
theorem recordsExecuted_create (request : WriteRequest) :
    RecordsExecuted (Server.create P) (.call (.write request)) := by
  refine .inr ⟨rfl, ?_⟩
  rintro op (hp | ⟨index, ch, hch, _⟩)
  · cases hp
  · cases hch

theorem ok_means_executed_servedPut : ∃ s : Server listLibs,
    s.acknowledged = [putRequest.op] ∧ s.Executed putRequest.op := by
  have hcall := Run.snoc (.nil : Run Server.step RecordsExecuted (Server.create listLibs) [] _)
    (recordsExecuted_create putRequest)
  have hr := hcall.append_history servedPut (by
    simp only [servedPut, history, List.forall_mem_cons, List.not_mem_nil, false_implies,
      implies_true, and_true]
    decide +kernel)
  have hack : (servedPut.foldl Server.step
      ((Server.create listLibs).step (.call (.write putRequest)))).acknowledged =
        [putRequest.op] := by decide +kernel
  exact ⟨_, hack, ok_means_executed listLibs _ _ hr _ (by rw [hack]; exact List.mem_cons_self)⟩

/-- A read of the client makes a put that times out reply OK, and nothing is executed. -/
theorem ok_means_executed_fails : ∃ (h : List (Server listLibs × ServerInput))
    (s : Server listLibs), Run Server.step anyStep (Server.create listLibs) h s ∧
      s.acknowledged = [putRequest.op] ∧ s.executed = [] :=
  ⟨_, _, run_history overtakenPut fun _ _ => trivial, by decide +kernel, by decide +kernel⟩

end MyKvRaft
