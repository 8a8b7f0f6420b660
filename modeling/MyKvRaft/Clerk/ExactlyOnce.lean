import MyKvRaft.Clerk.Copies
import MyKvRaft.Common.Run

/-!
# Acknowledged puts are executed once

With numbers of their own, puts are executed once, as long as the table of last requests
remembers them: a `Get` that is late to record its number uncovers the numbers above it,
which lets a second copy of an executed put through.

* `Once.step`: what is executed is not executed again.
* `exactly_once`: in every run of clerks with numbers of their own.
-/

namespace MyKvRaft

open Transition

variable {P : Libs}

/-- The operation the apply thread is about to execute. -/
def Applier.executing : Applier → Option Op
  | .execute _ op => some op
  | _ => none

/-- The operation whose number the apply thread is about to record. -/
def Applier.recording : Applier → Option Op
  | .record _ op _ => some op
  | _ => none

namespace Service

variable {s : Service P}

/-- A `Get` records its number only if no executed put with a greater one may return, but for
    the put whose number is recorded next. -/
def UncoversNone (s : Service P) (k : ℕ) : Prop :=
  match s.server.handlers[k]? with
  | some (.get args (.record _)) => ∀ op ∈ s.server.executed, op.ClientId = args.clientid →
      args.requestid < op.RequestId → s.MayReturn op → s.server.applier.recording = some op
  | _ => True

/-! ## Executed once -/

/-- The client has made a later call. -/
def Overtaken (s : Service P) (op : Op) : Prop :=
  ∃ r ∈ s.calls, r.op.ClientId = op.ClientId ∧ op.RequestId < r.op.RequestId

/-- The put is executed, or nobody waits for it any more. -/
def Done (s : Service P) (op : Op) : Prop := op ∈ s.server.executed ∨ s.Overtaken op

/-- Numbers in the table are those of reads and of executed puts; what `Apply` has checked, and
    what has been answered, is done; and no put is executed twice, because the table covers
    the executed ones as long as they may return. -/
structure Once (s : Service P) : Prop where
  table : ∀ clientId record, s.server.kv.lastRequests clientId = some record → ∃ r ∈ s.calls,
    r.op.ClientId = clientId ∧ r.op.RequestId = record.lastRequestId ∧
      ∀ w, r = .write w → w.op ∈ s.server.executed
  passed : ∀ op, s.server.Passed op → s.Done op
  replied : ∀ op ∈ s.server.acknowledged, s.Done op
  acknowledged : ∀ op ∈ s.acknowledged, op ∈ s.server.executed
  nodup : s.server.executed.Nodup
  recording : ∀ op, s.server.applier.recording = some op → op ∈ s.server.executed
  fresh : ∀ op, s.server.applier.executing = some op → op ∉ s.server.executed
  guarded : ∀ op ∈ s.server.executed,
    s.server.kv.ifRequestDuplicate op.ClientId op.RequestId = true ∨ ¬ s.MayReturn op ∨
      s.server.applier.recording = some op
  ahead : ∀ op, s.server.applier.executing = some op ∨ s.server.applier.recording = some op →
    ∀ op' ∈ s.server.executed, op'.ClientId = op.ClientId → op.RequestId < op'.RequestId →
      ¬ s.MayReturn op'

theorem once_init (P : Libs) : (init P).Once where
  table clientId record h := by cases h
  passed op hop := by
    rcases hop with hop | ⟨index, ch, hch, _⟩
    · cases hop
    · cases hch
  replied op hop := by cases hop
  acknowledged op hop := by cases hop
  nodup := List.nodup_nil
  recording op hop := by cases hop
  fresh op hop := by cases hop
  guarded op hop := by cases hop
  ahead op hop op' hop' := by cases hop'

/-- A put that the table covers is done. -/
theorem Once.covered (h : s.Once) (hc : s.Calls) {op : Op} (hput : s.Put op)
    (hdup : s.server.kv.ifRequestDuplicate op.ClientId op.RequestId = true) : s.Done op := by
  obtain ⟨w, hw, rfl⟩ := hput
  obtain ⟨record, hrecord, hle⟩ := KvServer.ifRequestDuplicate_iff.mp hdup
  obtain ⟨r, hr, hclient, hnum, hexec⟩ := h.table _ record hrecord
  rcases hle.lt_or_eq with hlt | heq
  · exact .inr ⟨r, hr, hclient, hnum ▸ hlt⟩
  · have hsame : r = .write w := hc.distinct r hr _ hw ⟨hclient, hnum.trans heq.symm⟩
    exact .inl (hexec w hsame)

theorem Overtaken.mono {s' : Service P} (hcalls : s.calls ⊆ s'.calls) {op : Op}
    (h : s.Overtaken op) : s'.Overtaken op := by
  obtain ⟨r, hr, hlater⟩ := h
  exact ⟨r, hcalls hr, hlater⟩

/-- The put a clerk is calling is executed once it is done. -/
theorem Calls.executed_of_done (hc : s.Calls) {c : Clerk} (hmem : c ∈ s.clerks) {call : ClerkCall}
    (hcall : c.call = some call) (h : s.Done call.request.op) :
    call.request.op ∈ s.server.executed := by
  refine h.resolve_right ?_
  rintro ⟨r, hr, hclient, hlt⟩
  obtain ⟨hmade, hid, hnum⟩ := hc.current c hmem call hcall
  obtain ⟨c', hmem', hid', _, hle⟩ := hc.numbered r hr
  obtain ⟨_, _, _, hpos, _⟩ := hc.numbered _ hmade
  obtain ⟨i, hi⟩ := List.mem_iff_getElem?.mp hmem
  obtain ⟨j, hj⟩ := List.mem_iff_getElem?.mp hmem'
  by_cases hij : j = i
  · subst hij
    rw [hj] at hi
    cases hi
    omega
  · refine hc.users j i c' c hj hi hij (by omega) (by omega) ?_
    rw [hid', hclient, hid]

/-- An answer OK to a put is that of a handler that has replied OK. -/
theorem Sent.answered (h : s.Sent) {c : Clerk} (hmem : c ∈ s.clerks) {call : ClerkCall}
    (hcall : c.call = some call) {w : WriteRequest} (hw : call.request = .write w) {rpc : ℕ}
    (hrpc : call.rpc = some rpc) (hans : s.answer rpc = some .OK) :
    w.op ∈ s.server.acknowledged := by
  obtain ⟨r, hr, hreq⟩ := h.waits c hmem call hcall rpc hrpc
  simp only [answer, hr, Option.bind_eq_bind, Option.bind_some, Option.bind_eq_some_iff] at hans
  obtain ⟨k, hk, hd, hget, hreply⟩ := hans
  have hsame := h.handled r (List.mem_of_getElem? hr) k hk
  rw [Server.requests, List.getElem?_map, hget, Option.map_some, hreq, hw, Option.some.injEq] at hsame
  refine List.mem_filterMap.mpr ⟨hd, List.mem_of_getElem? hget, ?_⟩
  cases hd with
  | get args pc => cases hsame
  | write request pc =>
    cases hsame
    refine Handler.acknowledged_write.mpr ⟨?_, rfl⟩
    cases pc with
    | replied err => exact congrArg WritePc.replied (Option.some.inj hreply)
    | _ => cases hreply

/-- The table after the number of a read, or of an executed put, has been recorded. -/
theorem Once.table_record (h : s.Once) {r : Request} (hr : r ∈ s.calls)
    (hexec : ∀ w, r = .write w → w.op ∈ s.server.executed) {value clientId : Bytes}
    {record : RequestRecord}
    (hrecord : (s.server.kv.recordRequestResult r.op value).lastRequests clientId = some record) :
    ∃ r ∈ s.calls, r.op.ClientId = clientId ∧ r.op.RequestId = record.lastRequestId ∧
      ∀ w, r = .write w → w.op ∈ s.server.executed := by
  by_cases hclient : clientId = r.op.ClientId
  · subst hclient
    simp only [KvServer.recordRequestResult, Function.update_self, Option.some.injEq] at hrecord
    subst hrecord
    exact ⟨r, hr, rfl, rfl, hexec⟩
  · simp only [KvServer.recordRequestResult, Function.update_of_ne hclient] at hrecord
    exact h.table clientId record hrecord

/-- A step in which the apply thread does nothing: of the table, only a `Get` writes it. -/
theorem Once.keep {s' : Service P} (h : s.Once) (hsent : s.Sent) (hcalls : s.calls ⊆ s'.calls)
    (hback : ∀ op, s.Put op → s'.MayReturn op → s.MayReturn op)
    (happlier : s'.server.applier = s.server.applier)
    (hexec : s'.server.executed = s.server.executed)
    (hqueued : ∀ op, s'.server.kv.Queued op → s.server.kv.Queued op)
    (hreplied : ∀ op ∈ s'.server.acknowledged, op ∈ s.server.acknowledged ∨ s.Done op)
    (hacks : ∀ op ∈ s'.acknowledged, op ∈ s.acknowledged ∨ op ∈ s.server.executed)
    (htable : s'.server.kv.lastRequests = s.server.kv.lastRequests ∨ ∃ args value,
      .get args ∈ s.calls ∧ (∀ op ∈ s.server.executed, op.ClientId = args.clientid →
        args.requestid < op.RequestId → s.MayReturn op → s.server.applier.recording = some op) ∧
      s'.server.kv.lastRequests =
        (s.server.kv.recordRequestResult args.op value).lastRequests) : s'.Once := by
  have hdone : ∀ {op}, s.Done op → s'.Done op := fun hop =>
    hop.imp (fun hop => hexec ▸ hop) (Overtaken.mono hcalls)
  refine ⟨?_, ?_, ?_, ?_, hexec ▸ h.nodup, ?_, ?_, ?_, ?_⟩
  · intro clientId record hrecord
    have hold : ∃ r ∈ s.calls, r.op.ClientId = clientId ∧
        r.op.RequestId = record.lastRequestId ∧
        ∀ w, r = .write w → w.op ∈ s.server.executed := by
      rcases htable with heq | ⟨args, value, hget, _, heq⟩
      · rw [heq] at hrecord
        exact h.table clientId record hrecord
      · rw [heq] at hrecord
        exact h.table_record hget (fun w hw => by cases hw) hrecord
    obtain ⟨r, hr, hclient, hnum, hw⟩ := hold
    exact ⟨r, hcalls hr, hclient, hnum, fun w hrw => hexec ▸ hw w hrw⟩
  · rintro op (hop | hop)
    · exact hdone (h.passed op (.inl (happlier ▸ hop)))
    · exact hdone (h.passed op (.inr (hqueued op hop)))
  · intro op hop
    exact hdone ((hreplied op hop).elim (h.replied op) id)
  · intro op hop
    rw [hexec]
    exact (hacks op hop).elim (h.acknowledged op) id
  · rw [happlier, hexec]
    exact h.recording
  · rw [happlier, hexec]
    exact h.fresh
  · intro op hop
    rw [hexec] at hop
    rw [happlier]
    have hput := hsent.carries.executed op hop
    rcases h.guarded op hop with hdup | hno | hrec
    · rcases htable with heq | ⟨args, value, _, hunc, heq⟩
      · exact .inl (KvServer.duplicate_congr heq _ _ ▸ hdup)
      · by_cases hcover : op.ClientId = args.clientid ∧ args.requestid < op.RequestId
        · by_cases hmay : s'.MayReturn op
          · exact .inr (.inr (hunc op hop hcover.1 hcover.2 (hback op hput hmay)))
          · exact .inr (.inl hmay)
        · left
          rw [KvServer.duplicate_congr heq]
          exact KvServer.duplicate_record_of_le
            (fun hclient => not_lt.mp fun hlt => hcover ⟨hclient, hlt⟩) value hdup
    · exact .inr (.inl fun hmay => hno (hback op hput hmay))
    · exact .inr (.inr hrec)
  · intro op hop op' hop' hclient hlt hmay
    rw [happlier] at hop
    rw [hexec] at hop'
    exact h.ahead op hop op' hop' hclient hlt (hback op' (hsent.carries.executed op' hop') hmay)

/-- A step of the apply thread that neither executes nor records. -/
theorem Once.advance {s' : Service P} (h : s.Once) (hsent : s.Sent) (hcalls : s'.calls = s.calls)
    (hback : ∀ op, s.Put op → s'.MayReturn op → s.MayReturn op)
    (hhandlers : s'.server.handlers = s.server.handlers)
    (hacks : s'.acknowledged = s.acknowledged)
    (hexec : s'.server.executed = s.server.executed)
    (htable : s'.server.kv.lastRequests = s.server.kv.lastRequests)
    (hpassed : ∀ op, s'.server.Passed op → s.server.Passed op ∨ s.Done op)
    (hbefore : s.server.applier.recording = none)
    (hafter : s'.server.applier.recording = none ∧ s'.server.applier.executing = none) :
    s'.Once := by
  have hdone : ∀ {op}, s.Done op → s'.Done op := fun hop =>
    hop.imp (fun hop => hexec ▸ hop) (Overtaken.mono (hcalls ▸ List.Subset.refl _))
  refine ⟨?_, ?_, ?_, ?_, hexec ▸ h.nodup, ?_, ?_, ?_, ?_⟩
  · rw [htable, hexec, hcalls]
    exact h.table
  · exact fun op hop => hdone ((hpassed op hop).elim (h.passed op) id)
  · intro op hop
    rw [Server.acknowledged, hhandlers] at hop
    exact hdone (h.replied op hop)
  · rw [hacks, hexec]
    exact h.acknowledged
  · intro op hop
    rw [hafter.1] at hop
    cases hop
  · intro op hop
    rw [hafter.2] at hop
    cases hop
  · intro op hop
    rw [hexec] at hop
    rcases h.guarded op hop with hdup | hno | hrec
    · exact .inl (KvServer.duplicate_congr htable _ _ ▸ hdup)
    · exact .inr (.inl fun hmay => hno (hback op (hsent.carries.executed op hop) hmay))
    · rw [hbefore] at hrec
      cases hrec
  · intro op hop
    rw [hafter.1, hafter.2] at hop
    rcases hop with hop | hop <;> cases hop

/-- A put passes the check: it has not been executed, and of what has been, nothing that it
    uncovers may return. -/
theorem Once.check {sv : Server P} {index : ℤ} {op : Op} (h : s.Once) (hsent : s.Sent)
    (ha : s.server.applier = .check index op) (hsv : sv = { s.server with applier := .execute index op })
    (hdup : s.server.kv.ifRequestDuplicate op.ClientId op.RequestId = false)
    (hback : ∀ op', s.Put op' → ({ s with server := sv } : Service P).MayReturn op' →
      s.MayReturn op') : ({ s with server := sv } : Service P).Once := by
  subst hsv
  have hrec : s.server.applier.recording = none := by rw [ha]; rfl
  refine ⟨h.table, ?_, h.replied, h.acknowledged, h.nodup, ?_, ?_, ?_, ?_⟩
  · rintro op' (hop' | hop')
    · cases hop'
    · exact h.passed op' (.inr hop')
  · intro op' hop'
    cases hop'
  · intro op' hop' hin
    cases hop'
    rcases h.guarded op hin with hd | hno | hr
    · rw [hd] at hdup
      cases hdup
    · exact hno (.inr (.inr (.inr (.inr (.inr (by rw [ha]; rfl))))))
    · rw [hrec] at hr
      cases hr
  · intro op' hop'
    rcases h.guarded op' hop' with hd | hno | hr
    · exact .inl hd
    · exact .inr (.inl fun hmay => hno (hback op' (hsent.carries.executed op' hop') hmay))
    · rw [hrec] at hr
      cases hr
  · rintro op' (hop' | hop') op'' hop'' hclient hlt hmay
    · cases hop'
      rcases h.guarded op'' hop'' with hd | hno | hr
      · obtain ⟨record, hrecord, hle⟩ := KvServer.ifRequestDuplicate_iff.mp hd
        rw [hclient] at hrecord
        rw [KvServer.ifRequestDuplicate_iff.mpr ⟨record, hrecord, by omega⟩] at hdup
        cases hdup
      · exact hno (hback op'' (hsent.carries.executed op'' hop'') hmay)
      · rw [hrec] at hr
        cases hr
    · cases hop'

/-- A put is executed. -/
theorem Once.execute {sv : Server P} {index : ℤ} {op : Op} (h : s.Once) (hsent : s.Sent)
    (ha : s.server.applier = .execute index op)
    (hsv : sv = { s.server with
      kv := (s.server.kv.executeOnKVDB op).1
      applier := .record index op (s.server.kv.executeOnKVDB op).2
      executed := op :: s.server.executed })
    (hback : ∀ op', s.Put op' → ({ s with server := sv } : Service P).MayReturn op' →
      s.MayReturn op') : ({ s with server := sv } : Service P).Once := by
  subst hsv
  have htable : (s.server.kv.executeOnKVDB op).1.lastRequests = s.server.kv.lastRequests := by
    rw [KvServer.executeOnKVDB_eq]
  have hrec : s.server.applier.recording = none := by rw [ha]; rfl
  have hdone : ∀ {op'}, s.Done op' → op' ∈ op :: s.server.executed ∨ s.Overtaken op' :=
    fun hop' => hop'.imp (List.mem_cons_of_mem op) id
  refine ⟨?_, ?_, ?_, ?_, ?_, ?_, ?_, ?_, ?_⟩
  · intro clientId record hrecord
    change (s.server.kv.executeOnKVDB op).1.lastRequests clientId = _ at hrecord
    rw [htable] at hrecord
    obtain ⟨r, hr, hclient, hnum, hw⟩ := h.table clientId record hrecord
    exact ⟨r, hr, hclient, hnum, fun w hrw => List.mem_cons_of_mem op (hw w hrw)⟩
  · rintro op' (hop' | hop')
    · cases hop'
      exact .inl List.mem_cons_self
    · change (s.server.kv.executeOnKVDB op).1.Queued op' at hop'
      rw [KvServer.executeOnKVDB_eq] at hop'
      exact hdone (h.passed op' (.inr hop'))
  · exact fun op' hop' => hdone (h.replied op' hop')
  · exact fun op' hop' => List.mem_cons_of_mem op (h.acknowledged op' hop')
  · exact List.nodup_cons.mpr ⟨h.fresh op (by rw [ha]; rfl), h.nodup⟩
  · intro op' hop'
    cases hop'
    exact List.mem_cons_self
  · intro op' hop'
    cases hop'
  · intro op' hop'
    rcases List.mem_cons.mp hop' with rfl | hop'
    · exact .inr (.inr rfl)
    · rcases h.guarded op' hop' with hd | hno | hr
      · exact .inl (KvServer.duplicate_congr htable _ _ ▸ hd)
      · exact .inr (.inl fun hmay => hno (hback op' (hsent.carries.executed op' hop') hmay))
      · rw [hrec] at hr
        cases hr
  · rintro op' (hop' | hop') op'' hop'' hclient hlt hmay
    · cases hop'
    · cases hop'
      rcases List.mem_cons.mp hop'' with rfl | hop''
      · exact lt_irrefl _ hlt
      · exact h.ahead op (.inl (by rw [ha]; rfl)) op'' hop'' hclient hlt
          (hback op'' (hsent.carries.executed op'' hop'') hmay)

/-- The number of an executed put is recorded. -/
theorem Once.record {sv : Server P} {index : ℤ} {op : Op} {value : Bytes} (h : s.Once)
    (hsent : s.Sent) (ha : s.server.applier = .record index op value)
    (hsv : sv = { s.server with
      kv := s.server.kv.recordRequestResult op value
      applier := .updateIndex index op })
    (hback : ∀ op', s.Put op' → ({ s with server := sv } : Service P).MayReturn op' →
      s.MayReturn op') : ({ s with server := sv } : Service P).Once := by
  subst hsv
  have hin : op ∈ s.server.executed := h.recording op (by rw [ha]; rfl)
  refine ⟨?_, ?_, h.replied, h.acknowledged, h.nodup, ?_, ?_, ?_, ?_⟩
  · intro clientId record hrecord
    obtain ⟨w, hw, rfl⟩ := hsent.carries.executed op hin
    refine h.table_record hw (fun w' hw' => ?_) hrecord
    cases hw'
    exact hin
  · rintro op' (hop' | hop')
    · cases hop'
      exact h.passed op (.inl (by rw [ha]; rfl))
    · exact h.passed op' (.inr hop')
  · intro op' hop'
    cases hop'
  · intro op' hop'
    cases hop'
  · intro op' hop'
    rcases h.guarded op' hop' with hd | hno | hr
    · by_cases hle : op'.ClientId = op.ClientId → op'.RequestId ≤ op.RequestId
      · exact .inl (KvServer.duplicate_record_of_le hle value hd)
      · obtain ⟨hclient, hlt⟩ := Classical.not_imp.mp hle
        refine .inr (.inl fun hmay => ?_)
        exact h.ahead op (.inr (by rw [ha]; rfl)) op' hop' hclient (not_le.mp hlt)
          (hback op' (hsent.carries.executed op' hop') hmay)
    · exact .inr (.inl fun hmay => hno (hback op' (hsent.carries.executed op' hop') hmay))
    · rw [ha] at hr
      cases hr
      exact .inl (KvServer.duplicate_record_self value)
  · intro op' hop'
    rcases hop' with hop' | hop' <;> cases hop'

/-- A step of the apply thread, given as what it changes, that neither executes nor records. -/
theorem Once.goesOn (h : s.Once) (hsent : s.Sent) {uninit : ℤ} (kv : KvServer P) (a : Applier)
    (ch : List ApplyMsg)
    (hsv : s.server.stepApplier uninit = { s.server with kv := kv, applier := a, applyCh := ch })
    (hback : ∀ op, s.Put op →
      ({ s with server := s.server.stepApplier uninit } : Service P).MayReturn op → s.MayReturn op)
    (htable : kv.lastRequests = s.server.kv.lastRequests)
    (hqueued : ∀ op, kv.Queued op → s.server.Passed op)
    (hchecked : ∀ op, a.checked = some op → s.server.Passed op ∨ s.Done op)
    (hbefore : s.server.applier.recording = none)
    (hafter : a.recording = none ∧ a.executing = none) :
    ({ s with server := s.server.stepApplier uninit } : Service P).Once := by
  rw [hsv] at hback ⊢
  refine h.advance hsent rfl hback rfl rfl rfl htable ?_ hbefore hafter
  rintro op (hop | hop)
  · exact hchecked op hop
  · exact .inl (hqueued op hop)

theorem Once.apply (h : s.Once) (hsent : s.Sent) (hc : s.Calls) (rand : ℤ → ℤ) (uninit : ℤ) :
    (s.step rand (.apply uninit)).Once := by
  have hback : ∀ op, s.Put op → (s.step rand (.apply uninit)).MayReturn op → s.MayReturn op :=
    fun op hput hmay => hsent.copies_back hc rand (.apply uninit) trivial hput hmay
  change ∀ op, s.Put op →
    ({ s with server := s.server.stepApplier uninit } : Service P).MayReturn op → _ at hback
  show ({ s with server := s.server.stepApplier uninit } : Service P).Once
  have hput : ∀ op, s.server.applier.op = some op → s.Put op := hsent.carries.applier
  cases ha : s.server.applier with
  | idle =>
    cases hch : s.server.applyCh with
    | nil => simpa [Server.stepApplier, ha, hch] using h
    | cons msg rest =>
      refine h.goesOn hsent s.server.kv (.check msg.index (decodeOp uninit msg.command)) rest ?_
        hback rfl (fun _ => .inr) (fun op hop => by cases hop) (by rw [ha]; rfl) ⟨rfl, rfl⟩
      simp only [Server.stepApplier, ha, hch]
  | check index op =>
    cases hdup : s.server.kv.ifRequestDuplicate op.ClientId op.RequestId with
    | true =>
      refine h.goesOn hsent s.server.kv (.findChannel index op) s.server.applyCh ?_ hback rfl
        (fun _ => .inr) (fun op' hop' => ?_) (by rw [ha]; rfl) ⟨rfl, rfl⟩
      · simp only [Server.stepApplier, ha, hdup, if_true]
      · cases hop'
        exact .inr (h.covered hc (hput op (by rw [ha]; rfl)) hdup)
    | false =>
      refine h.check hsent ha ?_ hdup hback
      simp only [Server.stepApplier, ha, hdup, Bool.false_eq_true, if_false]
  | execute index op =>
    refine h.execute hsent ha ?_ hback
    simp only [Server.stepApplier, ha]
  | record index op value =>
    refine h.record hsent ha ?_ hback
    simp only [Server.stepApplier, ha]
  | updateIndex index op =>
    have hop := (hput op (by rw [ha]; rfl)).operation hc
    refine h.goesOn hsent s.server.kv (.findChannel index op) s.server.applyCh ?_ hback rfl
      (fun _ => .inr) (fun op' hop' => .inl (.inl (by rw [ha]; exact hop'))) (by rw [ha]; rfl)
      ⟨rfl, rfl⟩
    simp only [Server.stepApplier, ha, updateIndex_put hop]
  | findChannel index op =>
    by_cases hch : (s.server.kv.waitApplyCh index).isSome = true
    · refine h.goesOn hsent s.server.kv (.push index op) s.server.applyCh ?_ hback rfl
        (fun _ => .inr) (fun op' hop' => .inl (.inl (by rw [ha]; exact hop'))) (by rw [ha]; rfl)
        ⟨rfl, rfl⟩
      simp only [Server.stepApplier, ha, hch, if_true]
    · refine h.goesOn hsent s.server.kv .idle s.server.applyCh ?_ hback rfl (fun _ => .inr)
        (fun op' hop' => by cases hop') (by rw [ha]; rfl) ⟨rfl, rfl⟩
      simp only [Server.stepApplier, ha]
      rw [if_neg hch]
  | push index op =>
    refine h.goesOn hsent (s.server.kv.notify index op) .idle s.server.applyCh ?_ hback rfl
      (fun op' hop' => ?_) (fun op' hop' => by cases hop') (by rw [ha]; rfl) ⟨rfl, rfl⟩
    · simp only [Server.stepApplier, ha]
    · rcases KvServer.queued_notify hop' with hop' | rfl
      · exact .inr hop'
      · exact .inl (by rw [ha]; rfl)

/-- A step in which the server does nothing. -/
theorem Once.idle {s' : Service P} (h : s.Once) (hsent : s.Sent) (hserver : s'.server = s.server)
    (hcalls : s.calls ⊆ s'.calls) (hback : ∀ op, s.Put op → s'.MayReturn op → s.MayReturn op)
    (hacks : ∀ op ∈ s'.acknowledged, op ∈ s.acknowledged ∨ op ∈ s.server.executed) : s'.Once :=
  h.keep hsent hcalls hback (by rw [hserver]) (by rw [hserver]) (by rw [hserver]; exact fun op => id)
    (by rw [hserver]; exact fun op => .inl) hacks (.inl (by rw [hserver]))

/-- A step of the server beside the apply thread. -/
theorem Once.beside {s' : Service P} (h : s.Once) (hsent : s.Sent) (hsent' : s'.Sent)
    (hc : s.Calls) {x : ServerInput} (hserver : s'.server = s.server.step x)
    (happly : ∀ uninit, x ≠ .apply uninit) (hends : s.server.ends x = false)
    (hcalls : s'.calls = s.calls) (hback : ∀ op, s.Put op → s'.MayReturn op → s.MayReturn op)
    (hacks : s'.acknowledged = s.acknowledged)
    (huncovers : ∀ k raft, x = .handler k raft → s.UncoversNone k) : s'.Once := by
  obtain ⟨happlier, hexec, hqueued⟩ := Server.step_quiet happly hends
  refine h.keep hsent (hcalls ▸ List.Subset.refl _) hback (hserver ▸ happlier) (hserver ▸ hexec)
    (hserver ▸ hqueued) ?_ (fun op hop => .inl (hacks ▸ hop)) ?_
  · intro op hop
    have hput : s.Put op := by
      obtain ⟨hd, hmem, hack⟩ := List.mem_filterMap.mp hop
      have hreq := hsent'.requests _ (List.mem_map_of_mem hmem)
      rw [hcalls] at hreq
      cases hd with
      | get args pc => cases hack
      | write request pc => exact ⟨request, hreq, (Handler.acknowledged_write.mp hack).2.symm⟩
    rw [hserver] at hop
    rcases Server.step_acknowledged hop with hop | hdup | ⟨op', hq, hsame⟩
    · exact .inl hop
    · exact .inr (h.covered hc hput hdup)
    · have heq : op' = op := (hsent.carries.queued op' hq).unique hc hput hsame
      exact .inr (h.passed op (.inr (heq ▸ hq)))
  · rw [hserver]
    rcases s.server.step_lastRequests x with ⟨hend, _⟩ | ⟨_, heq⟩ | ⟨op, value, hrec, heq⟩
    · rw [hends] at hend
      cases hend
    · exact .inl heq
    · right
      cases x with
      | handler k raft =>
        have hunc := huncovers k raft rfl
        simp only [Server.records] at hrec
        split at hrec
        · next args value' hk =>
          cases hrec
          have hreq := hsent.requests _ (List.mem_map_of_mem (List.mem_of_getElem? hk))
          unfold UncoversNone at hunc
          rw [hk] at hunc
          exact ⟨args, _, hreq, hunc, heq⟩
        · cases hrec
      | apply uninit => exact absurd rfl (happly uninit)
      | _ => cases hrec

end Service

/-- Clerks have numbers of their own, and no `Get` uncovers the number of an executed put that
    may return. -/
def PutsRemembered (s : Service P) (input : ServiceInput) : Prop :=
  OwnNumbers s input ∧
    match input with
    | .handler k _ => s.UncoversNone k
    | _ => True

namespace Service

variable {s : Service P}

/-- A clerk receives an answer. -/
theorem Once.receive (h : s.Once) (hsent : s.Sent) (hc : s.Calls) (rand : ℤ → ℤ) (i : ℕ) :
    (s.step rand (.receive i)).Once := by
  have hback : ∀ op, s.Put op → (s.receive i).MayReturn op → s.MayReturn op :=
    fun op hput hmay => hsent.copies_back hc rand (.receive i) trivial hput hmay
  show (s.receive i).Once
  unfold Service.receive at hback ⊢
  split at hback
  · next clientId requestId request retryCount rpc hi =>
    split at hback
    · exact h
    · next err hans =>
      refine h.idle hsent rfl (List.Subset.refl _) hback fun op hop => ?_
      cases err with
      | OK =>
        cases request with
        | get args => exact .inl hop
        | write w =>
          rcases List.mem_cons.mp hop with rfl | hop
          · have hmem := List.mem_of_getElem? hi
            have hack := hsent.answered hmem rfl rfl rfl hans
            exact .inr (hc.executed_of_done hmem rfl (h.replied _ hack))
          · exact .inl hop
      | _ => exact .inl hop
  · exact h

/-- The RPC of a call arrives. -/
theorem Once.arrive (h : s.Once) (hsent : s.Sent) (hc : s.Calls) (rand : ℤ → ℤ) (j : ℕ) :
    (s.step rand (.arrive j)).Once := by
  have hnext : (∀ op, s.Put op → (s.arrive j).MayReturn op → s.MayReturn op) ∧ (s.arrive j).Sent :=
    ⟨fun op hput hmay => hsent.copies_back hc rand (.arrive j) trivial hput hmay, hsent.arrive j⟩
  show (s.arrive j).Once
  unfold Service.arrive at hnext ⊢
  split at hnext
  · next request _ =>
    exact h.beside hsent hnext.2 hc (x := .call request) rfl (fun _ hx => by cases hx) rfl rfl
      hnext.1 rfl fun _ _ hx => by cases hx
  · exact h

/-- A handler takes a step, and may start its operation. -/
theorem Once.stepHandler (h : s.Once) (hsent : s.Sent) (hc : s.Calls) (rand : ℤ → ℤ) {k : ℕ}
    (raft : RaftAnswer) (hunc : s.UncoversNone k) : (s.step rand (.handler k raft)).Once := by
  have hnext : (∀ op, s.Put op → (s.stepHandler k raft).MayReturn op → s.MayReturn op) ∧
      (s.stepHandler k raft).Sent :=
    ⟨fun op hput hmay => hsent.copies_back hc rand (.handler k raft) trivial hput hmay,
      hsent.stepHandler hc k raft⟩
  show (s.stepHandler k raft).Once
  unfold Service.stepHandler at hnext ⊢
  split at hnext
  · exact h.beside hsent hnext.2 hc (x := .handler k ⟨raft.isLeader, s.log.length + 1⟩) rfl
      (fun _ hx => by cases hx) rfl rfl hnext.1 rfl fun _ _ hx => by cases hx; exact hunc
  · exact h.beside hsent hnext.2 hc (x := .handler k raft) rfl (fun _ hx => by cases hx) rfl rfl
      hnext.1 rfl fun _ _ hx => by cases hx; exact hunc

/-- The next command comes to `applyCh`. -/
theorem Once.deliver (h : s.Once) (hsent : s.Sent) (hc : s.Calls) (rand : ℤ → ℤ) :
    (s.step rand .deliver).Once := by
  have hnext : (∀ op, s.Put op → s.deliver.MayReturn op → s.MayReturn op) ∧ s.deliver.Sent :=
    ⟨fun op hput hmay => hsent.copies_back hc rand .deliver trivial hput hmay, hsent.deliver hc⟩
  show s.deliver.Once
  unfold Service.deliver at hnext ⊢
  split at hnext
  · exact h
  · next op _ =>
    exact h.beside hsent hnext.2 hc (x := .push (.ofCommand (s.delivered + 1) (encodeOp op))) rfl
      (fun _ hx => by cases hx) rfl rfl hnext.1 rfl fun _ _ hx => by cases hx

theorem Once.step (h : s.Once) (hsent : s.Sent) (hc : s.Calls) {rand : ℤ → ℤ}
    {input : ServiceInput} (hok : PutsRemembered s input) : (s.step rand input).Once := by
  have hback : ∀ op, s.Put op → (s.step rand input).MayReturn op → s.MayReturn op :=
    fun op hput hmay => hsent.copies_back hc rand input hok.1 hput hmay
  have hbegin : ∀ i request, (∀ op, s.Put op → (s.begin i request).MayReturn op →
      s.MayReturn op) → (s.begin i request).Once := by
    intro i request hback
    rcases s.begin_cases i request with heq | ⟨c, _, _, heq⟩
    · rw [heq]
      exact h
    · rw [heq] at hback ⊢
      exact h.idle hsent rfl (List.subset_cons_self _ _) hback fun op => .inl
  cases input with
  | init time => exact h.idle hsent rfl (List.Subset.refl _) hback fun op => .inl
  | put i key value => exact hbegin i _ hback
  | get i key => exact hbegin i _ hback
  | send i =>
    change ∀ op, s.Put op → (s.send i).MayReturn op → _ at hback
    show (s.send i).Once
    unfold send at hback ⊢
    split at hback
    · exact h.idle hsent rfl (List.Subset.refl _) hback fun op => .inl
    · exact h
  | arrive j => exact h.arrive hsent hc rand j
  | fail i =>
    change ∀ op, s.Put op → (s.fail i).MayReturn op → _ at hback
    show (s.fail i).Once
    unfold Service.fail at hback ⊢
    split at hback
    · exact h.idle hsent rfl (List.Subset.refl _) hback fun op => .inl
    · exact h
  | receive i => exact h.receive hsent hc rand i
  | handler k raft => exact h.stepHandler hsent hc rand raft hok.2
  | timeOut k =>
    exact h.beside hsent (hsent.step hc rand (.timeOut k)) hc (x := .timeOut k) rfl
      (fun _ hx => by cases hx) rfl rfl hback rfl fun _ _ hx => by cases hx
  | deliver => exact h.deliver hsent hc rand
  | apply uninit => exact h.apply hsent hc rand uninit

end Service

/-! ## Every run -/

/-- In every run in which clerks have numbers of their own and reads uncover no put that may
    return: the store is that of the executed puts, and every put that a clerk has seen
    acknowledged is once among them, its request not otherwise. -/
theorem exactly_once (P : Libs) (rand : ℤ → ℤ) (h : List (Service P × ServiceInput))
    (s : Service P) (hr : Run (Service.step rand) PutsRemembered (Service.init P) h s) :
    s.server.kv.kvdb = storedAll P s.server.executed ∧
      ∀ op ∈ s.acknowledged, s.server.executed.filter (fun op' => op'.SameRequest op) = [op] := by
  have hinv : s.Calls ∧ s.Sent ∧ s.Once ∧ s.server.Stored := by
    refine hr.invariant (I := fun s => s.Calls ∧ s.Sent ∧ s.Once ∧ s.server.Stored)
      ⟨Service.calls_init P, Service.sent_init P, Service.once_init P, Server.stored_create P⟩ ?_
    rintro s input ⟨hc, hsent, honce, hstored⟩ hok
    refine ⟨hc.step hok.1, hsent.step hc rand _, honce.step hsent hc hok, ?_⟩
    rw [Service.step_server]
    cases s.serverInput input with
    | none => exact hstored
    | some x => exact hstored.step x
  obtain ⟨hc, hsent, honce, hstored⟩ := hinv
  refine ⟨hstored, fun op hop => ?_⟩
  have hmem := honce.acknowledged op hop
  have hfilter : s.server.executed.filter (fun op' => op'.SameRequest op) =
      s.server.executed.filter (fun op' => op' == op) := by
    refine List.filter_congr fun op' hop' => ?_
    have hput' := hsent.carries.executed op' hop'
    have hput := hsent.carries.executed op hmem
    rw [beq_eq_decide]
    exact decide_eq_decide.mpr ⟨fun hsame => hput'.unique hc hput hsame, fun heq => heq ▸ ⟨rfl, rfl⟩⟩
  rw [hfilter, List.filter_beq, List.count_eq_one_of_mem honce.nodup hmem]
  rfl

/-! ## Runs on given inputs -/

section Decidable

variable (s : Service P)

instance (i : ℕ) (request : Clerk → Request) : Decidable (s.OwnNumber i request) :=
  decidable_of_iff (∀ c ∈ s.clerks[i]?, c.call = none →
    (∀ j < s.clerks.length, ∀ c' ∈ s.clerks[j]?, j ≠ i → c'.clientid = c.clientid →
      c'.RequestId = 0) ∧ (request { c with RequestId := c.RequestId + 1 }).op.Encodable) <| by
    refine ⟨fun h c hc hcall => ?_, fun h c hc hcall => ?_⟩
    · obtain ⟨honly, henc⟩ := h c hc hcall
      exact ⟨fun j c' hc' => honly j (List.getElem?_eq_some_iff.mp hc').1 c' hc', henc⟩
    · obtain ⟨honly, henc⟩ := h c hc hcall
      exact ⟨fun j _ c' hc' => honly j c' hc', henc⟩

instance (input : ServiceInput) : Decidable (OwnNumbers s input) :=
  match input with
  | .put i key value => inferInstanceAs (Decidable (s.OwnNumber i fun c => c.putRequest key value))
  | .get i key => inferInstanceAs (Decidable (s.OwnNumber i fun c => c.getRequest key))
  | .init _ => .isTrue trivial
  | .send _ => .isTrue trivial
  | .arrive _ => .isTrue trivial
  | .fail _ => .isTrue trivial
  | .receive _ => .isTrue trivial
  | .handler _ _ => .isTrue trivial
  | .timeOut _ => .isTrue trivial
  | .deliver => .isTrue trivial
  | .apply _ => .isTrue trivial

instance (k : ℕ) : Decidable (s.UncoversNone k) :=
  show Decidable (match s.server.handlers[k]? with
    | some (.get args (.record _)) => ∀ op ∈ s.server.executed, op.ClientId = args.clientid →
        args.requestid < op.RequestId → s.MayReturn op → s.server.applier.recording = some op
    | _ => True) from
  match s.server.handlers[k]? with
  | some (.get _ (.record _)) => inferInstanceAs (Decidable (∀ op ∈ s.server.executed, _))
  | some (.get _ .getState) => .isTrue trivial
  | some (.get _ (.checkDuplicate _)) => .isTrue trivial
  | some (.get _ .readCache) => .isTrue trivial
  | some (.get _ .getCommitIndex) => .isTrue trivial
  | some (.get _ .readValue) => .isTrue trivial
  | some (.get _ (.replied _)) => .isTrue trivial
  | some (.write _ _) => .isTrue trivial
  | none => .isTrue trivial

instance (input : ServiceInput) : Decidable (PutsRemembered s input) :=
  match input with
  | .handler k _ => inferInstanceAs (Decidable (_ ∧ s.UncoversNone k))
  | .init _ => inferInstanceAs (Decidable (_ ∧ True))
  | .put _ _ _ => inferInstanceAs (Decidable (_ ∧ True))
  | .get _ _ => inferInstanceAs (Decidable (_ ∧ True))
  | .send _ => inferInstanceAs (Decidable (_ ∧ True))
  | .arrive _ => inferInstanceAs (Decidable (_ ∧ True))
  | .fail _ => inferInstanceAs (Decidable (_ ∧ True))
  | .receive _ => inferInstanceAs (Decidable (_ ∧ True))
  | .timeOut _ => inferInstanceAs (Decidable (_ ∧ True))
  | .deliver => inferInstanceAs (Decidable (_ ∧ True))
  | .apply _ => inferInstanceAs (Decidable (_ ∧ True))

end Decidable

/-- The `i`-th clerk puts a value under the key `a`, and the `i`-th RPC is served. -/
def servedCall (i : ℕ) (value : Bytes) (applies : ℕ) : List ServiceInput :=
  [.put i [97] value, .send i, .arrive i, .handler i ⟨true, 0⟩, .handler i ⟨true, 0⟩, .deliver] ++
    List.replicate applies (.apply 0) ++ [.handler i ⟨true, 0⟩, .receive i]

theorem exactly_once_servedCall : ∃ s : Service listLibs,
    s.acknowledged = [⟨opPut, [97], [1], [55], 1⟩] ∧
      s.server.executed.filter (fun op' => op'.SameRequest ⟨opPut, [97], [1], [55], 1⟩) =
        [⟨opPut, [97], [1], [55], 1⟩] := by
  have hr : Run (Service.step id) PutsRemembered (Service.init listLibs) _ _ :=
    run_history (.init 7 :: servedCall 0 [1] 7) (by decide +kernel)
  have hack : ((ServiceInput.init 7 :: servedCall 0 [1] 7).foldl (Service.step id)
      (Service.init listLibs)).acknowledged = [⟨opPut, [97], [1], [55], 1⟩] := by decide +kernel
  exact ⟨_, hack, (exactly_once listLibs id _ _ hr).2 _ (by rw [hack]; exact List.mem_cons_self)⟩

/-- Two clerks that are initialised in the same second have the same `ClientId`: the put of the
    second is taken for that of the first, and acknowledged all the same. -/
theorem exactly_once_fails : ∃ (h : List (Service listLibs × ServiceInput))
    (s : Service listLibs), Run (Service.step id) anyStep (Service.init listLibs) h s ∧
      ⟨opPut, [97], [2], [55], 1⟩ ∈ s.acknowledged ∧
        s.server.executed = [⟨opPut, [97], [1], [55], 1⟩] ∧
          listLibs.searchElement s.server.kv.kvdb [97] = some [1] :=
  ⟨_, _, run_history ([.init 7, .init 7] ++ servedCall 0 [1] 7 ++ servedCall 1 [2] 4)
    fun _ _ => trivial, by decide +kernel, by decide +kernel, by decide +kernel⟩

end MyKvRaft
