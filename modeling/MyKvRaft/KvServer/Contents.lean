import MyKvRaft.KvServer.Replica
import MyKvRaft.KvServer.Replies

/-!
# What a server holds

Which part of a server a step changes: the operations come in through `applyCh` and stay,
the store is what the executed operations make of an empty one, and the table of last
requests is written by `Get` and by `Apply`.

* `Carries.step`: where the operations come from.
* `Stored.step`: the store.
* `step_lastRequests`: the table.
* `step_acknowledged`: the replies.
-/

namespace MyKvRaft

variable {P : Libs}

/-- The store the operations describe, latest first, if each is executed. -/
def storedAll (P : Libs) : List Op → P.SkipList
  | [] => P.emptyList
  | op :: earlier => stored (storedAll P earlier) op

/-- The operation the apply thread has in hand. -/
def Applier.op : Applier → Option Op
  | .idle => none
  | .check _ op => some op
  | .execute _ op => some op
  | .record _ op _ => some op
  | .updateIndex _ op => some op
  | .findChannel _ op => some op
  | .push _ op => some op

def Handler.request : Handler → Request
  | .get args _ => .get args
  | .write request _ => .write request

namespace Server

/-- All operations the server has been given, and not dropped, are in `Q`. -/
structure Carries (Q : Op → Prop) (s : Server P) : Prop where
  applyCh : ∀ msg ∈ s.applyCh, ∀ uninit, Q (decodeOp uninit msg.command)
  applier : ∀ op, s.applier.op = some op → Q op
  queued : ∀ op, s.kv.Queued op → Q op
  executed : ∀ op ∈ s.executed, Q op

/-- The store is that of the executed operations. -/
def Stored (s : Server P) : Prop := s.kv.kvdb = storedAll P s.executed

variable {s : Server P} {Q : Op → Prop}

theorem carries_create (P : Libs) (Q : Op → Prop) : (create P).Carries Q where
  applyCh msg hmsg := by cases hmsg
  applier op hop := by cases hop
  queued op hop := by
    obtain ⟨index, ch, hch, _⟩ := hop
    cases hch
  executed op hop := by cases hop

theorem Carries.mono {Q' : Op → Prop} (h : s.Carries Q) (hle : ∀ op, Q op → Q' op) :
    s.Carries Q' :=
  ⟨fun msg hmsg uninit => hle _ (h.applyCh msg hmsg uninit), fun op hop => hle op (h.applier op hop),
    fun op hop => hle op (h.queued op hop), fun op hop => hle op (h.executed op hop)⟩

/-! ## Handlers and searches -/

theorem handler_step_queued {kv : KvServer P} {raft : RaftAnswer} {h : Handler} {op : Op}
    (hop : (h.step kv raft).1.Queued op) : kv.Queued op := by
  cases h with
  | get args pc => exact GetArgs.step_queued hop
  | write request pc => exact WriteRequest.step_queued hop

/-- A handler changes the channels and the table. -/
theorem handler_step_eq {kv : KvServer P} {raft : RaftAnswer} {h : Handler} :
    (h.step kv raft).1 = { kv with
      waitApplyCh := (h.step kv raft).1.waitApplyCh
      lastRequests := (h.step kv raft).1.lastRequests } := by
  cases h with
  | get args pc =>
    simp only [Handler.step]
    cases pc with
    | record value => rfl
    | _ => rw [GetArgs.step_eq fun value hpc => by cases hpc]
  | write request pc =>
    simp only [Handler.step]
    rw [WriteRequest.step_eq]

theorem stepHandler_cases (s : Server P) (k : ℕ) (raft : RaftAnswer) :
    (s.handlers[k]? = none ∧ s.stepHandler k raft = s) ∨
      ∃ h, s.handlers[k]? = some h ∧ s.stepHandler k raft =
        { s with kv := (h.step s.kv raft).1, handlers := s.handlers.set k (h.step s.kv raft).2 } := by
  unfold stepHandler
  cases hk : s.handlers[k]? with
  | none => exact .inl ⟨rfl, rfl⟩
  | some h => exact .inr ⟨h, rfl, rfl⟩

theorem timeOut_cases (s : Server P) (k : ℕ) :
    ∃ handlers, s.timeOut k = { s with handlers := handlers } := by
  unfold Server.timeOut
  split
  · exact ⟨s.handlers, rfl⟩
  · exact ⟨_, rfl⟩

/-- A search changes the recall index, or ends the process. -/
theorem search_cases (s : Server P) : (s.ends .search = true ∧ s.search = create P) ∨ ∃ e built,
    s.search = { s with kv := { s.kv with recallEngine := e, indexBuilt := built } } := by
  unfold Server.search Server.ends KvServer.buildIndexIfNeeded
  split_ifs
  · exact .inr ⟨s.kv.recallEngine, s.kv.indexBuilt, rfl⟩
  · cases (P.foreach s.kv.kvdb).foldlM KvServer.indexPair s.kv.recallEngine with
    | none => exact .inl ⟨rfl, rfl⟩
    | some e => exact .inr ⟨e, true, rfl⟩

/-! ## The requests -/

/-- The requests of the handlers. -/
def requests (s : Server P) : List Request := s.handlers.map Handler.request

/-- The request that arrives with a step. -/
def arriving : ServerInput → List Request
  | .call request => [request]
  | _ => []

/-- The apply thread leaves the handlers alone, unless the process ends. -/
theorem stepApplier_handlers (s : Server P) (uninit : ℤ) :
    (s.ends (.apply uninit) = true ∧ s.stepApplier uninit = create P) ∨
      (s.stepApplier uninit).handlers = s.handlers := by
  cases ha : s.applier with
  | idle => cases hch : s.applyCh <;> simp only [stepApplier, ha, hch, or_true]
  | check index op =>
    right
    simp only [stepApplier, ha]
    split_ifs <;> rfl
  | updateIndex index op =>
    simp only [stepApplier, ends, ha]
    cases s.kv.updateIndex op with
    | none => exact .inl ⟨rfl, rfl⟩
    | some kv => exact .inr rfl
  | findChannel index op =>
    right
    simp only [stepApplier, ha]
    split_ifs <;> rfl
  | _ => simp only [stepApplier, ha, or_true]

/-- Where the handlers after a step come from. -/
theorem mem_step_handlers {input : ServerInput} {h : Handler} (hmem : h ∈ (s.step input).handlers) :
    h ∈ s.handlers ∨ (∃ request, input = .call request ∧ h = request.handler) ∨
      (∃ k raft h', input = .handler k raft ∧ s.handlers[k]? = some h' ∧
        h = (h'.step s.kv raft).2) ∨
      ∃ k h', input = .timeOut k ∧ s.handlers[k]? = some h' ∧ h = h'.timeOut s.kv := by
  cases input with
  | call request =>
    rcases List.mem_append.mp hmem with hmem | hmem
    · exact .inl hmem
    · exact .inr (.inl ⟨request, rfl, List.mem_singleton.mp hmem⟩)
  | handler k raft =>
    change h ∈ (s.stepHandler k raft).handlers at hmem
    rcases s.stepHandler_cases k raft with ⟨_, heq⟩ | ⟨h', hk, heq⟩
    · rw [heq] at hmem
      exact .inl hmem
    · rw [heq] at hmem
      rcases List.mem_or_eq_of_mem_set hmem with hmem | rfl
      · exact .inl hmem
      · exact .inr (.inr (.inl ⟨k, raft, h', rfl, hk, rfl⟩))
  | timeOut k =>
    change h ∈ (s.timeOut k).handlers at hmem
    unfold Server.timeOut at hmem
    split at hmem
    · exact .inl hmem
    · next h' hk =>
      rcases List.mem_or_eq_of_mem_set hmem with hmem | rfl
      · exact .inl hmem
      · exact .inr (.inr (.inr ⟨k, h', rfl, hk, rfl⟩))
  | push msg => exact .inl hmem
  | apply uninit =>
    change h ∈ (s.stepApplier uninit).handlers at hmem
    rcases s.stepApplier_handlers uninit with ⟨_, heq⟩ | heq
    · rw [heq] at hmem
      cases hmem
    · rw [heq] at hmem
      exact .inl hmem
  | search =>
    change h ∈ s.search.handlers at hmem
    rcases s.search_cases with ⟨_, heq⟩ | ⟨e, built, heq⟩
    · rw [heq] at hmem
      cases hmem
    · rw [heq] at hmem
      exact .inl hmem
  | crash => cases hmem

/-- `timeOutPop` changes nothing but where a write is. -/
theorem handler_timeOut_cases (kv : KvServer P) (h : Handler) : h.timeOut kv = h ∨
    ∃ request, h.timeOut kv = .write request .timedOut := by
  unfold Handler.timeOut
  split
  · split_ifs
    · exact .inr ⟨_, rfl⟩
    · exact .inl rfl
  · exact .inl rfl

/-- Handlers keep their requests, unless the process ends. -/
theorem step_requests (s : Server P) (input : ServerInput) :
    (s.ends input = true ∧ s.step input = create P) ∨
      (s.step input).requests = s.requests ++ arriving input := by
  have hset : ∀ (k : ℕ) (h h' : Handler), s.handlers[k]? = some h → h'.request = h.request →
      (s.handlers.set k h').map Handler.request = s.handlers.map Handler.request := by
    intro k h h' hk hreq
    obtain ⟨hlt, heq⟩ := List.getElem?_eq_some_iff.mp hk
    rw [List.map_set, hreq, ← heq, ← List.getElem_map (f := Handler.request) (h := by simpa using hlt),
      List.set_getElem_self]
  cases input with
  | call request =>
    right
    show (s.handlers ++ [request.handler]).map Handler.request = _
    rw [List.map_append]
    cases request <;> rfl
  | handler k raft =>
    right
    simp only [arriving, List.append_nil]
    show (s.stepHandler k raft).requests = _
    rcases s.stepHandler_cases k raft with ⟨_, heq⟩ | ⟨h, hk, heq⟩
    · rw [heq]
    · rw [heq]
      refine hset k h _ hk ?_
      cases h <;> rfl
  | timeOut k =>
    right
    simp only [arriving, List.append_nil]
    show (s.timeOut k).handlers.map Handler.request = _
    unfold Server.timeOut
    cases hk : s.handlers[k]? with
    | none => rfl
    | some h =>
      refine hset k h _ hk ?_
      unfold Handler.timeOut
      split
      · split_ifs <;> rfl
      · rfl
  | push msg => exact .inr (List.append_nil _).symm
  | apply uninit =>
    simp only [arriving, List.append_nil]
    rcases s.stepApplier_handlers uninit with hends | heq
    · exact .inl hends
    · exact .inr (congrArg (List.map Handler.request) heq)
  | search =>
    simp only [arriving, List.append_nil]
    rcases s.search_cases with hends | ⟨e, built, heq⟩
    · exact .inl hends
    · right
      show s.search.requests = _
      rw [heq]
      rfl
  | crash => exact .inl ⟨rfl, rfl⟩

/-! ## The operations -/

theorem mem_step_applyCh {input : ServerInput} {msg : ApplyMsg}
    (h : msg ∈ (s.step input).applyCh) : msg ∈ s.applyCh ∨ input = .push msg := by
  cases input with
  | call request => exact .inl h
  | handler k raft =>
    change msg ∈ (s.stepHandler k raft).applyCh at h
    rcases s.stepHandler_cases k raft with ⟨_, heq⟩ | ⟨hd, _, heq⟩
    · rw [heq] at h
      exact .inl h
    · rw [heq] at h
      exact .inl h
  | timeOut k =>
    obtain ⟨handlers, heq⟩ := s.timeOut_cases k
    change msg ∈ (s.timeOut k).applyCh at h
    rw [heq] at h
    exact .inl h
  | push m =>
    rcases List.mem_append.mp h with h | h
    · exact .inl h
    · exact .inr (congrArg _ (List.mem_singleton.mp h).symm)
  | apply uninit =>
    change msg ∈ (s.stepApplier uninit).applyCh at h
    left
    cases ha : s.applier with
    | idle =>
      cases hch : s.applyCh with
      | nil =>
        simp only [stepApplier, ha, hch] at h
        cases h
      | cons m rest =>
        simp only [stepApplier, ha, hch] at h
        exact List.mem_cons_of_mem m h
    | check index op =>
      simp only [stepApplier, ha] at h
      split_ifs at h <;> exact h
    | updateIndex index op =>
      simp only [stepApplier, ha] at h
      cases hupdate : s.kv.updateIndex op with
      | none =>
        rw [hupdate] at h
        cases h
      | some kv =>
        rw [hupdate] at h
        exact h
    | findChannel index op =>
      simp only [stepApplier, ha] at h
      split_ifs at h <;> exact h
    | _ =>
      simp only [stepApplier, ha] at h
      exact h
  | search =>
    change msg ∈ s.search.applyCh at h
    rcases s.search_cases with ⟨_, heq⟩ | ⟨e, built, heq⟩
    · rw [heq] at h
      cases h
    · rw [heq] at h
      exact .inl h
  | crash => cases h

theorem Carries.apply (h : s.Carries Q) (uninit : ℤ) : (s.stepApplier uninit).Carries Q := by
  cases ha : s.applier with
  | idle =>
    cases hch : s.applyCh with
    | nil => simpa [stepApplier, ha, hch] using h
    | cons msg rest =>
      simp only [stepApplier, ha, hch]
      refine ⟨fun m hm => h.applyCh m (by rw [hch]; exact List.mem_cons_of_mem _ hm), ?_, h.queued,
        h.executed⟩
      rintro op hop
      cases hop
      exact h.applyCh msg (by rw [hch]; exact List.mem_cons_self) uninit
  | check index op =>
    have hop := h.applier op (by rw [ha]; rfl)
    simp only [stepApplier, ha]
    split_ifs
    · exact ⟨h.applyCh, fun op' hop' => Option.some.inj hop' ▸ hop, h.queued, h.executed⟩
    · exact ⟨h.applyCh, fun op' hop' => Option.some.inj hop' ▸ hop, h.queued, h.executed⟩
  | execute index op =>
    have hop := h.applier op (by rw [ha]; rfl)
    simp only [stepApplier, ha]
    refine ⟨h.applyCh, fun op' hop' => Option.some.inj hop' ▸ hop, ?_, ?_⟩
    · intro op' hop'
      rw [KvServer.executeOnKVDB_eq] at hop'
      exact h.queued op' hop'
    · exact List.forall_mem_cons.mpr ⟨hop, h.executed⟩
  | record index op value =>
    have hop := h.applier op (by rw [ha]; rfl)
    simp only [stepApplier, ha]
    exact ⟨h.applyCh, fun op' hop' => Option.some.inj hop' ▸ hop, h.queued, h.executed⟩
  | updateIndex index op =>
    have hop := h.applier op (by rw [ha]; rfl)
    simp only [stepApplier, ha]
    rw [KvServer.updateIndex_eq]
    cases KvServer.indexed s.kv.recallEngine op with
    | none => exact carries_create P Q
    | some e => exact ⟨h.applyCh, fun op' hop' => Option.some.inj hop' ▸ hop, h.queued, h.executed⟩
  | findChannel index op =>
    have hop := h.applier op (by rw [ha]; rfl)
    simp only [stepApplier, ha]
    split_ifs
    · exact ⟨h.applyCh, fun op' hop' => Option.some.inj hop' ▸ hop, h.queued, h.executed⟩
    · exact ⟨h.applyCh, fun op' hop' => (by cases hop'), h.queued, h.executed⟩
  | push index op =>
    have hop := h.applier op (by rw [ha]; rfl)
    simp only [stepApplier, ha]
    refine ⟨h.applyCh, fun op' hop' => (by cases hop'), fun op' hop' => ?_, h.executed⟩
    rcases KvServer.queued_notify hop' with hop' | rfl
    · exact h.queued op' hop'
    · exact hop

/-- Operations come in through `applyCh`. -/
theorem Carries.step (h : s.Carries Q) {input : ServerInput}
    (hpush : ∀ msg, input = .push msg → ∀ uninit, Q (decodeOp uninit msg.command)) :
    (s.step input).Carries Q := by
  cases input with
  | call request => exact ⟨h.applyCh, h.applier, h.queued, h.executed⟩
  | handler k raft =>
    show (s.stepHandler k raft).Carries Q
    rcases s.stepHandler_cases k raft with ⟨_, heq⟩ | ⟨hd, _, heq⟩
    · rw [heq]
      exact h
    · rw [heq]
      exact ⟨h.applyCh, h.applier, fun op hop => h.queued op (handler_step_queued hop), h.executed⟩
  | timeOut k =>
    obtain ⟨handlers, heq⟩ := s.timeOut_cases k
    show (s.timeOut k).Carries Q
    rw [heq]
    exact ⟨h.applyCh, h.applier, h.queued, h.executed⟩
  | push msg =>
    refine ⟨?_, h.applier, h.queued, h.executed⟩
    intro m hm
    rcases List.mem_append.mp hm with hm | hm
    · exact h.applyCh m hm
    · obtain rfl := List.mem_singleton.mp hm
      exact hpush m rfl
  | apply uninit => exact h.apply uninit
  | search =>
    show s.search.Carries Q
    rcases s.search_cases with ⟨_, heq⟩ | ⟨e, built, heq⟩
    · exact heq ▸ carries_create P Q
    · rw [heq]
      exact ⟨h.applyCh, h.applier, h.queued, h.executed⟩
  | crash => exact carries_create P Q

/-! ## The store -/

theorem stored_create (P : Libs) : (create P).Stored := rfl

theorem Stored.step (h : s.Stored) (input : ServerInput) : (s.step input).Stored := by
  cases input with
  | call request => exact h
  | handler k raft =>
    show (s.stepHandler k raft).Stored
    rcases s.stepHandler_cases k raft with ⟨_, heq⟩ | ⟨hd, _, heq⟩
    · rw [heq]
      exact h
    · rw [heq, handler_step_eq]
      exact h
  | timeOut k =>
    obtain ⟨handlers, heq⟩ := s.timeOut_cases k
    show (s.timeOut k).Stored
    rw [heq]
    exact h
  | push msg => exact h
  | apply uninit =>
    show (s.stepApplier uninit).Stored
    cases ha : s.applier with
    | idle =>
      cases hch : s.applyCh with
      | nil => simpa [stepApplier, ha, hch] using h
      | cons msg rest =>
        simp only [stepApplier, ha, hch]
        exact h
    | check index op =>
      simp only [stepApplier, ha]
      split_ifs
      · exact h
      · exact h
    | execute index op =>
      simp only [stepApplier, ha]
      show (s.kv.executeOnKVDB op).1.kvdb = stored (storedAll P s.executed) op
      rw [KvServer.executeOnKVDB_kvdb, show s.kv.kvdb = _ from h]
    | record index op value =>
      simp only [stepApplier, ha]
      exact h
    | updateIndex index op =>
      simp only [stepApplier, ha]
      rw [KvServer.updateIndex_eq]
      cases KvServer.indexed s.kv.recallEngine op with
      | none => exact stored_create P
      | some e => exact h
    | findChannel index op =>
      simp only [stepApplier, ha]
      split_ifs
      · exact h
      · exact h
    | push index op =>
      simp only [stepApplier, ha]
      exact h
  | search =>
    show s.search.Stored
    rcases s.search_cases with ⟨_, heq⟩ | ⟨e, built, heq⟩
    · exact heq ▸ stored_create P
    · rw [heq]
      exact h
  | crash => exact stored_create P

/-! ## The table -/

/-- The request that a step records, with its value: of a `Get`, or of an operation `Apply` has
    executed. -/
def records (s : Server P) : ServerInput → Option (Op × Bytes)
  | .handler k _ =>
    match s.handlers[k]? with
    | some (.get args (.record value)) => some (args.op, value.getD [])
    | _ => none
  | .apply _ =>
    match s.applier with
    | .record _ op value => some (op, value)
    | _ => none
  | _ => none

/-- The table after a step. -/
theorem step_lastRequests (s : Server P) (input : ServerInput) :
    (s.ends input = true ∧ s.step input = create P) ∨
      (s.records input = none ∧ (s.step input).kv.lastRequests = s.kv.lastRequests) ∨
      ∃ op value, s.records input = some (op, value) ∧ (s.step input).kv.lastRequests =
        (s.kv.recordRequestResult op value).lastRequests := by
  cases input with
  | call request => exact .inr (.inl ⟨rfl, rfl⟩)
  | handler k raft =>
    right
    show (s.records (.handler k raft) = none ∧ (s.stepHandler k raft).kv.lastRequests = _) ∨
      ∃ op value, s.records (.handler k raft) = some (op, value) ∧
        (s.stepHandler k raft).kv.lastRequests = _
    rcases s.stepHandler_cases k raft with ⟨hk, heq⟩ | ⟨hd, hk, heq⟩
    · rw [heq]
      exact .inl ⟨by simp only [records, hk], rfl⟩
    · rw [heq]
      simp only [records, hk]
      cases hd with
      | get args pc =>
        cases pc with
        | record value => exact .inr ⟨args.op, value.getD [], rfl, rfl⟩
        | _ =>
          refine .inl ⟨rfl, ?_⟩
          simp only [Handler.step]
          rw [GetArgs.step_eq fun value hpc => by cases hpc]
      | write request pc =>
        refine .inl ⟨rfl, ?_⟩
        simp only [Handler.step]
        rw [WriteRequest.step_eq]
  | timeOut k =>
    obtain ⟨handlers, heq⟩ := s.timeOut_cases k
    refine .inr (.inl ⟨rfl, ?_⟩)
    show (s.timeOut k).kv.lastRequests = _
    rw [heq]
  | push msg => exact .inr (.inl ⟨rfl, rfl⟩)
  | apply uninit =>
    show (_ ∧ s.stepApplier uninit = _) ∨ (_ ∧ (s.stepApplier uninit).kv.lastRequests = _) ∨
      ∃ op value, _ ∧ (s.stepApplier uninit).kv.lastRequests = _
    cases ha : s.applier with
    | idle =>
      refine .inr (.inl ⟨by simp only [records, ha], ?_⟩)
      cases hch : s.applyCh <;> simp only [stepApplier, ha, hch]
    | check index op =>
      refine .inr (.inl ⟨by simp only [records, ha], ?_⟩)
      simp only [stepApplier, ha]
      split_ifs <;> rfl
    | execute index op =>
      refine .inr (.inl ⟨by simp only [records, ha], ?_⟩)
      simp only [stepApplier, ha]
      rw [KvServer.executeOnKVDB_eq]
    | record index op value =>
      refine .inr (.inr ⟨op, value, by simp only [records, ha], ?_⟩)
      simp only [stepApplier, ha]
    | updateIndex index op =>
      simp only [stepApplier, ends, ha, records]
      rw [KvServer.updateIndex_eq]
      cases KvServer.indexed s.kv.recallEngine op with
      | none => exact .inl ⟨rfl, rfl⟩
      | some e => exact .inr (.inl ⟨trivial, rfl⟩)
    | findChannel index op =>
      refine .inr (.inl ⟨by simp only [records, ha], ?_⟩)
      simp only [stepApplier, ha]
      split_ifs <;> rfl
    | push index op =>
      refine .inr (.inl ⟨by simp only [records, ha], ?_⟩)
      simp only [stepApplier, ha]
      rfl
  | search =>
    rcases s.search_cases with hends | ⟨e, built, heq⟩
    · exact .inl hends
    · refine .inr (.inl ⟨rfl, ?_⟩)
      show s.search.kv.lastRequests = _
      rw [heq]
  | crash => exact .inl ⟨rfl, rfl⟩

/-! ## The replies -/

/-- Beside the apply thread, no step executes anything or puts it into a channel. -/
theorem step_quiet {input : ServerInput} (happly : ∀ uninit, input ≠ .apply uninit)
    (hends : s.ends input = false) : (s.step input).applier = s.applier ∧
      (s.step input).executed = s.executed ∧ ∀ op, (s.step input).kv.Queued op → s.kv.Queued op := by
  cases input with
  | call request => exact ⟨rfl, rfl, fun op hop => hop⟩
  | handler k raft =>
    show (s.stepHandler k raft).applier = _ ∧ (s.stepHandler k raft).executed = _ ∧
      ∀ op, (s.stepHandler k raft).kv.Queued op → _
    rcases s.stepHandler_cases k raft with ⟨_, heq⟩ | ⟨hd, _, heq⟩
    · rw [heq]
      exact ⟨rfl, rfl, fun op hop => hop⟩
    · rw [heq]
      exact ⟨rfl, rfl, fun op hop => handler_step_queued hop⟩
  | timeOut k =>
    obtain ⟨handlers, heq⟩ := s.timeOut_cases k
    show (s.timeOut k).applier = _ ∧ (s.timeOut k).executed = _ ∧
      ∀ op, (s.timeOut k).kv.Queued op → _
    rw [heq]
    exact ⟨rfl, rfl, fun op hop => hop⟩
  | push msg => exact ⟨rfl, rfl, fun op hop => hop⟩
  | apply uninit => exact absurd rfl (happly uninit)
  | search =>
    show s.search.applier = _ ∧ s.search.executed = _ ∧ ∀ op, s.search.kv.Queued op → _
    rcases s.search_cases with ⟨hend, _⟩ | ⟨e, built, heq⟩
    · rw [hends] at hend
      cases hend
    · rw [heq]
      exact ⟨rfl, rfl, fun op hop => hop⟩
  | crash => cases hends

/-- A write replies OK when the table has its number or a channel has its operation. -/
theorem step_acknowledged {input : ServerInput} {op : Op}
    (h : op ∈ (s.step input).acknowledged) : op ∈ s.acknowledged ∨
      s.kv.ifRequestDuplicate op.ClientId op.RequestId = true ∨
        ∃ op', s.kv.Queued op' ∧ op'.SameRequest op := by
  obtain ⟨hd, hmem, hack⟩ := List.mem_filterMap.mp h
  rcases mem_step_handlers hmem with hmem | ⟨request, _, rfl⟩ | ⟨k, raft, hd, _, hk, rfl⟩ |
    ⟨k, hd, _, hk, rfl⟩
  · exact .inl (List.mem_filterMap.mpr ⟨hd, hmem, hack⟩)
  · cases request <;> cases hack
  · cases hd with
    | get args pc => cases hack
    | write request pc =>
      obtain ⟨hpc, rfl⟩ := Handler.acknowledged_write.mp hack
      rcases WriteRequest.step_ok hpc with rfl | hok
      · exact .inl (List.mem_filterMap.mpr ⟨_, List.mem_of_getElem? hk, rfl⟩)
      · exact .inr hok
  · rcases handler_timeOut_cases s.kv hd with heq | ⟨request, heq⟩
    · rw [heq] at hack
      exact .inl (List.mem_filterMap.mpr ⟨hd, List.mem_of_getElem? hk, hack⟩)
    · rw [heq] at hack
      cases hack

end Server

end MyKvRaft
