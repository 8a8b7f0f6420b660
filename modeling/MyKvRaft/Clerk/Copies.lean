import MyKvRaft.Clerk.Numbers

/-!
# Requests on their way

Until `Apply` has checked a put, copies of it may be anywhere on the way there: a clerk
repeats the RPC of its call, and handlers whose RPC has failed still start its command.

* `Sent.step`: whatever is under way is a request of a clerk.
* `Sent.copies_back`: a copy of an old put comes from another.
-/

namespace MyKvRaft

variable {P : Libs}

/-! ## Copies -/

/-- The operation the apply thread is about to check. -/
def Applier.checking : Applier → Option Op
  | .check _ op => some op
  | _ => none

namespace Service

/-- A copy of the operation may still come to `Apply`: a clerk is in the call, an RPC or a
    handler may start it, or the log or the channel has it. -/
def MayReturn (s : Service P) (op : Op) : Prop :=
  (∃ c ∈ s.clerks, c.call.map (·.request.op) = some op) ∨
    (∃ r ∈ s.rpcs, r.handler = none ∧ r.request.op = op) ∨
    (∃ h ∈ s.server.handlers, h.starting = some op) ∨ op ∈ s.log.drop s.delivered ∨
    (∃ msg ∈ s.server.applyCh, msg.command = encodeOp op) ∨ s.server.applier.checking = some op

instance (s : Service P) (op : Op) : Decidable (s.MayReturn op) :=
  inferInstanceAs (Decidable (_ ∨ _))

variable {s : Service P}

/-! ## What a step leaves alone -/

/-- The server, the log and how far it has been delivered are as before. -/
structure SameServer (s' s : Service P) : Prop where
  server : s'.server = s.server
  log : s'.log = s.log
  delivered : s'.delivered = s.delivered

theorem SameServer.ahead {s' : Service P} (h : s'.SameServer s) :
    s'.log.drop s'.delivered = s.log.drop s.delivered := by
  rw [h.log, h.delivered]

theorem sameServer_begin (s : Service P) (i : ℕ) (request : Clerk → Request) :
    (s.begin i request).SameServer s := by
  rcases s.begin_cases i request with heq | ⟨c, _, _, heq⟩
  · rw [heq]
    exact ⟨rfl, rfl, rfl⟩
  · rw [heq]
    exact ⟨rfl, rfl, rfl⟩

theorem sameServer_send (s : Service P) (i : ℕ) : (s.send i).SameServer s := by
  unfold send
  split <;> exact ⟨rfl, rfl, rfl⟩

theorem sameServer_fail (s : Service P) (i : ℕ) : (s.fail i).SameServer s := by
  unfold fail
  split <;> exact ⟨rfl, rfl, rfl⟩

theorem sameServer_receive (s : Service P) (i : ℕ) : (s.receive i).SameServer s := by
  unfold receive
  split
  · split <;> exact ⟨rfl, rfl, rfl⟩
  · exact ⟨rfl, rfl, rfl⟩

theorem begin_rpcs (s : Service P) (i : ℕ) (request : Clerk → Request) :
    (s.begin i request).rpcs = s.rpcs := by
  rcases s.begin_cases i request with heq | ⟨c, _, _, heq⟩
  · rw [heq]
  · rw [heq]
    rfl

theorem fail_rpcs (s : Service P) (i : ℕ) : (s.fail i).rpcs = s.rpcs := by
  unfold fail
  split <;> rfl

theorem receive_rpcs (s : Service P) (i : ℕ) : (s.receive i).rpcs = s.rpcs := by
  unfold receive
  split
  · split <;> rfl
  · rfl

theorem stepHandler_rpcs (s : Service P) (k : ℕ) (raft : RaftAnswer) :
    (s.stepHandler k raft).rpcs = s.rpcs := by
  unfold stepHandler
  split <;> rfl

theorem deliver_rpcs (s : Service P) : s.deliver.rpcs = s.rpcs := by
  unfold deliver
  split <;> rfl

/-- An RPC that arrives changes nothing of what is ahead of `Apply`. -/
theorem arrive_ahead (s : Service P) (j : ℕ) :
    (s.arrive j).log.drop (s.arrive j).delivered = s.log.drop s.delivered := by
  unfold arrive
  split <;> rfl

/-! ## Requests under way -/

/-- Whatever is under way is a request of a clerk, and the handler of an RPC has its request. -/
structure Sent (s : Service P) : Prop where
  rpcs : ∀ r ∈ s.rpcs, r.request ∈ s.calls
  waits : ∀ c ∈ s.clerks, ∀ call, c.call = some call → ∀ j, call.rpc = some j →
    ∃ r, s.rpcs[j]? = some r ∧ r.request = call.request
  handled : ∀ r ∈ s.rpcs, ∀ k, r.handler = some k → s.server.requests[k]? = some r.request
  requests : ∀ r ∈ s.server.requests, r ∈ s.calls
  log : ∀ op ∈ s.log, s.Put op
  applyCh : ∀ msg ∈ s.server.applyCh, ∃ op, s.Put op ∧ msg.command = encodeOp op
  carries : s.server.Carries s.Put

theorem sent_init (P : Libs) : (init P).Sent where
  rpcs r hr := by cases hr
  waits c hc := by cases hc
  handled r hr := by cases hr
  requests r hr := by cases hr
  log op hop := by cases hop
  applyCh msg hmsg := by cases hmsg
  carries := Server.carries_create P _

theorem Put.mono {s' : Service P} (hcalls : s.calls ⊆ s'.calls) {op : Op} (h : s.Put op) :
    s'.Put op := by
  obtain ⟨request, hmem, rfl⟩ := h
  exact ⟨request, hcalls hmem, rfl⟩

theorem Put.encodable (hc : s.Calls) {op : Op} (h : s.Put op) : op.Encodable := by
  obtain ⟨request, hmem, rfl⟩ := h
  exact hc.encodable _ hmem

theorem Put.operation (hc : s.Calls) {op : Op} (h : s.Put op) : op.Operation = opPut := by
  obtain ⟨request, hmem, rfl⟩ := h
  exact hc.puts _ hmem

theorem Put.unique (hc : s.Calls) {op op' : Op} (h : s.Put op) (h' : s.Put op')
    (hsame : op.SameRequest op') : op = op' := by
  obtain ⟨request, hmem, rfl⟩ := h
  obtain ⟨request', hmem', rfl⟩ := h'
  exact congrArg Request.op (hc.distinct _ hmem _ hmem' hsame)

/-- A put leaves the recall index alone. -/
theorem updateIndex_put {kv : KvServer P} {op : Op} (hop : op.Operation = opPut) :
    kv.updateIndex op = some kv := by
  have hne : opPut ≠ opPutFeature ∧ opPut ≠ opDeleteFeature := by decide +kernel
  unfold KvServer.updateIndex
  rw [hop, if_neg hne.1, if_neg hne.2]

/-- No exception leaves `Apply`. -/
theorem Sent.goes_on (h : s.Sent) (hc : s.Calls) (uninit : ℤ) :
    s.server.ends (.apply uninit) = false := by
  simp only [Server.ends]
  cases ha : s.server.applier with
  | updateIndex index op =>
    have hput := h.carries.applier op (by rw [ha]; rfl)
    simp only [updateIndex_put (hput.operation hc), Option.isNone_some]
  | _ => rfl

/-- What the server is given in a step. -/
def serverInput (s : Service P) : ServiceInput → Option ServerInput
  | .arrive j =>
    match s.rpcs[j]? with
    | some ⟨request, none⟩ => some (.call request)
    | _ => none
  | .handler k raft =>
    match s.server.handlers[k]?.bind Handler.starting with
    | some _ => some (.handler k ⟨raft.isLeader, s.log.length + 1⟩)
    | none => some (.handler k raft)
  | .timeOut k => some (.timeOut k)
  | .deliver => s.log[s.delivered]?.map fun op => .push (.ofCommand (s.delivered + 1) (encodeOp op))
  | .apply uninit => some (.apply uninit)
  | _ => none

theorem step_server (rand : ℤ → ℤ) (s : Service P) (input : ServiceInput) :
    (s.step rand input).server =
      match s.serverInput input with
      | none => s.server
      | some x => s.server.step x := by
  cases input with
  | init time => rfl
  | put i key value => exact (s.sameServer_begin i _).server
  | get i key => exact (s.sameServer_begin i _).server
  | send i => exact (s.sameServer_send i).server
  | arrive j =>
    simp only [step, arrive, serverInput]
    rcases s.rpcs[j]? with _ | ⟨request, _ | k⟩ <;> rfl
  | fail i => exact (s.sameServer_fail i).server
  | receive i => exact (s.sameServer_receive i).server
  | handler k raft =>
    simp only [step, stepHandler, serverInput]
    cases s.server.handlers[k]?.bind Handler.starting <;> rfl
  | timeOut k => rfl
  | deliver =>
    simp only [step, deliver, serverInput]
    cases s.log[s.delivered]? <;> rfl
  | apply uninit => rfl

/-- A step in which the server does nothing, and RPCs may be sent. -/
theorem Sent.idle {s' : Service P} (h : s.Sent) (hserver : s'.server = s.server)
    (hlog : s'.log = s.log) (hcalls : s.calls ⊆ s'.calls)
    (hrpcs : ∃ more, s'.rpcs = s.rpcs ++ more ∧ ∀ r ∈ more, r.handler = none ∧ r.request ∈ s'.calls)
    (hwaits : ∀ c' ∈ s'.clerks, ∀ call', c'.call = some call' → ∀ j, call'.rpc = some j →
      (∃ c ∈ s.clerks, c.call = some call') ∨
        ∃ r, s'.rpcs[j]? = some r ∧ r.request = call'.request) : s'.Sent := by
  obtain ⟨more, heq, hmore⟩ := hrpcs
  refine ⟨?_, ?_, ?_, ?_, ?_, ?_, ?_⟩
  · intro r hr
    rw [heq] at hr
    rcases List.mem_append.mp hr with hr | hr
    · exact hcalls (h.rpcs r hr)
    · exact (hmore r hr).2
  · intro c' hc' call' hcall' j hj
    rcases hwaits c' hc' call' hcall' j hj with ⟨c, hc, hcall⟩ | hr
    · obtain ⟨r, hr, hreq⟩ := h.waits c hc call' hcall j hj
      refine ⟨r, ?_, hreq⟩
      rw [heq, List.getElem?_append_left (List.getElem?_eq_some_iff.mp hr).1]
      exact hr
    · exact hr
  · intro r hr k hk
    rw [heq] at hr
    rw [hserver]
    rcases List.mem_append.mp hr with hr | hr
    · exact h.handled r hr k hk
    · rw [(hmore r hr).1] at hk
      cases hk
  · rw [hserver]
    exact fun r hr => hcalls (h.requests r hr)
  · rw [hlog]
    exact fun op hop => (h.log op hop).mono hcalls
  · rw [hserver]
    intro msg hmsg
    obtain ⟨op, hput, hcmd⟩ := h.applyCh msg hmsg
    exact ⟨op, hput.mono hcalls, hcmd⟩
  · rw [hserver]
    exact h.carries.mono fun op hop => hop.mono hcalls

/-- A step of the server in which no request arrives. -/
theorem Sent.server (h : s.Sent) (hc : s.Calls) {x : ServerInput} {log : List Op} {delivered : ℕ}
    (harriving : Server.arriving x = []) (hends : s.server.ends x = false)
    (hpush : ∀ msg, x = .push msg → ∃ op, s.Put op ∧ msg.command = encodeOp op)
    (hlog : ∀ op ∈ log, s.Put op) :
    ({ s with server := s.server.step x, log := log, delivered := delivered } : Service P).Sent := by
  have hreq : (s.server.step x).requests = s.server.requests := by
    rcases s.server.step_requests x with ⟨hend, _⟩ | hreq
    · rw [hends] at hend
      cases hend
    · rw [hreq, harriving, List.append_nil]
  refine ⟨h.rpcs, h.waits, ?_, ?_, hlog, ?_, ?_⟩
  · intro r hr k hk
    show (s.server.step x).requests[k]? = _
    rw [hreq]
    exact h.handled r hr k hk
  · intro r hr
    change r ∈ (s.server.step x).requests at hr
    rw [hreq] at hr
    exact h.requests r hr
  · intro msg hmsg
    rcases Server.mem_step_applyCh hmsg with hmsg | hmsg
    · exact h.applyCh msg hmsg
    · exact hpush msg hmsg
  · refine h.carries.step fun msg hmsg uninit => ?_
    obtain ⟨op, hput, hcmd⟩ := hpush msg hmsg
    rw [hcmd, decodeOp_encodeOp uninit (hput.encodable hc)]
    exact hput

theorem Sent.arrive (h : s.Sent) (j : ℕ) : (s.arrive j).Sent := by
  unfold Service.arrive
  split
  · next request hj =>
    have hmem := List.mem_of_getElem? hj
    have hreq : (s.server.step (.call request)).requests = s.server.requests ++ [request] := by
      rcases s.server.step_requests (.call request) with ⟨hend, _⟩ | hreq
      · cases hend
      · exact hreq
    have hlen : s.server.handlers.length = s.server.requests.length := (List.length_map _).symm
    obtain ⟨hlt, _⟩ := List.getElem?_eq_some_iff.mp hj
    refine ⟨?_, ?_, ?_, ?_, h.log, h.applyCh, ?_⟩
    · intro r hr
      rcases List.mem_or_eq_of_mem_set hr with hr | rfl
      · exact h.rpcs r hr
      · exact h.rpcs ⟨request, none⟩ hmem
    · intro c hc call hcall i hi
      obtain ⟨r, hr, hsame⟩ := h.waits c hc call hcall i hi
      by_cases hji : j = i
      · subst hji
        rw [hj] at hr
        cases hr
        exact ⟨_, List.getElem?_set_self hlt, hsame⟩
      · exact ⟨r, (List.getElem?_set_ne hji).trans hr, hsame⟩
    · intro r hr k hk
      show (s.server.step (.call request)).requests[k]? = _
      rw [hreq]
      rcases List.mem_or_eq_of_mem_set hr with hr | rfl
      · have hold := h.handled r hr k hk
        rw [List.getElem?_append_left (List.getElem?_eq_some_iff.mp hold).1]
        exact hold
      · cases hk
        rw [hlen, List.getElem?_concat_length]
    · intro r hr
      change r ∈ (s.server.step (.call request)).requests at hr
      rw [hreq] at hr
      rcases List.mem_append.mp hr with hr | hr
      · exact h.requests r hr
      · rw [List.mem_singleton.mp hr]
        exact h.rpcs _ hmem
    · show (s.server.step (.call request)).Carries s.Put
      exact h.carries.step fun msg hmsg => by cases hmsg
  · exact h

/-- A handler about to call `Start` is that of a put. -/
theorem Sent.starting (h : s.Sent) {k : ℕ} {op : Op}
    (hk : s.server.handlers[k]?.bind Handler.starting = some op) : s.Put op := by
  obtain ⟨hd, hget, hstart⟩ := Option.bind_eq_some_iff.mp hk
  have hmem := h.requests _ (List.mem_map_of_mem (List.mem_of_getElem? hget))
  unfold Handler.starting at hstart
  split at hstart
  · next request =>
    cases hstart
    exact ⟨request, hmem, rfl⟩
  · cases hstart

/-- A step of a clerk that sends no RPC: what is called anew waits for none. -/
theorem Sent.set_clerk (h : s.Sent) (i : ℕ) {c' : Clerk} {calls : List Request}
    {acknowledged : List Op} (hcalls : s.calls ⊆ calls)
    (hc' : ∀ call, c'.call = some call → call.rpc = none) :
    ({ s with
        clerks := s.clerks.set i c', calls := calls,
        acknowledged := acknowledged } : Service P).Sent := by
  refine h.idle rfl rfl hcalls ⟨[], (List.append_nil _).symm, by simp⟩ ?_
  intro d hd call hcall j hj
  rcases List.mem_or_eq_of_mem_set hd with hd | rfl
  · exact .inl ⟨d, hd, hcall⟩
  · rw [hc' call hcall] at hj
    cases hj

theorem Sent.init (h : s.Sent) (c : Clerk) (hnone : c.call = none) :
    ({ s with clerks := s.clerks ++ [c] } : Service P).Sent := by
  refine h.idle rfl rfl (List.Subset.refl _) ⟨[], (List.append_nil _).symm, by simp⟩ ?_
  intro d hd call hcall j hj
  rcases List.mem_append.mp hd with hd | hd
  · exact .inl ⟨d, hd, hcall⟩
  · rw [List.mem_singleton.mp hd, hnone] at hcall
    cases hcall

theorem Sent.begin (h : s.Sent) (i : ℕ) (request : Clerk → Request) :
    (s.begin i request).Sent := by
  rcases s.begin_cases i request with heq | ⟨c, _, _, heq⟩
  · rw [heq]
    exact h
  · rw [heq]
    exact h.set_clerk i (List.subset_cons_self _ _) fun call hcall => by cases hcall; rfl

theorem Sent.send (h : s.Sent) (hc : s.Calls) (i : ℕ) : (s.send i).Sent := by
  unfold Service.send
  split
  · next clientId requestId request retryCount hi =>
    have hreq := (hc.current _ (List.mem_of_getElem? hi) _ rfl).1
    refine h.idle rfl rfl (List.Subset.refl _) ⟨_, rfl, ?_⟩ ?_
    · intro r hr
      rw [List.mem_singleton.mp hr]
      exact ⟨rfl, hreq⟩
    · intro d hd call hcall j hj
      rcases List.mem_or_eq_of_mem_set hd with hd | rfl
      · exact .inl ⟨d, hd, hcall⟩
      · -- the clerk waits for the RPC just sent
        cases hcall
        cases hj
        exact .inr ⟨_, List.getElem?_concat_length, rfl⟩
  · exact h

theorem Sent.fail (h : s.Sent) (i : ℕ) : (s.fail i).Sent := by
  unfold Service.fail
  split
  · refine h.set_clerk i (List.Subset.refl _) fun call hcall => ?_
    simp only [Clerk.failed, Option.bind_some] at hcall
    split_ifs at hcall
    cases hcall
    rfl
  · exact h

theorem Sent.receive (h : s.Sent) (i : ℕ) : (s.receive i).Sent := by
  unfold Service.receive
  split
  · split
    · exact h
    · next err _ =>
      refine h.set_clerk i (List.Subset.refl _) fun call hcall => ?_
      cases err with
      | ErrWrongLeader =>
        cases hcall
        rfl
      | _ => cases hcall
  · exact h

theorem Sent.stepHandler (h : s.Sent) (hc : s.Calls) (k : ℕ) (raft : RaftAnswer) :
    (s.stepHandler k raft).Sent := by
  unfold Service.stepHandler
  split
  · next op hk =>
    refine h.server hc rfl rfl (fun msg hmsg => by cases hmsg) fun op' hop' => ?_
    split_ifs at hop'
    · rcases List.mem_append.mp hop' with hop' | hop'
      · exact h.log op' hop'
      · rw [List.mem_singleton.mp hop']
        exact h.starting hk
    · exact h.log op' hop'
  · exact h.server hc rfl rfl (fun msg hmsg => by cases hmsg) h.log

theorem Sent.deliver (h : s.Sent) (hc : s.Calls) : s.deliver.Sent := by
  unfold Service.deliver
  split
  · exact h
  · next op hop =>
    refine h.server hc rfl rfl (fun msg hmsg => ?_) h.log
    cases hmsg
    exact ⟨op, h.log op (List.mem_of_getElem? hop), rfl⟩

theorem Sent.step (h : s.Sent) (hc : s.Calls) (rand : ℤ → ℤ) (input : ServiceInput) :
    (s.step rand input).Sent := by
  cases input with
  | init time => exact h.init _ rfl
  | put i key value => exact h.begin i _
  | get i key => exact h.begin i _
  | send i => exact h.send hc i
  | arrive j => exact h.arrive j
  | fail i => exact h.fail i
  | receive i => exact h.receive i
  | handler k raft => exact h.stepHandler hc k raft
  | timeOut k => exact h.server hc rfl rfl (fun msg hmsg => by cases hmsg) h.log
  | deliver => exact h.deliver hc
  | apply uninit =>
    exact h.server hc rfl (h.goes_on hc uninit) (fun msg hmsg => by cases hmsg) h.log

/-! ## Copies come from copies -/

/-- A handler that is about to call `Start` was so before, or has just arrived. -/
theorem starting_back {x : ServerInput} {op : Op} {sv : Server P}
    (h : ∃ hd ∈ (sv.step x).handlers, hd.starting = some op) :
    (∃ hd ∈ sv.handlers, hd.starting = some op) ∨ ∃ r, x = .call r ∧ r.op = op := by
  obtain ⟨hd, hmem, hstart⟩ := h
  rcases Server.mem_step_handlers hmem with hmem | ⟨r, rfl, rfl⟩ | ⟨k, raft, hd, rfl, _, rfl⟩ |
    ⟨k, hd, rfl, hk, rfl⟩
  · exact .inl ⟨hd, hmem, hstart⟩
  · cases r with
    | get args => cases hstart
    | write request => exact .inr ⟨_, rfl, Option.some.inj hstart⟩
  · cases hd with
    | get args pc => cases hstart
    | write request pc =>
      have hpc : (request.step pc sv.kv raft).2 ≠ .start := by
        unfold WriteRequest.step
        split
        · split_ifs <;> simp
        · simp
        · split <;> simp
        · split_ifs <;> simp
        · simp
      simp only [Handler.step] at hstart
      unfold Handler.starting at hstart
      split at hstart
      · next heq => exact absurd (Handler.write.inj heq).2 hpc
      · cases hstart
  · rcases Server.handler_timeOut_cases sv.kv hd with heq | ⟨request, heq⟩
    · rw [heq] at hstart
      exact .inl ⟨hd, List.mem_of_getElem? hk, hstart⟩
    · rw [heq] at hstart
      cases hstart

/-- The apply thread checks what it was about to check, or has just taken from `applyCh`. -/
theorem checking_back {x : ServerInput} {op : Op} {sv : Server P}
    (h : (sv.step x).applier.checking = some op) : sv.applier.checking = some op ∨
      ∃ uninit, ∃ msg ∈ sv.applyCh, x = .apply uninit ∧ decodeOp uninit msg.command = op := by
  cases x with
  | call r => exact .inl h
  | handler k raft =>
    change (sv.stepHandler k raft).applier.checking = _ at h
    rcases sv.stepHandler_cases k raft with ⟨_, heq⟩ | ⟨hd, _, heq⟩
    · rw [heq] at h
      exact .inl h
    · rw [heq] at h
      exact .inl h
  | timeOut k =>
    obtain ⟨handlers, heq⟩ := sv.timeOut_cases k
    change (sv.timeOut k).applier.checking = _ at h
    rw [heq] at h
    exact .inl h
  | push msg => exact .inl h
  | apply uninit =>
    change (sv.stepApplier uninit).applier.checking = _ at h
    cases ha : sv.applier with
    | idle =>
      cases hch : sv.applyCh with
      | nil =>
        simp only [Server.stepApplier, ha, hch] at h
        cases h
      | cons msg rest =>
        simp only [Server.stepApplier, ha, hch] at h
        exact .inr ⟨uninit, msg, List.mem_cons_self, rfl, Option.some.inj h⟩
    | check index op' =>
      simp only [Server.stepApplier, ha] at h
      split_ifs at h <;> cases h
    | updateIndex index op' =>
      simp only [Server.stepApplier, ha] at h
      cases hupdate : sv.kv.updateIndex op' with
      | none =>
        rw [hupdate] at h
        cases h
      | some kv =>
        rw [hupdate] at h
        cases h
    | findChannel index op' =>
      simp only [Server.stepApplier, ha] at h
      split_ifs at h <;> cases h
    | _ =>
      simp only [Server.stepApplier, ha] at h
      cases h
  | search =>
    change sv.search.applier.checking = _ at h
    rcases sv.search_cases with ⟨_, heq⟩ | ⟨e, built, heq⟩
    · rw [heq] at h
      cases h
    · rw [heq] at h
      exact .inl h
  | crash => cases h

/-- The copies of a put in the server after a step. -/
theorem Sent.server_back (h : s.Sent) (hc : s.Calls) {x : ServerInput} {op : Op} (hput : s.Put op)
    (hback : (∃ hd ∈ (s.server.step x).handlers, hd.starting = some op) ∨
      (∃ msg ∈ (s.server.step x).applyCh, msg.command = encodeOp op) ∨
        (s.server.step x).applier.checking = some op) :
    s.MayReturn op ∨ (∃ r, x = .call r ∧ r.op = op) ∨
      ∃ msg, x = .push msg ∧ msg.command = encodeOp op := by
  rcases hback with hstart | ⟨msg, hmsg, hcmd⟩ | hcheck
  · exact (starting_back hstart).imp (fun h => .inr (.inr (.inl h))) .inl
  · rcases Server.mem_step_applyCh hmsg with hmsg | hmsg
    · exact .inl (.inr (.inr (.inr (.inr (.inl ⟨msg, hmsg, hcmd⟩)))))
    · exact .inr (.inr ⟨msg, hmsg, hcmd⟩)
  · left
    rcases checking_back hcheck with hcheck | ⟨uninit, msg, hmsg, _, hdec⟩
    · exact .inr (.inr (.inr (.inr (.inr hcheck))))
    · obtain ⟨op', hput', hcmd⟩ := h.applyCh msg hmsg
      rw [hcmd, decodeOp_encodeOp uninit (hput'.encodable hc)] at hdec
      subst hdec
      exact .inr (.inr (.inr (.inr (.inl ⟨msg, hmsg, hcmd⟩))))

/-- No new call is that of an old put. -/
theorem Calls.clerks_back (hc : s.Calls) {rand : ℤ → ℤ} {input : ServiceInput} {op : Op}
    (hok : OwnNumbers s input) (hput : s.Put op)
    (h : ∃ c ∈ (s.step rand input).clerks, c.call.map (·.request.op) = some op) :
    ∃ c ∈ s.clerks, c.call.map (·.request.op) = some op := by
  obtain ⟨c', hmem, hcall⟩ := h
  obtain ⟨call', hcall', hop⟩ := Option.map_eq_some_iff.mp hcall
  rcases s.step_clerks rand input hok with hsame | ⟨time, heq⟩ |
    ⟨i, request, c, hisCall, hown, hi, hnone, heq⟩
  · obtain ⟨i, hi⟩ := List.mem_iff_getElem?.mp hmem
    obtain ⟨c, hc', _, _, hback⟩ := hsame.clerks i c' hi
    obtain ⟨call, hold, hreq⟩ := hback call' hcall'
    refine ⟨c, List.mem_of_getElem? hc', ?_⟩
    rw [hold, Option.map_some, ← hreq, hop]
  · rw [heq] at hmem
    rcases List.mem_append.mp hmem with hmem | hmem
    · exact ⟨c', hmem, hcall⟩
    · rw [List.mem_singleton.mp hmem] at hcall'
      cases hcall'
  · rw [heq] at hmem
    rcases List.mem_or_eq_of_mem_set hmem with hmem | rfl
    · exact ⟨c', hmem, hcall⟩
    · cases hcall'
      obtain ⟨w, hw, rfl⟩ := hput
      have hsame : (Request.write w).op = _ := hop.symm
      have hle := hc.lt_of_own hi (hown c hi hnone).1 hw
        ((congrArg Op.ClientId hsame).trans (hisCall.clientId _))
      have heq' := (congrArg Op.RequestId hsame).trans (hisCall.requestId _)
      dsimp only at heq'
      omega

/-- An RPC whose request is under way was so before, or a clerk has just sent it. -/
theorem rpcs_back (rand : ℤ → ℤ) {input : ServiceInput} {r : ClerkRpc}
    (h : r ∈ (s.step rand input).rpcs) (hr : r.handler = none) :
    r ∈ s.rpcs ∨ ∃ c ∈ s.clerks, c.call.map (·.request.op) = some r.request.op := by
  cases input with
  | init time => exact .inl h
  | put i key value => exact .inl (s.begin_rpcs i _ ▸ h)
  | get i key => exact .inl (s.begin_rpcs i _ ▸ h)
  | send i =>
    change r ∈ (s.send i).rpcs at h
    unfold send at h
    split at h
    · next clientId requestId request retryCount hi =>
      rcases List.mem_append.mp h with h | h
      · exact .inl h
      · rw [List.mem_singleton.mp h]
        exact .inr ⟨_, List.mem_of_getElem? hi, rfl⟩
    · exact .inl h
  | arrive j =>
    change r ∈ (s.arrive j).rpcs at h
    unfold arrive at h
    split at h
    · rcases List.mem_or_eq_of_mem_set h with h | rfl
      · exact .inl h
      · cases hr
    · exact .inl h
  | fail i => exact .inl (s.fail_rpcs i ▸ h)
  | receive i => exact .inl (s.receive_rpcs i ▸ h)
  | handler k raft => exact .inl (s.stepHandler_rpcs k raft ▸ h)
  | timeOut k => exact .inl h
  | deliver => exact .inl (s.deliver_rpcs ▸ h)
  | apply uninit => exact .inl h

/-- What is ahead of `Apply` after a step of a handler. -/
theorem stepHandler_ahead {k : ℕ} {raft : RaftAnswer} {op : Op}
    (h : op ∈ (s.stepHandler k raft).log.drop (s.stepHandler k raft).delivered) :
    op ∈ s.log.drop s.delivered ∨ ∃ hd ∈ s.server.handlers, hd.starting = some op := by
  unfold stepHandler at h
  split at h
  · next op' hk =>
    split_ifs at h
    · rw [List.drop_append] at h
      rcases List.mem_append.mp h with h | h
      · exact .inl h
      · rw [List.mem_singleton.mp (List.mem_of_mem_drop h)]
        obtain ⟨hd, hget, hstart⟩ := Option.bind_eq_some_iff.mp hk
        exact .inr ⟨hd, List.mem_of_getElem? hget, hstart⟩
    · exact .inl h
  · exact .inl h

/-- What is ahead of `Apply` after a delivery was so before. -/
theorem deliver_ahead {op : Op} (h : op ∈ s.deliver.log.drop s.deliver.delivered) :
    op ∈ s.log.drop s.delivered := by
  unfold deliver at h
  split at h
  · exact h
  · rw [← List.drop_drop] at h
    exact List.mem_of_mem_drop h

/-- A command ahead of `Apply` was so before, or a handler has just started it. -/
theorem log_back (rand : ℤ → ℤ) {input : ServiceInput} {op : Op}
    (h : op ∈ (s.step rand input).log.drop (s.step rand input).delivered) :
    op ∈ s.log.drop s.delivered ∨ ∃ hd ∈ s.server.handlers, hd.starting = some op := by
  cases input with
  | init time => exact .inl h
  | put i key value => exact .inl ((s.sameServer_begin i _).ahead ▸ h)
  | get i key => exact .inl ((s.sameServer_begin i _).ahead ▸ h)
  | send i => exact .inl ((s.sameServer_send i).ahead ▸ h)
  | arrive j => exact .inl (s.arrive_ahead j ▸ h)
  | fail i => exact .inl ((s.sameServer_fail i).ahead ▸ h)
  | receive i => exact .inl ((s.sameServer_receive i).ahead ▸ h)
  | handler k raft => exact stepHandler_ahead h
  | timeOut k => exact .inl h
  | deliver => exact .inl (deliver_ahead h)
  | apply uninit => exact .inl h

/-- The server is called by an RPC that has arrived. -/
theorem serverInput_call {input : ServiceInput} {request : Request}
    (h : s.serverInput input = some (.call request)) :
    ∃ r ∈ s.rpcs, r.handler = none ∧ r.request = request := by
  cases input with
  | arrive j =>
    simp only [serverInput] at h
    split at h
    · next hj =>
      cases h
      exact ⟨_, List.mem_of_getElem? hj, rfl, rfl⟩
    · cases h
  | handler k raft =>
    simp only [serverInput] at h
    split at h <;> cases h
  | deliver =>
    obtain ⟨op, _, heq⟩ := Option.map_eq_some_iff.mp h
    cases heq
  | _ => cases h

/-- What is pushed to `applyCh` is the next command of the log. -/
theorem serverInput_push {input : ServiceInput} {msg : ApplyMsg}
    (h : s.serverInput input = some (.push msg)) :
    ∃ op, s.log[s.delivered]? = some op ∧ msg.command = encodeOp op := by
  cases input with
  | arrive j =>
    simp only [serverInput] at h
    split at h <;> cases h
  | handler k raft =>
    simp only [serverInput] at h
    split at h <;> cases h
  | deliver =>
    obtain ⟨op, hop, heq⟩ := Option.map_eq_some_iff.mp h
    cases heq
    exact ⟨op, hop, rfl⟩
  | _ => cases h

/-- The copies in the server, after a step of the whole, come from copies. -/
theorem Sent.step_server_back (h : s.Sent) (hc : s.Calls) (rand : ℤ → ℤ) (input : ServiceInput)
    {op : Op} (hput : s.Put op)
    (hback : (∃ hd ∈ (s.step rand input).server.handlers, hd.starting = some op) ∨
      (∃ msg ∈ (s.step rand input).server.applyCh, msg.command = encodeOp op) ∨
        (s.step rand input).server.applier.checking = some op) : s.MayReturn op := by
  rw [step_server] at hback
  cases hx : s.serverInput input with
  | none =>
    rw [hx] at hback
    rcases hback with hstart | hmsg | hcheck
    · exact .inr (.inr (.inl hstart))
    · exact .inr (.inr (.inr (.inr (.inl hmsg))))
    · exact .inr (.inr (.inr (.inr (.inr hcheck))))
  | some x =>
    rw [hx] at hback
    rcases h.server_back hc hput hback with hold | ⟨request, rfl, hop⟩ | ⟨msg, rfl, hcmd⟩
    · exact hold
    · obtain ⟨r, hr, hnone, rfl⟩ := serverInput_call hx
      exact .inr (.inl ⟨r, hr, hnone, hop⟩)
    · obtain ⟨op', hop', hcmd'⟩ := serverInput_push hx
      have hput' := h.log op' (List.mem_of_getElem? hop')
      obtain rfl : op' = op :=
        encodeOp_inj (hput'.encodable hc) (hput.encodable hc) (hcmd'.symm.trans hcmd)
      refine .inr (.inr (.inr (.inl (List.mem_of_getElem? (i := 0) ?_))))
      rw [List.getElem?_drop, Nat.add_zero]
      exact hop'

/-- Copies of a put come from copies. -/
theorem Sent.copies_back (h : s.Sent) (hc : s.Calls) (rand : ℤ → ℤ) (input : ServiceInput)
    {op : Op} (hok : OwnNumbers s input) (hput : s.Put op)
    (hback : (s.step rand input).MayReturn op) : s.MayReturn op := by
  have hserver := h.step_server_back hc rand input hput
  rcases hback with hclerk | ⟨r, hr, hnone, hop⟩ | hstart | hlog | hmsg | hcheck
  · exact .inl (hc.clerks_back hok hput hclerk)
  · rcases rpcs_back rand hr hnone with hr | hclerk
    · exact .inr (.inl ⟨r, hr, hnone, hop⟩)
    · exact .inl (hop ▸ hclerk)
  · exact hserver (.inl hstart)
  · rcases log_back rand hlog with hlog | hstart
    · exact .inr (.inr (.inr (.inl hlog)))
    · exact .inr (.inr (.inl hstart))
  · exact hserver (.inr (.inl hmsg))
  · exact hserver (.inr (.inr hcheck))

end Service

end MyKvRaft
