import MyKvRaft.Safety.Commands
import MyKvRaft.System.System

/-!
# Reads after an acknowledged put

A read does not go through the log: a leader reads its own store after a check of its
status, and any other node as soon as its commit index is positive. So a read sees an
acknowledged put only at a node that has applied it.

* `Answered.step`: a server on which each read finds the put answers with its value.
* `reads_see_put`: in every run in which reads find what is acknowledged.
-/

namespace MyKvRaft

open Transition

variable {N : ℕ} {P : Libs}

/-- The operation writes the key. -/
def Op.Writes (op : Op) (key : Bytes) : Prop :=
  op.Key = key ∧ (op.Operation = opPut ∨ op.Operation = opAppend)

instance (op : Op) (key : Bytes) : Decidable (op.Writes key) :=
  inferInstanceAs (Decidable (_ ∧ _))

/-- A read of the store finds every write of its key that had been acknowledged when the read was
    called, a read of the table finds its own record, and the operations of writes can be
    encoded. -/
def FindsAcknowledged (s : System N P) : SystemInput N → Prop
  | .call _ (.write request) => request.op.Encodable
  | .handler i k _ =>
    match (s.servers i).handlers[k]? with
    | some (.get args .readValue) => ∀ x ∈ s.issued, x.1 = args → ∀ op ∈ x.2,
        op.Writes args.key → op ∈ (s.servers i).executed
    | some (.get args .readCache) =>
      ((s.servers i).kv.lastRequests args.clientid).map (·.lastRequestId) = some args.requestid
    | _ => True
  | _ => True

/-! ## The store -/

theorem search_stored_other {kvdb : P.SkipList} {op : Op} {key : Bytes} (h : ¬ op.Writes key) :
    P.searchElement (stored kvdb op) key = P.searchElement kvdb key := by
  unfold stored KvServer.executeOnKVDB KvServer.executePutAppendOnKVDB
  split_ifs with hget hput happend
  · rfl
  · have hkey : key ≠ op.Key := fun heq => h ⟨heq.symm, .inl hput⟩
    exact (P.search_insert _ _ _ _).trans (if_neg hkey)
  · have hkey : key ≠ op.Key := fun heq => h ⟨heq.symm, .inr happend⟩
    exact (P.search_insert _ _ _ _).trans (if_neg hkey)
  · rfl

theorem search_stored_put {kvdb : P.SkipList} {op : Op} (h : op.Operation = opPut) :
    P.searchElement (stored kvdb op) op.Key = some op.Value := by
  have hne : opPut ≠ opGet := by decide +kernel
  unfold stored KvServer.executeOnKVDB KvServer.executePutAppendOnKVDB
  rw [if_neg (h ▸ hne), if_pos h]
  exact (P.search_insert _ _ _ _).trans (if_pos rfl)

/-- The store after operations of which only one put writes the key. -/
theorem search_storedAll {put : Op} (hput : put.Operation = opPut) {ops : List Op}
    (honly : ∀ op ∈ ops, op.Writes put.Key → op = put) (hmem : put ∈ ops) :
    P.searchElement (storedAll P ops) put.Key = some put.Value := by
  induction ops with
  | nil => cases hmem
  | cons op earlier ih =>
    by_cases hop : op = put
    · subst hop
      exact search_stored_put hput
    · have hwrites : ¬ op.Writes put.Key := fun hw => hop (honly op List.mem_cons_self hw)
      have hearlier : put ∈ earlier :=
        (List.mem_cons.mp hmem).resolve_left fun heq => hop heq.symm
      have ih := ih (fun op' hop' => honly op' (List.mem_cons_of_mem op hop')) hearlier
      exact (search_stored_other hwrites).trans ih

/-! ## One server -/

/-- Of the writes, only `put` is of the key of `get`, and none has its number. -/
structure OnlyPut (put : Op) (get : GetArgs) (op : Op) : Prop where
  encodable : op.Encodable
  other : ¬ op.SameRequest get.op
  only : op.Writes get.key → op = put

/-- The requests beside which `get` is read. -/
def AllowedBeside (put : Op) (get : GetArgs) : Request → Prop
  | .get args => args.op.SameRequest get.op → args = get
  | .write request => OnlyPut put get request.op

/-- What `get` has found is the value of `put`. -/
def Handler.Finds (put : Op) (get : GetArgs) : Handler → Prop
  | .get args (.record value) => args = get → value = some put.Value
  | .get args (.replied reply) => args = get → reply.err ≠ .ErrWrongLeader →
      reply = ⟨.OK, put.Value⟩
  | _ => True

/-- A server that answers `get` with the value of `put`. -/
structure Answered (put : Op) (get : GetArgs) (s : Server P) : Prop where
  carries : s.Carries (OnlyPut put get)
  stored : s.Stored
  requests : ∀ r ∈ s.requests, AllowedBeside put get r
  table : ∀ record, s.kv.lastRequests get.clientid = some record →
    record.lastRequestId = get.requestid → record.lastValue = put.Value
  finds : ∀ h ∈ s.handlers, h.Finds put get

section Server

variable {put : Op} {get : GetArgs} {s : Server P}

theorem answered_create (P : Libs) (put : Op) (get : GetArgs) :
    Answered put get (Server.create P) where
  carries := Server.carries_create P _
  stored := Server.stored_create P
  requests r hr := by cases hr
  table record h := by cases h
  finds h hh := by cases hh

/-- Where the put is executed, a read of its key finds it. -/
theorem Answered.read (h : Answered put get s) (hput : put.Operation = opPut)
    (hkey : put.Key = get.key) (hmem : put ∈ s.executed) :
    s.kv.executeGetOpOnKVDB get.op = some put.Value := by
  have hstored : s.kv.kvdb = storedAll P s.executed := h.stored
  show P.searchElement s.kv.kvdb get.key = _
  rw [hstored, ← hkey]
  exact search_storedAll hput (fun op hop hw => (h.carries.executed op hop).only (hkey ▸ hw)) hmem

/-- What a step records under the number of `get` is what `get` has found. -/
theorem Answered.records (h : Answered put get s) {input : ServerInput} {op : Op} {value : Bytes}
    (hrec : s.records input = some (op, value)) (hsame : op.SameRequest get.op) :
    value = put.Value := by
  cases input with
  | handler k raft =>
    simp only [Server.records] at hrec
    split at hrec
    · next args found hk =>
      cases hrec
      have hmem := List.mem_of_getElem? hk
      have hargs : args = get := h.requests _ (List.mem_map_of_mem hmem) hsame
      have hfound : found = some put.Value := h.finds _ hmem hargs
      rw [hfound, Option.getD_some]
    · cases hrec
  | apply uninit =>
    simp only [Server.records] at hrec
    split at hrec
    · next index op' value' ha =>
      cases hrec
      exact absurd hsame (h.carries.applier _ (by rw [ha]; rfl)).other
    · cases hrec
  | _ => cases hrec

theorem Answered.table_step (h : Answered put get s) {input : ServerInput} :
    ∀ record, (s.step input).kv.lastRequests get.clientid = some record →
      record.lastRequestId = get.requestid → record.lastValue = put.Value := by
  intro record hrecord hnum
  rcases s.step_lastRequests input with ⟨_, heq⟩ | ⟨_, heq⟩ | ⟨op, value, hrec, heq⟩
  · rw [heq] at hrecord
    cases hrecord
  · rw [heq] at hrecord
    exact h.table record hrecord hnum
  · rw [heq] at hrecord
    by_cases hclient : get.clientid = op.ClientId
    · simp only [KvServer.recordRequestResult, hclient, Function.update_self,
        Option.some.injEq] at hrecord
      subst hrecord
      exact h.records hrec ⟨hclient.symm, hnum⟩
    · simp only [KvServer.recordRequestResult, Function.update_of_ne hclient] at hrecord
      exact h.table record hrecord hnum

/-- A step of `get` finds the put, if a read of the store meets it and a read of the table its own
    record. -/
theorem Answered.finds_get (h : Answered put get s) (hput : put.Operation = opPut)
    (hkey : put.Key = get.key) {args : GetArgs} {pc : GetPc} {raft : RaftAnswer}
    (hold : Handler.Finds put get (.get args pc))
    (hread : args = get → pc = .readValue → put ∈ s.executed)
    (hcache : args = get → pc = .readCache →
      (s.kv.lastRequests get.clientid).map (·.lastRequestId) = some get.requestid) :
    Handler.Finds put get (.get args (args.step pc s.kv raft).2) := by
  cases pc with
  | getState => trivial
  | checkDuplicate isLeader =>
    simp only [GetArgs.step]
    split_ifs <;> trivial
  | readCache =>
    intro hargs _
    subst hargs
    obtain ⟨record, hrecord, hnum⟩ := Option.map_eq_some_iff.mp (hcache rfl rfl)
    show (⟨.OK, s.kv.cachedValue args.clientid⟩ : Reply) = ⟨.OK, put.Value⟩
    rw [KvServer.cachedValue, hrecord, Option.map_some, Option.getD_some,
      h.table record hrecord hnum]
  | getCommitIndex =>
    simp only [GetArgs.step]
    split_ifs
    · trivial
    · exact fun _ hne => absurd rfl hne
  | readValue =>
    intro hargs
    subst hargs
    exact h.read hput hkey (hread rfl rfl)
  | record value =>
    intro hargs _
    have hvalue : value = some put.Value := hold hargs
    subst hvalue
    rfl
  | replied reply => exact hold

theorem Answered.step (h : Answered put get s) (hput : put.Operation = opPut)
    (hkey : put.Key = get.key) {input : ServerInput}
    (hcall : ∀ r, input = .call r → AllowedBeside put get r)
    (hpush : ∀ msg, input = .push msg → ∃ op, OnlyPut put get op ∧ msg.command = encodeOp op)
    (hread : ∀ k raft, input = .handler k raft → s.handlers[k]? = some (.get get .readValue) →
      put ∈ s.executed)
    (hcache : ∀ k raft, input = .handler k raft → s.handlers[k]? = some (.get get .readCache) →
      (s.kv.lastRequests get.clientid).map (·.lastRequestId) = some get.requestid) :
    Answered put get (s.step input) := by
  refine ⟨h.carries.step fun msg hmsg uninit => ?_, h.stored.step input, fun r hr => ?_,
    h.table_step, fun hd hmem => ?_⟩
  · obtain ⟨op, honly, hcommand⟩ := hpush msg hmsg
    rw [hcommand, decodeOp_encodeOp uninit honly.encodable]
    exact honly
  · rcases s.step_requests input with ⟨_, heq⟩ | heq
    · rw [heq] at hr
      cases hr
    · rw [heq] at hr
      rcases List.mem_append.mp hr with hr | hr
      · exact h.requests r hr
      · cases input with
        | call r' => exact List.mem_singleton.mp hr ▸ hcall r' rfl
        | _ => cases hr
  · rcases Server.mem_step_handlers hmem with hmem | ⟨r, _, rfl⟩ | ⟨k, raft, hd, rfl, hk, rfl⟩ |
      ⟨k, hd, _, hk, rfl⟩
    · exact h.finds hd hmem
    · cases r <;> trivial
    · cases hd with
      | get args pc =>
        refine h.finds_get hput hkey (h.finds _ (List.mem_of_getElem? hk)) ?_ ?_
        · rintro rfl rfl
          exact hread k raft rfl hk
        · rintro rfl rfl
          exact hcache k raft rfl hk
      | write request pc => trivial
    · rcases Server.handler_timeOut_cases s.kv hd with heq | ⟨request, heq⟩
      · rw [heq]
        exact h.finds hd (List.mem_of_getElem? hk)
      · rw [heq]
        trivial

end Server

/-! ## The system -/

/-- The request that arrives with a step. -/
def SystemInput.request : SystemInput N → Option Request
  | .call _ request => some request
  | _ => none

/-- In the steps `h`, only `put` writes the key of `get`, `get` has a number of its own, and it is
    called once `put` is acknowledged. -/
structure ReadAfterPut (put : WriteRequest) (get : GetArgs)
    (h : List (System N P × SystemInput N)) : Prop where
  key : put.op.Key = get.key
  operation : put.op.Operation = opPut
  only : ∀ x ∈ h, ∀ r ∈ x.2.request, r.op.Writes get.key → r.op = put.op
  fresh : ∀ x ∈ h, ∀ r ∈ x.2.request, r.op.SameRequest get.op → r = .get get
  acknowledged : ∀ x ∈ h, .get get ∈ x.2.request → put.op ∈ x.1.acknowledged

/-- The commands beside which `get` is read. -/
def OnlyPutCommand (put : Op) (get : GetArgs) (command : Bytes) : Prop :=
  ∃ op, OnlyPut put get op ∧ command = encodeOp op

/-- Every server answers `get` with the value of `put`, which was acknowledged when `get` was
    called first. -/
structure Serves (put : Op) (get : GetArgs) (s : System N P) : Prop where
  commands : s.cluster.Commands (OnlyPutCommand put get)
  servers : ∀ i, Answered put get (s.servers i)
  issued : ∀ x ∈ s.issued, x.1 = get → put ∈ x.2
  called : ∀ i, .get get ∈ (s.servers i).requests → get ∈ s.issued.map Prod.fst

section System

variable {put : Op} {get : GetArgs} {s : System N P}

theorem serves_init (N : ℕ) (P : Libs) (put : Op) (get : GetArgs) :
    Serves put get (System.init N P) where
  commands := Cluster.commands_init
  servers i := answered_create P put get
  issued x hx := by cases hx
  called i h := by cases h

/-- A step in which at most the server of process `i` changes, and no request arrives. -/
theorem Serves.update (h : Serves put get s) {s' : System N P} {i : Fin N} {sv : Server P}
    (hcommands : s'.cluster.Commands (OnlyPutCommand put get))
    (hservers : s'.servers = Function.update s.servers i sv) (hans : Answered put get sv)
    (hissued : s'.issued = s.issued) (hreq : sv.requests ⊆ (s.servers i).requests) :
    Serves put get s' := by
  refine ⟨hcommands, fun j => ?_, hissued ▸ h.issued, fun j hj => ?_⟩
  · rw [hservers]
    by_cases hji : j = i
    · subst hji
      rw [Function.update_self]
      exact hans
    · rw [Function.update_of_ne hji]
      exact h.servers j
  · rw [hissued]
    rw [hservers] at hj
    by_cases hji : j = i
    · subst hji
      rw [Function.update_self] at hj
      exact h.called j (hreq hj)
    · rw [Function.update_of_ne hji] at hj
      exact h.called j hj

theorem Serves.commands_step (h : Serves put get s) (a : Action N)
    (hstart : ∀ i command now, a ≠ .act i (.start command now)) :
    (s.cluster.step a).Commands (OnlyPutCommand put get) :=
  h.commands.step a fun i command now heq => absurd heq (hstart i command now)

/-- Without a call, the requests of a server are old. -/
theorem requests_subset {sv : Server P} {x : ServerInput} (hx : Server.arriving x = []) :
    (sv.step x).requests ⊆ sv.requests := by
  rcases sv.step_requests x with ⟨_, heq⟩ | heq
  · rw [heq]
    exact List.nil_subset _
  · rw [heq, hx, List.append_nil]
    exact List.Subset.refl _

theorem Serves.stepServer (h : Serves put get s) {i : Fin N} {x : ServerInput}
    (hx : Server.arriving x = []) (hans : Answered put get ((s.servers i).step x)) :
    Serves put get (s.stepServer i x) := by
  refine h.update ?_ rfl hans rfl (requests_subset hx)
  show Cluster.Commands _ (if (s.servers i).ends x then s.cluster.step (.act i .crash) else s.cluster)
  split_ifs
  · exact h.commands_step _ fun j command now heq => by cases heq
  · exact h.commands

/-- A handler that reads the store finds the put, as it was acknowledged when the read was
    called. -/
theorem Serves.executed (h : Serves put get s) (hput : put.Operation = opPut)
    (hkey : put.Key = get.key) {i : Fin N} {k : ℕ} {now : ℤ}
    (hok : FindsAcknowledged s (.handler i k now))
    (hk : (s.servers i).handlers[k]? = some (.get get .readValue)) :
    put ∈ (s.servers i).executed := by
  have hreq : .get get ∈ (s.servers i).requests :=
    List.mem_map_of_mem (f := Handler.request) (List.mem_of_getElem? hk)
  obtain ⟨x, hx, hget⟩ := List.mem_map.mp (h.called i hreq)
  simp only [FindsAcknowledged, hk] at hok
  exact hok x hx hget put (h.issued x hx hget) ⟨hkey, .inl hput⟩

theorem Serves.stepHandler (h : Serves put get s) (hput : put.Operation = opPut)
    (hkey : put.Key = get.key) {i : Fin N} {k : ℕ} {now : ℤ}
    (hok : FindsAcknowledged s (.handler i k now)) : Serves put get (s.stepHandler i k now) := by
  have hans : ∀ raft, Answered put get ((s.servers i).step (.handler k raft)) := by
    intro raft
    refine (h.servers i).step hput hkey (fun r hr => by cases hr) (fun msg hmsg => by cases hmsg)
      ?_ ?_
    · intro k' raft' heq hk
      cases heq
      exact h.executed hput hkey hok hk
    · intro k' raft' heq hk
      cases heq
      simp only [FindsAcknowledged, hk] at hok
      exact hok
  unfold System.stepHandler
  dsimp only
  split
  · next request hk =>
    refine h.update ?_ rfl (hans _) rfl (requests_subset rfl)
    show (s.cluster.step (.act i (.start request.op now))).Commands _
    refine h.commands.step _ fun j command now' heq => ?_
    cases heq
    have hreq := List.mem_map_of_mem (f := Handler.request) (List.mem_of_getElem? hk)
    exact ⟨request.op, (h.servers i).requests _ hreq, rfl⟩
  · exact h.stepServer rfl (hans _)

theorem Serves.push (h : Serves put get s) (hput : put.Operation = opPut)
    (hkey : put.Key = get.key) (i : Fin N) : Serves put get (s.push i) := by
  unfold System.push
  split
  · exact h
  · next msg hmsg =>
    have hmem : msg ∈ (s.cluster.nodes i).applying := List.mem_of_mem_head? hmsg
    refine h.update (h.commands_step (.act i .push) fun j command now heq => by cases heq) rfl ?_
      rfl (requests_subset rfl)
    refine (h.servers i).step hput hkey (fun r hr => by cases hr) (fun msg' heq => ?_)
      (fun k raft heq => by cases heq) (fun k raft heq => by cases heq)
    cases heq
    exact h.commands.applying i msg hmem

theorem Serves.raft (h : Serves put get s) (hput : put.Operation = opPut)
    (hkey : put.Key = get.key) (a : Action N) : Serves put get (s.raft a) := by
  have hcluster : (∀ i command now, a ≠ .act i (.start command now)) →
      Serves put get (s.stepCluster a) := by
    intro hstart
    have hcommands := h.commands_step a hstart
    cases hend : s.cluster.ending a with
    | none =>
      refine ⟨hcommands, ?_, h.issued, ?_⟩
      · simp only [System.stepCluster, hend]
        exact h.servers
      · simp only [System.stepCluster, hend]
        exact h.called
    | some i =>
      refine h.update (i := i) hcommands ?_ (answered_create P put get) rfl (List.nil_subset _)
      simp only [System.stepCluster, hend]
  unfold System.raft
  split
  · exact h
  · exact h.push hput hkey _
  · next hstart _ => exact hcluster hstart

theorem Serves.call (h : Serves put get s) (hput : put.Operation = opPut)
    (hkey : put.Key = get.key) {i : Fin N} {request : Request}
    (hallowed : AllowedBeside put get request)
    (hacked : request = .get get → put ∈ s.acknowledged) : Serves put get (s.call i request) := by
  have hans : Answered put get ((s.servers i).step (.call request)) := by
    refine (h.servers i).step hput hkey (fun r hr => ?_) (fun msg hmsg => by cases hmsg)
      (fun k raft heq => by cases heq) (fun k raft heq => by cases heq)
    cases hr
    exact hallowed
  have hissued : ∀ x ∈ (s.call i request).issued, x ∈ s.issued ∨
      ∃ args, request = .get args ∧ x = (args, s.acknowledged) := by
    intro x hx
    cases request with
    | write request => exact .inl hx
    | get args =>
      simp only [System.call] at hx
      split_ifs at hx
      · exact .inl hx
      · rcases List.mem_cons.mp hx with rfl | hx
        · exact .inr ⟨args, rfl, rfl⟩
        · exact .inl hx
  have hkept : ∀ args ∈ s.issued.map Prod.fst, args ∈ (s.call i request).issued.map Prod.fst := by
    intro args hargs
    cases request with
    | write request => exact hargs
    | get args' =>
      simp only [System.call]
      split_ifs
      · exact hargs
      · exact List.mem_cons_of_mem _ hargs
  have hnew : request = .get get → get ∈ (s.call i request).issued.map Prod.fst := by
    rintro rfl
    simp only [System.call]
    split_ifs with hin
    · exact hin
    · exact List.mem_cons_self
  refine ⟨h.commands, fun j => ?_, fun x hx hget => ?_, fun j hj => ?_⟩
  · show Answered put get (Function.update s.servers i _ j)
    by_cases hji : j = i
    · subst hji
      rw [Function.update_self]
      exact hans
    · rw [Function.update_of_ne hji]
      exact h.servers j
  · rcases hissued x hx with hx | ⟨args, hreq, rfl⟩
    · exact h.issued x hx hget
    · subst hget
      exact hacked hreq
  · change .get get ∈ (Function.update s.servers i _ j).requests at hj
    by_cases hji : j = i
    · subst hji
      rw [Function.update_self] at hj
      rcases (s.servers j).step_requests (.call request) with ⟨hend, _⟩ | heq
      · cases hend
      · rw [heq] at hj
        rcases List.mem_append.mp hj with hj | hj
        · exact hkept get (h.called j hj)
        · exact hnew (List.mem_singleton.mp hj).symm
    · rw [Function.update_of_ne hji] at hj
      exact hkept get (h.called j hj)

theorem Serves.step (h : Serves put get s) (hput : put.Operation = opPut)
    (hkey : put.Key = get.key) {input : SystemInput N} (hok : FindsAcknowledged s input)
    (hallowed : ∀ r ∈ input.request, AllowedBeside put get r)
    (hacked : .get get ∈ input.request → put ∈ s.acknowledged) : Serves put get (s.step input) := by
  have hserver : ∀ (i : Fin N) (x : ServerInput), (∀ r, x ≠ .call r) → (∀ k raft, x ≠ .handler k raft) →
      (∀ msg, x ≠ .push msg) → Serves put get (s.stepServer i x) := by
    intro i x hcall hhandler hpush
    refine h.stepServer ?_ ((h.servers i).step hput hkey (fun r hr => absurd hr (hcall r))
      (fun msg hmsg => absurd hmsg (hpush msg)) (fun k raft heq => absurd heq (hhandler k raft))
      fun k raft heq => absurd heq (hhandler k raft))
    cases x with
    | call r => exact absurd rfl (hcall r)
    | _ => rfl
  cases input with
  | raft a => exact h.raft hput hkey a
  | call i request => exact h.call hput hkey (hallowed request rfl) fun heq => hacked (heq ▸ rfl)
  | handler i k now =>
    have hnext := h.stepHandler hput hkey hok
    exact ⟨hnext.commands, hnext.servers, hnext.issued, hnext.called⟩
  | timeOut i k =>
    exact hserver i _ (fun _ heq => by cases heq) (fun _ _ heq => by cases heq)
      fun _ heq => by cases heq
  | apply i uninit =>
    exact hserver i _ (fun _ heq => by cases heq) (fun _ _ heq => by cases heq)
      fun _ heq => by cases heq
  | search i =>
    exact hserver i _ (fun _ heq => by cases heq) (fun _ _ heq => by cases heq)
      fun _ heq => by cases heq

end System

/-! ## Every run -/

/-- In every run in which reads find what is acknowledged: if one put only writes a key, and a
    read of the key with a number of its own is called once the put is acknowledged, then
    whatever node answers the read, with OK or with ErrNoKey, answers OK and the value. -/
theorem reads_see_put (P : Libs) (h : List (System N P × SystemInput N)) (s : System N P)
    (hr : Run System.step FindsAcknowledged (System.init N P) h s) (put : WriteRequest)
    (get : GetArgs) (hclaim : ReadAfterPut put get h) (i : Fin N) (reply : Reply)
    (hreply : .get get (.replied reply) ∈ (s.servers i).handlers)
    (herr : reply.err = .OK ∨ reply.err = .ErrNoKey) : reply = ⟨.OK, put.op.Value⟩ := by
  have hrun := hr.of_forall (fun s input =>
      (∀ r ∈ input.request, (r.op.Writes get.key → r.op = put.op) ∧
        (r.op.SameRequest get.op → r = .get get)) ∧
      (.get get ∈ input.request → put.op ∈ s.acknowledged))
    fun x hx => ⟨fun r hr => ⟨hclaim.only x hx r hr, hclaim.fresh x hx r hr⟩,
      hclaim.acknowledged x hx⟩
  have hs : Serves put.op get s := by
    refine hrun.invariant (serves_init N P put.op get) fun s input hs hok => ?_
    obtain ⟨hfinds, hcalls, hacked⟩ := hok
    refine hs.step hclaim.operation hclaim.key hfinds (fun r hr => ?_) hacked
    obtain ⟨honly, hfresh⟩ := hcalls r hr
    cases r with
    | get args => exact fun hsame => Request.get.inj (hfresh hsame)
    | write request =>
      cases input with
      | call i r =>
        cases hr
        exact ⟨hfinds, fun hsame => (by cases hfresh hsame), honly⟩
      | _ => cases hr
  refine (hs.servers i).finds _ hreply rfl ?_
  rcases herr with herr | herr
  · rw [herr]
    exact fun heq => by cases heq
  · rw [herr]
    exact fun heq => by cases heq

/-! ## Runs on given inputs -/

section Decidable

variable (s : System N P)

instance (input : SystemInput N) : Decidable (FindsAcknowledged s input) :=
  match input with
  | .raft _ => .isTrue trivial
  | .call _ (.write request) => inferInstanceAs (Decidable request.op.Encodable)
  | .call _ (.get _) => .isTrue trivial
  | .timeOut _ _ => .isTrue trivial
  | .apply _ _ => .isTrue trivial
  | .search _ => .isTrue trivial
  | .handler i k _ =>
    show Decidable (match (s.servers i).handlers[k]? with
      | some (.get args .readValue) => ∀ x ∈ s.issued, x.1 = args → ∀ op ∈ x.2,
          op.Writes args.key → op ∈ (s.servers i).executed
      | some (.get args .readCache) =>
        ((s.servers i).kv.lastRequests args.clientid).map (·.lastRequestId) = some args.requestid
      | _ => True) from
    match (s.servers i).handlers[k]? with
    | some (.get _ .readValue) => inferInstanceAs (Decidable (∀ x ∈ s.issued, _))
    | some (.get args .readCache) => inferInstanceAs (Decidable
        (((s.servers i).kv.lastRequests args.clientid).map _ = some args.requestid))
    | some (.get _ .getState) => .isTrue trivial
    | some (.get _ (.checkDuplicate _)) => .isTrue trivial
    | some (.get _ .getCommitIndex) => .isTrue trivial
    | some (.get _ (.record _)) => .isTrue trivial
    | some (.get _ (.replied _)) => .isTrue trivial
    | some (.write _ _) => .isTrue trivial
    | none => .isTrue trivial

instance (put : WriteRequest) (get : GetArgs) (h : List (System N P × SystemInput N)) :
    Decidable (ReadAfterPut put get h) :=
  decidable_of_iff (put.op.Key = get.key ∧ put.op.Operation = opPut ∧
    (∀ x ∈ h, ∀ r ∈ x.2.request, r.op.Writes get.key → r.op = put.op) ∧
    (∀ x ∈ h, ∀ r ∈ x.2.request, r.op.SameRequest get.op → r = .get get) ∧
    ∀ x ∈ h, .get get ∈ x.2.request → put.op ∈ x.1.acknowledged)
    ⟨fun ⟨h1, h2, h3, h4, h5⟩ => ⟨h1, h2, h3, h4, h5⟩,
      fun ⟨h1, h2, h3, h4, h5⟩ => ⟨h1, h2, h3, h4, h5⟩⟩

end Decidable

/-- The batch of node 0 and the reply of node 1 arrive, and node 0 hands over what it commits. -/
def commitActions : List (Action 3) :=
  Action.batchRound 0 ++ [.deliver 0, .deliver 1, .act 0 .apply, .act 0 .push]

/-- Node 0 leads, a put is stored on a majority, and node 0 executes and acknowledges it. -/
def putRun : List (SystemInput 3) :=
  electionRun.map .raft ++ [.call 0 (.write putRequest), .handler 0 0 0, .handler 0 0 0] ++
    commitActions.map .raft ++ List.replicate 7 (.apply 0 0) ++ [.handler 0 0 0]

/-- The next read of the client, at the same node. -/
def leaderReadRun : List (SystemInput 3) :=
  putRun ++ [.call 0 (.get getRequest)] ++ List.replicate 4 (.handler 0 1 0)

/-- The next read of the client, at node 1, which has been told the commit index. -/
def followerReadRun : List (SystemInput 3) :=
  putRun ++ [.raft (Action.beat 0), .raft (.deliver 1), .call 1 (.get getRequest)] ++
    List.replicate 5 (.handler 1 0 0)

theorem reads_see_put_leaderReadRun : ∃ s : System 3 listLibs, ∃ reply,
    .get getRequest (.replied reply) ∈ (s.servers 0).handlers ∧ reply = ⟨.OK, [1]⟩ := by
  have hr : Run System.step FindsAcknowledged (System.init 3 listLibs) _ _ :=
    run_history leaderReadRun (by decide +kernel)
  have hreply : .get getRequest (.replied ⟨.OK, [1]⟩) ∈
      ((leaderReadRun.foldl System.step (System.init 3 listLibs)).servers 0).handlers := by
    decide +kernel
  exact ⟨_, _, hreply, reads_see_put listLibs _ _ hr putRequest getRequest (by decide +kernel) 0 _
    hreply (.inl rfl)⟩

/-- A follower whose commit index is positive, but which has applied nothing, answers that the
    key does not exist. -/
theorem reads_see_put_fails : ∃ (h : List (System 3 listLibs × SystemInput 3))
    (s : System 3 listLibs), Run System.step anyStep (System.init 3 listLibs) h s ∧
      ReadAfterPut putRequest getRequest h ∧
        .get getRequest (.replied ⟨.ErrNoKey, []⟩) ∈ (s.servers 1).handlers :=
  ⟨_, _, run_history followerReadRun fun _ _ => trivial, by decide +kernel, by decide +kernel⟩

end MyKvRaft
