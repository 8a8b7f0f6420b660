import MyKvRaft.Clerk.Clerk

/-!
# The numbers of requests

A request is told from another by its `ClientId` and `RequestId`. A clerk counts its
calls, but it draws its `ClientId` from `std::rand`, seeded with the time in seconds, so
two clerks may have the same. As long as of such clerks only one makes calls, requests
have numbers of their own.

* `Calls`: which numbers the requests have.
* `Calls.step`: kept by every step.
-/

namespace MyKvRaft

variable {P : Libs}

namespace Service

/-- The `i`-th clerk is the only one with its `ClientId` that has made calls, and the request it
    is about to make can be encoded. -/
def OwnNumber (s : Service P) (i : ℕ) (request : Clerk → Request) : Prop :=
  ∀ c : Clerk, s.clerks[i]? = some c → c.call = none →
    (∀ (j : ℕ) (c' : Clerk), s.clerks[j]? = some c' → j ≠ i → c'.clientid = c.clientid → c'.RequestId = 0) ∧
      (request { c with RequestId := c.RequestId + 1 }).op.Encodable

end Service

/-- Clerks call under a `ClientId` of their own. -/
def OwnNumbers (s : Service P) : ServiceInput → Prop
  | .put i key value => s.OwnNumber i fun c => c.putRequest key value
  | .get i key => s.OwnNumber i fun c => c.getRequest key
  | _ => True

namespace Service

variable {s : Service P}

/-! ## The calls -/

/-- The operation is that of a put some clerk has called. -/
def Put (s : Service P) (op : Op) : Prop := ∃ request, .write request ∈ s.calls ∧ request.op = op

structure Calls (s : Service P) : Prop where
  users : ∀ (i j : ℕ) (c c' : Clerk), s.clerks[i]? = some c → s.clerks[j]? = some c' → i ≠ j →
    0 < c.RequestId → 0 < c'.RequestId → c.clientid ≠ c'.clientid
  nonneg : ∀ c ∈ s.clerks, 0 ≤ c.RequestId
  numbered : ∀ r ∈ s.calls, ∃ c ∈ s.clerks, c.clientid = r.op.ClientId ∧ 0 < r.op.RequestId ∧
    r.op.RequestId ≤ c.RequestId
  distinct : ∀ r ∈ s.calls, ∀ r' ∈ s.calls, r.op.SameRequest r'.op → r = r'
  encodable : ∀ r ∈ s.calls, r.op.Encodable
  puts : ∀ request, .write request ∈ s.calls → request.op.Operation = opPut
  current : ∀ c ∈ s.clerks, ∀ call, c.call = some call → call.request ∈ s.calls ∧
    call.request.op.ClientId = c.clientid ∧ call.request.op.RequestId = c.RequestId

theorem calls_init (P : Libs) : (init P).Calls where
  users i j c c' hc := by simp [init] at hc
  nonneg c hc := by cases hc
  numbered r hr := by cases hr
  distinct r hr := by cases hr
  encodable r hr := by cases hr
  puts request hr := by cases hr
  current c hc := by cases hc

/-- The clerks of `s'` are those of `s`, with their numbers; they may have ended calls or go on
    with them. -/
structure SameClerks (s s' : Service P) : Prop where
  calls : s'.calls = s.calls
  length : s'.clerks.length = s.clerks.length
  clerks : ∀ (i : ℕ) (c' : Clerk), s'.clerks[i]? = some c' → ∃ c, s.clerks[i]? = some c ∧
    c'.ClientId = c.ClientId ∧ c'.RequestId = c.RequestId ∧
    ∀ call', c'.call = some call' → ∃ call, c.call = some call ∧ call'.request = call.request

theorem SameClerks.of_eq {s' : Service P} (hcalls : s'.calls = s.calls)
    (hclerks : s'.clerks = s.clerks) : SameClerks s s' :=
  ⟨hcalls, by rw [hclerks], fun i c hc => ⟨c, hclerks ▸ hc, rfl, rfl, fun call h => ⟨call, h, rfl⟩⟩⟩

/-- One clerk ends its call, or goes on with it. -/
theorem SameClerks.set {s' : Service P} {i : ℕ} {c c' : Clerk} (hc : s.clerks[i]? = some c)
    (hcalls : s'.calls = s.calls) (hclerks : s'.clerks = s.clerks.set i c')
    (hid : c'.ClientId = c.ClientId) (hnum : c'.RequestId = c.RequestId)
    (hcall : ∀ call', c'.call = some call' →
      ∃ call, c.call = some call ∧ call'.request = call.request) : SameClerks s s' := by
  refine ⟨hcalls, by rw [hclerks, List.length_set], fun j d hd => ?_⟩
  rw [hclerks, List.getElem?_set] at hd
  split_ifs at hd with hij hlt
  · cases hd
    exact ⟨c, hij ▸ hc, hid, hnum, hcall⟩
  · exact ⟨d, hd, rfl, rfl, fun call h => ⟨call, h, rfl⟩⟩

theorem Calls.of_same {s' : Service P} (h : s.Calls) (hs : SameClerks s s') : s'.Calls := by
  have hclient : ∀ {c c' : Clerk}, c'.ClientId = c.ClientId → c'.clientid = c.clientid :=
    fun heq => congrArg toString heq
  refine ⟨?_, ?_, ?_, ?_, ?_, ?_, ?_⟩
  · intro i j c' d' hc' hd' hij hpos hpos'
    obtain ⟨c, hc, hid, hnum, _⟩ := hs.clerks i c' hc'
    obtain ⟨d, hd, hid', hnum', _⟩ := hs.clerks j d' hd'
    rw [hclient hid, hclient hid']
    exact h.users i j c d hc hd hij (hnum ▸ hpos) (hnum' ▸ hpos')
  · intro c' hc'
    obtain ⟨i, hi⟩ := List.mem_iff_getElem?.mp hc'
    obtain ⟨c, hc, _, hnum, _⟩ := hs.clerks i c' hi
    rw [hnum]
    exact h.nonneg c (List.mem_of_getElem? hc)
  · intro r hr
    rw [hs.calls] at hr
    obtain ⟨c, hc, hcl, hpos, hle⟩ := h.numbered r hr
    obtain ⟨i, hi⟩ := List.mem_iff_getElem?.mp hc
    obtain ⟨hlt, _⟩ := List.getElem?_eq_some_iff.mp hi
    have hlt' : i < s'.clerks.length := hs.length ▸ hlt
    obtain ⟨d, hd, hid, hnum, _⟩ := hs.clerks i _ (List.getElem?_eq_getElem hlt')
    rw [hi] at hd
    cases hd
    refine ⟨s'.clerks[i], List.getElem_mem hlt', (hclient hid).trans hcl, hpos, ?_⟩
    rw [hnum]
    exact hle
  · rw [hs.calls]
    exact h.distinct
  · rw [hs.calls]
    exact h.encodable
  · rw [hs.calls]
    exact h.puts
  · intro c' hc' call' hcall'
    obtain ⟨i, hi⟩ := List.mem_iff_getElem?.mp hc'
    obtain ⟨c, hc, hid, hnum, hcall⟩ := hs.clerks i c' hi
    obtain ⟨call, hcall, hreq⟩ := hcall call' hcall'
    obtain ⟨hmem, hcl, hr⟩ := h.current c (List.mem_of_getElem? hc) call hcall
    rw [hs.calls, hreq, hclient hid, hnum]
    exact ⟨hmem, hcl, hr⟩

/-- What a call makes of a clerk's numbers. -/
structure IsCall (request : Clerk → Request) : Prop where
  clientId : ∀ c, (request c).op.ClientId = c.clientid
  requestId : ∀ c, (request c).op.RequestId = c.RequestId
  put : ∀ c w, request c = .write w → w.op.Operation = opPut

theorem isCall_put (key value : Bytes) : IsCall fun c => c.putRequest key value where
  clientId c := rfl
  requestId c := rfl
  put c w hw := by
    cases hw
    rfl

theorem isCall_get (key : Bytes) : IsCall fun c => c.getRequest key where
  clientId c := rfl
  requestId c := rfl
  put c w hw := by cases hw

/-- A clerk that makes the call `r`. -/
def withCall (s : Service P) (i : ℕ) (c : Clerk) (r : Request) : Service P :=
  { s with
    clerks := s.clerks.set i ⟨c.ClientId, c.RequestId + 1, some ⟨r, 0, none⟩⟩
    calls := r :: s.calls }

theorem begin_cases (s : Service P) (i : ℕ) (request : Clerk → Request) :
    s.begin i request = s ∨ ∃ c : Clerk, s.clerks[i]? = some c ∧ c.call = none ∧
      s.begin i request = s.withCall i c (request { c with RequestId := c.RequestId + 1 }) := by
  unfold begin
  cases hc : s.clerks[i]? with
  | none => exact .inl rfl
  | some c =>
    dsimp only
    split_ifs with hcall
    · exact .inl rfl
    · have hnone : c.call = none := by simpa using hcall
      refine .inr ⟨c, rfl, hnone, ?_⟩
      simp [setClerk, Clerk.begin, withCall, hnone]

/-- The requests made before under the `ClientId` of a clerk with its own number. -/
theorem Calls.lt_of_own (h : s.Calls) {i : ℕ} {c : Clerk} (hc : s.clerks[i]? = some c)
    (hown : ∀ (j : ℕ) (c' : Clerk), s.clerks[j]? = some c' → j ≠ i → c'.clientid = c.clientid →
      c'.RequestId = 0) {r : Request} (hr : r ∈ s.calls) (hclient : r.op.ClientId = c.clientid) :
    r.op.RequestId ≤ c.RequestId := by
  obtain ⟨d, hd, hd', hpos, hle⟩ := h.numbered r hr
  obtain ⟨j, hj⟩ := List.mem_iff_getElem?.mp hd
  by_cases hji : j = i
  · subst hji
    rw [hj] at hc
    cases hc
    exact hle
  · have hzero := hown j d hj hji (hd'.trans hclient)
    omega

/-- The clerks once clerk `i` has made a call. -/
theorem getElem?_withCall {i j : ℕ} {c d : Clerk} {r : Request}
    (hd : (s.withCall i c r).clerks[j]? = some d) :
    (j = i ∧ d = ⟨c.ClientId, c.RequestId + 1, some ⟨r, 0, none⟩⟩) ∨
      (j ≠ i ∧ s.clerks[j]? = some d) := by
  simp only [Service.withCall, List.getElem?_set] at hd
  split_ifs at hd with hij
  · cases hd
    exact .inl ⟨hij.symm, rfl⟩
  · exact .inr ⟨Ne.symm hij, hd⟩

/-- No clerk is lost with a call, and no number goes down. -/
theorem exists_withCall {i : ℕ} {c d : Clerk} (hc : s.clerks[i]? = some c) (r : Request)
    (hd : d ∈ s.clerks) : ∃ d' ∈ (s.withCall i c r).clerks, d'.ClientId = d.ClientId ∧
      d.RequestId ≤ d'.RequestId := by
  obtain ⟨j, hj⟩ := List.mem_iff_getElem?.mp hd
  by_cases hji : j = i
  · subst hji
    obtain ⟨hlt, _⟩ := List.getElem?_eq_some_iff.mp hj
    rw [hj] at hc
    cases hc
    exact ⟨_, List.mem_iff_getElem?.mpr ⟨j, List.getElem?_set_self hlt⟩, rfl, by simp⟩
  · refine ⟨d, List.mem_iff_getElem?.mpr ⟨j, ?_⟩, rfl, le_rfl⟩
    rw [← hj]
    exact List.getElem?_set_ne (Ne.symm hji)

/-- The request of a new call is no earlier one. -/
theorem Calls.new_request (h : s.Calls) {i : ℕ} {c : Clerk} (hc : s.clerks[i]? = some c)
    (honly : ∀ (j : ℕ) (c' : Clerk), s.clerks[j]? = some c' → j ≠ i → c'.clientid = c.clientid →
      c'.RequestId = 0) {r r' : Request} (hclient : r.op.ClientId = c.clientid)
    (hnum : r.op.RequestId = c.RequestId + 1) (hr' : r' ∈ s.calls) :
    ¬ r'.op.SameRequest r.op := by
  rintro ⟨hsame, heq⟩
  have hle := h.lt_of_own hc honly hr' (hsame.trans hclient)
  omega

theorem Calls.withCall (h : s.Calls) {i : ℕ} {request : Clerk → Request} (hcall : IsCall request)
    {c : Clerk} (hc : s.clerks[i]? = some c) (hnone : c.call = none) (hown : s.OwnNumber i request) :
    (s.withCall i c (request { c with RequestId := c.RequestId + 1 })).Calls := by
  obtain ⟨honly, henc⟩ := hown c hc hnone
  have hcpos := h.nonneg c (List.mem_of_getElem? hc)
  obtain ⟨hlt, _⟩ := List.getElem?_eq_some_iff.mp hc
  let r := request { c with RequestId := c.RequestId + 1 }
  have hrid : r.op.RequestId = c.RequestId + 1 := hcall.requestId _
  have hrcl : r.op.ClientId = c.clientid := hcall.clientId _
  refine ⟨?_, ?_, ?_, ?_, ?_, ?_, ?_⟩
  · intro j k d e hd he hjk hpos hpos' hsame
    rcases getElem?_withCall hd with ⟨rfl, rfl⟩ | ⟨hji, hold⟩
    · rcases getElem?_withCall he with ⟨rfl, rfl⟩ | ⟨hki, hold⟩
      · exact absurd rfl hjk
      · have hzero := honly k e hold hki hsame.symm
        omega
    · rcases getElem?_withCall he with ⟨rfl, rfl⟩ | ⟨_, hold'⟩
      · have hzero := honly j d hold hji hsame
        omega
      · exact h.users j k d e hold hold' hjk hpos hpos' hsame
  · intro d hd
    obtain ⟨j, hj⟩ := List.mem_iff_getElem?.mp hd
    rcases getElem?_withCall hj with ⟨_, rfl⟩ | ⟨_, hj⟩
    · show 0 ≤ c.RequestId + 1
      omega
    · exact h.nonneg d (List.mem_of_getElem? hj)
  · intro r' hr'
    rcases List.mem_cons.mp hr' with rfl | hr'
    · refine ⟨_, List.mem_iff_getElem?.mpr ⟨i, List.getElem?_set_self hlt⟩, hrcl.symm, ?_, hrid.le⟩
      show 0 < r.op.RequestId
      omega
    · obtain ⟨d, hd, hcl, hpos, hle⟩ := h.numbered r' hr'
      obtain ⟨d', hd', hid, hle'⟩ := exists_withCall hc r hd
      exact ⟨d', hd', (congrArg toString hid).trans hcl, hpos, hle.trans hle'⟩
  · intro r₁ hr₁ r₂ hr₂ hsame
    rcases List.mem_cons.mp hr₁ with rfl | hr₁
    · rcases List.mem_cons.mp hr₂ with rfl | hr₂
      · rfl
      · exact absurd ⟨hsame.1.symm, hsame.2.symm⟩ (h.new_request hc honly hrcl hrid hr₂)
    · rcases List.mem_cons.mp hr₂ with rfl | hr₂
      · exact absurd hsame (h.new_request hc honly hrcl hrid hr₁)
      · exact h.distinct r₁ hr₁ r₂ hr₂ hsame
  · exact List.forall_mem_cons.mpr ⟨henc, h.encodable⟩
  · intro w hw
    rcases List.mem_cons.mp hw with hw | hw
    · exact hcall.put _ w hw.symm
    · exact h.puts w hw
  · intro d hd call hd'
    obtain ⟨j, hj⟩ := List.mem_iff_getElem?.mp hd
    rcases getElem?_withCall hj with ⟨_, rfl⟩ | ⟨_, hj⟩
    · cases hd'
      exact ⟨List.mem_cons_self, hrcl, hrid⟩
    · obtain ⟨hin, hwho⟩ := h.current d (List.mem_of_getElem? hj) call hd'
      exact ⟨List.mem_cons_of_mem _ hin, hwho⟩

theorem Calls.newClerk (h : s.Calls) (rand : ℤ) :
    ({ s with clerks := s.clerks ++ [Clerk.init rand] } : Service P).Calls := by
  have hget : ∀ (j : ℕ) (d : Clerk), (s.clerks ++ [Clerk.init rand])[j]? = some d →
      s.clerks[j]? = some d ∨ d = Clerk.init rand := by
    intro j d hd
    rw [List.getElem?_append] at hd
    split_ifs at hd
    · exact .inl hd
    · exact .inr (List.mem_singleton.mp (List.mem_of_getElem? hd))
  refine ⟨?_, ?_, ?_, h.distinct, h.encodable, h.puts, ?_⟩
  · intro i j c d hc hd hij hpos hpos'
    rcases hget i c hc with hc | rfl
    · rcases hget j d hd with hd | rfl
      · exact h.users i j c d hc hd hij hpos hpos'
      · exact absurd hpos' (lt_irrefl 0)
    · exact absurd hpos (lt_irrefl 0)
  · intro c hc
    rcases List.mem_append.mp hc with hc | hc
    · exact h.nonneg c hc
    · rw [List.mem_singleton.mp hc]
      exact le_rfl
  · intro r hr
    obtain ⟨c, hc, hwho⟩ := h.numbered r hr
    exact ⟨c, List.mem_append_left _ hc, hwho⟩
  · intro c hc call hcall
    rcases List.mem_append.mp hc with hc | hc
    · exact h.current c hc call hcall
    · rw [List.mem_singleton.mp hc] at hcall
      cases hcall

/-! ## Steps that leave the numbers alone -/

theorem sameClerks_send (s : Service P) (i : ℕ) : SameClerks s (s.send i) := by
  unfold send
  split
  · next clientId requestId request retryCount hc =>
    exact .set hc rfl rfl rfl rfl fun call hcall => ⟨_, rfl, by cases hcall; rfl⟩
  · exact .of_eq rfl rfl

theorem sameClerks_arrive (s : Service P) (j : ℕ) : SameClerks s (s.arrive j) := by
  unfold arrive
  split
  · exact .of_eq rfl rfl
  · exact .of_eq rfl rfl

theorem sameClerks_fail (s : Service P) (i : ℕ) : SameClerks s (s.fail i) := by
  unfold fail
  split
  · next clientId requestId request retryCount rpc hc =>
    refine .set hc rfl rfl rfl rfl fun call hcall => ⟨_, rfl, ?_⟩
    simp only [Clerk.failed, Option.bind_some] at hcall
    split_ifs at hcall
    cases hcall
    rfl
  · exact .of_eq rfl rfl

theorem sameClerks_receive (s : Service P) (i : ℕ) : SameClerks s (s.receive i) := by
  unfold receive
  split
  · next clientId requestId request retryCount rpc hc =>
    split
    · exact .of_eq rfl rfl
    · next err _ =>
      cases err with
      | ErrWrongLeader =>
        refine .set hc rfl rfl rfl rfl fun call hcall => ⟨_, rfl, ?_⟩
        cases hcall
        rfl
      | _ => exact .set hc rfl rfl rfl rfl fun call hcall => by cases hcall
  · exact .of_eq rfl rfl

theorem sameClerks_handler (s : Service P) (k : ℕ) (raft : RaftAnswer) :
    SameClerks s (s.stepHandler k raft) := by
  unfold stepHandler
  split
  · exact .of_eq rfl rfl
  · exact .of_eq rfl rfl

theorem sameClerks_deliver (s : Service P) : SameClerks s s.deliver := by
  unfold deliver
  split
  · exact .of_eq rfl rfl
  · exact .of_eq rfl rfl

/-- A step initialises a clerk, makes a call, or leaves the numbers of the clerks alone. -/
theorem step_clerks (rand : ℤ → ℤ) (s : Service P) (input : ServiceInput) (hok : OwnNumbers s input) :
    SameClerks s (s.step rand input) ∨
      (∃ time, s.step rand input = { s with clerks := s.clerks ++ [Clerk.init (rand time)] }) ∨
      ∃ i request c, IsCall request ∧ s.OwnNumber i request ∧ s.clerks[i]? = some c ∧
        c.call = none ∧
        s.step rand input = s.withCall i c (request { c with RequestId := c.RequestId + 1 }) := by
  have hbegin : ∀ i request, IsCall request → s.OwnNumber i request →
      SameClerks s (s.begin i request) ∨ ∃ c, s.clerks[i]? = some c ∧ c.call = none ∧
        s.begin i request = s.withCall i c (request { c with RequestId := c.RequestId + 1 }) := by
    intro i request _ _
    rcases s.begin_cases i request with heq | hnew
    · rw [heq]
      exact .inl (.of_eq rfl rfl)
    · exact .inr hnew
  cases input with
  | init time => exact .inr (.inl ⟨time, rfl⟩)
  | put i key value =>
    rcases hbegin i _ (isCall_put key value) hok with hsame | ⟨c, hc⟩
    · exact .inl hsame
    · exact .inr (.inr ⟨i, _, c, isCall_put key value, hok, hc⟩)
  | get i key =>
    rcases hbegin i _ (isCall_get key) hok with hsame | ⟨c, hc⟩
    · exact .inl hsame
    · exact .inr (.inr ⟨i, _, c, isCall_get key, hok, hc⟩)
  | send i => exact .inl (s.sameClerks_send i)
  | arrive j => exact .inl (s.sameClerks_arrive j)
  | fail i => exact .inl (s.sameClerks_fail i)
  | receive i => exact .inl (s.sameClerks_receive i)
  | handler k raft => exact .inl (s.sameClerks_handler k raft)
  | timeOut k => exact .inl (.of_eq rfl rfl)
  | deliver => exact .inl s.sameClerks_deliver
  | apply uninit => exact .inl (.of_eq rfl rfl)

theorem Calls.step (h : s.Calls) {rand : ℤ → ℤ} {input : ServiceInput} (hok : OwnNumbers s input) :
    (s.step rand input).Calls := by
  rcases s.step_clerks rand input hok with hsame | ⟨time, heq⟩ |
    ⟨i, request, c, hcall, hown, hc, hnone, heq⟩
  · exact h.of_same hsame
  · rw [heq]
    exact h.newClerk _
  · rw [heq]
    exact h.withCall hcall hc hnone hown

end Service

end MyKvRaft
