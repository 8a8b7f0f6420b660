import MyKvRaft.Leader.Buffers

/-!
# Entries on their way to a peer

An entry that a leader has started is scheduled for every peer that has not
confirmed it: it is in `m_pendingEntries`, in a batch that `batchSenderLoop` has
taken, or in a request that is not answered yet. Nothing else sends it, as
heartbeats carry no entries. So it is lost when the request fails, is rejected, or is
confirmed only in part, which a batch with entries of an earlier term can be.
`Confirmed` says that a step does nothing of this.

* `nothing_dropped`: in every run of such steps, no entry is lost.
* `nothing_dropped_fails`: after one failed RPC, one is.
-/

namespace MyKvRaft

open Consensus Transition Raft

variable {N : ℕ}

namespace Node

/-! ## The condition -/

/-- The reply makes the leader step down. -/
def Deposes (n : Node N) (reply : AppendEntriesReply) : Prop :=
  reply.appstate ≠ Disconnected ∧ n.rf.currentTerm < reply.term

/-- The reply confirms the entry: it is a success of the current term, and the request reaches
    up to the entry. -/
def Confirms (n : Node N) (args : AppendEntriesArgs) (reply : AppendEntriesReply) (e : LogEntry) :
    Prop :=
  reply.appstate ≠ Disconnected ∧ reply.term = n.rf.currentTerm ∧ reply.success = true ∧
    e.logindex ≤ args.prevlogindex + args.entries.length

/-- What becomes of the call of a leader leaves no entry of its term behind. -/
def Settles (n : Node N) (call : AppendCall N) (reply : Option AppendEntriesReply) : Prop :=
  n.rf.status = .Leader → (∀ y ∈ reply, ¬ n.Deposes y) → ∀ e ∈ call.rpc.args.entries,
    e.logterm = n.rf.currentTerm →
      e.logindex ≤ n.rf.matchIndex call.rpc.dst ∨ ∃ y ∈ reply, n.Confirms call.rpc.args y e

end Node

/-- If the step ends an RPC, the RPC has delivered its entries. -/
def Confirmed (s : Cluster N) (a : Action N) : Prop :=
  ∀ x ∈ s.driven a, ∀ o ∈ (s.nodes x.1).outcome x.2, (s.nodes x.1).Settles o.1 o.2

section Decidable

variable (n : Node N) (args : AppendEntriesArgs) (reply : AppendEntriesReply) (e : LogEntry)
  (call : AppendCall N) (o : Option AppendEntriesReply) (s : Cluster N) (a : Action N)

instance : Decidable (n.Deposes reply) := inferInstanceAs (Decidable (_ ∧ _))
instance : Decidable (n.Confirms args reply e) := inferInstanceAs (Decidable (_ ∧ _ ∧ _ ∧ _))
instance : Decidable (n.Settles call o) := inferInstanceAs (Decidable (_ → _ → _))
instance : Decidable (Confirmed s a) := inferInstanceAs (Decidable (∀ x ∈ _, _))

end Decidable

/-! ## The obligation -/

namespace Node

/-- The entry is on its way to the peer. -/
def Scheduled (n : Node N) (p : Fin N) (e : LogEntry) : Prop :=
  e ∈ (n.rf.pendingEntries p).entries ∨ (∃ x ∈ n.rf.queued, x.1 = p ∧ e ∈ x.2) ∨
    ∃ c ∈ n.calls, c.rpc.dst = p ∧ e ∈ c.rpc.args.entries

/-- A leader has scheduled the entries of its term for every peer that has not confirmed them. -/
def Owes (n : Node N) : Prop :=
  n.rf.status = .Leader → ∀ e ∈ n.rf.logs, e.logterm = n.rf.currentTerm → ∀ p, p ≠ n.rf.me →
    n.rf.matchIndex p < e.logindex → n.Scheduled p e

variable {n n' : Node N}

theorem Scheduled.mono {p : Fin N} {e : LogEntry} (h : n.Scheduled p e)
    (hpending : ∀ e ∈ (n.rf.pendingEntries p).entries, e ∈ (n'.rf.pendingEntries p).entries)
    (hqueued : ∀ x ∈ n.rf.queued, x ∈ n'.rf.queued ∨ x.2 = [])
    (hcalls : ∀ c ∈ n.calls, c ∈ n'.calls) : n'.Scheduled p e := by
  rcases h with he | ⟨x, hx, hp, he⟩ | ⟨c, hc, hp, he⟩
  · exact Or.inl (hpending e he)
  · rcases hqueued x hx with hx | hx
    · exact Or.inr (Or.inl ⟨x, hx, hp, he⟩)
    · rw [hx] at he
      cases he
  · exact Or.inr (Or.inr ⟨c, hcalls c hc, hp, he⟩)

/-- A call that ends takes only its own entries with it. -/
theorem Scheduled.without {p : Fin N} {e : LogEntry} (h : n.Scheduled p e)
    (hpending : n'.rf.pendingEntries = n.rf.pendingEntries)
    (hqueued : n'.rf.queued = n.rf.queued) {call : AppendCall N}
    (hw : Without n.calls call n'.calls) :
    n'.Scheduled p e ∨ call.rpc.dst = p ∧ e ∈ call.rpc.args.entries := by
  rcases h with he | ⟨x, hx, hp, he⟩ | ⟨c, hc, hp, he⟩
  · exact Or.inl (Or.inl (hpending ▸ he))
  · exact Or.inl (Or.inr (Or.inl ⟨x, hqueued ▸ hx, hp, he⟩))
  · rcases hw.2.2 c hc with rfl | hc
    · exact Or.inr ⟨hp, he⟩
    · exact Or.inl (Or.inr (Or.inr ⟨c, hc, hp, he⟩))

/-- A step that starts and confirms nothing keeps the obligation, if it keeps what is scheduled. -/
theorem Owes.keeps (h : n.Owes)
    (hleads : n'.rf.status = .Leader → n.rf.status = .Leader ∧
      n'.rf.currentTerm = n.rf.currentTerm)
    (hlogs : n'.rf.logs = n.rf.logs) (hme : n'.rf.me = n.rf.me)
    (hmatch : n'.rf.matchIndex = n.rf.matchIndex)
    (hkeep : n.rf.status = .Leader → ∀ p e, n.Scheduled p e → n'.Scheduled p e) : n'.Owes := by
  intro hl' e he hterm p hp hlt
  obtain ⟨hl, ht⟩ := hleads hl'
  rw [hlogs] at he
  rw [ht] at hterm
  rw [hme] at hp
  rw [hmatch] at hlt
  exact hkeep hl p e (h hl e he hterm p hp hlt)

/-- A new command is put into the buffer of every peer. -/
theorem Owes.start (h : n.Owes) (hl : n.rf.status = .Leader) (command : Op) (now : ℤ) :
    Owes { n with rf := (n.rf.start command now).1 } := by
  have hrf := start_eq hl command now
  intro _ e he hterm p hp hlt
  have hme : p ≠ n.rf.me := by
    rw [hrf] at hp
    exact hp
  have hpending := start_pendingEntries hl command now hme
  rw [hrf] at he hterm hlt
  rcases List.mem_append.mp he with he | he
  · refine (h hl e he hterm p hme hlt).mono (fun f hf => ?_) (fun x hx => Or.inl ?_) (fun c hc => hc)
    · rw [hpending]
      exact List.mem_append_left _ hf
    · rw [hrf]
      exact hx
  · left
    rw [hpending]
    exact List.mem_append_right _ he

/-- Taking the batches moves the entries on. -/
theorem Owes.collect (h : n.Owes) (hq : n.rf.queued = []) (clock : Fin N → ℤ × ℤ) :
    Owes { n with rf := n.rf.collectBatches clock } := by
  intro hl e he hterm p hp hlt
  rcases h hl e he hterm p hp hlt with he | ⟨x, hx, _⟩ | hc
  · by_cases hflush : p ∈ n.rf.flushPeers clock
    · refine Or.inr (Or.inl ⟨(p, (n.rf.pendingEntries p).entries), ?_, rfl, he⟩)
      exact List.mem_map.mpr ⟨p, hflush, rfl⟩
    · left
      simp only [collectBatches, if_neg hflush]
      exact he
  · rw [hq] at hx
    cases hx
  · exact Or.inr (Or.inr hc)

/-- Sending a batch moves its entries on. -/
theorem Owes.build (h : n.Owes) {peer : Fin N} {entries : List LogEntry}
    {rest : List (Fin N × List LogEntry)}
    (hpc : n.rf.batchSenderThread = some (.build peer entries rest))
    (hrf : n'.rf = { n.rf with batchSenderThread := some (.send rest) }) {id : ℕ} {counter : ℕ}
    (hcalls : n'.calls = n.calls ++
      [⟨⟨id, n.rf.me, peer, n.rf.batchArgs entries⟩, counter⟩]) : n'.Owes := by
  have hq : n.rf.queued = (peer, entries) :: rest := by
    simp [Raft.queued, hpc, BatchSender.queued]
  have hq' : n'.rf.queued = rest := by rw [hrf]; rfl
  intro hl e he hterm p hp hlt
  rw [hrf] at hl he hterm hp hlt
  rcases h hl e he hterm p hp hlt with he | ⟨y, hy, hyp, he⟩ | ⟨c, hc, hcp, he⟩
  · left
    rw [hrf]
    exact he
  · rw [hq] at hy
    rcases List.mem_cons.mp hy with rfl | hy
    · -- the batch that has just been sent
      refine Or.inr (Or.inr ⟨⟨⟨id, n.rf.me, peer, n.rf.batchArgs entries⟩, counter⟩, ?_, hyp, he⟩)
      rw [hcalls]
      exact List.mem_append_right _ (List.mem_singleton_self _)
    · exact Or.inr (Or.inl ⟨y, hq' ▸ hy, hyp, he⟩)
  · refine Or.inr (Or.inr ⟨c, ?_, hcp, he⟩)
    rw [hcalls]
    exact List.mem_append_left _ hc

/-- A call ends, and the peer has confirmed what it carried. -/
theorem Owes.ended (h : n.Owes) {call : AppendCall N} (hw : Without n.calls call n'.calls)
    (hpending : n'.rf.pendingEntries = n.rf.pendingEntries)
    (hqueued : n'.rf.queued = n.rf.queued) (hme : n'.rf.me = n.rf.me)
    (hlogs : n'.rf.logs = n.rf.logs)
    (hleads : n'.rf.status = .Leader → n.rf.status = .Leader ∧
      n'.rf.currentTerm = n.rf.currentTerm)
    (hmatch : ∀ p, n.rf.matchIndex p ≤ n'.rf.matchIndex p)
    (hconfirmed : n'.rf.status = .Leader → ∀ e ∈ call.rpc.args.entries,
      e.logterm = n.rf.currentTerm → e.logindex ≤ n'.rf.matchIndex call.rpc.dst) : n'.Owes := by
  intro hl' e he hterm p hp hlt
  obtain ⟨hl, ht⟩ := hleads hl'
  rw [hlogs] at he
  rw [ht] at hterm
  rw [hme] at hp
  have hold := h hl e he hterm p hp (lt_of_le_of_lt (hmatch p) hlt)
  rcases hold.without hpending hqueued hw with hs | ⟨rfl, he'⟩
  · exact hs
  · have := hconfirmed hl' e he' hterm
    omega

/-- What a call of a leader carried has been confirmed, unless its reply deposes the leader. -/
theorem Settles.confirmed {call : AppendCall N} {reply : Option AppendEntriesReply}
    (h : n.Settles call reply) (hl : n.rf.status = .Leader)
    (hterm : ∀ y ∈ reply, y.appstate = Disconnected ∨ y.term ≤ n.rf.currentTerm) {e : LogEntry}
    (he : e ∈ call.rpc.args.entries) (ht : e.logterm = n.rf.currentTerm) :
    e.logindex ≤ n.rf.matchIndex call.rpc.dst ∨ ∃ y ∈ reply, n.Confirms call.rpc.args y e := by
  refine h hl (fun y hy hdeposes => ?_) e he ht
  rcases hterm y hy with hdisc | hle
  · exact hdeposes.1 hdisc
  · exact absurd hdeposes.2 (not_lt.mpr hle)

/-- An RPC fails, or its reply is of no use: its entries were confirmed before. -/
theorem Owes.close (h : n.Owes) {call : AppendCall N} {reply : Option AppendEntriesReply}
    (hset : n.Settles call reply) (hw : Without n.calls call n'.calls) (hc : n.rf.Carried n'.rf)
    (hr : n'.rf.status = .Leader → ∀ y ∈ reply,
      y.appstate = Disconnected ∨ y.term < n.rf.currentTerm) : n'.Owes := by
  refine h.ended hw hc.pending hc.queued hc.me hc.logs hc.leads
    (fun p => (congrFun hc.matchIndex p).ge) fun hl' e he hterm => ?_
  rw [hc.matchIndex]
  refine (hset.confirmed (hc.leads hl').1 (fun y hy => (hr hl' y hy).imp id le_of_lt) he
    hterm).resolve_right ?_
  rintro ⟨y, hy, hconn, hsame, _⟩
  rcases hr hl' y hy with hdisc | hlt
  · exact hconn hdisc
  · exact hlt.ne hsame

/-- A rejection confirms nothing, so the entries were confirmed before. -/
theorem Owes.mismatch (h : n.Owes) {dst : Fin N} {reply : AppendEntriesReply} {call : AppendCall N}
    (hset : n.Settles call (some reply)) (hw : Without n.calls call n'.calls)
    (hl : n.rf.status = .Leader) (ht : reply.term = n.rf.currentTerm)
    (hs : reply.success = false) (hrf : n'.rf = n.rf.handleLogMismatch dst reply) : n'.Owes := by
  obtain ⟨nextIdx, heq⟩ := n.rf.handleLogMismatch_eq dst reply
  rw [heq] at hrf
  refine h.ended hw (by rw [hrf]) (by rw [hrf]; rfl) (by rw [hrf]) (by rw [hrf])
    (fun _ => ⟨hl, by rw [hrf]⟩) (fun p => by rw [hrf]) fun _ e he hterm => ?_
  rw [hrf]
  refine (hset.confirmed hl ?_ he hterm).resolve_right ?_
  · rintro y ⟨⟩
    exact .inr ht.le
  · rintro ⟨y, ⟨⟩, _, _, hsuccess, _⟩
    rw [hs] at hsuccess
    cases hsuccess

/-- A success moves `m_matchIndex` up to where the request reaches. -/
theorem Owes.sync (h : n.Owes) {r : Rpc N AppendEntriesArgs} {reply : AppendEntriesReply}
    {call : AppendCall N} {c : ℤ} (hset : n.Settles call (some reply)) (hcall : call.rpc = r)
    (hw : Without n.calls call n'.calls) (hl : n.rf.status = .Leader)
    (ht : reply.term = n.rf.currentTerm)
    (hrf : n'.rf = { n.rf.synced r.dst r.args with commitIndex := c }) : n'.Owes := by
  subst hcall
  have hmatch : ∀ p, n'.rf.matchIndex p = if p = call.rpc.dst then
      max (n.rf.matchIndex call.rpc.dst)
        (call.rpc.args.prevlogindex + call.rpc.args.entries.length)
      else n.rf.matchIndex p := by
    intro p
    rw [hrf]
    simp only [synced, Function.update_apply]
  refine h.ended hw (by rw [hrf]; rfl) (by rw [hrf]; rfl) (by rw [hrf]; rfl) (by rw [hrf]; rfl)
    (fun _ => ⟨hl, by rw [hrf]; rfl⟩) (fun p => ?_) fun _ e he hterm => ?_
  · rw [hmatch]
    split_ifs with hp
    · subst hp
      exact le_max_left _ _
    · exact le_rfl
  · rw [hmatch, if_pos rfl]
    have hterms : ∀ y ∈ some reply, y.appstate = Disconnected ∨ y.term ≤ n.rf.currentTerm := by
      rintro y ⟨⟩
      exact .inr ht.le
    rcases hset.confirmed hl hterms he hterm with hle | ⟨y, _, _, _, _, hreach⟩
    · exact hle.trans (le_max_left _ _)
    · exact hreach.trans (le_max_right _ _)

variable {b : Ballot (Fin N) LogEntry} {x : Input N ⊕ Packet N}

/-- Every move that settles the call it ends keeps the obligation. -/
theorem Owes.move (h : n.Owes) (hb : Buffered b n) (hm : Moves x n n')
    (hwin : ∀ r reply, x = .inr (.requestVoteReply r reply) → Elects n r reply →
      b.leader n.rf.currentTerm.toNat = none)
    (hsettle : ∀ o ∈ n.outcome x, n.Settles o.1 o.2) : n'.Owes := by
  cases hm with
  | restart =>
    intro hl
    rw [show n.restart.rf.status = .Follower from init_status _ _] at hl
    cases hl
  | idle hc hcalls =>
    refine h.keeps hc.leads hc.logs hc.me hc.matchIndex fun _ p e hs => ?_
    exact hs.mono (fun f hf => hc.pending ▸ hf) (fun x hx => Or.inl (hc.queued ▸ hx))
      fun c hc => hcalls ▸ hc
  | follow _ hstatus =>
    intro hl
    rw [hstatus] at hl
    cases hl
  | win hel _ ht hlogs =>
    intro _ e he hterm
    rw [hlogs] at he
    rw [ht] at hterm
    exact absurd hterm (hb.no_entry (hwin _ _ rfl hel) he)
  | start hl => exact h.start hl _ _
  | beat hl hrf hcalls =>
    obtain ⟨counter, hcalls⟩ := hcalls
    refine h.keeps (fun _ => ⟨hl, by rw [hrf]; rfl⟩) (by rw [hrf]; rfl) (by rw [hrf]; rfl)
      (by rw [hrf]; rfl) fun _ p e hs => ?_
    refine hs.mono (fun f hf => by rw [hrf]; exact hf) (fun x hx => Or.inl (by rw [hrf]; exact hx))
      fun c hc => ?_
    rw [hcalls]
    exact List.mem_append_left _ hc
  | collect hq => exact h.collect hq _
  | skip hrf hcalls _ hq =>
    obtain ⟨pc, hrf⟩ := hrf
    refine h.keeps (fun hl => ⟨by rw [hrf] at hl; exact hl, by rw [hrf]⟩) (by rw [hrf])
      (by rw [hrf]) (by rw [hrf]) fun hl p e hs => ?_
    exact hs.mono (fun f hf => by rw [hrf]; exact hf) (hq hl) fun c hc => hcalls ▸ hc
  | build hpc hrf hcalls =>
    obtain ⟨id, counter, hcalls⟩ := hcalls
    exact h.build hpc hrf hcalls
  | close ho hw hc hr => exact h.close (hsettle _ ho) hw hc hr
  | mismatch ho hw hl ht hs hrf => exact h.mismatch (hsettle _ ho) hw hl ht hs hrf
  | sync ho hw hl ht _ hrf =>
    exact h.sync (hsettle _ ho) (call_of_find? (outcome_reply ho).1).2 hw hl ht hrf

end Node

/-! ## Runs -/

/-- Every entry that `Start` has appended on node `i` since it leads is still scheduled for every
    peer that has not confirmed it; `h` are the steps that have led to `s`. -/
def NothingDropped (h : List (Cluster N × Action N)) (s : Cluster N) : Prop :=
  ∀ (i : Fin N) (T : ℤ), Leads s i T → ∀ (s₀ : Cluster N) (command : Op) (now : ℤ),
    (s₀, Action.act i (.start command now)) ∈ h → Leads s₀ i T → ∀ p, p ≠ i →
    (s.nodes i).rf.matchIndex p < ((s₀.nodes i).rf.newEntry command).logindex →
      (s.nodes i).Scheduled p ((s₀.nodes i).rf.newEntry command)

/-- The buffers are in order, and every leader keeps its obligation. -/
structure Schedules (s : Cluster N) (b : Ballot (Fin N) LogEntry) : Prop extends Buffers s b where
  owes : ∀ i, (s.nodes i).Owes

theorem schedules_init : Schedules (Cluster.init N) Ballot.empty where
  toBuffers := buffers_init
  owes i hl := by cases hl

theorem Schedules.step {s : Cluster N} {b : Ballot (Fin N) LogEntry} (h : Schedules s b)
    {a : Action N} (hc : Confirmed s a) : ∃ b', b.Le b' ∧ Schedules (s.step a) b' := by
  obtain ⟨b', hle, hb'⟩ := h.toBuffers.step a
  refine ⟨b', hle, hb', fun j => ?_⟩
  rcases s.step_nodes a j with heq | ⟨x, hx, heq⟩
  · rw [heq]
    exact h.owes j
  · rw [heq]
    refine (h.owes j).move (h.node j) (h.tidy.moves hx) ?_ (hc (j, x) hx)
    intro r reply hr hel
    subst hr
    exact h.elections.leader_none (Cluster.driven_packet hx) hel

/-- The entry a leader has started, as the ballot remembers it. -/
def Started (b : Ballot (Fin N) LogEntry) (s : Cluster N) (a : Action N) : Prop :=
  ∀ i command now, a = .act i (.start command now) → ∀ T, Leads s i T →
    b.leader T.toNat = some i ∧ (s.nodes i).rf.newEntry command ∈ b.lead T.toNat

theorem Started.mono {b b' : Ballot (Fin N) LogEntry} (hle : b.Le b') {s : Cluster N}
    {a : Action N} (h : Started b s a) : Started b' s a := by
  intro i command now ha T hl
  obtain ⟨h1, h2⟩ := h i command now ha T hl
  exact ⟨hle.leader h1, (hle.lead h1).isPrefix.subset h2⟩

theorem Elections.started {s : Cluster N} {a : Action N} {b' : Ballot (Fin N) LogEntry}
    (h : Elections (s.step a) b') : Started b' s a := by
  intro i command now ha T hl
  subst ha
  have hnode : ((s.step (.act i (.start command now))).nodes i).rf =
      (persist { (s.nodes i).rf with
        logs := (s.nodes i).rf.logs ++ [(s.nodes i).rf.newEntry command] }).addToPendingBatch
        ((s.nodes i).rf.newEntry command) now := by
    rw [← start_eq hl.1]
    simp only [Cluster.step, Cluster.update, Function.update_self, Node.step]
  have hl' : Leads (s.step (.act i (.start command now))) i T := by
    unfold Leads
    rw [hnode]
    exact hl
  refine ⟨h.leader hl', ?_⟩
  have hv := h.node i
  have ht : T.toNat = b'.term i := by
    rw [← hl'.2, hv.term, Int.toNat_natCast]
  rw [ht, (hv.lead hl'.1).2, hnode]
  exact List.mem_append_right _ (List.mem_singleton_self _)

/-- In every run whose RPCs all deliver their entries, no entry is dropped. -/
theorem nothing_dropped (h : List (Cluster N × Action N)) (s : Cluster N)
    (hr : Cluster.Runs Confirmed h s) : NothingDropped h s := by
  obtain ⟨b, hb, hF⟩ := hr.simulate (R := Schedules) (F := fun s a b => Started b s a)
    schedules_init
    (fun s a b hb hok => by
      obtain ⟨b', hle, hb'⟩ := hb.step hok
      exact ⟨b', hle, hb', hb'.elections.started⟩)
    (fun s a b b' (hle : b.Le b') hF => hF.mono hle)
  intro i T hl s₀ command now hmem hl₀ p hp hlt
  obtain ⟨_, hin⟩ := hF _ hmem i command now rfl T hl₀
  have hv := hb.elections.node i
  have ht : T.toNat = b.term i := by rw [← hl.2, hv.term, Int.toNat_natCast]
  rw [ht, (hv.lead hl.1).2] at hin
  refine hb.owes i hl.1 _ hin ?_ p ?_ hlt
  · show (s₀.nodes i).rf.currentTerm = _
    rw [hl₀.2, hl.2]
  · rw [hv.me]
    exact hp

open MyKvRaft.Action in
/-- Node 0 leads term 1, starts an entry and sends it; node 1 confirms it. -/
def confirmedRun : List (Action 3) :=
  [timeout 0, ask 0, ask 0, .deliver 0, .deliver 0, put 0 1] ++ batchRound 0 ++
    [.deliver 0, .deliver 1]

open MyKvRaft.Action in
theorem nothing_dropped_confirmedRun :
    (Leads (Cluster.exec confirmedRun) 0 1 ∧
      ((Cluster.exec confirmedRun).nodes 0).rf.matchIndex 1 = 1) ∧
    ((Cluster.exec confirmedRun).nodes 0).Scheduled 2
      (((Cluster.exec electionRun).nodes 0).rf.newEntry ⟨[], [], [], [], 1⟩) := by
  have hl : Leads (Cluster.exec confirmedRun) 0 1 := by decide +kernel
  have hl₀ : Leads (Cluster.exec electionRun) 0 1 := by decide +kernel
  have hlt : ((Cluster.exec confirmedRun).nodes 0).rf.matchIndex 2 <
      (((Cluster.exec electionRun).nodes 0).rf.newEntry ⟨[], [], [], [], 1⟩).logindex := by
    decide +kernel
  refine ⟨⟨hl, by decide +kernel⟩, ?_⟩
  exact nothing_dropped _ _ (Cluster.runs_exec confirmedRun (by decide +kernel)) 0 1 hl _ _ 0
    (Cluster.mem_trace electionRun (put 0 1) _) hl₀ 2 (by decide) hlt

open MyKvRaft.Action in
/-- Node 0 leads term 1, starts an entry and sends it; the RPC to node 1 fails. -/
def lostRun : List (Action 3) :=
  [timeout 0, ask 0, ask 0, .deliver 0, .deliver 0, put 0 1] ++ batchRound 0 ++ [appendLost 0 0]

open MyKvRaft.Action in
/-- The entry is nowhere on its way to node 1 any more, which has not confirmed it. -/
theorem nothing_dropped_fails : ∃ (h : List (Cluster 3 × Action 3)) (s : Cluster 3),
    Cluster.Runs anyStep h s ∧ ¬ NothingDropped h s := by
  have hl : Leads (Cluster.exec lostRun) 0 1 := by decide +kernel
  have hl₀ : Leads (Cluster.exec electionRun) 0 1 := by decide +kernel
  have hlt : ((Cluster.exec lostRun).nodes 0).rf.matchIndex 1 <
      (((Cluster.exec electionRun).nodes 0).rf.newEntry ⟨[], [], [], [], 1⟩).logindex := by
    decide +kernel
  have hpending : (((Cluster.exec lostRun).nodes 0).rf.pendingEntries 1).entries = [] := by
    decide +kernel
  have hqueued : ((Cluster.exec lostRun).nodes 0).rf.queued = [] := by decide +kernel
  have hcalls : ∀ c ∈ ((Cluster.exec lostRun).nodes 0).calls, c.rpc.dst ≠ 1 := by decide +kernel
  refine ⟨_, _, Cluster.runs_exec lostRun fun _ _ => trivial, fun hd => ?_⟩
  have hs := hd 0 1 hl _ _ 0 (Cluster.mem_trace electionRun (put 0 1) _) hl₀ 1 (by decide) hlt
  rcases hs with he | ⟨x, hx, _⟩ | ⟨c, hc, hdst, _⟩
  · rw [hpending] at he
    cases he
  · rw [hqueued] at hx
    cases hx
  · exact hcalls c hc hdst

end MyKvRaft
