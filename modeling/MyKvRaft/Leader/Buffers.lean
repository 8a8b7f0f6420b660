import MyKvRaft.Leader.Moves
import MyKvRaft.Safety.Election
import MyKvRaft.Safety.LogOps

/-!
# The buffers of a node

What holds of the entries on their way, in every run and whatever the messages do.
The entries of one batch are in the order of their indices, which are indices of the
node's log, and a batch that has outlived its term has only entries in front of all
entries of the current term (`Buffered`).

* `Buffers.step`: kept by every step.
-/

namespace MyKvRaft

open Consensus Transition Raft

variable {N : ℕ}

/-- The entry is of a term that somebody has won. -/
def Led (b : Ballot (Fin N) LogEntry) (e : LogEntry) : Prop :=
  0 ≤ e.logterm ∧ b.leader e.logterm.toNat ≠ none

theorem Led.mono {b b' : Ballot (Fin N) LogEntry} (hle : b.Le b') {e : LogEntry} (h : Led b e) :
    Led b' e := by
  obtain ⟨x, hx⟩ := Option.ne_none_iff_exists'.mp h.2
  refine ⟨h.1, ?_⟩
  rw [hle.leader hx]
  simp

/-! ## Batches -/

/-- The entries of a batch are in order, and none is past index `L`. -/
def Ordered (L : ℕ) (l : List LogEntry) : Prop :=
  l.Pairwise (fun e f => e.logindex < f.logindex) ∧ ∀ e ∈ l, e.logindex ≤ L

theorem ordered_nil (L : ℕ) : Ordered L [] := ⟨List.Pairwise.nil, by simp⟩

theorem Ordered.mono {L L' : ℕ} (hle : L ≤ L') {l : List LogEntry} (h : Ordered L l) :
    Ordered L' l := by
  refine ⟨h.1, fun e he => ?_⟩
  have := h.2 e he
  omega

theorem Ordered.append {L : ℕ} {l : List LogEntry} (h : Ordered L l) {e : LogEntry}
    (he : e.logindex = L + 1) : Ordered (L + 1) (l ++ [e]) := by
  refine ⟨List.pairwise_append.mpr ⟨h.1, List.pairwise_singleton _ _, fun f hf g hg => ?_⟩,
    fun f hf => ?_⟩
  · rw [List.mem_singleton] at hg
    subst hg
    have := h.2 f hf
    omega
  · rcases List.mem_append.mp hf with hf | hf
    · have := h.2 f hf
      omega
    · rw [List.mem_singleton] at hf
      subst hf
      omega

/-- The last index of a batch leaves room for the entries in front of it. -/
theorem Ordered.le_last {L : ℕ} {l : List LogEntry} (h : Ordered L l) {f e : LogEntry}
    (hf : l.head? = some f) (he : l.getLast? = some e) :
    f.logindex - 1 + l.length ≤ e.logindex := by
  induction l generalizing f with
  | nil => cases hf
  | cons x xs ih =>
    cases hf
    cases hxs : xs.head? with
    | none =>
      rw [List.head?_eq_none_iff] at hxs
      subst hxs
      cases he
      simp
    | some y =>
      obtain ⟨ys, rfl⟩ : ∃ ys, xs = y :: ys := by
        cases xs with
        | nil => cases hxs
        | cons z zs => cases hxs; exact ⟨zs, rfl⟩
      rw [List.getLast?_cons_cons] at he
      have hord : Ordered L (y :: ys) :=
        ⟨(List.pairwise_cons.mp h.1).2, fun e he => h.2 e (List.mem_cons_of_mem _ he)⟩
      have hrest := ih hord rfl he
      have hlt := (List.pairwise_cons.mp h.1).1 y List.mem_cons_self
      simp only [List.length_cons] at hrest ⊢
      omega

namespace Node

/-- `l` is a batch on its way: for a peer, in the hands of `batchSenderLoop`, or in a request. -/
def Batch (n : Node N) (l : List LogEntry) : Prop :=
  (∃ p, l = (n.rf.pendingEntries p).entries) ∨ (∃ x ∈ n.rf.queued, l = x.2) ∨
    ∃ c ∈ n.calls, l = c.rpc.args.entries

theorem Batch.of_subset {n n' : Node N} {l : List LogEntry} (h : n'.Batch l)
    (hpending : n'.rf.pendingEntries = n.rf.pendingEntries) (hqueued : n'.rf.queued ⊆ n.rf.queued)
    (hcalls : n'.calls ⊆ n.calls) : n.Batch l := by
  rcases h with ⟨p, rfl⟩ | ⟨x, hx, rfl⟩ | ⟨c, hc, rfl⟩
  · exact Or.inl ⟨p, by rw [hpending]⟩
  · exact Or.inr (Or.inl ⟨x, hqueued hx, rfl⟩)
  · exact Or.inr (Or.inr ⟨c, hcalls hc, rfl⟩)

theorem batch_restart {n : Node N} {l : List LogEntry} (h : n.restart.Batch l) : l = [] := by
  rcases h with ⟨p, rfl⟩ | ⟨x, hx, rfl⟩ | ⟨c, hc, rfl⟩
  · have : n.restart.rf.pendingEntries = fun _ => ⟨[], 0⟩ := init_pendingEntries _ _
    rw [this]
  · have : n.restart.rf.queued = [] := by
      unfold Raft.queued
      rw [show n.restart.rf.batchSenderThread = none from init_batchSenderThread _ _]
    rw [this] at hx
    cases hx
  · cases hc

/-- The batches once a command has been started. -/
theorem batch_start {n : Node N} (hlead : n.rf.status = .Leader) {command : Op} {now : ℤ}
    {l : List LogEntry} (hl : { n with rf := (n.rf.start command now).1 }.Batch l) :
    n.Batch l ∨ ∃ p, p ≠ n.rf.me ∧
      l = (n.rf.pendingEntries p).entries ++ [n.rf.newEntry command] := by
  have hrf := start_eq hlead command now
  rcases hl with ⟨p, rfl⟩ | hl
  · by_cases hp : p = n.rf.me
    · refine Or.inl (Or.inl ⟨p, ?_⟩)
      simp [hrf, addToPendingBatch, hp]
    · exact Or.inr ⟨p, hp, start_pendingEntries hlead command now hp⟩
  · refine Or.inl (Or.inr ?_)
    have hq : (n.rf.start command now).1.queued = n.rf.queued := by rw [hrf]; rfl
    rw [← hq]
    exact hl

/-- The batches when further calls have been made. -/
theorem Batch.of_calls {n n' : Node N} {l : List LogEntry} (h : n'.Batch l)
    (hpending : n'.rf.pendingEntries = n.rf.pendingEntries) (hqueued : n'.rf.queued ⊆ n.rf.queued)
    {more : List (AppendCall N)} (hcalls : n'.calls = n.calls ++ more) :
    n.Batch l ∨ ∃ c ∈ more, l = c.rpc.args.entries := by
  rcases h with ⟨p, rfl⟩ | ⟨y, hy, rfl⟩ | ⟨c, hc, rfl⟩
  · exact Or.inl (Or.inl ⟨p, by rw [hpending]⟩)
  · exact Or.inl (Or.inr (Or.inl ⟨y, hqueued hy, rfl⟩))
  · rw [hcalls] at hc
    rcases List.mem_append.mp hc with hc | hc
    · exact Or.inl (Or.inr (Or.inr ⟨c, hc, rfl⟩))
    · exact Or.inr ⟨c, hc, rfl⟩

/-- Where a batch comes from: it is an old one, or an old one with the entry of a new command. -/
theorem Moves.batch {x : Input N ⊕ Packet N} {n n' : Node N} (h : Moves x n n')
    {l : List LogEntry} (hl : n'.Batch l) :
    l = [] ∨ n.Batch l ∨ ∃ command now l₀, x = .inl (.start command now) ∧
      n.rf.status = .Leader ∧ n' = { n with rf := (n.rf.start command now).1 } ∧ n.Batch l₀ ∧
      (∃ p, p ≠ n.rf.me ∧ l₀ = (n.rf.pendingEntries p).entries) ∧
      l = l₀ ++ [n.rf.newEntry command] := by
  cases h with
  | restart => exact Or.inl (batch_restart hl)
  | idle hc hcalls =>
    exact Or.inr (Or.inl (hl.of_subset hc.pending (hc.queued ▸ List.Subset.refl _) (hcalls ▸ List.Subset.refl _)))
  | follow _ _ hpending hqueued hcalls =>
    exact Or.inr (Or.inl (hl.of_subset hpending (hqueued ▸ List.Subset.refl _) (hcalls ▸ List.Subset.refl _)))
  | win _ _ _ _ hpending hqueued hcalls =>
    refine Or.inr (Or.inl (hl.of_subset hpending ?_ (hcalls ▸ List.Subset.refl _)))
    rcases hqueued with hq | hq
    · exact hq ▸ List.Subset.refl _
    · rw [hq]
      exact List.nil_subset _
  | @start command now _ hlead =>
    rcases batch_start hlead hl with hold | ⟨p, hp, rfl⟩
    · exact Or.inr (Or.inl hold)
    · exact Or.inr (Or.inr ⟨command, now, _, rfl, hlead, rfl, Or.inl ⟨p, rfl⟩, ⟨p, hp, rfl⟩, rfl⟩)
  | beat _ hrf hcalls =>
    obtain ⟨counter, hcalls⟩ := hcalls
    have hqueued : n'.rf.queued = n.rf.queued := by rw [hrf]; rfl
    rcases hl.of_calls (by rw [hrf]; rfl) (hqueued ▸ List.Subset.refl _) hcalls with
      hold | ⟨c, hc, rfl⟩
    · exact Or.inr (Or.inl hold)
    · -- a heartbeat carries no entries
      obtain ⟨r, hr, rfl⟩ := List.mem_map.mp hc
      left
      rw [(mem_heartBeatRpcs hr).2.2.1]
      rfl
  | @collect clock _ hq =>
    rcases hl with ⟨p, rfl⟩ | ⟨y, hy, rfl⟩ | ⟨c, hc, rfl⟩
    · simp only [collectBatches]
      split_ifs
      · exact Or.inl rfl
      · exact Or.inr (Or.inl (Or.inl ⟨p, rfl⟩))
    · obtain ⟨p, _, rfl⟩ := List.mem_map.mp hy
      exact Or.inr (Or.inl (Or.inl ⟨p, rfl⟩))
    · exact Or.inr (Or.inl (Or.inr (Or.inr ⟨c, hc, rfl⟩)))
  | skip hrf hcalls hsub =>
    obtain ⟨pc, hrf⟩ := hrf
    exact Or.inr (Or.inl (hl.of_subset (by rw [hrf]) hsub (hcalls ▸ List.Subset.refl _)))
  | @build clock peer entries rest _ _ hpc hrf hcalls =>
    obtain ⟨id, counter, hcalls⟩ := hcalls
    have hq : n.rf.queued = (peer, entries) :: rest := by
      simp [Raft.queued, hpc, BatchSender.queued]
    have hq' : n'.rf.queued = rest := by rw [hrf]; rfl
    have hsub : n'.rf.queued ⊆ n.rf.queued := by
      rw [hq, hq']
      exact List.subset_cons_self _ _
    refine Or.inr (Or.inl ?_)
    rcases hl.of_calls (by rw [hrf]) hsub hcalls with hold | ⟨c, hc, rfl⟩
    · exact hold
    · rw [List.mem_singleton] at hc
      subst hc
      exact Or.inr (Or.inl ⟨_, hq ▸ List.mem_cons_self, rfl⟩)
  | close _ hw hc =>
    exact Or.inr (Or.inl (hl.of_subset hc.pending (hc.queued ▸ List.Subset.refl _) hw.2.1))
  | @mismatch r reply _ _ _ _ hw _ _ _ hrf =>
    obtain ⟨nextIdx, heq⟩ := n.rf.handleLogMismatch_eq r.dst reply
    rw [heq] at hrf
    exact Or.inr (Or.inl (hl.of_subset (by rw [hrf]) (by rw [hrf]; exact List.Subset.refl _)
      hw.2.1))
  | sync _ hw _ _ _ hrf =>
    exact Or.inr (Or.inl (hl.of_subset (by rw [hrf]; rfl) (by rw [hrf]; exact List.Subset.refl _)
      hw.2.1))

/-! ## The log -/

/-- Where the entries of a log come from: the log before, the node's own command, or the
    request of a leader. -/
theorem Moves.logs {x : Input N ⊕ Packet N} {n n' : Node N} (h : Moves x n n')
    (hs : n.rf.Saved) :
    n'.rf.logs = n.rf.logs ∨
    (n'.rf.status = .Follower ∧ n.rf.logs.length ≤ n'.rf.logs.length ∧
      ∀ e ∈ n'.rf.logs, (∃ f ∈ n.rf.logs, e.logterm = f.logterm ∧ e.command = f.command) ∨
        ∃ r, x = .inr (.appendEntries r) ∧ e ∈ r.args.entries) ∨
    ∃ command now, x = .inl (.start command now) ∧ n.rf.status = .Leader ∧
      n' = { n with rf := (n.rf.start command now).1 } ∧
      n'.rf.logs = n.rf.logs ++ [n.rf.newEntry command] := by
  cases h with
  | restart =>
    refine Or.inr (Or.inl ⟨init_status _ _, ?_⟩)
    have hlogs : n.restart.rf.logs.map (fun log => (⟨log.logterm, log.command⟩ : PersistLogEntry))
        = n.rf.logs.map fun log => ⟨log.logterm, log.command⟩ := by
      have hdate := (restart_persistDate n.rf).trans hs
      exact congrArg PersistRaftNode.logs hdate
    refine ⟨?_, fun e he => Or.inl ?_⟩
    · have := congrArg List.length hlogs
      rw [List.length_map, List.length_map] at this
      exact this.ge
    · have hmem := List.mem_map_of_mem (f := fun log : LogEntry =>
        (⟨log.logterm, log.command⟩ : PersistLogEntry)) he
      rw [hlogs] at hmem
      obtain ⟨f, hf, heq⟩ := List.mem_map.mp hmem
      exact ⟨f, hf, (congrArg PersistLogEntry.term heq).symm,
        (congrArg PersistLogEntry.command heq).symm⟩
  | idle hc => exact Or.inl hc.logs
  | follow _ hstatus _ _ _ _ _ hlen hlogs =>
    refine Or.inr (Or.inl ⟨hstatus, hlen, fun e he => ?_⟩)
    rcases hlogs e he with he | he
    · exact Or.inl ⟨e, he, rfl, rfl⟩
    · exact Or.inr ⟨_, rfl, he⟩
  | win _ _ _ hlogs => exact Or.inl hlogs
  | @start command now _ hlead =>
    refine Or.inr (Or.inr ⟨command, now, rfl, hlead, rfl, ?_⟩)
    show (n.rf.start command now).1.logs = _
    rw [start_eq hlead]
    rfl
  | beat _ hrf => exact Or.inl (by rw [hrf]; rfl)
  | collect => exact Or.inl rfl
  | skip hrf =>
    obtain ⟨pc, hrf⟩ := hrf
    exact Or.inl (by rw [hrf])
  | build _ hrf => exact Or.inl (by rw [hrf])
  | close _ _ hc => exact Or.inl hc.logs
  | @mismatch r reply _ _ _ _ _ _ _ _ hrf =>
    obtain ⟨nextIdx, heq⟩ := n.rf.handleLogMismatch_eq r.dst reply
    exact Or.inl (by rw [hrf, heq])
  | sync _ _ _ _ _ hrf => exact Or.inl (by rw [hrf]; rfl)

theorem Moves.length_le {x : Input N ⊕ Packet N} {n n' : Node N} (h : Moves x n n')
    (hs : n.rf.Saved) : n.rf.logs.length ≤ n'.rf.logs.length := by
  rcases h.logs hs with hlogs | ⟨_, hlen, _⟩ | ⟨command, now, _, _, _, hlogs⟩
  · rw [hlogs]
  · exact hlen
  · rw [hlogs, List.length_append]
    exact Nat.le_add_right _ _

end Node

/-! ## The invariant -/

/-- The buffers and the indices of a node. -/
structure Buffered (b : Ballot (Fin N) LogEntry) (n : Node N) : Prop where
  logs : ∀ e ∈ n.rf.logs, Led b e
  led : ∀ l, n.Batch l → ∀ e ∈ l, Led b e
  ordered : ∀ l, n.Batch l → Ordered n.rf.logs.length l
  nextIndex : ∀ p, n.rf.nextIndex p ≤ n.rf.logs.length + 1
  matchIndex : ∀ p, n.rf.matchIndex p ≤ n.rf.logs.length
  calls : ∀ c ∈ n.calls, c.rpc.args.prevlogindex + c.rpc.args.entries.length ≤ n.rf.logs.length ∧
    ∀ e, c.rpc.args.entries.getLast? = some e →
      c.rpc.args.prevlogindex + c.rpc.args.entries.length ≤ e.logindex
  old : n.rf.status = .Leader → ∀ l, n.Batch l → ∀ e ∈ l, e.logterm ≠ n.rf.currentTerm →
    ∀ (k : ℕ) (f : LogEntry), n.rf.logs[k]? = some f → f.logterm = n.rf.currentTerm →
      e.logindex ≤ k

/-- What the messages say about entries and indices. -/
def BufferPacket (b : Ballot (Fin N) LogEntry) : Packet N → Prop
  | .appendEntries r => ∀ e ∈ r.args.entries, Led b e
  | .appendEntriesReply r reply =>
    reply.success = false → reply.updatenextindex ≤ max r.args.prevlogindex 1
  | _ => True

structure Buffers (s : Cluster N) (b : Ballot (Fin N) LogEntry) : Prop where
  tidy : s.Tidy
  elections : Elections s b
  node : ∀ i, Buffered b (s.nodes i)
  packet : ∀ q ∈ s.network, BufferPacket b q

theorem Buffered.mono {b b' : Ballot (Fin N) LogEntry} (hle : b.Le b') {n : Node N}
    (h : Buffered b n) : Buffered b' n :=
  { h with
    logs := fun e he => (h.logs e he).mono hle
    led := fun l hl e he => (h.led l hl e he).mono hle }

theorem BufferPacket.mono {b b' : Ballot (Fin N) LogEntry} (hle : b.Le b') {q : Packet N}
    (h : BufferPacket b q) : BufferPacket b' q := by
  cases q with
  | appendEntries r => exact fun e he => (h e he).mono hle
  | _ => exact h

/-! ## Moves keep it -/

section Move

variable {b : Ballot (Fin N) LogEntry} {i : Fin N} {n n' : Node N} {x : Input N ⊕ Packet N}

theorem Node.outcome_reply {r : Rpc N AppendEntriesArgs} {reply : AppendEntriesReply}
    {call : AppendCall N} {y : Option AppendEntriesReply}
    (h : n.outcome (.inr (.appendEntriesReply r reply)) = some (call, y)) :
    n.calls.find? (·.rpc = r) = some call ∧ y = some reply := by
  obtain ⟨c, hc, heq⟩ := Option.map_eq_some_iff.mp h
  cases heq
  exact ⟨hc, rfl⟩

/-- What a rejected request sets `nextIndex` to is at most what the peer proposes. -/
theorem Raft.handleLogMismatch_nextIndex {rf : Raft N} (hs : rf.NoSnapshot) (peerId : Fin N)
    (reply : AppendEntriesReply) (p : Fin N) :
    (rf.handleLogMismatch peerId reply).nextIndex p = rf.nextIndex p ∨
      (rf.handleLogMismatch peerId reply).nextIndex p ≤ max reply.updatenextindex 1 := by
  unfold handleLogMismatch
  rw [hs.index]
  split_ifs
  · exact Or.inl rfl
  all_goals
    by_cases hp : p = peerId
    · subst hp
      right
      simp only [Function.update_self]
      omega
    · left
      simp only [Function.update_of_ne hp]

theorem Buffered.nextIndex_le (h : Buffered b n) (ht : Node.Tidy i n) (hm : Node.Moves x n n')
    (hpacket : ∀ q, x = .inr q → BufferPacket b q) (p : Fin N) :
    n'.rf.nextIndex p ≤ n'.rf.logs.length + 1 := by
  have hlen := hm.length_le ht.saved
  have hnext := h.nextIndex p
  cases hm with
  | restart =>
    have : n.restart.rf.nextIndex = fun _ => 0 := init_nextIndex _ _
    simp only [this]
    omega
  | idle hc => rw [hc.nextIndex]; omega
  | follow _ _ _ _ _ hn => rw [hn]; omega
  | win _ _ _ _ _ _ _ hn =>
    rw [hn, ht.plain.snap.getLastLogIndex]
    omega
  | @start command now _ hlead =>
    have : (n.rf.start command now).1.nextIndex = n.rf.nextIndex := by rw [start_eq hlead]; rfl
    show (n.rf.start command now).1.nextIndex p ≤ _
    rw [this]
    omega
  | beat _ hrf =>
    rw [hrf] at hlen ⊢
    simp only [Node.clampNextIndex, heartBeatNextIndex] at hlen ⊢
    split_ifs <;> omega
  | collect => exact hnext
  | skip hrf =>
    obtain ⟨pc, hrf⟩ := hrf
    rw [hrf]
    exact hnext
  | build _ hrf => rw [hrf]; exact hnext
  | close _ _ hc => rw [hc.nextIndex]; omega
  | @mismatch r reply call _ _ ho _ _ _ hs hrf =>
    obtain ⟨hmem, hcall⟩ := Node.call_of_find? (Node.outcome_reply ho).1
    have hbound := (h.calls call hmem).1
    have hhint := hpacket _ rfl hs
    rw [hcall] at hbound
    rw [hrf] at hlen ⊢
    rcases handleLogMismatch_nextIndex ht.plain.snap r.dst reply p with hn | hn
    · rw [hn]
      omega
    · omega
  | @sync r reply call c _ _ ho _ _ _ _ hrf =>
    obtain ⟨hmem, hcall⟩ := Node.call_of_find? (Node.outcome_reply ho).1
    have hbound := (h.calls call hmem).1
    rw [hcall] at hbound
    have hmatch := h.matchIndex p
    rw [hrf]
    simp only [synced]
    by_cases hp : p = r.dst
    · subst hp
      rw [Function.update_self]
      omega
    · rw [Function.update_of_ne hp]
      omega

/-- What a move does to `matchIndex`: nothing, back to 0, or up to the end of a request that a
    peer has accepted. -/
theorem Node.Moves.matchIndex (hm : Node.Moves x n n') :
    n'.rf.matchIndex = n.rf.matchIndex ∨ (∀ p, n'.rf.matchIndex p = 0) ∨
    ∃ r reply call, x = .inr (.appendEntriesReply r reply) ∧
      n.calls.find? (·.rpc = r) = some call ∧ n.rf.status = .Leader ∧
      reply.term = n.rf.currentTerm ∧ reply.success = true ∧
      n'.rf.matchIndex = Function.update n.rf.matchIndex r.dst
        (max (n.rf.matchIndex r.dst) (r.args.prevlogindex + r.args.entries.length)) := by
  cases hm with
  | restart => exact Or.inr (Or.inl fun p => congrFun (init_matchIndex _ _) p)
  | idle hc => exact Or.inl hc.matchIndex
  | follow _ _ _ _ _ _ hmatch => exact Or.inl hmatch
  | win _ _ _ _ _ _ _ _ hmatch => exact Or.inr (Or.inl hmatch)
  | @start command now _ hlead =>
    left
    show (n.rf.start command now).1.matchIndex = _
    rw [start_eq hlead]
    rfl
  | beat _ hrf => exact Or.inl (by rw [hrf]; rfl)
  | collect => exact Or.inl rfl
  | skip hrf =>
    obtain ⟨pc, hrf⟩ := hrf
    exact Or.inl (by rw [hrf])
  | build _ hrf => exact Or.inl (by rw [hrf])
  | close _ _ hc => exact Or.inl hc.matchIndex
  | @mismatch r reply _ _ _ _ _ _ _ _ hrf =>
    obtain ⟨nextIdx, heq⟩ := n.rf.handleLogMismatch_eq r.dst reply
    exact Or.inl (by rw [hrf, heq])
  | @sync r reply call c _ _ ho _ hl hterm hs hrf =>
    exact Or.inr (Or.inr ⟨r, reply, call, rfl, (Node.outcome_reply ho).1, hl, hterm, hs,
      by rw [hrf]; rfl⟩)

theorem Buffered.matchIndex_le (h : Buffered b n) (ht : Node.Tidy i n) (hm : Node.Moves x n n')
    (p : Fin N) : n'.rf.matchIndex p ≤ n'.rf.logs.length := by
  have hlen := hm.length_le ht.saved
  have hold := h.matchIndex p
  rcases hm.matchIndex with heq | heq | ⟨r, reply, call, _, hfind, _, _, _, heq⟩
  · rw [heq]
    omega
  · rw [heq]
    omega
  · obtain ⟨hmem, hcall⟩ := Node.call_of_find? hfind
    have hbound := (h.calls call hmem).1
    rw [hcall] at hbound
    rw [heq]
    by_cases hp : p = r.dst
    · subst hp
      rw [Function.update_self]
      omega
    · rw [Function.update_of_ne hp]
      omega

/-- Where a call comes from: it was there before, it is a heartbeat, or it carries a batch. -/
theorem Node.Moves.calls (hm : Node.Moves x n n') {c : AppendCall N} (hc : c ∈ n'.calls) :
    c ∈ n.calls ∨ (c.rpc.args.entries = [] ∧
      c.rpc.args.prevlogindex = n'.rf.nextIndex c.rpc.dst - 1) ∨
    ∃ entries, n.Batch entries ∧ c.rpc.args = n.rf.batchArgs entries := by
  cases hm with
  | restart => cases hc
  | idle _ hcalls => exact Or.inl (hcalls ▸ hc)
  | follow _ _ _ _ hcalls => exact Or.inl (hcalls ▸ hc)
  | win _ _ _ _ _ _ hcalls => exact Or.inl (hcalls ▸ hc)
  | start => exact Or.inl hc
  | beat _ hrf hcalls =>
    obtain ⟨counter, hcalls⟩ := hcalls
    rw [hcalls] at hc
    rcases List.mem_append.mp hc with hc | hc
    · exact Or.inl hc
    · obtain ⟨r, hr, rfl⟩ := List.mem_map.mp hc
      have hargs := (Node.mem_heartBeatRpcs hr).2.2.1
      refine Or.inr (Or.inl ⟨?_, ?_⟩)
      · rw [hargs]; rfl
      · rw [hargs]; rfl
  | collect => exact Or.inl hc
  | skip _ hcalls => exact Or.inl (hcalls ▸ hc)
  | @build clock peer entries rest _ _ hpc hrf hcalls =>
    obtain ⟨id, counter, hcalls⟩ := hcalls
    rw [hcalls] at hc
    rcases List.mem_append.mp hc with hc | hc
    · exact Or.inl hc
    · rw [List.mem_singleton] at hc
      subst hc
      have hq : (peer, entries) ∈ n.rf.queued := by simp [Raft.queued, hpc, BatchSender.queued]
      exact Or.inr (Or.inr ⟨entries, Or.inr (Or.inl ⟨_, hq, rfl⟩), rfl⟩)
  | close _ hw => exact Or.inl (hw.2.1 hc)
  | mismatch _ hw => exact Or.inl (hw.2.1 hc)
  | sync _ hw => exact Or.inl (hw.2.1 hc)

/-- The request built from a batch ends at its last entry or before. -/
theorem Ordered.batchArgs_le {L : ℕ} {entries : List LogEntry} (h : Ordered L entries)
    (rf : Raft N) {e : LogEntry} (he : entries.getLast? = some e) :
    (rf.batchArgs entries).prevlogindex + entries.length ≤ e.logindex := by
  cases hhead : entries.head? with
  | none =>
    rw [List.head?_eq_none_iff] at hhead
    subst hhead
    cases he
  | some f =>
    have := h.le_last hhead he
    simp only [batchArgs, hhead, Option.map_some, Option.getD_some]
    exact this

theorem Buffered.calls_le (h : Buffered b n) (ht : Node.Tidy i n) (hm : Node.Moves x n n')
    (hnext : ∀ p, n'.rf.nextIndex p ≤ n'.rf.logs.length + 1) {c : AppendCall N}
    (hc : c ∈ n'.calls) :
    c.rpc.args.prevlogindex + c.rpc.args.entries.length ≤ n'.rf.logs.length ∧
    ∀ e, c.rpc.args.entries.getLast? = some e →
      c.rpc.args.prevlogindex + c.rpc.args.entries.length ≤ e.logindex := by
  have hlen := hm.length_le ht.saved
  rcases hm.calls hc with hc | ⟨hnil, hprev⟩ | ⟨entries, hbatch, hargs⟩
  · obtain ⟨h1, h2⟩ := h.calls c hc
    exact ⟨by omega, h2⟩
  · have := hnext c.rpc.dst
    rw [hnil, hprev]
    refine ⟨by simp only [List.length_nil]; omega, fun e he => by cases he⟩
  · have hord := h.ordered entries hbatch
    have hentries : c.rpc.args.entries = entries := by rw [hargs]; rfl
    rw [hentries, hargs]
    refine ⟨?_, fun e he => hord.batchArgs_le n.rf he⟩
    cases hlast : entries.getLast? with
    | none =>
      rw [List.getLast?_eq_none_iff] at hlast
      subst hlast
      simp only [batchArgs, List.head?_nil, Option.map_none, Option.getD_none, List.length_nil]
      omega
    | some e =>
      have h1 := hord.batchArgs_le n.rf hlast
      have h2 := hord.2 e (List.mem_of_getLast? hlast)
      omega

/-- Who leads after a move has led before, or has just won. -/
theorem Node.Moves.leads (hm : Node.Moves x n n') (hl : n'.rf.status = .Leader) :
    n'.rf.currentTerm = n.rf.currentTerm ∧ (n.rf.status = .Leader ∨
      ∃ r reply, x = .inr (.requestVoteReply r reply) ∧ Node.Elects n r reply ∧
        n'.rf.logs = n.rf.logs) := by
  cases hm with
  | restart =>
    have : n.restart.rf.status = .Follower := init_status _ _
    rw [this] at hl
    cases hl
  | idle hc => exact ⟨(hc.leads hl).2, Or.inl (hc.leads hl).1⟩
  | follow _ hstatus =>
    rw [hstatus] at hl
    cases hl
  | win hel _ hterm hlogs => exact ⟨hterm, Or.inr ⟨_, _, rfl, hel, hlogs⟩⟩
  | @start command now _ hlead =>
    refine ⟨?_, Or.inl hlead⟩
    show (n.rf.start command now).1.currentTerm = _
    rw [start_eq hlead]
    rfl
  | beat hlead hrf => exact ⟨by rw [hrf]; rfl, Or.inl hlead⟩
  | collect => exact ⟨rfl, Or.inl hl⟩
  | skip hrf =>
    obtain ⟨pc, hrf⟩ := hrf
    rw [hrf] at hl ⊢
    exact ⟨rfl, Or.inl hl⟩
  | build _ hrf =>
    rw [hrf] at hl ⊢
    exact ⟨rfl, Or.inl hl⟩
  | close _ _ hc => exact ⟨(hc.leads hl).2, Or.inl (hc.leads hl).1⟩
  | @mismatch r reply _ _ _ _ _ hlead _ _ hrf =>
    obtain ⟨nextIdx, heq⟩ := n.rf.handleLogMismatch_eq r.dst reply
    exact ⟨by rw [hrf, heq], Or.inl hlead⟩
  | sync _ _ hlead _ _ hrf => exact ⟨by rw [hrf]; rfl, Or.inl hlead⟩

/-- A term that is just being won has no entries yet. -/
theorem Buffered.no_entry (h : Buffered b n) (hnone : b.leader n.rf.currentTerm.toNat = none)
    {f : LogEntry} (hf : f ∈ n.rf.logs) : f.logterm ≠ n.rf.currentTerm := by
  intro heq
  have := (h.logs f hf).2
  rw [heq] at this
  exact this hnone

theorem Buffered.old_le (h : Buffered b n) (ht : Node.Tidy i n) (hm : Node.Moves x n n')
    (hwin : ∀ r reply, x = .inr (.requestVoteReply r reply) → Node.Elects n r reply →
      b.leader n.rf.currentTerm.toNat = none) (hl : n'.rf.status = .Leader) :
    ∀ l, n'.Batch l → ∀ e ∈ l, e.logterm ≠ n'.rf.currentTerm →
      ∀ (k : ℕ) (f : LogEntry), n'.rf.logs[k]? = some f → f.logterm = n'.rf.currentTerm →
        e.logindex ≤ k := by
  intro l hb e he hne k f hk hf
  obtain ⟨hterm, hled⟩ := hm.leads hl
  rw [hterm] at hne hf
  rcases hled with hlead | ⟨r, reply, hx, hel, hlogs⟩
  · -- the entry is of an old batch, or the new one, which is of the current term
    have hold : ∃ l₀, n.Batch l₀ ∧ e ∈ l₀ := by
      rcases hm.batch hb with rfl | hb | ⟨command, now, l₀, _, _, _, hb₀, _, rfl⟩
      · cases he
      · exact ⟨l, hb, he⟩
      · rcases List.mem_append.mp he with he | he
        · exact ⟨l₀, hb₀, he⟩
        · rw [List.mem_singleton] at he
          subst he
          exact absurd rfl hne
    obtain ⟨l₀, hb₀, he₀⟩ := hold
    rcases hm.logs ht.saved with hlogs | ⟨hfollower, _⟩ | ⟨command, now, _, _, _, hlogs⟩
    · rw [hlogs] at hk
      exact h.old hlead l₀ hb₀ e he₀ hne k f hk hf
    · rw [hfollower] at hl
      cases hl
    · by_cases hk' : k < n.rf.logs.length
      · rw [hlogs, List.getElem?_append_left hk'] at hk
        exact h.old hlead l₀ hb₀ e he₀ hne k f hk hf
      · have := (h.ordered l₀ hb₀).2 e he₀
        omega
  · rw [hlogs] at hk
    exact absurd hf (h.no_entry (hwin r reply hx hel) (List.mem_of_getElem? hk))

/-- Every move keeps the buffers in order. -/
theorem Buffered.move (h : Buffered b n) (ht : Node.Tidy i n) (hv : Voted b i n.rf)
    (hm : Node.Moves x n n') (hpacket : ∀ q, x = .inr q → BufferPacket b q)
    (hwin : ∀ r reply, x = .inr (.requestVoteReply r reply) → Node.Elects n r reply →
      b.leader n.rf.currentTerm.toNat = none) : Buffered b n' := by
  have hlen := hm.length_le ht.saved
  have hnext := fun p => h.nextIndex_le ht hm hpacket p
  have hnew : n.rf.status = .Leader → ∀ command, Led b (n.rf.newEntry command) := by
    intro hl command
    have hterm := hv.term
    refine ⟨by show 0 ≤ n.rf.currentTerm; omega, ?_⟩
    show b.leader n.rf.currentTerm.toNat ≠ none
    rw [hterm, Int.toNat_natCast, (hv.lead hl).1]
    simp
  refine ⟨fun e he => ?_, fun l hb e he => ?_, fun l hb => ?_, hnext,
    fun p => h.matchIndex_le ht hm p, fun c hc => h.calls_le ht hm hnext hc, h.old_le ht hm hwin⟩
  · rcases hm.logs ht.saved with hlogs | ⟨_, _, hlogs⟩ | ⟨command, now, _, hl, _, hlogs⟩
    · rw [hlogs] at he
      exact h.logs e he
    · rcases hlogs e he with ⟨f, hf, heq, _⟩ | ⟨r, hr, her⟩
      · have := h.logs f hf
        unfold Led at this ⊢
        rwa [heq]
      · exact hpacket _ hr e her
    · rw [hlogs] at he
      rcases List.mem_append.mp he with he | he
      · exact h.logs e he
      · rw [List.mem_singleton] at he
        subst he
        exact hnew hl command
  · rcases hm.batch hb with rfl | hb | ⟨command, now, l₀, _, hl, _, hb₀, _, rfl⟩
    · cases he
    · exact h.led l hb e he
    · rcases List.mem_append.mp he with he | he
      · exact h.led l₀ hb₀ e he
      · rw [List.mem_singleton] at he
        subst he
        exact hnew hl command
  · rcases hm.batch hb with rfl | hb | ⟨command, now, l₀, _, hl, heq, hb₀, _, rfl⟩
    · exact ordered_nil _
    · exact (h.ordered l hb).mono hlen
    · have hlogs : n'.rf.logs.length = n.rf.logs.length + 1 := by
        rw [heq]
        show (n.rf.start command now).1.logs.length = _
        rw [start_eq hl]
        exact List.length_append
      rw [hlogs]
      refine (h.ordered l₀ hb₀).append ?_
      show n.rf.getLastLogIndex + 1 = _
      rw [ht.plain.snap.getLastLogIndex]

end Move

/-! ## The cluster -/

/-- A peer proposes no index past the request it rejects. -/
theorem Raft.mismatchHint_le (rf : Raft N) (prevlogindex : ℤ) :
    rf.mismatchHint prevlogindex ≤ prevlogindex := by
  unfold mismatchHint
  dsimp only
  split
  · next index hfind =>
    obtain ⟨k, _, hk⟩ := List.mem_map.mp (List.mem_of_find?_eq_some hfind)
    have hne : k ≠ 0 := by
      rintro rfl
      have := List.find?_some hfind
      rw [← hk] at this
      simp at this
    omega
  · exact le_rfl

theorem Raft.appendEntries1_hint {rf rf' : Raft N} (hs : rf.NoSnapshot) {args : AppendEntriesArgs}
    {reply : AppendEntriesReply} (h : rf.appendEntries1 args = some (rf', reply))
    (hf : reply.success = false) : reply.updatenextindex ≤ max args.prevlogindex 1 := by
  by_cases hlt : args.term < rf.currentTerm
  · unfold appendEntries1 at h
    rw [if_pos hlt] at h
    cases h
    show (-100 : ℤ) ≤ _
    omega
  · rw [appendEntries1_eq (not_lt.mp hlt)] at h
    split_ifs at h
    · cases h
      show rf.getLastLogIndex + 1 ≤ _
      omega
    · cases h
      show rf.lastSnapshotIncludeIndex + 1 ≤ _
      rw [hs.index]
      omega
    · obtain ⟨_, _, _, _, _, rfl⟩ := acceptEntries_cases h
      cases hf
    · cases h
      exact (mismatchHint_le _ _).trans (le_max_left _ _)

section Cluster

variable {s : Cluster N} {b : Ballot (Fin N) LogEntry}

theorem Elections.leader_none (h : Elections s b) {i : Fin N} {r : Rpc N RequestVoteArgs}
    {reply : RequestVoteReply} (hp : Packet.requestVoteReply r reply ∈ s.network)
    (hel : Node.Elects (s.nodes i) r reply) :
    b.leader (s.nodes i).rf.currentTerm.toNat = none := by
  obtain ⟨e, he, hw, hmaj⟩ := hel.election
  have hcount := h.election i e he
  obtain ⟨hsrc, _, _, hargs⟩ := hcount.waiting r hw
  obtain ⟨h1, h2⟩ := h.packet _ hp hel.granted
  rw [hargs, hsrc] at h2
  rw [hargs] at h1
  rw [← hel.term, h1]
  exact (hcount.wins h.valid hw h2 hmaj).1

theorem Buffers.move (h : Buffers s b) {a : Action N} {j : Fin N} {x : Input N ⊕ Packet N}
    (hx : s.driven a = some (j, x)) : Buffered b ((s.nodes j).handle x) := by
  refine (h.node j).move (h.tidy.node j) (h.elections.node j) (h.tidy.moves hx) ?_ ?_
  · intro q hq
    subst hq
    exact h.packet q (Cluster.driven_packet hx)
  · intro r reply hr hel
    subst hr
    exact h.elections.leader_none (Cluster.driven_packet hx) hel

/-- What a node sends by itself carries a batch of its own, or nothing. -/
theorem bufferPacket_step {n : Node N} (h : Buffered b n) {input : Input N} :
    ∀ q ∈ (n.step input).2, BufferPacket b q := by
  intro q hq
  cases Node.sends_step hq with
  | heartBeat _ hr =>
    intro e he
    rw [(Node.mem_heartBeatRpcs hr).2.2.1] at he
    cases he
  | @batch _ peer entries _ hpc =>
    have hmem : (peer, entries) ∈ n.rf.queued := by
      simp [Raft.queued, hpc, BatchSender.queued]
    exact fun e he => h.led entries (Or.inr (Or.inl ⟨_, hmem, rfl⟩)) e he
  | requestVote => trivial
  | snapshot => trivial

theorem bufferPacket_receive {n : Node N} (hs : n.rf.NoSnapshot) {q : Packet N} :
    ∀ q' ∈ (n.receive q).2, BufferPacket b q' := by
  intro q' hq'
  cases Node.sends_receive hq' with
  | append hres => exact fun hf => appendEntries1_hint hs hres hf
  | vote => trivial
  | install => trivial

theorem buffers_init : Buffers (Cluster.init N) Ballot.empty where
  tidy := Cluster.tidy_init
  elections := elections_init
  node i := by
    have hbatch : ∀ l, (Node.init i).Batch l → l = [] := by
      rintro l (⟨p, rfl⟩ | ⟨x, hx, _⟩ | ⟨c, hc, _⟩)
      · rfl
      · cases hx
      · cases hc
    refine ⟨fun e he => (by cases he), fun l hl e he => ?_, fun l hl => ?_, fun p => ?_,
      fun p => le_rfl, fun c hc => (by cases hc), fun hl => (by cases hl)⟩
    · rw [hbatch l hl] at he
      cases he
    · rw [hbatch l hl]
      exact ordered_nil _
    · show (0 : ℤ) ≤ 0 + 1
      decide
  packet q hq := by cases hq

/-- Every step keeps the buffers in order. -/
theorem Buffers.step (h : Buffers s b) (a : Action N) : ∃ b', b.Le b' ∧ Buffers (s.step a) b' := by
  obtain ⟨b', hle, hel⟩ := h.elections.step a
  refine ⟨b', hle, h.tidy.step a, hel, fun j => ?_, fun q hq => ?_⟩
  · rcases s.step_nodes a j with heq | ⟨x, hx, heq⟩
    · rw [heq]
      exact (h.node j).mono hle
    · rw [heq]
      exact (h.move hx).mono hle
  · refine BufferPacket.mono hle ?_
    cases a with
    | act i input =>
      rcases List.mem_append.mp hq with hq | hq
      · exact h.packet q hq
      · exact bufferPacket_step (h.node i) q hq
    | deliver k =>
      cases hk : s.network[k]? with
      | none =>
        simp only [Cluster.step, hk] at hq
        exact h.packet q hq
      | some q' =>
        simp only [Cluster.step, hk] at hq
        rcases List.mem_append.mp hq with hq | hq
        · exact h.packet q (List.mem_of_mem_eraseIdx hq)
        · exact bufferPacket_receive (h.tidy.node _).plain.snap q hq

end Cluster

end MyKvRaft
