import MyKvRaft.Raft.Sends
import MyKvRaft.Safety.Persistence

/-!
# Calls and their counters

Two facts that hold in every run, whatever the messages do. A cluster that starts
with empty files never deals with snapshots (`Node.Plain`). And the counter of a
request with entries belongs to that request alone and still has its first value,
1, when the reply comes: only heartbeats share a counter (`Node.Tidy`).

* `Cluster.Tidy.step`: kept by every step.
-/

namespace MyKvRaft

open Transition Raft

variable {N : ℕ}

/-- The node has no snapshot. -/
structure Raft.NoSnapshot (rf : Raft N) : Prop where
  index : rf.lastSnapshotIncludeIndex = 0
  term : rf.lastSnapshotIncludeTerm = 0

/-- The batches `batchSenderLoop` has taken and not sent yet. -/
def BatchSender.queued : BatchSender N → List (Fin N × List LogEntry)
  | .send toSend => toSend
  | .build peerId entries toSend => (peerId, entries) :: toSend
  | _ => []

def Raft.queued (rf : Raft N) : List (Fin N × List LogEntry) :=
  match rf.batchSenderThread with
  | none => []
  | some pc => pc.queued

namespace Node

/-- Nothing on the node deals with snapshots. -/
structure Plain (n : Node N) : Prop where
  snap : n.rf.NoSnapshot
  threads : n.snapshotThreads = []
  calls : n.snapshotCalls = []

/-- Two calls that may not share a counter. -/
def Apart (c c' : AppendCall N) : Prop :=
  c.rpc.args.entries ≠ [] ∨ c'.rpc.args.entries ≠ [] → c.appendNums ≠ c'.appendNums

/-- The calls of a node and their counters. -/
structure Counters (calls : List (AppendCall N)) (counters : List ℤ) : Prop where
  bound : ∀ c ∈ calls, c.appendNums < counters.length
  one : ∀ c ∈ calls, c.rpc.args.entries ≠ [] → counters[c.appendNums]? = some 1
  apart : calls.Pairwise Apart

/-- Node `i`: no snapshots, counters in order, and nothing that it sends to itself. -/
structure Tidy (i : Fin N) (n : Node N) : Prop where
  me : n.rf.me = i
  saved : n.rf.Saved
  plain : n.Plain
  counters : Counters n.calls n.counters
  queued : ∀ x ∈ n.rf.queued, x.1 ≠ i
  dst : ∀ c ∈ n.calls, c.rpc.dst ≠ i

/-! ## Counters -/

section Counters

variable {calls : List (AppendCall N)} {counters : List ℤ}

theorem Counters.sublist {calls' : List (AppendCall N)} (h : Counters calls counters)
    (hs : calls'.Sublist calls) : Counters calls' counters :=
  ⟨fun c hc => h.bound c (hs.subset hc), fun c hc => h.one c (hs.subset hc), h.apart.sublist hs⟩

/-- New calls that share a new counter: one call, or heartbeats. -/
theorem Counters.append (h : Counters calls counters) {rpcs : List (Rpc N AppendEntriesArgs)}
    (hrpcs : rpcs.length ≤ 1 ∨ ∀ r ∈ rpcs, r.args.entries = []) :
    Counters (calls ++ rpcs.map fun r => ⟨r, counters.length⟩) (counters ++ [1]) := by
  refine ⟨fun c hc => ?_, fun c hc hne => ?_, ?_⟩
  · rw [List.length_append, List.length_singleton]
    rcases List.mem_append.mp hc with hc | hc
    · have := h.bound c hc
      omega
    · obtain ⟨r, _, rfl⟩ := List.mem_map.mp hc
      exact Nat.lt_succ_self _
  · rcases List.mem_append.mp hc with hc | hc
    · rw [List.getElem?_append_left (h.bound c hc)]
      exact h.one c hc hne
    · obtain ⟨r, _, rfl⟩ := List.mem_map.mp hc
      simp
  · rw [List.pairwise_append]
    refine ⟨h.apart, ?_, fun c hc c' hc' _ => ?_⟩
    · rw [List.pairwise_map]
      rcases hrpcs with hrpcs | hrpcs
      · match rpcs, hrpcs with
        | [], _ => exact List.Pairwise.nil
        | [r], _ => exact List.pairwise_singleton _ _
      · refine List.pairwise_of_forall_mem_list fun r hr r' hr' hne => ?_
        exact absurd hne (by simp [hrpcs r hr, hrpcs r' hr'])
    · obtain ⟨r, _, rfl⟩ := List.mem_map.mp hc'
      exact (h.bound c hc).ne

/-- A call that is answered leaves the counters of the other requests with entries alone. -/
theorem Counters.answer (h : Counters calls counters) {r : Rpc N AppendEntriesArgs}
    {call : AppendCall N} (hfind : calls.find? (·.rpc = r) = some call) (k : ℤ) :
    Counters (calls.eraseP (·.rpc = r)) (counters.set call.appendNums k) := by
  obtain ⟨hp, l₁, l₂, hl, hno⟩ := List.find?_eq_some_iff_append.mp hfind
  have herase : calls.eraseP (·.rpc = r) = l₁ ++ l₂ := by
    rw [hl, List.eraseP_append_right _ fun b hb => by simpa using hno b hb, List.eraseP_cons, hp]
    rfl
  have hsub : (l₁ ++ l₂).Sublist calls := by
    rw [hl]
    exact (List.Sublist.refl l₁).append (List.sublist_cons_self _ _)
  have hrest := h.sublist hsub
  rw [herase]
  refine ⟨fun c hc => ?_, fun c hc hne => ?_, hrest.apart⟩
  · rw [List.length_set]
    exact hrest.bound c hc
  · have hpair := h.apart
    rw [hl, List.pairwise_append, List.pairwise_cons] at hpair
    have hother : call.appendNums ≠ c.appendNums := by
      rcases List.mem_append.mp hc with hc | hc
      · exact (hpair.2.2 c hc call List.mem_cons_self (Or.inl hne)).symm
      · exact hpair.2.1.1 c hc (Or.inr hne)
    rw [List.getElem?_set_ne hother]
    exact hrest.one c hc hne

end Counters

/-! ## A call that waits for its reply -/

section Call

variable {i : Fin N} {n : Node N} {r : Rpc N AppendEntriesArgs} {call : AppendCall N}

theorem call_of_find? (hfind : n.calls.find? (·.rpc = r) = some call) :
    call ∈ n.calls ∧ call.rpc = r :=
  ⟨List.mem_of_find?_eq_some hfind, by simpa using List.find?_some hfind⟩

/-- The counter of a request with entries still has its first value. -/
theorem Tidy.counter_one (h : Tidy i n) (hfind : n.calls.find? (·.rpc = r) = some call)
    (hne : r.args.entries ≠ []) : n.counters.getD call.appendNums 0 = 1 := by
  obtain ⟨hmem, rfl⟩ := call_of_find? hfind
  rw [List.getD_eq_getElem?_getD, h.counters.one call hmem hne, Option.getD_some]

theorem Tidy.dst_ne (h : Tidy i n) (hfind : n.calls.find? (·.rpc = r) = some call) : r.dst ≠ i := by
  obtain ⟨hmem, rfl⟩ := call_of_find? hfind
  exact h.dst call hmem

end Call

/-! ## Steps of a node -/

section Steps

variable {i : Fin N} {n n' : Node N}

/-- A step that leaves the calls and the snapshot point alone. -/
theorem Tidy.congr (h : Tidy i n) (hsaved : n'.rf.Saved) (hme : n'.rf.me = n.rf.me)
    (hindex : n'.rf.lastSnapshotIncludeIndex = n.rf.lastSnapshotIncludeIndex)
    (hterm : n'.rf.lastSnapshotIncludeTerm = n.rf.lastSnapshotIncludeTerm)
    (hthreads : n'.snapshotThreads = n.snapshotThreads)
    (hcalls : n'.snapshotCalls = n.snapshotCalls)
    (hcount : Counters n'.calls n'.counters) (hqueued : ∀ x ∈ n'.rf.queued, x.1 ≠ i)
    (hdst : ∀ c ∈ n'.calls, c.rpc.dst ≠ i) : Tidy i n' :=
  ⟨hme.trans h.me, hsaved, ⟨⟨hindex.trans h.plain.snap.index, hterm.trans h.plain.snap.term⟩,
    hthreads.trans h.plain.threads, hcalls.trans h.plain.calls⟩, hcount, hqueued, hdst⟩

theorem noSnapshot_restart {rf : Raft N} (hs : rf.Saved) (h : rf.NoSnapshot) :
    rf.restart.NoSnapshot := by
  have hdate : rf.restart.persistDate = rf.persistDate := (restart_persistDate rf).trans hs
  unfold persistDate at hdate
  simp only [PersistRaftNode.mk.injEq] at hdate
  exact ⟨hdate.2.2.1.trans h.index, hdate.2.2.2.1.trans h.term⟩

theorem Tidy.queued_seeTerm (h : Tidy i n) (term : ℤ) :
    ∀ x ∈ (n.rf.seeTerm term).queued, x.1 ≠ i := by
  unfold seeTerm
  split_ifs
  · exact h.queued
  · exact h.queued

theorem queued_becomeLeader {rf : Raft N} (h : ∀ x ∈ rf.queued, x.1 ≠ i) :
    ∀ x ∈ rf.becomeLeader.queued, x.1 ≠ i := by
  unfold becomeLeader startBatchSenderThread
  dsimp only
  split_ifs
  · exact h
  · simp [Raft.queued, BatchSender.queued]

theorem Tidy.restart (h : Tidy i n) : Tidy i n.restart := by
  have hqueued : n.rf.restart.queued = [] := by
    unfold Raft.queued
    rw [show n.rf.restart.batchSenderThread = none from init_batchSenderThread _ _]
  refine ⟨(init_me _ _).trans h.me, saved_restart _,
    ⟨noSnapshot_restart h.saved h.plain.snap, rfl, rfl⟩,
    ⟨by simp [Node.restart], by simp [Node.restart], List.Pairwise.nil⟩, ?_, by simp [Node.restart]⟩
  show ∀ x ∈ n.rf.restart.queued, x.1 ≠ i
  rw [hqueued]
  simp

theorem Tidy.heartBeat (h : Tidy i n) : Tidy i n.heartBeat.1 := by
  have hsaved := saved_step h.saved .heartBeat
  simp only [step] at hsaved
  unfold Node.heartBeat at hsaved ⊢
  split_ifs at hsaved ⊢
  · exact h
  · -- `nextIndex` is at least 1, so no peer is sent a snapshot
    refine ⟨h.me, hsaved, ⟨⟨h.plain.snap.index, h.plain.snap.term⟩, ?_, h.plain.calls⟩, ?_,
      h.queued, fun c hc => ?_⟩
    · have hindex : (clampNextIndex n.rf).lastSnapshotIncludeIndex = 0 := h.plain.snap.index
      dsimp only
      rw [h.plain.threads, hindex]
      simp only [List.nil_append, List.map_eq_nil_iff, List.filter_eq_nil_iff, decide_eq_true_eq]
      rintro j _ ⟨hj, hle⟩
      have : 1 ≤ (clampNextIndex n.rf).nextIndex j := clampNextIndex_pos hj
      omega
    · refine h.counters.append (Or.inr fun r hr => ?_)
      rw [(mem_heartBeatRpcs hr).2.2.1]
      rfl
    · rcases List.mem_append.mp hc with hc | hc
      · exact h.dst c hc
      · obtain ⟨r, hr, rfl⟩ := List.mem_map.mp hc
        have := (mem_heartBeatRpcs hr).2.1
        rwa [show (clampNextIndex n.rf).me = i from h.me] at this

theorem Tidy.batchSender (h : Tidy i n) (clock : Fin N → ℤ × ℤ) :
    Tidy i (n.batchSender clock).1 := by
  -- the loop only moves batches along, and takes none for the node itself
  have hmove : ∀ pc, (∀ x ∈ pc.queued, x.1 ≠ i) → Tidy i (n.setSender (some pc)) := fun pc hpc =>
    h.congr (h.saved.congr rfl rfl) rfl rfl rfl rfl rfl h.counters hpc h.dst
  have hq := h.queued
  unfold Raft.queued at hq
  unfold Node.batchSender
  split
  · exact h
  · split_ifs
    · exact hmove _ (by simp [BatchSender.queued])
    · exact h.congr (h.saved.congr rfl rfl) rfl rfl rfl rfl rfl h.counters
        (by simp [setSender, Raft.queued]) h.dst
  · refine h.congr (h.saved.congr rfl rfl) rfl rfl rfl rfl rfl h.counters ?_ h.dst
    intro x hx
    obtain ⟨j, hj, rfl⟩ := List.mem_map.mp hx
    have := (List.mem_filter.mp hj).2
    rw [h.me] at this
    simp only [decide_eq_true_eq] at this
    exact this.1
  · exact hmove _ (by simp [BatchSender.queued])
  · next peerId entries toSend hpc =>
    rw [hpc] at hq
    split_ifs
    · exact hmove _ fun x hx => hq x (List.mem_cons_of_mem _ hx)
    · exact hmove _ hq
  · next peerId entries toSend hpc =>
    rw [hpc] at hq
    let r : Rpc N AppendEntriesArgs := ⟨n.nextRpc, n.rf.me, peerId, n.rf.batchArgs entries⟩
    have hone : [r].length ≤ 1 := le_rfl
    refine h.congr (h.saved.congr rfl rfl) rfl rfl rfl rfl rfl (h.counters.append (Or.inl hone))
      (fun x hx => hq x (List.mem_cons_of_mem _ hx)) fun c hc => ?_
    rcases List.mem_append.mp hc with hc | hc
    · exact h.dst c hc
    · rw [List.mem_singleton] at hc
      subst hc
      exact hq (peerId, entries) List.mem_cons_self

theorem Tidy.step (h : Tidy i n) (input : Input N) : Tidy i (n.step input).1 := by
  have hsaved := saved_step h.saved input
  cases input with
  | electionTimeout =>
    simp only [Node.step, electionTimeout] at hsaved ⊢
    split_ifs at hsaved ⊢
    · exact h
    · exact h.congr hsaved rfl rfl rfl rfl rfl h.counters h.queued h.dst
  | requestVotes =>
    simp only [Node.step, requestVotes]
    split
    · exact h
    · split_ifs
      · exact h
      · exact h.congr h.saved rfl rfl rfl rfl rfl h.counters h.queued h.dst
      · exact h.congr h.saved rfl rfl rfl rfl rfl h.counters h.queued h.dst
      · exact h.congr h.saved rfl rfl rfl rfl rfl h.counters h.queued h.dst
  | requestVoteFails =>
    simp only [Node.step, requestVoteFails]
    split
    · exact h
    · split_ifs
      · exact h.congr h.saved rfl rfl rfl rfl rfl h.counters h.queued h.dst
      · exact h
  | start command now =>
    simp only [Node.step, Raft.start] at hsaved ⊢
    split_ifs at hsaved ⊢
    · exact h
    · exact h.congr hsaved rfl rfl rfl rfl rfl h.counters h.queued h.dst
  | heartBeat => exact h.heartBeat
  | batchSender clock => exact h.batchSender clock
  | appendFails k =>
    exact h.congr h.saved rfl rfl rfl rfl rfl (h.counters.sublist (List.eraseIdx_sublist _ _))
      h.queued fun c hc => h.dst c (List.mem_of_mem_eraseIdx hc)
  | sendSnapShot k =>
    have heq : n.sendSnapShot k = (n, []) := by
      unfold Node.sendSnapShot
      rw [h.plain.threads]
      rfl
    simp only [Node.step, heq]
    exact h
  | snapshotFails k =>
    refine h.congr h.saved rfl rfl rfl rfl ?_ h.counters h.queued h.dst
    show n.snapshotCalls.eraseIdx k = n.snapshotCalls
    rw [h.plain.calls]
    rfl
  | apply =>
    simp only [Node.step, Node.apply] at hsaved ⊢
    split_ifs at hsaved ⊢
    · exact h
    · cases happ : n.rf.applierTicker with
      | none => exact h.restart
      | some x =>
        obtain ⟨rf', msgs⟩ := x
        simp only [happ] at hsaved
        obtain ⟨rfl, _⟩ := applierTicker_eq happ
        exact h.congr hsaved rfl rfl rfl rfl rfl h.counters h.queued h.dst
  | push => exact h.congr h.saved rfl rfl rfl rfl rfl h.counters h.queued h.dst
  | crash => exact h.restart

/-- A packet that has nothing to do with snapshots. -/
def Ordinary : Packet N → Prop
  | .installSnapshot _ => False
  | .installSnapshotReply _ _ => False
  | _ => True

theorem Tidy.receive (h : Tidy i n) {q : Packet N} (hq : Ordinary q) : Tidy i (n.receive q).1 := by
  have hsaved := saved_receive h.saved q
  cases q with
  | requestVote r =>
    simp only [Node.receive, finish] at hsaved ⊢
    cases hres : n.rf.requestVote1 r.args with
    | none => exact h.restart
    | some x =>
      obtain ⟨rf', reply⟩ := x
      simp only [hres, Option.map_some] at hsaved ⊢
      have hqs := h.queued_seeTerm r.args.term
      rcases requestVote1_cases hres with ⟨_, rfl, _⟩ | ⟨_, rfl, _⟩ | ⟨_, _, _, rfl, _⟩
      · exact h.congr hsaved rfl rfl rfl rfl rfl h.counters h.queued h.dst
      · exact h.congr hsaved (by simp) (by simp) (by simp) rfl rfl h.counters hqs h.dst
      · exact h.congr hsaved (by simp) (by simp) (by simp) rfl rfl h.counters hqs h.dst
  | requestVoteReply r reply =>
    simp only [Node.receive, receiveVote] at hsaved ⊢
    cases hel : n.election with
    | none => exact h
    | some e =>
      simp only [hel] at hsaved ⊢
      split_ifs at hsaved ⊢
      · cases hres : n.rf.sendRequestVote reply e.votedNum with
        | none => exact h.restart
        | some x =>
          obtain ⟨rf', k'⟩ := x
          simp only [hres] at hsaved ⊢
          rcases sendRequestVote_cases hres with ⟨_, rfl, _⟩ | ⟨rfl, _⟩ | ⟨_, _, _, rfl, _⟩ |
            ⟨_, _, _, _, rfl, _⟩
          · exact h.congr hsaved rfl rfl rfl rfl rfl h.counters h.queued h.dst
          · exact h.congr hsaved rfl rfl rfl rfl rfl h.counters h.queued h.dst
          · exact h.congr hsaved rfl rfl rfl rfl rfl h.counters h.queued h.dst
          · obtain ⟨f1, _, _, _, _, _, _, f8, f9⟩ := becomeLeader_fields n.rf
            exact h.congr hsaved f1 f8 f9 rfl rfl h.counters (queued_becomeLeader h.queued) h.dst
      · exact h
  | appendEntries r =>
    simp only [Node.receive, finish] at hsaved ⊢
    cases hres : n.rf.appendEntries1 r.args with
    | none => exact h.restart
    | some x =>
      obtain ⟨rf', reply⟩ := x
      simp only [hres, Option.map_some] at hsaved ⊢
      have hqs := h.queued_seeTerm r.args.term
      rcases appendEntries1_cases hres with ⟨_, rfl, _⟩ | ⟨_, rfl, _⟩ | ⟨_, _, _, _, hacc⟩
      · exact h
      · exact h.congr hsaved (by simp [follow]) (by simp [follow]) (by simp [follow]) rfl rfl h.counters hqs h.dst
      · obtain ⟨logs, _, _, rfl, _⟩ := acceptEntries_cases hacc
        exact h.congr hsaved (by simp [follow]) (by simp [follow]) (by simp [follow]) rfl rfl h.counters hqs h.dst
  | appendEntriesReply r reply =>
    simp only [Node.receive, receiveAppend] at hsaved ⊢
    cases hfind : n.calls.find? (·.rpc = r) with
    | none => exact h
    | some call =>
      simp only [hfind] at hsaved ⊢
      cases hres : n.rf.sendAppendEntries r.dst r.args reply
          (n.counters.getD call.appendNums 0) with
      | none => exact h.restart
      | some x =>
        obtain ⟨rf', k'⟩ := x
        simp only [hres] at hsaved ⊢
        have hcount := h.counters.answer hfind k'
        have hdst : ∀ c ∈ n.calls.eraseP (·.rpc = r), c.rpc.dst ≠ i :=
          fun c hc => h.dst c (List.mem_of_mem_eraseP hc)
        rcases sendAppendEntries_cases hres with ⟨rfl, _⟩ | ⟨_, rfl, _⟩ | ⟨_, _, _, rfl, _⟩ |
          ⟨_, _, _, _, rfl, _⟩ | ⟨_, _, _, _, _, rfl, _⟩ | ⟨_, _, _, _, _, rfl, _⟩
        · exact h.congr hsaved rfl rfl rfl rfl rfl hcount h.queued hdst
        · exact h.congr hsaved rfl rfl rfl rfl rfl hcount h.queued hdst
        · obtain ⟨nextIdx, heq⟩ := n.rf.handleLogMismatch_eq r.dst reply
          rw [heq] at hsaved ⊢
          exact h.congr hsaved rfl rfl rfl rfl rfl hcount h.queued hdst
        · exact h.congr hsaved rfl rfl rfl rfl rfl hcount h.queued hdst
        · exact h.congr hsaved rfl rfl rfl rfl rfl hcount h.queued hdst
        · exact h.congr hsaved rfl rfl rfl rfl rfl hcount h.queued hdst
  | installSnapshot r => exact absurd hq id
  | installSnapshotReply r resp => exact absurd hq id

end Steps

/-! ## Messages -/

theorem ordinary_step {n : Node N} (h : n.Plain) (input : Input N) :
    ∀ q ∈ (n.step input).2, Ordinary q := by
  intro q hq
  cases sends_step hq with
  | snapshot ht =>
    rw [h.threads] at ht
    cases ht
  | requestVote => trivial
  | heartBeat => trivial
  | batch => trivial

theorem ordinary_receive {n : Node N} {q : Packet N} (hq : Ordinary q) :
    ∀ q' ∈ (n.receive q).2, Ordinary q' := by
  intro q' hq'
  cases sends_receive hq' with
  | install => exact absurd hq id
  | vote => trivial
  | append => trivial

end Node

/-- The nodes are tidy, and no message is about snapshots. -/
structure Cluster.Tidy (s : Cluster N) : Prop where
  node : ∀ i, (s.nodes i).Tidy i
  packet : ∀ q ∈ s.network, Node.Ordinary q

theorem Cluster.tidy_init : Tidy (Cluster.init N) where
  node i := ⟨rfl, Node.saved_init i, ⟨⟨rfl, rfl⟩, rfl, rfl⟩,
    ⟨by simp [Cluster.init, Node.init], by simp [Cluster.init, Node.init], List.Pairwise.nil⟩,
    fun x hx => (by cases hx), fun c hc => (by cases hc)⟩
  packet q hq := by simp [Cluster.init] at hq

theorem Cluster.Tidy.update {s : Cluster N} (h : Tidy s) {i : Fin N}
    {result : Node N × List (Packet N)} (hn : result.1.Tidy i)
    (hout : ∀ q ∈ result.2, Node.Ordinary q) {rest : List (Packet N)}
    (hrest : ∀ q ∈ rest, q ∈ s.network) : Tidy (s.update i result rest) where
  node j := by
    by_cases hj : j = i
    · subst hj
      simpa [Cluster.update] using hn
    · simpa [Cluster.update, hj] using h.node j
  packet q hq := by
    rcases List.mem_append.mp hq with hq | hq
    · exact h.packet q (hrest q hq)
    · exact hout q hq

theorem Cluster.Tidy.step {s : Cluster N} (h : Tidy s) (a : Action N) : Tidy (s.step a) := by
  cases a with
  | act i input =>
    exact h.update ((h.node i).step input) (Node.ordinary_step (h.node i).plain input) fun _ hq => hq
  | deliver k =>
    simp only [Cluster.step]
    cases hk : s.network[k]? with
    | none => exact h
    | some q =>
      have hq := h.packet q (List.mem_of_getElem? hk)
      exact h.update ((h.node q.target).receive hq) (Node.ordinary_receive hq)
        fun _ hq' => List.mem_of_mem_eraseIdx hq'

end MyKvRaft
