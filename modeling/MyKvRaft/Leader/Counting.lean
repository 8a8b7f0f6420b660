import MyKvRaft.Leader.Buffers

/-!
# Counting replies

`tryUpdateCommitIndex` counts the replies to one request: `*appendNums` starts at 1
for every batch, and heartbeats, which share a counter, have no entries to commit.
`leaderUpdateCommitIndex` counts the peers by `m_matchIndex`. The two agree as long
as no reply completes a majority that the first rule does not see: one to a heartbeat,
or any reply in a cluster of more than three nodes (`Tallied`).

* `commit_follows_match`: in every run of such steps, everything that the second rule
  would commit is committed.
* `commit_follows_match_fails`: in a cluster of four nodes, nothing is.
-/

namespace MyKvRaft

open Consensus Transition Raft

variable {N : ℕ}

namespace Node

/-- The peers that have confirmed the log up to `c`. -/
def matched (n : Node N) (c : ℤ) : Finset (Fin N) :=
  Finset.univ.filter fun p => p ≠ n.rf.me ∧ c ≤ n.rf.matchIndex p

/-- With a success reply to `call`, `N / 2` peers have confirmed the entry in position `k`, which
    is of the current term and not committed yet. -/
def Completes (n : Node N) (call : AppendCall N) (k : ℕ) : Prop :=
  n.rf.logs[k]?.map (·.logterm) = some n.rf.currentTerm ∧ n.rf.commitIndex < k + 1 ∧
    k + 1 ≤ call.rpc.args.prevlogindex + call.rpc.args.entries.length ∧
    N / 2 ≤ (insert call.rpc.dst (n.matched (k + 1))).card

/-- A reply that completes a majority is the reply to a batch, in a cluster of at most three
    nodes. -/
def Tallies (n : Node N) (call : AppendCall N) (reply : AppendEntriesReply) : Prop :=
  n.rf.status = .Leader → reply.term = n.rf.currentTerm → reply.success = true →
    ∀ k < n.rf.logs.length, n.Completes call k → N ≤ 3 ∧ call.rpc.args.entries ≠ []

/-- Everything of the current term that `N / 2` peers have confirmed is committed. -/
def CaughtUp (n : Node N) : Prop :=
  n.rf.status = .Leader → ∀ (k : ℕ) (f : LogEntry), n.rf.logs[k]? = some f →
    f.logterm = n.rf.currentTerm → N / 2 ≤ (n.matched (k + 1)).card → k + 1 ≤ n.rf.commitIndex

end Node

/-- Every reply of the step is counted as `leaderUpdateCommitIndex` would. -/
def Tallied (s : Cluster N) (a : Action N) : Prop :=
  ∀ x ∈ s.driven a, ∀ o ∈ (s.nodes x.1).outcome x.2, ∀ reply ∈ o.2,
    (s.nodes x.1).Tallies o.1 reply

section Decidable

variable (n : Node N) (call : AppendCall N) (reply : AppendEntriesReply) (s : Cluster N)
  (a : Action N)

instance (k : ℕ) : Decidable (n.Completes call k) :=
  inferInstanceAs (Decidable (_ ∧ _ ∧ _ ∧ _))
instance : Decidable (n.Tallies call reply) :=
  inferInstanceAs (Decidable (_ → _ → _ → ∀ k < n.rf.logs.length, _))
instance : Decidable (Tallied s a) := inferInstanceAs (Decidable (∀ x ∈ _, _))

end Decidable

namespace Node

variable {n n' : Node N}

theorem matched_mono {c : ℤ} (hme : n'.rf.me = n.rf.me)
    (hmatch : n'.rf.matchIndex = n.rf.matchIndex) : n'.matched c = n.matched c := by
  unfold matched
  rw [hme, hmatch]

/-- Nobody has confirmed an index past the end of the log. -/
theorem matched_eq_empty {c : ℤ} (h : ∀ p, n.rf.matchIndex p < c) : n.matched c = ∅ := by
  unfold matched
  rw [Finset.filter_eq_empty_iff]
  intro p _ hp
  have := h p
  omega

/-- A move that touches neither the log nor the indices of a leader. -/
theorem CaughtUp.congr (h : n.CaughtUp)
    (hl : n'.rf.status = .Leader → n.rf.status = .Leader ∧ n'.rf.currentTerm = n.rf.currentTerm)
    (hme : n'.rf.me = n.rf.me) (hlogs : n'.rf.logs = n.rf.logs)
    (hmatch : n'.rf.matchIndex = n.rf.matchIndex)
    (hcommit : n'.rf.commitIndex = n.rf.commitIndex) : n'.CaughtUp := by
  intro hl' k f hk hf hcard
  obtain ⟨hl, ht⟩ := hl hl'
  rw [hlogs] at hk
  rw [ht] at hf
  rw [matched_mono hme hmatch] at hcard
  rw [hcommit]
  exact h hl k f hk hf hcard

/-- A new entry has not been confirmed by anybody. -/
theorem CaughtUp.start {b : Ballot (Fin N) LogEntry} (h : n.CaughtUp) (hb : Buffered b n)
    (hN : 2 ≤ N) (hl : n.rf.status = .Leader) (command : Op) (now : ℤ) :
    CaughtUp { n with rf := (n.rf.start command now).1 } := by
  have hrf := start_eq hl command now
  intro _ k f hk hf hcard
  have hme : (n.rf.start command now).1.me = n.rf.me := by rw [hrf]; rfl
  have hmatch : (n.rf.start command now).1.matchIndex = n.rf.matchIndex := by rw [hrf]; rfl
  have hsame : matched { n with rf := (n.rf.start command now).1 } (k + 1) = n.matched (k + 1) :=
    matched_mono hme hmatch
  rw [hsame] at hcard
  have hk' : (n.rf.logs ++ [n.rf.newEntry command])[k]? = some f := by
    rw [hrf] at hk
    exact hk
  have hf' : f.logterm = n.rf.currentTerm := by
    rw [hrf] at hf
    exact hf
  have hcommit : (n.rf.start command now).1.commitIndex = n.rf.commitIndex := by rw [hrf]; rfl
  show _ ≤ (n.rf.start command now).1.commitIndex
  rw [hcommit]
  by_cases hlen : k < n.rf.logs.length
  · rw [List.getElem?_append_left hlen] at hk'
    exact h hl k f hk' hf' hcard
  · rw [matched_eq_empty, Finset.card_empty] at hcard
    · omega
    · intro p
      have := hb.matchIndex p
      omega

/-- A success reply: what it completes is committed. -/
theorem CaughtUp.sync {b : Ballot (Fin N) LogEntry} {i : Fin N} (h : n.CaughtUp)
    (hb : Buffered b n) (ht : Tidy i n) {r : Rpc N AppendEntriesArgs}
    {reply : AppendEntriesReply} {call : AppendCall N} {c : ℤ}
    (hfind : n.calls.find? (·.rpc = r) = some call) (hl : n.rf.status = .Leader)
    (hterm : reply.term = n.rf.currentTerm) (hs : reply.success = true)
    (hrf : n'.rf = { n.rf.synced r.dst r.args with commitIndex := c }) (hc : Counts n call c)
    (htally : n.Tallies call reply) : n'.CaughtUp := by
  obtain ⟨hmem, hcall⟩ := call_of_find? hfind
  intro _ k f hk hf hcard
  rw [hrf] at hk hf ⊢
  dsimp only [synced] at hk hf ⊢
  have hle : n.rf.commitIndex ≤ c := by
    rcases hc with ⟨_, rfl⟩ | ⟨_, rfl⟩ | rfl
    · exact le_rfl
    · exact le_rfl
    · exact le_max_left _ _
  by_contra hnot
  have hopen : n.rf.commitIndex < k + 1 := by omega
  -- the peers that have confirmed the entry now
  have hsub : n'.matched (k + 1) ⊆ insert r.dst (n.matched (k + 1)) := by
    intro p hp
    by_cases hpr : p = r.dst
    · exact hpr ▸ Finset.mem_insert_self _ _
    · refine Finset.mem_insert_of_mem ?_
      simp only [matched, Finset.mem_filter, Finset.mem_univ, true_and, hrf, synced,
        Function.update_of_ne hpr] at hp ⊢
      exact hp
  by_cases hreach : (k : ℤ) + 1 ≤ r.args.prevlogindex + r.args.entries.length
  · have hcomplete : n.Completes call k := by
      refine ⟨by rw [hk, Option.map_some, hf], hopen, ?_, ?_⟩
      · rw [hcall]
        exact hreach
      · rw [hcall]
        exact hcard.trans (Finset.card_le_card hsub)
    have hlen : k < n.rf.logs.length := (List.getElem?_eq_some_iff.mp hk).1
    obtain ⟨hN, hne⟩ := htally hl hterm hs k hlen hcomplete
    rw [hcall] at hne
    rcases hc with ⟨hfew, _⟩ | ⟨hlast, _⟩ | rfl
    · -- the counter of a batch is 1
      rw [ht.counter_one hfind hne] at hfew
      unfold majority at hfew
      omega
    · -- the last entry is not in front of this one, so it is of the current term
      cases he : r.args.entries.getLast? with
      | none => exact hne (List.getLast?_eq_none_iff.mp he)
      | some e =>
        have h1 := (hb.calls call hmem).2 e (by rw [hcall]; exact he)
        have h2 := hb.old hl _ (Or.inr (Or.inr ⟨call, hmem, rfl⟩)) e
          (by rw [hcall]; exact List.mem_of_getLast? he) (hlast e (by rw [hcall]; exact he)) k f hk hf
        rw [hcall] at h1
        omega
    · rw [hcall] at hnot
      omega
  · -- the reply does not concern this entry
    have hsame : n'.matched (k + 1) ⊆ n.matched (k + 1) := by
      intro p hp
      simp only [matched, Finset.mem_filter, Finset.mem_univ, true_and, hrf, synced,
        Function.update_apply] at hp ⊢
      refine ⟨hp.1, ?_⟩
      have hp2 := hp.2
      split_ifs at hp2 with hpr
      · rw [hpr]
        omega
      · exact hp2
    have := h hl k f hk hf (hcard.trans (Finset.card_le_card hsame))
    omega

variable {b : Ballot (Fin N) LogEntry} {i : Fin N} {x : Input N ⊕ Packet N}

/-- Every move that counts its reply right keeps the leader up to date. -/
theorem CaughtUp.move (h : n.CaughtUp) (hb : Buffered b n) (ht : Tidy i n) (hN : 2 ≤ N)
    (hm : Moves x n n') (htally : ∀ o ∈ n.outcome x, ∀ reply ∈ o.2, n.Tallies o.1 reply) :
    n'.CaughtUp := by
  cases hm with
  | restart =>
    intro hl
    have : n.restart.rf.status = .Follower := init_status _ _
    rw [this] at hl
    cases hl
  | idle hc => exact h.congr hc.leads hc.me hc.logs hc.matchIndex hc.commitIndex
  | follow _ hstatus =>
    intro hl
    rw [hstatus] at hl
    cases hl
  | win _ _ _ _ _ _ _ _ hmatch =>
    intro _ k f _ _ hcard
    rw [matched_eq_empty, Finset.card_empty] at hcard
    · omega
    · intro p
      rw [hmatch]
      omega
  | start hl => exact h.start hb hN hl _ _
  | beat hl hrf =>
    exact h.congr (fun _ => ⟨hl, by rw [hrf]; rfl⟩) (by rw [hrf]; rfl) (by rw [hrf]; rfl)
      (by rw [hrf]; rfl) (by rw [hrf]; rfl)
  | collect => exact h.congr (fun hl => ⟨hl, rfl⟩) rfl rfl rfl rfl
  | skip hrf =>
    obtain ⟨pc, hrf⟩ := hrf
    refine h.congr (fun hl => ?_) (by rw [hrf]) (by rw [hrf]) (by rw [hrf]) (by rw [hrf])
    rw [hrf] at hl ⊢
    exact ⟨hl, rfl⟩
  | build _ hrf =>
    refine h.congr (fun hl => ?_) (by rw [hrf]) (by rw [hrf]) (by rw [hrf]) (by rw [hrf])
    rw [hrf] at hl ⊢
    exact ⟨hl, rfl⟩
  | close _ _ hc => exact h.congr hc.leads hc.me hc.logs hc.matchIndex hc.commitIndex
  | @mismatch r reply _ _ _ _ _ hl _ _ hrf =>
    obtain ⟨nextIdx, heq⟩ := n.rf.handleLogMismatch_eq r.dst reply
    rw [heq] at hrf
    exact h.congr (fun _ => ⟨hl, by rw [hrf]⟩) (by rw [hrf]) (by rw [hrf]) (by rw [hrf]) (by rw [hrf])
  | @sync r reply call c _ _ ho _ hl hterm hs hrf hc =>
    exact h.sync hb ht (outcome_reply ho).1 hl hterm hs hrf hc (htally _ ho reply rfl)

end Node

/-! ## Runs -/

/-- The leaders of the state have committed every entry of their term that `N / 2` peers have
    confirmed. -/
def CommitFollowsMatch (s : Cluster N) : Prop :=
  ∀ (i : Fin N) (c : ℤ) (e : LogEntry), (s.nodes i).rf.status = .Leader →
    (s.nodes i).rf.entryAt c = some e → e.logterm = (s.nodes i).rf.currentTerm →
    N / 2 ≤ ((s.nodes i).matched c).card → c ≤ (s.nodes i).rf.commitIndex

/-- The buffers are in order, and every leader is up to date. -/
structure Tallying (s : Cluster N) (b : Ballot (Fin N) LogEntry) : Prop extends Buffers s b where
  caughtUp : ∀ i, (s.nodes i).CaughtUp

theorem tallying_init : Tallying (Cluster.init N) Ballot.empty where
  toBuffers := buffers_init
  caughtUp i hl := by cases hl

theorem Tallying.step {s : Cluster N} {b : Ballot (Fin N) LogEntry} (h : Tallying s b)
    (hN : 2 ≤ N) {a : Action N} (ha : Tallied s a) : ∃ b', b.Le b' ∧ Tallying (s.step a) b' := by
  obtain ⟨b', hle, hb'⟩ := h.toBuffers.step a
  refine ⟨b', hle, hb', fun j => ?_⟩
  rcases s.step_nodes a j with heq | ⟨x, hx, heq⟩
  · rw [heq]
    exact h.caughtUp j
  · rw [heq]
    exact (h.caughtUp j).move (h.node j) (h.tidy.node j) hN (h.tidy.moves hx) (ha (j, x) hx)

/-- In every run in which no reply completes a majority unseen, a leader has committed all that
    `N / 2` of its peers have confirmed. -/
theorem commit_follows_match (hN : 2 ≤ N) (h : List (Cluster N × Action N)) (s : Cluster N)
    (hr : Cluster.Runs Tallied h s) : CommitFollowsMatch s := by
  obtain ⟨b, hb, _⟩ := hr.simulate (R := Tallying) (F := fun _ _ _ => True) tallying_init
    (fun s a b hb hok => by
      obtain ⟨b', hle, hb'⟩ := hb.step hN hok
      exact ⟨b', hle, hb', trivial⟩)
    (fun _ _ _ _ _ _ => trivial)
  intro i c e hl he hterm hcard
  obtain ⟨k, rfl, hk⟩ := (hb.tidy.node i).plain.snap.entryAt_eq he
  exact hb.caughtUp i hl k e hk hterm hcard

open MyKvRaft.Action in
/-- Node 0 leads term 1 and starts an entry; node 1 confirms it. -/
def talliedRun : List (Action 3) :=
  electionRun ++ [put 0 1] ++ batchRound 0 ++ [.deliver 0, .deliver 1]

theorem commit_follows_match_talliedRun :
    (((Cluster.exec talliedRun).nodes 0).matched 1 = {1} ∧
      ((Cluster.exec talliedRun).nodes 0).rf.commitIndex = 1) ∧
    CommitFollowsMatch (Cluster.exec talliedRun) :=
  ⟨by decide +kernel, commit_follows_match (by decide) _ _
    (Cluster.runs_exec talliedRun (by decide +kernel))⟩

open MyKvRaft.Action in
/-- Four nodes: node 0 leads term 1 with the votes of nodes 1 and 2 and starts an entry, which
    both of them confirm. -/
def uncountedRun : List (Action 4) :=
  [timeout 0, ask 0, ask 0, .deliver 0, .deliver 0, ask 0, .deliver 0, .deliver 0, put 0 1] ++
    List.replicate 9 (flush 0) ++ [.deliver 0, .deliver 0, .deliver 1, .deliver 1]

/-- Each reply is counted alone, and two are not a majority of four: nothing is committed. -/
theorem commit_follows_match_fails : ∃ (h : List (Cluster 4 × Action 4)) (s : Cluster 4),
    Cluster.Runs anyStep h s ∧ ¬ CommitFollowsMatch s := by
  have hl : ((Cluster.exec uncountedRun).nodes 0).rf.status = .Leader := by decide +kernel
  have he : ((Cluster.exec uncountedRun).nodes 0).rf.entryAt 1 =
      some ⟨encodeOp ⟨[], [], [], [], 1⟩, 1, 1⟩ := by decide +kernel
  have ht : ((Cluster.exec uncountedRun).nodes 0).rf.currentTerm = 1 := by decide +kernel
  have hcard : 2 ≤ (((Cluster.exec uncountedRun).nodes 0).matched 1).card := by decide +kernel
  have hcommit : ((Cluster.exec uncountedRun).nodes 0).rf.commitIndex = 0 := by decide +kernel
  refine ⟨_, _, Cluster.runs_exec uncountedRun fun _ _ => trivial, fun hf => ?_⟩
  have := hf 0 1 _ hl he ht.symm hcard
  omega

end MyKvRaft
