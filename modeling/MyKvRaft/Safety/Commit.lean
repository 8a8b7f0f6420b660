import MyKvRaft.Safety.LogMatching

/-!
# Commits

A leader moves its commit index in one place, `tryUpdateCommitIndex`, on a success
reply to a request that ends in an entry of its term (`receive_raises`). The counter
of that request was 1, so the leader and the peer are a majority, and what both have
is chosen (`Replicated.chosen`).

* `commit_soundness`: in every run of clean steps, a commit index is raised only to an
  entry of the current term that a majority stores.
* `leader_completeness`: and every leader of a later term has the entries up to there.
-/

namespace MyKvRaft

open Consensus Transition Raft

variable {N : ℕ}

/-! ## Where a commit index is raised -/

namespace Node

variable {n : Node N}

theorem restart_status (n : Node N) : n.restart.rf.status = .Follower := init_status _ _

/-- Given `x`, the node fails an assertion. -/
def Fails (n : Node N) : Input N ⊕ Packet N → Prop
  | .inr (.requestVote r) => n.rf.requestVote1 r.args = none
  | .inr (.requestVoteReply r reply) => ∃ e, n.election = some e ∧ e.waiting = some r ∧
    n.rf.sendRequestVote reply e.votedNum = none
  | .inr (.appendEntries r) => n.rf.appendEntries1 r.args = none
  | .inr (.appendEntriesReply r reply) => ∃ call, n.calls.find? (·.rpc = r) = some call ∧
    n.rf.sendAppendEntries r.dst r.args reply (n.counters.getD call.appendNums 0) = none
  | _ => False

/-- Given the input, the process ends: it crashes, or `applierTicker` reads past its log. -/
def Ends (n : Node N) : Input N → Prop
  | .crash => True
  | .apply => n.rf.applierTicker = none
  | _ => False

/-- Nothing that has to do with applying has changed. -/
structure Steady (n n' : Node N) : Prop where
  commitIndex : n'.rf.commitIndex = n.rf.commitIndex
  lastApplied : n'.rf.lastApplied = n.rf.lastApplied
  applying : n'.applying = n.applying

/-- What a node does by itself: it starts again, or it applies what it has committed before. -/
theorem step_commit (input : Input N) :
    (n.Ends input ∧ (n.step input).1 = n.restart) ∨ Steady n (n.step input).1 ∨
    (input = .push ∧ (n.step input).1 = { n with applying := n.applying.tail }) ∨
    ∃ rf' msgs, n.applying = [] ∧ n.rf.applierTicker = some (rf', msgs) ∧
      (n.step input).1 = { n with rf := rf', applying := msgs } := by
  cases input with
  | electionTimeout =>
    simp only [step, electionTimeout]
    split_ifs
    · exact Or.inr (Or.inl ⟨rfl, rfl, rfl⟩)
    · exact Or.inr (Or.inl ⟨rfl, rfl, rfl⟩)
  | requestVotes =>
    refine Or.inr (Or.inl ?_)
    simp only [step, requestVotes]
    split
    · exact ⟨rfl, rfl, rfl⟩
    · split_ifs <;> exact ⟨rfl, rfl, rfl⟩
  | requestVoteFails =>
    refine Or.inr (Or.inl ?_)
    simp only [step, requestVoteFails]
    split
    · exact ⟨rfl, rfl, rfl⟩
    · split_ifs <;> exact ⟨rfl, rfl, rfl⟩
  | start command now =>
    refine Or.inr (Or.inl ?_)
    simp only [step, Raft.start]
    split_ifs
    · exact ⟨rfl, rfl, rfl⟩
    · exact ⟨rfl, rfl, rfl⟩
  | heartBeat =>
    refine Or.inr (Or.inl ?_)
    simp only [step, heartBeat]
    split_ifs
    · exact ⟨rfl, rfl, rfl⟩
    · exact ⟨rfl, rfl, rfl⟩
  | batchSender clock =>
    refine Or.inr (Or.inl ?_)
    simp only [step, batchSender]
    split
    · exact ⟨rfl, rfl, rfl⟩
    · split_ifs <;> exact ⟨rfl, rfl, rfl⟩
    · exact ⟨rfl, rfl, rfl⟩
    · exact ⟨rfl, rfl, rfl⟩
    · split_ifs <;> exact ⟨rfl, rfl, rfl⟩
    · exact ⟨rfl, rfl, rfl⟩
  | sendSnapShot k =>
    refine Or.inr (Or.inl ?_)
    simp only [step, sendSnapShot]
    split
    · exact ⟨rfl, rfl, rfl⟩
    · exact ⟨rfl, rfl, rfl⟩
  | apply =>
    simp only [step, apply]
    split_ifs with hbusy
    · exact Or.inr (Or.inl ⟨rfl, rfl, rfl⟩)
    · cases happ : n.rf.applierTicker with
      | none => exact Or.inl ⟨happ, rfl⟩
      | some x => exact Or.inr (Or.inr (Or.inr ⟨x.1, x.2, not_not.mp hbusy, rfl, rfl⟩))
  | appendFails k => exact Or.inr (Or.inl ⟨rfl, rfl, rfl⟩)
  | snapshotFails k => exact Or.inr (Or.inl ⟨rfl, rfl, rfl⟩)
  | push => exact Or.inr (Or.inr (Or.inl ⟨rfl, rfl⟩))
  | crash => exact Or.inl ⟨trivial, rfl⟩

/-- By itself a node that leads leaves its commit index alone. -/
theorem step_commitIndex {input : Input N} (hl : (n.step input).1.rf.status = .Leader) :
    (n.step input).1.rf.commitIndex = n.rf.commitIndex := by
  rcases n.step_commit input with ⟨_, h⟩ | h | ⟨_, h⟩ | ⟨rf', msgs, _, happ, h⟩
  · rw [h, restart_status] at hl
    cases hl
  · exact h.commitIndex
  · rw [h]
  · rw [h, (applierTicker_eq happ).1]

/-- The reply `reply` to `r` makes the node, which leads, raise its commit index to the end of
    the request. -/
structure Raised (n : Node N) (r : Rpc N AppendEntriesArgs) (reply : AppendEntriesReply) :
    Prop where
  leads : n.rf.status = .Leader
  term : reply.term = n.rf.currentTerm
  success : reply.success = true
  count : ∃ call, n.calls.find? (·.rpc = r) = some call ∧
    majority N ≤ n.counters.getD call.appendNums 0 + 1
  last : ∃ e, r.args.entries.getLast? = some e ∧ e.logterm = n.rf.currentTerm
  result : (n.receive (.appendEntriesReply r reply)).1.rf = { n.rf.synced r.dst r.args with
    commitIndex := max n.rf.commitIndex (r.args.prevlogindex + r.args.entries.length) }
  applying : (n.receive (.appendEntriesReply r reply)).1.applying = n.applying

theorem requestVote_commit (r : Rpc N RequestVoteArgs) :
    (n.Fails (.inr (.requestVote r)) ∧ (n.receive (.requestVote r)).1 = n.restart) ∨
      Steady n (n.receive (.requestVote r)).1 := by
  simp only [receive, finish]
  cases hres : n.rf.requestVote1 r.args with
  | none => exact Or.inl ⟨hres, rfl⟩
  | some x =>
    obtain ⟨rf', reply⟩ := x
    refine Or.inr ?_
    rcases requestVote1_cases hres with ⟨_, rfl, _⟩ | ⟨_, rfl, _⟩ | ⟨_, _, _, rfl, _⟩
    · exact ⟨rfl, rfl, rfl⟩
    · exact ⟨by simp, by simp, rfl⟩
    · exact ⟨by simp, by simp, rfl⟩

theorem requestVoteReply_commit (r : Rpc N RequestVoteArgs) (reply : RequestVoteReply) :
    (n.Fails (.inr (.requestVoteReply r reply)) ∧
        (n.receive (.requestVoteReply r reply)).1 = n.restart) ∨
      Steady n (n.receive (.requestVoteReply r reply)).1 := by
  simp only [receive, receiveVote]
  cases hel : n.election with
  | none => exact Or.inr ⟨rfl, rfl, rfl⟩
  | some e =>
    dsimp only
    split_ifs with hw
    · cases hres : n.rf.sendRequestVote reply e.votedNum with
      | none => exact Or.inl ⟨⟨e, hel, hw, hres⟩, rfl⟩
      | some x =>
        obtain ⟨rf', k'⟩ := x
        refine Or.inr ?_
        obtain ⟨_, _, _, _, _, hcommit, hlast, _⟩ := becomeLeader_fields n.rf
        rcases sendRequestVote_cases hres with ⟨_, rfl, _⟩ | ⟨rfl, _⟩ | ⟨_, _, _, rfl, _⟩ |
          ⟨_, _, _, _, rfl, _⟩
        · exact ⟨rfl, rfl, rfl⟩
        · exact ⟨rfl, rfl, rfl⟩
        · exact ⟨rfl, rfl, rfl⟩
        · exact ⟨hcommit, hlast, rfl⟩
    · exact Or.inr ⟨rfl, rfl, rfl⟩

theorem appendEntries_commit (r : Rpc N AppendEntriesArgs) :
    (n.Fails (.inr (.appendEntries r)) ∧ (n.receive (.appendEntries r)).1 = n.restart) ∨
    Steady n (n.receive (.appendEntries r)).1 ∨
    ∃ rf' reply, n.rf.appendEntries1 r.args = some (rf', reply) ∧ n.rf.Accepts r.args ∧
      (n.rf.follow r.args.term).acceptEntries r.args = some (rf', reply) ∧
      (n.receive (.appendEntries r)).1 = { n with rf := rf' } := by
  simp only [receive, finish]
  cases hres : n.rf.appendEntries1 r.args with
  | none => exact Or.inl ⟨hres, rfl⟩
  | some x =>
    obtain ⟨rf', reply⟩ := x
    rcases appendEntries1_cases hres with ⟨_, rfl, _⟩ | ⟨_, rfl, _⟩ | ⟨h1, h2, h3, h4, hacc⟩
    · exact Or.inr (Or.inl ⟨rfl, rfl, rfl⟩)
    · exact Or.inr (Or.inl ⟨by simp [follow], by simp [follow], rfl⟩)
    · exact Or.inr (Or.inr ⟨rf', reply, rfl, ⟨h1, h2, h3, h4⟩, hacc, rfl⟩)

theorem appendEntriesReply_commit (r : Rpc N AppendEntriesArgs) (reply : AppendEntriesReply) :
    (n.Fails (.inr (.appendEntriesReply r reply)) ∧
        (n.receive (.appendEntriesReply r reply)).1 = n.restart) ∨
      Steady n (n.receive (.appendEntriesReply r reply)).1 ∨ Raised n r reply := by
  cases hfind : n.calls.find? (·.rpc = r) with
  | none =>
    refine Or.inr (Or.inl ?_)
    simp only [receive, receiveAppend, hfind]
    exact ⟨rfl, rfl, rfl⟩
  | some call =>
    cases hres : n.rf.sendAppendEntries r.dst r.args reply
        (n.counters.getD call.appendNums 0) with
    | none =>
      refine Or.inl ⟨⟨call, hfind, hres⟩, ?_⟩
      simp only [receive, receiveAppend, hfind, hres]
    | some x =>
      obtain ⟨rf', k'⟩ := x
      have heq : (n.receive (.appendEntriesReply r reply)).1 =
          { n with
            rf := rf'
            calls := n.calls.eraseP (·.rpc = r)
            counters := n.counters.set call.appendNums k' } := by
        simp only [receive, receiveAppend, hfind, hres]
      rcases sendAppendEntries_cases hres with ⟨rfl, _⟩ | ⟨_, rfl, _⟩ | ⟨_, _, _, rfl, _⟩ |
        ⟨_, _, _, _, rfl, _⟩ | ⟨_, _, _, _, _, rfl, _⟩ | ⟨h1, h2, h3, h4, h5, rfl, _⟩
      · rw [heq]
        exact Or.inr (Or.inl ⟨rfl, rfl, rfl⟩)
      · rw [heq]
        exact Or.inr (Or.inl ⟨rfl, rfl, rfl⟩)
      · obtain ⟨nextIdx, hm⟩ := n.rf.handleLogMismatch_eq r.dst reply
        rw [heq, hm]
        exact Or.inr (Or.inl ⟨rfl, rfl, rfl⟩)
      · rw [heq]
        exact Or.inr (Or.inl ⟨rfl, rfl, rfl⟩)
      · rw [heq]
        exact Or.inr (Or.inl ⟨rfl, rfl, rfl⟩)
      · refine Or.inr (Or.inr ⟨h1, h2, h3, ⟨call, hfind, h4⟩, h5, ?_, ?_⟩)
        · rw [heq]
        · rw [heq]

/-- What a message does: the node starts again, its commit index does not move, it accepts a
    request, or it raises its commit index on a reply. -/
theorem receive_commit {q : Packet N} (hq : Ordinary q) :
    (n.Fails (.inr q) ∧ (n.receive q).1 = n.restart) ∨ Steady n (n.receive q).1 ∨
    (∃ r rf' reply, q = .appendEntries r ∧ n.rf.appendEntries1 r.args = some (rf', reply) ∧
      n.rf.Accepts r.args ∧ (n.rf.follow r.args.term).acceptEntries r.args = some (rf', reply) ∧
      (n.receive q).1 = { n with rf := rf' }) ∨
    ∃ r reply, q = .appendEntriesReply r reply ∧ Raised n r reply := by
  cases q with
  | requestVote r => exact (n.requestVote_commit r).imp_right Or.inl
  | requestVoteReply r reply => exact (n.requestVoteReply_commit r reply).imp_right Or.inl
  | appendEntries r =>
    rcases n.appendEntries_commit r with hend | hsteady | ⟨rf', reply, hres, haccepts, hacc, heq⟩
    · exact Or.inl hend
    · exact Or.inr (Or.inl hsteady)
    · exact Or.inr (Or.inr (Or.inl ⟨r, rf', reply, rfl, hres, haccepts, hacc, heq⟩))
  | appendEntriesReply r reply =>
    rcases n.appendEntriesReply_commit r reply with hend | hsteady | hraised
    · exact Or.inl hend
    · exact Or.inr (Or.inl hsteady)
    · exact Or.inr (Or.inr (Or.inr ⟨r, reply, rfl, hraised⟩))
  | installSnapshot r => exact absurd hq id
  | installSnapshotReply r resp => exact absurd hq id

/-- The one place where the commit index of a leader moves. -/
theorem receive_raises {q : Packet N} (hq : Ordinary q)
    (hl : (n.receive q).1.rf.status = .Leader)
    (hne : (n.receive q).1.rf.commitIndex ≠ n.rf.commitIndex) :
    ∃ r reply, q = .appendEntriesReply r reply ∧ Raised n r reply := by
  rcases n.receive_commit hq with ⟨_, h⟩ | h | ⟨r, rf', reply, rfl, _, _, hacc, h⟩ | h
  · rw [h, restart_status] at hl
    cases hl
  · exact absurd h.commitIndex hne
  · obtain ⟨logs, _, _, rfl, _⟩ := acceptEntries_cases hacc
    rw [h] at hl
    cases hl
  · exact h

end Node

/-- In the step `a` from `s`, the leader `i` raises its commit index to `c`. -/
def Raises (s : Cluster N) (a : Action N) (i : Fin N) (c : ℤ) : Prop :=
  (s.nodes i).rf.commitIndex < c ∧ ((s.step a).nodes i).rf.commitIndex = c ∧
    ((s.step a).nodes i).rf.status = .Leader

instance (s : Cluster N) (a : Action N) (i : Fin N) (c : ℤ) : Decidable (Raises s a i c) :=
  inferInstanceAs (Decidable (_ ∧ _ ∧ _))

/-- A leader raises its commit index only on a reply. -/
theorem Raises.deliver {s : Cluster N} {a : Action N} {i : Fin N} {c : ℤ} (h : Raises s a i c) :
    ∃ k q, a = .deliver k ∧ s.network[k]? = some q ∧ q.target = i ∧
      ((s.step a).nodes i) = ((s.nodes i).receive q).1 := by
  obtain ⟨h1, h2, h3⟩ := h
  cases a with
  | act j input =>
    exfalso
    simp only [Cluster.step, Cluster.update] at h2 h3
    by_cases hj : i = j
    · subst hj
      rw [Function.update_self] at h2 h3
      rw [Node.step_commitIndex h3] at h2
      omega
    · rw [Function.update_of_ne hj] at h2
      omega
  | deliver k =>
    cases hk : s.network[k]? with
    | none =>
      exfalso
      rw [step_deliver_none hk] at h2
      omega
    | some q =>
      simp only [Cluster.step, hk, Cluster.update] at h2 ⊢
      by_cases hj : i = q.target
      · subst hj
        exact ⟨k, q, rfl, hk, rfl, by rw [Function.update_self]⟩
      · exfalso
        rw [Function.update_of_ne hj] at h2
        omega

/-! ## What is committed is chosen -/

/-- A commit as the ledger sees it: `c` is chosen in the term of the leader `i`, and the nodes of
    a majority, `i` among them, agree up to there. -/
structure Committed (p : Ledger (Fin N) LogEntry) (s : Cluster N) (a : Action N) (i : Fin N)
    (c : ℤ) : Prop where
  index : c = c.toNat
  term : ((s.step a).nodes i).rf.currentTerm = p.term i
  chosen : p.Chosen (p.term i) c.toNat
  stored : ∃ Q : Finset (Fin N), i ∈ Q ∧ N / 2 + 1 ≤ Q.card ∧
    ∀ j ∈ Q, c.toNat ≤ p.ack j (p.term i)

/-- The last entry of a slice. -/
theorem getLast?_slice {l entries : List LogEntry} {k : ℕ} {e : LogEntry}
    (hlen : k + entries.length ≤ l.length) (hs : entries = (l.drop k).take entries.length)
    (he : entries.getLast? = some e) : l[k + entries.length - 1]? = some e := by
  have hpos : 0 < entries.length := by
    refine List.length_pos_iff.mpr ?_
    rintro rfl
    cases he
  rw [List.getLast?_eq_getElem?, hs, List.length_take, List.length_drop,
    Nat.min_eq_left (by omega), List.getElem?_take_of_lt (by omega), List.getElem?_drop] at he
  rw [← he]
  congr 1
  omega

/-- A leader raises its commit index only to what is chosen: the counter of the request was 1,
    so the leader and the peer that has answered are a majority. -/
theorem Replicated.committed {s : Cluster N} {p : Ledger (Fin N) LogEntry} (h : Replicated s p)
    {a : Action N} {i : Fin N} {c : ℤ} (hr : Raises s a i c) : Committed p s a i c := by
  obtain ⟨k, q, rfl, hk, rfl, hnode⟩ := hr.deliver
  have hq := List.mem_of_getElem? hk
  obtain ⟨hlt, hc, hl⟩ := hr
  rw [hnode] at hc hl
  obtain ⟨r, reply, rfl, hraised⟩ := Node.receive_raises (h.tidy.packet q hq) hl (by omega)
  obtain ⟨hlead, hterm, hsucc, ⟨call, hfind, hmaj⟩, ⟨e, hlast, hte⟩, hrf, _⟩ := hraised
  simp only [Packet.target] at hlt hfind hlead hterm hmaj hte hrf hc ⊢
  -- the reply belongs to a request of this term, with entries
  obtain ⟨hsl, hprev, hrterm, hack⟩ := h.packet _ hq hsucc
  have hv := h.elections.node r.src
  have ht : r.args.term.toNat = p.term r.src := by
    have := hv.term
    omega
  rw [ht] at hack
  obtain ⟨hlen, hslice, _⟩ := hsl.slice hprev
  rw [ht] at hlen hslice
  have hne : r.args.entries ≠ [] := by
    intro h0
    rw [h0] at hlast
    cases hlast
  have hdst : r.dst ≠ r.src := (h.tidy.node r.src).dst_ne hfind
  have hN : N / 2 + 1 ≤ 2 := by
    rw [(h.tidy.node r.src).counter_one hfind hne] at hmaj
    unfold majority at hmaj
    omega
  have hc' : c = r.args.prevlogindex + r.args.entries.length := by
    rw [hrf] at hc
    dsimp only at hc
    omega
  have hnat : c.toNat = r.args.prevlogindex.toNat + r.args.entries.length := by
    have := hsl.prev
    omega
  have hself : c.toNat ≤ p.ack r.src (p.term r.src) := by
    rw [h.sound.leader_ack (hv.lead hlead).1, hnat]
    exact hlen
  have hcard : ({r.src, r.dst} : Finset (Fin N)).card = 2 := Finset.card_pair hdst.symm
  have hacks : ∀ j ∈ ({r.src, r.dst} : Finset (Fin N)), c.toNat ≤ p.ack j (p.term r.src) := by
    intro j hj
    rcases Finset.mem_insert.mp hj with rfl | hj
    · exact hself
    · rw [Finset.mem_singleton.mp hj, hnat]
      exact hack
  have hsame : ((s.step (.deliver k)).nodes r.src).rf.currentTerm = p.term r.src := by
    refine Eq.trans ?_ hv.term
    exact (congrArg (·.rf.currentTerm) hnode).trans (congrArg (·.currentTerm) hrf)
  refine ⟨by have := hsl.prev; omega, hsame, ⟨?_, _, ?_, hacks⟩,
    _, Finset.mem_insert_self _ _, ?_, hacks⟩
  · have hpos : 0 < r.args.entries.length := List.length_pos_iff.mpr hne
    refine ⟨c.toNat - 1, e, by omega, ?_, ?_⟩
    · rw [hnat]
      exact getLast?_slice hlen hslice hlast
    · show e.logterm.toNat = _
      rw [hte, hv.term, Int.toNat_natCast]
  · unfold Majority
    rw [hcard, Fintype.card_fin]
    omega
  · rw [hcard]
    exact hN


/-! ## Commit soundness -/

/-- Whoever agreed up to a chosen entry has that entry. -/
theorem Replicated.entryAt_of_ack {s : Cluster N} {p : Ledger (Fin N) LogEntry}
    (h : Replicated s p) {t k : ℕ} {e : LogEntry} (hc : p.Chosen t (k + 1))
    (he : (p.lead t)[k]? = some e) {j : Fin N} (hj : k + 1 ≤ p.ack j t) :
    (s.nodes j).rf.entryAt (k + 1) = some e := by
  rw [(h.tidy.node j).plain.snap.entryAt_succ, (h.node j).log]
  refine getElem?_of_isPrefix (hc.in_log h.sound hj) ?_
  rw [List.getElem?_take_of_lt (by omega), he]

/-- The nodes that have stored at index `c` an entry with the term and command of `e`. -/
def storedAt (s : Cluster N) (c : ℤ) (e : LogEntry) : Finset (Fin N) :=
  Finset.univ.filter fun j => ∃ f ∈ (s.nodes j).rf.entryAt c,
    f.logterm = e.logterm ∧ f.command = e.command

/-- What a leader commits in the step `a` from `s` is an entry of its term that a majority has
    stored. -/
def CommitSound (s : Cluster N) (a : Action N) : Prop :=
  ∀ (i : Fin N) (c : ℤ), Raises s a i c →
    ∃ e, ((s.step a).nodes i).rf.entryAt c = some e ∧
      e.logterm = ((s.step a).nodes i).rf.currentTerm ∧ N / 2 + 1 ≤ (storedAt (s.step a) c e).card

theorem Replicated.commitSound {s : Cluster N} {p p' : Ledger (Fin N) LogEntry} {a : Action N}
    (h : Replicated s p) (hle : p.Le p') (h' : Replicated (s.step a) p') : CommitSound s a := by
  intro i c hr
  obtain ⟨hindex, hterm, hc, Q, hi, hQ, hacks⟩ := h.committed hr
  have hc' := hc.mono h.sound hle
  obtain ⟨k, e, hk, he, hte⟩ := hc'.1
  rw [hindex, hk]
  rw [hk] at hc' hacks
  have hstored : ∀ j ∈ Q, ((s.step a).nodes j).rf.entryAt (k + 1) = some e := fun j hj =>
    h'.entryAt_of_ack hc' he ((hacks j hj).trans (hle.ack _ _))
  push_cast
  refine ⟨e, hstored i hi, ?_, hQ.trans (Finset.card_le_card fun j hj => ?_)⟩
  · have hnonneg := (h'.numbered _ k e he).2
    rw [hterm, ← hte]
    exact (Int.toNat_of_nonneg hnonneg).symm
  · exact Finset.mem_filter.mpr ⟨Finset.mem_univ _, e, hstored j hj, rfl, rfl⟩

/-- In every run of clean steps, a leader commits only entries of its term that a majority has
    stored. -/
theorem commit_soundness (h : List (Cluster N × Action N)) (s : Cluster N)
    (hr : Cluster.Runs Clean h s) : ∀ x ∈ h, CommitSound x.1 x.2 := by
  obtain ⟨_, _, hF⟩ := hr.simulate (R := Replicated) (F := fun s a _ => CommitSound s a)
    replicated_init
    (fun s a p hp hok => by
      obtain ⟨p', hle, hp'⟩ := hp.step hok
      exact ⟨p', hle, hp', hp.commitSound hle hp'⟩)
    (fun _ _ _ _ _ hF => hF)
  exact hF

/-- Node 1 commits its entry when node 0 has answered. -/
def commitRun : List (Action 3) := cleanRun ++ [.deliver 2]

theorem commit_soundness_commitRun :
    Raises (Cluster.exec cleanRun) (.deliver 2) 1 1 ∧
      ∀ x ∈ Cluster.trace commitRun, CommitSound x.1 x.2 :=
  ⟨by decide +kernel, commit_soundness _ _ (Cluster.runs_exec commitRun (by decide +kernel))⟩

open MyKvRaft.Action in
/-- Node 0 leads term 1 and leaves an entry in its buffers. Node 1 leads term 2 and gives node 0
    two entries. Node 0 leads term 3 and starts a third: its batch, the entries at 1 and 3, is
    stored by node 2 as if it were consecutive. -/
def staleBatchRun : List (Action 3) :=
  [timeout 0, ask 0, ask 0, .deliver 0, .deliver 0, put 0 1,
    timeout 1, ask 1, voteLost 1, ask 1, ask 1, .deliver 1, .deliver 1, put 1 5, put 1 6] ++
  batchRound 1 ++
  [.deliver 1, ask 0, voteLost 0, ask 0, voteLost 0, ask 0, timeout 0, ask 0, ask 0, voteLost 0,
    ask 0, .deliver 5, .deliver 5, put 0 9] ++ batchRound 0 ++ [.deliver 6]

theorem staleBatchRun_raises : Raises (Cluster.exec staleBatchRun) (.deliver 6) 0 2 := by
  decide +kernel

/-- Node 0 commits index 2, where its own entry is of term 2 and not of term 3. -/
theorem commit_soundness_fails : ∃ (h : List (Cluster 3 × Action 3)) (s : Cluster 3),
    Cluster.Runs anyStep h s ∧ ∃ x ∈ h, ¬ CommitSound x.1 x.2 := by
  have hentry : ∀ e ∈ (((Cluster.exec staleBatchRun).step (.deliver 6)).nodes 0).rf.entryAt 2,
      e.logterm ≠ (((Cluster.exec staleBatchRun).step (.deliver 6)).nodes 0).rf.currentTerm := by
    decide +kernel
  refine ⟨_, _, Cluster.runs_exec (staleBatchRun ++ [.deliver 6]) fun _ _ => trivial,
    (Cluster.exec staleBatchRun, .deliver 6), Cluster.mem_trace staleBatchRun (.deliver 6) [], ?_⟩
  dsimp only
  intro hs
  obtain ⟨e, he, hterm, _⟩ := hs 0 2 staleBatchRun_raises
  exact hentry e he hterm

/-! ## Leader completeness -/

/-- The leaders of a state as the ledger remembers them. -/
structure Remembered (p : Ledger (Fin N) LogEntry) (s : Cluster N) : Prop where
  tidy : s.Tidy
  leader : ∀ j T, Leads s j T → 0 ≤ T ∧ p.leader T.toNat = some j ∧
    Extends T.toNat (s.nodes j).rf.logs (p.lead T.toNat)

theorem Replicated.remembered {s : Cluster N} {p : Ledger (Fin N) LogEntry} (h : Replicated s p) :
    Remembered p s := by
  refine ⟨h.tidy, fun j T hl => ?_⟩
  have hv := h.elections.node j
  obtain ⟨h1, h2⟩ := hv.lead hl.1
  have ht : T.toNat = p.term j := by rw [← hl.2, hv.term, Int.toNat_natCast]
  refine ⟨by have := hv.term; have := hl.2; omega, h.elections.leader hl, ?_⟩
  rw [ht, ← h2]
  exact Extends.refl _ _

theorem Remembered.mono {s : Cluster N} {p p' : Ledger (Fin N) LogEntry} (h : Remembered p s)
    (hle : p.Le p') : Remembered p' s := by
  refine ⟨h.tidy, fun j T hl => ?_⟩
  obtain ⟨h0, h1, h2⟩ := h.leader j T hl
  exact ⟨h0, hle.ballot.leader h1, h2.trans (hle.ballot.lead h1)⟩

/-- A commit as the ledger remembers it. -/
def CommitRemembered (p : Ledger (Fin N) LogEntry) (s : Cluster N) (a : Action N) : Prop :=
  ∀ i c, Raises s a i c →
    p.Chosen ((s.step a).nodes i).rf.currentTerm.toNat c.toNat ∧ Remembered p (s.step a)

theorem CommitRemembered.mono {s : Cluster N} {a : Action N} {p p' : Ledger (Fin N) LogEntry}
    (h : CommitRemembered p s a) (hle : p.Le p') : CommitRemembered p' s a := by
  intro i c hr
  obtain ⟨hc, hpost⟩ := h i c hr
  have hleader := (hpost.leader i _ ⟨hr.2.2, rfl⟩).2.1
  exact ⟨hc.of_isPrefix hle (hle.ballot.lead hleader).isPrefix, hpost.mono hle⟩

/-- Node `j`, in state `s'`, has the entries that node `i` has in state `s`, up to index `c`. -/
def HoldsUpTo (s : Cluster N) (i : Fin N) (s' : Cluster N) (j : Fin N) (c : ℤ) : Prop :=
  ∀ (k : ℤ) (e : LogEntry), k ≤ c → (s.nodes i).rf.entryAt k = some e →
    ∃ f, (s'.nodes j).rf.entryAt k = some f ∧ f.logterm = e.logterm ∧ f.command = e.command

theorem holdsUpTo_of_chosen {p : Ledger (Fin N) LogEntry} (hs : p.Sound) {s s' : Cluster N}
    {i j : Fin N} {T T' c : ℤ} (h : Remembered p s) (h' : Remembered p s') (hi : Leads s i T)
    (hj : Leads s' j T') (hT : T < T') (hc : p.Chosen T.toNat c.toNat) : HoldsUpTo s i s' j c := by
  obtain ⟨h0, _, hext⟩ := h.leader i T hi
  obtain ⟨_, hl', hext'⟩ := h'.leader j T' hj
  have hpre := hc.in_early_lead hs (u := T'.toNat) (by omega) (by rw [hl']; simp) hext'
  intro k e hk he
  obtain ⟨m, rfl, hm⟩ := (h.tidy.node i).plain.snap.entryAt_eq he
  refine ⟨e, ?_, rfl, rfl⟩
  rw [(h'.tidy.node j).plain.snap.entryAt_succ]
  refine getElem?_of_isPrefix hpre ?_
  rw [List.getElem?_take_of_lt (by omega)]
  exact getElem?_of_isPrefix hext.isPrefix hm

/-- In every run of clean steps, what a leader of term `T` commits is in the log of every leader
    of a later term, in every state of the run in which it leads. -/
theorem leader_completeness (h : List (Cluster N × Action N)) (s : Cluster N)
    (hr : Cluster.Runs Clean h s) :
    ∀ x ∈ h, ∀ (i : Fin N) (c : ℤ), Raises x.1 x.2 i c →
    ∀ s', (s' = s ∨ ∃ a, (s', a) ∈ h) → ∀ (j : Fin N) (T : ℤ), Leads s' j T →
      ((x.1.step x.2).nodes i).rf.currentTerm < T → HoldsUpTo (x.1.step x.2) i s' j c := by
  obtain ⟨p, hp, hF⟩ := hr.simulate (R := Replicated)
    (F := fun s a p => Remembered p s ∧ CommitRemembered p s a) replicated_init
    (fun s a p hp hok => by
      obtain ⟨p', hle, hp'⟩ := hp.step hok
      refine ⟨p', hle, hp', hp.remembered.mono hle, fun i c hraise => ⟨?_, hp'.remembered⟩⟩
      have hc := hp.committed hraise
      rw [hc.term, Int.toNat_natCast]
      exact hc.chosen.mono hp.sound hle)
    (fun s a p p' hle hF => ⟨hF.1.mono hle, hF.2.mono hle⟩)
  intro x hx i c hraise s' hs' j T hj hT
  obtain ⟨hc, hpost⟩ := (hF x hx).2 i c hraise
  have hseen : Remembered p s' := by
    rcases hs' with rfl | ⟨a, ha⟩
    · exact hp.remembered
    · exact (hF _ ha).1
  exact holdsUpTo_of_chosen hp.sound hpost hseen ⟨hraise.2.2, rfl⟩ hj hT hc

open MyKvRaft.Action in
/-- Node 0 leads term 3 after node 1 has committed its entry of term 2. -/
def takeoverRun : List (Action 3) :=
  commitRun ++ [ask 0, voteLost 0, ask 0, timeout 0, ask 0, ask 0, voteLost 0, ask 0, .deliver 4,
    .deliver 4]

theorem leader_completeness_takeoverRun :
    (Raises (Cluster.exec cleanRun) (.deliver 2) 1 1 ∧ Leads (Cluster.exec takeoverRun) 0 3) ∧
      HoldsUpTo ((Cluster.exec cleanRun).step (.deliver 2)) 1 (Cluster.exec takeoverRun) 0 1 := by
  have hraises : Raises (Cluster.exec cleanRun) (.deliver 2) 1 1 := by decide +kernel
  have hleads : Leads (Cluster.exec takeoverRun) 0 3 := by decide +kernel
  have hlt : (((Cluster.exec cleanRun).step (.deliver 2)).nodes 1).rf.currentTerm < 3 := by
    decide +kernel
  refine ⟨⟨hraises, hleads⟩, ?_⟩
  exact leader_completeness _ _ (Cluster.runs_exec takeoverRun (by decide +kernel))
    (Cluster.exec cleanRun, .deliver 2) (Cluster.mem_trace cleanRun (.deliver 2) _) 1 1 hraises
    _ (Or.inl rfl) 0 3 hleads hlt

open MyKvRaft.Action in
/-- In the run of `staleSuffixRun`, node 1 commits index 3 when node 0 has answered; then node 2
    leads term 3 with the vote of node 0, whose last entry is of term 1. -/
def lostCommitRun : List (Action 3) :=
  staleSuffixRun ++ [.deliver 4, timeout 2, ask 2, .deliver 4, .deliver 4]

theorem leader_completeness_fails : ∃ (h : List (Cluster 3 × Action 3)) (s : Cluster 3),
    Cluster.Runs anyStep h s ∧ ∃ x ∈ h, ∃ (i j : Fin 3) (c T : ℤ), Raises x.1 x.2 i c ∧
      Leads s j T ∧ ((x.1.step x.2).nodes i).rf.currentTerm < T ∧
      ¬ HoldsUpTo (x.1.step x.2) i s j c := by
  have hraises : Raises (Cluster.exec staleSuffixRun) (.deliver 4) 1 3 := by decide +kernel
  have hleads : Leads (Cluster.exec lostCommitRun) 2 3 := by decide +kernel
  have hlt : (((Cluster.exec staleSuffixRun).step (.deliver 4)).nodes 1).rf.currentTerm < 3 := by
    decide +kernel
  have hentry : (((Cluster.exec staleSuffixRun).step (.deliver 4)).nodes 1).rf.entryAt 2 =
      some ⟨encodeOp ⟨[], [], [], [], 6⟩, 2, 2⟩ := by decide +kernel
  have hnone : ((Cluster.exec lostCommitRun).nodes 2).rf.entryAt 2 = none := by decide +kernel
  refine ⟨_, _, Cluster.runs_exec lostCommitRun fun _ _ => trivial,
    (Cluster.exec staleSuffixRun, .deliver 4), Cluster.mem_trace staleSuffixRun (.deliver 4) _, ?_⟩
  dsimp only
  refine ⟨1, 2, 3, 3, hraises, hleads, hlt, fun hh => ?_⟩
  obtain ⟨f, hf, _⟩ := hh 2 _ (by decide) hentry
  rw [hnone] at hf
  cases hf

end MyKvRaft
