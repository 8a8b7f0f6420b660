import MyKvRaft.Leader.Buffers

/-!
# A leader can always be elected

Whatever has happened to a cluster of two or more nodes, crashes and lost messages included, it
can still come to a leader: no state of its nodes and no messages under way are in the way of an
election. What it takes are timeouts, requests for votes, deliveries, and the failing of an RPC
that `doElection` still waits for: an older election ends so. A cluster of one node never has a
leader, since `doElection` counts its votes when a reply arrives.

* `Asking.continues`: a candidate that is ahead of all peers in term and in log wins.
* `leader_can_be_elected`: such a candidate there can be.
-/

namespace MyKvRaft

open Consensus Transition Raft

variable {N : ℕ}

/-- What a cluster takes to elect a leader: timeouts, requests for votes, the failing of such an
    RPC, and deliveries. -/
def Action.isVoting : Action N → Bool
  | .act _ .electionTimeout => true
  | .act _ .requestVotes => true
  | .act _ .requestVoteFails => true
  | .deliver _ => true
  | _ => false

namespace Node

variable {n : Node N} {e : Election N}

theorem requestVotes_done (he : n.election = some e) (hw : e.waiting = none) (hN : N ≤ e.server) :
    n.requestVotes = ({ n with election := none }, []) := by
  unfold requestVotes
  rw [he]
  dsimp only
  rw [hw, if_neg (by simp), dif_neg (Nat.not_lt.mpr hN)]

theorem requestVotes_self (he : n.election = some e) (hw : e.waiting = none)
    (hme : e.server = n.rf.me.val) :
    n.requestVotes = ({ n with election := some { e with server := e.server + 1 } }, []) := by
  have hlt : e.server < N := hme ▸ n.rf.me.isLt
  unfold requestVotes
  rw [he]
  dsimp only
  rw [hw, if_neg (by simp), dif_pos hlt, if_pos (Fin.ext hme)]

theorem requestVotes_ask (he : n.election = some e) (hw : e.waiting = none) {p : Fin N}
    (hp : e.server = p.val) (hne : p ≠ n.rf.me) : n.requestVotes =
      ({ n with
        election := some { e with waiting := some ⟨n.nextRpc, n.rf.me, p, e.args⟩ }
        nextRpc := n.nextRpc + 1 },
      [.requestVote ⟨n.nextRpc, n.rf.me, p, e.args⟩]) := by
  have hlt : e.server < N := hp ▸ p.isLt
  have heq : (⟨e.server, hlt⟩ : Fin N) = p := Fin.ext hp
  unfold requestVotes
  rw [he]
  dsimp only
  rw [hw, if_neg (by simp), dif_pos hlt, heq, if_neg hne]

theorem requestVoteFails_eq (he : n.election = some e) (hw : e.waiting.isSome = true) :
    n.requestVoteFails =
      { n with election := some { e with waiting := none, server := e.server + 1 } } := by
  unfold requestVoteFails
  rw [he]
  dsimp only
  rw [if_pos hw]

/-- A node that is behind the candidate in term and not ahead of it in its log grants its vote. -/
theorem receive_requestVote {r : Rpc N RequestVoteArgs} (hterm : n.rf.currentTerm < r.args.term)
    (hlog : n.rf.uptodata r.args.lastlogindex r.args.lastlogterm = true) :
    ∃ n', n.receive (.requestVote r) =
      (n', [.requestVoteReply r ⟨r.args.term, true, Normal⟩]) := by
  have hvote : n.rf.requestVote1 r.args = some (({ n.rf.stepDown r.args.term with
      votedFor := r.args.candidateid } : Raft N).persist, ⟨r.args.term, true, Normal⟩) := by
    unfold Raft.requestVote1 Raft.seeTerm
    rw [if_neg (by omega), if_pos hterm]
    have hsame : (n.rf.stepDown r.args.term).uptodata r.args.lastlogindex r.args.lastlogterm =
        n.rf.uptodata r.args.lastlogindex r.args.lastlogterm := rfl
    dsimp only
    rw [myAssert, if_pos (show r.args.term = (n.rf.stepDown r.args.term).currentTerm from rfl), hsame,
      hlog]
    rfl
  refine ⟨(n.receive (.requestVote r)).1, ?_⟩
  unfold receive
  dsimp only
  rw [hvote]
  rfl

/-- A vote for the candidate that waits for it counts. -/
theorem receive_requestVoteReply {r : Rpc N RequestVoteArgs} (he : n.election = some e)
    (hw : e.waiting = some r) (hterm : n.rf.currentTerm = r.args.term)
    (hlead : n.rf.status ≠ .Leader) :
    (n.receiveVote r ⟨r.args.term, true, Normal⟩).rf.status = .Leader ∨
    (e.votedNum + 1 < majority N ∧ n.receiveVote r ⟨r.args.term, true, Normal⟩ =
      { n with election := some { e with
          votedNum := e.votedNum + 1, waiting := none, server := e.server + 1 } }) := by
  unfold receiveVote Raft.sendRequestVote
  rw [he]
  dsimp only
  rw [if_pos hw, if_neg (by omega), if_neg (by omega), myAssert, if_pos hterm.symm]
  by_cases hmaj : e.votedNum + 1 ≥ majority N
  · rw [if_neg (by simp), if_pos hmaj, myAssert, if_pos hlead]
    exact .inl (becomeLeader_fields n.rf).2.2.2.2.1
  · rw [if_neg (by simp), if_neg hmaj]
    exact .inr ⟨Int.not_le.mp hmaj, rfl⟩

end Node

namespace Cluster

/-- The cluster may go on from `s` to `t`. -/
def Continues (s t : Cluster N) : Prop :=
  ∃ as : List (Action N), (∀ a ∈ as, a.isVoting = true) ∧ as.foldl step s = t

variable {s t u : Cluster N} {i : Fin N}

theorem Continues.refl (s : Cluster N) : Continues s s := ⟨[], by simp, rfl⟩

theorem Continues.trans (h : Continues s t) (h' : Continues t u) : Continues s u := by
  obtain ⟨as, has, rfl⟩ := h
  obtain ⟨bs, hbs, rfl⟩ := h'
  refine ⟨as ++ bs, fun a ha => ?_, List.foldl_append⟩
  exact (List.mem_append.mp ha).elim (has a) (hbs a)

theorem Continues.step (h : Continues s t) {a : Action N} (ha : a.isVoting = true) :
    Continues s (t.step a) := by
  refine h.trans ⟨[a], fun b hb => ?_, rfl⟩
  rw [List.mem_singleton.mp hb]
  exact ha

/-- Node `i` has gone on alone, and is `n` now. -/
structure Alone (i : Fin N) (s t : Cluster N) (n : Node N) : Prop where
  continues : Continues s t
  others : ∀ j, j ≠ i → t.nodes j = s.nodes j
  node : t.nodes i = n

theorem Alone.refl (i : Fin N) (s : Cluster N) : Alone i s s (s.nodes i) :=
  ⟨.refl s, fun _ _ => rfl, rfl⟩

variable {n : Node N} {e : Election N}

theorem Alone.act (h : Alone i s t n) {input : Input N}
    (hvoting : (Action.act i input).isVoting = true) :
    Alone i s (t.step (.act i input)) (n.step input).1 where
  continues := h.continues.step hvoting
  others j hj := by
    rw [← h.others j hj]
    exact Function.update_of_ne hj _ _
  node := by
    rw [← h.node]
    exact Function.update_self ..

theorem Alone.requestVotes (h : Alone i s t n) :
    Alone i s (t.step (.act i .requestVotes)) n.requestVotes.1 := h.act rfl

theorem Alone.requestVoteFails (h : Alone i s t n) :
    Alone i s (t.step (.act i .requestVoteFails)) n.requestVoteFails := h.act rfl

/-! ## Before the election -/

/-- An election that waits for no answer comes to its end, if no peer is given the time to answer. -/
theorem Alone.finish (k : ℕ) (h : Alone i s t n) (he : n.election = some e)
    (hw : e.waiting = none) (hk : N ≤ e.server + k) :
    ∃ t' n', Alone i s t' n' ∧ n'.election = none ∧ n'.rf = n.rf := by
  induction k generalizing t n e with
  | zero =>
    have hask := h.requestVotes
    rw [Node.requestVotes_done he hw hk] at hask
    exact ⟨_, _, hask, rfl, rfl⟩
  | succ k ih =>
    have hask := h.requestVotes
    by_cases hN : N ≤ e.server
    · rw [Node.requestVotes_done he hw hN] at hask
      exact ⟨_, _, hask, rfl, rfl⟩
    rw [Nat.not_le] at hN
    by_cases hme : e.server = n.rf.me.val
    · rw [Node.requestVotes_self he hw hme] at hask
      obtain ⟨t', n', h', hnone, hrf⟩ := ih hask rfl hw (show N ≤ e.server + 1 + k by omega)
      exact ⟨t', n', h', hnone, hrf⟩
    · rw [Node.requestVotes_ask he hw (p := ⟨e.server, hN⟩) rfl fun hc => hme (Fin.ext_iff.mp hc)] at hask
      have hfails := hask.requestVoteFails
      rw [Node.requestVoteFails_eq rfl rfl] at hfails
      obtain ⟨t', n', h', hnone, hrf⟩ := ih hfails rfl rfl (show N ≤ e.server + 1 + k by omega)
      exact ⟨t', n', h', hnone, hrf⟩

/-- The node is not in an election any more. -/
theorem Alone.rest (h : Alone i s t n) :
    ∃ t' n', Alone i s t' n' ∧ n'.election = none ∧ n'.rf = n.rf := by
  cases he : n.election with
  | none => exact ⟨t, n, h, he, rfl⟩
  | some e =>
    cases hw : e.waiting with
    | none => exact h.finish N he hw (Nat.le_add_left _ _)
    | some r =>
      have hfails := h.requestVoteFails
      rw [Node.requestVoteFails_eq he (by rw [hw]; rfl)] at hfails
      obtain ⟨t', n', h', hnone, hrf⟩ := hfails.finish N rfl rfl (Nat.le_add_left _ _)
      exact ⟨t', n', h', hnone, hrf⟩

/-- A node that has the log of `rf` and goes for a later term. -/
structure Candidate (rf : Raft N) (n : Node N) : Prop where
  me : n.rf.me = rf.me
  notLeader : n.rf.status ≠ .Leader
  lastLogIndex : n.rf.getLastLogIndex = rf.getLastLogIndex
  lastLogTerm : n.rf.getLastLogTerm = rf.getLastLogTerm

/-- The start of an election: the node asks all peers in the next term. -/
theorem Alone.timeout (h : Alone i s t n) (he : n.election = none) {rf : Raft N}
    (hc : Candidate rf n) : ∃ t' n', Alone i s t' n' ∧ Candidate rf n' ∧
      n'.rf.currentTerm = n.rf.currentTerm + 1 ∧
      n'.election = some ⟨⟨n.rf.currentTerm + 1, rf.me.val, rf.getLastLogIndex, rf.getLastLogTerm⟩,
        1, 0, none⟩ := by
  have htimeout : Alone i s (t.step (.act i .electionTimeout)) n.electionTimeout := h.act rfl
  unfold Node.electionTimeout at htimeout
  rw [if_neg (by rw [he]; simpa using hc.notLeader)] at htimeout
  refine ⟨_, _, htimeout, ⟨hc.me, fun h => (by cases h), hc.lastLogIndex, hc.lastLogTerm⟩, rfl, ?_⟩
  have hargs : (⟨n.rf.doElection.currentTerm, n.rf.doElection.me.val,
      n.rf.doElection.getLastLogIndex, n.rf.doElection.getLastLogTerm⟩ : RequestVoteArgs) =
      ⟨n.rf.currentTerm + 1, rf.me.val, rf.getLastLogIndex, rf.getLastLogTerm⟩ := by
    rw [← hc.lastLogIndex, ← hc.lastLogTerm, ← hc.me]
    rfl
  exact congrArg (fun args => some (Election.mk args 1 0 none)) hargs

/-- Elections that get no answers take a node to any later term. -/
theorem Alone.raise (k : ℕ) (h : Alone i s t n) {rf : Raft N} (hc : Candidate rf n) :
    ∃ t' n', Alone i s t' n' ∧ Candidate rf n' ∧ n'.election = none ∧
      n'.rf.currentTerm = n.rf.currentTerm + k := by
  induction k with
  | zero =>
    obtain ⟨t', n', h', hnone, hrf⟩ := h.rest
    exact ⟨t', n', h', ⟨hrf ▸ hc.me, hrf ▸ hc.notLeader, hrf ▸ hc.lastLogIndex,
      hrf ▸ hc.lastLogTerm⟩, hnone, by rw [hrf]; simp⟩
  | succ k ih =>
    obtain ⟨t', n', h', hc', hnone, hterm⟩ := ih
    obtain ⟨t₁, n₁, h₁, hc₁, hterm₁, he₁⟩ := h'.timeout hnone hc'
    obtain ⟨t₂, n₂, h₂, hnone₂, hrf₂⟩ := h₁.finish N he₁ rfl (Nat.le_add_left _ _)
    refine ⟨t₂, n₂, h₂, ⟨hrf₂ ▸ hc₁.me, hrf₂ ▸ hc₁.notLeader, hrf₂ ▸ hc₁.lastLogIndex,
      hrf₂ ▸ hc₁.lastLogTerm⟩, hnone₂, ?_⟩
    rw [hrf₂, hterm₁, hterm]
    push_cast
    ring

/-! ## The election -/

theorem step_deliver_last {rest : List (Packet N)} {p : Packet N} (h : s.network = rest ++ [p]) :
    s.step (.deliver rest.length) = s.update p.target ((s.nodes p.target).receive p) rest := by
  unfold Cluster.step
  dsimp only
  rw [h, List.getElem?_concat_length]
  dsimp only
  rw [List.eraseIdx_append_of_length_le le_rfl]
  simp

/-- A request is sent and answered, and the answer arrives. -/
theorem continues_roundTrip {p : Fin N} (hne : p ≠ i) {n₁ p₁ : Node N} {r : Rpc N RequestVoteArgs}
    {reply : RequestVoteReply} (hsrc : r.src = i) (hdst : r.dst = p)
    (hask : (s.nodes i).requestVotes = (n₁, [.requestVote r]))
    (hanswer : (s.nodes p).receive (.requestVote r) = (p₁, [.requestVoteReply r reply])) :
    ∃ t, Continues s t ∧ t.nodes i = n₁.receiveVote r reply ∧
      ∀ j, j ≠ i → j ≠ p → t.nodes j = s.nodes j := by
  subst hsrc hdst
  have h₁ : s.step (.act r.src .requestVotes) = s.update r.src (n₁, [.requestVote r]) s.network := by
    rw [← hask]
    rfl
  set s₁ := s.update r.src (n₁, [.requestVote r]) s.network with hs₁
  have hdst₁ : s₁.nodes r.dst = s.nodes r.dst := Function.update_of_ne hne _ _
  have h₂ : s₁.step (.deliver s.network.length) =
      s₁.update r.dst (p₁, [.requestVoteReply r reply]) s.network := by
    rw [step_deliver_last (s := s₁) (p := .requestVote r) rfl, ← hanswer, ← hdst₁]
    rfl
  set s₂ := s₁.update r.dst (p₁, [.requestVoteReply r reply]) s.network with hs₂
  have hsrc₂ : s₂.nodes r.src = n₁ := by
    rw [hs₂]
    exact (Function.update_of_ne hne.symm _ _).trans (Function.update_self ..)
  have h₃ : s₂.step (.deliver s.network.length) =
      s₂.update r.src (n₁.receiveVote r reply, []) s.network := by
    rw [step_deliver_last (s := s₂) (p := .requestVoteReply r reply) rfl, ← hsrc₂]
    rfl
  refine ⟨s₂.step (.deliver s.network.length), ?_, ?_, fun j hi hp => ?_⟩
  · rw [← h₂, ← h₁]
    exact (((Continues.refl s).step rfl).step rfl).step rfl
  · rw [h₃]
    exact Function.update_self ..
  · rw [h₃]
    exact (Function.update_of_ne hi _ _).trans
      ((Function.update_of_ne hp _ _).trans (Function.update_of_ne hi _ _))

/-- Node `i` is about to ask the peer `server`, with the votes of all before it. -/
structure Asking (i : Fin N) (args : RequestVoteArgs) (server : ℕ) (t : Cluster N) : Prop where
  election : (t.nodes i).election =
    some ⟨args, (if i.val < server then server else server + 1 : ℕ), server, none⟩
  few : ((if i.val < server then server else server + 1 : ℕ) : ℤ) < majority N
  me : (t.nodes i).rf.me = i
  term : (t.nodes i).rf.currentTerm = args.term
  notLeader : (t.nodes i).rf.status ≠ .Leader
  behind : ∀ p, p ≠ i → server ≤ p.val → (t.nodes p).rf.currentTerm < args.term ∧
    (t.nodes p).rf.uptodata args.lastlogindex args.lastlogterm = true

variable {args : RequestVoteArgs} {server : ℕ}

/-- The node passes itself over. -/
theorem Asking.skip (h : Asking i args i.val t) :
    Asking i args (i.val + 1) (t.step (.act i .requestVotes)) := by
  have halone := (Alone.refl i t).requestVotes
  rw [Node.requestVotes_self h.election rfl (by rw [h.me])] at halone
  have hvotes : (if i.val < i.val + 1 then i.val + 1 else i.val + 1 + 1) =
      if i.val < i.val then i.val else i.val + 1 := by
    rw [if_pos (Nat.lt_succ_self _), if_neg (lt_irrefl _)]
  refine ⟨?_, ?_, ?_, ?_, ?_, fun p hp hle => ?_⟩
  · rw [halone.node, hvotes]
  · rw [hvotes]
    exact h.few
  · rw [halone.node]
    exact h.me
  · rw [halone.node]
    exact h.term
  · rw [halone.node]
    exact h.notLeader
  · rw [halone.others p hp]
    exact h.behind p hp (by omega)

/-- A peer that is asked gives its vote. -/
theorem Asking.ask (h : Asking i args server t) {p : Fin N} (hp : p.val = server) (hne : p ≠ i) :
    ∃ t', Continues t t' ∧
      ((t'.nodes i).rf.status = .Leader ∨ Asking i args (server + 1) t') := by
  obtain ⟨hbehind, hlog⟩ := h.behind p hne hp.ge
  have hask := Node.requestVotes_ask h.election rfl (p := p) hp.symm (by rwa [h.me])
  set r : Rpc N RequestVoteArgs := ⟨(t.nodes i).nextRpc, (t.nodes i).rf.me, p, args⟩ with hr
  set votes : ℤ := ((if i.val < server then server else server + 1 : ℕ) : ℤ) with hvotes
  obtain ⟨n₁, hn₁⟩ : ∃ n₁, (t.nodes i).requestVotes.1 = n₁ := ⟨_, rfl⟩
  have he₁ : n₁.election = some ⟨args, votes, server, some r⟩ := by
    rw [← hn₁, hask]
  have hrf₁ : n₁.rf = (t.nodes i).rf := by
    rw [← hn₁, hask]
  have hask₁ : (t.nodes i).requestVotes = (n₁, [.requestVote r]) := by
    rw [← hn₁, hask]
  obtain ⟨p₁, hanswer⟩ := Node.receive_requestVote (r := r) hbehind hlog
  obtain ⟨t', hcont, hnode, hothers⟩ := continues_roundTrip hne h.me rfl hask₁ hanswer
  refine ⟨t', hcont, ?_⟩
  have hreply := Node.receive_requestVoteReply he₁ rfl (hrf₁ ▸ h.term) (hrf₁ ▸ h.notLeader)
  rw [← hnode] at hreply
  obtain hlead | ⟨hfew, hvote⟩ := hreply
  · exact .inl hlead
  have hcount : votes + 1 = ((if i.val < server + 1 then server + 1 else server + 1 + 1 : ℕ) : ℤ) := by
    have hi : i.val ≠ server := fun hc => hne (Fin.ext (hp.trans hc.symm))
    rw [hvotes]
    by_cases hlt : i.val < server
    · rw [if_pos hlt, if_pos (by omega)]
      push_cast
      rfl
    · rw [if_neg hlt, if_neg (by omega)]
      push_cast
      rfl
  refine .inr ⟨?_, ?_, ?_, ?_, ?_, fun q hq hle => ?_⟩
  · rw [hvote, ← hcount]
  · rw [← hcount]
    exact hfew
  · rw [hvote]
    exact hrf₁ ▸ h.me
  · rw [hvote]
    exact hrf₁ ▸ h.term
  · rw [hvote]
    exact hrf₁ ▸ h.notLeader
  · have hqp : q ≠ p := by
      rintro rfl
      omega
    rw [hothers q hq hqp]
    exact h.behind q hq (by omega)

/-- The candidate wins before it has asked all peers. -/
theorem Asking.wins (hN : 2 ≤ N) (k : ℕ) (h : Asking i args server t) (hk : N ≤ server + k) :
    ∃ t', Continues t t' ∧ (t'.nodes i).rf.status = .Leader := by
  have hmaj : majority N ≤ N := by
    unfold majority
    omega
  induction k generalizing t server with
  | zero =>
    have hfew := h.few
    have hlt := i.isLt
    rw [if_pos (by omega)] at hfew
    omega
  | succ k ih =>
    by_cases hlt : server < N
    swap
    · exact ih h (by omega)
    by_cases hi : server = i.val
    · subst hi
      obtain ⟨t', hcont, hlead⟩ := ih h.skip (by omega)
      exact ⟨t', ((Continues.refl t).step rfl).trans hcont, hlead⟩
    · obtain ⟨t₁, hcont₁, hlead | hask⟩ := h.ask (p := ⟨server, hlt⟩) rfl fun hc =>
        hi (Fin.ext_iff.mp hc)
      · exact ⟨t₁, hcont₁, hlead⟩
      · obtain ⟨t', hcont, hlead⟩ := ih hask (by omega)
        exact ⟨t', hcont₁.trans hcont, hlead⟩

/-! ## The best candidate -/

/-- Some node's log is not behind any other. -/
theorem exists_uptodata [NeZero N] (s : Cluster N) : ∃ i, ∀ p, (s.nodes p).rf.uptodata
    (s.nodes i).rf.getLastLogIndex (s.nodes i).rf.getLastLogTerm = true := by
  obtain ⟨i, hi⟩ := Finite.exists_max fun p : Fin N =>
    toLex ((s.nodes p).rf.getLastLogTerm, (s.nodes p).rf.getLastLogIndex)
  refine ⟨i, fun p => ?_⟩
  have hle := Prod.Lex.le_iff.mp (hi p)
  unfold Raft.uptodata
  split_ifs with hne
  · rw [decide_eq_true_eq]
    exact hle.resolve_right fun heq => hne heq.1.symm
  · rw [decide_eq_true_eq]
    rw [ne_eq, not_not] at hne
    exact (hle.resolve_left fun hlt => by simp [hne] at hlt).2

/-- As long as nobody leads, the node with the best log can be elected. -/
theorem continues_leader (hN : 2 ≤ N) (hme : ∀ i, (s.nodes i).rf.me = i)
    (hnone : ∀ i, (s.nodes i).rf.status ≠ .Leader) :
    ∃ t i, Continues s t ∧ (t.nodes i).rf.status = .Leader := by
  have : NeZero N := ⟨by omega⟩
  obtain ⟨i, hlog⟩ := exists_uptodata s
  obtain ⟨j, hj⟩ := Finite.exists_max fun p => (s.nodes p).rf.currentTerm
  obtain ⟨t₁, n₁, h₁, hc₁, he₁, hterm₁⟩ := (Alone.refl i s).raise
    ((s.nodes j).rf.currentTerm - (s.nodes i).rf.currentTerm).toNat
    (show Candidate (s.nodes i).rf (s.nodes i) from ⟨rfl, hnone i, rfl, rfl⟩)
  obtain ⟨t₂, n₂, h₂, hc₂, hterm₂, he₂⟩ := h₁.timeout he₁ hc₁
  have hasking : Asking i ⟨n₁.rf.currentTerm + 1, (s.nodes i).rf.me.val,
      (s.nodes i).rf.getLastLogIndex, (s.nodes i).rf.getLastLogTerm⟩ 0 t₂ := by
    refine ⟨?_, ?_, ?_, ?_, ?_, fun p hp _ => ?_⟩
    · rw [h₂.node, he₂]
      rfl
    · unfold majority
      rw [if_neg (Nat.not_lt_zero _)]
      omega
    · rw [h₂.node, hc₂.me, hme]
    · rw [h₂.node, hterm₂]
    · rw [h₂.node]
      exact hc₂.notLeader
    · rw [h₂.others p hp]
      refine ⟨?_, hlog p⟩
      have := hj p
      show (s.nodes p).rf.currentTerm < n₁.rf.currentTerm + 1
      omega
  obtain ⟨t, hcont, hlead⟩ := hasking.wins hN N (by omega)
  exact ⟨t, i, h₂.continues.trans hcont, hlead⟩

end Cluster

/-- Without a peer that votes for it, a node does not become leader. -/
theorem Buffers.not_leader {s : Cluster 1} {b : Ballot (Fin 1) LogEntry} (h : Buffers s b)
    (hnone : ∀ i, (s.nodes i).rf.status ≠ .Leader) (a : Action 1) (i : Fin 1) :
    ((s.step a).nodes i).rf.status ≠ .Leader := by
  intro hl
  obtain heq | ⟨x, hx, heq⟩ := s.step_nodes a i
  · rw [heq] at hl
    exact hnone i hl
  · rw [heq] at hl
    obtain ⟨_, hlead | ⟨r, reply, _, hel, _⟩⟩ := (h.tidy.moves hx).leads hl
    · exact hnone i hlead
    · obtain ⟨e, he, hw, _⟩ := hel.election
      obtain ⟨_, _, hdst, _⟩ := (h.elections.election i e he).waiting r hw
      exact hdst (Subsingleton.elim _ _)

/-- A node without peers never leads. -/
theorem alone_never_leads {h : List (Cluster 1 × Action 1)} {s : Cluster 1}
    (hr : Cluster.Runs anyStep h s) (i : Fin 1) : (s.nodes i).rf.status ≠ .Leader := by
  have hinv : (∃ b, Buffers s b) ∧ ∀ i, (s.nodes i).rf.status ≠ .Leader := by
    refine hr.invariant (I := fun s => (∃ b, Buffers s b) ∧ ∀ i, (s.nodes i).rf.status ≠ .Leader)
      ⟨⟨_, buffers_init⟩, fun i hi => by cases hi⟩ fun s a ⟨⟨b, hb⟩, hnone⟩ _ => ?_
    obtain ⟨b', _, hb'⟩ := hb.step a
    exact ⟨⟨b', hb'⟩, hb.not_leader hnone a⟩
  exact hinv.2 i

/-- With two nodes or more, and only then, every state of every run can still come to a leader: by
    timeouts, requests for votes, the failing of `RequestVote` RPCs and the delivery of messages. -/
theorem leader_can_be_elected : (∀ (h : List (Cluster N × Action N)) (s : Cluster N),
    Cluster.Runs anyStep h s → ∃ as : List (Action N), (∀ a ∈ as, a.isVoting = true) ∧
      ∃ i, ((as.foldl Cluster.step s).nodes i).rf.status = .Leader) ↔ 2 ≤ N := by
  constructor
  · intro hall
    by_contra hN
    obtain ⟨as, _, i, hi⟩ := hall [] _ .nil
    obtain rfl : N = 1 := by
      have := i.isLt
      omega
    exact alone_never_leads (Cluster.runs_exec as fun _ _ => trivial) i hi
  · intro hN h s hr
    by_cases hlead : ∃ i, (s.nodes i).rf.status = .Leader
    · exact ⟨[], by simp, hlead⟩
    rw [not_exists] at hlead
    obtain ⟨b, hb⟩ : ∃ b, Elections s b :=
      hr.invariant (I := fun s => ∃ b, Elections s b) ⟨_, elections_init⟩ fun s a ⟨b, hb⟩ _ => by
        obtain ⟨b', _, hb'⟩ := hb.step a
        exact ⟨b', hb'⟩
    obtain ⟨t, i, ⟨as, has, rfl⟩, hi⟩ := Cluster.continues_leader hN (fun i => (hb.node i).me) hlead
    exact ⟨as, has, i, hi⟩

end MyKvRaft
