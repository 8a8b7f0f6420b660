import MyKvRaft.Safety.Voting

/-!
# Election safety

* `Cluster.Elections`: the relation between a cluster and the ballot of its run.
* `Elections.step`: every step of a cluster is an observation the ballot allows.
* `election_safety`: at most one node ever leads a term, over whole runs.
-/

namespace MyKvRaft

open Consensus Transition Raft

variable {N : ℕ}

/-- Vote requests come from candidates that have reached their term, and granted votes are on
    record. -/
def VotePacket (b : Ballot (Fin N) LogEntry) : Packet N → Prop
  | .requestVote r =>
    0 ≤ r.args.term ∧ r.args.term ≤ b.term r.src ∧ r.args.candidateid = r.src.val
  | .requestVoteReply r reply => reply.votegranted = true →
    reply.term = r.args.term ∧ b.vote r.dst r.args.term.toNat = some r.src
  | _ => True

theorem VotePacket.mono {b b' : Ballot (Fin N) LogEntry} (h : b.Le b') {p : Packet N}
    (hp : VotePacket b p) : VotePacket b' p := by
  cases p with
  | requestVote r =>
    obtain ⟨h1, h2, h3⟩ := hp
    have := h.term r.src
    exact ⟨h1, by omega, h3⟩
  | requestVoteReply r reply =>
    intro hg
    obtain ⟨h1, h2⟩ := hp hg
    exact ⟨h1, h.vote h2⟩
  | _ => trivial

/-- The result of a step of node `i`, as the ballot that sees it must find it. -/
structure Cast (b : Ballot (Fin N) LogEntry) (i : Fin N) (n : Node N) (out : List (Packet N)) :
    Prop where
  lawful : n.rf.Lawful b i
  voted : Voted (n.rf.seenIn b i) i n.rf
  election : ∀ e, n.election = some e → Counted (n.rf.seenIn b i) i e
  out : ∀ p ∈ out, VotePacket (n.rf.seenIn b i) p

section Steps

variable {b : Ballot (Fin N) LogEntry} {i : Fin N} {n n' : Node N} {out : List (Packet N)}

/-- A step in which the node does not win. -/
theorem cast_of_move (hv : Voted b i n.rf)
    (hmove : n'.rf.Lawful b i ∧ Voted (n'.rf.seenIn b i) i n'.rf)
    (hold : n'.rf.status = .Leader →
      n.rf.status = .Leader ∧ n'.rf.currentTerm = n.rf.currentTerm)
    (hel : ∀ e, n'.election = some e → Counted b i e)
    (hout : ∀ p ∈ out, VotePacket (n'.rf.seenIn b i) p) : Cast b i n' out := by
  refine ⟨hmove.1, hmove.2, fun e he => ?_, hout⟩
  exact (hel e he).mono (Ballot.Legal.le hmove.1) fun u => hv.leader_seenIn hold

/-- A step that leaves term, vote, status and log alone. -/
theorem cast_of_same (hb : b.Valid) (hv : Voted b i n.rf) (hme : n'.rf.me = n.rf.me)
    (hsaved : n'.rf.Saved) (hterm : n'.rf.currentTerm = n.rf.currentTerm)
    (hvote : n'.rf.votedFor = n.rf.votedFor) (hstatus : n'.rf.status = n.rf.status)
    (hlogs : n'.rf.logs = n.rf.logs) (hel : ∀ e, n'.election = some e → Counted b i e)
    (hout : ∀ p ∈ out, VotePacket b p) : Cast b i n' out := by
  have hmove := hv.same hb hsaved hme hterm hvote fun h => ⟨hstatus ▸ h, hlogs⟩
  refine cast_of_move hv hmove (fun h => ⟨hstatus ▸ h, hterm⟩) hel fun p hp => ?_
  exact (hout p hp).mono (Ballot.Legal.le hmove.1)

theorem restart_fields {rf : Raft N} (hs : rf.Saved) :
    rf.restart.me = rf.me ∧ rf.restart.currentTerm = rf.currentTerm ∧
      rf.restart.votedFor = rf.votedFor ∧ rf.restart.status = .Follower := by
  have hdate : rf.restart.persistDate = rf.persistDate := (restart_persistDate rf).trans hs
  unfold persistDate at hdate
  simp only [PersistRaftNode.mk.injEq] at hdate
  exact ⟨init_me _ _, hdate.1, hdate.2.1, init_status _ _⟩

theorem cast_restart (hb : b.Valid) (hv : Voted b i n.rf) : Cast b i n.restart [] := by
  obtain ⟨h1, h2, h3, h4⟩ := restart_fields hv.saved
  have hnot : n.restart.rf.status ≠ .Leader := by
    show n.rf.restart.status ≠ .Leader
    rw [h4]
    decide
  refine cast_of_move hv ?_ (fun h => absurd h hnot) (by simp [Node.restart]) (by simp)
  exact hv.same hb (saved_restart _) h1 h2 h3 fun h => absurd h hnot

/-! ## What a node does by itself -/

theorem no_leader_ahead (hb : b.Valid) {t : ℕ} (ht : b.term i < t) : b.leader t ≠ some i := by
  intro h
  obtain ⟨Q, hQ, hv⟩ := hb.elected h
  have hne : Q.Nonempty := by
    rw [← Finset.card_pos]
    unfold Majority at hQ
    omega
  obtain ⟨x, hx⟩ := hne
  have := hb.candidate_le (hv x hx)
  omega

theorem cast_electionTimeout (hb : b.Valid) (hv : Voted b i n.rf)
    (he : ∀ e, n.election = some e → Counted b i e) : Cast b i n.electionTimeout [] := by
  unfold Node.electionTimeout
  split_ifs with hguard
  · exact cast_of_same hb hv rfl hv.saved rfl rfl rfl rfl he (by simp)
  · -- the candidate is its own first voter
    set rf' := n.rf.doElection with hrf'
    have hterm : rf'.currentTerm = n.rf.currentTerm + 1 := rfl
    have hvoted : rf'.votedFor = i.val := by
      show (n.rf.me.val : ℤ) = i.val
      rw [hv.me]
    have hnot : rf'.status ≠ .Leader := by
      show Status.Candidate ≠ .Leader
      decide
    have hmove : rf'.Lawful b i ∧ Voted (rf'.seenIn b i) i rf' := by
      refine hv.move hb (saved_persist _) rfl (by omega) ?_ fun h => absurd h hnot
      exact Or.inr (Or.inr ⟨i, hvoted, Or.inl (by omega), Or.inl rfl⟩)
    have ht' : (rf'.seenIn b i).term i = rf'.currentTerm.toNat :=
      Ballot.observe_term_self _ _ _ _ _
    have hcast := hv.term
    refine ⟨hmove.1, hmove.2, ?_, by simp⟩
    rintro e ⟨⟩
    refine ⟨?_, ?_, ?_, ?_, by simp, fun _ => ⟨∅, by simp, by simp⟩, fun h => ?_⟩
    · show 0 ≤ rf'.currentTerm
      omega
    · show rf'.currentTerm ≤ _
      rw [ht']
      omega
    · show (rf'.me.val : ℤ) = i.val
      rw [hmove.2.me]
    · show (rf'.seenIn b i).vote i rf'.currentTerm.toNat = some i
      rw [seenIn, Ballot.observe_vote_self, hvoted, voteOf_val]
      rfl
    · have h' := hv.leader_seenIn (fun h => absurd h hnot) h
      refine absurd h' (no_leader_ahead hb ?_)
      show b.term i < rf'.currentTerm.toNat
      omega

theorem cast_requestVotes (hb : b.Valid) (hv : Voted b i n.rf)
    (he : ∀ e, n.election = some e → Counted b i e) :
    Cast b i n.requestVotes.1 n.requestVotes.2 := by
  unfold Node.requestVotes
  cases hel : n.election with
  | none => exact cast_of_same hb hv rfl hv.saved rfl rfl rfl rfl (by simp [hel]) (by simp)
  | some e =>
    have hc := he e hel
    dsimp only
    split_ifs with h1 h2 h3
    · exact cast_of_same hb hv rfl hv.saved rfl rfl rfl rfl he (by simp)
    · -- the loop passes over the node itself
      refine cast_of_same hb hv rfl hv.saved rfl rfl rfl rfl ?_ (by simp)
      rintro e' ⟨⟩
      have hw : e.waiting = none := by simpa using h1
      simpa only [hw] using hc.skip
    · refine cast_of_same hb hv rfl hv.saved rfl rfl rfl rfl ?_ ?_
      · rintro e' ⟨⟩
        exact hc.ask hv.me rfl (by rw [← hv.me]; exact h3) rfl
      · intro p hp
        rw [List.mem_singleton] at hp
        subst hp
        refine ⟨hc.nonneg, ?_, ?_⟩
        · rw [hv.me]; exact hc.term_le
        · rw [hv.me]; exact hc.candidate
    · exact cast_of_same hb hv rfl hv.saved rfl rfl rfl rfl (by simp) (by simp)

theorem cast_requestVoteFails (hb : b.Valid) (hv : Voted b i n.rf)
    (he : ∀ e, n.election = some e → Counted b i e) : Cast b i n.requestVoteFails [] := by
  unfold Node.requestVoteFails
  cases hel : n.election with
  | none => exact cast_of_same hb hv rfl hv.saved rfl rfl rfl rfl (by simp [hel]) (by simp)
  | some e =>
    dsimp only
    split_ifs
    · refine cast_of_same hb hv rfl hv.saved rfl rfl rfl rfl ?_ (by simp)
      rintro e' ⟨⟩
      exact (he e hel).skip
    · exact cast_of_same hb hv rfl hv.saved rfl rfl rfl rfl he (by simp)

theorem cast_start (hb : b.Valid) (hv : Voted b i n.rf)
    (he : ∀ e, n.election = some e → Counted b i e) (command : Op) (now : ℤ) :
    Cast b i { n with rf := (n.rf.start command now).1 } [] := by
  have hsaved := saved_start hv.saved command now
  unfold Raft.start at hsaved ⊢
  split_ifs at hsaved ⊢ with hs
  · exact cast_of_same hb hv rfl hsaved rfl rfl rfl rfl he (by simp)
  · have hlead : n.rf.status = .Leader := not_not.mp hs
    refine cast_of_move hv ?_ (fun _ => ⟨hlead, rfl⟩) he (by simp)
    refine hv.move hb hsaved rfl le_rfl (Or.inl ⟨rfl, rfl⟩) fun _ => Or.inl ⟨hlead, rfl, ?_⟩
    refine ⟨[n.rf.newEntry command], rfl, ?_⟩
    intro e he'
    rw [List.mem_singleton] at he'
    subst he'
    rfl

theorem cast_batchSender (hb : b.Valid) (hv : Voted b i n.rf)
    (he : ∀ e, n.election = some e → Counted b i e) (clock : Fin N → ℤ × ℤ) :
    Cast b i (n.batchSender clock).1 (n.batchSender clock).2 := by
  have hsaved := Node.saved_batchSender hv.saved clock
  unfold Node.batchSender at hsaved ⊢
  split
  · exact cast_of_same hb hv rfl hv.saved rfl rfl rfl rfl he (by simp)
  · split_ifs
    · exact cast_of_same hb hv rfl (hv.saved.congr rfl rfl) rfl rfl rfl rfl he (by simp)
    · exact cast_of_same hb hv rfl (hv.saved.congr rfl rfl) rfl rfl rfl rfl he (by simp)
  · exact cast_of_same hb hv rfl (hv.saved.congr rfl rfl) rfl rfl rfl rfl he (by simp)
  · exact cast_of_same hb hv rfl (hv.saved.congr rfl rfl) rfl rfl rfl rfl he (by simp)
  · split_ifs
    · exact cast_of_same hb hv rfl (hv.saved.congr rfl rfl) rfl rfl rfl rfl he (by simp)
    · exact cast_of_same hb hv rfl (hv.saved.congr rfl rfl) rfl rfl rfl rfl he (by simp)
  · refine cast_of_same hb hv rfl (hv.saved.congr rfl rfl) rfl rfl rfl rfl he ?_
    intro p hp
    rw [List.mem_singleton] at hp
    subst hp
    trivial

theorem cast_heartBeat (hb : b.Valid) (hv : Voted b i n.rf)
    (he : ∀ e, n.election = some e → Counted b i e) : Cast b i n.heartBeat.1 n.heartBeat.2 := by
  unfold Node.heartBeat
  split_ifs
  · exact cast_of_same hb hv rfl hv.saved rfl rfl rfl rfl he (by simp)
  · refine cast_of_same hb hv rfl (hv.saved.congr rfl rfl) rfl rfl rfl rfl he ?_
    intro p hp
    obtain ⟨r, _, rfl⟩ := List.mem_map.mp hp
    trivial

theorem cast_step (hb : b.Valid) (hv : Voted b i n.rf)
    (he : ∀ e, n.election = some e → Counted b i e) (input : Input N) :
    Cast b i (n.step input).1 (n.step input).2 := by
  have hsaved := Node.saved_step hv.saved input
  cases input with
  | electionTimeout => exact cast_electionTimeout hb hv he
  | requestVotes => exact cast_requestVotes hb hv he
  | requestVoteFails => exact cast_requestVoteFails hb hv he
  | start command now => exact cast_start hb hv he command now
  | heartBeat => exact cast_heartBeat hb hv he
  | batchSender clock => exact cast_batchSender hb hv he clock
  | appendFails k => exact cast_of_same hb hv rfl hv.saved rfl rfl rfl rfl he (by simp [Node.step])
  | sendSnapShot k =>
    simp only [Node.step, Node.sendSnapShot]
    split
    · exact cast_of_same hb hv rfl hv.saved rfl rfl rfl rfl he (by simp)
    · refine cast_of_same hb hv rfl hv.saved rfl rfl rfl rfl he ?_
      intro p hp
      rw [List.mem_singleton] at hp
      subst hp
      trivial
  | snapshotFails k =>
    exact cast_of_same hb hv rfl hv.saved rfl rfl rfl rfl he (by simp [Node.step])
  | apply =>
    simp only [Node.step, Node.apply] at hsaved ⊢
    split_ifs at hsaved ⊢
    · exact cast_of_same hb hv rfl hv.saved rfl rfl rfl rfl he (by simp)
    · cases happ : n.rf.applierTicker with
      | none => exact cast_restart hb hv
      | some x =>
        obtain ⟨rf', msgs⟩ := x
        simp only [happ] at hsaved
        unfold applierTicker at happ
        dsimp only at happ
        split at happ
        · cases happ
        · cases happ
          exact cast_of_same hb hv rfl hsaved rfl rfl rfl rfl he (by simp)
  | push => exact cast_of_same hb hv rfl hv.saved rfl rfl rfl rfl he (by simp [Node.step])
  | crash => exact cast_restart hb hv

/-! ## Requests and replies -/

theorem seeTerm_cases {rf : Raft N} {term : ℤ} (hle : rf.currentTerm ≤ term) :
    (term = rf.currentTerm ∧ rf.seeTerm term = rf) ∨
      (rf.currentTerm < term ∧ rf.seeTerm term = rf.stepDown term) := by
  unfold seeTerm
  by_cases h : term > rf.currentTerm
  · exact Or.inr ⟨h, if_pos h⟩
  · exact Or.inl ⟨by omega, if_neg h⟩

/-- A handler that ends in `persist` after the term check. -/
theorem move_of_seeTerm {rf rf' : Raft N} (hb : b.Valid) (hv : Voted b i rf) {term : ℤ}
    (hle : rf.currentTerm ≤ term) (hsaved : rf'.Saved) (hme : rf'.me = rf.me)
    (hterm : rf'.currentTerm = term) (hvote : rf'.votedFor = (rf.seeTerm term).votedFor)
    (hlead : rf'.status = .Leader →
      (rf.seeTerm term).status = .Leader ∧ rf'.logs = rf.logs) :
    (rf'.Lawful b i ∧ Voted (rf'.seenIn b i) i rf') ∧
      (rf'.status = .Leader → rf.status = .Leader ∧ rf'.currentTerm = rf.currentTerm) := by
  rcases seeTerm_cases hle with ⟨h1, h2⟩ | ⟨h1, h2⟩
  · rw [h2] at hvote hlead
    exact ⟨hv.same hb hsaved hme (hterm.trans h1) hvote hlead,
      fun h => ⟨(hlead h).1, hterm.trans h1⟩⟩
  · rw [h2] at hvote hlead
    have hnot : rf'.status ≠ .Leader := fun h => by cases (hlead h).1
    exact ⟨hv.raise hb hsaved hme (hterm ▸ h1) hvote hnot, fun h => absurd h hnot⟩

theorem cast_requestVote (hb : b.Valid) (hv : Voted b i n.rf)
    (he : ∀ e, n.election = some e → Counted b i e) {r : Rpc N RequestVoteArgs} (hdst : r.dst = i)
    (hp : VotePacket b (.requestVote r)) :
    Cast b i (n.receive (.requestVote r)).1 (n.receive (.requestVote r)).2 := by
  simp only [Node.receive, Node.finish]
  cases hres : n.rf.requestVote1 r.args with
  | none => exact cast_restart hb hv
  | some x =>
    obtain ⟨rf', reply⟩ := x
    have hsaved := saved_requestVote1 hres
    simp only [Option.map_some]
    -- a refusal says nothing about votes
    have hrefuse : ∀ b' : Ballot (Fin N) LogEntry, reply.votegranted = false →
        ∀ p ∈ [Packet.requestVoteReply r reply], VotePacket b' p := by
      intro b' hg p hp'
      rw [List.mem_singleton] at hp'
      subst hp'
      intro h
      rw [hg] at h
      cases h
    rcases requestVote1_cases hres with ⟨_, rfl, hg⟩ | ⟨hle, rfl, hg⟩ |
      ⟨hle, _, hfree, rfl, hterm, hg⟩
    · exact cast_of_same hb hv rfl hsaved rfl rfl rfl rfl he (hrefuse b hg)
    · have hmove := move_of_seeTerm hb hv hle
        hsaved (by simp) (by simp [seeTerm_of_le hle]) rfl fun h => ⟨h, by simp⟩
      exact cast_of_move hv hmove.1 hmove.2 he (hrefuse _ hg)
    · obtain ⟨hnonneg, hsrc, hcand⟩ := hp
      set rf' := persist { n.rf.seeTerm r.args.term with votedFor := r.args.candidateid } with hrf'
      have hterm' : rf'.currentTerm = r.args.term := seeTerm_of_le hle
      have hvoted : rf'.votedFor = r.src.val := hcand
      have hold : rf'.status = .Leader →
          n.rf.status = .Leader ∧ rf'.currentTerm = n.rf.currentTerm := by
        intro h
        rcases seeTerm_cases hle with ⟨h1, h2⟩ | ⟨_, h2⟩
        · have hs : (n.rf.seeTerm r.args.term).status = .Leader := h
          rw [h2] at hs
          exact ⟨hs, hterm'.trans h1⟩
        · have hs : (n.rf.seeTerm r.args.term).status = .Leader := h
          rw [h2] at hs
          cases hs
      have hmove : rf'.Lawful b i ∧ Voted (rf'.seenIn b i) i rf' := by
        refine hv.move hb hsaved (by simp [hrf']) (by omega) ?_ fun h => Or.inl ?_
        · refine Or.inr (Or.inr ⟨r.src, hvoted, ?_, Or.inr (by omega)⟩)
          rcases seeTerm_cases hle with ⟨h1, h2⟩ | ⟨h1, _⟩
          · rw [h2, hcand] at hfree
            exact Or.inr ⟨hterm'.trans h1, hfree⟩
          · exact Or.inl (by omega)
        · obtain ⟨h1, h2⟩ := hold h
          exact ⟨h1, h2, by simp only [hrf', persist_logs, seeTerm_logs]; exact Extends.refl _ _⟩
      refine cast_of_move hv hmove hold he fun p hp' => ?_
      rw [List.mem_singleton] at hp'
      subst hp'
      intro _
      refine ⟨hterm, ?_⟩
      show (rf'.seenIn b i).vote r.dst r.args.term.toNat = some r.src
      rw [hdst, ← hterm', seenIn, Ballot.observe_vote_self, hvoted, voteOf_val]
      rfl

theorem cast_requestVoteReply (hb : b.Valid) (hv : Voted b i n.rf)
    (he : ∀ e, n.election = some e → Counted b i e) {r : Rpc N RequestVoteArgs}
    {reply : RequestVoteReply} (hsrc : r.src = i) (hp : VotePacket b (.requestVoteReply r reply)) :
    Cast b i (n.receiveVote r reply) [] := by
  have hsame : Cast b i n [] := cast_of_same hb hv rfl hv.saved rfl rfl rfl rfl he (by simp)
  unfold Node.receiveVote
  cases hel : n.election with
  | none => exact hsame
  | some e =>
    have hc := he e hel
    dsimp only
    split_ifs with hw
    · cases hres : n.rf.sendRequestVote reply e.votedNum with
      | none => exact cast_restart hb hv
      | some x =>
        obtain ⟨rf', k'⟩ := x
        have hsaved := hv.saved.sendRequestVote hres
        obtain ⟨_, _, _, hargs⟩ := hc.waiting r hw
        dsimp only
        -- a vote that counts was cast in the current term, for this election
        have hvote : reply.term = n.rf.currentTerm → reply.votegranted = true →
            e.args.term = n.rf.currentTerm ∧ b.vote r.dst e.args.term.toNat = some i := by
          intro hterm hg
          obtain ⟨h1, h2⟩ := hp hg
          rw [hargs] at h1 h2
          exact ⟨by omega, by rw [h2, hsrc]⟩
        rcases sendRequestVote_cases hres with ⟨hgt, rfl, rfl⟩ | ⟨rfl, rfl⟩ |
          ⟨hterm, hg, hlt, rfl, rfl⟩ | ⟨hterm, hg, hmaj, _, rfl, rfl⟩
        · have hmove := hv.raise hb hsaved rfl hgt rfl
            (by show Status.Follower ≠ .Leader; decide)
          refine cast_of_move hv hmove (fun h => by cases h) ?_ (by simp)
          rintro e' ⟨⟩
          exact hc.skip
        · refine cast_of_same hb hv rfl hsaved rfl rfl rfl rfl ?_ (by simp)
          rintro e' ⟨⟩
          exact hc.skip
        · refine cast_of_same hb hv rfl hsaved rfl rfl rfl rfl ?_ (by simp)
          rintro e' ⟨⟩
          exact hc.granted hw (hvote hterm hg).2
        · -- the node wins
          obtain ⟨heq, hv'⟩ := hvote hterm hg
          obtain ⟨hnone, hQ, hleft⟩ := hc.wins hb hw hv' hmaj
          obtain ⟨h1, h2, h3, h4, h5, _⟩ := becomeLeader_fields n.rf
          rw [heq] at hnone hQ
          have hmove : n.rf.becomeLeader.Lawful b i ∧
              Voted (n.rf.becomeLeader.seenIn b i) i n.rf.becomeLeader := by
            refine hv.move hb hsaved h1 h2.ge (Or.inl ⟨h2, h3⟩) fun _ => Or.inr ?_
            rw [h2]
            exact ⟨hnone, heq ▸ hc.self, hQ⟩
          have hle : b.Le (n.rf.becomeLeader.seenIn b i) := Ballot.Legal.le hmove.1
          refine ⟨hmove.1, hmove.2, ?_, by simp⟩
          rintro e' ⟨⟩
          refine ⟨hc.nonneg, ?_, hc.candidate, hle.vote hc.self, by simp, ?_, fun _ => by simpa⟩
          · have := hle.term i
            have := hc.term_le
            show e.args.term ≤ ((n.rf.becomeLeader.seenIn b i).term i : ℤ)
            omega
          · intro hne
            refine absurd ?_ hne
            show (n.rf.becomeLeader.seenIn b i).leader e.args.term.toNat = some i
            rw [heq, ← h2, seenIn, Ballot.observe_leader_self]
            simp [ledLog, h5]
    · exact hsame

theorem cast_appendEntries (hb : b.Valid) (hv : Voted b i n.rf)
    (he : ∀ e, n.election = some e → Counted b i e) (r : Rpc N AppendEntriesArgs) :
    Cast b i (n.receive (.appendEntries r)).1 (n.receive (.appendEntries r)).2 := by
  simp only [Node.receive, Node.finish]
  cases hres : n.rf.appendEntries1 r.args with
  | none => exact cast_restart hb hv
  | some x =>
    obtain ⟨rf', reply⟩ := x
    have hsaved := hv.saved.appendEntries1 hres
    simp only [Option.map_some]
    have hout : ∀ b' : Ballot (Fin N) LogEntry, ∀ p ∈ [Packet.appendEntriesReply r reply],
        VotePacket b' p := by
      intro b' p hp
      rw [List.mem_singleton] at hp
      subst hp
      trivial
    rcases appendEntries1_cases hres with ⟨_, rfl, _⟩ | ⟨hle, rfl, _⟩ | ⟨hle, _, _, _, hacc⟩
    · exact cast_of_same hb hv rfl hsaved rfl rfl rfl rfl he (hout b)
    · have hmove := move_of_seeTerm hb hv hle
        hsaved (by simp [follow]) (by simp [follow, seeTerm_of_le hle]) rfl (fun h => by cases h)
      exact cast_of_move hv hmove.1 hmove.2 he (hout _)
    · obtain ⟨logs, _, _, rfl, _⟩ := acceptEntries_cases hacc
      have hmove := move_of_seeTerm hb hv hle
        hsaved (by simp [follow]) (by simp [follow, seeTerm_of_le hle]) rfl (fun h => by cases h)
      exact cast_of_move hv hmove.1 hmove.2 he (hout _)

theorem cast_appendEntriesReply (hb : b.Valid) (hv : Voted b i n.rf)
    (he : ∀ e, n.election = some e → Counted b i e) (r : Rpc N AppendEntriesArgs)
    (reply : AppendEntriesReply) : Cast b i (n.receiveAppend r reply) [] := by
  unfold Node.receiveAppend
  split
  · exact cast_of_same hb hv rfl hv.saved rfl rfl rfl rfl he (by simp)
  · split
    · exact cast_restart hb hv
    · next hres =>
      have hsaved := hv.saved.sendAppendEntries hres
      rcases sendAppendEntries_cases hres with ⟨rfl, _⟩ | ⟨hgt, rfl, _⟩ | ⟨_, _, _, rfl, _⟩ |
        ⟨_, _, _, _, rfl, _⟩ | ⟨_, _, _, _, _, rfl, _⟩ | ⟨_, _, _, _, _, rfl, _⟩
      · exact cast_of_same hb hv rfl hsaved rfl rfl rfl rfl he (by simp)
      · have hmove := hv.raise hb hsaved rfl hgt rfl
          (by show Status.Follower ≠ .Leader; decide)
        exact cast_of_move hv hmove (fun h => by cases h) he (by simp)
      · obtain ⟨nextIdx, heq⟩ := n.rf.handleLogMismatch_eq r.dst reply
        rw [heq] at hsaved ⊢
        exact cast_of_same hb hv rfl hsaved rfl rfl rfl rfl he (by simp)
      · exact cast_of_same hb hv rfl hsaved rfl rfl rfl rfl he (by simp)
      · exact cast_of_same hb hv rfl hsaved rfl rfl rfl rfl he (by simp)
      · exact cast_of_same hb hv rfl hsaved rfl rfl rfl rfl he (by simp)

theorem cast_installSnapshot (hb : b.Valid) (hv : Voted b i n.rf)
    (he : ∀ e, n.election = some e → Counted b i e) (r : Rpc N InstallSnapshotRequest) :
    Cast b i (n.receive (.installSnapshot r)).1 (n.receive (.installSnapshot r)).2 := by
  have hsaved := saved_installSnapshot1 hv.saved r.args
  have hout : ∀ (b' : Ballot (Fin N) LogEntry) (resp : InstallSnapshotResponse),
      ∀ p ∈ [Packet.installSnapshotReply r resp], VotePacket b' p := by
    intro b' resp p hp
    rw [List.mem_singleton] at hp
    subst hp
    trivial
  simp only [Node.receive]
  unfold installSnapshot1 at hsaved ⊢
  by_cases hlt : r.args.term < n.rf.currentTerm
  · simp only [hlt, if_true]
    exact cast_of_same hb hv rfl hv.saved rfl rfl rfl rfl he (hout b _)
  simp only [hlt, if_false] at hsaved ⊢
  by_cases hgt : r.args.term > n.rf.currentTerm
  · simp only [hgt, if_true] at hsaved ⊢
    have hmove : ∀ rf' : Raft N, rf'.Saved → rf'.me = n.rf.me → rf'.currentTerm = r.args.term →
        rf'.votedFor = -1 → rf'.status = .Follower →
        Cast b i { n with rf := rf' } [.installSnapshotReply r ⟨rf'.currentTerm⟩] := by
      intro rf' hs h1 h2 h3 h4
      have hnot : rf'.status ≠ .Leader := by rw [h4]; decide
      exact cast_of_move hv (hv.raise hb hs h1 (h2 ▸ hgt) h3 hnot) (fun h => absurd h hnot) he
        (hout _ _)
    split_ifs at hsaved ⊢
    · exact hmove _ hsaved rfl rfl rfl rfl
    · exact hmove _ hsaved rfl rfl rfl rfl
  · simp only [hgt, if_false] at hsaved ⊢
    split_ifs at hsaved ⊢
    · exact cast_of_same hb hv rfl hsaved rfl rfl rfl rfl he (hout b _)
    · exact cast_of_same hb hv rfl hsaved rfl rfl rfl rfl he (hout b _)

theorem cast_installSnapshotReply (hb : b.Valid) (hv : Voted b i n.rf)
    (he : ∀ e, n.election = some e → Counted b i e) (r : Rpc N InstallSnapshotRequest)
    (resp : InstallSnapshotResponse) : Cast b i (n.receiveSnapshot r resp) [] := by
  unfold Node.receiveSnapshot
  split
  · exact cast_of_same hb hv rfl hv.saved rfl rfl rfl rfl he (by simp)
  · next call _ =>
    have hsaved := saved_leaderSendSnapShot hv.saved r.dst r.args.lastsnapshotincludeindex resp
      (n.counters.getD call.successCount 0)
    unfold leaderSendSnapShot leaderUpdateCommitIndex at hsaved ⊢
    by_cases hgt : resp.term > n.rf.currentTerm
    · simp only [hgt, if_true] at hsaved ⊢
      have hmove := hv.raise hb hsaved rfl hgt rfl
        (by show Status.Follower ≠ .Leader; decide)
      exact cast_of_move hv hmove (fun h => by cases h) he (by simp)
    · simp only [hgt, if_false] at hsaved ⊢
      split at hsaved
      · split_ifs at hsaved ⊢
        · exact cast_of_same hb hv rfl hsaved rfl rfl rfl rfl he (by simp)
        · exact cast_of_same hb hv rfl hsaved rfl rfl rfl rfl he (by simp)
      · exact cast_of_same hb hv rfl hsaved rfl rfl rfl rfl he (by simp)

theorem cast_receive (hb : b.Valid) (hv : Voted b i n.rf)
    (he : ∀ e, n.election = some e → Counted b i e) {p : Packet N} (htarget : p.target = i)
    (hp : VotePacket b p) : Cast b i (n.receive p).1 (n.receive p).2 := by
  cases p with
  | requestVote r => exact cast_requestVote hb hv he htarget hp
  | requestVoteReply r reply => exact cast_requestVoteReply hb hv he htarget hp
  | appendEntries r => exact cast_appendEntries hb hv he r
  | appendEntriesReply r reply => exact cast_appendEntriesReply hb hv he r reply
  | installSnapshot r => exact cast_installSnapshot hb hv he r
  | installSnapshotReply r resp => exact cast_installSnapshotReply hb hv he r resp

end Steps

/-! ## The cluster -/

/-- The ballot `b` has on record what the cluster has done so far. -/
structure Elections (s : Cluster N) (b : Ballot (Fin N) LogEntry) : Prop where
  valid : b.Valid
  node : ∀ i, Voted b i (s.nodes i).rf
  election : ∀ i e, (s.nodes i).election = some e → Counted b i e
  packet : ∀ p ∈ s.network, VotePacket b p

theorem elections_init : Elections (Cluster.init N) Ballot.empty where
  valid := Ballot.valid_empty
  node i := ⟨rfl, Node.saved_init i, rfl, rfl, fun h => (by cases h), fun h => (by cases h)⟩
  election i e h := by simp [Cluster.init, Node.init] at h
  packet p hp := by simp [Cluster.init] at hp

theorem Raft.Voted.of_ne {b : Ballot (Fin N) LogEntry} {i j : Fin N} {rf rf' : Raft N}
    (hv : Voted b j rf) (hne : j ≠ i) (hl : rf'.Lawful b i) : Voted (rf'.seenIn b i) j rf := by
  have hterm : (rf'.seenIn b i).term j = b.term j := Ballot.observe_term_ne _ _ _ _ _ hne
  refine ⟨hv.me, hv.saved, ?_, ?_, fun hs => ?_, fun hs => ?_⟩
  · rw [hterm]; exact hv.term
  · rw [hterm, seenIn, Ballot.observe_vote_ne _ _ _ _ _ (fun h => hne h.1)]
    exact hv.vote
  · obtain ⟨h1, h2⟩ := hv.lead hs
    rw [hterm]
    refine ⟨Ballot.Legal.leader_mono hl h1, ?_⟩
    by_cases ht : b.term j = rf'.currentTerm.toNat
    · -- the node that took the step does not lead the same term
      have hled : rf'.ledLog = none := by
        by_contra hsome
        obtain ⟨l, hl'⟩ := Option.ne_none_iff_exists'.mp hsome
        rw [ht] at h1
        rcases hl.led l hl' with ⟨h3, _⟩ | ⟨h3, _⟩
        · rw [h1] at h3; exact hne (Option.some.inj h3)
        · rw [h1] at h3; cases h3
      rw [ht, seenIn, Ballot.observe_lead_self, hled, ← ht]
      exact h2
    · rw [seenIn, Ballot.observe_lead_ne _ _ _ _ _ ht]
      exact h2
  · rw [hterm]
    exact Ballot.Legal.vote_mono hl (hv.self hs)

theorem Elections.update {s : Cluster N} {b : Ballot (Fin N) LogEntry} (h : Elections s b)
    {i : Fin N} {result : Node N × List (Packet N)} (hc : Cast b i result.1 result.2)
    {rest : List (Packet N)} (hrest : ∀ p ∈ rest, p ∈ s.network) :
    Elections (s.update i result rest) (result.1.rf.seenIn b i) where
  valid := h.valid.observe hc.lawful
  node j := by
    by_cases hj : j = i
    · subst hj
      simpa [Cluster.update] using hc.voted
    · simpa [Cluster.update, hj] using (h.node j).of_ne hj hc.lawful
  election j e he := by
    by_cases hj : j = i
    · subst hj
      exact hc.election e (by simpa [Cluster.update] using he)
    · refine (h.election j e (by simpa [Cluster.update, hj] using he)).mono
        (Ballot.Legal.le hc.lawful) fun u hu => ?_
      exact (Ballot.leader_observe hu).resolve_right fun h => hj h.1
  packet p hp := by
    rcases List.mem_append.mp hp with hp | hp
    · exact (h.packet p (hrest p hp)).mono (Ballot.Legal.le hc.lawful)
    · exact hc.out p hp

/-- Every step extends the ballot. -/
theorem Elections.step {s : Cluster N} {b : Ballot (Fin N) LogEntry} (h : Elections s b)
    (a : Action N) : ∃ b', b.Le b' ∧ Elections (s.step a) b' := by
  cases a with
  | act i input =>
    have hc := cast_step h.valid (h.node i) (h.election i) input
    exact ⟨_, Ballot.Legal.le hc.lawful, h.update hc fun _ hp => hp⟩
  | deliver k =>
    simp only [Cluster.step]
    cases hk : s.network[k]? with
    | none => exact ⟨b, Ballot.Le.refl b, h⟩
    | some p =>
      have hc := cast_receive h.valid (h.node p.target) (h.election p.target) rfl
        (h.packet p (List.mem_of_getElem? hk))
      exact ⟨_, Ballot.Legal.le hc.lawful, h.update hc fun _ hp => List.mem_of_mem_eraseIdx hp⟩

/-- Node `i` leads term `T` in state `s`. -/
def Leads (s : Cluster N) (i : Fin N) (T : ℤ) : Prop :=
  (s.nodes i).rf.status = .Leader ∧ (s.nodes i).rf.currentTerm = T

instance (s : Cluster N) (i : Fin N) (T : ℤ) : Decidable (Leads s i T) :=
  inferInstanceAs (Decidable (_ ∧ _))

theorem Elections.leader {s : Cluster N} {b : Ballot (Fin N) LogEntry} (h : Elections s b)
    {i : Fin N} {T : ℤ} (hl : Leads s i T) : b.leader T.toNat = some i := by
  have := ((h.node i).lead hl.1).1
  rwa [← hl.2, (h.node i).term, Int.toNat_natCast]

/-- In every run, of any number of nodes and with any order, delay or loss of messages and any
    crashes, at most one node ever leads a term: two states of the run in which `i` and `j` lead
    `T` have `i = j`. -/
theorem election_safety (h : List (Cluster N × Action N)) (s : Cluster N)
    (hr : Cluster.Runs anyStep h s) (s₁ s₂ : Cluster N)
    (h₁ : s₁ = s ∨ ∃ a, (s₁, a) ∈ h) (h₂ : s₂ = s ∨ ∃ a, (s₂, a) ∈ h) (i j : Fin N) (T : ℤ)
    (hi : Leads s₁ i T) (hj : Leads s₂ j T) : i = j := by
  obtain ⟨b, hR, hF⟩ := hr.simulate (R := Elections)
    (F := fun s _ b => ∀ i T, Leads s i T → b.leader T.toNat = some i) elections_init
    (fun s a b hR _ => by
      obtain ⟨b', hle, hR'⟩ := hR.step a
      exact ⟨b', hle, hR', fun i T hl => hle.leader (hR.leader hl)⟩)
    (fun s a b b' (hle : b.Le b') hF i T hl => hle.leader (hF i T hl))
  have hrec : ∀ s', (s' = s ∨ ∃ a, (s', a) ∈ h) → ∀ i, Leads s' i T →
      b.leader T.toNat = some i := by
    rintro s' (rfl | ⟨a, ha⟩) i hl
    · exact hR.leader hl
    · exact hF _ ha i T hl
  have := (hrec s₁ h₁ i hi).symm.trans (hrec s₂ h₂ j hj)
  exact Option.some.inj this

open MyKvRaft.Action in
/-- Node 0 wins term 1 with the vote of node 1. -/
def electionRun : List (Action 3) := [timeout 0, ask 0, ask 0, .deliver 0, .deliver 0]

theorem election_safety_electionRun :
    Leads (Cluster.exec electionRun) 0 1 ∧ ∀ j, Leads (Cluster.exec electionRun) j 1 → 0 = j := by
  have hleads : Leads (Cluster.exec electionRun) 0 1 := by decide +kernel
  refine ⟨hleads, fun j hj => ?_⟩
  exact election_safety _ _ (Cluster.runs_exec electionRun fun _ _ => trivial) _ _ (Or.inl rfl)
    (Or.inl rfl) 0 j 1 hleads hj

end MyKvRaft
