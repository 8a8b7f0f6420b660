import MyKvRaft.Safety.LogSteps

/-!
# Steps that do not follow a leader

Elections, votes, restarts and leading, each with the ledger after it. A leader sends
slices of its own log (`sliced_own`); for a batch this is what `FreshBatch` says.
-/

namespace MyKvRaft

open Consensus Transition Raft

variable {N : ℕ} {p : Ledger (Fin N) LogEntry} {i : Fin N} {n : Node N}

/-! ## Elections and restarts -/

theorem Logged.numbered {rf : Raft N} (h : Recorded p i n) (hlog : rf.logs = n.rf.logs) :
    Numbered rf.logs := by
  rw [hlog, h.logged.log]
  exact numbered_of_follows h.numbered (h.sound.log_follows i)

/-- Numbering the entries again gives the same log. -/
theorem restoreLogs_numbered {l : List LogEntry} {index : ℤ}
    (h : ∀ (k : ℕ) (e : LogEntry), l[k]? = some e → e.logindex = index + k + 1) :
    restoreLogs index (l.map fun log => ⟨log.logterm, log.command⟩) = l := by
  induction l generalizing index with
  | nil => rfl
  | cons e es ih =>
    have he : e.logindex = index + 1 := by simpa using h 0 e rfl
    have hes : restoreLogs (index + 1) _ = es := ih fun k x hx => by
      have := h (k + 1) x (by simpa using hx)
      push_cast at this
      omega
    rw [List.map_cons, restoreLogs, hes, ← he]

/-- A restarted node has its old log. -/
theorem restart_logs {rf : Raft N} (hs : rf.Saved) (hsnap : rf.NoSnapshot)
    (hnum : Numbered rf.logs) : rf.restart.logs = rf.logs := by
  have hfile : rf.persister.raftFile.getD .fresh = rf.persistDate := hs
  have hlogs : rf.restart.logs =
      restoreLogs (rf.persister.raftFile.getD .fresh).lastSnapshotIncludeIndex
        (rf.persister.raftFile.getD .fresh).logs := init_logs _ _
  rw [hlogs, hfile]
  refine restoreLogs_numbered fun k e he => ?_
  have h1 := (hnum k e he).1
  have h2 := hsnap.index
  show e.logindex = rf.lastSnapshotIncludeIndex + k + 1
  omega

theorem written_restart (h : Recorded p i n) : Written p p i n.restart [] := by
  obtain ⟨_, h2, h3, h4⟩ := restart_fields h.voted.saved
  have h5 := restart_logs h.voted.saved h.plain.snap (Logged.numbered h rfl)
  refine written_same h h2 h3 h5 (fun hs => ?_) ?_ (by simp)
  · have : n.restart.rf.status = .Follower := h4
    rw [this] at hs
    cases hs
  · intro e he
    cases he

/-- A step on the side: term, vote, status and log stay, and so does the request of a running
    election. -/
theorem written_side {n' : Node N} {out : List (Packet N)} (h : Recorded p i n)
    (hterm : n'.rf.currentTerm = n.rf.currentTerm) (hvote : n'.rf.votedFor = n.rf.votedFor)
    (hstatus : n'.rf.status = n.rf.status) (hlogs : n'.rf.logs = n.rf.logs)
    (hel : n'.election = n.election) (hout : ∀ q ∈ out, LogPacket p q) : Written p p i n' out :=
  written_same h hterm hvote hlogs (fun hs => hstatus ▸ hs)
    (fun e he => ⟨e, hel ▸ he, rfl⟩) hout

theorem written_electionTimeout (h : Recorded p i n)
    (hc : Cast p.toBallot i n.electionTimeout []) : ∃ p', Written p p' i n.electionTimeout [] := by
  by_cases hguard : n.election.isSome ∨ n.rf.status = .Leader
  · have heq : n.electionTimeout = n := by unfold Node.electionTimeout; rw [if_pos hguard]
    rw [heq]
    exact ⟨p, written_side h rfl rfl rfl rfl rfl (by simp)⟩
  · have heq : n.electionTimeout = { n with
        rf := n.rf.doElection
        election := some
          { args := ⟨n.rf.currentTerm + 1, n.rf.me.val, n.rf.getLastLogIndex, n.rf.getLastLogTerm⟩
            votedNum := 1
            server := 0
            waiting := none } } := by
      unfold Node.electionTimeout
      rw [if_neg hguard]
      rfl
    rw [heq] at hc ⊢
    have hsnap := h.plain.snap
    have hterm := h.voted.term
    have hnum := Logged.numbered h rfl
    -- the node stands with its log, in a term where it has not stood
    let bl : Fin N → ℕ → List LogEntry := fun j t =>
      if j = i ∧ t = (n.rf.currentTerm + 1).toNat then p.log i else p.ballotLog j t
    have hblself : bl i (n.rf.currentTerm + 1).toNat = p.log i := if_pos ⟨rfl, rfl⟩
    refine ⟨_, written_observe bl h hc.lawful ?_ rfl ?_ ?_ ?_ ?_
      (by simp)⟩
    · show Status.Candidate ≠ .Leader
      decide
    · intro j t hjt
      refine if_neg ?_
      rintro ⟨rfl, rfl⟩
      rcases hjt with hj | ht
      · exact hj rfl
      · omega
    · intro j t
      show Follows p.lead (if _ then _ else _)
      split_ifs
      · exact h.sound.log_follows i
      · exact h.sound.ballotLog_follows j t
    · intro x hx
      right
      have hx' : voteOf (n.rf.me.val : ℤ) = some x := hx
      rw [voteOf_val, h.voted.me] at hx'
      cases hx'
      show UpToDate (bl i (n.rf.currentTerm + 1).toNat) (p.log i)
      rw [hblself]
      exact Or.inr ⟨rfl, le_rfl⟩
    · rintro e ⟨⟩
      refine ⟨⟨?_, ?_⟩, fun _ _ => hblself.symm⟩
      · show n.rf.getLastLogIndex = ((bl i (n.rf.currentTerm + 1).toNat).length : ℤ)
        rw [hblself, hsnap.getLastLogIndex, h.logged.log]
      · show n.rf.getLastLogTerm = (lastTerm (bl i (n.rf.currentTerm + 1).toNat) : ℤ)
        rw [hblself, ← h.logged.log]
        exact hsnap.getLastLogTerm fun e he => by
          obtain ⟨k, hk⟩ := List.getElem?_of_mem he
          exact (hnum k e hk).2

theorem written_requestVotes (h : Recorded p i n) :
    Written p p i n.requestVotes.1 n.requestVotes.2 := by
  unfold Node.requestVotes
  cases hel : n.election with
  | none => exact written_side h rfl rfl rfl rfl rfl (by simp)
  | some e =>
    dsimp only
    split_ifs with h1 h2 h3
    · exact written_side h rfl rfl rfl rfl rfl (by simp)
    · refine written_same h rfl rfl rfl id ?_ (by simp)
      rintro e' ⟨⟩
      exact ⟨e, hel, rfl⟩
    · refine written_same h rfl rfl rfl id ?_ ?_
      · rintro e' ⟨⟩
        exact ⟨e, hel, rfl⟩
      · intro q hq
        rw [List.mem_singleton] at hq
        subst hq
        show Stood p n.rf.me e.args
        rw [h.voted.me]
        exact (h.logged.running e hel).stood
    · refine written_same h rfl rfl rfl id ?_ (by simp)
      intro e' he'
      cases he'

theorem written_requestVoteFails (h : Recorded p i n) :
    Written p p i n.requestVoteFails [] := by
  unfold Node.requestVoteFails
  cases hel : n.election with
  | none => exact written_side h rfl rfl rfl rfl rfl (by simp)
  | some e =>
    dsimp only
    split_ifs
    · refine written_same h rfl rfl rfl id ?_ (by simp)
      rintro e' ⟨⟩
      exact ⟨e, hel, rfl⟩
    · exact written_side h rfl rfl rfl rfl rfl (by simp)

/-! ## Leading -/

theorem numbered_append {l : List LogEntry} (h : Numbered l) {e : LogEntry}
    (hindex : e.logindex = l.length + 1) (hterm : 0 ≤ e.logterm) : Numbered (l ++ [e]) := by
  intro k x hx
  by_cases hk : k < l.length
  · rw [List.getElem?_append_left hk] at hx
    exact h k x hx
  · rw [List.getElem?_append_right (by omega)] at hx
    have hk' : k - l.length = 0 := by
      by_contra hne
      obtain ⟨m, hm⟩ := Nat.exists_eq_succ_of_ne_zero hne
      rw [hm] at hx
      simp at hx
    rw [hk'] at hx
    cases hx
    exact ⟨by omega, hterm⟩

theorem written_start (h : Recorded p i n) {command : Op} {now : ℤ}
    (hc : Cast p.toBallot i { n with rf := (n.rf.start command now).1 } []) :
    ∃ p', Written p p' i { n with rf := (n.rf.start command now).1 } [] := by
  by_cases hs : n.rf.status ≠ .Leader
  · have heq : (n.rf.start command now).1 = n.rf := by unfold Raft.start; rw [if_pos hs]
    rw [heq]
    exact ⟨p, written_side h rfl rfl rfl rfl rfl (by simp)⟩
  · have hlead : n.rf.status = .Leader := not_not.mp hs
    have heq : (n.rf.start command now).1 =
        (persist { n.rf with logs := n.rf.logs ++ [n.rf.newEntry command] }).addToPendingBatch
          (n.rf.newEntry command) now := by
      unfold Raft.start
      rw [if_neg hs]
    rw [heq] at hc ⊢
    have hterm := h.voted.term
    refine ⟨_, written_lead h hc.lawful hlead hlead rfl rfl ?_ ?_
      (fun e he => ⟨e, he, rfl⟩) (by simp)⟩
    · refine ⟨[n.rf.newEntry command], rfl, fun e he => ?_⟩
      rw [List.mem_singleton] at he
      subst he
      show n.rf.currentTerm.toNat = p.term i
      omega
    · refine numbered_append (Logged.numbered h rfl) ?_ ?_
      · show n.rf.getLastLogIndex + 1 = _
        rw [h.plain.snap.getLastLogIndex]
      · show 0 ≤ n.rf.currentTerm
        omega

/-- A request a leader builds from its own log is a slice of it. -/
theorem sliced_own (h : Recorded p i n) (hlead : n.rf.status = .Leader)
    {r : Rpc N AppendEntriesArgs} (hsrc : r.src = i) (hterm : r.args.term = n.rf.currentTerm)
    {k : ℕ} (hprev : r.args.prevlogindex = k) (hprevterm : r.args.prevlogterm = termAt n.rf.logs k)
    (hentries : r.args.entries = (n.rf.logs.drop k).take r.args.entries.length) : Sliced p r := by
  obtain ⟨h1, h2⟩ := h.voted.lead hlead
  have ht : r.args.term.toNat = p.term i := by rw [hterm, h.voted.term, Int.toNat_natCast]
  have hk : r.args.prevlogindex.toNat = k := by omega
  refine ⟨by rw [hterm, h.voted.term]; omega, by omega, by rw [ht, hsrc]; exact h1, fun hnn => ?_⟩
  rw [ht, h2, hk]
  refine ⟨?_, hentries, hprevterm⟩
  have hlen := congrArg List.length hentries
  rw [List.length_take, List.length_drop] at hlen
  by_cases hle : k ≤ n.rf.logs.length
  · omega
  · -- past the end there is no term
    rw [hprevterm] at hnn
    obtain ⟨m, rfl⟩ : ∃ m, k = m + 1 := ⟨k - 1, by omega⟩
    rw [termAt_succ, List.getElem?_eq_none (by omega)] at hnn
    simp at hnn

theorem written_heartBeat (h : Recorded p i n) :
    Written p p i n.heartBeat.1 n.heartBeat.2 := by
  unfold Node.heartBeat
  split_ifs with hs
  · exact written_side h rfl rfl rfl rfl rfl (by simp)
  · have hlead : n.rf.status = .Leader := not_not.mp hs
    have hsnap : (Node.clampNextIndex n.rf).NoSnapshot := ⟨h.plain.snap.index, h.plain.snap.term⟩
    refine written_side h rfl rfl rfl rfl rfl ?_
    intro q hq
    obtain ⟨r, hr, rfl⟩ := List.mem_map.mp hq
    obtain ⟨h1, h2, h3, _⟩ := Node.mem_heartBeatRpcs hr
    have hpos : 1 ≤ (Node.clampNextIndex n.rf).nextIndex r.dst := Node.clampNextIndex_pos h2
    obtain ⟨k, hk⟩ : ∃ k : ℕ, (Node.clampNextIndex n.rf).nextIndex r.dst - 1 = k :=
      ⟨((Node.clampNextIndex n.rf).nextIndex r.dst - 1).toNat, by omega⟩
    refine sliced_own h hlead (k := k) (h1.trans h.voted.me) ?_ ?_ ?_ ?_
    · rw [h3]; rfl
    · rw [h3]; exact hk
    · rw [h3]
      show (Node.clampNextIndex n.rf).getLogTermFromLogIndex _ = _
      rw [hk]
      exact hsnap.getLogTermFromLogIndex k
    · rw [h3]
      simp [heartBeatArgs]

theorem written_batchSender (h : Recorded p i n) (clock : Fin N → ℤ × ℤ)
    (hfresh : ∀ peer entries rest, n.rf.batchSenderThread = some (.build peer entries rest) →
      n.rf.OwnBatch entries) :
    Written p p i (n.batchSender clock).1 (n.batchSender clock).2 := by
  unfold Node.batchSender
  split
  · exact written_side h rfl rfl rfl rfl rfl (by simp)
  · split_ifs
    · exact written_side h rfl rfl rfl rfl rfl (by simp)
    · exact written_side h rfl rfl rfl rfl rfl (by simp)
  · exact written_side h rfl rfl rfl rfl rfl (by simp)
  · exact written_side h rfl rfl rfl rfl rfl (by simp)
  · split_ifs
    · exact written_side h rfl rfl rfl rfl rfl (by simp)
    · exact written_side h rfl rfl rfl rfl rfl (by simp)
  · next peer entries rest hpc =>
    obtain ⟨hlead, hprev, hslice⟩ := hfresh peer entries rest hpc
    refine written_side h rfl rfl rfl rfl rfl ?_
    intro q hq
    rw [List.mem_singleton] at hq
    subst hq
    have hk : (entries.head?.map (·.logindex)).getD 0 - 1 =
        (((entries.head?.map (·.logindex)).getD 0 - 1).toNat : ℤ) := by omega
    refine sliced_own h hlead h.voted.me rfl hk ?_ hslice.symm
    show n.rf.getLogTermFromLogIndex ((entries.head?.map (·.logindex)).getD 0 - 1) = _
    rw [hk]
    exact h.plain.snap.getLogTermFromLogIndex _

/-! ## Votes -/

theorem logterm_nonneg (h : Recorded p i n) : ∀ e ∈ n.rf.logs, 0 ≤ e.logterm := by
  intro e he
  obtain ⟨k, hk⟩ := List.getElem?_of_mem he
  exact (Logged.numbered h rfl k e hk).2

/-- A handler that ends after the term check, with the log as it was. -/
theorem written_seeTerm {rf' : Raft N} {out : List (Packet N)} {term : ℤ} (h : Recorded p i n)
    (hc : Cast p.toBallot i { n with rf := rf' } out) (hle : n.rf.currentTerm ≤ term)
    (hterm : rf'.currentTerm = term) (hvote : rf'.votedFor = (n.rf.seeTerm term).votedFor)
    (hlogs : rf'.logs = n.rf.logs)
    (hlead : rf'.status = .Leader → (n.rf.seeTerm term).status = .Leader)
    (hout : ∀ p', ∀ q ∈ out, LogPacket p' q) : ∃ p', Written p p' i { n with rf := rf' } out := by
  rcases seeTerm_cases hle with ⟨h1, h2⟩ | ⟨h1, h2⟩
  · rw [h2] at hvote hlead
    exact ⟨p, written_same h (hterm.trans h1) hvote hlogs hlead (fun e he => ⟨e, he, rfl⟩)
      (hout p)⟩
  · rw [h2] at hvote hlead
    have hnot : rf'.status ≠ .Leader := fun hs => by cases hlead hs
    exact ⟨_, written_raise h hc.lawful hnot (hterm ▸ h1) hvote hlogs
      (fun e he => ⟨e, he, rfl⟩) (hout _)⟩

theorem noSnapshot_seeTerm {rf : Raft N} (h : rf.NoSnapshot) (term : ℤ) :
    (rf.seeTerm term).NoSnapshot := ⟨by simp [h.index], by simp [h.term]⟩

theorem written_requestVote (h : Recorded p i n) {r : Rpc N RequestVoteArgs}
    (hvp : VotePacket p.toBallot (.requestVote r)) (hp : LogPacket p (.requestVote r))
    (hc : Cast p.toBallot i (n.receive (.requestVote r)).1 (n.receive (.requestVote r)).2) :
    ∃ p', Written p p' i (n.receive (.requestVote r)).1 (n.receive (.requestVote r)).2 := by
  simp only [Node.receive, Node.finish] at hc ⊢
  cases hres : n.rf.requestVote1 r.args with
  | none => exact ⟨p, written_restart h⟩
  | some x =>
    obtain ⟨rf', reply⟩ := x
    simp only [hres, Option.map_some] at hc ⊢
    have hsnap := h.plain.snap
    have hout : ∀ p' : Ledger (Fin N) LogEntry, ∀ q ∈ [Packet.requestVoteReply r reply],
        LogPacket p' q := by
      intro p' q hq
      rw [List.mem_singleton] at hq
      subst hq
      trivial
    rcases requestVote1_cases hres with ⟨_, rfl, _⟩ | ⟨hle, rfl, _⟩ | ⟨hle, hup, hfree, rfl, _⟩
    · exact ⟨p, written_side h rfl rfl rfl rfl rfl (hout p)⟩
    · exact written_seeTerm h hc hle (by simp [seeTerm_of_le hle]) rfl (by simp) id hout
    · -- the vote is for a log that is at least as up to date
      obtain ⟨hnonneg, hsrc, hcand⟩ := hvp
      set rf' := persist { n.rf.seeTerm r.args.term with votedFor := r.args.candidateid } with hrf'
      have hterm' : rf'.currentTerm = r.args.term := seeTerm_of_le hle
      have hlogs : rf'.logs = n.rf.logs := by simp [hrf']
      have hupto : UpToDate (p.ballotLog r.src r.args.term.toNat) (p.log i) := by
        rw [← h.logged.log]
        exact (hsnap.uptodata_iff (logterm_nonneg h) hp.index hp.term).mp hup
      have hvoted : (voteOf rf'.votedFor : Option (Fin N)) = some r.src := by
        show voteOf r.args.candidateid = _
        rw [hcand, voteOf_val]
      by_cases hlead : rf'.status = .Leader
      · -- a leader votes again for itself
        have hs : (n.rf.seeTerm r.args.term).status = .Leader := hlead
        rcases seeTerm_cases hle with ⟨h1, h2⟩ | ⟨_, h2⟩
        · rw [h2] at hs
          refine ⟨_, written_lead h hc.lawful hs hlead (hterm'.trans h1) ?_
            (hlogs ▸ Extends.refl _ _) (Logged.numbered h hlogs) (fun e he => ⟨e, he, rfl⟩)
            (hout _)⟩
          have hown : n.rf.votedFor = i.val := by
            rw [h.voted.vote, h.voted.self hs]
            rfl
          show r.args.candidateid = n.rf.votedFor
          rw [h2, hown] at hfree
          rcases hfree with hfree | hfree
          · omega
          · rw [hown, hfree]
        · rw [h2] at hs
          cases hs
      · refine ⟨_, written_observe p.ballotLog h hc.lawful hlead hlogs (fun _ _ _ => rfl)
          h.sound.ballotLog_follows ?_ ?_ (hout _)⟩
        · intro x hx
          have hx' : (voteOf rf'.votedFor : Option (Fin N)) = some x := hx
          rw [hvoted] at hx'
          cases hx'
          right
          show UpToDate (p.ballotLog r.src rf'.currentTerm.toNat) (p.log i)
          rw [hterm']
          exact hupto
        · intro e he
          have hrun := h.logged.running e he
          have ht : (observed p i rf' p.ballotLog).term i = rf'.currentTerm.toNat :=
            Ballot.observe_term_self _ _ _ _ _
          refine ⟨hrun.stood.congr rfl, fun hnone hterm => ?_⟩
          have hold := h.counted e he
          refine hrun.standing ?_ ?_
          · by_contra hsome
            obtain ⟨x, hx⟩ := Option.ne_none_iff_exists'.mp hsome
            have : (rf'.seenIn p.toBallot i).leader e.args.term.toNat = some x :=
              Ballot.Legal.leader_mono hc.lawful hx
            rw [show (rf'.seenIn p.toBallot i).leader e.args.term.toNat = none from hnone] at this
            cases this
          · -- the node is in the term of its election
            rw [ht, hterm'] at hterm
            have h1 := hold.term_le
            have h2 := hold.nonneg
            have h3 := h.voted.term
            omega

theorem written_requestVoteReply (h : Recorded p i n) {r : Rpc N RequestVoteArgs}
    {reply : RequestVoteReply} (hsrc : r.src = i)
    (hvp : VotePacket p.toBallot (.requestVoteReply r reply))
    (hc : Cast p.toBallot i (n.receiveVote r reply) []) :
    ∃ p', Written p p' i (n.receiveVote r reply) [] := by
  have hside : Written p p i n [] := written_side h rfl rfl rfl rfl rfl (by simp)
  unfold Node.receiveVote at hc ⊢
  cases hel : n.election with
  | none => exact ⟨p, hside⟩
  | some e =>
    simp only [hel] at hc ⊢
    split_ifs at hc ⊢ with hw
    · cases hres : n.rf.sendRequestVote reply e.votedNum with
      | none => exact ⟨p, written_restart h⟩
      | some x =>
        obtain ⟨rf', k'⟩ := x
        simp only [hres] at hc ⊢
        have hcount := h.counted e hel
        rcases sendRequestVote_cases hres with ⟨hgt, rfl, rfl⟩ | ⟨rfl, rfl⟩ |
          ⟨_, _, _, rfl, rfl⟩ | ⟨hterm, hg, hmaj, _, rfl, rfl⟩
        · refine ⟨_, written_raise h hc.lawful (by show Status.Follower ≠ .Leader; decide) hgt rfl
            rfl ?_ (by simp)⟩
          rintro e' ⟨⟩
          exact ⟨e, hel, rfl⟩
        · refine ⟨p, written_same h rfl rfl rfl id ?_
            (by simp)⟩
          rintro e' ⟨⟩
          exact ⟨e, hel, rfl⟩
        · refine ⟨p, written_same h rfl rfl rfl id ?_
            (by simp)⟩
          rintro e' ⟨⟩
          exact ⟨e, hel, rfl⟩
        · -- the node wins: nobody has led the term, so its log is the one it stood with
          obtain ⟨_, _, _, hargs⟩ := hcount.waiting r hw
          obtain ⟨h1, h2⟩ := hvp hg
          rw [hargs] at h1 h2
          have heq : e.args.term = n.rf.currentTerm := by omega
          have ht : e.args.term.toNat = p.term i := by rw [heq, h.voted.term, Int.toNat_natCast]
          obtain ⟨hnone, _, _⟩ := hcount.wins h.sound.ballot hw (by rw [h2, hsrc]) hmaj
          obtain ⟨_, f2, f3, f4, f5, _⟩ := becomeLeader_fields n.rf
          have hstood := (h.logged.running e hel).standing hnone ht
          rw [ht] at hnone hstood
          refine ⟨_, written_win h hc.lawful f5 hnone f2 f3 f4 hstood
            ?_ (by simp)⟩
          rintro e' ⟨⟩
          exact ⟨e, hel, rfl⟩
    · exact ⟨p, hside⟩

end MyKvRaft
