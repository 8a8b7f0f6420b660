import MyKvRaft.Safety.OwnSteps

/-!
# Following a leader

* `accept_logs`: what an accepted request makes of the log.
* `accept_copies`: under `CleanOverwrite`, that is copying the leader.
* `Replicated.step`: every step that meets both conditions keeps the ledger.
-/

namespace MyKvRaft

open Consensus Transition Raft

variable {N : ℕ} {p : Ledger (Fin N) LogEntry} {i : Fin N} {n : Node N}

theorem termAt_nonneg {l : List LogEntry} (h : Numbered l) {k : ℕ} (hk : k ≤ l.length) :
    0 ≤ termAt l k := by
  cases k with
  | zero => rfl
  | succ k =>
    rw [termAt_succ, List.getElem?_eq_getElem hk]
    exact (h k _ (List.getElem?_eq_getElem hk)).2

/-- Two logs that follow the leaders and have the same term at `k` agree up to there. -/
theorem take_eq_of_termAt {l l' : List LogEntry} (hl : Follows p.lead l) (hl' : Follows p.lead l')
    {k : ℕ} (hk : k ≤ l.length) (hk' : k ≤ l'.length) (hterm : termAt l k = termAt l' k) :
    l.take k = l'.take k := by
  cases k with
  | zero => simp
  | succ k =>
    rw [termAt_succ, termAt_succ, List.getElem?_eq_getElem hk, List.getElem?_eq_getElem hk'] at hterm
    refine hl.agree hl' (List.getElem?_eq_getElem hk) (List.getElem?_eq_getElem hk') ?_
    have : (l[k].logterm : ℤ) = l'[k].logterm := hterm
    simp only [termOf, this]

/-- What an accepted request makes of the log: the leader's log up to the end of the request,
    followed by what was behind it. -/
theorem accept_logs (h : Recorded p i n) {r : Rpc N AppendEntriesArgs} (hsl : Sliced p r)
    (hmatch : n.rf.matchLog r.args.prevlogindex r.args.prevlogterm = true) {logs : List LogEntry}
    (hfold : r.args.entries.foldlM appendEntry (n.rf.follow r.args.term) =
      some { n.rf.follow r.args.term with logs := logs }) :
    0 ≤ r.args.prevlogterm ∧
    r.args.prevlogindex.toNat + r.args.entries.length ≤ (p.lead r.args.term.toNat).length ∧
    n.rf.logs.take r.args.prevlogindex.toNat =
      (p.lead r.args.term.toNat).take r.args.prevlogindex.toNat ∧
    logs = (p.lead r.args.term.toNat).take (r.args.prevlogindex.toNat + r.args.entries.length) ++
      n.rf.logs.drop (r.args.prevlogindex.toNat + r.args.entries.length) := by
  have hsnap := h.plain.snap
  have hfollows : Follows p.lead n.rf.logs := h.logged.log ▸ h.sound.log_follows i
  have hprev : r.args.prevlogindex = (r.args.prevlogindex.toNat : ℤ) :=
    (Int.toNat_of_nonneg hsl.prev).symm
  generalize r.args.prevlogindex.toNat = k at hprev
  rw [hprev] at hmatch
  obtain ⟨hk, hterm⟩ := hsnap.matchLog_iff.mp hmatch
  have hnn : 0 ≤ r.args.prevlogterm := hterm ▸ termAt_nonneg (Logged.numbered h rfl) hk
  obtain ⟨hlen, hslice, hprevterm⟩ := hsl.slice hnn
  set L := p.lead r.args.term.toNat with hL
  set m := r.args.entries.length with hm
  have hk' : r.args.prevlogindex.toNat = k := by omega
  rw [hk'] at hlen hslice hprevterm
  have htake : n.rf.logs.take k = L.take k :=
    take_eq_of_termAt hfollows (h.sound.lead_follows _) hk (by rw [← hL]; omega)
      (hterm.trans hprevterm)
  -- an entry of the request stands at its place in the leader's log
  have hget : ∀ j e, r.args.entries[j]? = some e → L[k + j]? = some e := by
    intro j e he
    have hj : j < m := (List.getElem?_eq_some_iff.mp he).1
    rw [hslice, List.getElem?_take_of_lt hj, List.getElem?_drop] at he
    exact he
  have hfollow : (n.rf.follow r.args.term).NoSnapshot := by
    have := noSnapshot_seeTerm hsnap r.args.term
    exact ⟨this.index, this.term⟩
  have hlogs : (n.rf.follow r.args.term).logs = n.rf.logs := seeTerm_logs _ _
  have hloop := foldlM_appendEntry_logs (k := k) (hlogs ▸ hk)
    (fun j e he => by
      have := (h.numbered _ _ e (hget j e he)).1
      rw [hfollow.index]
      push_cast at this
      omega)
    (fun j e l he hl hsame _ => by
      rw [hlogs] at hl
      have hagree := hfollows.agree (h.sound.lead_follows _) hl (hget j e he)
        (by simp only [termOf, hsame])
      have hval := getElem?_eq_of_take_eq hagree (Nat.lt_succ_self (k + j))
      rw [hl] at hval
      exact Option.some.inj (hval.trans (hget j e he))) hfold
  refine ⟨hnn, hlen, htake, ?_⟩
  rw [Splice.splice, hlogs, htake, ← hm] at hloop
  have hsplit : L.take (k + m) = L.take k ++ r.args.entries := by
    rw [List.take_add, ← hslice]
  rw [hsplit]
  exact hloop

/-- If nothing was overwritten in front of kept entries, the follower has copied the leader. -/
theorem accept_copies (h : Recorded p i n) {r : Rpc N AppendEntriesArgs} (hsl : Sliced p r)
    (hmatch : n.rf.matchLog r.args.prevlogindex r.args.prevlogterm = true) {logs : List LogEntry}
    (hfold : r.args.entries.foldlM appendEntry (n.rf.follow r.args.term) =
      some { n.rf.follow r.args.term with logs := logs })
    (hclean : n.rf.Conflicts r.args →
      n.rf.getLastLogIndex ≤ r.args.prevlogindex + r.args.entries.length) :
    Ledger.Copies ((p.lead r.args.term.toNat).take
      (r.args.prevlogindex.toNat + r.args.entries.length)) n.rf.logs logs := by
  obtain ⟨hnn, hlen, htake, hlogs⟩ := accept_logs h hsl hmatch hfold
  obtain ⟨_, hslice, _⟩ := hsl.slice hnn
  have hsnap := h.plain.snap
  have hprev := hsl.prev
  set L := p.lead r.args.term.toNat with hL
  set k := r.args.prevlogindex.toNat with hk
  set m := r.args.entries.length with hm
  have hPlen : (L.take (k + m)).length = k + m := by rw [List.length_take]; omega
  by_cases hpre : L.take (k + m) <+: n.rf.logs
  · left
    refine ⟨hpre, ?_⟩
    obtain ⟨x, hx⟩ := hpre
    rw [hlogs, ← hx, List.drop_left' hPlen]
  · right
    refine ⟨hpre, ?_⟩
    have hshort : n.rf.logs.length ≤ k + m := by
      by_contra hlong
      push Not at hlong
      apply hpre
      rw [List.prefix_iff_eq_take, hPlen]
      refine List.ext_getElem? fun j => ?_
      by_cases hj : j < k + m
      · by_cases hjk : j < k
        · rw [List.getElem?_take_of_lt hj, List.getElem?_take_of_lt hj,
            getElem?_eq_of_take_eq htake hjk]
        · -- an entry of the request: no conflict, so the same entry
          obtain ⟨q, rfl⟩ : ∃ q, j = k + q := ⟨j - k, by omega⟩
          have hLq : k + q < L.length := by omega
          have hnq : k + q < n.rf.logs.length := by omega
          rw [List.getElem?_take_of_lt hj, List.getElem?_take_of_lt hj]
          have hentry : r.args.entries[q]? = some L[k + q] := by
            rw [hslice, List.getElem?_take_of_lt (by omega), List.getElem?_drop,
              List.getElem?_eq_getElem hLq]
          have hno : ¬ n.rf.Conflicts r.args := fun hcon => by
            have := hclean hcon
            rw [hsnap.getLastLogIndex] at this
            omega
          have hindex : L[k + q].logindex = ((k + q : ℕ) : ℤ) + 1 :=
            (h.numbered _ _ _ (List.getElem?_eq_getElem hLq)).1
          have hsame : n.rf.logs[k + q].logterm = L[k + q].logterm := by
            by_contra hne
            refine hno ⟨_, List.mem_of_getElem? hentry, ?_⟩
            rw [hindex, hsnap.slot_succ, List.getElem?_eq_getElem hnq]
            simpa using hne
          have hfollows : Follows p.lead n.rf.logs := h.logged.log ▸ h.sound.log_follows i
          have hagree := hfollows.agree (h.sound.lead_follows _) (List.getElem?_eq_getElem hnq)
            (List.getElem?_eq_getElem hLq) (by simp only [termOf, hsame])
          exact (getElem?_eq_of_take_eq hagree (Nat.lt_succ_self _)).symm
      · rw [List.getElem?_eq_none (by rw [List.length_take]; omega),
          List.getElem?_eq_none (by rw [List.length_take]; omega)]
    rw [hlogs, List.drop_of_length_le hshort, List.append_nil]

theorem written_appendEntries (h : Recorded p i n) {r : Rpc N AppendEntriesArgs} (hdst : r.dst = i)
    (hsl : Sliced p r)
    (hclean : n.rf.Accepts r.args → n.rf.Conflicts r.args →
      n.rf.getLastLogIndex ≤ r.args.prevlogindex + r.args.entries.length)
    (hc : Cast p.toBallot i (n.receive (.appendEntries r)).1 (n.receive (.appendEntries r)).2) :
    ∃ p', Written p p' i (n.receive (.appendEntries r)).1 (n.receive (.appendEntries r)).2 := by
  simp only [Node.receive, Node.finish] at hc ⊢
  cases hres : n.rf.appendEntries1 r.args with
  | none => exact ⟨p, written_restart h⟩
  | some x =>
    obtain ⟨rf', reply⟩ := x
    simp only [hres, Option.map_some] at hc ⊢
    have hreject : reply.success = false → ∀ p' : Ledger (Fin N) LogEntry,
        ∀ q ∈ [Packet.appendEntriesReply r reply], LogPacket p' q := by
      intro hf p' q hq
      rw [List.mem_singleton] at hq
      subst hq
      intro ht
      rw [hf] at ht
      cases ht
    rcases appendEntries1_cases hres with ⟨_, rfl, hf⟩ | ⟨hle, rfl, hf⟩ |
      ⟨hle, hrange, hbase, hmatch, hacc⟩
    · exact ⟨p, written_side h rfl rfl rfl rfl rfl (hreject hf p)⟩
    · exact written_seeTerm h hc hle (by simp [follow, seeTerm_of_le hle]) rfl (by simp [follow])
        (fun hs => by cases hs) (hreject hf)
    · obtain ⟨logs, hfold, _, rfl, _, hreply⟩ := acceptEntries_cases hacc
      set rf' := persist { n.rf.follow r.args.term with
        logs := logs
        commitIndex := followerCommit (n.rf.follow r.args.term).commitIndex r.args.leadercommit
          ((n.rf.follow r.args.term).lastSnapshotIncludeIndex + logs.length) } with hrf'
      have hterm : rf'.currentTerm = r.args.term := seeTerm_of_le hle
      obtain ⟨hnn, hlen, _, _⟩ := accept_logs h hsl hmatch hfold
      have hcopy := accept_copies h hsl hmatch hfold
        (hclean ⟨hle, hrange, hbase, hmatch⟩)
      refine ⟨copying p i rf' (r.args.prevlogindex.toNat + r.args.entries.length),
        written_copy h hc.lawful (by show Status.Follower ≠ .Leader; decide) ?_ ?_ ?_ ?_ ?_ rfl ?_⟩
      · show n.rf.currentTerm ≤ rf'.currentTerm
        rw [hterm]
        exact hle
      · show (n.rf.seeTerm r.args.term).votedFor = (n.rf.seeTerm rf'.currentTerm).votedFor
        rw [hterm]
      · show p.leader rf'.currentTerm.toNat ≠ none
        rw [hterm, hsl.leader]
        simp
      · show _ ≤ (p.lead rf'.currentTerm.toNat).length
        rw [hterm]
        exact hlen
      · show Ledger.Copies ((p.lead rf'.currentTerm.toNat).take _) n.rf.logs logs
        rw [hterm]
        exact hcopy
      · -- the reply: the follower agrees up to the end of the request
        intro q hq
        rw [List.mem_singleton] at hq
        subst hq
        intro _
        have hack : (copying p i rf' (r.args.prevlogindex.toNat + r.args.entries.length)).ack i
            r.args.term.toNat = max (p.ack i r.args.term.toNat)
              (r.args.prevlogindex.toNat + r.args.entries.length) := by
          rw [← hterm]
          exact Ledger.copiedBy_ack_self
        refine ⟨⟨hsl.nonneg, hsl.prev, ?_, ?_⟩, hnn, ?_, ?_⟩
        · rw [copying, Ledger.copiedBy_leader]
          exact hsl.leader
        · rw [copying, Ledger.copiedBy_lead]
          exact hsl.slice
        · rw [hreply]
          exact seeTerm_of_le hle
        · rw [hdst, hack]
          exact le_max_right _ _

theorem written_appendEntriesReply (h : Recorded p i n) {r : Rpc N AppendEntriesArgs}
    {reply : AppendEntriesReply} (hc : Cast p.toBallot i (n.receiveAppend r reply) []) :
    ∃ p', Written p p' i (n.receiveAppend r reply) [] := by
  unfold Node.receiveAppend at hc ⊢
  cases hfind : n.calls.find? (·.rpc = r) with
  | none => exact ⟨p, written_side h rfl rfl rfl rfl rfl (by simp)⟩
  | some call =>
    simp only [hfind] at hc ⊢
    cases hres : n.rf.sendAppendEntries r.dst r.args reply
        (n.counters.getD call.appendNums 0) with
    | none => exact ⟨p, written_restart h⟩
    | some x =>
      obtain ⟨rf', k'⟩ := x
      simp only [hres] at hc ⊢
      rcases sendAppendEntries_cases hres with ⟨rfl, _⟩ | ⟨hgt, rfl, _⟩ | ⟨_, _, _, rfl, _⟩ |
        ⟨_, _, _, _, rfl, _⟩ | ⟨_, _, _, _, _, rfl, _⟩ | ⟨_, _, _, _, _, rfl, _⟩
      · exact ⟨p, written_side h rfl rfl rfl rfl rfl
          (by simp)⟩
      · exact ⟨_, written_raise h hc.lawful (by show Status.Follower ≠ .Leader; decide) hgt rfl rfl
          (fun e he => ⟨e, he, rfl⟩) (by simp)⟩
      · obtain ⟨nextIdx, heq⟩ := n.rf.handleLogMismatch_eq r.dst reply
        rw [heq]
        exact ⟨p, written_side h rfl rfl rfl rfl rfl (by simp)⟩
      · exact ⟨p, written_side h rfl rfl rfl rfl rfl (by simp)⟩
      · exact ⟨p, written_side h rfl rfl rfl rfl rfl (by simp)⟩
      · exact ⟨p, written_side h rfl rfl rfl rfl rfl (by simp)⟩

/-! ## The cluster -/

theorem written_step (h : Recorded p i n) {input : Input N}
    (hfresh : ∀ clock peer entries rest, input = .batchSender clock →
      n.rf.batchSenderThread = some (.build peer entries rest) → n.rf.OwnBatch entries)
    (hc : Cast p.toBallot i (n.step input).1 (n.step input).2) :
    ∃ p', Written p p' i (n.step input).1 (n.step input).2 := by
  cases input with
  | electionTimeout => exact written_electionTimeout h hc
  | requestVotes => exact ⟨p, written_requestVotes h⟩
  | requestVoteFails => exact ⟨p, written_requestVoteFails h⟩
  | start command now => exact written_start h hc
  | heartBeat => exact ⟨p, written_heartBeat h⟩
  | batchSender clock =>
    exact ⟨p, written_batchSender h clock fun peer entries rest =>
      hfresh clock peer entries rest rfl⟩
  | appendFails k =>
    exact ⟨p, written_side h rfl rfl rfl rfl rfl
      (by simp [Node.step])⟩
  | sendSnapShot k =>
    have heq : n.sendSnapShot k = (n, []) := by
      unfold Node.sendSnapShot
      rw [h.plain.threads]
      rfl
    simp only [Node.step, heq]
    exact ⟨p, written_side h rfl rfl rfl rfl rfl (by simp)⟩
  | snapshotFails k =>
    exact ⟨p, written_side h rfl rfl rfl rfl rfl
      (by simp [Node.step])⟩
  | apply =>
    simp only [Node.step, Node.apply]
    split_ifs
    · exact ⟨p, written_side h rfl rfl rfl rfl rfl (by simp)⟩
    · cases happ : n.rf.applierTicker with
      | none => exact ⟨p, written_restart h⟩
      | some x =>
        obtain ⟨rf', msgs⟩ := x
        unfold applierTicker at happ
        dsimp only at happ
        split at happ
        · cases happ
        · cases happ
          exact ⟨p, written_side h rfl rfl rfl rfl rfl (by simp)⟩
  | push =>
    exact ⟨p, written_side h rfl rfl rfl rfl rfl
      (by simp [Node.step])⟩
  | crash => exact ⟨p, written_restart h⟩

theorem written_receive (h : Recorded p i n) {q : Packet N} (htarget : q.target = i)
    (hord : Node.Ordinary q)
    (hvp : VotePacket p.toBallot q) (hp : LogPacket p q)
    (hclean : ∀ r, q = .appendEntries r → n.rf.Accepts r.args → n.rf.Conflicts r.args →
      n.rf.getLastLogIndex ≤ r.args.prevlogindex + r.args.entries.length)
    (hc : Cast p.toBallot i (n.receive q).1 (n.receive q).2) :
    ∃ p', Written p p' i (n.receive q).1 (n.receive q).2 := by
  cases q with
  | requestVote r => exact written_requestVote h hvp hp hc
  | requestVoteReply r reply => exact written_requestVoteReply h htarget hvp hc
  | appendEntries r => exact written_appendEntries h htarget hp (hclean r rfl) hc
  | appendEntriesReply r reply => exact written_appendEntriesReply h hc
  | installSnapshot r => exact absurd hord id
  | installSnapshotReply r resp => exact absurd hord id

section Cluster

variable {s : Cluster N}

theorem Replicated.act (h : Replicated s p) {i : Fin N} {input : Input N}
    (hf : FreshBatch s (.act i input)) :
    ∃ p', Written p p' i ((s.nodes i).step input).1 ((s.nodes i).step input).2 ∧
      Replicated (s.step (.act i input)) p' := by
  have hc := cast_step h.elections.valid (h.elections.node i) (h.elections.election i) input
  obtain ⟨p', hw⟩ := written_step (h.recorded i) (fun clock peer entries rest hin hpc => by
    subst hin
    exact hf (i, entries) (by simp [batchToBuild, hpc])) hc
  exact ⟨p', hw, h.update hc hw (fun _ hq => hq) (h.tidy.step (.act i input))⟩

theorem Replicated.deliver (h : Replicated s p) {k : ℕ} {q : Packet N}
    (hq : s.network[k]? = some q) (hcl : CleanOverwrite s (.deliver k)) :
    ∃ p', Written p p' q.target ((s.nodes q.target).receive q).1
        ((s.nodes q.target).receive q).2 ∧ Replicated (s.step (.deliver k)) p' := by
  have hmem := List.mem_of_getElem? hq
  have hvp := h.elections.packet q hmem
  have hc := cast_receive h.elections.valid (h.elections.node q.target)
    (h.elections.election q.target) rfl hvp
  obtain ⟨p', hw⟩ := written_receive (h.recorded q.target) rfl (h.tidy.packet q hmem) hvp (h.packet q hmem) (fun r hr => by
    subst hr
    exact hcl r (by simp [appendDelivered, hq])) hc
  have htidy := h.tidy.step (.deliver k)
  simp only [Cluster.step, hq] at htidy ⊢
  exact ⟨p', hw, h.update hc hw (fun _ hq' => List.mem_of_mem_eraseIdx hq') htidy⟩

/-- A delivery of nothing. -/
theorem step_deliver_none {k : ℕ} (hk : s.network[k]? = none) : s.step (.deliver k) = s := by
  simp only [Cluster.step, hk]

/-- Every step that takes neither of the two branches keeps the ledger. -/
theorem Replicated.step (h : Replicated s p) {a : Action N} (hclean : Clean s a) :
    ∃ p', p.Le p' ∧ Replicated (s.step a) p' := by
  cases a with
  | act i input =>
    obtain ⟨p', hw, h'⟩ := h.act hclean.1
    exact ⟨p', hw.le, h'⟩
  | deliver k =>
    cases hk : s.network[k]? with
    | none => exact ⟨p, Ledger.Le.refl p, (step_deliver_none hk).symm ▸ h⟩
    | some q =>
      obtain ⟨p', hw, h'⟩ := h.deliver hk hclean.2
      exact ⟨p', hw.le, h'⟩

end Cluster

end MyKvRaft
