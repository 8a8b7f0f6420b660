import MyKvRaft.Safety.Commit

/-!
# State machine safety

What a node commits is certified: it is part of what was chosen in some term. A
leader commits what is chosen (`Replicated.committed`); a follower commits what
the request says, up to the end of its own log. The request speaks for the log of
the leader, and the follower has compared its log with it only up to the end of
the entries. `SafeCommit` says that the logs are the same behind them too.

* `Applies.step`: in a clean step that meets `SafeCommit`, every commit index and
  every message for the `KvServer` stays certified.
* `state_machine_safety`: in a run of such steps, no two deliveries carry different
  commands for one index.
* `state_machine_safety_fails`: an empty heartbeat commits a suffix that was never
  compared with the leader's.
-/

namespace MyKvRaft

open Consensus Transition Raft

variable {N : ℕ}

/-! ## The condition -/

/-- Behind the entries of the request and up to the commit index it carries, the log of `rf` is
    the log of `leader`. -/
def Raft.AgreesBehind (rf leader : Raft N) (args : AppendEntriesArgs) : Prop :=
  ∀ k < rf.logs.length,
    let index : ℤ := rf.lastSnapshotIncludeIndex + k + 1
    args.prevlogindex + args.entries.length < index → index ≤ args.leadercommit →
      rf.entryAt index = leader.entryAt index

/-- No accepted request makes its receiver commit entries that its sender does not have. -/
def SafeCommit (s : Cluster N) (a : Action N) : Prop :=
  ∀ r ∈ appendDelivered s a, (s.nodes r.dst).rf.Accepts r.args →
    (s.nodes r.dst).rf.commitIndex < r.args.leadercommit →
      (s.nodes r.dst).rf.AgreesBehind (s.nodes r.src).rf r.args

section Decidable

variable (rf leader : Raft N) (args : AppendEntriesArgs) (s : Cluster N) (a : Action N)

instance : Decidable (rf.AgreesBehind leader args) :=
  inferInstanceAs (Decidable (∀ k < rf.logs.length, _ → _ → _))
instance : Decidable (SafeCommit s a) := inferInstanceAs (Decidable (∀ r ∈ _, _))

end Decidable

theorem mem_of_mapM {α β : Type} {f : α → Option β} {l : List α} {l' : List β}
    (h : l.mapM f = some l') {b : β} (hb : b ∈ l') : ∃ a ∈ l, f a = some b := by
  induction l generalizing l' with
  | nil =>
    rw [List.mapM_nil] at h
    cases h
    simp at hb
  | cons a l ih =>
    rw [List.mapM_cons, Option.bind_eq_bind, Option.bind_eq_some_iff] at h
    obtain ⟨b', hb', h⟩ := h
    rw [Option.bind_eq_bind, Option.bind_eq_some_iff] at h
    obtain ⟨l'', hl'', h⟩ := h
    cases h
    rcases List.mem_cons.mp hb with rfl | hb
    · exact ⟨a, List.mem_cons_self, hb'⟩
    · obtain ⟨x, hx, hfx⟩ := ih hl'' hb
      exact ⟨x, List.mem_cons_of_mem a hx, hfx⟩

/-! ## The relation -/

/-- A message for the `KvServer` is of an entry that is certified. -/
def Delivers (p : Ledger (Fin N) LogEntry) (m : ApplyMsg) : Prop :=
  ∃ (k t : ℕ) (l : List LogEntry) (e : LogEntry), m.index = k + 1 ∧ p.Certified l t (k + 1) ∧
    l[k]? = some e ∧ m.command = e.command

/-- What a request says is committed is so in the log of its leader, and its sender has it. -/
structure Vouched (p : Ledger (Fin N) LogEntry) (r : Rpc N AppendEntriesArgs) : Prop where
  nonneg : 0 ≤ r.args.leadercommit
  lead : p.Certified (p.lead r.args.term.toNat) r.args.term.toNat r.args.leadercommit.toNat
  sender : p.Certified (p.log r.src) (p.term r.src) r.args.leadercommit.toNat

/-- Node `i` commits and applies only what is certified. -/
structure Applied (p : Ledger (Fin N) LogEntry) (i : Fin N) (n : Node N) : Prop where
  nonneg : 0 ≤ n.rf.commitIndex
  commit : p.Certified (p.log i) (p.term i) n.rf.commitIndex.toNat
  lastApplied : 0 ≤ n.rf.lastApplied
  applying : ∀ m ∈ n.applying, Delivers p m

structure Applies (s : Cluster N) (p : Ledger (Fin N) LogEntry) : Prop extends
    Replicated s p where
  applied : ∀ i, Applied p i (s.nodes i)
  vouched : ∀ r, Packet.appendEntries r ∈ s.network → Vouched p r

section Keeping

variable {p p' : Ledger (Fin N) LogEntry} {i j : Fin N} {n n' n₁ : Node N} {out : List (Packet N)}

theorem Delivers.mono (hs : p.Sound) (hle : p.Le p') {m : ApplyMsg} (h : Delivers p m) :
    Delivers p' m := by
  obtain ⟨k, t, l, e, h1, h2, h3⟩ := h
  exact ⟨k, t, l, e, h1, h2.mono hs hle, h3⟩

/-- Two messages for one index carry one command. -/
theorem Delivers.agree (hs : p.Sound) {m m' : ApplyMsg} (h : Delivers p m) (h' : Delivers p m')
    (hindex : m.index = m'.index) : m.command = m'.command := by
  obtain ⟨k, t, l, e, h1, h2, h3, h4⟩ := h
  obtain ⟨k', t', l', e', h1', h2', h3', h4'⟩ := h'
  obtain rfl : k' = k := by omega
  have hsame := getElem?_eq_of_take_eq (h2.agree hs h2') (Nat.lt_succ_self k')
  rw [h3, h3'] at hsame
  rw [h4, h4', Option.some.inj hsame]

/-- A step of node `i` loses nothing that is certified of a log. -/
theorem Written.keeps (hs : p.Sound) (hw : Written p p' i n out) {k : ℕ}
    (h : p.Certified (p.log j) (p.term j) k) : p'.Certified (p'.log j) (p'.term j) k := by
  by_cases hj : j = i
  · subst hj
    exact (hw.certified k h).mono hs hw.le
  · have hterm : p'.term j = p.term j := by
      rw [hw.ballot]
      exact Ballot.observe_term_ne _ _ _ _ _ hj
    rw [hw.log_ne j hj, hterm]
    exact h.mono hs hw.le

theorem Vouched.keep (hs : p.Sound) (hw : Written p p' i n out) {r : Rpc N AppendEntriesArgs}
    (h : Vouched p r) : Vouched p' r :=
  ⟨h.nonneg, h.lead.lead_mono hs hw.le, hw.keeps hs h.sender⟩

theorem Applied.keep (hs : p.Sound) (hw : Written p p' i n₁ out) (h : Applied p j n)
    (hn : Node.Steady n n') : Applied p' j n' := by
  refine ⟨?_, ?_, ?_, fun m hm => ?_⟩
  · rw [hn.commitIndex]; exact h.nonneg
  · rw [hn.commitIndex]; exact hw.keeps hs h.commit
  · rw [hn.lastApplied]; exact h.lastApplied
  · rw [hn.applying] at hm
    exact (h.applying m hm).mono hs hw.le

theorem applied_restart : Applied p i n.restart := by
  have hcommit : n.restart.rf.commitIndex = 0 := init_commitIndex _ _
  refine ⟨hcommit.ge, ?_, init_lastApplied_nonneg _ _, fun m hm => ?_⟩
  · rw [hcommit]
    exact Or.inl rfl
  · simp [Node.restart] at hm

/-- What `applierTicker` hands out. -/
theorem applierTicker_delivers (hsnap : n.rf.NoSnapshot) (hlog : n.rf.logs = p.log i)
    (h : Applied p i n) {rf' : Raft N} {msgs : List ApplyMsg}
    (happ : n.rf.applierTicker = some (rf', msgs)) : ∀ m ∈ msgs, Delivers p m := by
  intro m hm
  obtain ⟨index, hmem, hindex⟩ := mem_of_mapM (applierTicker_eq happ).2 hm
  obtain ⟨e, he, rfl⟩ := Option.map_eq_some_iff.mp hindex
  obtain ⟨q, hq, rfl⟩ := List.mem_map.mp hmem
  rw [List.mem_range] at hq
  have hlast := h.lastApplied
  obtain ⟨k, hk, hget⟩ := hsnap.entryAt_eq he
  refine ⟨k, p.term i, p.log i, e, hk, h.commit.of_le le_rfl ?_, hlog ▸ hget, rfl⟩
  omega

/-- A node acts by itself. -/
theorem Applied.step (hs : p.Sound) (hsnap : n.rf.NoSnapshot) (hlog : n.rf.logs = p.log i)
    (h : Applied p i n) {input : Input N} (hw : Written p p' i (n.step input).1 out) :
    Applied p' i (n.step input).1 := by
  have hsame : Applied p' i n := h.keep hs hw ⟨rfl, rfl, rfl⟩
  rcases n.step_commit input with ⟨_, heq⟩ | hsteady | ⟨_, heq⟩ | ⟨rf', msgs, _, happ, heq⟩
  · rw [heq]
    exact applied_restart
  · exact h.keep hs hw hsteady
  · rw [heq]
    exact ⟨hsame.nonneg, hsame.commit, hsame.lastApplied,
      fun m hm => hsame.applying m (List.mem_of_mem_tail hm)⟩
  · rw [heq, (applierTicker_eq happ).1]
    refine ⟨hsame.nonneg, hsame.commit, le_max_of_le_left h.lastApplied, fun m hm => ?_⟩
    exact (applierTicker_delivers hsnap hlog h happ m hm).mono hs hw.le

theorem take_prefix_of_agree {L l logs : List LogEntry} {m c : ℕ}
    (hlogs : logs = L.take m ++ l.drop m) (hL : max m c ≤ L.length) (hc : c ≤ logs.length)
    (h : ∀ k, m ≤ k → k < c → l[k]? = L[k]?) : L.take c <+: logs := by
  rw [List.prefix_iff_eq_take, List.length_take, Nat.min_eq_left (by omega)]
  refine List.ext_getElem? fun k => ?_
  by_cases hk : k < c
  · rw [List.getElem?_take_of_lt hk, List.getElem?_take_of_lt hk, hlogs]
    by_cases hkm : k < m
    · rw [List.getElem?_append_left (by rw [List.length_take]; omega), List.getElem?_take_of_lt hkm]
    · rw [List.getElem?_append_right (by rw [List.length_take]; omega), List.getElem?_drop,
        ← h k (by omega) hk, List.length_take]
      congr 1
      omega
  · rw [List.getElem?_eq_none (by rw [List.length_take]; omega),
      List.getElem?_eq_none (by rw [List.length_take]; omega)]

/-- What a request makes its receiver commit is certified, if the logs agree behind it. -/
theorem applied_accept (h : Recorded p i n) {r : Rpc N AppendEntriesArgs} (hsl : Sliced p r)
    (hv : Vouched p r) (ha : n.rf.Accepts r.args) {leader : Raft N} (hl : leader.NoSnapshot)
    (hlogl : leader.logs = p.log r.src)
    (hsafe : n.rf.commitIndex < r.args.leadercommit → n.rf.AgreesBehind leader r.args)
    (happ : Applied p i n) {rf' : Raft N} {reply : AppendEntriesReply}
    (hacc : (n.rf.follow r.args.term).acceptEntries r.args = some (rf', reply))
    (hw : Written p p' i { n with rf := rf' } out) : Applied p' i { n with rf := rf' } := by
  have hsame : Applied p' i n := happ.keep h.sound hw ⟨rfl, rfl, rfl⟩
  obtain ⟨logs, hfold, _, hrf', _⟩ := acceptEntries_cases hacc
  have hcommit : rf'.commitIndex = followerCommit n.rf.commitIndex r.args.leadercommit
      logs.length := by
    have h0 : (n.rf.follow r.args.term).lastSnapshotIncludeIndex = 0 := by
      simp [follow, h.plain.snap.index]
    rw [hrf', h0]
    simp [follow]
  have hlast : rf'.lastApplied = n.rf.lastApplied := by simp [hrf', follow]
  by_cases hgt : r.args.leadercommit > n.rf.commitIndex
  · obtain ⟨_, hlen, _, hlogs⟩ := accept_logs h hsl ha.2.2.2 hfold
    rw [followerCommit, if_pos hgt] at hcommit
    have hlc := hv.nonneg
    have hprev := hsl.prev
    have hagree := hsafe hgt
    -- the new log is that of the leader up to the new commit index
    have htake : (p.lead r.args.term.toNat).take rf'.commitIndex.toNat <+: logs := by
      refine take_prefix_of_agree hlogs (by have := hv.lead.le_length; omega) (by omega) ?_
      intro k hk hkc
      have hk' : k < n.rf.logs.length := by
        have := congrArg List.length hlogs
        rw [List.length_append, List.length_take, List.length_drop] at this
        omega
      have hentry := hagree k hk'
      dsimp only at hentry
      rw [h.plain.snap.index, zero_add] at hentry
      have hsame := hentry (by omega) (by omega)
      rw [h.plain.snap.entryAt_succ, hl.entryAt_succ, hlogl] at hsame
      rw [hsame]
      exact getElem?_eq_of_take_eq (hv.sender.agree h.sound hv.lead) (by omega)
    have hle : rf'.commitIndex.toNat ≤ r.args.leadercommit.toNat := by omega
    have hcert := (hv.lead.of_le le_rfl hle).of_isPrefix htake
    have hlog' : logs = p'.log i := by
      rw [← hw.node.log, hrf']
      rfl
    have hterm : p'.term i = r.args.term.toNat := by
      rw [hw.ballot]
      refine (Ballot.observe_term_self _ _ _ _ _).trans ?_
      rw [hrf']
      exact congrArg Int.toNat (seeTerm_of_le ha.1)
    have hnn := happ.nonneg
    refine ⟨by show 0 ≤ rf'.commitIndex; omega, ?_, ?_, hsame.applying⟩
    · rw [hterm, ← hlog']
      exact hcert.mono h.sound hw.le
    · show 0 ≤ rf'.lastApplied
      rw [hlast]
      exact happ.lastApplied
  · rw [followerCommit, if_neg hgt] at hcommit
    exact happ.keep h.sound hw ⟨hcommit, hlast, rfl⟩

end Keeping

/-! ## The cluster -/

/-- A request carries the term and the commit index of its sender, which leads unless the
    request is built from a batch. -/
theorem Node.step_appendEntries {n : Node N} {input : Input N} {r : Rpc N AppendEntriesArgs}
    (h : Packet.appendEntries r ∈ (n.step input).2) :
    (r.src = n.rf.me ∧ r.args.term = n.rf.currentTerm ∧ r.args.leadercommit = n.rf.commitIndex) ∧
    (n.rf.status = .Leader ∨ ∃ clock peer entries rest, input = .batchSender clock ∧
      n.rf.batchSenderThread = some (.build peer entries rest)) := by
  cases sends_step h with
  | heartBeat hl hr =>
    obtain ⟨h1, _, h3, _⟩ := mem_heartBeatRpcs hr
    refine ⟨⟨h1, ?_, ?_⟩, Or.inl hl⟩
    · rw [h3]; rfl
    · rw [h3]; rfl
  | batch hpc => exact ⟨⟨rfl, rfl, rfl⟩, Or.inr ⟨_, _, _, _, rfl, hpc⟩⟩

section Steps

variable {s : Cluster N} {p p' : Ledger (Fin N) LogEntry}

theorem applies_init : Applies (Cluster.init N) Ledger.empty where
  toReplicated := replicated_init
  applied i := ⟨le_rfl, Or.inl rfl, le_rfl, fun m hm => by simp [Cluster.init, Node.init] at hm⟩
  vouched r hr := by simp [Cluster.init] at hr

theorem Applies.update (h : Applies s p) {i : Fin N} {result : Node N × List (Packet N)}
    {rest : List (Packet N)} (hw : Written p p' i result.1 result.2)
    (h' : Replicated (s.update i result rest) p') (hrest : ∀ q ∈ rest, q ∈ s.network)
    (happ : Applied p' i result.1)
    (hout : ∀ r, Packet.appendEntries r ∈ result.2 → Vouched p r) :
    Applies (s.update i result rest) p' where
  toReplicated := h'
  applied j := by
    by_cases hj : j = i
    · subst hj
      simpa [Cluster.update] using happ
    · simpa [Cluster.update, hj] using (h.applied j).keep h.sound hw ⟨rfl, rfl, rfl⟩
  vouched r hr := by
    rcases List.mem_append.mp hr with hr | hr
    · exact (h.vouched r (hrest _ hr)).keep h.sound hw
    · exact (hout r hr).keep h.sound hw

/-- The request of a leader speaks for its own log. -/
theorem Applies.vouched_own (h : Applies s p) {r : Rpc N AppendEntriesArgs}
    (hlead : (s.nodes r.src).rf.status = .Leader)
    (hterm : r.args.term = (s.nodes r.src).rf.currentTerm)
    (hcommit : r.args.leadercommit = (s.nodes r.src).rf.commitIndex) : Vouched p r := by
  have hv := h.elections.node r.src
  have ht : r.args.term.toNat = p.term r.src := by rw [hterm, hv.term, Int.toNat_natCast]
  have happ := h.applied r.src
  refine ⟨hcommit ▸ happ.nonneg, ?_, hcommit ▸ happ.commit⟩
  rw [ht, hcommit, (hv.lead hlead).2, (h.node r.src).log]
  exact happ.commit

theorem Applies.act (h : Applies s p) {i : Fin N} {input : Input N}
    (hf : FreshBatch s (.act i input)) : ∃ p', p.Le p' ∧ Applies (s.step (.act i input)) p' := by
  obtain ⟨p', hw, h'⟩ := h.toReplicated.act hf
  refine ⟨p', hw.le, h.update hw h' (fun _ hq => hq) ?_ fun r hr => ?_⟩
  · exact (h.applied i).step h.sound (h.tidy.node i).plain.snap (h.node i).log hw
  · obtain ⟨⟨hsrc, hterm, hcommit⟩, hlead⟩ := Node.step_appendEntries hr
    rw [(h.tidy.node i).me] at hsrc
    subst hsrc
    refine h.vouched_own ?_ hterm hcommit
    rcases hlead with hlead | ⟨clock, peer, entries, rest, rfl, hpc⟩
    · exact hlead
    · exact (hf (r.src, entries) (by simp [batchToBuild, hpc])).1

/-- A commit of a leader, on a reply. -/
theorem Applies.raised (h : Applies s p) {k : ℕ} {r : Rpc N AppendEntriesArgs}
    {reply : AppendEntriesReply} (hk : s.network[k]? = some (.appendEntriesReply r reply))
    (hr : Node.Raised (s.nodes r.src) r reply) {out : List (Packet N)}
    (hw : Written p p' r.src ((s.nodes r.src).receive (.appendEntriesReply r reply)).1 out) :
    Applied p' r.src ((s.nodes r.src).receive (.appendEntriesReply r reply)).1 := by
  have hstep : ((s.step (.deliver k)).nodes r.src) =
      ((s.nodes r.src).receive (.appendEntriesReply r reply)).1 := by
    simp only [Cluster.step, hk, Cluster.update, Packet.target, Function.update_self]
  have happ := h.applied r.src
  by_cases hmove : ((s.nodes r.src).receive (.appendEntriesReply r reply)).1.rf.commitIndex =
      (s.nodes r.src).rf.commitIndex
  · exact happ.keep h.sound hw ⟨hmove, by rw [hr.result]; rfl, hr.applying⟩
  · have hraises : Raises s (.deliver k) r.src
        ((s.nodes r.src).receive (.appendEntriesReply r reply)).1.rf.commitIndex := by
      refine ⟨lt_of_le_of_ne ?_ (Ne.symm hmove), by rw [hstep], ?_⟩
      · rw [hr.result]
        exact le_max_left _ _
      · rw [hstep, hr.result]
        exact hr.leads
    have hc := h.toReplicated.committed hraises
    have hv := h.elections.node r.src
    have hcert : p.Certified (p.log r.src) (p.term r.src)
        ((s.nodes r.src).receive (.appendEntriesReply r reply)).1.rf.commitIndex.toNat := by
      refine Or.inr ⟨_, _, le_rfl, hc.chosen, le_rfl, ?_⟩
      rw [(hv.lead hr.leads).2, (h.node r.src).log]
      exact List.take_prefix _ _
    refine ⟨by have := hc.index; omega, hw.keeps h.sound hcert, ?_, fun m hm => ?_⟩
    · rw [hr.result]
      exact happ.lastApplied
    · rw [hr.applying] at hm
      exact (happ.applying m hm).mono h.sound hw.le

theorem Applies.deliver (h : Applies s p) {k : ℕ} {q : Packet N} (hk : s.network[k]? = some q)
    (hclean : CleanOverwrite s (.deliver k)) (hsafe : SafeCommit s (.deliver k)) :
    ∃ p', p.Le p' ∧ Applies (s.step (.deliver k)) p' := by
  have hmem := List.mem_of_getElem? hk
  obtain ⟨p', hw, h'⟩ := h.toReplicated.deliver hk hclean
  have happ : Applied p' q.target ((s.nodes q.target).receive q).1 := by
    rcases Node.receive_commit (h.tidy.packet q hmem) with ⟨_, heq⟩ | hsteady |
      ⟨r, rf', reply, rfl, _, ha, hacc, heq⟩ | ⟨r, reply, rfl, hr⟩
    · rw [heq]
      exact applied_restart
    · exact (h.applied _).keep h.sound hw hsteady
    · rw [heq] at hw ⊢
      exact applied_accept (h.recorded _) (h.packet _ hmem) (h.vouched r hmem) ha
        (h.tidy.node r.src).plain.snap (h.node r.src).log
        (fun hgt => hsafe r (by simp [appendDelivered, hk]) ha hgt) (h.applied _) hacc hw
    · exact h.raised hk hr hw
  simp only [Cluster.step, hk] at h' ⊢
  exact ⟨p', hw.le, h.update hw h' (fun _ hq' => List.mem_of_mem_eraseIdx hq') happ
    fun r hr => absurd hr Node.appendEntries_not_of_receive⟩

/-- Every clean step that commits safely keeps the relation. -/
theorem Applies.step (h : Applies s p) {a : Action N} (hclean : Clean s a)
    (hsafe : SafeCommit s a) : ∃ p', p.Le p' ∧ Applies (s.step a) p' := by
  cases a with
  | act i input => exact h.act hclean.1
  | deliver k =>
    cases hk : s.network[k]? with
    | none => exact ⟨p, Ledger.Le.refl p, (step_deliver_none hk).symm ▸ h⟩
    | some q => exact h.deliver hk hclean.2 hsafe

end Steps

/-! ## Deliveries -/

/-- The message a step delivers to the `KvServer` of its node. -/
def delivered (s : Cluster N) : Action N → Option ApplyMsg
  | .act i .push => (s.nodes i).delivery
  | _ => none

/-- No two deliveries of a run carry different commands for one index. -/
def StateMachineSafe (h : List (Cluster N × Action N)) : Prop :=
  ∀ x ∈ h, ∀ y ∈ h, ∀ m ∈ delivered x.1 x.2, ∀ m' ∈ delivered y.1 y.2,
    m.index = m'.index → m.command = m'.command

theorem Applies.delivers {s : Cluster N} {p : Ledger (Fin N) LogEntry} (h : Applies s p)
    {a : Action N} {m : ApplyMsg} (hm : m ∈ delivered s a) : Delivers p m := by
  cases a with
  | act i input =>
    cases input with
    | push =>
      have hm : (s.nodes i).applying.head? = some m := hm
      exact (h.applied i).applying m (List.mem_of_mem_head? hm)
    | _ => cases hm
  | deliver k => cases hm

/-- In every run of clean steps that commit safely, nodes deliver one command per index. -/
theorem state_machine_safety (h : List (Cluster N × Action N)) (s : Cluster N)
    (hr : Cluster.Runs (fun s a => Clean s a ∧ SafeCommit s a) h s) : StateMachineSafe h := by
  obtain ⟨p, hp, hF⟩ := hr.simulate (R := Applies)
    (F := fun s a p => ∀ m ∈ delivered s a, Delivers p m) applies_init
    (fun s a p hp hok => by
      obtain ⟨p', hle, hp'⟩ := hp.step hok.1 hok.2
      exact ⟨p', And.intro hp.sound hle, hp', fun m hm => (hp.delivers hm).mono hp.sound hle⟩)
    (fun s a p p' (hle : p.Sound ∧ p.Le p') hF m hm => (hF m hm).mono hle.1 hle.2)
  intro x hx y hy m hm m' hm' hindex
  exact (hF x hx m hm).agree hp.sound (hF y hy m' hm') hindex

open MyKvRaft.Action in
/-- Node 1 commits its entry, and a heartbeat makes node 0 commit it too. -/
def appliedRun : List (Action 3) :=
  commitRun ++ [beat 1, .deliver 2, .act 0 .apply, .act 1 .apply, .act 0 .push, .act 1 .push]

theorem state_machine_safety_appliedRun :
    ((Cluster.trace appliedRun).filterMap fun x => delivered x.1 x.2).map (·.index) = [1, 1] ∧
      StateMachineSafe (Cluster.trace appliedRun) :=
  ⟨by decide +kernel, state_machine_safety _ _ (Cluster.runs_exec appliedRun (by decide +kernel))⟩

open MyKvRaft.Action in
/-- Node 0 leads term 1 and has an entry of its own. Node 1 leads term 2 and commits another
    entry with node 2; its next heartbeat makes node 0 commit the entry of term 1. -/
def heartbeatRun : List (Action 3) :=
  [timeout 0, ask 0, ask 0, .deliver 0, .deliver 0, put 0 1,
    timeout 1, ask 1, voteLost 1, ask 1, ask 1, .deliver 1, .deliver 1, put 1 5] ++
  batchRound 1 ++
  [.deliver 2, .deliver 2, beat 1, .deliver 2, .act 0 .apply, .act 1 .apply]

theorem state_machine_safety_fails : ∃ (h : List (Cluster 3 × Action 3)) (s : Cluster 3),
    Cluster.Runs anyStep h s ∧ ¬ StateMachineSafe h := by
  let op (r : ℤ) : Bytes := encodeOp ⟨[], [], [], [], r⟩
  have h0 : delivered (Cluster.exec heartbeatRun) (.act 0 .push) =
      some (.ofCommand 1 (op 1)) := by decide +kernel
  have h1 : delivered (Cluster.exec (heartbeatRun ++ [.act 0 .push])) (.act 1 .push) =
      some (.ofCommand 1 (op 5)) := by decide +kernel
  have hmem := Cluster.mem_trace (heartbeatRun ++ [.act 0 .push]) (.act 1 .push) []
  rw [List.append_assoc] at hmem
  refine ⟨_, _, Cluster.runs_exec (heartbeatRun ++ [.act 0 .push, .act 1 .push])
    fun _ _ => trivial, fun hs => ?_⟩
  have h := hs _ (Cluster.mem_trace heartbeatRun (.act 0 .push) [.act 1 .push]) _ hmem
    _ h0 _ h1 rfl
  exact absurd h (by decide +kernel)

end MyKvRaft
