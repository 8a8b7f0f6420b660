import MyKvRaft.Leader.Buffers

/-!
# Every entry is sent once

The entries on their way from one node to another form a `stream`: first those in
the requests under way, then those `batchSenderLoop` has taken, then those that wait
in `m_pendingEntries`. `Start` adds at its end an entry past everything in it, a
request is handled at most once, and nothing is ever put back. So a stream is in the
order of the indices, and an entry in it has not reached the other node yet: no entry
of its term stands at its index there (`Streams`). This holds in every run, whatever
branches the code takes.

* `Raft.appendEntry_total`: the entry loop of `AppendEntries1` runs through, and an
  entry ends up behind `prevlogindex`, at its own index or in front of it.
* `Streams.step`: kept by every step.
-/

namespace MyKvRaft

open Consensus Transition Raft

variable {N : ℕ}

/-! ## The entry loop -/

/-- No entry of the term stands at the index. -/
def NotAt (logs : List LogEntry) (e : LogEntry) : Prop :=
  ∀ (k : ℕ) (f : LogEntry), logs[k]? = some f → f.logterm = e.logterm → e.logindex ≠ k + 1

namespace Raft

/-- One iteration: the entry is appended, at its index or in front of it, or written over an
    entry of another term. -/
theorem appendEntry_total {rf : Raft N} (h : rf.NoSnapshot) {e : LogEntry} (hpos : 0 < e.logindex)
    (hnew : NotAt rf.logs e) :
    ∃ rf', rf.appendEntry e = some rf' ∧ rf'.NoSnapshot ∧
      ((e.logindex > rf.logs.length ∧ rf'.logs = rf.logs ++ [e]) ∨
        ∃ k : ℕ, e.logindex = k + 1 ∧ k < rf.logs.length ∧ rf'.logs = rf.logs.set k e) := by
  unfold appendEntry
  rw [h.getLastLogIndex]
  by_cases hend : e.logindex > rf.logs.length
  · rw [if_pos hend]
    exact ⟨_, rfl, ⟨h.index, h.term⟩, .inl ⟨hend, rfl⟩⟩
  · obtain ⟨k, hk⟩ : ∃ k : ℕ, e.logindex = k + 1 := ⟨(e.logindex - 1).toNat, by omega⟩
    have hlt : k < rf.logs.length := by omega
    have hindex : rf.getSlicesIndexFromLogIndex (k + 1) = k := by
      unfold getSlicesIndexFromLogIndex
      rw [h.index, if_neg (by omega)]
      omega
    have hne : rf.logs[k].logterm ≠ e.logterm := fun heq =>
      hnew k _ (List.getElem?_eq_getElem hlt) heq hk
    rw [if_neg hend, hk, hindex]
    dsimp only
    rw [slot_natCast, List.getElem?_eq_getElem hlt]
    refine ⟨{ rf with logs := rf.logs.set k e }, ?_, ⟨h.index, h.term⟩, .inr ⟨k, rfl, hlt, rfl⟩⟩
    simp [myAssert, hne]

/-- The loop on entries in order behind `prevlogindex`, none of which has arrived before. -/
theorem foldlM_appendEntry_total {entries : List LogEntry} {rf : Raft N} (h : rf.NoSnapshot)
    {prev : ℤ} (h0 : 0 ≤ prev) (hprev : prev ≤ rf.logs.length)
    (hsorted : entries.Pairwise fun e f => e.logindex < f.logindex)
    (hpos : ∀ e ∈ entries, prev < e.logindex) (hnew : ∀ e ∈ entries, NotAt rf.logs e) :
    ∃ rf', entries.foldlM appendEntry rf = some rf' ∧
      prev + entries.length ≤ rf'.logs.length ∧
      ∀ (k : ℕ) (f : LogEntry), rf'.logs[k]? = some f → rf.logs[k]? = some f ∨
        (f ∈ entries ∧ prev < k + 1 ∧ (k : ℤ) + 1 ≤ f.logindex) := by
  induction entries generalizing rf prev with
  | nil => exact ⟨rf, rfl, by simpa using hprev, fun k f hf => .inl hf⟩
  | cons e es ih =>
    obtain ⟨hlt, hsorted⟩ := List.pairwise_cons.mp hsorted
    have he := hpos e List.mem_cons_self
    obtain ⟨rf₁, hres, h', hlogs⟩ :=
      appendEntry_total h (by omega) (hnew e List.mem_cons_self)
    -- where the entry stands now, if it is not the old one
    have hplace : ∀ (k : ℕ) (f : LogEntry), rf₁.logs[k]? = some f → rf.logs[k]? = some f ∨
        (f = e ∧ prev < k + 1 ∧ (k : ℤ) + 1 ≤ e.logindex) := by
      intro k f hf
      rcases hlogs with ⟨hend, hlogs⟩ | ⟨j, hj, hjlt, hlogs⟩
      · rw [hlogs] at hf
        rcases lt_trichotomy k rf.logs.length with hk | hk | hk
        · rw [List.getElem?_append_left hk] at hf
          exact .inl hf
        · subst hk
          rw [List.getElem?_concat_length] at hf
          cases hf
          exact .inr ⟨rfl, by omega, by omega⟩
        · rw [List.getElem?_eq_none (by simp; omega)] at hf
          cases hf
      · rw [hlogs] at hf
        by_cases hk : k = j
        · subst hk
          rw [List.getElem?_set_self hjlt] at hf
          cases hf
          exact .inr ⟨rfl, by omega, by omega⟩
        · rw [List.getElem?_set_ne (Ne.symm hk)] at hf
          exact .inl hf
    have hlen : prev + 1 ≤ rf₁.logs.length := by
      rcases hlogs with ⟨hend, hlogs⟩ | ⟨j, hj, hjlt, hlogs⟩
      · rw [hlogs, List.length_append, List.length_singleton]
        push_cast
        omega
      · rw [hlogs, List.length_set]
        omega
    have hnew' : ∀ f ∈ es, NotAt rf₁.logs f := by
      intro f hf k g hg hterm
      rcases hplace k g hg with hg | ⟨rfl, _, hk⟩
      · exact hnew f (List.mem_cons_of_mem e hf) k g hg hterm
      · have := hlt f hf
        omega
    obtain ⟨rf', hfold, hend, hwhere⟩ := ih h' (by omega) hlen hsorted
      (fun f hf => by have := hlt f hf; omega) hnew'
    refine ⟨rf', ?_, ?_, fun k f hf => ?_⟩
    · rw [List.foldlM_cons, hres]
      exact hfold
    · rw [List.length_cons]
      push_cast
      omega
    · rcases hwhere k f hf with hf | ⟨hf, h1, h2⟩
      · rcases hplace k f hf with hf | ⟨rfl, h1, h2⟩
        · exact .inl hf
        · exact .inr ⟨List.mem_cons_self, h1, h2⟩
      · exact .inr ⟨List.mem_cons_of_mem e hf, by omega, h2⟩

end Raft

/-! ## Streams -/

/-- The entries a packet carries from node `L` to node `p`. -/
def Packet.carried (L p : Fin N) : Packet N → List LogEntry
  | .appendEntries r => if r.src = L ∧ r.dst = p then r.args.entries else []
  | _ => []

/-- The entries node `n` has for `p` and has not sent. -/
def Node.held (n : Node N) (p : Fin N) : List LogEntry :=
  (n.rf.queued.flatMap fun x => if x.1 = p then x.2 else []) ++ (n.rf.pendingEntries p).entries

/-- The entries on their way from `L` to `p`, first those sent first. -/
def Cluster.stream (s : Cluster N) (L p : Fin N) : List LogEntry :=
  s.network.flatMap (Packet.carried L p) ++ (s.nodes L).held p

namespace Node

variable {n n' : Node N}

theorem held_same (hqueued : n'.rf.queued = n.rf.queued)
    (hpending : n'.rf.pendingEntries = n.rf.pendingEntries) (p : Fin N) : n'.held p = n.held p := by
  unfold held
  rw [hqueued, hpending]

theorem held_restart (n : Node N) (p : Fin N) : n.restart.held p = [] := by
  have hpending : n.restart.rf.pendingEntries = fun _ => ⟨[], 0⟩ := init_pendingEntries _ _
  have hthread : n.restart.rf.batchSenderThread = none := init_batchSenderThread _ _
  simp [held, Raft.queued, hpending, hthread]

/-- Out of one list per peer, the one for `p`. -/
theorem flatMap_for {l : List (Fin N)} (hl : l.Nodup) (p : Fin N) (f : Fin N → List LogEntry) :
    (l.flatMap fun i => if i = p then f i else []) = if p ∈ l then f p else [] := by
  induction l with
  | nil => rfl
  | cons i l ih =>
    obtain ⟨hi, hl⟩ := List.nodup_cons.mp hl
    rw [List.flatMap_cons, ih hl]
    by_cases hp : i = p
    · subst hp
      simp [hi]
    · simp [hp, Ne.symm hp]

/-- Taking the batches moves them from the buffers to the thread. -/
theorem held_collectBatches (hq : n.rf.queued = []) (clock : Fin N → ℤ × ℤ) (p : Fin N) :
    Node.held { n with rf := n.rf.collectBatches clock } p = n.held p := by
  have hnodup : (n.rf.flushPeers clock).Nodup := (List.nodup_finRange N).filter _
  have hqueued : (n.rf.collectBatches clock).queued =
      (n.rf.flushPeers clock).map fun i => (i, (n.rf.pendingEntries i).entries) := rfl
  have hpending : (n.rf.collectBatches clock).pendingEntries p =
      if p ∈ n.rf.flushPeers clock then { n.rf.pendingEntries p with entries := [] }
      else n.rf.pendingEntries p := rfl
  unfold held
  rw [hq, hqueued, hpending, List.flatMap_map]
  dsimp only
  rw [flatMap_for hnodup p fun i => (n.rf.pendingEntries i).entries]
  split_ifs <;> simp

/-- What a step of `batchSenderLoop` sends was at the front of what the node had. -/
theorem held_batchSender (clock : Fin N → ℤ × ℤ) (p : Fin N) :
    ((n.batchSender clock).2.flatMap (Packet.carried n.rf.me p) ++
      (n.batchSender clock).1.held p).Sublist (n.held p) := by
  have hqueued : ∀ pc, n.rf.batchSenderThread = some pc → n.held p =
      (pc.queued.flatMap fun x => if x.1 = p then x.2 else []) ++
        (n.rf.pendingEntries p).entries := by
    intro pc hpc
    simp only [held, Raft.queued, hpc]
  unfold batchSender
  split
  · exact List.Sublist.refl _
  · next hpc =>
    rw [hqueued _ hpc]
    split_ifs <;> exact List.Sublist.refl _
  · next hpc =>
    have hq : n.rf.queued = [] := by simp [Raft.queued, hpc, BatchSender.queued]
    exact (held_collectBatches hq clock p) ▸ List.Sublist.refl _
  · next hpc =>
    rw [hqueued _ hpc]
    exact List.Sublist.refl _
  · next peer entries rest hpc =>
    rw [hqueued _ hpc]
    split_ifs
    · simp only [BatchSender.queued, List.flatMap_cons, List.append_assoc]
      exact List.sublist_append_right _ _
    · exact List.Sublist.refl _
  · next peer entries rest hpc =>
    rw [hqueued _ hpc]
    simp [held, setSender, Raft.queued, BatchSender.queued, Packet.carried, batchArgs]

/-- What a node does by itself takes entries from the front of what it has for `p`, or adds the
    entry of a new command at the end. -/
theorem held_step (input : Input N) (p : Fin N) :
    ((n.step input).2.flatMap (Packet.carried n.rf.me p) ++
        (n.step input).1.held p).Sublist (n.held p) ∨
      ∃ command now, input = .start command now ∧ n.rf.status = .Leader ∧ p ≠ n.rf.me ∧
        (n.step input).2 = [] ∧ (n.step input).1.held p = n.held p ++ [n.rf.newEntry command] := by
  cases input with
  | start command now =>
    by_cases hl : n.rf.status = .Leader
    · have hrf := start_eq hl command now
      have hqueued : (n.rf.start command now).1.queued = n.rf.queued := by rw [hrf]; rfl
      by_cases hp : p = n.rf.me
      · refine .inl ?_
        have hpending : ((n.rf.start command now).1.pendingEntries p) = n.rf.pendingEntries p := by
          simp [hrf, addToPendingBatch, hp]
        have hheld : (n.step (.start command now)).1.held p = n.held p := by
          simp only [step, held, hqueued, hpending]
        rw [hheld]
        exact List.Sublist.refl _
      · refine .inr ⟨command, now, rfl, hl, hp, rfl, ?_⟩
        simp only [step, held, hqueued, start_pendingEntries hl command now hp, List.append_assoc]
    · have heq : (n.rf.start command now).1 = n.rf := by
        unfold Raft.start
        rw [if_pos hl]
      refine .inl ?_
      simp only [step, heq]
      exact List.Sublist.refl _
  | batchSender clock => exact .inl (held_batchSender clock p)
  | electionTimeout =>
    simp only [step, electionTimeout]
    split_ifs <;> exact .inl (List.Sublist.refl _)
  | requestVotes =>
    simp only [step, requestVotes]
    split
    · exact .inl (List.Sublist.refl _)
    · split_ifs <;> exact .inl (List.Sublist.refl _)
  | requestVoteFails =>
    simp only [step, requestVoteFails]
    split
    · exact .inl (List.Sublist.refl _)
    · split_ifs <;> exact .inl (List.Sublist.refl _)
  | heartBeat =>
    refine .inl ?_
    simp only [step, heartBeat]
    split_ifs
    · exact List.Sublist.refl _
    · have hnone : ((heartBeatRpcs n.nextRpc (clampNextIndex n.rf)).map
          Packet.appendEntries).flatMap (Packet.carried n.rf.me p) = [] := by
        rw [List.flatMap_eq_nil_iff]
        intro q hq
        obtain ⟨r, hr, rfl⟩ := List.mem_map.mp hq
        simp [Packet.carried, (mem_heartBeatRpcs hr).2.2.1, heartBeatArgs]
      dsimp only
      rw [hnone]
      exact List.Sublist.refl _
  | sendSnapShot k =>
    refine .inl ?_
    simp only [step, sendSnapShot]
    split <;> exact List.Sublist.refl _
  | apply =>
    refine .inl ?_
    simp only [step, apply]
    split_ifs
    · exact List.Sublist.refl _
    · split
      · rw [held_restart]
        exact List.nil_sublist _
      · next happ =>
        obtain ⟨rfl, _⟩ := applierTicker_eq happ
        exact List.Sublist.refl _
  | crash =>
    refine .inl ?_
    simp only [step]
    rw [held_restart]
    exact List.nil_sublist _
  | appendFails k => exact .inl (List.Sublist.refl _)
  | snapshotFails k => exact .inl (List.Sublist.refl _)
  | push => exact .inl (List.Sublist.refl _)

/-- A message gives a node nothing to send. -/
theorem Moves.held_packet {q : Packet N} (h : Moves (.inr q) n n') (p : Fin N) :
    (n'.held p).Sublist (n.held p) := by
  cases h with
  | restart =>
    rw [held_restart]
    exact List.nil_sublist _
  | idle hc => exact held_same hc.queued hc.pending p ▸ List.Sublist.refl _
  | follow _ _ hpending hqueued => exact held_same hqueued hpending p ▸ List.Sublist.refl _
  | win _ _ _ _ hpending hqueued =>
    rcases hqueued with hq | hq
    · exact held_same hq hpending p ▸ List.Sublist.refl _
    · unfold held
      rw [hq, hpending]
      exact List.sublist_append_right _ _
  | close _ _ hc => exact held_same hc.queued hc.pending p ▸ List.Sublist.refl _
  | @mismatch r reply _ _ _ _ _ _ _ _ hrf =>
    obtain ⟨nextIdx, heq⟩ := n.rf.handleLogMismatch_eq r.dst reply
    rw [heq] at hrf
    refine held_same ?_ ?_ p ▸ List.Sublist.refl _
    · rw [hrf]; rfl
    · rw [hrf]
  | sync _ _ _ _ _ hrf =>
    refine held_same ?_ ?_ p ▸ List.Sublist.refl _
    · rw [hrf]; rfl
    · rw [hrf]; rfl

/-- The answer to a message carries no entries. -/
theorem carried_receive (q : Packet N) (L p : Fin N) :
    (n.receive q).2.flatMap (Packet.carried L p) = [] := by
  rw [List.flatMap_eq_nil_iff]
  intro q' hq'
  cases sends_receive hq' with
  | vote => rfl
  | append => rfl
  | install => rfl

/-- What a node sends comes from itself. -/
theorem carried_step {L : Fin N} (hL : n.rf.me ≠ L) (input : Input N) (p : Fin N) :
    (n.step input).2.flatMap (Packet.carried L p) = [] := by
  rw [List.flatMap_eq_nil_iff]
  intro q hq
  cases sends_step hq with
  | requestVote => rfl
  | heartBeat _ hr => simp [Packet.carried, (mem_heartBeatRpcs hr).2.2.1, heartBeatArgs]
  | batch => simp [Packet.carried, hL]
  | snapshot => rfl

end Node

namespace Cluster

variable {s : Cluster N}

/-- A step takes entries out of a stream, or adds the entry of a new command at its end. -/
theorem Tidy.stream_step (h : s.Tidy) (a : Action N) (L p : Fin N) :
    ((s.step a).stream L p).Sublist (s.stream L p) ∨
      ∃ command now, a = .act L (.start command now) ∧ (s.nodes L).rf.status = .Leader ∧ p ≠ L ∧
        (s.step a).stream L p = s.stream L p ++ [(s.nodes L).rf.newEntry command] := by
  cases a with
  | act i input =>
    have hme := (h.node i).me
    unfold stream
    simp only [Cluster.step, Cluster.update, List.flatMap_append, List.append_assoc]
    by_cases hL : L = i
    · subst hL
      rw [Function.update_self]
      rcases (s.nodes L).held_step input p with hsub | ⟨command, now, rfl, hl, hp, hout, hheld⟩
      · rw [hme] at hsub
        exact .inl (hsub.append_left _)
      · refine .inr ⟨command, now, rfl, hl, hme ▸ hp, ?_⟩
        rw [hout, hheld, List.flatMap_nil, List.nil_append]
    · rw [Function.update_of_ne hL,
        Node.carried_step (hme.trans_ne (Ne.symm hL)) input p, List.nil_append]
      exact .inl (List.Sublist.refl _)
  | deliver k =>
    left
    cases hk : s.network[k]? with
    | none =>
      simp only [Cluster.step, hk]
      exact List.Sublist.refl _
    | some q =>
      have hq : Node.Ordinary q := h.packet q (List.mem_of_getElem? hk)
      have hmoves : Node.Moves (.inr q) (s.nodes q.target) ((s.nodes q.target).receive q).1 :=
        Node.moves_handle (x := .inr q) (h.node _).plain fun q' hq' => by cases hq'; exact hq
      unfold stream
      simp only [Cluster.step, hk, Cluster.update, List.flatMap_append, Node.carried_receive,
        List.append_nil]
      refine List.Sublist.append ?_ ?_
      · exact (List.eraseIdx_sublist _ _).flatMap _
      · by_cases hL : L = q.target
        · subst hL
          rw [Function.update_self]
          exact hmoves.held_packet p
        · rw [Function.update_of_ne hL]

/-- A delivered request is taken out of the middle of its stream. -/
theorem stream_deliver {k : ℕ} {r : Rpc N AppendEntriesArgs}
    (hk : s.network[k]? = some (.appendEntries r)) :
    ∃ before after, s.stream r.src r.dst = before ++ (r.args.entries ++ after) ∧
      ((s.step (.deliver k)).stream r.src r.dst).Sublist (before ++ after) := by
  have hlt : k < s.network.length := (List.getElem?_eq_some_iff.mp hk).1
  have hget : s.network[k] = .appendEntries r := (List.getElem?_eq_some_iff.mp hk).2
  have hsplit : s.network = s.network.take k ++ .appendEntries r :: s.network.drop (k + 1) := by
    rw [← hget, List.cons_getElem_drop_succ, List.take_append_drop]
  have hcarried : Packet.carried r.src r.dst (.appendEntries r) = r.args.entries := by
    simp [Packet.carried]
  have hmoves : Node.Moves (.inr (.appendEntries r)) (s.nodes r.dst)
      ((s.nodes r.dst).receive (.appendEntries r)).1 := Node.moves_appendEntries r
  have hheld : (((s.step (.deliver k)).nodes r.src).held r.dst).Sublist
      ((s.nodes r.src).held r.dst) := by
    simp only [Cluster.step, hk, Cluster.update, Packet.target]
    by_cases hself : r.src = r.dst
    · rw [hself, Function.update_self]
      exact hmoves.held_packet r.dst
    · rw [Function.update_of_ne hself]
  refine ⟨(s.network.take k).flatMap (Packet.carried r.src r.dst),
    (s.network.drop (k + 1)).flatMap (Packet.carried r.src r.dst) ++ (s.nodes r.src).held r.dst,
    ?_, ?_⟩
  · unfold stream
    nth_rewrite 1 [hsplit]
    rw [List.flatMap_append, List.flatMap_cons, hcarried]
    simp only [List.append_assoc]
  · have hnet : (s.step (.deliver k)).network.flatMap (Packet.carried r.src r.dst) =
        (s.network.take k).flatMap (Packet.carried r.src r.dst) ++
          (s.network.drop (k + 1)).flatMap (Packet.carried r.src r.dst) := by
      simp only [Cluster.step, hk, Cluster.update, List.flatMap_append, Node.carried_receive,
        List.append_nil, List.eraseIdx_eq_take_drop_succ]
    unfold stream
    rw [hnet, List.append_assoc]
    exact (hheld.append_left _).append_left _

end Cluster

/-! ## Where the entries of a log stand -/

/-- Apart from requests of leaders, only a new command changes what stands where. -/
theorem Node.Moves.positions {x : Input N ⊕ Packet N} {n n' : Node N} (h : Moves x n n')
    (hs : n.rf.Saved) (hx : ∀ r, x ≠ .inr (.appendEntries r)) {k : ℕ} {f : LogEntry}
    (hk : n'.rf.logs[k]? = some f) :
    (∃ g, n.rf.logs[k]? = some g ∧ g.logterm = f.logterm) ∨
      ∃ command now, x = .inl (.start command now) ∧ n.rf.status = .Leader ∧
        k = n.rf.logs.length ∧ f = n.rf.newEntry command := by
  have hsame : n'.rf.logs = n.rf.logs → ∃ g, n.rf.logs[k]? = some g ∧ g.logterm = f.logterm :=
    fun hlogs => ⟨f, hlogs ▸ hk, rfl⟩
  cases h with
  | restart =>
    left
    have hlogs : n.restart.rf.logs.map (fun log => (⟨log.logterm, log.command⟩ : PersistLogEntry))
        = n.rf.logs.map fun log => ⟨log.logterm, log.command⟩ := by
      have hdate := (restart_persistDate n.rf).trans hs
      exact congrArg PersistRaftNode.logs hdate
    have hget := congrArg (fun l : List PersistLogEntry => l[k]?) hlogs
    simp only [List.getElem?_map, hk, Option.map_some] at hget
    obtain ⟨g, hg, heq⟩ := Option.map_eq_some_iff.mp hget.symm
    exact ⟨g, hg, congrArg PersistLogEntry.term heq⟩
  | idle hc => exact .inl (hsame hc.logs)
  | follow => exact absurd rfl (hx _)
  | win _ _ _ hlogs => exact .inl (hsame hlogs)
  | @start command now _ hlead =>
    have hlogs : (n.rf.start command now).1.logs = n.rf.logs ++ [n.rf.newEntry command] := by
      rw [start_eq hlead]
      rfl
    have hk' : (n.rf.logs ++ [n.rf.newEntry command])[k]? = some f := hlogs ▸ hk
    rcases lt_trichotomy k n.rf.logs.length with hlt | heq | hgt
    · rw [List.getElem?_append_left hlt] at hk'
      exact .inl ⟨f, hk', rfl⟩
    · subst heq
      rw [List.getElem?_concat_length] at hk'
      cases hk'
      exact .inr ⟨command, now, rfl, hlead, rfl, rfl⟩
    · rw [List.getElem?_eq_none (by simp; omega)] at hk'
      cases hk'
  | beat _ hrf => exact .inl (hsame (by rw [hrf]; rfl))
  | collect => exact .inl (hsame rfl)
  | skip hrf =>
    obtain ⟨pc, hrf⟩ := hrf
    exact .inl (hsame (by rw [hrf]))
  | build _ hrf => exact .inl (hsame (by rw [hrf]))
  | close _ _ hc => exact .inl (hsame hc.logs)
  | @mismatch r reply _ _ _ _ _ _ _ _ hrf =>
    obtain ⟨nextIdx, heq⟩ := n.rf.handleLogMismatch_eq r.dst reply
    exact .inl (hsame (by rw [hrf, heq]))
  | sync _ _ _ _ _ hrf => exact .inl (hsame (by rw [hrf]; rfl))

theorem Cluster.Tidy.length_le_step {s : Cluster N} (h : s.Tidy) (a : Action N) (i : Fin N) :
    (s.nodes i).rf.logs.length ≤ ((s.step a).nodes i).rf.logs.length := by
  rcases s.step_nodes a i with heq | ⟨x, hx, heq⟩
  · rw [heq]
  · rw [heq]
    exact (h.moves hx).length_le (h.node i).saved

/-! ## The invariant -/

/-- The streams of a cluster. -/
structure Streams (s : Cluster N) (b : Ballot (Fin N) LogEntry) : Prop where
  buffers : Buffers s b
  sorted : ∀ L p, (s.stream L p).Pairwise fun e f => e.logindex < f.logindex
  bounds : ∀ L p, ∀ e ∈ s.stream L p,
    0 < e.logindex ∧ e.logindex ≤ (s.nodes L).rf.logs.length
  own : ∀ L p, ∀ e ∈ s.stream L p, b.leader e.logterm.toNat = some L
  notAt : ∀ L p, ∀ e ∈ s.stream L p, NotAt (s.nodes p).rf.logs e
  logs : ∀ p (k : ℕ) f, (s.nodes p).rf.logs[k]? = some f → ∀ L,
    b.leader f.logterm.toNat = some L → k + 1 ≤ (s.nodes L).rf.logs.length
  prev : ∀ r, .appendEntries r ∈ s.network → ∀ e, r.args.entries.head? = some e →
    r.args.prevlogindex = e.logindex - 1

theorem streams_init : Streams (Cluster.init N) Ballot.empty where
  buffers := buffers_init
  sorted _ _ := List.Pairwise.nil
  bounds _ _ e he := by cases he
  own _ _ e he := by cases he
  notAt _ _ e he := by cases he
  logs _ k f hk := by cases hk
  prev r hr := by cases hr

section Step

variable {s : Cluster N} {b : Ballot (Fin N) LogEntry}

/-- What a request carries is part of its stream. -/
theorem Cluster.mem_stream {r : Rpc N AppendEntriesArgs} (hr : .appendEntries r ∈ s.network) :
    r.args.entries.Sublist (s.stream r.src r.dst) := by
  obtain ⟨before, after, heq⟩ := List.append_of_mem hr
  have hcarried : Packet.carried r.src r.dst (.appendEntries r) = r.args.entries := by
    simp [Packet.carried]
  unfold stream
  rw [heq, List.flatMap_append, List.flatMap_cons, hcarried]
  simp only [List.append_assoc]
  exact (List.sublist_append_left _ _).trans (List.sublist_append_right _ _)

/-- The entries of a request are in order behind its `prevlogindex`. -/
theorem Streams.behind_prev (h : Streams s b) {r : Rpc N AppendEntriesArgs}
    (hr : .appendEntries r ∈ s.network) {f : LogEntry} (hf : f ∈ r.args.entries) :
    0 ≤ r.args.prevlogindex ∧ r.args.prevlogindex < f.logindex := by
  have hsub := Cluster.mem_stream hr
  have hsorted := (h.sorted r.src r.dst).sublist hsub
  cases hentries : r.args.entries with
  | nil =>
    rw [hentries] at hf
    cases hf
  | cons e es =>
    rw [hentries] at hf hsorted
    have hprev := h.prev r hr e (by rw [hentries]; rfl)
    have he := (h.bounds r.src r.dst e (hsub.subset (by rw [hentries]; exact List.mem_cons_self))).1
    rcases List.mem_cons.mp hf with rfl | hf
    · omega
    · have := (List.pairwise_cons.mp hsorted).1 f hf
      omega

/-- The entry loop runs through on every request, and puts its entries behind
    `prevlogindex`. -/
theorem Streams.accepts (h : Streams s b) {r : Rpc N AppendEntriesArgs}
    (hr : .appendEntries r ∈ s.network)
    (hprev : r.args.prevlogindex ≤ (s.nodes r.dst).rf.logs.length) :
    ∃ rf', r.args.entries.foldlM appendEntry ((s.nodes r.dst).rf.follow r.args.term) = some rf' ∧
      r.args.prevlogindex + r.args.entries.length ≤ rf'.logs.length ∧
      ∀ (k : ℕ) (f : LogEntry), rf'.logs[k]? = some f →
        (s.nodes r.dst).rf.logs[k]? = some f ∨
          (f ∈ r.args.entries ∧ r.args.prevlogindex < k + 1 ∧ (k : ℤ) + 1 ≤ f.logindex) := by
  have hsnap := (h.buffers.tidy.node r.dst).plain.snap
  have hfollow : ((s.nodes r.dst).rf.follow r.args.term).logs = (s.nodes r.dst).rf.logs :=
    seeTerm_logs _ _
  have hsnap' : ((s.nodes r.dst).rf.follow r.args.term).NoSnapshot :=
    ⟨(seeTerm_lastSnapshotIncludeIndex _ _).trans hsnap.index,
      (seeTerm_lastSnapshotIncludeTerm _ _).trans hsnap.term⟩
  cases hentries : r.args.entries with
  | nil =>
    refine ⟨_, rfl, ?_, fun k f hf => .inl (hfollow ▸ hf)⟩
    rw [hfollow]
    simpa using hprev
  | cons e es =>
    have hsub := Cluster.mem_stream hr
    have h0 := (h.behind_prev hr (f := e) (by rw [hentries]; exact List.mem_cons_self)).1
    obtain ⟨rf', hfold, hlen, hwhere⟩ := foldlM_appendEntry_total hsnap' h0
      (hfollow ▸ hprev) ((h.sorted r.src r.dst).sublist hsub)
      (fun f hf => (h.behind_prev hr hf).2)
      (fun f hf => hfollow.symm ▸ h.notAt r.src r.dst f (hsub.subset hf))
    rw [hfollow] at hwhere
    rw [← hentries]
    exact ⟨rf', hfold, hlen, hwhere⟩

/-- Where an entry that stands in a log after a step comes from. -/
theorem Streams.logs_step (h : Streams s b) (a : Action N) (p : Fin N) {k : ℕ} {f : LogEntry}
    (hf : ((s.step a).nodes p).rf.logs[k]? = some f) :
    (∃ g, (s.nodes p).rf.logs[k]? = some g ∧ g.logterm = f.logterm) ∨
    (∃ command now, a = .act p (.start command now) ∧ (s.nodes p).rf.status = .Leader ∧
      k = (s.nodes p).rf.logs.length ∧ f = (s.nodes p).rf.newEntry command) ∨
    ∃ j r, a = .deliver j ∧ s.network[j]? = some (.appendEntries r) ∧ r.dst = p ∧
      f ∈ r.args.entries ∧ r.args.prevlogindex < k + 1 ∧ (k : ℤ) + 1 ≤ f.logindex := by
  rcases s.step_nodes a p with heq | ⟨x, hx, heq⟩
  · rw [heq] at hf
    exact .inl ⟨f, hf, rfl⟩
  · rw [heq] at hf
    have hmoves := h.buffers.tidy.moves hx
    have hsaved := (h.buffers.tidy.node p).saved
    by_cases happ : ∃ r, x = .inr (.appendEntries r)
    · obtain ⟨r, rfl⟩ := happ
      have hdeliver : ∃ j, a = .deliver j ∧ s.network[j]? = some (.appendEntries r) ∧ r.dst = p := by
        cases a with
        | act i input => cases hx
        | deliver j =>
          obtain ⟨q, hq, hpq⟩ := Option.map_eq_some_iff.mp hx
          cases hpq
          exact ⟨j, rfl, hq, rfl⟩
      obtain ⟨j, rfl, hj, rfl⟩ := hdeliver
      have hr := List.mem_of_getElem? hj
      simp only [Node.handle, Node.receive, Node.finish] at hf
      cases hres : (s.nodes r.dst).rf.appendEntries1 r.args with
      | none =>
        rw [hres] at hf
        have hrestart : Node.Moves (.inl .crash) (s.nodes r.dst) (s.nodes r.dst).restart :=
          .restart _ _
        rcases hrestart.positions hsaved (fun r hr => by cases hr) hf with hg | ⟨_, _, hx', _⟩
        · exact .inl hg
        · cases hx'
      | some y =>
        obtain ⟨rf', reply⟩ := y
        simp only [hres, Option.map_some] at hf
        have hsame : ((s.nodes r.dst).rf.follow r.args.term).logs = (s.nodes r.dst).rf.logs :=
          seeTerm_logs _ _
        rcases appendEntries1_cases hres with ⟨_, rfl, _⟩ | ⟨_, rfl, _⟩ | ⟨_, hprev, _, _, hacc⟩
        · exact .inl ⟨f, hf, rfl⟩
        · exact .inl ⟨f, hsame ▸ hf, rfl⟩
        · obtain ⟨logs, hfold, _, rfl, _⟩ := acceptEntries_cases hacc
          rw [(h.buffers.tidy.node r.dst).plain.snap.getLastLogIndex] at hprev
          obtain ⟨rf₁, hfold₁, _, hwhere⟩ := h.accepts hr hprev
          rw [hfold] at hfold₁
          cases hfold₁
          rcases hwhere k f hf with hf | ⟨hf, h1, h2⟩
          · exact .inl ⟨f, hf, rfl⟩
          · exact .inr (.inr ⟨j, r, rfl, hj, rfl, hf, h1, h2⟩)
    · rcases hmoves.positions hsaved (fun r hr => happ ⟨r, hr⟩) hf with
        hg | ⟨command, now, rfl, hl, hk, hnew⟩
      · exact .inl hg
      · refine .inr (.inl ⟨command, now, ?_, hl, hk, hnew⟩)
        cases a with
        | act i input =>
          cases hx
          rfl
        | deliver j =>
          obtain ⟨q, _, hpq⟩ := Option.map_eq_some_iff.mp hx
          cases hpq

/-- A leader is on record for its term. -/
theorem Elections.leader_newEntry (h : Elections s b) {L : Fin N}
    (hl : (s.nodes L).rf.status = .Leader) (command : Op) :
    b.leader ((s.nodes L).rf.newEntry command).logterm.toNat = some L :=
  h.leader ⟨hl, rfl⟩

theorem Led.leader_of_le {b' : Ballot (Fin N) LogEntry} (hle : b.Le b') {e : LogEntry}
    (h : Led b e) {L : Fin N} (hL : b'.leader e.logterm.toNat = some L) :
    b.leader e.logterm.toNat = some L := by
  obtain ⟨x, hx⟩ := Option.ne_none_iff_exists'.mp h.2
  rw [hle.leader hx] at hL
  rw [hx, hL]

theorem Streams.newEntry_logindex (h : Streams s b) (L : Fin N) (command : Op) :
    ((s.nodes L).rf.newEntry command).logindex = (s.nodes L).rf.logs.length + 1 := by
  show (s.nodes L).rf.getLastLogIndex + 1 = _
  rw [(h.buffers.tidy.node L).plain.snap.getLastLogIndex]

theorem Cluster.start_length {L : Fin N}
    (hl : (s.nodes L).rf.status = .Leader) (command : Op) (now : ℤ) :
    ((s.step (.act L (.start command now))).nodes L).rf.logs.length =
      (s.nodes L).rf.logs.length + 1 := by
  have hnode : ((s.step (.act L (.start command now))).nodes L).rf =
      ((s.nodes L).rf.start command now).1 := by
    simp [Cluster.step, Cluster.update, Node.step]
  rw [hnode, start_eq hl]
  exact List.length_append

/-- An entry that is still on its way after a step does not meet an entry of its term at its
    index. -/
theorem Streams.notAt_step (h : Streams s b) (a : Action N) (L p : Fin N) {e : LogEntry}
    (he : e ∈ (s.step a).stream L p) : NotAt ((s.step a).nodes p).rf.logs e := by
  intro k f hf hterm
  have htidy := h.buffers.tidy
  rcases htidy.stream_step a L p with hsub | ⟨command, now, rfl, hl, hp, hstream⟩
  · have heold := hsub.subset he
    have hown := h.own L p e heold
    rcases h.logs_step a p hf with ⟨g, hg, hgterm⟩ | ⟨command, now, _, hl, hk, rfl⟩ |
      ⟨j, r, rfl, hj, rfl, hfr, h1, h2⟩
    · exact h.notAt L p e heold k g hg (hgterm.trans hterm)
    · -- the node's own command is of a term the node leads
      have hleader := h.buffers.elections.leader_newEntry hl command
      rw [hterm, hown] at hleader
      cases hleader
      have := (h.bounds L L e heold).2
      omega
    · have hr := List.mem_of_getElem? hj
      have hleader := h.own r.src r.dst f ((Cluster.mem_stream hr).subset hfr)
      rw [hterm, hown] at hleader
      cases hleader
      obtain ⟨before, after, hsplit, hrest⟩ := Cluster.stream_deliver hj
      have hsorted := h.sorted r.src r.dst
      rw [hsplit, List.pairwise_append, List.pairwise_append] at hsorted
      obtain ⟨_, ⟨_, _, hafter⟩, hbefore⟩ := hsorted
      rcases List.mem_append.mp (hrest.subset he) with hin | hin
      · -- entries sent earlier are in front of the request
        obtain ⟨e₀, hhead⟩ : ∃ e₀, r.args.entries.head? = some e₀ := by
          cases hentries : r.args.entries with
          | nil => rw [hentries] at hfr; cases hfr
          | cons x xs => exact ⟨x, rfl⟩
        have hprev := h.prev r hr e₀ hhead
        have := hbefore e hin e₀ (List.mem_append_left _ (List.mem_of_head? hhead))
        omega
      · have := hafter f hfr e hin
        omega
  · rw [hstream] at he
    rcases List.mem_append.mp he with he | he
    · have hown := h.own L p e he
      rcases h.logs_step _ p hf with ⟨g, hg, hgterm⟩ | ⟨_, _, heq, _, _, _⟩ | ⟨j, r, heq, _⟩
      · exact h.notAt L p e he k g hg (hgterm.trans hterm)
      · cases heq
        exact absurd rfl hp
      · cases heq
    · rw [List.mem_singleton] at he
      subst he
      rw [h.newEntry_logindex L command]
      have hleader := h.buffers.elections.leader_newEntry hl command
      rcases h.logs_step _ p hf with ⟨g, hg, hgterm⟩ | ⟨_, _, heq, _, _, _⟩ | ⟨j, r, heq, _⟩
      · rw [← hterm, ← hgterm] at hleader
        have := h.logs p k g hg L hleader
        omega
      · cases heq
        exact absurd rfl hp
      · cases heq

/-- No entry stands past the end of the log of the leader that has made it. -/
theorem Streams.logs_le_step (h : Streams s b) {b' : Ballot (Fin N) LogEntry} (hle : b.Le b')
    (a : Action N) (p : Fin N) {k : ℕ} {f : LogEntry}
    (hf : ((s.step a).nodes p).rf.logs[k]? = some f) {L : Fin N}
    (hL : b'.leader f.logterm.toNat = some L) :
    k + 1 ≤ ((s.step a).nodes L).rf.logs.length := by
  have hlen := h.buffers.tidy.length_le_step a L
  rcases h.logs_step a p hf with ⟨g, hg, hgterm⟩ | ⟨command, now, rfl, hl, hk, rfl⟩ |
    ⟨j, r, rfl, hj, rfl, hfr, h1, h2⟩
  · rw [← hgterm] at hL
    have hled := (h.buffers.node p).logs g (List.mem_of_getElem? hg)
    exact (h.logs p k g hg L (hled.leader_of_le hle hL)).trans hlen
  · rw [hle.leader (h.buffers.elections.leader_newEntry hl command)] at hL
    cases hL
    rw [Cluster.start_length hl command now, hk]
  · have hmem := (Cluster.mem_stream (List.mem_of_getElem? hj)).subset hfr
    rw [hle.leader (h.own r.src r.dst f hmem)] at hL
    cases hL
    have := (h.bounds r.src r.dst f hmem).2
    omega

/-- A new request starts where its batch starts. -/
theorem prev_step {n : Node N} {input : Input N} {r : Rpc N AppendEntriesArgs}
    (hr : .appendEntries r ∈ (n.step input).2) {e : LogEntry}
    (he : r.args.entries.head? = some e) : r.args.prevlogindex = e.logindex - 1 := by
  cases Node.sends_step hr with
  | heartBeat _ hr =>
    rw [(Node.mem_heartBeatRpcs hr).2.2.1] at he
    cases he
  | batch =>
    have hhead : List.head? _ = some e := he
    simp only [batchArgs] at hhead ⊢
    rw [hhead]
    rfl

/-- Every step keeps the streams in order. -/
theorem Streams.step (h : Streams s b) (a : Action N) :
    ∃ b', b.Le b' ∧ Streams (s.step a) b' := by
  obtain ⟨b', hle, hbuffers⟩ := h.buffers.step a
  have htidy := h.buffers.tidy
  refine ⟨b', hle, hbuffers, fun L p => ?_, fun L p e he => ?_, fun L p e he => ?_,
    fun L p e he => h.notAt_step a L p he, fun p k f hf L hL => h.logs_le_step hle a p hf hL,
    fun r hr e he => ?_⟩
  · rcases htidy.stream_step a L p with hsub | ⟨command, now, rfl, hl, _, hstream⟩
    · exact (h.sorted L p).sublist hsub
    · rw [hstream, List.pairwise_append]
      refine ⟨h.sorted L p, List.pairwise_singleton _ _, fun e he f hf => ?_⟩
      rw [List.mem_singleton] at hf
      subst hf
      have := (h.bounds L p e he).2
      rw [h.newEntry_logindex]
      omega
  · have hlen := htidy.length_le_step a L
    rcases htidy.stream_step a L p with hsub | ⟨command, now, rfl, hl, _, hstream⟩
    · have := h.bounds L p e (hsub.subset he)
      omega
    · rw [hstream] at he
      rcases List.mem_append.mp he with he | he
      · have := h.bounds L p e he
        omega
      · rw [List.mem_singleton] at he
        subst he
        rw [h.newEntry_logindex, Cluster.start_length hl command now]
        push_cast
        omega
  · rcases htidy.stream_step a L p with hsub | ⟨command, now, rfl, hl, _, hstream⟩
    · exact hle.leader (h.own L p e (hsub.subset he))
    · rw [hstream] at he
      rcases List.mem_append.mp he with he | he
      · exact hle.leader (h.own L p e he)
      · rw [List.mem_singleton] at he
        subst he
        exact hle.leader (h.buffers.elections.leader_newEntry hl command)
  · cases a with
    | act i input =>
      rcases List.mem_append.mp hr with hr | hr
      · exact h.prev r hr e he
      · exact prev_step hr he
    | deliver k =>
      cases hk : s.network[k]? with
      | none =>
        simp only [Cluster.step, hk] at hr
        exact h.prev r hr e he
      | some q =>
        simp only [Cluster.step, hk] at hr
        rcases List.mem_append.mp hr with hr | hr
        · exact h.prev r (List.mem_of_mem_eraseIdx hr) e he
        · exact absurd hr Node.appendEntries_not_of_receive

end Step

end MyKvRaft
