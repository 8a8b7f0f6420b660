import MyKvRaft.Consensus.Ledger
import MyKvRaft.Safety.Election
import MyKvRaft.Safety.LogOps

/-!
# Replication follows the leaders

The logs of a run are kept in a `Ledger`. `Replicated` ties a cluster to it: every
node has the log the ledger says, every `AppendEntries` request is a slice of the
log of the leader of its term, and every success reply means that the follower
agrees with that log up to the end of the slice.

Two branches of the code leave this picture:

* `batchSenderLoop` builds a request outside the lock from a buffer that outlives
  leadership changes, so the node may no longer lead, or the batch may not be a
  consecutive part of its log (`FreshBatch` says neither is the case);
* the entry loop of `AppendEntries1` replaces a conflicting entry but keeps the
  entries behind the request (`CleanOverwrite` says there are none).

`Replicated.step`: every step that takes neither branch keeps the relation.
-/

namespace MyKvRaft

open Consensus Transition Raft

variable {N : ℕ}

/-! ## The two conditions -/

namespace Raft

/-- The batch about to be sent: the node leads, and the batch is the part of its log from the
    index of the first entry on. -/
def OwnBatch (rf : Raft N) (entries : List LogEntry) : Prop :=
  let prevLogIndex := (entries.head?.map (·.logindex)).getD 0 - 1
  rf.status = .Leader ∧ 0 ≤ prevLogIndex ∧
    (rf.logs.drop prevLogIndex.toNat).take entries.length = entries

/-- `AppendEntries1` gets to its entry loop. -/
def Accepts (rf : Raft N) (args : AppendEntriesArgs) : Prop :=
  rf.currentTerm ≤ args.term ∧ args.prevlogindex ≤ rf.getLastLogIndex ∧
    rf.lastSnapshotIncludeIndex ≤ args.prevlogindex ∧
    rf.matchLog args.prevlogindex args.prevlogterm = true

/-- The entry loop finds an entry of another term in the place of one of the request's. -/
def Conflicts (rf : Raft N) (args : AppendEntriesArgs) : Prop :=
  ∃ log ∈ args.entries,
    (slot rf.logs (rf.getSlicesIndexFromLogIndex log.logindex)).any
      (fun entry => decide (entry.logterm ≠ log.logterm)) = true

end Raft

/-- The batch a step turns into a request, and the node that does. -/
def batchToBuild (s : Cluster N) : Action N → Option (Fin N × List LogEntry)
  | .act i (.batchSender _) =>
    match (s.nodes i).rf.batchSenderThread with
    | some (.build _ entries _) => some (i, entries)
    | _ => none
  | _ => none

/-- The `AppendEntries` request a step delivers. -/
def appendDelivered (s : Cluster N) : Action N → Option (Rpc N AppendEntriesArgs)
  | .deliver k =>
    match s.network[k]? with
    | some (.appendEntries r) => some r
    | _ => none
  | _ => none

/-- No request is built from a batch that is not the leader's own. -/
def FreshBatch (s : Cluster N) (a : Action N) : Prop :=
  ∀ x ∈ batchToBuild s a, (s.nodes x.1).rf.OwnBatch x.2

/-- No entry is overwritten while entries behind the request are kept. -/
def CleanOverwrite (s : Cluster N) (a : Action N) : Prop :=
  ∀ r ∈ appendDelivered s a, (s.nodes r.dst).rf.Accepts r.args →
    (s.nodes r.dst).rf.Conflicts r.args →
      (s.nodes r.dst).rf.getLastLogIndex ≤ r.args.prevlogindex + r.args.entries.length

/-- A step that takes neither branch. -/
def Clean (s : Cluster N) (a : Action N) : Prop := FreshBatch s a ∧ CleanOverwrite s a

section Decidable

variable (rf : Raft N) (entries : List LogEntry) (args : AppendEntriesArgs) (s : Cluster N)
  (a : Action N)

instance : Decidable (rf.OwnBatch entries) := inferInstanceAs (Decidable (_ ∧ _ ∧ _))
instance : Decidable (rf.Accepts args) := inferInstanceAs (Decidable (_ ∧ _ ∧ _ ∧ _))
instance : Decidable (rf.Conflicts args) := inferInstanceAs (Decidable (∃ log ∈ args.entries, _))
instance : Decidable (FreshBatch s a) := inferInstanceAs (Decidable (∀ x ∈ _, _))
instance : Decidable (CleanOverwrite s a) := inferInstanceAs (Decidable (∀ r ∈ _, _))
instance : Decidable (Clean s a) := inferInstanceAs (Decidable (_ ∧ _))

end Decidable

/-! ## The relation -/

/-- Entries carry their own position, and a term. -/
def Numbered (l : List LogEntry) : Prop :=
  ∀ (k : ℕ) (e : LogEntry), l[k]? = some e → e.logindex = (k : ℤ) + 1 ∧ 0 ≤ e.logterm

/-- A candidate's request describes the log it stood with. -/
structure Stood (p : Ledger (Fin N) LogEntry) (i : Fin N) (args : RequestVoteArgs) : Prop where
  index : args.lastlogindex = (p.ballotLog i args.term.toNat).length
  term : args.lastlogterm = lastTerm (p.ballotLog i args.term.toNat)

/-- A request is a slice of the log of the leader of its term; one whose `prevlogterm` is -1
    matches no log. -/
structure Sliced (p : Ledger (Fin N) LogEntry) (r : Rpc N AppendEntriesArgs) : Prop where
  nonneg : 0 ≤ r.args.term
  prev : 0 ≤ r.args.prevlogindex
  leader : p.leader r.args.term.toNat = some r.src
  slice : 0 ≤ r.args.prevlogterm →
    r.args.prevlogindex.toNat + r.args.entries.length ≤ (p.lead r.args.term.toNat).length ∧
    r.args.entries = ((p.lead r.args.term.toNat).drop r.args.prevlogindex.toNat).take
      r.args.entries.length ∧
    r.args.prevlogterm = termAt (p.lead r.args.term.toNat) r.args.prevlogindex.toNat

/-- What the messages say about the ledger. -/
def LogPacket (p : Ledger (Fin N) LogEntry) : Packet N → Prop
  | .requestVote r => Stood p r.src r.args
  | .appendEntries r => Sliced p r
  | .appendEntriesReply r reply => reply.success = true →
    Sliced p r ∧ 0 ≤ r.args.prevlogterm ∧ reply.term = r.args.term ∧
      r.args.prevlogindex.toNat + r.args.entries.length ≤ p.ack r.dst r.args.term.toNat
  | _ => True

/-- An election that runs: its request describes the log the node stood with, which is still
    its log unless the term has been won. -/
structure Running (p : Ledger (Fin N) LogEntry) (i : Fin N) (e : Election N) : Prop where
  stood : Stood p i e.args
  standing : p.leader e.args.term.toNat = none → e.args.term.toNat = p.term i →
    p.log i = p.ballotLog i e.args.term.toNat

/-- Node `i` is as the ledger says. -/
structure Logged (p : Ledger (Fin N) LogEntry) (i : Fin N) (n : Node N) : Prop where
  log : n.rf.logs = p.log i
  running : ∀ e, n.election = some e → Running p i e

/-- The ledger `p` has on record what the cluster has done so far. -/
structure Replicated (s : Cluster N) (p : Ledger (Fin N) LogEntry) : Prop where
  tidy : s.Tidy
  elections : Elections s p.toBallot
  sound : p.Sound
  numbered : ∀ t, Numbered (p.lead t)
  node : ∀ i, Logged p i (s.nodes i)
  packet : ∀ q ∈ s.network, LogPacket p q

/-- What is known of node `i` before a step. -/
structure Recorded (p : Ledger (Fin N) LogEntry) (i : Fin N) (n : Node N) : Prop where
  plain : n.Plain
  sound : p.Sound
  numbered : ∀ t, Numbered (p.lead t)
  voted : Voted p.toBallot i n.rf
  counted : ∀ e, n.election = some e → Counted p.toBallot i e
  logged : Logged p i n

theorem Replicated.recorded {s : Cluster N} {p : Ledger (Fin N) LogEntry} (h : Replicated s p)
    (i : Fin N) : Recorded p i (s.nodes i) :=
  ⟨(h.tidy.node i).plain, h.sound, h.numbered, h.elections.node i, h.elections.election i, h.node i⟩

/-- The result of a step of node `i`, as the new ledger must find it. -/
structure Written (p p' : Ledger (Fin N) LogEntry) (i : Fin N) (n : Node N)
    (out : List (Packet N)) : Prop where
  ballot : p'.toBallot = n.rf.seenIn p.toBallot i
  le : p.Le p'
  sound : p'.Sound
  numbered : ∀ t, Numbered (p'.lead t)
  log_ne : ∀ j, j ≠ i → p'.log j = p.log j
  ballotLog : ∀ j t, j ≠ i ∨ t ≤ p.term i → p'.ballotLog j t = p.ballotLog j t
  certified : ∀ k, p.Certified (p.log i) (p.term i) k → p.Certified (p'.log i) (p'.term i) k
  node : Logged p' i n
  out : ∀ q ∈ out, LogPacket p' q

/-! ## What the relation keeps -/

section Relation

variable {p p' : Ledger (Fin N) LogEntry}

theorem Numbered.of_isPrefix {l l' : List LogEntry} (h : Numbered l') (hp : l <+: l') : Numbered l :=
  fun k e he => h k e (getElem?_of_isPrefix hp he)

/-- Every log that follows the leaders is numbered as theirs are. -/
theorem numbered_of_follows (h : ∀ t, Numbered (p.lead t)) {l : List LogEntry}
    (hl : Follows p.lead l) : Numbered l := by
  intro k e he
  have hpre := hl k e he
  have hk : (l.take (k + 1))[k]? = some e := by rw [List.getElem?_take_of_lt (by omega), he]
  exact h _ k e (getElem?_of_isPrefix hpre hk)

theorem termAt_of_isPrefix {l l' : List LogEntry} (h : l <+: l') {k : ℕ} (hk : k ≤ l.length) :
    termAt l' k = termAt l k := by
  cases k with
  | zero => rfl
  | succ k =>
    obtain ⟨x, rfl⟩ := h
    rw [termAt_succ, termAt_succ, List.getElem?_append_left hk]

theorem slice_of_isPrefix {l l' : List LogEntry} (h : l <+: l') {k m : ℕ} (hk : k + m ≤ l.length) :
    (l'.drop k).take m = (l.drop k).take m := by
  obtain ⟨x, rfl⟩ := h
  rw [List.drop_append_of_le_length (by omega), List.take_append_of_le_length]
  rw [List.length_drop]
  omega

theorem Sliced.mono (hs : p.Sound) (hle : p.Le p') {r : Rpc N AppendEntriesArgs}
    (h : Sliced p r) : Sliced p' r := by
  refine ⟨h.nonneg, h.prev, hle.ballot.leader h.leader, fun hterm => ?_⟩
  obtain ⟨h1, h2, h3⟩ := h.slice hterm
  have hpre := hs.lead_prefix_of_le hle r.args.term.toNat
  refine ⟨h1.trans hpre.length_le, ?_, ?_⟩
  · rw [slice_of_isPrefix hpre h1]; exact h2
  · rw [termAt_of_isPrefix hpre (by omega)]; exact h3

theorem Stood.congr {i : Fin N} {args : RequestVoteArgs} (h : Stood p i args)
    (hbl : p'.ballotLog i args.term.toNat = p.ballotLog i args.term.toNat) : Stood p' i args := by
  refine ⟨?_, ?_⟩
  · rw [hbl]; exact h.index
  · rw [hbl]; exact h.term

/-- A message keeps its meaning in a ledger with more on record. -/
theorem LogPacket.mono (hs : p.Sound) (hle : p.Le p') {i : Fin N}
    (hbl : ∀ j t, j ≠ i ∨ t ≤ p.term i → p'.ballotLog j t = p.ballotLog j t) {q : Packet N}
    (hv : VotePacket p.toBallot q) (hq : LogPacket p q) : LogPacket p' q := by
  cases q with
  | requestVote r =>
    refine Stood.congr hq (hbl _ _ ?_)
    by_cases hr : r.src = i
    · have := hv.2.1
      rw [hr] at this
      exact Or.inr (by omega)
    · exact Or.inl hr
  | requestVoteReply r reply => trivial
  | appendEntries r => exact Sliced.mono hs hle hq
  | appendEntriesReply r reply =>
    intro hsucc
    obtain ⟨h1, h2, h3, h4⟩ := hq hsucc
    exact ⟨h1.mono hs hle, h2, h3, h4.trans (hle.ack _ _)⟩
  | installSnapshot r => trivial
  | installSnapshotReply r resp => trivial

theorem Replicated.update {s : Cluster N} (h : Replicated s p) {i : Fin N}
    {result : Node N × List (Packet N)} (hc : Cast p.toBallot i result.1 result.2)
    (hw : Written p p' i result.1 result.2) {rest : List (Packet N)}
    (hrest : ∀ q ∈ rest, q ∈ s.network) (ht : (s.update i result rest).Tidy) :
    Replicated (s.update i result rest) p' where
  tidy := ht
  elections := hw.ballot ▸ h.elections.update hc hrest
  sound := hw.sound
  numbered := hw.numbered
  node j := by
    by_cases hj : j = i
    · subst hj
      simpa [Cluster.update] using hw.node
    · have hn := h.node j
      have hterm : p'.term j = p.term j := by
        rw [hw.ballot]
        exact Ballot.observe_term_ne _ _ _ _ _ hj
      have hbl : ∀ t, p'.ballotLog j t = p.ballotLog j t := fun t => hw.ballotLog j t (Or.inl hj)
      simp only [Cluster.update, Function.update_of_ne hj]
      refine ⟨?_, fun e he => ⟨(hn.running e he).stood.congr (hbl _), fun hnone ht => ?_⟩⟩
      · rw [hw.log_ne j hj]; exact hn.log
      · rw [hw.log_ne j hj, hbl]
        refine (hn.running e he).standing ?_ (ht.trans hterm)
        by_contra hsome
        obtain ⟨x, hx⟩ := Option.ne_none_iff_exists'.mp hsome
        rw [hw.le.ballot.leader hx] at hnone
        cases hnone
  packet q hq := by
    rcases List.mem_append.mp hq with hq | hq
    · exact (h.packet q (hrest q hq)).mono h.sound hw.le hw.ballotLog
        (h.elections.packet q (hrest q hq))
    · exact hw.out q hq

theorem replicated_init : Replicated (Cluster.init N) Ledger.empty where
  tidy := Cluster.tidy_init
  elections := elections_init
  sound := Ledger.sound_empty
  numbered _ k e he := by simp [Ledger.empty, Ballot.empty] at he
  node i := ⟨rfl, fun e h => by simp [Cluster.init, Node.init] at h⟩
  packet q hq := by simp [Cluster.init] at hq

end Relation

end MyKvRaft
