import MyKvRaft.Leader.Buffers
import MyKvRaft.Safety.Commit

/-!
# Batches and the log they come from

`Start` puts an entry both into the log and into `m_pendingEntries`. The buffer is not
cleared when the node steps down, so it stays a piece of the log only as long as nothing
happens to the log in between: no entry that is still buffered is overwritten
(`KeepsBuffered`), and no entry comes into the log past the end of a buffer that `Start`
then appends to (`ContinuesBatch`).

* `batches_from_log`: in every run of such steps, each batch that is sent is a piece of the
  sender's log.
-/

namespace MyKvRaft

open Consensus Transition Raft

variable {N : ℕ}

/-! ## What a request should carry -/

/-- `flushPendingEntries` (lines 1668–1701). Nothing in the program calls it. -/
def Node.flushPendingEntries (n : Node N) (peerId : Fin N) : Node N × List (Packet N) :=
  let pending := n.rf.pendingEntries peerId
  let n' := { n with rf := { n.rf with
    pendingEntries := Function.update n.rf.pendingEntries peerId { pending with entries := [] } } }
  if pending.entries.isEmpty then (n', [])
  else
    let r : Rpc N AppendEntriesArgs := ⟨n.nextRpc, n.rf.me, peerId, n.rf.batchArgs pending.entries⟩
    ({ n' with
        nextRpc := n.nextRpc + 1
        calls := n.calls ++ [⟨r, n.counters.length⟩]
        counters := n.counters ++ [1] },
      [.appendEntries r])

/-- The request is a piece of the log: its entries are those behind `prevlogindex`, and
    `prevlogterm` is the term there. -/
structure Raft.Quotes (rf : Raft N) (args : AppendEntriesArgs) : Prop where
  index : ∀ (j : ℕ) (e : LogEntry), args.entries[j]? = some e →
    e.logindex = args.prevlogindex + (j + 1)
  entry : ∀ e ∈ args.entries, ∃ f, rf.entryAt e.logindex = some f ∧ f.logterm = e.logterm ∧
    f.command = e.command
  prev : (args.prevlogindex = 0 ∧ args.prevlogterm = 0) ∨
    ∃ f, rf.entryAt args.prevlogindex = some f ∧ f.logterm = args.prevlogterm

/-- Whatever `batchSenderLoop` or `flushPendingEntries` sends next is a piece of the log. -/
def Node.QuotesLog (n : Node N) : Prop :=
  ∀ r : Rpc N AppendEntriesArgs,
    (∃ clock, .appendEntries r ∈ (n.batchSender clock).2) ∨
      (∃ peerId, .appendEntries r ∈ (n.flushPendingEntries peerId).2) → n.rf.Quotes r.args

/-! ## The two conditions -/

/-- The entries a node has still to send. -/
def Raft.bufferedEntries (rf : Raft N) : List LogEntry :=
  (List.finRange N).flatMap (fun p => (rf.pendingEntries p).entries) ++ rf.queued.flatMap (·.2)

/-- A request that is accepted has no entry of another term for the index of an entry that is
    still buffered. -/
def KeepsBuffered (s : Cluster N) (a : Action N) : Prop :=
  ∀ r ∈ appendDelivered s a, (s.nodes r.dst).rf.Accepts r.args →
    ∀ e ∈ r.args.entries, ∀ f ∈ (s.nodes r.dst).rf.bufferedEntries,
      e.logindex = f.logindex → e.logterm = f.logterm

/-- Every buffer that `Start` appends to is empty or ends where the log ends. -/
def Raft.ContinuesBatch (rf : Raft N) : Prop :=
  rf.status = .Leader → ∀ p, p ≠ rf.me → ∀ e ∈ (rf.pendingEntries p).entries.getLast?,
    e.logindex = rf.getLastLogIndex

/-- The node whose `Start` is called. -/
def startCalled : Action N → Option (Fin N)
  | .act i (.start _ _) => some i
  | _ => none

/-- A step that leaves the buffers a piece of the log. -/
def KeepsBatches (s : Cluster N) (a : Action N) : Prop :=
  KeepsBuffered s a ∧ ∀ i ∈ startCalled a, (s.nodes i).rf.ContinuesBatch

section Decidable

variable (s : Cluster N) (a : Action N) (rf : Raft N)

instance : Decidable (KeepsBuffered s a) := inferInstanceAs (Decidable (∀ r ∈ _, _))
instance : Decidable rf.ContinuesBatch := inferInstanceAs (Decidable (_ → _))
instance : Decidable (KeepsBatches s a) := inferInstanceAs (Decidable (_ ∧ _))

end Decidable

/-! ## Pieces of a log -/

/-- The entry stands in the log at its index. -/
def StandsIn (logs : List LogEntry) (e : LogEntry) : Prop :=
  ∃ (k : ℕ) (f : LogEntry), e.logindex = k + 1 ∧ logs[k]? = some f ∧ f.logterm = e.logterm ∧
    f.command = e.command

/-- The entries stand in the log one behind the other. -/
def Copies (logs l : List LogEntry) : Prop :=
  (∃ k : ℕ, ∀ (j : ℕ) (e : LogEntry), l[j]? = some e → e.logindex = k + (j + 1)) ∧
    ∀ e ∈ l, StandsIn logs e

theorem copies_nil (logs : List LogEntry) : Copies logs [] :=
  ⟨⟨0, fun j e he => by simp at he⟩, fun e he => by cases he⟩

theorem Copies.mono {logs logs' l : List LogEntry} (h : Copies logs l)
    (hlogs : ∀ e ∈ l, StandsIn logs e → StandsIn logs' e) : Copies logs' l :=
  ⟨h.1, fun e he => hlogs e he (h.2 e he)⟩

theorem StandsIn.append {logs : List LogEntry} {e : LogEntry} (h : StandsIn logs e)
    (tail : List LogEntry) : StandsIn (logs ++ tail) e := by
  obtain ⟨k, f, hk, hf, hrest⟩ := h
  refine ⟨k, f, hk, ?_, hrest⟩
  rw [List.getElem?_append_left (List.getElem?_eq_some_iff.mp hf).1]
  exact hf

/-- A batch that ends where the log ends, or is empty, goes on with the log. -/
theorem Copies.snoc {logs l : List LogEntry} (h : Copies logs l) {e : LogEntry}
    (hindex : e.logindex = logs.length + 1)
    (hend : ∀ f ∈ l.getLast?, f.logindex = logs.length) : Copies (logs ++ [e]) (l ++ [e]) := by
  refine ⟨?_, fun f hf => ?_⟩
  · obtain ⟨k, hk⟩ := h.1
    cases hlast : l.getLast? with
    | none =>
      rw [List.getLast?_eq_none_iff] at hlast
      subst hlast
      refine ⟨logs.length, fun j f hf => ?_⟩
      cases j with
      | zero =>
        cases hf
        rw [hindex]
        simp
      | succ j => simp at hf
    | some g =>
      have hg := hend g hlast
      have hpos : 0 < l.length := by
        refine List.length_pos_iff.mpr ?_
        rintro rfl
        cases hlast
      rw [List.getLast?_eq_getElem?] at hlast
      have hglast := hk _ g hlast
      refine ⟨k, fun j f hf => ?_⟩
      rcases lt_or_ge j l.length with hj | hj
      · rw [List.getElem?_append_left hj] at hf
        exact hk j f hf
      · rw [List.getElem?_append_right hj] at hf
        have hj0 : j - l.length = 0 := by
          have := (List.getElem?_eq_some_iff.mp hf).1
          simpa using this
        rw [hj0] at hf
        cases hf
        omega
  · rcases List.mem_append.mp hf with hf | hf
    · exact (h.2 f hf).append [e]
    · rw [List.mem_singleton] at hf
      subst hf
      exact ⟨logs.length, f, hindex, by simp, rfl, rfl⟩

/-- What is buffered is a piece of the log. -/
structure Node.Copied (n : Node N) : Prop where
  pending : ∀ p, Copies n.rf.logs (n.rf.pendingEntries p).entries
  queued : ∀ x ∈ n.rf.queued, x.2 ≠ [] ∧ Copies n.rf.logs x.2

namespace Node

variable {n n' : Node N}

theorem copied_init (i : Fin N) : (Node.init i).Copied :=
  ⟨fun _ => copies_nil _, fun x hx => by cases hx⟩

theorem copied_restart (n : Node N) : n.restart.Copied := by
  have hpending : n.restart.rf.pendingEntries = fun _ => ⟨[], 0⟩ := init_pendingEntries _ _
  have hqueued : n.restart.rf.queued = [] := by
    unfold Raft.queued
    rw [show n.restart.rf.batchSenderThread = none from init_batchSenderThread _ _]
  refine ⟨fun p => ?_, fun x hx => ?_⟩
  · rw [hpending]
    exact copies_nil _
  · rw [hqueued] at hx
    cases hx

theorem Copied.of_eq (h : n.Copied) (hlogs : n'.rf.logs = n.rf.logs)
    (hpending : n'.rf.pendingEntries = n.rf.pendingEntries)
    (hqueued : n'.rf.queued ⊆ n.rf.queued) : n'.Copied := by
  refine ⟨fun p => ?_, fun x hx => ?_⟩
  · rw [hlogs, hpending]
    exact h.pending p
  · rw [hlogs]
    exact h.queued x (hqueued hx)

theorem Copied.start (h : n.Copied) (hsnap : n.rf.NoSnapshot) (hl : n.rf.status = .Leader)
    (hcont : n.rf.ContinuesBatch) (command : Op) (now : ℤ) :
    Copied { n with rf := (n.rf.start command now).1 } := by
  have hlogs : (n.rf.start command now).1.logs = n.rf.logs ++ [n.rf.newEntry command] := by
    rw [start_eq hl]
    rfl
  have hqueued : (n.rf.start command now).1.queued = n.rf.queued := by
    rw [start_eq hl]
    rfl
  have hindex : (n.rf.newEntry command).logindex = n.rf.logs.length + 1 := by
    show n.rf.getLastLogIndex + 1 = _
    rw [hsnap.getLastLogIndex]
  refine ⟨fun p => ?_, fun x hx => ?_⟩
  · show Copies (n.rf.start command now).1.logs _
    rw [hlogs]
    by_cases hp : p = n.rf.me
    · have hsame : ((n.rf.start command now).1.pendingEntries p).entries =
          (n.rf.pendingEntries p).entries := by
        simp [start_eq hl, addToPendingBatch, hp]
      rw [hsame]
      exact (h.pending p).mono fun e _ he => he.append _
    · rw [start_pendingEntries hl command now hp]
      refine (h.pending p).snoc hindex fun f hf => ?_
      rw [hcont hl p hp f hf, hsnap.getLastLogIndex]
  · rw [show Raft.queued _ = n.rf.queued from hqueued] at hx
    obtain ⟨hne, hcopies⟩ := h.queued x hx
    refine ⟨hne, hcopies.mono fun e _ he => ?_⟩
    show StandsIn (n.rf.start command now).1.logs e
    rw [hlogs]
    exact he.append _

theorem Copied.collect (h : n.Copied) (clock : Fin N → ℤ × ℤ) :
    Copied { n with rf := n.rf.collectBatches clock } := by
  refine ⟨fun p => ?_, fun x hx => ?_⟩
  · simp only [collectBatches]
    split_ifs
    · exact copies_nil _
    · exact h.pending p
  · obtain ⟨p, hp, rfl⟩ := List.mem_map.mp hx
    have hflush : p ∈ n.rf.flushPeers clock := hp
    obtain ⟨_, hwhy⟩ := List.mem_filter.mp hflush
    exact ⟨(of_decide_eq_true hwhy).2.1, h.pending p⟩

/-- Every move but taking entries from a leader. -/
theorem Moves.copied {x : Input N ⊕ Packet N} (hm : Moves x n n') (h : n.Copied)
    (hsnap : n.rf.NoSnapshot) (hx : ∀ r, x ≠ .inr (.appendEntries r))
    (hcont : ∀ command now, x = .inl (.start command now) → n.rf.ContinuesBatch) : n'.Copied := by
  cases hm with
  | restart => exact copied_restart n
  | idle hc => exact h.of_eq hc.logs hc.pending (hc.queued ▸ List.Subset.refl _)
  | follow => exact absurd rfl (hx _)
  | win _ _ _ hlogs hpending hqueued =>
    refine h.of_eq hlogs hpending ?_
    rcases hqueued with hq | hq
    · exact hq ▸ List.Subset.refl _
    · rw [hq]
      exact List.nil_subset _
  | @start command now _ hl => exact h.start hsnap hl (hcont command now rfl) command now
  | beat _ hrf =>
    refine h.of_eq (by rw [hrf]; rfl) (by rw [hrf]; rfl) ?_
    rw [hrf]
    exact List.Subset.refl _
  | @collect clock => exact h.collect clock
  | skip hrf _ hsub =>
    obtain ⟨pc, hrf⟩ := hrf
    exact h.of_eq (by rw [hrf]) (by rw [hrf]) hsub
  | build hpc hrf =>
    refine h.of_eq (by rw [hrf]) (by rw [hrf]) ?_
    simp only [Raft.queued, hrf, hpc, BatchSender.queued]
    exact List.subset_cons_self _ _
  | close _ _ hc => exact h.of_eq hc.logs hc.pending (hc.queued ▸ List.Subset.refl _)
  | @mismatch r reply _ _ _ _ _ _ _ _ hrf =>
    obtain ⟨nextIdx, heq⟩ := n.rf.handleLogMismatch_eq r.dst reply
    rw [heq] at hrf
    refine h.of_eq (by rw [hrf]) (by rw [hrf]) ?_
    rw [hrf]
    exact List.Subset.refl _
  | sync _ _ _ _ _ hrf =>
    refine h.of_eq (by rw [hrf]; rfl) (by rw [hrf]; rfl) ?_
    rw [hrf]
    exact List.Subset.refl _

end Node

/-! ## Overwriting -/

namespace Raft

variable {rf rf' : Raft N}

/-- The entry loop leaves an entry alone if the request has none of another term for its index. -/
theorem appendEntry_keeps (h : rf.NoSnapshot) {e : LogEntry} (hres : rf.appendEntry e = some rf')
    {k : ℕ} {f : LogEntry} (hf : rf.logs[k]? = some f)
    (hsame : e.logindex = k + 1 → e.logterm = f.logterm) :
    rf'.NoSnapshot ∧ rf'.logs[k]? = some f := by
  have hlt := (List.getElem?_eq_some_iff.mp hf).1
  unfold appendEntry at hres
  split_ifs at hres with hend
  · cases hres
    exact ⟨⟨h.index, h.term⟩, by rw [List.getElem?_append_left hlt]; exact hf⟩
  · dsimp only at hres
    split at hres
    · cases hres
    · next entry hslot =>
      rw [myAssert_eq_some] at hres
      obtain ⟨_, hres⟩ := hres
      split_ifs at hres with hterm
      · cases hres
        obtain ⟨j, hj, hentry⟩ := h.entryAt_eq hslot
        have hslice : rf.getSlicesIndexFromLogIndex e.logindex = j := by
          unfold getSlicesIndexFromLogIndex
          rw [hj, h.index, if_neg (by omega)]
          omega
        refine ⟨⟨h.index, h.term⟩, ?_⟩
        show (rf.logs.set _ e)[k]? = some f
        rw [hslice, Int.toNat_natCast]
        by_cases hjk : j = k
        · subst hjk
          rw [hf] at hentry
          cases hentry
          exact absurd (hsame hj).symm hterm
        · rw [List.getElem?_set_ne hjk]
          exact hf
      · cases hres
        exact ⟨h, hf⟩

theorem foldlM_appendEntry_keeps {entries : List LogEntry} (h : rf.NoSnapshot)
    (hres : entries.foldlM appendEntry rf = some rf') {k : ℕ} {f : LogEntry}
    (hf : rf.logs[k]? = some f)
    (hsame : ∀ e ∈ entries, e.logindex = k + 1 → e.logterm = f.logterm) :
    rf'.logs[k]? = some f := by
  induction entries generalizing rf with
  | nil =>
    cases hres
    exact hf
  | cons e es ih =>
    rw [List.foldlM_cons, Option.bind_eq_bind, Option.bind_eq_some_iff] at hres
    obtain ⟨rf₁, h1, h2⟩ := hres
    obtain ⟨hsnap, hf₁⟩ := appendEntry_keeps h h1 hf (hsame e List.mem_cons_self)
    exact ih hsnap h2 hf₁ fun e' he' => hsame e' (List.mem_cons_of_mem e he')

theorem mem_bufferedEntries_pending {p : Fin N} {e : LogEntry}
    (he : e ∈ (rf.pendingEntries p).entries) : e ∈ rf.bufferedEntries :=
  List.mem_append_left _ (List.mem_flatMap.mpr ⟨p, List.mem_finRange p, he⟩)

theorem mem_bufferedEntries_queued {x : Fin N × List LogEntry} (hx : x ∈ rf.queued)
    {e : LogEntry} (he : e ∈ x.2) : e ∈ rf.bufferedEntries :=
  List.mem_append_right _ (List.mem_flatMap.mpr ⟨x, hx, he⟩)

end Raft

/-- A node takes entries from a leader and keeps those that it has still to send. -/
theorem Node.Copied.receive {n : Node N} (h : n.Copied) (hsnap : n.rf.NoSnapshot)
    {r : Rpc N AppendEntriesArgs}
    (hkeep : n.rf.Accepts r.args → ∀ e ∈ r.args.entries, ∀ f ∈ n.rf.bufferedEntries,
      e.logindex = f.logindex → e.logterm = f.logterm) :
    (n.receive (.appendEntries r)).1.Copied := by
  simp only [Node.receive, Node.finish]
  cases hres : n.rf.appendEntries1 r.args with
  | none => exact copied_restart n
  | some x =>
    obtain ⟨rf', reply⟩ := x
    have hsee := n.rf.carried_seeTerm r.args.term
    rcases appendEntries1_cases hres with ⟨_, rfl, _⟩ | ⟨_, rfl, _⟩ | ⟨h1, h2, h3, h4, hacc⟩
    · exact h
    · exact h.of_eq hsee.logs hsee.pending (hsee.queued ▸ List.Subset.refl _)
    · obtain ⟨logs, hfold, _, rfl, _⟩ := acceptEntries_cases hacc
      have hsnap' : (n.rf.follow r.args.term).NoSnapshot := by
        refine ⟨?_, ?_⟩
        · exact (seeTerm_lastSnapshotIncludeIndex _ _).trans hsnap.index
        · exact (seeTerm_lastSnapshotIncludeTerm _ _).trans hsnap.term
      have hstands : ∀ f ∈ n.rf.bufferedEntries, StandsIn n.rf.logs f → StandsIn logs f := by
        rintro f hf ⟨k, g, hk, hg, hterm, hcommand⟩
        refine ⟨k, g, hk, ?_, hterm, hcommand⟩
        refine foldlM_appendEntry_keeps hsnap' hfold (hsee.logs ▸ hg) fun e he hindex => ?_
        rw [hterm]
        exact hkeep ⟨h1, h2, h3, h4⟩ e he f hf (hindex.trans hk.symm)
      refine ⟨fun p => ?_, fun x hx => ?_⟩
      · have hpending : Raft.pendingEntries _ p = n.rf.pendingEntries p := congrFun hsee.pending p
        have hcopies : Copies n.rf.logs (Raft.pendingEntries _ p).entries :=
          hpending ▸ h.pending p
        refine hcopies.mono fun f hf => hstands f ?_
        exact mem_bufferedEntries_pending (hpending ▸ hf)
      · have hx' : x ∈ n.rf.queued := hsee.queued ▸ hx
        obtain ⟨hne, hcopies⟩ := h.queued x hx'
        exact ⟨hne, hcopies.mono fun f hf => hstands f (mem_bufferedEntries_queued hx' hf)⟩

/-! ## Every run -/

/-- The request built for a copied batch. -/
theorem quotes_batchArgs {rf : Raft N} (hsnap : rf.NoSnapshot) {entries : List LogEntry}
    (hne : entries ≠ []) (h : Copies rf.logs entries) : rf.Quotes (rf.batchArgs entries) := by
  obtain ⟨⟨k, hk⟩, hstands⟩ := h
  obtain ⟨e, es, rfl⟩ := List.exists_cons_of_ne_nil hne
  have hprev : (rf.batchArgs (e :: es)).prevlogindex = k := by
    have := hk 0 e rfl
    show e.logindex - 1 = k
    omega
  have hterm : (rf.batchArgs (e :: es)).prevlogterm = termAt rf.logs k := by
    rw [← hsnap.getLogTermFromLogIndex, ← hprev]
    rfl
  refine ⟨fun j f hf => ?_, fun f hf => ?_, ?_⟩
  · rw [hprev]
    exact hk j f hf
  · obtain ⟨m, g, hm, hg, hrest⟩ := hstands f hf
    refine ⟨g, ?_, hrest⟩
    rw [hm, hsnap.entryAt_succ]
    exact hg
  · rw [hprev, hterm]
    cases k with
    | zero => exact .inl ⟨rfl, rfl⟩
    | succ k =>
      -- the first entry stands in the log, so the one in front of it does
      obtain ⟨m, g, hm, hg, _⟩ := hstands e List.mem_cons_self
      have h0 := hk 0 e rfl
      have hlt : k < rf.logs.length := by
        have := (List.getElem?_eq_some_iff.mp hg).1
        push_cast at h0
        omega
      refine .inr ⟨rf.logs[k], ?_, ?_⟩
      · push_cast
        rw [hsnap.entryAt_succ, List.getElem?_eq_getElem hlt]
      · rw [termAt_succ, List.getElem?_eq_getElem hlt]
        rfl

theorem Node.Copied.quotesLog {n : Node N} (h : n.Copied) (hsnap : n.rf.NoSnapshot) :
    n.QuotesLog := by
  rintro r (⟨clock, hr⟩ | ⟨peerId, hr⟩)
  · unfold Node.batchSender at hr
    split at hr
    · cases hr
    · split_ifs at hr <;> cases hr
    · cases hr
    · cases hr
    · split_ifs at hr <;> cases hr
    · next peer entries rest hpc =>
      rw [List.mem_singleton] at hr
      cases hr
      have hq : (peer, entries) ∈ n.rf.queued := by simp [Raft.queued, hpc, BatchSender.queued]
      obtain ⟨hne, hcopies⟩ := h.queued _ hq
      exact quotes_batchArgs hsnap hne hcopies
  · unfold Node.flushPendingEntries at hr
    dsimp only at hr
    split_ifs at hr with hempty
    · cases hr
    · rw [List.mem_singleton] at hr
      cases hr
      refine quotes_batchArgs hsnap ?_ (h.pending peerId)
      simpa using hempty

/-- What every node has buffered is a piece of its log, after every step that meets the
    conditions. -/
theorem copied_step {s : Cluster N} (htidy : s.Tidy) (h : ∀ i, (s.nodes i).Copied)
    {a : Action N} (hok : KeepsBatches s a) (i : Fin N) : ((s.step a).nodes i).Copied := by
  rcases s.step_nodes a i with heq | ⟨x, hx, heq⟩
  · rw [heq]
    exact h i
  · rw [heq]
    have hsnap := (htidy.node i).plain.snap
    by_cases happ : ∃ r, x = .inr (.appendEntries r)
    · obtain ⟨r, rfl⟩ := happ
      cases a with
      | act j input => cases hx
      | deliver k =>
        obtain ⟨q, hq, hpq⟩ := Option.map_eq_some_iff.mp hx
        cases hpq
        refine (h r.dst).receive hsnap (hok.1 r ?_)
        simp [appendDelivered, hq]
    · refine (htidy.moves hx).copied (h i) hsnap (fun r hr => happ ⟨r, hr⟩) ?_
      rintro command now rfl
      have ha := Cluster.driven_input hx
      subst ha
      exact hok.2 i rfl

/-- In every run whose steps keep what is buffered and continue it, whatever
    `batchSenderLoop` or `flushPendingEntries` sends is a piece of the sender's log. -/
theorem batches_from_log (h : List (Cluster N × Action N)) (s : Cluster N)
    (hr : Cluster.Runs KeepsBatches h s) (i : Fin N) : (s.nodes i).QuotesLog := by
  have hinv := hr.invariant (I := fun s => s.Tidy ∧ ∀ i, (s.nodes i).Copied)
    ⟨Cluster.tidy_init, Node.copied_init⟩
    (fun s a hI hok => ⟨hI.1.step a, copied_step hI.1 hI.2 hok⟩)
  exact (hinv.2 i).quotesLog (hinv.1.node i).plain.snap

open MyKvRaft.Action in
/-- Node 0 leads term 1 and takes two commands; `batchSenderLoop` is about to send them. -/
def twoCommandsRun : List (Action 3) :=
  electionRun ++ [put 0 1, put 0 2, flush 0, flush 0, flush 0]

theorem batches_from_log_twoCommandsRun :
    ((batchToBuild (Cluster.exec twoCommandsRun) (Action.flush 0)).map fun x =>
      x.2.map (·.logindex)) = some [1, 2] ∧
    ((Cluster.exec twoCommandsRun).nodes 0).QuotesLog :=
  ⟨by decide +kernel,
    batches_from_log _ _ (Cluster.runs_exec twoCommandsRun (by decide +kernel)) 0⟩

open MyKvRaft.Action in
/-- The run of `staleBatchRun` up to the batch of node 0: the entry at 1 that it has kept from
    term 1, and the entry at 3 of its second command. -/
def reelectedRun : List (Action 3) :=
  [timeout 0, ask 0, ask 0, .deliver 0, .deliver 0, put 0 1,
    timeout 1, ask 1, voteLost 1, ask 1, ask 1, .deliver 1, .deliver 1, put 1 5, put 1 6] ++
  batchRound 1 ++
  [.deliver 1, ask 0, voteLost 0, ask 0, voteLost 0, ask 0, timeout 0, ask 0, ask 0, voteLost 0,
    ask 0, .deliver 5, .deliver 5, put 0 9, flush 0, flush 0, flush 0]

/-- The batch a step builds its request from is what the request carries. -/
theorem batchToBuild_sent {s : Cluster N} {i j : Fin N} {clock : Fin N → ℤ × ℤ}
    {entries : List LogEntry} (h : batchToBuild s (.act i (.batchSender clock)) = some (j, entries)) :
    j = i ∧ ∃ r : Rpc N AppendEntriesArgs,
      .appendEntries r ∈ ((s.nodes i).batchSender clock).2 ∧
      r.args = (s.nodes i).rf.batchArgs entries := by
  unfold batchToBuild at h
  dsimp only at h
  split at h
  · next peer entries' rest hpc =>
    cases h
    refine ⟨rfl, ⟨(s.nodes i).nextRpc, (s.nodes i).rf.me, peer,
      (s.nodes i).rf.batchArgs entries⟩, ?_, rfl⟩
    simp [Node.batchSender, hpc]
  · cases h

theorem batches_from_log_fails : ∃ (h : List (Cluster 3 × Action 3)) (s : Cluster 3),
    Cluster.Runs anyStep h s ∧ ∃ i, ¬ (s.nodes i).QuotesLog := by
  refine ⟨_, _, Cluster.runs_exec reelectedRun fun _ _ => trivial, 0, fun hq => ?_⟩
  have hbatch : (batchToBuild (Cluster.exec reelectedRun) (Action.flush 0)).map (fun x =>
      (x.1, x.2.map (·.logindex))) = some (0, [1, 3]) := by decide +kernel
  obtain ⟨⟨j, entries⟩, hbuild, heq⟩ := Option.map_eq_some_iff.mp hbatch
  obtain ⟨rfl, r, hr, hargs⟩ := batchToBuild_sent hbuild
  obtain ⟨_, hindices⟩ := Prod.mk.inj heq
  obtain ⟨e₁, e₂, rfl⟩ := List.length_eq_two.mp (by simpa using congrArg List.length hindices)
  have hsecond := (hq r (.inl ⟨_, hr⟩)).index 1 e₂ (by rw [hargs]; rfl)
  rw [hargs] at hsecond
  simp only [List.map_cons, List.map_nil, List.cons.injEq] at hindices
  change e₂.logindex = e₁.logindex - 1 + (1 + 1) at hsecond
  omega

end MyKvRaft
