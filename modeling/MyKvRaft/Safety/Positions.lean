import MyKvRaft.Append.Contract
import MyKvRaft.Leader.Batches

/-!
# Positions and indices

`persistDate` stores a log without its indices, and `readPersist` numbers it by position, so
position and index have to go together. `AppendEntries1` does not check that the entries it
is given are numbered one after the other; it relies on the sender's batches. These are, as
long as `Start` appends to no buffer that ends before the log does (`Continues`).

* `log_positions`: in every run of such steps, every log counts up from the snapshot point.
* `log_positions_fails`: a buffer kept from an earlier leadership ends before the log does.
-/

namespace MyKvRaft

open Transition Raft

variable {N : ℕ}

/-- Every `Start` goes on with the buffers it appends to. -/
def Continues (s : Cluster N) (a : Action N) : Prop :=
  ∀ i ∈ startCalled a, (s.nodes i).rf.ContinuesBatch

instance (s : Cluster N) (a : Action N) : Decidable (Continues s a) :=
  inferInstanceAs (Decidable (∀ i ∈ startCalled a, _))

/-! ## Batches -/

/-- The entries are numbered one after the other. -/
def CountsUp (l : List LogEntry) : Prop :=
  ∃ m : ℤ, ∀ (j : ℕ) (e : LogEntry), l[j]? = some e → e.logindex = m + j

theorem countsUp_nil : CountsUp [] := ⟨0, fun j e he => by simp at he⟩

/-- An entry is appended to an empty batch, or to one that ends right before it. -/
theorem CountsUp.snoc {l : List LogEntry} (h : CountsUp l) {e : LogEntry}
    (hend : ∀ f ∈ l.getLast?, e.logindex = f.logindex + 1) : CountsUp (l ++ [e]) := by
  obtain ⟨m, hm⟩ := h
  have hget : ∀ (k : ℤ), e.logindex = k + l.length →
      (∀ (j : ℕ) (f : LogEntry), l[j]? = some f → f.logindex = k + j) → CountsUp (l ++ [e]) := by
    intro k hlast hall
    refine ⟨k, fun j f hf => ?_⟩
    rcases lt_or_ge j l.length with hj | hj
    · rw [List.getElem?_append_left hj] at hf
      exact hall j f hf
    · rw [List.getElem?_append_right hj] at hf
      have hj0 : j - l.length = 0 := by
        have := (List.getElem?_eq_some_iff.mp hf).1
        simpa using this
      rw [hj0] at hf
      cases hf
      rw [hlast]
      omega
  cases hlast : l.getLast? with
  | none =>
    rw [List.getLast?_eq_none_iff] at hlast
    subst hlast
    exact hget e.logindex (by simp) (fun j f hf => by simp at hf)
  | some f =>
    have hnext := hend f hlast
    have hpos : 0 < l.length := by
      refine List.length_pos_iff.mpr ?_
      rintro rfl
      cases hlast
    rw [List.getLast?_eq_getElem?] at hlast
    have hf := hm _ f hlast
    refine hget m ?_ hm
    omega

/-- The request built for a batch is numbered from its `prevlogindex` on. -/
theorem CountsUp.batchArgs {l : List LogEntry} (h : CountsUp l) (rf : Raft N) :
    (rf.batchArgs l).Consecutive := by
  obtain ⟨m, hm⟩ := h
  cases l with
  | nil => exact fun j e he => by cases he
  | cons f l =>
    intro j e he
    have hhead : f.logindex = m + (0 : ℕ) := hm 0 f rfl
    have hj := hm j e he
    show e.logindex = f.logindex - 1 + j + 1
    omega

/-! ## The invariant -/

/-- The log of a node and all its batches count up. -/
structure Node.Positioned (n : Node N) : Prop where
  logs : n.rf.Contiguous
  batch : ∀ l, n.Batch l → CountsUp l

/-- The entries of a request count up from `prevlogindex`. -/
def ConsecutivePacket : Packet N → Prop
  | .appendEntries r => r.args.Consecutive
  | _ => True

/-- Nodes and requests are numbered. -/
structure Positioned (s : Cluster N) : Prop where
  tidy : s.Tidy
  node : ∀ i, (s.nodes i).Positioned
  packet : ∀ q ∈ s.network, ConsecutivePacket q

namespace Node

variable {n n' : Node N} {x : Input N ⊕ Packet N}

/-- How a log changes: by a restart, a request or a command. -/
theorem Moves.logs_cases (h : Moves x n n') :
    n' = n.restart ∨ n'.rf.logs = n.rf.logs ∨ (∃ r, x = .inr (.appendEntries r)) ∨
      ∃ command now, x = .inl (.start command now) ∧ n.rf.status = .Leader ∧
        n'.rf.logs = n.rf.logs ++ [n.rf.newEntry command] := by
  cases h with
  | restart => exact .inl rfl
  | idle hc => exact .inr (.inl hc.logs)
  | follow => exact .inr (.inr (.inl ⟨_, rfl⟩))
  | win _ _ _ hlogs => exact .inr (.inl hlogs)
  | @start command now _ hl =>
    refine .inr (.inr (.inr ⟨command, now, rfl, hl, ?_⟩))
    show (n.rf.start command now).1.logs = _
    rw [start_eq hl]
    rfl
  | beat _ hrf => exact .inr (.inl (by rw [hrf]; rfl))
  | collect => exact .inr (.inl rfl)
  | skip hrf =>
    obtain ⟨pc, hrf⟩ := hrf
    exact .inr (.inl (by rw [hrf]))
  | build _ hrf => exact .inr (.inl (by rw [hrf]))
  | close _ _ hc => exact .inr (.inl hc.logs)
  | @mismatch r reply _ _ _ _ _ _ _ _ hrf =>
    obtain ⟨nextIdx, heq⟩ := n.rf.handleLogMismatch_eq r.dst reply
    exact .inr (.inl (by rw [hrf, heq]))
  | sync _ _ _ _ _ hrf => exact .inr (.inl (by rw [hrf]; rfl))

/-- A request whose entries count up leaves a log that does. -/
theorem contiguous_appendEntries (h : n.rf.Contiguous) {r : Rpc N AppendEntriesArgs}
    (hargs : r.args.Consecutive) : (n.handle (.inr (.appendEntries r))).rf.Contiguous := by
  simp only [handle, receive, finish]
  cases hres : n.rf.appendEntries1 r.args with
  | none => exact contiguous_init _ _
  | some y =>
    obtain ⟨rf', reply⟩ := y
    show rf'.Contiguous
    rcases appendEntries1_spec hres with ⟨hacc, _, hres'⟩ | ⟨_, _, hlogs, _, hbase⟩
    · exact (h.accepted hargs hacc hres').contiguous
    · exact (contiguous_congr hlogs hbase).mpr h

/-- A command gets the index behind the log. -/
theorem contiguous_start (h : n.rf.Contiguous)
    (hbase : n'.rf.lastSnapshotIncludeIndex = n.rf.lastSnapshotIncludeIndex) {command : Op}
    (hlogs : n'.rf.logs = n.rf.logs ++ [n.rf.newEntry command]) : n'.rf.Contiguous := by
  intro k e he
  rw [hlogs] at he
  rw [hbase]
  rcases lt_or_ge k n.rf.logs.length with hk | hk
  · rw [List.getElem?_append_left hk] at he
    exact h k e he
  · rw [List.getElem?_append_right hk] at he
    have hk0 : k - n.rf.logs.length = 0 := by
      have := (List.getElem?_eq_some_iff.mp he).1
      simpa using this
    rw [hk0] at he
    cases he
    show n.rf.lastSnapshotIncludeIndex + n.rf.logs.length + 1 = _
    omega

theorem Positioned.handle (h : n.Positioned) {i : Fin N} (ht : n.Tidy i)
    (ht' : (n.handle x).Tidy i) (hm : Moves x n (n.handle x))
    (hpacket : ∀ q, x = .inr q → ConsecutivePacket q)
    (hcont : ∀ command now, x = .inl (.start command now) → n.rf.ContinuesBatch) :
    (n.handle x).Positioned := by
  have hbase : (n.handle x).rf.lastSnapshotIncludeIndex = n.rf.lastSnapshotIncludeIndex :=
    ht'.plain.snap.index.trans ht.plain.snap.index.symm
  refine ⟨?_, fun l hl => ?_⟩
  · rcases hm.logs_cases with heq | hlogs | ⟨r, rfl⟩ | ⟨command, now, _, _, hlogs⟩
    · rw [heq]
      exact contiguous_init _ _
    · exact (contiguous_congr hlogs hbase).mpr h.logs
    · exact contiguous_appendEntries h.logs (hpacket _ rfl)
    · exact contiguous_start h.logs hbase hlogs
  · rcases hm.batch hl with rfl | hl | ⟨command, now, l₀, hx, hlead, heq, hl₀, ⟨p, hp, hpend⟩, rfl⟩
    · exact countsUp_nil
    · exact h.batch l hl
    · refine (h.batch l₀ hl₀).snoc fun f hf => ?_
      have hend : f.logindex = n.rf.getLastLogIndex :=
        hcont command now hx hlead p hp f (hpend ▸ hf)
      show n.rf.getLastLogIndex + 1 = _
      rw [hend]

end Node

/-! ## The cluster -/

theorem positioned_init : Positioned (Cluster.init N) where
  tidy := Cluster.tidy_init
  node i := by
    refine ⟨fun k e he => by simp [Cluster.init, Node.init, Raft.init, readPersist, Persister.create] at he,
      fun l hl => ?_⟩
    rcases hl with ⟨p, rfl⟩ | ⟨x, hx, _⟩ | ⟨c, hc, _⟩
    · exact countsUp_nil
    · cases hx
    · cases hc
  packet q hq := by cases hq

theorem Positioned.step {s : Cluster N} (h : Positioned s) {a : Action N} (hok : Continues s a) :
    Positioned (s.step a) := by
  have htidy := h.tidy.step a
  refine ⟨htidy, fun i => ?_, fun q hq => ?_⟩
  · rcases s.step_nodes a i with heq | ⟨x, hx, heq⟩
    · rw [heq]
      exact h.node i
    · have htidy' := htidy.node i
      rw [heq] at htidy' ⊢
      refine (h.node i).handle (h.tidy.node i) htidy' (h.tidy.moves hx) ?_ ?_
      · rintro q rfl
        exact h.packet q (Cluster.driven_packet hx)
      · rintro command now rfl
        have ha := Cluster.driven_input hx
        subst ha
        exact hok i rfl
  · cases q with
    | appendEntries r =>
      rcases Cluster.network_step hq with hq | ⟨i, input, _, hq⟩ | ⟨q', _, hq⟩
      · exact h.packet _ hq
      · show r.args.Consecutive
        rcases Node.appendEntries_of_step hq with ⟨_, _, _, hargs⟩ |
          ⟨clock, entries, rest, _, hpc, hargs⟩
        · -- a heartbeat has no entries
          rw [hargs]
          exact fun j e he => by cases he
        · have hqueued : (r.dst, entries) ∈ (s.nodes i).rf.queued := by
            simp [Raft.queued, hpc, BatchSender.queued]
          rw [hargs]
          exact ((h.node i).batch entries (.inr (.inl ⟨_, hqueued, rfl⟩))).batchArgs _
      · exact absurd hq Node.appendEntries_not_of_receive
    | _ => trivial

/-- In every run in which each `Start` goes on with the buffers it appends to, the indices of
    every log count up from the snapshot point, and `readPersist` gives back the log that
    `persistDate` has stored. -/
theorem log_positions (h : List (Cluster N × Action N)) (s : Cluster N)
    (hr : Cluster.Runs Continues h s) (i : Fin N) :
    (s.nodes i).rf.Contiguous ∧
      ((s.nodes i).rf.readPersist (some (s.nodes i).rf.persistDate)).logs =
        (s.nodes i).rf.logs := by
  have hinv : Positioned s := hr.invariant positioned_init fun _ _ hI hok => hI.step hok
  have hlogs := (hinv.node i).logs
  exact ⟨hlogs, (readPersist_persistDate_iff _).mpr hlogs⟩

open MyKvRaft.Action in
/-- Node 0 leads term 1 and sends two commands to both followers. -/
def sentRun : List (Action 3) :=
  electionRun ++ [put 0 1, put 0 2] ++ batchRound 0 ++ [.deliver 0, .deliver 0]

theorem log_positions_sentRun :
    ((Cluster.exec sentRun).nodes 1).rf.logs.length = 2 ∧
      ((Cluster.exec sentRun).nodes 1).rf.Contiguous := by
  have hok : ∀ x ∈ Cluster.trace sentRun, Continues x.1 x.2 := by decide +kernel
  exact ⟨by decide +kernel, (log_positions _ _ (Cluster.runs_exec sentRun hok) 1).1⟩

/-- Node 2 stores the entries with the indices 1 and 3 at the positions 0 and 1. -/
theorem log_positions_fails : ∃ (h : List (Cluster 3 × Action 3)) (s : Cluster 3),
    Cluster.Runs anyStep h s ∧ ∃ i, ¬ (s.nodes i).rf.Contiguous ∧
      ((s.nodes i).rf.readPersist (some (s.nodes i).rf.persistDate)).logs ≠
        (s.nodes i).rf.logs := by
  have hindices : ((Cluster.exec staleBatchRun).nodes 2).rf.logs.map (·.logindex) = [1, 3] := by
    decide +kernel
  have hbase : ((Cluster.exec staleBatchRun).nodes 2).rf.lastSnapshotIncludeIndex = 0 := by
    decide +kernel
  have hnot : ¬ ((Cluster.exec staleBatchRun).nodes 2).rf.Contiguous := by
    intro hc
    obtain ⟨e₁, e₂, heq⟩ := List.length_eq_two.mp (by simpa using congrArg List.length hindices)
    have hsecond := hc 1 e₂ (by rw [heq]; rfl)
    rw [heq] at hindices
    simp only [List.map_cons, List.map_nil, List.cons.injEq] at hindices
    rw [hbase] at hsecond
    omega
  exact ⟨_, _, Cluster.runs_exec staleBatchRun fun _ _ => trivial, 2, hnot,
    fun heq => hnot ((readPersist_persistDate_iff _).mp heq)⟩

end MyKvRaft
