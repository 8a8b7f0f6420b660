import MyKvRaft.Safety.ApplyStream
import MyKvRaft.Safety.Effects
import MyKvRaft.Snapshot.Install

/-!
# Applied without being delivered

`applierTicker` moves `m_lastApplied` over the entries it hands to the `KvServer`. Two other
places move it without handing out anything: `InstallSnapshot1`, to the index of a newer
snapshot, and `init`, to the stored snapshot point. `ApplyMsg` has fields for a snapshot, but
nothing ever pushes one, and the `KvServer` does not read the snapshot file.

* `applied_delivered`: in every run of steps that skip nothing, every index up to
  `m_lastApplied` has been pushed since the process started, or `applierTicker` is about to.
* `applied_delivered_fails`: a snapshot makes a node skip the commands it covers.
-/

namespace MyKvRaft

open Transition Raft

variable {N : ℕ}

/-- `applierTicker` hands out commands, and never a snapshot. -/
theorem Raft.applierTicker_valid {rf rf' : Raft N} {msgs : List ApplyMsg}
    (h : rf.applierTicker = some (rf', msgs)) :
    ∀ msg ∈ msgs, msg.CommandValid = true ∧ msg.SnapshotValid = false := by
  intro msg hmsg
  obtain ⟨index, _, hindex⟩ := mem_of_mapM (applierTicker_eq h).2 hmsg
  obtain ⟨entry, _, rfl⟩ := Option.map_eq_some_iff.mp hindex
  exact ⟨rfl, rfl⟩

namespace Node

/-- The messages `applierTicker` has pushed since the process was last started. -/
def handed (h : List (Node N × (Input N ⊕ Packet N))) : List ApplyMsg :=
  h.foldl (fun msgs x =>
    if x.1.ends x.2 then []
    else
      match x.2 with
      | .inl .push => msgs ++ x.1.delivery.toList
      | _ => msgs) []

/-- The step moves `m_lastApplied` past no index that has not been applied: a newer snapshot is
    of applied entries, and a process that ends has no snapshot. -/
def SkipsNothing (n : Node N) : Input N ⊕ Packet N → Prop
  | .inr (.installSnapshot r) => n.rf.currentTerm ≤ r.args.term →
      n.rf.lastSnapshotIncludeIndex < r.args.lastsnapshotincludeindex →
        r.args.lastsnapshotincludeindex ≤ n.rf.lastApplied
  | x => n.ends x = true → n.rf.lastSnapshotIncludeIndex ≤ 0

instance (n : Node N) : ∀ x : Input N ⊕ Packet N, Decidable (n.SkipsNothing x)
  | .inr (.installSnapshot _) => inferInstanceAs (Decidable (_ → _ → _))
  | .inl _ => inferInstanceAs (Decidable (_ → _))
  | .inr (.requestVote _) => inferInstanceAs (Decidable (_ → _))
  | .inr (.requestVoteReply _ _) => inferInstanceAs (Decidable (_ → _))
  | .inr (.appendEntries _) => inferInstanceAs (Decidable (_ → _))
  | .inr (.appendEntriesReply _ _) => inferInstanceAs (Decidable (_ → _))
  | .inr (.installSnapshotReply _ _) => inferInstanceAs (Decidable (_ → _))

/-- Among `msgs` is the command of index `i`, or a snapshot that covers it. -/
def Reaches (msgs : List ApplyMsg) (i : ℤ) : Prop :=
  ∃ msg ∈ msgs, (msg.CommandValid = true ∧ msg.index = i) ∨
    (msg.SnapshotValid = true ∧ i ≤ msg.lastIncludedIndex)

theorem Reaches.mono {msgs msgs' : List ApplyMsg} (hsub : msgs ⊆ msgs') {i : ℤ}
    (h : Reaches msgs i) : Reaches msgs' i := by
  obtain ⟨msg, hmsg, hrest⟩ := h
  exact ⟨msg, hsub hmsg, hrest⟩

/-! ## The history -/

section History

variable {h : List (Node N × (Input N ⊕ Packet N))} {n : Node N} {x : Input N ⊕ Packet N}

theorem handed_snoc : handed (h ++ [(n, x)]) =
    if n.ends x then []
    else
      match x with
      | .inl .push => handed h ++ n.delivery.toList
      | _ => handed h := by
  simp only [handed, List.foldl_append, List.foldl_cons, List.foldl_nil]

/-- A process that goes on forgets nothing. -/
theorem handed_subset (hx : n.ends x = false) : handed h ⊆ handed (h ++ [(n, x)]) := by
  rw [handed_snoc, hx, if_neg Bool.false_ne_true]
  split
  · exact List.subset_append_left _ _
  · exact List.Subset.refl _

theorem handed_push : handed (h ++ [(n, .inl .push)]) ++ n.applying.tail =
    handed h ++ n.applying := by
  rw [handed_snoc]
  show handed h ++ n.delivery.toList ++ n.applying.tail = _
  unfold delivery
  cases n.applying with
  | nil => simp
  | cons msg msgs => simp

end History

/-! ## The invariant -/

/-- Every index up to `m_lastApplied` has been pushed or is about to be. -/
def Delivered (h : List (Node N × (Input N ⊕ Packet N))) (n : Node N) : Prop :=
  ∀ i : ℤ, 1 ≤ i → i ≤ n.rf.lastApplied → Reaches (handed h ++ n.applying) i

variable {h : List (Node N × (Input N ⊕ Packet N))} {n n' : Node N} {x : Input N ⊕ Packet N}

/-- A step after which no more is applied. -/
theorem Delivered.of_le (hd : Delivered h n) (hx : n.ends x = false)
    (hle : n'.rf.lastApplied ≤ n.rf.lastApplied) (happ : n'.applying = n.applying) :
    Delivered (h ++ [(n, x)]) n' := by
  intro i hpos hi
  rw [happ]
  refine (hd i hpos (hi.trans hle)).mono fun msg hmsg => ?_
  rcases List.mem_append.mp hmsg with hmsg | hmsg
  · exact List.mem_append_left _ (handed_subset hx hmsg)
  · exact List.mem_append_right _ hmsg

/-- `applierTicker` takes a message for every index it moves over. -/
theorem Delivered.apply (hd : Delivered h n) (h0 : n.applying = []) {rf' : Raft N}
    {msgs : List ApplyMsg} (happ : n.rf.applierTicker = some (rf', msgs))
    (hx : n.ends (.inl .apply) = false) :
    Delivered (h ++ [(n, .inl .apply)]) { n with rf := rf', applying := msgs } := by
  intro i hpos hi
  have hlast : rf'.lastApplied = max n.rf.lastApplied n.rf.commitIndex := by
    rw [(applierTicker_eq happ).1]
  dsimp only at hi ⊢
  rcases le_or_gt i n.rf.lastApplied with hle | hgt
  · have hold := hd i hpos hle
    rw [h0, List.append_nil] at hold
    exact hold.mono fun msg hmsg => List.mem_append_left _ (handed_subset hx hmsg)
  · have hmem : i ∈ msgs.map (·.index) := by
      rw [applierTicker_indices happ]
      refine List.mem_map.mpr ⟨(i - n.rf.lastApplied - 1).toNat, ?_, by omega⟩
      rw [List.mem_range]
      omega
    obtain ⟨msg, hmsg, hindex⟩ := List.mem_map.mp hmem
    exact ⟨msg, List.mem_append_right _ hmsg,
      .inl ⟨(applierTicker_valid happ msg hmsg).1, hindex⟩⟩

/-- A new process starts with what it has stored. -/
theorem delivered_restart (hs : n.rf.Saved)
    (hbase : n.rf.lastSnapshotIncludeIndex ≤ 0) : Delivered (h ++ [(n, x)]) n.restart := by
  have hindex : n.restart.rf.lastSnapshotIncludeIndex = n.rf.lastSnapshotIncludeIndex :=
    congrArg PersistRaftNode.lastSnapshotIncludeIndex ((restart_persistDate n.rf).trans hs)
  have hlast : n.restart.rf.lastApplied = max 0 n.restart.rf.lastSnapshotIncludeIndex :=
    init_lastApplied _ _
  intro i hpos hi
  omega

theorem Delivered.step (hd : Delivered h n) (hs : n.rf.Saved) (hok : n.SkipsNothing x) :
    Delivered (h ++ [(n, x)]) (n.handle x) := by
  cases hends : n.ends x with
  | true =>
    rw [ends_restart hends]
    refine delivered_restart hs ?_
    unfold SkipsNothing at hok
    split at hok
    · cases hends
    · exact hok hends
  | false =>
    rcases (effect_handle (n := n) x).still_cases with ⟨h, _⟩ | hstill |
      ⟨rf', msgs, rfl, h0, happ, heq⟩ | ⟨rfl, heq⟩ | ⟨r, rfl, heq⟩
    · rw [hends] at h
      cases h
    · exact hd.of_le hends hstill.lastApplied.le hstill.applying
    · rw [heq]
      exact hd.apply h0 happ hends
    · rw [heq]
      intro i hpos hi
      rw [show handed (_ ++ [(n, .inl .push)]) ++ n.applying.tail = _ from handed_push]
      exact hd i hpos hi
    · rw [heq]
      refine hd.of_le hends ?_ rfl
      dsimp only
      rcases n.rf.installSnapshot1_cases r.args with ⟨_, heq⟩ | ⟨hle, hdone, _⟩
      · rw [heq]
      · rw [hdone.lastApplied]
        split_ifs with hnew
        · exact max_le le_rfl (hok hle hnew)
        · exact le_rfl

end Node

/-- In every run of a node, whatever requests and replies it gets, in which no step moves
    `m_lastApplied` past an index that has not been applied: every index up to `m_lastApplied`
    has been pushed since the process started, or is among the messages that `applierTicker`
    has taken and is pushing. -/
theorem applied_delivered (me : Fin N) (h : List (Node N × (Input N ⊕ Packet N))) (n : Node N)
    (hr : Run Node.handle Node.SkipsNothing (Node.init me) h n) (i : ℤ) (hpos : 1 ≤ i)
    (hi : i ≤ n.rf.lastApplied) :
    Node.Reaches (Node.handed h ++ n.applying) i ∧
      (n.applying = [] → Node.Reaches (Node.handed h) i) := by
  have hinv : n.rf.Saved ∧ Node.Delivered h n := by
    clear hi
    induction hr with
    | nil =>
      refine ⟨Node.saved_init me, fun i hpos hi => ?_⟩
      have h0 : (Node.init me).rf.lastApplied = 0 := rfl
      omega
    | snoc _ hok ih => exact ⟨Node.saved_handle ih.1 _, ih.2.step ih.1 hok⟩
  have hreach := hinv.2 i hpos hi
  refine ⟨hreach, fun h0 => ?_⟩
  rwa [h0, List.append_nil] at hreach

/-- A follower stores, commits and applies an entry, and is then sent a snapshot of it. -/
def coveredRun : List (Input 3 ⊕ Packet 3) :=
  [.inr (.appendEntries ⟨0, 1, 0, ⟨1, 1, 0, 0, [⟨[7], 1, 1⟩], 1⟩⟩), .inl .apply, .inl .push,
    .inr (.installSnapshot ⟨1, 1, 0, 1, 1, 1, 1, [9]⟩)]

theorem applied_delivered_coveredRun :
    let n := coveredRun.foldl Node.handle (Node.init 0)
    (n.rf.lastSnapshotIncludeIndex = 1 ∧ n.rf.lastApplied = 1) ∧
      Node.Reaches (Node.handed (history Node.handle (Node.init 0) coveredRun)) 1 := by
  intro n
  have h := applied_delivered 0 _ n (run_history coveredRun (by decide)) 1 (by decide) (by decide)
  exact ⟨⟨by decide, by decide⟩, h.2 (by decide)⟩

/-- A fresh node that is sent a snapshot up to index 4 counts four commands as applied, and
    neither they nor the snapshot are pushed. -/
theorem applied_delivered_fails : ∃ (h : List (Node 3 × (Input 3 ⊕ Packet 3))) (n : Node 3),
    Run Node.handle anyStep (Node.init 0) h n ∧ n.rf.lastApplied = 4 ∧
      ∀ i : ℤ, ¬ Node.Reaches (Node.handed h ++ n.applying) i := by
  refine ⟨_, _, run_history [.inr (.installSnapshot ⟨0, 1, 0, 1, 5, 4, 3, []⟩)]
    fun _ _ => trivial, by decide, fun i hreach => ?_⟩
  obtain ⟨msg, hmsg, _⟩ := hreach
  exact List.not_mem_nil hmsg

end MyKvRaft
