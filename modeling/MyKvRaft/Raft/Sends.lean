import MyKvRaft.Raft.Handlers

/-!
# What a node sends

Every message has one place it comes from: three threads send requests, and each of the three
handlers answers the request it is given. `Node.Sends` names the seven places.

* `Node.sends_step`, `Node.sends_receive`: a node sends nothing else.
-/

namespace MyKvRaft

variable {N : ℕ}

namespace Node

/-- What a node sends when it is given `x`. -/
inductive Sends (n : Node N) : Input N ⊕ Packet N → Packet N → Prop
  /-- `doElection` asks the next peer. -/
  | requestVote {e dst} (he : n.election = some e) (hdst : dst ≠ n.rf.me) :
      Sends n (.inl .requestVotes) (.requestVote ⟨n.nextRpc, n.rf.me, dst, e.args⟩)
  | heartBeat {r} (hl : n.rf.status = .Leader)
      (hr : r ∈ heartBeatRpcs n.nextRpc (clampNextIndex n.rf)) :
      Sends n (.inl .heartBeat) (.appendEntries r)
  /-- `batchSenderLoop` builds the request of a batch. -/
  | batch {clock peerId entries toSend}
      (hpc : n.rf.batchSenderThread = some (.build peerId entries toSend)) :
      Sends n (.inl (.batchSender clock))
        (.appendEntries ⟨n.nextRpc, n.rf.me, peerId, n.rf.batchArgs entries⟩)
  | snapshot {k t} (ht : n.snapshotThreads[k]? = some t) :
      Sends n (.inl (.sendSnapShot k)) (.installSnapshot ⟨n.nextRpc, n.rf.me, t.peerId,
        ⟨n.rf.me.val, n.rf.currentTerm, t.snapshotIndex, t.snapshotTerm, t.snapshotData⟩⟩)
  /-- `RequestVote1` answers, as do `AppendEntries1` and `InstallSnapshot1`. -/
  | vote {r rf' reply} (hres : n.rf.requestVote1 r.args = some (rf', reply)) :
      Sends n (.inr (.requestVote r)) (.requestVoteReply r reply)
  | append {r rf' reply} (hres : n.rf.appendEntries1 r.args = some (rf', reply)) :
      Sends n (.inr (.appendEntries r)) (.appendEntriesReply r reply)
  | install {r} :
      Sends n (.inr (.installSnapshot r))
        (.installSnapshotReply r (n.rf.installSnapshot1 r.args).2)

variable {n : Node N} {q : Packet N}

theorem sends_batchSender {clock : Fin N → ℤ × ℤ} (h : q ∈ (n.batchSender clock).2) :
    n.Sends (.inl (.batchSender clock)) q := by
  unfold batchSender at h
  split at h
  · cases h
  · split_ifs at h <;> cases h
  · cases h
  · cases h
  · split_ifs at h <;> cases h
  · next hpc =>
    rw [List.mem_singleton] at h
    subst h
    exact .batch hpc

theorem sends_requestVotes (h : q ∈ n.requestVotes.2) : n.Sends (.inl .requestVotes) q := by
  unfold requestVotes at h
  split at h
  · cases h
  · next he =>
    split_ifs at h with _ _ hme
    · cases h
    · cases h
    · rw [List.mem_singleton] at h
      subst h
      exact .requestVote he hme
    · cases h

/-- What a node sends by itself. -/
theorem sends_step {input : Input N} (h : q ∈ (n.step input).2) : n.Sends (.inl input) q := by
  cases input with
  | requestVotes => exact sends_requestVotes h
  | heartBeat =>
    simp only [step, Node.heartBeat] at h
    split_ifs at h with hl
    · cases h
    · obtain ⟨r, hr, rfl⟩ := List.mem_map.mp h
      exact .heartBeat (not_not.mp hl) hr
  | batchSender clock => exact sends_batchSender h
  | sendSnapShot k =>
    simp only [step, sendSnapShot] at h
    split at h
    · cases h
    · next ht =>
      rw [List.mem_singleton] at h
      subst h
      exact .snapshot ht
  | _ => cases h

/-- What a node answers. -/
theorem sends_receive {q' : Packet N} (h : q ∈ (n.receive q').2) : n.Sends (.inr q') q := by
  cases q' with
  | requestVote r =>
    simp only [receive, finish] at h
    cases hres : n.rf.requestVote1 r.args with
    | none => simp [hres] at h
    | some x =>
      simp only [hres, Option.map_some, List.mem_singleton] at h
      subst h
      exact .vote hres
  | appendEntries r =>
    simp only [receive, finish] at h
    cases hres : n.rf.appendEntries1 r.args with
    | none => simp [hres] at h
    | some x =>
      simp only [hres, Option.map_some, List.mem_singleton] at h
      subst h
      exact .append hres
  | installSnapshot r =>
    simp only [receive, List.mem_singleton] at h
    subst h
    exact .install
  | _ => cases h

/-- A node answers a message with no request. -/
theorem appendEntries_not_of_receive {q' : Packet N} {r : Rpc N AppendEntriesArgs} :
    .appendEntries r ∉ (n.receive q').2 := fun h => nomatch sends_receive h

end Node

end MyKvRaft
