import MyKvRaft.Common.Run
import MyKvRaft.KvServer.Features

/-!
# Requests that are applied more than once

A client may send a request again, so the log may have it several times. `Apply` remembers
one number for every client, the last one it has executed. That is enough as long as the
requests of a client first come in the order of their numbers.

* `Op.perform`: an operation on the pairs, as a function from keys to values.
* `AppliedOnce.applyOp`: what one message keeps.
* `apply_once`: the pairs after any sequence of messages, and when there are any: an exception ends
  the server, with all that comes after it.
-/

namespace MyKvRaft

/-! ## First occurrences -/

section Firsts

variable {α κ : Type} [DecidableEq κ] (key : α → κ)

/-- `kept` with `a`, unless its key is there. -/
def keepFirst (kept : List α) (a : α) : List α := if key a ∈ kept.map key then kept else kept ++ [a]

/-- The elements whose key has not come before. -/
def firsts (as : List α) : List α := as.foldl (keepFirst key) []

theorem firsts_snoc (as : List α) (a : α) : firsts key (as ++ [a]) = keepFirst key (firsts key as) a := by
  unfold firsts
  rw [List.foldl_append]
  rfl

end Firsts

/-! ## Operations on maps -/

/-- What identifies a request. -/
def Op.request (op : Op) : Bytes × ℤ := (op.ClientId, op.RequestId)

/-- `Put` overwrites, `Append` concatenates, and nothing else writes. -/
def Op.perform (pairs : Bytes → Option Bytes) (op : Op) : Bytes → Option Bytes :=
  if op.Operation = opPut then Function.update pairs op.Key (some op.Value)
  else if op.Operation = opAppend then
    Function.update pairs op.Key (some ((pairs op.Key).getD [] ++ op.Value))
  else pairs

/-- The pairs after the operations, first one first. -/
def performAll (ops : List Op) : Bytes → Option Bytes := ops.foldl Op.perform fun _ => none

/-- The first occurrences of the requests of a client come in the order of their numbers. -/
def InOrder (ops : List Op) : Prop :=
  (firsts Op.request ops).Pairwise fun a b => a.ClientId = b.ClientId → a.RequestId < b.RequestId

instance (ops : List Op) : Decidable (InOrder ops) := inferInstanceAs (Decidable (List.Pairwise _ _))

theorem InOrder.of_snoc {ops : List Op} {op : Op} (h : InOrder (ops ++ [op])) : InOrder ops := by
  unfold InOrder at h ⊢
  rw [firsts_snoc, keepFirst] at h
  split_ifs at h
  · exact h
  · exact (List.pairwise_append.mp h).1

variable {P : Libs}

/-- The store is such a map. -/
theorem searchElement_stored (kvdb : P.SkipList) (op : Op) :
    P.searchElement (stored kvdb op) = op.perform (P.searchElement kvdb) := by
  have hget : opGet ≠ opPut ∧ opGet ≠ opAppend := by decide +kernel
  have hinsert : ∀ value : Bytes, P.searchElement (P.insertElement kvdb op.Key value) =
      Function.update (P.searchElement kvdb) op.Key (some value) := by
    intro value
    funext key
    rw [P.search_insert, Function.update_apply]
  unfold stored KvServer.executeOnKVDB KvServer.executePutAppendOnKVDB Op.perform
  by_cases hg : op.Operation = opGet
  · rw [if_pos hg, hg, if_neg hget.1, if_neg hget.2]
  · rw [if_neg hg]
    split_ifs
    · exact hinsert op.Value
    · dsimp only
      rw [hinsert]
      cases P.searchElement kvdb op.Key <;> rfl
    · rfl

namespace KvServer

/-! ## One message -/

/-- The table knows the first occurrences, and the store is what they make of an empty one. -/
structure AppliedOnce (s : KvServer P) (ops : List Op) : Prop where
  table : ∀ clientId requestId, s.ifRequestDuplicate clientId requestId = true ↔
    ∃ op ∈ firsts Op.request ops, op.ClientId = clientId ∧ requestId ≤ op.RequestId
  pairs : P.searchElement s.kvdb = performAll (firsts Op.request ops)

variable {s s' : KvServer P} {ops : List Op} {op : Op} {index : ℤ}

theorem appliedOnce_create (P : Libs) : (create P).AppliedOnce [] := by
  refine ⟨fun clientId requestId => ?_, ?_⟩
  · simp [ifRequestDuplicate, create, firsts]
  · funext key
    exact P.search_empty key

/-- A request that has come before is skipped. -/
theorem AppliedOnce.skip (h : s.AppliedOnce ops)
    (hmem : op.request ∈ (firsts Op.request ops).map Op.request)
    (hres : s.applyOp index op = some s') : s'.AppliedOnce (ops ++ [op]) := by
  have hdup : s.ifRequestDuplicate op.ClientId op.RequestId = true := by
    obtain ⟨first, hfirst, hsame⟩ := List.mem_map.mp hmem
    obtain ⟨hclient, hid⟩ := Prod.mk.inj hsame
    exact (h.table _ _).mpr ⟨first, hfirst, hclient, hid.ge⟩
  rw [applyOp_duplicate hdup] at hres
  cases hres
  have hfirsts : firsts Op.request (ops ++ [op]) = firsts Op.request ops := by
    rw [firsts_snoc, keepFirst, if_pos hmem]
  refine ⟨fun clientId requestId => ?_, ?_⟩
  · rw [hfirsts, duplicate_congr (notify_lastRequests index)]
    exact h.table clientId requestId
  · rw [hfirsts, notify_kvdb]
    exact h.pairs

/-- A request that comes for the first time is executed. -/
theorem AppliedOnce.executed (h : s.AppliedOnce ops) (horder : InOrder (ops ++ [op]))
    (hnew : op.request ∉ (firsts Op.request ops).map Op.request)
    (hres : s.applyOp index op = some s') : s'.AppliedOnce (ops ++ [op]) := by
  have hfirsts : firsts Op.request (ops ++ [op]) = firsts Op.request ops ++ [op] := by
    rw [firsts_snoc, keepFirst, if_neg hnew]
  have hless : ∀ first ∈ firsts Op.request ops, first.ClientId = op.ClientId →
      first.RequestId < op.RequestId := by
    intro first hfirst
    unfold InOrder at horder
    rw [hfirsts] at horder
    exact (List.pairwise_append.mp horder).2.2 first hfirst op List.mem_cons_self
  have hdup : s.ifRequestDuplicate op.ClientId op.RequestId = false := by
    rw [Bool.eq_false_iff]
    intro hdup
    obtain ⟨first, hfirst, hclient, hle⟩ := (h.table _ _).mp hdup
    have := hless first hfirst hclient
    omega
  obtain ⟨_, _, hkvdb, _, _, hlast⟩ := applyOp_fresh hdup hres
  refine ⟨fun clientId requestId => ?_, ?_⟩
  · rw [hfirsts, ifRequestDuplicate_iff, hlast]
    by_cases hclient : clientId = op.ClientId
    · subst hclient
      rw [Function.update_self]
      constructor
      · rintro ⟨record, hrecord, hle⟩
        cases hrecord
        exact ⟨op, List.mem_append_right _ List.mem_cons_self, rfl, hle⟩
      · rintro ⟨first, hfirst, hsame, hle⟩
        refine ⟨_, rfl, ?_⟩
        rcases List.mem_append.mp hfirst with hfirst | hfirst
        · have := hless first hfirst hsame
          show requestId ≤ op.RequestId
          omega
        · rwa [List.mem_singleton.mp hfirst] at hle
    · rw [Function.update_of_ne hclient, ← ifRequestDuplicate_iff, h.table]
      constructor
      · rintro ⟨first, hfirst, hwho⟩
        exact ⟨first, List.mem_append_left _ hfirst, hwho⟩
      · rintro ⟨first, hfirst, hsame, hle⟩
        rcases List.mem_append.mp hfirst with hfirst | hfirst
        · exact ⟨first, hfirst, hsame, hle⟩
        · rw [List.mem_singleton.mp hfirst] at hsame
          exact absurd hsame.symm hclient
  · rw [hkvdb, executeOnKVDB_kvdb, searchElement_stored, h.pairs, hfirsts]
    unfold performAll
    rw [List.foldl_append]
    rfl

theorem AppliedOnce.applyOp (h : s.AppliedOnce ops) (horder : InOrder (ops ++ [op]))
    (hres : s.applyOp index op = some s') : s'.AppliedOnce (ops ++ [op]) := by
  by_cases hmem : op.request ∈ (firsts Op.request ops).map Op.request
  · exact h.skip hmem hres
  · exact h.executed horder hmem hres

/-! ## All messages -/

/-- The messages of the log that carry the commands; `uninit` comes with each. -/
def messagesOf (cs : List (ℤ × Command)) : List (ℤ × ApplyMsg) := cs.map fun c => (c.1, c.2.msg)

theorem AppliedOnce.applyAll {cs : List (ℤ × Command)} (horder : InOrder (cs.map (·.2.op)))
    (hres : (create P).applyAll (messagesOf cs) = some s) :
    s.AppliedOnce (cs.map (·.2.op)) := by
  unfold messagesOf KvServer.applyAll at hres
  induction cs using List.reverseRecOn generalizing s with
  | nil =>
    cases hres
    exact appliedOnce_create P
  | append_singleton cs c ih =>
    rw [List.map_append, List.map_singleton, Transition.foldlM_snoc,
      Option.bind_eq_some_iff] at hres
    obtain ⟨s₁, hbefore, hlast⟩ := hres
    rw [List.map_append, List.map_singleton] at horder ⊢
    have happly : s₁.applyOp c.2.index c.2.op = some s := by
      rw [← apply_msg s₁ c.1]
      exact hlast
    exact (ih horder.of_snoc hbefore).applyOp horder happly

/-- When no exception leaves `Apply` on any of the commands. -/
theorem applyAll_messagesOf_ne_none (h : s.recallEngine.Valid) {cs : List (ℤ × Command)} :
    s.applyAll (messagesOf cs) ≠ none ↔ ∀ before c after, cs = before ++ c :: after →
      ∀ s', s.applyAll (messagesOf before) = some s' → s'.Takes c.2.op := by
  have hdecode : ∀ c : ℤ × Command, decodeOp c.1 c.2.msg.command = c.2.op := fun c =>
    decodeOp_encodeOp c.1 c.2.encodable
  rw [applyAll_ne_none h]
  constructor
  · intro hall before c after heq s' hbefore
    rw [← hdecode c]
    refine hall (messagesOf before) (c.1, c.2.msg) (messagesOf after) ?_ s' hbefore
    rw [heq]
    exact List.map_append
  · intro hall before m after heq s' hbefore
    obtain ⟨before, rest, rfl, rfl, hrest⟩ := List.map_eq_append_iff.mp heq
    obtain ⟨c, after, rfl, rfl, rfl⟩ := List.map_eq_cons_iff.mp hrest
    rw [hdecode]
    exact hall before c after rfl s' hbefore

/-- Only the feature of an item can be too much for the index. -/
theorem takes_of_ne (s : KvServer P) {op : Op} (hop : op.Operation ≠ opPutFeature) : s.Takes op :=
  fun _ hput => absurd hput hop

end KvServer

/-- For every sequence of commands in which the requests of each client first come in the order
    of their numbers: a fresh server applies them all, and then has the pairs that performing each
    request once makes, in the order in which they first came, if and only if, whenever it comes
    to a command, that command is a duplicate or the index can take it. -/
theorem apply_once (P : Libs) (cs : List (ℤ × Command)) (horder : InOrder (cs.map (·.2.op))) :
    (∃ s, (KvServer.create P).applyAll (KvServer.messagesOf cs) = some s ∧
      P.searchElement s.kvdb = performAll (firsts Op.request (cs.map (·.2.op)))) ↔
    ∀ before c after, cs = before ++ c :: after →
      ∀ s, (KvServer.create P).applyAll (KvServer.messagesOf before) = some s → s.Takes c.2.op := by
  rw [← KvServer.applyAll_messagesOf_ne_none (RecallEngine.valid_create P _)]
  constructor
  · rintro ⟨s, hres, _⟩
    rw [hres]
    exact Option.some_ne_none s
  · intro hall
    obtain ⟨s, hres⟩ := Option.ne_none_iff_exists'.mp hall
    exact ⟨s, hres, (KvServer.AppliedOnce.applyAll horder hres).pairs⟩

/-- Client `c` appends `x` and then `y` to the key `a`; both come twice. -/
def repeated : List (ℤ × Command) :=
  let x : Command := ⟨1, ⟨opAppend, [97], [120], [99], 1⟩, by decide +kernel⟩
  let y : Command := ⟨2, ⟨opAppend, [97], [121], [99], 2⟩, by decide +kernel⟩
  [(0, x), (0, y), (0, x), (7, y)]

theorem apply_once_repeated : ∃ s, (KvServer.create listLibs).applyAll
    (KvServer.messagesOf repeated) = some s ∧ listLibs.searchElement s.kvdb [97] = some [120, 121] := by
  have hplain : ∀ c ∈ repeated, c.2.op.Operation ≠ opPutFeature := by decide +kernel
  obtain ⟨s, hs, hpairs⟩ := (apply_once listLibs repeated (by decide +kernel)).mpr
    fun before c after heq s _ => KvServer.takes_of_ne s (hplain c (by rw [heq]; simp))
  refine ⟨s, hs, ?_⟩
  rw [hpairs]
  decide +kernel

/-- Client `c` puts the feature of item `a`, deletes the item, puts the feature again, and puts `y`
    under the key `x`. -/
def putAfterReadded : List (ℤ × Command) :=
  [(0, ⟨1, ⟨opPutFeature, [97], featureText, [99], 1⟩, by decide +kernel⟩),
    (0, ⟨2, ⟨opDeleteFeature, [97], [], [99], 2⟩, by decide +kernel⟩),
    (0, ⟨3, ⟨opPutFeature, [97], featureText, [99], 3⟩, by decide +kernel⟩),
    (0, ⟨4, ⟨opPut, [120], [121], [99], 4⟩, by decide +kernel⟩)]

/-- The third command ends the server, and the fourth is never executed. -/
theorem apply_once_fails : ¬ ∀ cs : List (ℤ × Command), InOrder (cs.map (·.2.op)) →
    ∃ s, (KvServer.create listLibs).applyAll (KvServer.messagesOf cs) = some s ∧
      listLibs.searchElement s.kvdb = performAll (firsts Op.request (cs.map (·.2.op))) := by
  intro h
  obtain ⟨s, hres, _⟩ := h putAfterReadded (by decide +kernel)
  have hnone : (KvServer.create listLibs).applyAll (KvServer.messagesOf putAfterReadded) = none := by
    decide +kernel
  rw [hnone] at hres
  cases hres

end MyKvRaft
