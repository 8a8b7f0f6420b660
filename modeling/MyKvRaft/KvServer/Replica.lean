import MyKvRaft.KvServer.KvServer

/-!
# Replicas of one log

A replica processes the messages of the log through `Apply`; in between it serves `Get`
and `Search` RPCs. The store and the recall index should be functions of the log
(`storeOf`, `engineOf`), and they are as long as the reads leave no trace in them: a
`Get` writes the table of last requests that `Apply` consults, and the first `Search`
puts pairs of the store into the index.

* `replica_determinism`: replicas of one log have the same pairs.
* `recall_view_determinism`: and the same items to search.
* `Serves.of_noGet`: of the two conditions they rest on, the one about duplicates is always met
  by a replica that serves no `Get`.
-/

namespace MyKvRaft

variable {P : Libs}

/-- An entry of the log, made by `encodeOp`, with its index. -/
structure Command where
  index : ℤ
  op : Op
  encodable : op.Encodable
deriving DecidableEq

/-- The message `applierTicker` makes of it. -/
def Command.msg (c : Command) : ApplyMsg := .ofCommand c.index (encodeOp c.op)

theorem KvServer.apply_msg (s : KvServer P) (uninit : ℤ) (c : Command) :
    s.apply uninit c.msg = s.applyOp c.index c.op := by
  unfold KvServer.apply Command.msg
  rw [ApplyMsg.ofCommand_command, decodeOp_encodeOp uninit c.encodable]
  rfl

/-- What a replica is given: the next message, or an RPC that only reads. -/
inductive Served where
  | apply (uninit : ℤ) (c : Command)
  | get (isLeader : Bool) (commitIndex : ℤ) (op : Op)
  | search

/-- A server and the messages it has processed, latest first. -/
structure Replica (P : Libs) where
  server : KvServer P
  applied : List Command

namespace Replica

def create (P : Libs) : Replica P := ⟨KvServer.create P, []⟩

/-- `none` if an exception ends the process. -/
def serve (r : Replica P) : Served → Option (Replica P)
  | .apply uninit c => (r.server.apply uninit c.msg).map fun server => ⟨server, c :: r.applied⟩
  | .get isLeader commitIndex op => some ⟨(r.server.get isLeader commitIndex op).1, r.applied⟩
  | .search => r.server.buildIndexIfNeeded.map fun server => ⟨server, r.applied⟩

/-- `r` is reached from a fresh server, and every step meets `ok`. -/
inductive Serves (ok : Replica P → Served → Prop) : Replica P → Prop
  | create : Serves ok (create P)
  | serve {r r' : Replica P} {x : Served} : Serves ok r → ok r x → r.serve x = some r' →
      Serves ok r'

end Replica

/-! ## The two conditions -/

/-- No earlier message of the client has the `RequestId` or a greater one. -/
def Fresh (earlier : List Command) (op : Op) : Prop :=
  ∀ c ∈ earlier, c.op.ClientId = op.ClientId → c.op.RequestId < op.RequestId

instance (earlier : List Command) (op : Op) : Decidable (Fresh earlier op) :=
  inferInstanceAs (Decidable (∀ c ∈ earlier, _))

/-- An operation that `Apply` takes for a duplicate is one: an earlier message of the client has
    its `RequestId` or a greater one. -/
def DuplicatesApplied (r : Replica P) : Served → Prop
  | .apply _ c => r.server.ifRequestDuplicate c.op.ClientId c.op.RequestId = true →
      ¬ Fresh r.applied c.op
  | _ => True

/-- The scan of the first search finds no feature of 128 numbers under a key that is not an
    active item. -/
def ScanFindsActive (r : Replica P) : Served → Prop
  | .search => r.server.indexBuilt = false → ∀ pair ∈ P.foreach r.server.kvdb,
      ∀ feat ∈ P.parseFromString pair.2, feat.embedding.length = hnswDim →
        P.hasher pair.1 ∈ r.server.recallEngine.activeLabels
  | _ => True

/-! ## Functions of the log -/

/-- The store after an operation. -/
def stored (kvdb : P.SkipList) (op : Op) : P.SkipList :=
  (({ KvServer.create P with kvdb := kvdb } : KvServer P).executeOnKVDB op).1.kvdb

theorem KvServer.executeOnKVDB_kvdb (s : KvServer P) (op : Op) :
    (s.executeOnKVDB op).1.kvdb = stored s.kvdb op := by
  unfold stored KvServer.executeOnKVDB KvServer.executePutAppendOnKVDB
  split_ifs <;> rfl

/-- The store a log, latest message first, describes. -/
def storeOf (P : Libs) : List Command → P.SkipList
  | [] => P.emptyList
  | c :: earlier =>
    if Fresh earlier c.op then stored (storeOf P earlier) c.op else storeOf P earlier

/-- The recall index it describes; `none` if an operation cannot be put into it. -/
def engineOf (P : Libs) : List Command → Option (RecallEngine P)
  | [] => some (KvServer.create P).recallEngine
  | c :: earlier =>
    if Fresh earlier c.op then (engineOf P earlier).bind fun e => KvServer.indexed e c.op
    else engineOf P earlier

/-! ## Reads and the table -/

namespace KvServer

/-- `Get` leaves the store alone and, unless the answer is in the table, may record the
    request. -/
theorem get_cases (s : KvServer P) (isLeader : Bool) (commitIndex : ℤ) (op : Op) :
    (s.get isLeader commitIndex op).1 = s ∨
      (s.ifRequestDuplicate op.ClientId op.RequestId = false ∧
        ∃ value, (s.get isLeader commitIndex op).1 = s.recordRequestResult op value) := by
  unfold get
  split_ifs with hdup hwrong
  · exact .inl rfl
  · exact .inl rfl
  · exact .inr ⟨Bool.eq_false_iff.mpr hdup, _, rfl⟩

end KvServer

/-! ## The store -/

/-- The table knows every message that has been applied, and the store is that of the log. -/
structure Replica.Follows (r : Replica P) : Prop where
  seen : ∀ c ∈ r.applied, r.server.ifRequestDuplicate c.op.ClientId c.op.RequestId = true
  kvdb : r.server.kvdb = storeOf P r.applied

namespace Replica

variable {r r' : Replica P} {x : Served}

theorem follows_create (P : Libs) : (create P).Follows := ⟨fun c hc => (by cases hc), rfl⟩

/-- What is not fresh is found in the table. -/
theorem Follows.duplicate (h : r.Follows) {op : Op} (hop : ¬ Fresh r.applied op) :
    r.server.ifRequestDuplicate op.ClientId op.RequestId = true := by
  unfold Fresh at hop
  push Not at hop
  obtain ⟨c, hc, hclient, hle⟩ := hop
  obtain ⟨record, hrecord, hle'⟩ := KvServer.ifRequestDuplicate_iff.mp (h.seen c hc)
  rw [hclient] at hrecord
  exact KvServer.ifRequestDuplicate_iff.mpr ⟨record, hrecord, hle.trans hle'⟩

theorem Follows.apply (h : r.Follows) {uninit : ℤ} {c : Command}
    (hok : DuplicatesApplied r (.apply uninit c)) (hres : r.serve (.apply uninit c) = some r') :
    r'.Follows := by
  simp only [serve, KvServer.apply_msg, Option.map_eq_some_iff] at hres
  obtain ⟨server, happ, rfl⟩ := hres
  by_cases hdup : r.server.ifRequestDuplicate c.op.ClientId c.op.RequestId = true
  · rw [KvServer.applyOp_duplicate hdup] at happ
    cases happ
    refine ⟨fun c' hc' => ?_, ?_⟩
    · rw [KvServer.duplicate_congr (KvServer.notify_lastRequests _)]
      rcases List.mem_cons.mp hc' with rfl | hc'
      · exact hdup
      · exact h.seen c' hc'
    · show r.server.kvdb = storeOf P (c :: r.applied)
      rw [storeOf, if_neg (hok hdup)]
      exact h.kvdb
  · rw [Bool.not_eq_true] at hdup
    obtain ⟨e, _, hkvdb, _, _, hlast⟩ := KvServer.applyOp_fresh hdup happ
    have hrecord : ∀ clientId requestId, server.ifRequestDuplicate clientId requestId =
        (r.server.recordRequestResult c.op (r.server.executeOnKVDB c.op).2).ifRequestDuplicate
          clientId requestId := fun _ _ => KvServer.duplicate_congr (by rw [hlast]; rfl) _ _
    refine ⟨fun c' hc' => ?_, ?_⟩
    · rw [hrecord]
      rcases List.mem_cons.mp hc' with rfl | hc'
      · exact KvServer.duplicate_record_self _
      · exact KvServer.duplicate_record hdup _ (h.seen c' hc')
    · have hfresh : Fresh r.applied c.op := by
        by_contra hold
        rw [h.duplicate hold] at hdup
        cases hdup
      show server.kvdb = storeOf P (c :: r.applied)
      rw [storeOf, if_pos hfresh, hkvdb, KvServer.executeOnKVDB_kvdb, h.kvdb]

theorem Follows.get (h : r.Follows) {isLeader : Bool} {commitIndex : ℤ} {op : Op}
    (hres : r.serve (.get isLeader commitIndex op) = some r') : r'.Follows := by
  cases hres
  rcases r.server.get_cases isLeader commitIndex op with heq | ⟨hdup, value, heq⟩
  · rw [heq]
    exact h
  · rw [heq]
    exact ⟨fun c hc => KvServer.duplicate_record hdup value (h.seen c hc), h.kvdb⟩

theorem Follows.search (h : r.Follows) (hres : r.serve .search = some r') : r'.Follows := by
  simp only [serve, Option.map_eq_some_iff] at hres
  obtain ⟨server, hbuild, rfl⟩ := hres
  unfold KvServer.buildIndexIfNeeded at hbuild
  split_ifs at hbuild
  · cases hbuild
    exact h
  · obtain ⟨e, _, rfl⟩ := Option.map_eq_some_iff.mp hbuild
    exact ⟨h.seen, h.kvdb⟩

theorem Follows.serve (h : r.Follows) (hok : DuplicatesApplied r x)
    (hres : r.serve x = some r') : r'.Follows := by
  cases x with
  | apply uninit c => exact h.apply hok hres
  | get isLeader commitIndex op => exact h.get hres
  | search => exact h.search hres

theorem Serves.follows {ok : Replica P → Served → Prop} (hle : ∀ r x, ok r x → DuplicatesApplied r x)
    (h : Serves ok r) : r.Follows := by
  induction h with
  | create => exact follows_create P
  | serve _ hok hres ih => exact ih.serve (hle _ _ hok) hres

end Replica

/-! ## The recall index -/

namespace Replica

variable {r r' : Replica P} {x : Served}

/-- The index is that of the log. -/
def Indexed (r : Replica P) : Prop := engineOf P r.applied = some r.server.recallEngine

/-- A scan that finds only active items changes nothing. -/
theorem scan_eq {e : RecallEngine P} {pairs : List (Bytes × Bytes)}
    (h : ∀ pair ∈ pairs, ∀ feat ∈ P.parseFromString pair.2, feat.embedding.length = hnswDim →
      P.hasher pair.1 ∈ e.activeLabels) : pairs.foldlM KvServer.indexPair e = some e := by
  induction pairs with
  | nil => rfl
  | cons pair pairs ih =>
    have hpair : KvServer.indexPair e pair = some e := by
      unfold KvServer.indexPair
      cases hparse : P.parseFromString pair.2 with
      | none => rfl
      | some feat =>
        dsimp only
        split_ifs with hdim
        · have hin := h pair List.mem_cons_self feat hparse hdim
          exact RecallEngine.addPoint_active hin
        · rfl
    rw [List.foldlM_cons, hpair]
    exact ih fun p hp => h p (List.mem_cons_of_mem pair hp)

theorem Indexed.serve (h : r.Indexed) (hf : r.Follows) (hdup : DuplicatesApplied r x)
    (hscan : ScanFindsActive r x) (hres : r.serve x = some r') : r'.Indexed := by
  cases x with
  | apply uninit c =>
    simp only [Replica.serve, KvServer.apply_msg, Option.map_eq_some_iff] at hres
    obtain ⟨server, happ, rfl⟩ := hres
    show engineOf P (c :: r.applied) = some server.recallEngine
    by_cases hd : r.server.ifRequestDuplicate c.op.ClientId c.op.RequestId = true
    · rw [KvServer.applyOp_duplicate hd] at happ
      cases happ
      rw [engineOf, if_neg (hdup hd)]
      exact h
    · have hfresh : Fresh r.applied c.op := by
        by_contra hold
        exact hd (hf.duplicate hold)
      rw [Bool.not_eq_true] at hd
      obtain ⟨e, he, _, hengine, _⟩ := KvServer.applyOp_fresh hd happ
      rw [engineOf, if_pos hfresh, show engineOf P r.applied = _ from h, hengine]
      exact he
  | get isLeader commitIndex op =>
    cases hres
    rcases r.server.get_cases isLeader commitIndex op with heq | ⟨_, value, heq⟩
    · rw [heq]
      exact h
    · rw [heq]
      exact h
  | search =>
    simp only [Replica.serve, Option.map_eq_some_iff] at hres
    obtain ⟨server, hbuild, rfl⟩ := hres
    unfold KvServer.buildIndexIfNeeded at hbuild
    split_ifs at hbuild with hbuilt
    · cases hbuild
      exact h
    · rw [scan_eq (hscan (Bool.eq_false_iff.mpr hbuilt))] at hbuild
      cases hbuild
      exact h

theorem Serves.indexed
    (h : Serves (fun r x => DuplicatesApplied r x ∧ ScanFindsActive r x) r) : r.Indexed := by
  have hboth : r.Follows ∧ r.Indexed := by
    induction h with
    | create => exact ⟨follows_create P, rfl⟩
    | serve _ hok hres ih =>
      exact ⟨ih.1.serve hok.1 hres, ih.2.serve ih.1 hok.1 hok.2 hres⟩
  exact hboth.2

end Replica

/-! ## Replicas that serve no `Get` -/

/-- Without reads, the numbers in the table come from messages. -/
def Replica.Recorded (r : Replica P) : Prop :=
  ∀ clientId record, r.server.lastRequests clientId = some record →
    ∃ c ∈ r.applied, c.op.ClientId = clientId ∧ c.op.RequestId = record.lastRequestId

/-- The replica is not given a `Get`. -/
def NoGet (_ : Replica P) : Served → Prop
  | .get .. => False
  | _ => True

namespace Replica

variable {r r' : Replica P} {x : Served} {ok ok' : Replica P → Served → Prop}

theorem Serves.mono (h : Serves ok r) (hle : ∀ r x, ok r x → ok' r x) : Serves ok' r := by
  induction h with
  | create => exact .create
  | serve _ hok hres ih => exact ih.serve (hle _ _ hok) hres

theorem Recorded.duplicatesApplied (h : r.Recorded) (x : Served) : DuplicatesApplied r x := by
  cases x with
  | apply uninit c =>
    intro hdup hfresh
    obtain ⟨record, hrecord, hle⟩ := KvServer.ifRequestDuplicate_iff.mp hdup
    obtain ⟨c', hc', hclient, hid⟩ := h _ record hrecord
    have hlt := hfresh c' hc' hclient
    omega
  | get isLeader commitIndex op => trivial
  | search => trivial

theorem Recorded.apply (h : r.Recorded) {uninit : ℤ} {c : Command}
    (hres : r.serve (.apply uninit c) = some r') : r'.Recorded := by
  simp only [Replica.serve, KvServer.apply_msg, Option.map_eq_some_iff] at hres
  obtain ⟨server, happ, rfl⟩ := hres
  intro clientId record hrecord
  change server.lastRequests clientId = some record at hrecord
  cases hdup : r.server.ifRequestDuplicate c.op.ClientId c.op.RequestId with
  | true =>
    rw [KvServer.applyOp_duplicate hdup] at happ
    cases happ
    obtain ⟨c', hc', hwho⟩ := h clientId record hrecord
    exact ⟨c', List.mem_cons_of_mem c hc', hwho⟩
  | false =>
    obtain ⟨_, _, _, _, _, hlast⟩ := KvServer.applyOp_fresh hdup happ
    rw [hlast] at hrecord
    by_cases hclient : clientId = c.op.ClientId
    · subst hclient
      rw [Function.update_self] at hrecord
      cases hrecord
      exact ⟨c, List.mem_cons_self, rfl, rfl⟩
    · rw [Function.update_of_ne hclient] at hrecord
      obtain ⟨c', hc', hwho⟩ := h clientId record hrecord
      exact ⟨c', List.mem_cons_of_mem c hc', hwho⟩

theorem Recorded.search (h : r.Recorded) (hres : r.serve .search = some r') : r'.Recorded := by
  simp only [Replica.serve, Option.map_eq_some_iff] at hres
  obtain ⟨server, hbuild, rfl⟩ := hres
  unfold KvServer.buildIndexIfNeeded at hbuild
  split_ifs at hbuild
  · cases hbuild
    exact h
  · obtain ⟨e, _, rfl⟩ := Option.map_eq_some_iff.mp hbuild
    exact h

/-- Without a `Get`, `Apply` takes only applied requests for duplicates. -/
theorem Serves.of_noGet (h : Serves (fun r x => NoGet r x ∧ ok r x) r) :
    Serves (fun r x => DuplicatesApplied r x ∧ ok r x) r := by
  have hboth : Serves (fun r x => DuplicatesApplied r x ∧ ok r x) r ∧ r.Recorded := by
    induction h with
    | create => exact ⟨.create, fun _ _ hrecord => by cases hrecord⟩
    | @serve r r' x _ hok hres ih =>
      obtain ⟨hserves, hrec⟩ := ih
      refine ⟨hserves.serve ⟨hrec.duplicatesApplied x, hok.2⟩ hres, ?_⟩
      cases x with
      | apply uninit c => exact hrec.apply hres
      | get isLeader commitIndex op => exact absurd hok.1 id
      | search => exact hrec.search hres
  exact hboth.1

end Replica

/-! ## Runs on given inputs -/

instance (op : Op) : Decidable op.Encodable :=
  decidable_of_iff (op.Operation.length ≤ 1024 * 1024 * 1024 ∧
      op.Key.length ≤ 1024 * 1024 * 1024 ∧ op.Value.length ≤ 1024 * 1024 * 1024 ∧
      op.ClientId.length ≤ 1024 * 1024 * 1024 ∧ -2 ^ 31 ≤ op.RequestId ∧ op.RequestId < 2 ^ 31)
    ⟨fun ⟨h1, h2, h3, h4, h5⟩ => ⟨h1, h2, h3, h4, h5⟩,
      fun ⟨h1, h2, h3, h4, h5⟩ => ⟨h1, h2, h3, h4, h5⟩⟩

section Decidable

variable (r : Replica P) (x : Served)

instance : Decidable (DuplicatesApplied r x) :=
  match x with
  | .apply _ c => inferInstanceAs (Decidable
      (r.server.ifRequestDuplicate c.op.ClientId c.op.RequestId = true → ¬ Fresh r.applied c.op))
  | .get .. => .isTrue trivial
  | .search => .isTrue trivial

instance : Decidable (ScanFindsActive r x) :=
  match x with
  | .apply .. => .isTrue trivial
  | .get .. => .isTrue trivial
  | .search => inferInstanceAs (Decidable (r.server.indexBuilt = false →
      ∀ pair ∈ P.foreach r.server.kvdb, ∀ feat ∈ P.parseFromString pair.2, _))

end Decidable

/-- Serving a list of inputs, each of which meets `ok`. -/
def Replica.serveAll (ok : Replica P → Served → Prop) [∀ r x, Decidable (ok r x)]
    (r : Replica P) (xs : List Served) : Option (Replica P) :=
  xs.foldlM (fun r x => if ok r x then r.serve x else none) r

theorem Replica.Serves.serveAll {ok : Replica P → Served → Prop} [∀ r x, Decidable (ok r x)]
    {r r' : Replica P} (h : Serves ok r) {xs : List Served} (hres : r.serveAll ok xs = some r') :
    Serves ok r' := by
  unfold Replica.serveAll at hres
  induction xs generalizing r with
  | nil =>
    cases hres
    exact h
  | cons x xs ih =>
    rw [List.foldlM_cons, Option.bind_eq_bind, Option.bind_eq_some_iff] at hres
    obtain ⟨r₁, h₁, h₂⟩ := hres
    split_ifs at h₁ with hok
    exact ih (h.serve hok h₁) h₂

/-! ## The results -/

/-- Two replicas that have processed the same messages have the same pairs, whatever reads they
    have served, as long as `Apply` takes only applied requests for duplicates. -/
theorem replica_determinism (P : Libs) (r₁ r₂ : Replica P)
    (h₁ : Replica.Serves DuplicatesApplied r₁) (h₂ : Replica.Serves DuplicatesApplied r₂)
    (hsame : r₁.applied = r₂.applied) : r₁.server.kvdb = r₂.server.kvdb := by
  have hf₁ := h₁.follows fun _ _ => id
  have hf₂ := h₂.follows fun _ _ => id
  rw [hf₁.kvdb, hf₂.kvdb, hsame]

/-- They also have the same items to search, as long as the scan of the first search finds only
    items that are active anyway. -/
theorem recall_view_determinism (P : Libs) (r₁ r₂ : Replica P)
    (h₁ : Replica.Serves (fun r x => DuplicatesApplied r x ∧ ScanFindsActive r x) r₁)
    (h₂ : Replica.Serves (fun r x => DuplicatesApplied r x ∧ ScanFindsActive r x) r₂)
    (hsame : r₁.applied = r₂.applied) :
    r₁.server.recallEngine.searchable = r₂.server.recallEngine.searchable := by
  have h : some r₁.server.recallEngine = some r₂.server.recallEngine := by
    rw [← show engineOf P r₁.applied = _ from h₁.indexed,
      ← show engineOf P r₂.applied = _ from h₂.indexed, hsame]
  rw [Option.some.inj h]

/-! ## Reads that leave a trace -/

/-- The bytes of a feature of item `a` with 128 zeros. -/
def featureText : Bytes := [10, 1, 97, 18, 128, 4] ++ List.replicate 512 0

/-- Client `c` puts that text under the key `a`. -/
def plainPut : Command := ⟨1, ⟨opPut, [97], featureText, [99], 1⟩, by decide +kernel⟩

/-- Client `c` puts the feature itself. -/
def featurePut : Command := ⟨2, ⟨opPutFeature, [97], featureText, [99], 2⟩, by decide +kernel⟩

/-- A follower serves the next read of client `c`. -/
def nextGet : Served := .get false 1 ⟨opGet, [97], [], [99], 3⟩

/-- Two ways to serve, each meeting its condition, that end in replicas as `p` says. -/
def Replica.endsWith (ok₁ ok₂ : Replica P → Served → Prop) [∀ r x, Decidable (ok₁ r x)]
    [∀ r x, Decidable (ok₂ r x)] (xs₁ xs₂ : List Served) (p : Replica P → Replica P → Bool) :
    Bool :=
  ((create P).serveAll ok₁ xs₁).any fun r₁ => ((create P).serveAll ok₂ xs₂).any fun r₂ => p r₁ r₂

theorem Replica.Serves.of_endsWith {ok₁ ok₂ : Replica P → Served → Prop}
    [∀ r x, Decidable (ok₁ r x)] [∀ r x, Decidable (ok₂ r x)] {xs₁ xs₂ : List Served}
    {p : Replica P → Replica P → Bool} (h : endsWith ok₁ ok₂ xs₁ xs₂ p = true) :
    ∃ r₁ r₂, Serves ok₁ r₁ ∧ Serves ok₂ r₂ ∧ p r₁ r₂ = true := by
  unfold endsWith at h
  rw [Option.any_eq_true] at h
  obtain ⟨r₁, h₁, h⟩ := h
  rw [Option.any_eq_true] at h
  obtain ⟨r₂, h₂, h⟩ := h
  exact ⟨r₁, r₂, Serves.create.serveAll h₁, Serves.create.serveAll h₂, h⟩

/-- Two replicas of the same two messages, one of which has served a read. -/
theorem replica_determinism_readAfter : ∃ r₁ r₂ : Replica listLibs,
    r₁.applied = r₂.applied ∧ r₁.server.lastRequests [99] ≠ r₂.server.lastRequests [99] ∧
      r₁.server.kvdb = r₂.server.kvdb := by
  have hrun : Replica.endsWith (P := listLibs) DuplicatesApplied DuplicatesApplied
      [.apply 0 plainPut, .apply 0 featurePut, nextGet] [.apply 7 plainPut, .apply 7 featurePut]
      (fun r₁ r₂ => decide (r₁.applied = r₂.applied ∧
        r₁.server.lastRequests [99] ≠ r₂.server.lastRequests [99])) = true := by decide +kernel
  obtain ⟨r₁, r₂, h₁, h₂, h⟩ := Replica.Serves.of_endsWith hrun
  obtain ⟨hsame, hlast⟩ := of_decide_eq_true h
  exact ⟨r₁, r₂, hsame, hlast, replica_determinism listLibs r₁ r₂ h₁ h₂ hsame⟩

/-- The condition that leaves every step to the schedule. -/
def AnyServed (_ : Replica P) (_ : Served) : Prop := True

instance (r : Replica P) (x : Served) : Decidable (AnyServed r x) := .isTrue trivial

/-- A follower serves the client's next read before it applies the put, and skips the put. -/
theorem replica_determinism_fails : ∃ r₁ r₂ : Replica listLibs,
    Replica.Serves AnyServed r₁ ∧ Replica.Serves AnyServed r₂ ∧ r₁.applied = r₂.applied ∧
      listLibs.searchElement r₁.server.kvdb [97] ≠ listLibs.searchElement r₂.server.kvdb [97] := by
  have hrun : Replica.endsWith (P := listLibs) AnyServed AnyServed
      [nextGet, .apply 0 plainPut] [.apply 0 plainPut]
      (fun r₁ r₂ => decide (r₁.applied = r₂.applied ∧ listLibs.searchElement r₁.server.kvdb [97] ≠
        listLibs.searchElement r₂.server.kvdb [97])) = true := by decide +kernel
  obtain ⟨r₁, r₂, h₁, h₂, h⟩ := Replica.Serves.of_endsWith hrun
  exact ⟨r₁, r₂, h₁, h₂, of_decide_eq_true h⟩

/-- Two replicas with the feature of item `a`, one of which was searched before it came. -/
theorem recall_view_determinism_searched : ∃ r₁ r₂ : Replica listLibs,
    r₁.server.recallEngine.searchable.length = 1 ∧
      r₁.server.recallEngine.searchable = r₂.server.recallEngine.searchable := by
  have hrun : Replica.endsWith (P := listLibs)
      (fun r x => DuplicatesApplied r x ∧ ScanFindsActive r x)
      (fun r x => DuplicatesApplied r x ∧ ScanFindsActive r x)
      [.search, .apply 0 featurePut] [.apply 0 featurePut, .search]
      (fun r₁ r₂ => decide (r₁.applied = r₂.applied ∧
        r₁.server.recallEngine.searchable.length = 1)) = true := by decide +kernel
  obtain ⟨r₁, r₂, h₁, h₂, h⟩ := Replica.Serves.of_endsWith hrun
  obtain ⟨hsame, hlen⟩ := of_decide_eq_true h
  exact ⟨r₁, r₂, hlen, recall_view_determinism listLibs r₁ r₂ h₁ h₂ hsame⟩

/-- The replica that is searched after a `Put` has the value in its index. -/
theorem recall_view_determinism_fails : ∃ r₁ r₂ : Replica listLibs,
    Replica.Serves AnyServed r₁ ∧ Replica.Serves AnyServed r₂ ∧ r₁.applied = r₂.applied ∧
      r₁.server.indexBuilt = true ∧ r₂.server.indexBuilt = true ∧
      r₁.server.recallEngine.searchable = [] ∧
      r₂.server.recallEngine.searchable = [([97], List.replicate 128 0)] := by
  have hrun : Replica.endsWith (P := listLibs) AnyServed AnyServed
      [.search, .apply 0 plainPut] [.apply 0 plainPut, .search]
      (fun r₁ r₂ => decide (r₁.applied = r₂.applied ∧ r₁.server.indexBuilt = true ∧
        r₂.server.indexBuilt = true ∧ r₁.server.recallEngine.searchable = [] ∧
        r₂.server.recallEngine.searchable = [([97], List.replicate 128 0)])) = true := by
    decide +kernel
  obtain ⟨r₁, r₂, h₁, h₂, h⟩ := Replica.Serves.of_endsWith hrun
  exact ⟨r₁, r₂, h₁, h₂, of_decide_eq_true h⟩

end MyKvRaft
