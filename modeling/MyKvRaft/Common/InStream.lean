import MyKvRaft.Common.BinaryFile

/-!
# Input streams

A file that is read through `std::ifstream`: the position moves with every read and can be
set; a read that comes up short fails, and on a stream that has failed nothing happens any
more.

* `Reads`: the reader takes these bytes from the front of what is left, and returns this.
* `Stable`: a reader that has not failed does not notice whether the file goes on.
* `Consumes`: what a reader that has not failed has taken, and what it made of it.

Each comes with its rule for two readers in a row.
-/

namespace BinaryFile

structure InStream where
  bytes : List UInt8
  pos : ℕ
  failed : Bool
deriving DecidableEq

abbrev Reader (α : Type) := StateM InStream α

namespace InStream

/-- The file, opened. -/
def ofFile (bytes : List UInt8) : InStream := ⟨bytes, 0, false⟩

/-- What is left of the file. -/
def rest (s : InStream) : List UInt8 := s.bytes.drop s.pos

/-- The file with more bytes behind it. -/
def extend (s : InStream) (more : List UInt8) : InStream := { s with bytes := s.bytes ++ more }

/-- `tellg`; `none` for -1. -/
def tellg (s : InStream) : Option ℕ := if s.failed then none else some s.pos

end InStream

/-- `read`: up to `n` bytes. -/
def read (n : ℕ) : Reader (List UInt8) := fun s =>
  if s.failed then ([], s)
  else
    let got := s.rest.take n
    (got, { s with pos := s.pos + got.length, failed := decide (got.length < n) })

/-- Reading into a number of `k` bytes that is zero before. -/
def readLE (k : ℕ) : Reader ℕ := do
  let got ← read k
  return leValue got

def readUInt32 : Reader UInt32 := do
  let n ← readLE 4
  return UInt32.ofNat n

def readUInt64 : Reader UInt64 := do
  let n ← readLE 8
  return UInt64.ofNat n

/-- `seekg(off, cur)`. A position may lie behind the end of the file. -/
def seekCur (off : ℤ) : Reader Unit := fun s =>
  if s.failed then ((), s)
  else if 0 ≤ s.pos + off ∧ s.pos + off < 2 ^ 63 then ((), { s with pos := (s.pos + off).toNat })
  else ((), { s with failed := true })

variable {α β : Type} {m : Reader α} {f : α → Reader β}

theorem run_bind (m : Reader α) (f : α → Reader β) (s : InStream) :
    (m >>= f).run s = (f (m.run s).1).run (m.run s).2 := rfl

theorem leBytes_leValue (bs : List UInt8) : leBytes bs.length (leValue bs) = bs := by
  induction bs with
  | nil => rfl
  | cons b bs ih =>
    have hb : b.toNat < 256 := b.toNat_lt
    rw [List.length_cons, leBytes, leValue, show (b.toNat + 256 * leValue bs) % 256 = b.toNat by omega,
      show (b.toNat + 256 * leValue bs) / 256 = leValue bs by omega, ih, UInt8.ofNat_toNat]

theorem leValue_lt (bs : List UInt8) : leValue bs < 256 ^ bs.length := by
  induction bs with
  | nil => exact Nat.one_pos
  | cons b bs ih =>
    have hb : b.toNat < 256 := b.toNat_lt
    rw [List.length_cons, leValue, pow_succ]
    omega

/-! ## Reading what is there -/

/-- On a stream on which `bytes` come next, `m` takes them and returns `a`. -/
def Reads (m : Reader α) (bytes : List UInt8) (a : α) : Prop :=
  ∀ s rest, s.failed = false → s.rest = bytes ++ rest →
    m.run s = (a, { s with pos := s.pos + bytes.length })

theorem InStream.rest_add {s : InStream} {bytes rest : List UInt8} (h : s.rest = bytes ++ rest) :
    InStream.rest { s with pos := s.pos + bytes.length } = rest := by
  show s.bytes.drop (s.pos + bytes.length) = rest
  rw [← List.drop_drop, show s.bytes.drop s.pos = bytes ++ rest from h, List.drop_left]

theorem reads_pure (a : α) : Reads (pure a) [] a := fun _ _ _ _ => rfl

theorem Reads.bind {bytes bytes' : List UInt8} {a : α} {b : β} (hm : Reads m bytes a)
    (hf : Reads (f a) bytes' b) : Reads (m >>= f) (bytes ++ bytes') b := by
  intro s rest hs hrest
  rw [List.append_assoc] at hrest
  rw [run_bind, hm s _ hs hrest, List.length_append, ← Nat.add_assoc]
  exact hf _ rest hs (s.rest_add hrest)

theorem Reads.map {bytes : List UInt8} {a : α} (hm : Reads m bytes a) (g : α → β) :
    Reads (do let a ← m; return g a) bytes (g a) := by
  have h := hm.bind (f := fun a => pure (g a)) (reads_pure (g a))
  rwa [List.append_nil] at h

theorem reads_read (bytes : List UInt8) : Reads (read bytes.length) bytes bytes := by
  intro s rest hs hrest
  show read bytes.length s = _
  unfold read
  rw [if_neg (by rw [hs]; decide), hrest, List.take_left]
  simp [hs]

theorem reads_readLE (k n : ℕ) : Reads (readLE k) (leBytes k n) (n % 256 ^ k) := by
  have h := (reads_read (leBytes k n)).map leValue
  rwa [length_leBytes, leValue_leBytes] at h

theorem reads_readUInt32 (n : UInt32) : Reads readUInt32 (leBytes 4 n.toNat) n := by
  have h := (reads_readLE 4 n.toNat).map UInt32.ofNat
  have hlt : n.toNat < 256 ^ 4 := n.toNat_lt
  rwa [Nat.mod_eq_of_lt hlt, UInt32.ofNat_toNat] at h

theorem reads_readUInt64 (n : UInt64) : Reads readUInt64 (leBytes 8 n.toNat) n := by
  have h := (reads_readLE 8 n.toNat).map UInt64.ofNat
  have hlt : n.toNat < 256 ^ 8 := n.toNat_lt
  rwa [Nat.mod_eq_of_lt hlt, UInt64.ofNat_toNat] at h

/-! ## Reading a file that goes on -/

/-- The reader leaves the file as it is, does nothing on a stream that has failed, and unless it
    fails does not notice what stands behind what it reads. -/
structure Stable (m : Reader α) : Prop where
  bytes : ∀ s, (m.run s).2.bytes = s.bytes
  sticky : ∀ s, s.failed = true → (m.run s).2.failed = true
  extend : ∀ s more, (m.run s).2.failed = false →
    m.run (s.extend more) = ((m.run s).1, (m.run s).2.extend more)

theorem stable_pure (a : α) : Stable (pure a : Reader α) :=
  ⟨fun _ => rfl, fun _ h => h, fun _ _ _ => rfl⟩

theorem Stable.not_failed (h : Stable m) {s : InStream} (hs : (m.run s).2.failed = false) :
    s.failed = false := by
  cases hf : s.failed with
  | false => rfl
  | true => rw [h.sticky s hf] at hs; cases hs

theorem Stable.bind (hm : Stable m) (hf : ∀ a, Stable (f a)) : Stable (m >>= f) where
  bytes s := by rw [run_bind, (hf _).bytes, hm.bytes]
  sticky s hs := (hf _).sticky _ (hm.sticky s hs)
  extend s more hs := by
    rw [run_bind] at hs
    rw [run_bind, hm.extend s more ((hf _).not_failed hs), (hf _).extend _ more hs]
    rfl

theorem stable_read (n : ℕ) : Stable (read n) where
  bytes s := by
    show (read n s).2.bytes = s.bytes
    unfold read
    split_ifs <;> rfl
  sticky s hs := by
    show (read n s).2.failed = true
    unfold read
    rw [if_pos hs]
    exact hs
  extend s more hs := by
    change (read n s).2.failed = false at hs
    show read n (s.extend more) = ((read n s).1, (read n s).2.extend more)
    unfold read at hs ⊢
    by_cases hfail : s.failed = true
    · rw [if_pos hfail] at hs
      rw [hs] at hfail
      cases hfail
    · rw [if_neg hfail] at hs ⊢
      rw [if_neg (show ¬(s.extend more).failed = true from hfail)]
      have hlen : n ≤ s.rest.length := by
        have hlen := of_decide_eq_false hs
        rw [List.length_take] at hlen
        omega
      have htake : (s.extend more).rest.take n = s.rest.take n := by
        have hpos : s.pos ≤ s.bytes.length ∨ n = 0 := by
          unfold InStream.rest at hlen
          rw [List.length_drop] at hlen
          omega
        show ((s.bytes ++ more).drop s.pos).take n = (s.bytes.drop s.pos).take n
        obtain hpos | rfl := hpos
        · rw [List.drop_append_of_le_length hpos]
          exact List.take_append_of_le_length hlen
        · rfl
      dsimp only
      rw [htake]
      rfl

theorem stable_readUInt32 : Stable readUInt32 :=
  ((stable_read 4).bind fun _ => stable_pure _).bind fun _ => stable_pure _

theorem stable_readUInt64 : Stable readUInt64 :=
  ((stable_read 8).bind fun _ => stable_pure _).bind fun _ => stable_pure _

theorem stable_seekCur (off : ℤ) : Stable (seekCur off) where
  bytes s := by
    show (seekCur off s).2.bytes = s.bytes
    unfold seekCur
    split_ifs <;> rfl
  sticky s hs := by
    show (seekCur off s).2.failed = true
    unfold seekCur
    rw [if_pos hs]
    exact hs
  extend s more hs := by
    have hs' := hs
    change (seekCur off s).2.failed = false at hs'
    show seekCur off (s.extend more) = ((seekCur off s).1, (seekCur off s).2.extend more)
    unfold seekCur at hs' ⊢
    by_cases hfail : s.failed = true
    · rw [if_pos hfail, hfail] at hs'
      cases hs'
    · rw [if_neg hfail, if_neg (show ¬(s.extend more).failed = true from hfail)]
      show (if 0 ≤ s.pos + off ∧ s.pos + off < 2 ^ 63 then _ else _) = _
      split_ifs <;> rfl

/-! ## Positions -/

variable {s : InStream}

theorem tellg_eq_some {pos : ℕ} (h : s.tellg = some pos) : s.failed = false ∧ s.pos = pos := by
  unfold InStream.tellg at h
  split_ifs at h with hfail
  exact ⟨Bool.eq_false_iff.mpr hfail, Option.some.inj h⟩

theorem run_seekCur (hs : s.failed = false) {n : ℕ} (hn : s.pos + n < 2 ^ 63) :
    (seekCur n).run s = ((), { s with pos := s.pos + n }) := by
  show seekCur n s = _
  unfold seekCur
  rw [if_neg (by rw [hs]; decide), if_pos (by omega)]
  rfl

theorem run_seekCur_of_not_failed {n : ℕ}
    (h : ((seekCur n).run s).2.failed = false) :
    (seekCur n).run s = ((), { s with pos := s.pos + n }) := by
  have hs := (stable_seekCur _).not_failed h
  by_cases hn : s.pos + n < 2 ^ 63
  · exact run_seekCur hs hn
  · change (seekCur n s).2.failed = false at h
    unfold seekCur at h
    rw [if_neg (by rw [hs]; decide), if_neg (by omega)] at h
    cases h

theorem run_read {n : ℕ} (hs : s.failed = false)
    (hn : s.pos + n ≤ s.bytes.length) :
    ((read n).run s).2 = { s with pos := s.pos + n } := by
  have hlen : (s.rest.take n).length = n := by
    unfold InStream.rest
    rw [List.length_take, List.length_drop]
    omega
  show (read n s).2 = _
  unfold read
  rw [if_neg (by rw [hs]; decide)]
  dsimp only
  rw [hlen, hs, decide_eq_false (Nat.lt_irrefl n)]

/-! ## What has been read -/

/-- Unless it fails, the reader takes bytes `c` from the front of what is left and returns an `a`
    with `R a c`. -/
def Consumes (m : Reader α) (R : α → List UInt8 → Prop) : Prop :=
  ∀ s, (m.run s).2.failed = false →
    s.failed = false ∧ ∃ c, s.rest = c ++ (m.run s).2.rest ∧ R (m.run s).1 c

theorem consumes_pure {R : β → List UInt8 → Prop} {b : β} (h : R b []) : Consumes (pure b) R :=
  fun _ hs => ⟨hs, [], rfl, h⟩

theorem Consumes.bind {Q : α → List UInt8 → Prop} {R : β → List UInt8 → Prop}
    (hm : Consumes m Q) (hf : ∀ a, Consumes (f a) fun b c' => ∀ c, Q a c → R b (c ++ c')) :
    Consumes (m >>= f) R := by
  intro s hs
  rw [run_bind] at hs ⊢
  obtain ⟨hmid, c', hrest', hR⟩ := hf _ _ hs
  obtain ⟨hs₀, c, hrest, hQ⟩ := hm s hmid
  refine ⟨hs₀, c ++ c', ?_, hR c hQ⟩
  rw [hrest, hrest', List.append_assoc]

theorem consumes_read (n : ℕ) : Consumes (read n) fun got c => got = c ∧ c.length = n := by
  intro s hs
  change (read n s).2.failed = false at hs
  show s.failed = false ∧ ∃ c, s.rest = c ++ (read n s).2.rest ∧ (read n s).1 = c ∧ c.length = n
  unfold read at hs ⊢
  by_cases hfail : s.failed = true
  · rw [if_pos hfail, hfail] at hs
    cases hs
  · rw [if_neg hfail] at hs ⊢
    have hlen : (s.rest.take n).length = n := by
      have hlen := of_decide_eq_false hs
      have htake := List.length_take_le n s.rest
      omega
    refine ⟨Bool.eq_false_iff.mpr hfail, s.rest.take n, ?_, rfl, hlen⟩
    show s.rest = s.rest.take n ++ s.bytes.drop (s.pos + (s.rest.take n).length)
    rw [hlen, ← List.drop_drop]
    exact (List.take_append_drop n s.rest).symm

theorem Consumes.map {Q : α → List UInt8 → Prop} {R : β → List UInt8 → Prop}
    (hm : Consumes m Q) (g : α → β) (hR : ∀ a c, Q a c → R (g a) c) :
    Consumes (do let a ← m; return g a) R := by
  refine hm.bind fun a => consumes_pure fun c hc => ?_
  rw [List.append_nil]
  exact hR a c hc

theorem consumes_readLE (k : ℕ) :
    Consumes (readLE k) fun n c => c = leBytes k n ∧ n < 256 ^ k := by
  refine (consumes_read k).map leValue ?_
  rintro got _ ⟨rfl, hlen⟩
  rw [← hlen]
  exact ⟨(leBytes_leValue got).symm, leValue_lt got⟩

theorem consumes_readUInt32 : Consumes readUInt32 fun n c => c = leBytes 4 n.toNat := by
  refine (consumes_readLE 4).map UInt32.ofNat ?_
  rintro n _ ⟨rfl, hn⟩
  rw [UInt32.toNat_ofNat_of_lt' hn]

theorem consumes_readUInt64 : Consumes readUInt64 fun n c => c = leBytes 8 n.toNat := by
  refine (consumes_readLE 8).map UInt64.ofNat ?_
  rintro n _ ⟨rfl, hn⟩
  rw [UInt64.toNat_ofNat_of_lt' hn]

end BinaryFile
