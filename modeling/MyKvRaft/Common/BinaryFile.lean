import Mathlib.Tactic

/-!
# Binary files

Integers as their bytes in memory (little-endian), and a file that is read front to back. A
read fills a buffer that is zero before it: what the file does not give stays zero, and after
a read that came up short every further read fails.

* `leValue_leBytes`: the bytes of a number give the number back.
* `read_append`, `readInt32_append`, `readUInt64_append`: reading what is at the front.
-/

namespace BinaryFile

/-- The `k` low bytes of a number, least significant first. -/
def leBytes : ℕ → ℕ → List UInt8
  | 0, _ => []
  | k + 1, n => UInt8.ofNat (n % 256) :: leBytes k (n / 256)

def leValue : List UInt8 → ℕ
  | [] => 0
  | b :: bs => b.toNat + 256 * leValue bs

theorem length_leBytes (k n : ℕ) : (leBytes k n).length = k := by
  induction k generalizing n with
  | zero => rfl
  | succ k ih => simp [leBytes, ih]

theorem leValue_leBytes (k n : ℕ) : leValue (leBytes k n) = n % 256 ^ k := by
  induction k generalizing n with
  | zero => simp [leBytes, leValue, Nat.mod_one]
  | succ k ih =>
    have hbyte : (UInt8.ofNat (n % 256)).toNat = n % 256 := by
      rw [UInt8.toNat_ofNat']
      omega
    unfold leBytes leValue
    rw [ih, hbyte, pow_succ', Nat.mod_mul]

/-- A number as an `int32_t`. -/
def int32 (n : ℕ) : ℤ := (n : ℤ).bmod (2 ^ 32)

theorem int32_of_lt {n : ℕ} (hn : n < 2 ^ 31) : int32 n = n := by
  unfold int32
  rw [Int.bmod_def]
  omega

theorem int32_mod (n : ℕ) : int32 (n % 256 ^ 4) = int32 n := by
  unfold int32
  rw [Int.bmod_def, Int.bmod_def]
  omega

/-- A file that is being read: the bytes that are left, and whether a read has failed. -/
structure InFile where
  rest : List UInt8
  failed : Bool

namespace InFile

/-- Reading into a buffer of `n` zero bytes. -/
def read (f : InFile) (n : ℕ) : List UInt8 × InFile :=
  if f.failed then (List.replicate n 0, f)
  else (f.rest.takeD n 0, ⟨f.rest.drop n, f.rest.length < n⟩)

def readInt32 (f : InFile) : ℤ × InFile :=
  let (bytes, f) := f.read 4
  (int32 (leValue bytes), f)

def readUInt64 (f : InFile) : UInt64 × InFile :=
  let (bytes, f) := f.read 8
  (UInt64.ofNat (leValue bytes), f)

theorem read_append (bytes rest : List UInt8) :
    (InFile.mk (bytes ++ rest) false).read bytes.length = (bytes, ⟨rest, false⟩) := by
  unfold read
  rw [if_neg Bool.false_ne_true, List.takeD_left, List.drop_left]
  simp

theorem readInt32_append (n : ℕ) (rest : List UInt8) :
    (InFile.mk (leBytes 4 n ++ rest) false).readInt32 = (int32 n, ⟨rest, false⟩) := by
  have hread := read_append (leBytes 4 n) rest
  rw [length_leBytes] at hread
  unfold readInt32
  rw [hread]
  dsimp only
  rw [leValue_leBytes, int32_mod]

theorem readUInt64_append (n : UInt64) (rest : List UInt8) :
    (InFile.mk (leBytes 8 n.toNat ++ rest) false).readUInt64 = (n, ⟨rest, false⟩) := by
  have hread := read_append (leBytes 8 n.toNat) rest
  rw [length_leBytes] at hread
  unfold readUInt64
  rw [hread]
  dsimp only
  have hlt : n.toNat < 256 ^ 8 := n.toNat_lt
  rw [leValue_leBytes, Nat.mod_eq_of_lt hlt, UInt64.ofNat_toNat]

end InFile

end BinaryFile
