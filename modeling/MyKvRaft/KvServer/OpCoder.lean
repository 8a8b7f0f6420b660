import Mathlib.Data.List.TakeWhile
import Mathlib.Data.Nat.Digits.Lemmas
import Mathlib.Tactic

/-!
# Operations and their wire format

`struct Op` (`KvServer/kvServer.h` lines 17–23) and the codec of
`KvServer/op_coder.h`. A `std::string` is the list of its bytes.

`decodeOp` declares `Op op;`, which leaves `op.RequestId` indeterminate, and
assigns it only when a fifth field is read. The indeterminate value is the
argument `uninit` of the model.

Results:

* `decodeOp_encodeOp`: decoding undoes encoding, whatever the indeterminate
  value, for fields of at most 2^30 bytes and a 32-bit request id.
* `encodeOp_inj`: so different operations have different encodings.
-/

namespace MyKvRaft

/-- A `std::string` (or protobuf `bytes`) as its bytes. -/
abbrev Bytes := List UInt8

/-- The bytes of an ASCII literal. -/
def ascii (cs : List Char) : Bytes := cs.map fun c => UInt8.ofNat c.toNat

/-- `struct Op` (`kvServer.h` lines 17–23). -/
structure Op where
  Operation : Bytes
  Key : Bytes
  Value : Bytes
  ClientId : Bytes
  RequestId : ℤ
deriving DecidableEq

/-! ## `encodeOp` -/

/-- The four bytes of a `uint32_t` as `oss.write` copies them from memory
    (little-endian). -/
def u32Bytes (n : ℕ) : Bytes :=
  [UInt8.ofNat (n % 256), UInt8.ofNat (n / 256 % 256), UInt8.ofNat (n / 65536 % 256),
    UInt8.ofNat (n / 16777216 % 256)]

/-- `write_field` (`op_coder.h` lines 10–14): `len` is the size cut to 32 bits,
    and `len` bytes of the content follow it. -/
def writeField (s : Bytes) : Bytes :=
  let len := s.length % 2 ^ 32
  u32Bytes len ++ s.take len

/-- The decimal digits of a natural number, most significant first. -/
def decimal (n : ℕ) : Bytes :=
  if n = 0 then [48] else (Nat.digits 10 n).reverse.map fun d => UInt8.ofNat (48 + d)

/-- `std::to_string(int)`. -/
def toString (i : ℤ) : Bytes := if i < 0 then 45 :: decimal i.natAbs else decimal i.natAbs

/-- `encodeOp` (`op_coder.h` lines 7–21). -/
def encodeOp (op : Op) : Bytes :=
  writeField op.Operation ++ writeField op.Key ++ writeField op.Value ++ writeField op.ClientId ++
    writeField (toString op.RequestId)

/-! ## `decodeOp` -/

/-- The value of four bytes read into a `uint32_t`. -/
def u32Value (b0 b1 b2 b3 : UInt8) : ℕ :=
  b0.toNat + 256 * b1.toNat + 65536 * b2.toNat + 16777216 * b3.toNat

/-- `read_field` (`op_coder.h` lines 28–36) on the unread bytes `data`, with `out`
    the old content of the string it fills: whether it succeeded, the new content
    and the bytes left. A short read leaves the resized string zero-padded. -/
def readField (out data : Bytes) : Bool × Bytes × Bytes :=
  match data with
  | b0 :: b1 :: b2 :: b3 :: rest =>
    let len := u32Value b0 b1 b2 b3
    if len > 1024 * 1024 * 1024 then (false, out, rest)
    else if rest.length < len then (false, rest ++ List.replicate (len - rest.length) 0, [])
    else (true, rest.take len, rest.drop len)
  | _ => (false, out, [])

/-- `isspace` in the C locale. -/
def isSpace (b : UInt8) : Bool := b == 32 || (9 ≤ b && b ≤ 13)

def isDigit (b : UInt8) : Bool := 48 ≤ b && b ≤ 57

/-- The value of a run of decimal digits. -/
def digitsValue (ds : Bytes) : ℕ := ds.foldl (fun n d => 10 * n + (d.toNat - 48)) 0

/-- `std::stoi`: leading white space, an optional sign and a run of digits; `none` when it
    throws (no digits, or a value outside `int`). -/
def stoi (token : Bytes) : Option ℤ :=
  let s := token.dropWhile isSpace
  let (negative, s) :=
    match s with
    | b :: rest => if b = 45 then (true, rest) else if b = 43 then (false, rest) else (false, s)
    | [] => (false, [])
  let ds := s.takeWhile isDigit
  if ds.isEmpty then none
  else
    let v : ℤ := if negative then -(digitsValue ds : ℤ) else digitsValue ds
    if -2 ^ 31 ≤ v ∧ v < 2 ^ 31 then some v else none

/-- `decodeOp` (`op_coder.h` lines 23–50). -/
def decodeOp (uninit : ℤ) (data : Bytes) : Op :=
  let op : Op := ⟨[], [], [], [], uninit⟩
  let (ok, out, data) := readField op.Operation data
  let op := { op with Operation := out }
  if !ok then op else
  let (ok, out, data) := readField op.Key data
  let op := { op with Key := out }
  if !ok then op else
  let (ok, out, data) := readField op.Value data
  let op := { op with Value := out }
  if !ok then op else
  let (ok, out, data) := readField op.ClientId data
  let op := { op with ClientId := out }
  if !ok then op else
  let (ok, token, _) := readField [] data
  if ok then { op with RequestId := (stoi token).getD (-1) } else op

/-! ## Round trip -/

/-- The sizes for which the codec is lossless: every string field within the limit
    `read_field` enforces, the request id an `int`. -/
structure Op.Encodable (op : Op) : Prop where
  operation : op.Operation.length ≤ 1024 * 1024 * 1024
  key : op.Key.length ≤ 1024 * 1024 * 1024
  value : op.Value.length ≤ 1024 * 1024 * 1024
  clientId : op.ClientId.length ≤ 1024 * 1024 * 1024
  requestId : -2 ^ 31 ≤ op.RequestId ∧ op.RequestId < 2 ^ 31

theorem u32Value_u32Bytes {n : ℕ} (hn : n < 2 ^ 32) :
    u32Value (UInt8.ofNat (n % 256)) (UInt8.ofNat (n / 256 % 256))
      (UInt8.ofNat (n / 65536 % 256)) (UInt8.ofNat (n / 16777216 % 256)) = n := by
  simp only [u32Value, UInt8.toNat_ofNat']
  omega

/-- `read_field` reads back what `write_field` wrote, and nothing more. -/
theorem readField_writeField (out s rest : Bytes) (hs : s.length ≤ 1024 * 1024 * 1024) :
    readField out (writeField s ++ rest) = (true, s, rest) := by
  have hlen : s.length % 2 ^ 32 = s.length := Nat.mod_eq_of_lt (by omega)
  have hval := u32Value_u32Bytes (n := s.length) (by omega)
  simp only [writeField, hlen, u32Bytes, List.take_length, List.cons_append, List.nil_append,
    readField, hval]
  rw [if_neg (by omega), if_neg (by simp)]
  simp

theorem toNat_digit {d : ℕ} (hd : d < 10) : (UInt8.ofNat (48 + d)).toNat = 48 + d := by
  rw [UInt8.toNat_ofNat']
  omega

theorem isDigit_digit {d : ℕ} (hd : d < 10) : isDigit (UInt8.ofNat (48 + d)) = true := by
  interval_cases d <;> decide

theorem digits_lt_ten {n d : ℕ} (hd : d ∈ Nat.digits 10 n) : d < 10 :=
  Nat.digits_lt_base (by norm_num) hd

/-- Horner evaluation of the digits, most significant first. -/
theorem digitsValue_map_reverse (ds : List ℕ) (hds : ∀ d ∈ ds, d < 10) :
    digitsValue (ds.reverse.map fun d => UInt8.ofNat (48 + d)) = Nat.ofDigits 10 ds := by
  induction ds with
  | nil => rfl
  | cons d ds ih =>
    have hd := hds d (by simp)
    have ih := ih fun x hx => hds x (by simp [hx])
    simp only [digitsValue] at ih ⊢
    simp only [List.reverse_cons, List.map_append, List.map_cons, List.map_nil, List.foldl_append,
      List.foldl_cons, List.foldl_nil, ih, toNat_digit hd, Nat.ofDigits_cons]
    omega

theorem decimal_ne_nil (n : ℕ) : decimal n ≠ [] := by
  unfold decimal
  split_ifs with h
  · simp
  · simpa using Nat.digits_ne_nil_iff_ne_zero.mpr h

/-- A digit is neither white space nor a sign. -/
theorem isSpace_of_isDigit {b : UInt8} (hb : isDigit b = true) :
    isSpace b = false ∧ b ≠ 45 ∧ b ≠ 43 := by
  simp only [isDigit, Bool.and_eq_true, decide_eq_true_eq, UInt8.le_iff_toNat_le] at hb
  simp only [isSpace, Bool.or_eq_false_iff, beq_eq_false_iff_ne, ne_eq, Bool.and_eq_false_iff,
    decide_eq_false_iff_not, UInt8.le_iff_toNat_le, ← UInt8.toNat_inj]
  simp only [UInt8.toNat_ofNat] at hb ⊢
  omega

theorem isDigit_of_mem_decimal {n : ℕ} {b : UInt8} (hb : b ∈ decimal n) : isDigit b = true := by
  unfold decimal at hb
  split_ifs at hb with h
  · rw [List.mem_singleton] at hb
    subst hb
    decide
  · obtain ⟨d, hd, rfl⟩ := List.mem_map.mp hb
    exact isDigit_digit (digits_lt_ten (List.mem_reverse.mp hd))

theorem digitsValue_decimal (n : ℕ) : digitsValue (decimal n) = n := by
  unfold decimal
  split_ifs with h
  · subst h
    rfl
  · rw [digitsValue_map_reverse _ fun d hd => digits_lt_ten hd, Nat.ofDigits_digits]

/-- `stoi` reads a sign and the digits of `n`. -/
theorem stoi_toString {i : ℤ} (hi : -2 ^ 31 ≤ i ∧ i < 2 ^ 31) : stoi (toString i) = some i := by
  have htake : (decimal i.natAbs).takeWhile isDigit = decimal i.natAbs :=
    List.takeWhile_eq_self_iff.mpr fun b hb => isDigit_of_mem_decimal hb
  have hne : (decimal i.natAbs).isEmpty = false := by simpa using decimal_ne_nil i.natAbs
  have hval := digitsValue_decimal i.natAbs
  unfold toString
  split_ifs with hneg
  · have hdrop : (45 :: decimal i.natAbs : Bytes).dropWhile isSpace = 45 :: decimal i.natAbs := rfl
    have hv : -(i.natAbs : ℤ) = i := by omega
    simp only [stoi, hdrop, if_true, htake, hne, Bool.false_eq_true, if_false, hval, hv]
    rw [if_pos hi]
  · -- the first byte is a digit, so there is nothing to skip
    obtain ⟨b, ds, hb⟩ := List.exists_cons_of_ne_nil (decimal_ne_nil i.natAbs)
    obtain ⟨hsp, h45, h43⟩ := isSpace_of_isDigit
      (isDigit_of_mem_decimal (n := i.natAbs) (b := b) (by rw [hb]; simp))
    have hdrop : (b :: ds).dropWhile isSpace = b :: ds := by
      rw [List.dropWhile_cons, hsp]
      rfl
    have hv : (i.natAbs : ℤ) = i := by omega
    rw [hb] at htake hne hval ⊢
    simp only [stoi, hdrop, h45, h43, if_false, htake, hne, Bool.false_eq_true, hval, hv]
    rw [if_pos hi]

theorem toString_length {i : ℤ} (hi : -2 ^ 31 ≤ i ∧ i < 2 ^ 31) :
    (toString i).length ≤ 1024 * 1024 * 1024 := by
  have hdec : ∀ n, n ≤ 2 ^ 31 → (decimal n).length ≤ 10 := by
    intro n hn
    unfold decimal
    split_ifs with h
    · simp
    · simp only [List.length_map, List.length_reverse]
      rw [Nat.length_digits 10 n (by norm_num) h]
      have : Nat.log 10 n < 10 := Nat.log_lt_of_lt_pow h (by omega)
      omega
  have := hdec i.natAbs (by omega)
  unfold toString
  split_ifs <;> simp <;> omega

/-- Five complete fields give the operation, whatever `op.RequestId` held before. -/
theorem decodeOp_writeField (uninit : ℤ) {f₁ f₂ f₃ f₄ f₅ : Bytes}
    (hsize : ∀ f ∈ [f₁, f₂, f₃, f₄, f₅], f.length ≤ 1024 * 1024 * 1024) (rest : Bytes) :
    decodeOp uninit ([f₁, f₂, f₃, f₄, f₅].flatMap writeField ++ rest) =
      ⟨f₁, f₂, f₃, f₄, (stoi f₅).getD (-1)⟩ := by
  have h₁ := fun tail => readField_writeField [] f₁ tail (hsize f₁ (by simp))
  have h₂ := fun tail => readField_writeField [] f₂ tail (hsize f₂ (by simp))
  have h₃ := fun tail => readField_writeField [] f₃ tail (hsize f₃ (by simp))
  have h₄ := fun tail => readField_writeField [] f₄ tail (hsize f₄ (by simp))
  have h₅ := fun tail => readField_writeField [] f₅ tail (hsize f₅ (by simp))
  simp only [List.flatMap_cons, List.append_assoc, decodeOp, h₁, h₂, h₃, h₄, h₅, Bool.not_true,
    Bool.false_eq_true, if_false, if_true]

theorem encodeOp_eq_flatMap (op : Op) :
    encodeOp op = [op.Operation, op.Key, op.Value, op.ClientId, toString op.RequestId].flatMap
      writeField := by
  simp [encodeOp]

theorem Op.Encodable.field_length {op : Op} (hop : op.Encodable) :
    ∀ f ∈ [op.Operation, op.Key, op.Value, op.ClientId, toString op.RequestId],
      f.length ≤ 1024 * 1024 * 1024 := by
  simp [hop.operation, hop.key, hop.value, hop.clientId, toString_length hop.requestId]

theorem decodeOp_encodeOp (uninit : ℤ) {op : Op} (hop : op.Encodable) :
    decodeOp uninit (encodeOp op) = op := by
  have hdecode := decodeOp_writeField uninit hop.field_length []
  rw [List.append_nil, stoi_toString hop.requestId] at hdecode
  rw [encodeOp_eq_flatMap, hdecode]
  rfl

/-- The operations that can be encoded are told apart by their codes. -/
theorem encodeOp_inj {op op' : Op} (hop : op.Encodable) (hop' : op'.Encodable)
    (h : encodeOp op = encodeOp op') : op = op' := by
  rw [← decodeOp_encodeOp 0 hop, h, decodeOp_encodeOp 0 hop']

end MyKvRaft
