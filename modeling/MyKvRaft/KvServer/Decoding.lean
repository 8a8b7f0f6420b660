import MyKvRaft.Common.PrefixCode
import MyKvRaft.KvServer.KvServer

/-!
# What `decodeOp` returns for any bytes

`decodeOp` (`KvServer/op_coder.h` lines 23–50) gets whatever the log holds. The fields of a
command are a prefix code, so a command that begins with five complete fields determines the
operation. On any other command one of the five `read_field`s fails, and `op.RequestId`
(`kvServer.h` line 22) is never assigned.

* `op_codec_round_trip`: decoding undoes encoding, and different operations have different
  encodings.
* `decodeOp_of_beginsWith`, `decodeOp_of_not_beginsWith`: the operation is that of the five
  fields, or its `RequestId` is indeterminate.
* `decodeOp_of_truncated`: every strict prefix of an encoding is of the second kind.
* `decodeOp_determined_iff`: which commands determine the operation.
-/

namespace MyKvRaft

open PrefixCode

/-! ## Fields -/

/-- The contents `read_field` accepts. -/
def FieldSize (s : Bytes) : Prop := s.length ≤ 1024 * 1024 * 1024

/-- `data` begins with these fields: for each of them a length of at most 2^30 in four bytes,
    and as many bytes of content. -/
def BeginsWith (fields : List Bytes) (data : Bytes) : Prop :=
  Begins FieldSize writeField fields data

theorem isPrefixCode_writeField : IsPrefixCode FieldSize writeField := by
  refine .of_decode (fun data => some (readField [] data).2) fun s rest hs => ?_
  rw [readField_writeField [] s rest hs]

theorem u32Bytes_u32Value (b0 b1 b2 b3 : UInt8) :
    u32Bytes (u32Value b0 b1 b2 b3) = [b0, b1, b2, b3] := by
  have h0 := b0.toNat_lt
  have h1 := b1.toNat_lt
  have h2 := b2.toNat_lt
  have h3 := b3.toNat_lt
  unfold u32Bytes u32Value
  simp only [List.cons.injEq, and_true, ← UInt8.toNat_inj, UInt8.toNat_ofNat']
  omega

/-- What `read_field` has accepted is a field at the front. -/
theorem readField_sound {out data s rest : Bytes} (h : readField out data = (true, s, rest)) :
    FieldSize s ∧ data = writeField s ++ rest := by
  unfold readField at h
  split at h
  next b0 b1 b2 b3 tail =>
    dsimp only at h
    split_ifs at h with hlarge hshort
    · exact absurd h (by simp)
    · exact absurd h (by simp)
    · simp only [Prod.mk.injEq, true_and] at h
      obtain ⟨rfl, rfl⟩ := h
      have hlen : (tail.take (u32Value b0 b1 b2 b3)).length = u32Value b0 b1 b2 b3 := by
        rw [List.length_take]
        omega
      refine ⟨?_, ?_⟩
      · unfold FieldSize
        omega
      · unfold writeField
        dsimp only
        rw [hlen, Nat.mod_eq_of_lt (by omega), u32Bytes_u32Value, List.take_take, min_self]
        simp
  next => exact absurd h (by simp)

/-- `read_field` fails, or it moves past the first field. -/
theorem readField_cases (data : Bytes) :
    (∃ out rest, readField [] data = (false, out, rest)) ∨
      ∃ f rest, readField [] data = (true, f, rest) ∧ FieldSize f ∧ data = writeField f ++ rest := by
  obtain ⟨ok, out, rest, hread⟩ : ∃ ok out rest, readField [] data = (ok, out, rest) :=
    ⟨_, _, _, rfl⟩
  cases ok with
  | false => exact .inl ⟨out, rest, hread⟩
  | true => exact .inr ⟨out, rest, hread, readField_sound hread⟩

/-! ## `decodeOp` on any bytes -/

theorem decodeOp_of_beginsWith (uninit : ℤ) {f₁ f₂ f₃ f₄ f₅ data : Bytes}
    (h : BeginsWith [f₁, f₂, f₃, f₄, f₅] data) :
    decodeOp uninit data = ⟨f₁, f₂, f₃, f₄, (stoi f₅).getD (-1)⟩ := by
  obtain ⟨hsize, rest, rfl⟩ := h
  exact decodeOp_writeField uninit hsize rest

/-- Without five complete fields a `read_field` fails, and `decodeOp` returns with
    `op.RequestId` as it was. -/
theorem decodeOp_of_not_beginsWith {data : Bytes}
    (h : ¬ ∃ f₁ f₂ f₃ f₄ f₅, BeginsWith [f₁, f₂, f₃, f₄, f₅] data) :
    ∃ operation key value clientId, ∀ uninit,
      decodeOp uninit data = ⟨operation, key, value, clientId, uninit⟩ := by
  obtain ⟨out, _, h₁⟩ | ⟨f₁, d₁, h₁, hf₁, rfl⟩ := readField_cases data
  · exact ⟨out, [], [], [], fun u => by simp [decodeOp, h₁]⟩
  obtain ⟨out, _, h₂⟩ | ⟨f₂, d₂, h₂, hf₂, rfl⟩ := readField_cases d₁
  · exact ⟨f₁, out, [], [], fun u => by simp [decodeOp, h₁, h₂]⟩
  obtain ⟨out, _, h₃⟩ | ⟨f₃, d₃, h₃, hf₃, rfl⟩ := readField_cases d₂
  · exact ⟨f₁, f₂, out, [], fun u => by simp [decodeOp, h₁, h₂, h₃]⟩
  obtain ⟨out, _, h₄⟩ | ⟨f₄, d₄, h₄, hf₄, rfl⟩ := readField_cases d₃
  · exact ⟨f₁, f₂, f₃, out, fun u => by simp [decodeOp, h₁, h₂, h₃, h₄]⟩
  obtain ⟨out, _, h₅⟩ | ⟨f₅, d₅, h₅, hf₅, rfl⟩ := readField_cases d₄
  · exact ⟨f₁, f₂, f₃, f₄, fun u => by simp [decodeOp, h₁, h₂, h₃, h₄, h₅]⟩
  · refine absurd ⟨f₁, f₂, f₃, f₄, f₅, ?_, d₅, by simp⟩ h
    simp [hf₁, hf₂, hf₃, hf₄, hf₅]

/-- An encoding that has lost its end, be it one byte, leaves `op.RequestId` indeterminate. -/
theorem decodeOp_of_truncated {op : Op} (hop : op.Encodable) {data : Bytes}
    (hpre : data <+: encodeOp op) (hne : data ≠ encodeOp op) :
    ∃ operation key value clientId, ∀ uninit,
      decodeOp uninit data = ⟨operation, key, value, clientId, uninit⟩ := by
  rw [encodeOp_eq_flatMap] at hpre hne
  refine decodeOp_of_not_beginsWith ?_
  rintro ⟨f₁, f₂, f₃, f₄, f₅, hbegins⟩
  refine isPrefixCode_writeField.not_begins hop.field_length hpre hne ?_ hbegins
  rfl

/-! ## Round trip -/

/-- For operations with fields of at most 2^30 bytes and an `int` as request id: `decodeOp`
    gives all five fields back, and no two of them have one encoding. -/
theorem op_codec_round_trip :
    (∀ uninit, ∀ op : Op, op.Encodable → decodeOp uninit (encodeOp op) = op) ∧
      Set.InjOn encodeOp {op | op.Encodable} := by
  constructor
  · intro uninit op hop
    exact decodeOp_encodeOp uninit hop
  · intro op hop op' hop' heq
    exact encodeOp_inj hop hop' heq

/-- Zero bytes, empty fields and the smallest `int`. -/
theorem op_codec_round_trip_smallest :
    decodeOp 7 (encodeOp ⟨[0, 80, 0], [], [0], [], -2 ^ 31⟩) = ⟨[0, 80, 0], [], [0], [], -2 ^ 31⟩ :=
  op_codec_round_trip.1 7 _ ⟨by decide, by decide, by decide, by decide, by decide⟩

/-! ## Malformed commands -/

/-- The bytes determine what `decodeOp` returns: `RequestId` is the number in a complete fifth
    field or -1, and `Apply` finds the same duplicates on every replica. -/
structure Determined (data : Bytes) : Prop where
  op : ∀ uninit uninit', decodeOp uninit data = decodeOp uninit' data
  requestId : ∀ uninit,
    (∃ f₁ f₂ f₃ f₄ f₅, BeginsWith [f₁, f₂, f₃, f₄, f₅] data ∧
      stoi f₅ = some (decodeOp uninit data).RequestId) ∨ (decodeOp uninit data).RequestId = -1
  duplicate : ∀ (P : Libs) (s : KvServer P) (uninit uninit' : ℤ),
    s.ifRequestDuplicate (decodeOp uninit data).ClientId (decodeOp uninit data).RequestId =
      s.ifRequestDuplicate (decodeOp uninit' data).ClientId (decodeOp uninit' data).RequestId

/-- A command determines the operation if and only if it begins with five complete fields. -/
theorem decodeOp_determined_iff (data : Bytes) :
    Determined data ↔ ∃ f₁ f₂ f₃ f₄ f₅, BeginsWith [f₁, f₂, f₃, f₄, f₅] data := by
  constructor
  · intro h
    by_contra hincomplete
    obtain ⟨operation, key, value, clientId, hop⟩ := decodeOp_of_not_beginsWith hincomplete
    have heq : (0 : ℤ) = 1 := by simpa [hop] using congrArg Op.RequestId (h.op 0 1)
    omega
  · rintro ⟨f₁, f₂, f₃, f₄, f₅, hbegins⟩
    have hop := fun uninit => decodeOp_of_beginsWith uninit hbegins
    constructor
    case op =>
      intro uninit uninit'
      rw [hop, hop]
    case requestId =>
      intro uninit
      rw [hop]
      cases hnum : stoi f₅ with
      | none => exact .inr rfl
      | some n => exact .inl ⟨f₁, f₂, f₃, f₄, f₅, hbegins, hnum⟩
    case duplicate =>
      intro P s uninit uninit'
      rw [hop, hop]

/-- The command of a Put without its fifth field: of two replicas on which request 3 was the last
    one of the client, one can take it for a duplicate and the other not. -/
theorem decodeOp_determined_fails :
    ¬ ∀ data, Determined data := by
  intro h
  have hdup := (h ((encodeOp ⟨opPut, [97], [98], [99], 4⟩).take 22)).duplicate listLibs
    { KvServer.create listLibs with lastRequests := fun _ => some ⟨3, []⟩ } 3 4
  revert hdup
  decide +kernel

end MyKvRaft
