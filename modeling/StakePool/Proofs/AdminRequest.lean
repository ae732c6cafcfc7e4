import StakePool.AdminRequest
import StakePool.Proofs.Codec.Plain

/-!
# Administrator requests in bytes

`decodeTagged` accepts the byte strings that begin with a request behind its tag, and no others: what does not begin so
is refused with `refusal`. `decodes_exactly_tagged_requests` has both, and that no request begins another one.
-/

namespace StakePool.AdminRequest

variable {bytes rest : Bytes} {request : AdminRequest} {byte : UInt8} {found : UInt64}

/-- How many bytes follow the byte that names the kind, for each value of that byte. -/
def payloadWidths : List Nat := [0, 0, 0, 0, 4, 0, 284, 132]

/-- What is wrong with a byte string that does not begin with a request. -/
def refusal (bytes : Bytes) : Fault :=
  if bytes.length < 8 then
    .sizeMismatch 8 bytes.length
  else if Word.u64.ofBytes (bytes.take 8) ≠ tag then
    .unknownTag (Word.u64.ofBytes (bytes.take 8))
  else
    match bytes[8]? with
    | none => .sizeMismatch 9 8
    | some byte =>
      if 7 < byte then .unknownVariant 8 byte
      else .sizeMismatch (9 + payloadWidths.getD byte.toNat 0) bytes.length

/-! ### Kinds -/

theorem Kind.payloadWidths_getD (k : Kind) : payloadWidths.getD k.toByte.toNat 0 = k.layout.size := by
  cases k <;> rfl

theorem Kind.plain_layout (k : Kind) : k.layout.Plain := by
  cases k <;> exact trivial

theorem Kind.size_layout_le (k : Kind) : k.layout.size ≤ 284 := by
  cases k <;> decide

theorem Kind.toByte_le (k : Kind) : ¬ 7 < k.toByte := by
  cases k <;> decide

theorem Kind.ofByte?_eq_none_iff : Kind.code.ofByte? byte = none ↔ 7 < byte := by
  have named : Kind.code.ofByte? byte = Kind.all.find? fun k => k.toByte == byte := rfl
  rw [named, List.find?_eq_none]
  simp [Kind.all, Kind.toByte, UInt8.lt_iff_toNat_lt, ← UInt8.toNat_inj]
  omega

/-- A payload is one word or one block, so that it is missed as a whole. -/
theorem Kind.read_of_few {k : Kind} {offset : Nat} (bound : offset + k.layout.size < addressLimit)
    (few : rest.length < k.layout.size) :
    k.layout.read ⟨offset, rest⟩ = .error (.sizeMismatch (offset + k.layout.size) (offset + rest.length)) ⟨offset, rest⟩ := by
  cases k with
  | pause | unpause | addAsset | removeAsset | updateAdmin => exact absurd few (Nat.not_lt_zero _)
  | updateFee => exact Read.word_of_short (w := Word.u32) (r := ⟨offset, rest⟩) bound few
  | createOrder | cancelOrder => exact Read.block_of_error (Read.take_of_short (r := ⟨offset, rest⟩) bound few)

/-! ### Encodings -/

theorem encodeTagged_eq (request : AdminRequest) :
    encodeTagged request = Word.u64.bytes tag ++ format.encode request := by
  rw [encodeTagged, Format.toBytes_encodeInto]
  simp

theorem encode_forth (k : Kind) (values : k.Fields) :
    format.encode (fields.forth ⟨k, values⟩) = k.toByte :: k.layout.encode values := by
  rw [format, Format.encode_via, fields.back_forth, Format.encode_variant, Word.bytes_u8]
  rfl

theorem fits (request : AdminRequest) : format.Fits request := by
  cases request <;> exact trivial

theorem length_encodeTagged (request : AdminRequest) :
    (encodeTagged request).length = 8 + format.encodedLength request := by
  rw [encodeTagged_eq, List.length_append, Word.length_bytes, Format.length_encode]
  rfl

/-! ### What each byte string is decoded to -/

theorem read_tag (found : UInt64) (rest : Bytes) :
    Read.word Word.u64 (.ofBytes (Word.u64.bytes found ++ rest)) = .ok found ⟨8, rest⟩ :=
  Read.word_append Word.u64 found (by decide : 0 + 8 < addressLimit) rest

theorem decodeTagged_of_ok {last : Reader} (read : format.read ⟨8, rest⟩ = .ok request last) :
    decodeTagged (Word.u64.bytes tag ++ rest) = .ok request := by
  simp only [decodeTagged, read_tag, read, if_true]

theorem decodeTagged_of_error {fault : Fault} {last : Reader}
    (failed : (Format.variant Kind.code fun k => .fixed k.layout).read ⟨8, rest⟩ = .error fault last) :
    decodeTagged (Word.u64.bytes tag ++ rest) = .error fault := by
  have refused : format.read ⟨8, rest⟩ = .error fault last := Read.bind_of_error failed _
  simp only [decodeTagged, read_tag, refused, if_true]

theorem decodeTagged_of_other_tag (unknown : found ≠ tag) (rest : Bytes) :
    decodeTagged (Word.u64.bytes found ++ rest) = .error (.unknownTag found) := by
  simp only [decodeTagged, read_tag, if_neg unknown]

theorem decodeTagged_append (request : AdminRequest) (rest : Bytes) :
    decodeTagged (encodeTagged request ++ rest) = .ok request := by
  obtain ⟨⟨k, values⟩, rfl⟩ : ∃ x, fields.forth x = request := ⟨_, fields.forth_back request⟩
  have width := k.size_layout_le
  have length : format.encodedLength (fields.forth ⟨k, values⟩) = 1 + k.layout.size := by
    rw [← Format.length_encode, encode_forth, List.length_cons, Layout.length_encode, Nat.add_comm]
  rw [encodeTagged_eq, List.append_assoc]
  exact decodeTagged_of_ok (format.read_encode _ (fits _) (by rw [length]; unfold addressLimit; omega) rest)

theorem decodeTagged_of_short (few : bytes.length < 8) :
    decodeTagged bytes = .error (.sizeMismatch 8 bytes.length) := by
  have room : (Reader.ofBytes bytes).offset + Word.u64.width < addressLimit := by
    show 0 + 8 < addressLimit
    decide
  have failed := Read.word_of_short room few
  have size : (Reader.ofBytes bytes).size = bytes.length := Nat.zero_add _
  simp only [decodeTagged, failed, size]
  rfl

theorem decodeTagged_of_payload (k : Kind) (few : rest.length < k.layout.size) :
    decodeTagged (Word.u64.bytes tag ++ k.toByte :: rest) =
      .error (.sizeMismatch (9 + k.layout.size) (9 + rest.length)) := by
  have width := k.size_layout_le
  have opened : (Format.variant Kind.code fun k => .fixed k.layout).read ⟨8, k.toByte :: rest⟩ =
      (do return ⟨k, ← k.layout.read⟩ : Read ((k : Kind) × k.Fields)) ⟨9, rest⟩ :=
    Format.read_variant_of_known (Read.word_cons k.toByte (by decide) rest) (Kind.code.ofByte?_toByte k)
  have bound : 9 + k.layout.size < addressLimit := by
    unfold addressLimit
    omega
  exact decodeTagged_of_error (opened.trans (Read.bind_of_error (Kind.read_of_few bound few) _))

theorem decodeTagged_of_tag_only : decodeTagged (Word.u64.bytes tag) = .error (.sizeMismatch 9 8) := by
  have failed : Read.word Word.u8 ⟨8, []⟩ = .error (.sizeMismatch 9 8) ⟨8, []⟩ :=
    Read.word_of_short (r := ⟨8, []⟩) (by decide) (by decide)
  have refused := decodeTagged_of_error (Format.read_variant_of_error failed)
  rwa [List.append_nil] at refused

theorem decodeTagged_of_unknown (unknown : 7 < byte) (rest : Bytes) :
    decodeTagged (Word.u64.bytes tag ++ byte :: rest) = .error (.unknownVariant 8 byte) :=
  decodeTagged_of_error (Format.read_variant_of_unknown (Read.word_cons byte (by decide) rest)
    (Kind.ofByte?_eq_none_iff.mpr unknown))

theorem refusal_append (found : UInt64) (rest : Bytes) :
    refusal (Word.u64.bytes found ++ rest) =
      if found ≠ tag then .unknownTag found
      else match rest with
        | [] => .sizeMismatch 9 8
        | byte :: later =>
          if 7 < byte then .unknownVariant 8 byte
          else .sizeMismatch (9 + payloadWidths.getD byte.toNat 0) (9 + later.length) := by
  have width : (Word.u64.bytes found).length = 8 := Word.length_bytes ..
  have front : Word.u64.ofBytes ((Word.u64.bytes found ++ rest).take 8) = found := by
    rw [List.take_left' width, Word.ofBytes_bytes]
  have next : (Word.u64.bytes found ++ rest)[8]? = rest[0]? := by
    rw [List.getElem?_append_right (by omega), width]
  have long : ¬ (Word.u64.bytes found ++ rest).length < 8 := by
    rw [List.length_append]
    omega
  rw [refusal, if_neg long, front, next]
  cases rest with
  | nil => rfl
  | cons byte later =>
    have length : (Word.u64.bytes found ++ byte :: later).length = 9 + later.length := by
      rw [List.length_append, List.length_cons, width]
      omega
    simp only [List.getElem?_cons_zero, length]

theorem holds_or_refused (bytes : Bytes) :
    (∃ request, encodeTagged request <+: bytes) ∨ decodeTagged bytes = .error (refusal bytes) := by
  rcases Nat.lt_or_ge bytes.length 8 with few | enough
  · right
    rw [decodeTagged_of_short few, refusal, if_pos few]
  obtain ⟨found, rest, rfl⟩ := Layout.exists_encode_append (l := .u64) trivial enough
  rw [Layout.encode_word, refusal_append]
  by_cases known : found = tag
  · subst known
    rw [if_neg (not_not_intro rfl)]
    cases rest with
    | nil =>
      right
      rw [List.append_nil, decodeTagged_of_tag_only]
    | cons byte later =>
      cases named : Kind.code.ofByte? byte with
      | none =>
        have unknown := Kind.ofByte?_eq_none_iff.mp named
        right
        rw [decodeTagged_of_unknown unknown]
        exact congrArg Except.error (if_pos unknown).symm
      | some k =>
        obtain rfl : k.toByte = byte := Kind.code.toByte_of_ofByte? byte k named
        rcases Nat.lt_or_ge later.length k.layout.size with few | enough
        · right
          rw [decodeTagged_of_payload k few, ← k.payloadWidths_getD]
          exact congrArg Except.error (if_neg k.toByte_le).symm
        · obtain ⟨values, after, rfl⟩ := Layout.exists_encode_append k.plain_layout enough
          refine .inl ⟨fields.forth ⟨k, values⟩, after, ?_⟩
          rw [encodeTagged_eq, encode_forth, List.append_assoc, List.cons_append]
  · right
    rw [decodeTagged_of_other_tag known, if_pos known]

/-! ### What is accepted -/

theorem not_prefix_of_refused {fault : Fault} (refused : decodeTagged bytes = .error fault) :
    ¬ encodeTagged request <+: bytes := by
  rintro ⟨rest, rfl⟩
  rw [decodeTagged_append] at refused
  cases refused

theorem decodeTagged_eq_ok_iff : decodeTagged bytes = .ok request ↔ encodeTagged request <+: bytes := by
  constructor
  · intro decoded
    rcases holds_or_refused bytes with ⟨held, rest, rfl⟩ | refused
    · rw [decodeTagged_append] at decoded
      obtain rfl := Except.ok.inj decoded
      exact List.prefix_append ..
    · rw [refused] at decoded
      cases decoded
  · rintro ⟨rest, rfl⟩
    exact decodeTagged_append request rest

/-- Requests are decoded from their encodings and from nothing else, each encoding is as long as it is said to be and
begins no other one, and whatever does not begin with a request is refused for the first thing that is wrong with it. -/
theorem decodes_exactly_tagged_requests :
    (∀ bytes request, decodeTagged bytes = .ok request ↔ encodeTagged request <+: bytes) ∧
    (∀ request, (encodeTagged request).length = 8 + format.encodedLength request) ∧
    (∀ bytes, (¬ ∃ request, encodeTagged request <+: bytes) ↔ decodeTagged bytes = .error (refusal bytes)) ∧
    (∀ request other, encodeTagged request <+: encodeTagged other ↔ request = other) := by
  refine ⟨fun bytes request => decodeTagged_eq_ok_iff, length_encodeTagged, fun bytes => ?refused,
    fun request other => ?distinct⟩
  case refused =>
    constructor
    · exact (holds_or_refused bytes).resolve_left
    · rintro refused ⟨request, front⟩
      exact not_prefix_of_refused refused front
  case distinct =>
    have whole : decodeTagged (encodeTagged other) = .ok other := decodeTagged_eq_ok_iff.mpr List.prefix_rfl
    rw [← decodeTagged_eq_ok_iff, whole, Except.ok.injEq, eq_comm]

end StakePool.AdminRequest
