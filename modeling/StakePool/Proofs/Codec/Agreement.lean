import StakePool.Account.Mint
import StakePool.Account.RewardVendor
import StakePool.Account.Token
import StakePool.Account.Vesting
import StakePool.Proofs.Codec.Checks
import StakePool.Proofs.Codec.Truncation
import StakePool.Ring.Basic

/-!
# The bytes of a layout decide

As many bytes as a layout is wide hold a value, or one of their parts is refused; where they stand and what follows
them makes no difference (`Layout.decided`). So the decoder that cuts off what follows, the one that leaves it alone and
the one that allows nothing to follow agree: `Layout.decoders_agree`.
-/

namespace StakePool

theorem exists_append_of_length {α : Type} {front : List α} {m n : Nat} (sized : front.length = m + n) :
    ∃ left right, front = left ++ right ∧ left.length = m ∧ right.length = n := by
  refine ⟨front.take m, front.drop m, (List.take_append_drop ..).symm, ?_, ?_⟩
  · rw [List.length_take, sized]
    exact Nat.min_eq_left (Nat.le_add_right ..)
  · rw [List.length_drop, sized, Nat.add_sub_cancel_left]

/-! ### What stands in front -/

namespace Layout

variable {α β : Type} {front : Bytes}

/-- The bytes hold a value, or a part of them that starts at some position is refused, wherever they are read from. -/
def DecidedBy (l : Layout α) (front : Bytes) : Prop :=
  (∃ a, ∀ offset rest, offset + l.size < addressLimit →
    l.read ⟨offset, front ++ rest⟩ = .ok a ⟨offset + l.size, rest⟩) ∨
  ∃ position field value, position < l.size ∧ ∀ offset rest, offset + l.size < addressLimit →
    ∃ r', l.read ⟨offset, front ++ rest⟩ = .error (.fieldOutOfRange (offset + position) field value) r'

theorem decided_code (field : String) (c : ByteCode α) (sized : front.length = 1) : (code field c).DecidedBy front := by
  have read (offset : Nat) (rest : Bytes) (bound : offset + 1 < addressLimit) :=
    Read.word_stored Word.u8 sized (show offset + Word.u8.width < addressLimit from bound) rest
  cases known : c.ofByte? (Word.u8.ofBytes front) with
  | some a => exact .inl ⟨a, fun offset rest bound => Read.code_of_known (read offset rest bound) known⟩
  | none =>
    refine .inr ⟨0, field, (Word.u8.ofBytes front).toUInt32, Nat.one_pos, fun offset rest bound => ?_⟩
    exact ⟨_, Read.code_of_unknown (read offset rest bound) known⟩

theorem decided_optional {presence : Presence} {payload : Layout α}
    (decided : ∀ {front : Bytes}, front.length = payload.size → payload.DecidedBy front)
    (sized : front.length = presence.width + payload.size) : (optional presence payload).DecidedBy front := by
  obtain ⟨mark, body, rfl, markSized, bodySized⟩ := exists_append_of_length sized
  have read (offset : Nat) (rest : Bytes) (bound : offset + (presence.width + payload.size) < addressLimit) :
      presence.read ⟨offset, mark ++ body ++ rest⟩ =
        .ok (.ofNat (Bytes.ofLittleEndian mark)) ⟨offset + presence.width, body ++ rest⟩ := by
    rw [List.append_assoc]
    exact presence.read_stored markSized (by omega) _
  have later {offset : Nat} (bound : offset + (presence.width + payload.size) < addressLimit) :
      offset + presence.width + payload.size < addressLimit := by omega
  generalize UInt32.ofNat (Bytes.ofLittleEndian mark) = value at read
  by_cases absent : value = 0
  · subst absent
    refine .inl ⟨none, fun offset rest bound => ?_⟩
    rw [read_optional_absent (read offset rest bound), size, ← Nat.add_assoc]
    exact Read.bind_of_ok (Read.skip_append bodySized (later bound) rest)
  by_cases present : value = 1
  · subst present
    rcases decided bodySized with ⟨a, held⟩ | ⟨position, field, value, inside, refused⟩
    · refine .inl ⟨some a, fun offset rest bound => ?_⟩
      rw [read_optional_present (read offset rest bound), size, ← Nat.add_assoc]
      exact Read.bind_of_ok (held _ rest (later bound))
    · refine .inr ⟨presence.width + position, field, value, Nat.add_lt_add_left inside _, fun offset rest bound => ?_⟩
      obtain ⟨r', failed⟩ := refused _ rest (later bound)
      rw [read_optional_present (read offset rest bound), ← Nat.add_assoc]
      exact ⟨r', Read.bind_of_error failed _⟩
  · refine .inr ⟨0, presence.field, value, ?_, fun offset rest bound => ?_⟩
    · cases presence with
      | byte => exact Nat.lt_add_right _ Nat.one_pos
      | word => exact Nat.lt_add_right _ (by decide)
    · exact ⟨_, read_optional_refused (read offset rest bound) absent present⟩

theorem decided_pair {first : Layout α} {second : Layout β}
    (decidedFirst : ∀ {front : Bytes}, front.length = first.size → first.DecidedBy front)
    (decidedSecond : ∀ {front : Bytes}, front.length = second.size → second.DecidedBy front)
    (sized : front.length = first.size + second.size) : (pair first second).DecidedBy front := by
  obtain ⟨left, right, rfl, leftSized, rightSized⟩ := exists_append_of_length sized
  rcases decidedFirst leftSized with ⟨a, held⟩ | ⟨position, field, value, inside, refused⟩
  · rcases decidedSecond rightSized with ⟨b, heldToo⟩ | ⟨position, field, value, inside, refused⟩
    · refine .inl ⟨(a, b), fun offset rest bound => ?_⟩
      simp only [size, ← Nat.add_assoc] at bound ⊢
      rw [List.append_assoc, Layout.read, Read.bind_of_ok (held offset _ (by omega)),
        Read.bind_of_ok (heldToo _ rest bound)]
      rfl
    · refine .inr ⟨first.size + position, field, value, Nat.add_lt_add_left inside _, fun offset rest bound => ?_⟩
      simp only [size, ← Nat.add_assoc] at bound ⊢
      obtain ⟨r', failed⟩ := refused _ rest bound
      rw [List.append_assoc, Layout.read, Read.bind_of_ok (held offset _ (by omega)), Read.bind_of_error failed]
      exact ⟨r', rfl⟩
  · refine .inr ⟨position, field, value, Nat.lt_add_right _ inside, fun offset rest bound => ?_⟩
    rw [size, ← Nat.add_assoc] at bound
    obtain ⟨r', failed⟩ := refused offset (right ++ rest) (by omega)
    rw [List.append_assoc, Layout.read, Read.bind_of_error failed]
    exact ⟨r', rfl⟩

/-- As many bytes as a layout is wide decide what reading them comes to. -/
theorem decided (l : Layout α) (sized : front.length = l.size) : l.DecidedBy front := by
  induction l generalizing front with
  | empty =>
    obtain rfl := List.eq_nil_of_length_eq_zero sized
    exact .inl ⟨(), fun _ _ _ => rfl⟩
  | word w => exact .inl ⟨w.ofBytes front, fun _ rest bound => Read.word_stored w sized bound rest⟩
  | code field c => exact decided_code field c sized
  | block n => exact .inl ⟨⟨front, sized⟩, fun _ rest bound => Read.block_append ⟨front, sized⟩ bound rest⟩
  | optional presence payload ih => exact decided_optional ih sized
  | pair first second ihFirst ihSecond => exact decided_pair ihFirst ihSecond sized
  | via bijection inner ih =>
    rcases ih sized with ⟨a, held⟩ | ⟨position, field, value, inside, refused⟩
    · exact .inl ⟨bijection.forth a, fun offset rest bound => Read.bind_of_ok (held offset rest bound)⟩
    · refine .inr ⟨position, field, value, inside, fun offset rest bound => ?_⟩
      obtain ⟨r', failed⟩ := refused offset rest bound
      exact ⟨r', Read.bind_of_error failed _⟩

/-! ### Three decoders -/

variable {l : Layout α} {bytes : Bytes}

theorem decode_of_short (short : bytes.length < l.size) :
    l.decode bytes = .error (.sizeMismatch l.size bytes.length) := if_pos short

theorem decode_of_read {a : α} {r : Reader} (enough : l.size ≤ bytes.length)
    (read : l.read (.ofBytes (bytes.take l.size)) = .ok a r) : l.decode bytes = .ok a := by
  rw [decode, if_neg (Nat.not_lt.mpr enough), read]

theorem decode_of_read_error {fault : Fault} {r : Reader} (enough : l.size ≤ bytes.length)
    (failed : l.read (.ofBytes (bytes.take l.size)) = .error fault r) : l.decode bytes = .error fault := by
  rw [decode, if_neg (Nat.not_lt.mpr enough), failed]

/-- What a layout makes of a byte string, read with or without what lies behind its own bytes. -/
theorem decode_cases (small : l.size < addressLimit) (enough : l.size ≤ bytes.length) :
    (∃ a, l.decode bytes = .ok a ∧ (Format.fixed l).decodePrefix bytes = .ok a ∧
      l.read (.ofBytes (bytes.take l.size)) = .ok a (.atOffset (bytes.take l.size) l.size) ∧
      l.read (.ofBytes bytes) = .ok a (.atOffset bytes l.size)) ∨
    ∃ position field value, position < l.size ∧ l.decode bytes = .error (.fieldOutOfRange position field value) ∧
      (Format.fixed l).decodePrefix bytes = .error (.fieldOutOfRange position field value) := by
  have bound : 0 + l.size < addressLimit := by omega
  have alone : Reader.ofBytes (bytes.take l.size) = ⟨0, bytes.take l.size ++ []⟩ := by
    rw [List.append_nil, Reader.ofBytes]
  have whole : Reader.ofBytes bytes = ⟨0, bytes.take l.size ++ bytes.drop l.size⟩ := by
    rw [List.take_append_drop, Reader.ofBytes]
  rcases l.decided (List.length_take_of_le enough) with ⟨a, held⟩ | ⟨position, field, value, inside, refused⟩
  · have readAlone := held 0 [] bound
    have readWhole := held 0 (bytes.drop l.size) bound
    rw [Nat.zero_add] at readAlone readWhole
    rw [← alone] at readAlone
    rw [← whole] at readWhole
    refine .inl ⟨a, decode_of_read enough readAlone, Format.decodePrefix_eq_ok_iff_read.mpr ⟨_, readWhole⟩, ?_,
      readWhole⟩
    rw [readAlone, Reader.atOffset, List.drop_of_length_le (List.length_take_le ..)]
  · obtain ⟨r, failedAlone⟩ := refused 0 [] bound
    obtain ⟨r', failedWhole⟩ := refused 0 (bytes.drop l.size) bound
    rw [Nat.zero_add] at failedAlone failedWhole
    rw [← alone] at failedAlone
    rw [← whole] at failedWhole
    exact .inr ⟨position, field, value, inside, decode_of_read_error enough failedAlone,
      Format.decodePrefix_of_error failedWhole⟩

/-- Too few bytes hold no value. -/
theorem size_le_of_decodePrefix {a : α} (decoded : (Format.fixed l).decodePrefix bytes = .ok a) :
    l.size ≤ bytes.length := by
  obtain ⟨r, read⟩ := Format.decodePrefix_eq_ok_iff_read.mp decoded
  obtain ⟨passed, held, moved, -⟩ := l.local_read read
  have filled : 0 + l.size = 0 + passed.length := (passed_of_read read).offset_eq.symm.trans moved
  have length : bytes.length = passed.length + r.rest.length := (congrArg List.length held).trans List.length_append
  omega

theorem decode_congr {other : Bytes} (enough : l.size ≤ bytes.length) (same : other.take l.size = bytes.take l.size) :
    l.decode other = l.decode bytes := by
  have length := congrArg List.length same
  rw [List.length_take_of_le enough, List.length_take] at length
  rw [decode, decode, same, if_neg (by omega), if_neg (by omega)]

/-- Enough bytes mean the same to every decoder, by the bytes of the layout alone, and they never run short. Too few
bytes are no value to any decoder, and one that wants nothing else refuses every other length. The bound holds of every
layout that has a size in bytes; those of the records are what they are declared to be. -/
theorem decoders_agree :
    (Vesting.layout.size = 210 ∧ RewardVendor.layout.size = 86 ∧ Mint.layout.size = 82 ∧
      TokenAccount.layout.size = 165 ∧ RingHeader.layout.size = 36) ∧
    ∀ {α : Type} (l : Layout α) (bytes : Bytes), l.size < addressLimit →
      (l.size ≤ bytes.length →
        (Format.fixed l).decodePrefix bytes = l.decode bytes ∧
        (∀ other, other.take l.size = bytes.take l.size →
          l.decode other = l.decode bytes ∧ (Format.fixed l).decodePrefix other = l.decode bytes) ∧
        (∀ a, l.decode bytes = .ok a →
          l.read (.ofBytes (bytes.take l.size)) = .ok a (.atOffset (bytes.take l.size) l.size) ∧
          l.read (.ofBytes bytes) = .ok a (.atOffset bytes l.size)) ∧
        ∀ expected actual, l.decode bytes ≠ .error (.sizeMismatch expected actual)) ∧
      (bytes.length < l.size →
        l.decode bytes = .error (.sizeMismatch l.size bytes.length) ∧
        ∀ a, (Format.fixed l).decodePrefix bytes ≠ .ok a) ∧
      (bytes.length = l.size → l.decodeExact bytes = l.decode bytes) ∧
      (bytes.length ≠ l.size → l.decodeExact bytes = .error (.sizeMismatch l.size bytes.length)) := by
  refine ⟨⟨Vesting.size_layout, RewardVendor.size_layout, Mint.size_layout, TokenAccount.size_layout,
    RingHeader.size_layout⟩, fun l bytes small => ⟨fun enough => ?enough, fun short => ?short, fun sized => if_pos sized,
    decodeExact_of_wrong_length⟩⟩
  case enough =>
    have agree {bytes : Bytes} (enough : l.size ≤ bytes.length) :
        (Format.fixed l).decodePrefix bytes = l.decode bytes := by
      rcases decode_cases small enough with ⟨a, decoded, front, -⟩ | ⟨_, _, _, -, refused, front⟩
      · rw [decoded, front]
      · rw [refused, front]
    refine ⟨agree enough, fun other same => ?_, fun a decoded => ?_, fun expected actual failed => ?_⟩
    · have length := congrArg List.length same
      rw [List.length_take_of_le enough, List.length_take] at length
      have alike := decode_congr enough same
      exact ⟨alike, (agree (by omega)).trans alike⟩
    · rcases decode_cases small enough with ⟨b, decodedToo, -, alone, whole⟩ | ⟨_, _, _, -, refused, -⟩
      · obtain rfl := Except.ok.inj (decoded.symm.trans decodedToo)
        exact ⟨alone, whole⟩
      · cases decoded.symm.trans refused
    · rcases decode_cases small enough with ⟨b, decoded, -⟩ | ⟨_, _, _, -, refused, -⟩
      · cases failed.symm.trans decoded
      · cases failed.symm.trans refused
  case short =>
    exact ⟨decode_of_short short, fun a decoded => Nat.not_le.mpr short (size_le_of_decodePrefix decoded)⟩

/-- A flag in an optional part of an optional part, with a byte behind it. -/
theorem decoders_agree_nested :
    let l : Layout (Option (Option Bool)) := .wideOption (.option (.flag "bool"))
    let refused : Bytes := [1, 0, 0, 0, 1, 7, 9]
    let absent : Bytes := [1, 0, 0, 0, 0, 7, 9]
    l.size < addressLimit ∧
    l.decode refused = .error (.fieldOutOfRange 5 "bool" 7) ∧
    (Format.fixed l).decodePrefix refused = .error (.fieldOutOfRange 5 "bool" 7) ∧
    l.decode absent = .ok (some none) ∧ l.read (.ofBytes absent) = .ok (some none) (.atOffset absent 6) ∧
    l.decode (absent.take 5) = .error (.sizeMismatch 6 5) := by
  intro l refused absent
  have small : l.size < addressLimit := by decide
  have wrong : l.decode refused = .error (.fieldOutOfRange 5 "bool" 7) := rfl
  have right : l.decode absent = .ok (some none) := rfl
  obtain ⟨enough, -⟩ := decoders_agree.2 l refused small
  obtain ⟨enoughToo, -⟩ := decoders_agree.2 l absent small
  obtain ⟨-, short, -⟩ := decoders_agree.2 l (absent.take 5) small
  exact ⟨small, wrong, (enough (by decide)).1.trans wrong, right, ((enoughToo (by decide)).2.2.1 _ right).2,
    (short (by decide)).1⟩

end Layout

end StakePool
