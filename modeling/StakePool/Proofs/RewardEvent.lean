import StakePool.Proofs.Codec.Plain
import StakePool.Proofs.Ring.Polling
import StakePool.RewardQueue

/-!
# Reward events in bytes and in slots

A byte string starts with the bytes of an event, or with a byte that names no kind, or it ends too early:
`RewardEvent.holds_or_refused`. So events are read from their encodings and from nothing else. The events that a slot
can hold are those that a queue takes (`RewardQueue.exists_slot_iff`), so that what one queue hands out another can take.
-/

namespace StakePool

namespace RewardEvent

variable {bytes rest slot : Bytes} {event other : RewardEvent} {byte : UInt8}

/-! ### Encodings -/

theorem encode_eq (k : Kind) (values : k.Fields) :
    format.encode (fields.forth ⟨k, values⟩) = k.toByte :: (Kind.format k).encode values := by
  rw [format, Format.encode_via, fields.back_forth, Format.encode_variant]
  cases k with
  | poolDrop => rfl
  | lockedAlloc => rfl

theorem fits_iff (k : Kind) (values : k.Fields) :
    format.Fits (fields.forth ⟨k, values⟩) ↔ (Kind.format k).Fits values := by
  rw [format, Format.Fits, fields.back_forth, Format.Fits]

theorem plain_format (k : Kind) : (Kind.format k).Plain := by
  cases k with
  | poolDrop => exact ⟨trivial, trivial, trivial⟩
  | lockedAlloc => exact ⟨trivial, trivial, trivial, trivial, trivial, trivial⟩

/-- No address is too small for an event: a count has four bytes. -/
theorem widest_format_lt (k : Kind) : 1 + (Kind.format k).widest < addressLimit := by
  cases k with
  | poolDrop => decide
  | lockedAlloc => decide

theorem encodedLength_lt (fits : format.Fits event) : format.encodedLength event < addressLimit := by
  obtain ⟨⟨k, values⟩, rfl⟩ : ∃ x, fields.forth x = event := ⟨_, fields.forth_back event⟩
  have width := Format.encodedLength_le_widest (plain_format k) ((fits_iff k values).mp fits)
  have small := widest_format_lt k
  rw [← Format.length_encode, encode_eq, List.length_cons, Format.length_encode]
  omega

theorem decodePrefix_append (fits : format.Fits event) (rest : Bytes) :
    format.decodePrefix (format.encode event ++ rest) = .ok event :=
  format.decodePrefix_encode_append event fits (encodedLength_lt fits) rest

/-! ### What is refused -/

theorem ofByte?_eq_none_iff : Kind.code.ofByte? byte = none ↔ 1 < byte := by
  have found : Kind.code.ofByte? byte = [Kind.poolDrop, Kind.lockedAlloc].find? fun k => k.toByte == byte := rfl
  rw [found, List.find?_eq_none]
  simp [Kind.toByte, UInt8.lt_iff_toNat_lt, ← UInt8.toNat_inj]
  omega

theorem decodePrefix_of_error {fault : Fault} {r : Reader}
    (failed : (Format.variant Kind.code Kind.format).read (.ofBytes bytes) = .error fault r) :
    format.decodePrefix bytes = .error fault := by
  rw [Format.decodePrefix, format, Format.read, Read.bind_of_error failed]

theorem decodePrefix_of_unknown (unknown : 1 < byte) (rest : Bytes) :
    format.decodePrefix (byte :: rest) = .error (.unknownVariant 0 byte) :=
  decodePrefix_of_error (Format.read_variant_of_unknown (Read.word_cons byte (by decide) rest) (ofByte?_eq_none_iff.mpr unknown))

theorem decodePrefix_of_short (short : Read.Short (Format.variant Kind.code Kind.format).read (.ofBytes bytes)) :
    ∃ expected, format.decodePrefix bytes = .error (.sizeMismatch expected bytes.length) ∧ bytes.length < expected := by
  obtain ⟨expected, r, failed, more⟩ := short
  have size : (Reader.ofBytes bytes).size = bytes.length := Nat.zero_add _
  rw [size] at failed more
  exact ⟨expected, decodePrefix_of_error failed, more⟩

theorem holds_or_refused (bytes : Bytes) :
    (∃ event rest, format.Fits event ∧ bytes = format.encode event ++ rest) ∨
    (∃ byte rest, bytes = byte :: rest ∧ 1 < byte) ∨
    (∃ expected, format.decodePrefix bytes = .error (.sizeMismatch expected bytes.length) ∧
      bytes.length < expected) := by
  cases bytes with
  | nil =>
    obtain ⟨expected, r, failed, more⟩ : Read.Short (Read.word Word.u8) (.ofBytes []) :=
      Read.short_word (by decide) (by decide)
    exact .inr (.inr (decodePrefix_of_short ⟨expected, r, Format.read_variant_of_error failed, more⟩))
  | cons byte rest =>
    cases known : Kind.code.ofByte? byte with
    | none => exact .inr (.inl ⟨byte, rest, rfl, ofByte?_eq_none_iff.mp known⟩)
    | some k =>
      have opened : (Format.variant Kind.code Kind.format).read (.ofBytes (byte :: rest)) =
          (do return ⟨k, ← (Kind.format k).read⟩ : Read ((k : Kind) × k.Fields)) ⟨1, rest⟩ :=
        Format.read_variant_of_known (Read.word_cons byte (by decide) rest) known
      rcases Format.holds_or_short (r := ⟨1, rest⟩) (plain_format k) (widest_format_lt k) with
        ⟨values, later, fits, held⟩ | short
      · refine .inl ⟨fields.forth ⟨k, values⟩, later, (fits_iff k values).mpr fits, ?_⟩
        obtain rfl : rest = (Kind.format k).encode values ++ later := held
        obtain rfl : k.toByte = byte := Kind.code.toByte_of_ofByte? byte k known
        rw [encode_eq, List.cons_append]
      · obtain ⟨expected, r, failed, more⟩ := Read.short_bind short fun values =>
          (return ⟨k, values⟩ : Read ((k : Kind) × k.Fields))
        have size : Reader.size ⟨1, rest⟩ = Reader.size (.ofBytes (byte :: rest)) := by
          simp only [Reader.size, Reader.remaining, Reader.ofBytes, List.length_cons]
          omega
        rw [size] at failed more
        exact .inr (.inr (decodePrefix_of_short ⟨expected, r, opened.trans failed, more⟩))

/-! ### What is accepted -/

theorem decodePrefix_eq_ok_iff :
    format.decodePrefix bytes = .ok event ↔ format.Fits event ∧ format.encode event <+: bytes := by
  constructor
  · intro decoded
    rcases holds_or_refused bytes with ⟨held, rest, fits, rfl⟩ | ⟨byte, rest, rfl, unknown⟩ | ⟨expected, refused, -⟩
    · rw [decodePrefix_append fits] at decoded
      obtain rfl := Except.ok.inj decoded
      exact ⟨fits, List.prefix_append ..⟩
    · rw [decodePrefix_of_unknown unknown] at decoded
      cases decoded
    · rw [refused] at decoded
      cases decoded
  · rintro ⟨fits, rest, rfl⟩
    exact decodePrefix_append fits rest

/-- No encoding stands at the front of another one. -/
theorem eq_of_encode_prefix (fits : format.Fits event) (fitsToo : format.Fits other)
    (front : format.encode event <+: format.encode other) : event = other := by
  have part := decodePrefix_eq_ok_iff.mpr ⟨fits, front⟩
  have whole := decodePrefix_eq_ok_iff.mpr ⟨fitsToo, List.prefix_rfl⟩
  exact Except.ok.inj (part.symm.trans whole)

/-- Totals that outnumber what a count can say take more than 32 GiB. -/
theorem fits_of_length_le (short : (format.encode event).length ≤ 0x800000000) : format.Fits event := by
  rw [Format.length_encode] at short
  cases event with
  | poolDrop sender totals pool =>
    have counted : 1 + (32 + (4 + totals.length * 8 + 32)) ≤ 0x800000000 := short
    exact ⟨trivial, show totals.length ≤ 0xffffffff by omega, trivial⟩
  | lockedAlloc => trivial

theorem decodePrefix_eq_ok_iff_of_short (short : bytes.length ≤ 0x800000000) :
    format.decodePrefix bytes = .ok event ↔ format.encode event <+: bytes := by
  rw [decodePrefix_eq_ok_iff, and_iff_right_iff_imp]
  exact fun front => fits_of_length_le (Nat.le_trans front.length_le short)

/-! ### Slots -/

def FitsSlot (event : RewardEvent) : Prop :=
  (RewardEvent.format.encode event).length ≤ RewardQueue.slotSize

instance (event : RewardEvent) : Decidable event.FitsSlot := inferInstanceAs (Decidable (_ ≤ _))

theorem fits_of_fitsSlot (short : event.FitsSlot) : format.Fits event :=
  fits_of_length_le (Nat.le_trans short (by decide))

theorem fitsSlot_poolDrop_iff {sender pool : Pubkey} {totals : List UInt64} :
    (poolDrop sender totals pool).FitsSlot ↔ totals.length ≤ RewardQueue.maxPoolDropAssets := by
  rw [FitsSlot, Format.length_encode]
  show 1 + (32 + (4 + totals.length * 8 + 32)) ≤ 145 ↔ totals.length ≤ 9
  omega

end RewardEvent

/-! ### The queue -/

namespace RewardQueue

variable {queue queue' : RewardQueue} {event : RewardEvent} {cursor : UInt32} {slot : Bytes}

theorem fitsSlot_of_decodeSlot (sized : slot.length = slotSize) (decoded : decodeSlot slot = .ok event) :
    event.FitsSlot := by
  have front := (RewardEvent.decodePrefix_eq_ok_iff.mp decoded).2.length_le
  rwa [sized] at front

/-- The events that some slot holds are those whose bytes fit a slot. -/
theorem exists_slot_iff : (∃ slot, slot.length = slotSize ∧ decodeSlot slot = .ok event) ↔ event.FitsSlot := by
  constructor
  · rintro ⟨slot, sized, decoded⟩
    exact fitsSlot_of_decodeSlot sized decoded
  · intro short
    exact ⟨Bytes.padTo slotSize (RewardEvent.format.encode event), Bytes.length_padTo short,
      RewardEvent.decodePrefix_append (RewardEvent.fits_of_fitsSlot short) _⟩

theorem append_eq_ok_iff :
    append queue event = .ok (cursor, queue') ↔
      event.FitsSlot ∧ (Ring.head queue).toNat < 0xffffffff ∧ cursor = Ring.head queue ∧
        queue' = Ring.store queue (Bytes.padTo slotSize (RewardEvent.format.encode event)) :=
  Ring.push_eq_ok_iff

theorem exists_append_iff (room : (Ring.head queue).toNat < 0xffffffff) :
    (∃ cursor queue', append queue event = .ok (cursor, queue')) ↔ event.FitsSlot := by
  constructor
  · rintro ⟨cursor, queue', taken⟩
    exact (append_eq_ok_iff.mp taken).1
  · exact fun short => ⟨_, _, append_eq_ok_iff.mpr ⟨short, room, rfl, rfl⟩⟩

/-- An event that was taken is what the queue hands out from its cursor on. -/
theorem eventsSince_of_append (taken : append queue event = .ok (cursor, queue')) :
    ∃ entries, eventsSince queue' cursor = .ok entries ∧ entries.toList = [.ok event] := by
  obtain ⟨short, room, rfl, rfl⟩ := append_eq_ok_iff.mp taken
  have fits := RewardEvent.fits_of_fitsSlot short
  obtain ⟨entries, opened, all⟩ := Ring.entriesSince_store queue short room decodeSlot
  have decoded := Ring.decodeItem_padTo queue RewardEvent.format event fits short (Ring.head queue)
  exact ⟨entries, opened, all.trans (congrArg (fun item => [item]) decoded)⟩

theorem fitsSlot_of_mem {entries : Entries capacity slotSize RewardEvent} (ordered : entries.next ≤ entries.stop)
    (decoder : entries.decoder = decodeSlot) (member : .ok event ∈ entries.toList) : event.FitsSlot := by
  obtain ⟨index, decoded⟩ := Entries.exists_slotBytes_of_mem ordered member
  rw [decoder] at decoded
  exact fitsSlot_of_decodeSlot (Ring.length_slotBytes _ _) decoded

theorem fitsSlot_of_mem_events (member : .ok event ∈ (events queue).toList) : event.FitsSlot := by
  have ordered : (events queue).next ≤ (events queue).stop := Ring.tail_le_head queue
  exact fitsSlot_of_mem ordered rfl member

theorem fitsSlot_of_mem_eventsSince {entries : Entries capacity slotSize RewardEvent}
    (opened : eventsSince queue cursor = .ok entries) (member : .ok event ∈ entries.toList) : event.FitsSlot := by
  obtain ⟨within, rfl⟩ := Ring.entriesSince_eq_ok opened
  exact fitsSlot_of_mem within rfl member

/-- Whatever one queue hands out, another one takes and hands out again. -/
theorem replay (short : event.FitsSlot) (room : (Ring.head queue).toNat < 0xffffffff) :
    ∃ cursor queue' entries, append queue event = .ok (cursor, queue') ∧ eventsSince queue' cursor = .ok entries ∧
      entries.toList = [.ok event] := by
  obtain ⟨cursor, queue', taken⟩ := (exists_append_iff room).mpr short
  obtain ⟨entries, opened, all⟩ := eventsSince_of_append taken
  exact ⟨cursor, queue', entries, taken, opened, all⟩

end RewardQueue

/-- Events are read from their encodings and from nothing else, and what is refused names no kind or ends too early. The
events that a slot holds are those that a queue takes, so every event that is read from a queue can be replayed. -/
theorem RewardEvent.decodes_exactly_encodings :
    (∀ bytes event, format.decodePrefix bytes = .ok event ↔ format.Fits event ∧ format.encode event <+: bytes) ∧
    (∀ bytes event, bytes.length ≤ 0x800000000 →
      (format.decodePrefix bytes = .ok event ↔ format.encode event <+: bytes)) ∧
    (∀ event other, format.Fits event → format.Fits other → format.encode event <+: format.encode other →
      event = other) ∧
    (∀ byte rest, 1 < byte → format.decodePrefix (byte :: rest) = .error (.unknownVariant 0 byte)) ∧
    (∀ bytes, (∀ byte rest, bytes = byte :: rest → byte ≤ 1) → (∀ event, format.decodePrefix bytes ≠ .ok event) →
      ∃ expected, format.decodePrefix bytes = .error (.sizeMismatch expected bytes.length) ∧
        bytes.length < expected) ∧
    RewardQueue.maxPoolDropAssets = 9 ∧
    (∀ slot sender totals pool, slot.length = RewardQueue.slotSize →
      RewardQueue.decodeSlot slot = .ok (.poolDrop sender totals pool) →
      totals.length ≤ RewardQueue.maxPoolDropAssets) ∧
    (∀ (queue : RewardQueue) event, Ring.head queue < 0xffffffff →
      ((∃ slot, slot.length = RewardQueue.slotSize ∧ RewardQueue.decodeSlot slot = .ok event) ↔
        ∃ cursor queue', RewardQueue.append queue event = .ok (cursor, queue'))) ∧
    (∀ (source target : RewardQueue) event,
      (.ok event ∈ (RewardQueue.events source).toList ∨
        ∃ since entries, RewardQueue.eventsSince source since = .ok entries ∧ .ok event ∈ entries.toList) →
      Ring.head target < 0xffffffff →
      ∃ cursor target' entries, RewardQueue.append target event = .ok (cursor, target') ∧
        RewardQueue.eventsSince target' cursor = .ok entries ∧ entries.toList = [.ok event]) := by
  refine ⟨fun bytes event => decodePrefix_eq_ok_iff, fun bytes event => decodePrefix_eq_ok_iff_of_short,
    fun event other => eq_of_encode_prefix, fun byte rest unknown => decodePrefix_of_unknown unknown rest,
    fun bytes known refused => ?short, rfl, fun slot sender totals pool sized decoded => ?drops,
    fun queue event room => ?slots, fun source target event read room => ?replay⟩
  case short =>
    rcases holds_or_refused bytes with ⟨event, rest, fits, rfl⟩ | ⟨byte, rest, rfl, unknown⟩ | short
    · exact absurd (decodePrefix_append fits rest) (refused event)
    · exact absurd unknown (UInt8.not_lt.mpr (known byte rest rfl))
    · exact short
  case drops => exact fitsSlot_poolDrop_iff.mp (RewardQueue.fitsSlot_of_decodeSlot sized decoded)
  case slots =>
    rw [RewardQueue.exists_slot_iff, RewardQueue.exists_append_iff (UInt32.lt_iff_toNat_lt.mp room)]
  case replay =>
    have short : event.FitsSlot := by
      rcases read with member | ⟨since, entries, opened, member⟩
      · exact RewardQueue.fitsSlot_of_mem_events member
      · exact RewardQueue.fitsSlot_of_mem_eventsSince opened member
    exact RewardQueue.replay short (UInt32.lt_iff_toNat_lt.mp room)

/-- Nine totals leave four bytes of a slot, which may be anything. -/
theorem RewardEvent.decodes_exactly_encodings_nine_totals :
    let drop : RewardEvent := .poolDrop default (List.replicate 9 7) default
    let slot : Bytes := format.encode drop ++ [1, 2, 3, 4]
    slot.length = RewardQueue.slotSize ∧ RewardQueue.decodeSlot slot = .ok drop ∧
    ∃ queue : RewardQueue, Ring.head queue < 0xffffffff ∧
      ∃ cursor queue', RewardQueue.append queue drop = .ok (cursor, queue') := by
  intro drop slot
  have sized : slot.length = RewardQueue.slotSize := by decide +kernel
  have fits : format.Fits drop := ⟨trivial, show 9 ≤ 0xffffffff by decide, trivial⟩
  obtain ⟨accepted, -, -, -, -, -, -, slots, -⟩ := decodes_exactly_encodings
  have decoded := (accepted slot drop).mpr ⟨fits, List.prefix_append ..⟩
  have whole : Ring.validate (Bytes.zeros RewardQueue.accountSize).length RewardQueue.capacity RewardQueue.slotSize =
      .ok () := by
    rw [Bytes.length_zeros]
    exact RewardQueue.validate_accountSize
  obtain ⟨queue, opened⟩ := Ring.exists_ofBytes whole
  have empty : Ring.head queue = 0 := Ring.head_of_zeros (Ring.toBytes_of_ofBytes opened)
  have room : Ring.head queue < 0xffffffff := by
    rw [empty]
    decide
  exact ⟨sized, decoded, queue, room, (slots queue drop room).mp ⟨_, sized, decoded⟩⟩

end StakePool
