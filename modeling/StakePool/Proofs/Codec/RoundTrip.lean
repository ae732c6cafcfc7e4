import StakePool.Proofs.Codec.Encoding
import StakePool.Proofs.Codec.Reading
import StakePool.RewardEvent

/-!
# Reading back what was written

Wherever the bytes of a value stand, and whatever stands before and behind them, reading gives the value and ends
right behind its bytes: `Format.read_encode`. `read_back_from_stream` carries this over to streams of values of
different formats.
-/

namespace StakePool

/-! ### Fixed layouts -/

theorem Layout.read_encode {α : Type} (l : Layout α) (a : α) {offset : Nat} (bound : offset + l.size < addressLimit)
    (rest : Bytes) : l.read ⟨offset, l.encode a ++ rest⟩ = .ok a ⟨offset + l.size, rest⟩ := by
  induction l generalizing offset rest with
  | empty => rfl
  | word w =>
    rw [encode_word]
    exact Read.word_append w a bound rest
  | code field c =>
    rw [encode_code]
    exact Read.code_append field c a bound rest
  | block n =>
    rw [encode_block]
    exact Read.block_append a bound rest
  | optional presence payload ih =>
    simp only [size, ← Nat.add_assoc] at bound ⊢
    cases a with
    | none =>
      rw [encode_none, List.append_assoc,
        read_optional_absent (presence.read_append (.inl rfl) (by omega) _)]
      exact Read.bind_of_ok (Read.skip_append (Bytes.length_zeros _) bound rest)
    | some a =>
      rw [encode_some, List.append_assoc,
        read_optional_present (presence.read_append (.inr rfl) (by omega) _)]
      exact Read.bind_of_ok (ih a bound rest)
  | pair first second ihFirst ihSecond =>
    obtain ⟨a, b⟩ := a
    simp only [size, ← Nat.add_assoc] at bound ⊢
    rw [encode_pair, List.append_assoc, read, Read.bind_of_ok (ihFirst a (by omega) _),
      Read.bind_of_ok (ihSecond b bound rest)]
    rfl
  | via bijection inner ih =>
    rw [encode_via, read, Read.bind_of_ok (ih _ bound rest), bijection.forth_back]
    rfl

/-- Items that stand one after the other are read in order. -/
theorem Layout.readMany_encode {α : Type} (l : Layout α) (items done : List α) {offset : Nat}
    (bound : offset + items.length * l.size < addressLimit) (rest : Bytes) :
    l.readMany items.length done ⟨offset, items.flatMap l.encode ++ rest⟩ =
      .ok (done.reverse ++ items) ⟨offset + items.length * l.size, rest⟩ := by
  induction items generalizing done offset with
  | nil => simp [readMany]
  | cons a items ih =>
    have width : (items.length + 1) * l.size = l.size + items.length * l.size := by
      rw [Nat.succ_mul, Nat.add_comm]
    rw [List.length_cons, width] at bound ⊢
    rw [List.flatMap_cons, List.append_assoc, readMany, l.read_encode a (by omega)]
    rw [← Nat.add_assoc] at bound ⊢
    have later := ih (a :: done) bound
    rw [List.reverse_cons, List.append_assoc] at later
    exact later

/-! ### Formats -/

/-- Whether every sequence in a value has a length that fits its count. -/
def Format.Fits : {α : Type} → Format α → α → Prop
  | _, .fixed _, _ => True
  | _, .sequence _, items => items.length ≤ 0xffffffff
  | _, .pair first second, (a, b) => first.Fits a ∧ second.Fits b
  | _, .variant _ format, ⟨i, a⟩ => (format i).Fits a
  | _, .via bijection inner, b => inner.Fits (bijection.back b)

theorem Layout.readSequence_encode {α : Type} (l : Layout α) (items : List α) (fits : items.length ≤ 0xffffffff)
    {offset : Nat} (bound : offset + (4 + items.length * l.size) < addressLimit) (rest : Bytes) :
    l.readSequence ⟨offset, (Format.sequence l).encode items ++ rest⟩ =
      .ok items ⟨offset + (4 + items.length * l.size), rest⟩ := by
  have count : (UInt32.ofNat items.length).toNat = items.length := by
    rw [UInt32.toNat_ofNat']
    omega
  have stored : Word.u32.bytes (UInt32.ofNat items.length) = Bytes.littleEndian 4 (min items.length 0xffffffff) := by
    show Bytes.littleEndian 4 (UInt32.ofNat items.length).toNat = _
    rw [count, Nat.min_eq_left fits]
  have room : offset + Word.u32.width < addressLimit := by
    show offset + 4 < addressLimit
    omega
  have counted := Read.word_append Word.u32 (UInt32.ofNat items.length) room (items.flatMap l.encode ++ rest)
  rw [stored] at counted
  have enough : (UInt32.ofNat items.length).toNat * l.size ≤ (items.flatMap l.encode ++ rest).length := by
    rw [count, List.length_append, length_flatMap_encode]
    omega
  rw [Format.encode_sequence, List.append_assoc, readSequence_of_fits counted (by rw [count]; omega) enough, count,
    ← Nat.add_assoc]
  exact l.readMany_encode items [] (by show offset + 4 + _ < _; omega) rest

theorem Format.read_encode {α : Type} (f : Format α) (a : α) (fits : f.Fits a) {offset : Nat}
    (bound : offset + f.encodedLength a < addressLimit) (rest : Bytes) :
    f.read ⟨offset, f.encode a ++ rest⟩ = .ok a ⟨offset + f.encodedLength a, rest⟩ := by
  induction f generalizing offset rest with
  | fixed l => exact l.read_encode a bound rest
  | sequence item => exact item.readSequence_encode a fits bound rest
  | pair first second ihFirst ihSecond =>
    obtain ⟨a, b⟩ := a
    simp only [encodedLength, ← Nat.add_assoc] at bound ⊢
    rw [encode_pair, List.append_assoc, read, Read.bind_of_ok (ihFirst a fits.1 (by omega) _),
      Read.bind_of_ok (ihSecond b fits.2 bound rest)]
    rfl
  | variant c format ih =>
    obtain ⟨i, a⟩ := a
    simp only [encodedLength, ← Nat.add_assoc] at bound ⊢
    have room : offset + Word.u8.width < addressLimit := by
      show offset + 1 < addressLimit
      omega
    have found := Read.word_append Word.u8 (c.toByte i) room ((format i).encode a ++ rest)
    rw [encode_variant, List.append_assoc, read_variant_of_known found (c.ofByte?_toByte i)]
    exact Read.bind_of_ok (ih i a fits bound rest)
  | via bijection inner ih =>
    rw [encode_via, read, Read.bind_of_ok (ih _ fits bound rest), bijection.forth_back]
    rfl

/-- A value is read from the front of its bytes, whatever follows them. -/
theorem Format.decodePrefix_encode_append {α : Type} (f : Format α) (a : α) (fits : f.Fits a)
    (bound : f.encodedLength a < addressLimit) (rest : Bytes) : f.decodePrefix (f.encode a ++ rest) = .ok a := by
  have read : f.read ⟨0, f.encode a ++ rest⟩ = .ok a ⟨0 + f.encodedLength a, rest⟩ :=
    f.read_encode a fits (by omega) rest
  unfold decodePrefix Reader.ofBytes
  rw [read]

/-! ### Streams -/

/-- A reader that has got as far as `offset` in a byte string. -/
def Reader.atOffset (bytes : Bytes) (offset : Nat) : Reader := ⟨offset, bytes.drop offset⟩

theorem Reader.atOffset_append (front back : Bytes) :
    atOffset (front ++ back) front.length = ⟨front.length, back⟩ := by
  rw [atOffset, List.drop_left]

/-- The formats of a stream of values, in order. -/
abbrev Formats := List ((α : Type) × Format α)

namespace Formats

def Values : Formats → Type
  | [] => Unit
  | ⟨α, _⟩ :: formats => α × Values formats

/-- Whether every sequence in every value has a length that fits its count. -/
def Fits : (formats : Formats) → formats.Values → Prop
  | [], _ => True
  | ⟨_, format⟩ :: formats, (a, values) => format.Fits a ∧ Fits formats values

def writeAll : (formats : Formats) → formats.Values → Writer → Writer
  | [], _, w => w
  | ⟨_, format⟩ :: formats, (a, values), w => writeAll formats values (format.encodeInto a w)

def readAll : (formats : Formats) → Read formats.Values
  | [] => pure ()
  | ⟨_, format⟩ :: formats => do
    let a ← format.read
    let values ← readAll formats
    return (a, values)

def encodeAll : (formats : Formats) → formats.Values → Bytes
  | [], _ => []
  | ⟨_, format⟩ :: formats, (a, values) => format.encode a ++ encodeAll formats values

theorem toBytes_writeAll (formats : Formats) (values : formats.Values) (w : Writer) :
    (formats.writeAll values w).toBytes = w.toBytes ++ formats.encodeAll values := by
  induction formats generalizing w with
  | nil => simp [writeAll, encodeAll]
  | cons format formats ih =>
    obtain ⟨a, values⟩ := values
    rw [writeAll, ih, Format.toBytes_encodeInto, encodeAll, List.append_assoc]

theorem readAll_encodeAll (formats : Formats) (values : formats.Values) (fits : formats.Fits values) {offset : Nat}
    (bound : offset + (formats.encodeAll values).length < addressLimit) (rest : Bytes) :
    formats.readAll ⟨offset, formats.encodeAll values ++ rest⟩ =
      .ok values ⟨offset + (formats.encodeAll values).length, rest⟩ := by
  induction formats generalizing offset with
  | nil => rfl
  | cons format formats ih =>
    obtain ⟨a, values⟩ := values
    simp only [encodeAll, List.length_append, Format.length_encode, ← Nat.add_assoc] at bound ⊢
    rw [List.append_assoc, readAll, Read.bind_of_ok (format.2.read_encode a fits.1 (by omega) _),
      Read.bind_of_ok (ih values fits.2 bound)]
    rfl

end Formats

/-- Reading undoes writing: of one value in any surroundings, and of a stream of values of any formats. The bounds hold
of every byte string that has an address. -/
theorem read_back_from_stream :
    (∀ {α : Type} (f : Format α) (a : α) (before after : Bytes), f.Fits a →
      before.length + (f.encode a).length < addressLimit →
      f.read (.atOffset (before ++ f.encode a ++ after) before.length) =
        .ok a (.atOffset (before ++ f.encode a ++ after) (before.length + (f.encode a).length))) ∧
    (∀ (formats : Formats) (values : formats.Values), formats.Fits values →
      (formats.writeAll values .empty).toBytes.length < addressLimit →
      ∃ r, formats.readAll (.ofBytes (formats.writeAll values .empty).toBytes) = .ok values r ∧ r.remaining = 0) := by
  constructor
  · intro α f a before after fits bound
    have start : Reader.atOffset (before ++ f.encode a ++ after) before.length =
        ⟨before.length, f.encode a ++ after⟩ := by
      rw [List.append_assoc, Reader.atOffset_append]
    have stop : Reader.atOffset (before ++ f.encode a ++ after) (before.length + (f.encode a).length) =
        ⟨before.length + (f.encode a).length, after⟩ := by
      rw [← List.length_append, Reader.atOffset_append]
    rw [start, stop, f.length_encode]
    rw [f.length_encode] at bound
    exact f.read_encode a fits bound after
  · intro formats values fits bound
    have written : (formats.writeAll values .empty).toBytes = formats.encodeAll values :=
      formats.toBytes_writeAll values .empty
    rw [written] at bound ⊢
    have read := formats.readAll_encodeAll values fits (by rwa [Nat.zero_add]) []
    rw [List.append_nil] at read
    exact ⟨_, read, rfl⟩

/-- A stream of an optional optional word, an event and a counted sequence. -/
def Formats.mixed : Formats :=
  [⟨_, .fixed (.option (.wideOption .u32))⟩, ⟨_, RewardEvent.format⟩, ⟨_, .sequence .u64⟩]

theorem read_back_from_stream_mixed :
    (Format.sequence .u32).read (.atOffset ([9] ++ (Format.sequence .u32).encode [3, 258] ++ [8]) 1) =
      .ok [3, 258] ⟨13, [8]⟩ ∧
    ∃ r, Formats.mixed.readAll
        (.ofBytes (Formats.mixed.writeAll (some none, .poolDrop default [7, 300] default, [1], ()) .empty).toBytes) =
      .ok (some none, .poolDrop default [7, 300] default, [1], ()) r ∧ r.remaining = 0 := by
  constructor
  · exact read_back_from_stream.1 (.sequence .u32) [3, 258] [9] [8] (by simp [Format.Fits]) (by decide +kernel)
  · refine read_back_from_stream.2 .mixed (some none, .poolDrop default [7, 300] default, [1], ()) ?_
      (by decide +kernel)
    simp [Formats.Fits, Formats.mixed, Format.Fits, RewardEvent.format, RewardEvent.fields, RewardEvent.Kind.format]

end StakePool
