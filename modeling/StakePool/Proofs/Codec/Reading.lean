import StakePool.Codec.Format

/-!
# The steps of a reader

What a reader does where the bytes it asks for stand in front of it (`Read.take_append` and those that follow
from it), one equation for each branch of the composite readers, and how far a reader goes (`Read.Passed`).
-/

namespace StakePool

theorem Word.bytes_u8 (byte : UInt8) : Word.u8.bytes byte = [byte] := by
  simp [bytes, u8, Bytes.littleEndian, Radix.digits]

namespace Read

variable {α β : Type}

theorem bind_of_ok {x : Read α} {f : α → Read β} {r r' : Reader} {a : α} (h : x r = .ok a r') :
    (x >>= f) r = f a r' := by
  simp only [bind, EStateM.bind, h]

theorem bind_of_error {x : Read α} {r r' : Reader} {fault : Fault} (h : x r = .error fault r') (f : α → Read β) :
    (x >>= f) r = .error fault r' := by
  simp only [bind, EStateM.bind, h]

theorem bind_eq_ok {x : Read α} {f : α → Read β} {r r' : Reader} {b : β} (h : (x >>= f) r = .ok b r') :
    ∃ a middle, x r = .ok a middle ∧ f a middle = .ok b r' := by
  cases first : x r with
  | error fault last =>
    rw [bind_of_error first] at h
    cases h
  | ok a middle =>
    rw [bind_of_ok first] at h
    exact ⟨a, middle, rfl, h⟩

/-! ### Blocks -/

theorem block_of_ok {n : Nat} {r r' : Reader} {bytes : Bytes} (taken : take n r = .ok bytes r') :
    block n r = .ok ⟨bytes, (take_eq_ok taken).2.1⟩ r' := by
  unfold block
  split
  · rename_i found
    obtain ⟨rfl, rfl⟩ := EStateM.Result.ok.inj (found.symm.trans taken)
    rfl
  · rename_i failed
    cases failed.symm.trans taken

theorem block_of_error {n : Nat} {r r' : Reader} {fault : Fault} (failed : take n r = .error fault r') :
    block n r = .error fault r' := by
  unfold block
  split
  · rename_i taken
    cases failed.symm.trans taken
  · rename_i taken
    obtain ⟨rfl, rfl⟩ := EStateM.Result.error.inj (failed.symm.trans taken)
    rfl

/-! ### Bytes that stand in front -/

theorem take_append {bytes : Bytes} {n offset : Nat} (length : bytes.length = n) (bound : offset + n < addressLimit)
    (rest : Bytes) : take n ⟨offset, bytes ++ rest⟩ = .ok bytes ⟨offset + n, rest⟩ := by
  have front : (bytes ++ rest).take n = bytes := List.take_left' length
  have back : (bytes ++ rest).drop n = rest := List.drop_left' length
  unfold take
  dsimp only
  rw [if_neg (by omega), front, back, if_neg (by omega)]

theorem skip_append {bytes : Bytes} {n offset : Nat} (length : bytes.length = n) (bound : offset + n < addressLimit)
    (rest : Bytes) : skip n ⟨offset, bytes ++ rest⟩ = .ok () ⟨offset + n, rest⟩ :=
  bind_of_ok (take_append length bound rest)

theorem block_append {n offset : Nat} (b : Block n) (bound : offset + n < addressLimit) (rest : Bytes) :
    block n ⟨offset, b.bytes ++ rest⟩ = .ok b ⟨offset + n, rest⟩ :=
  block_of_ok (take_append b.length_eq bound rest)

theorem word_append (w : Word α) (a : α) {offset : Nat} (bound : offset + w.width < addressLimit) (rest : Bytes) :
    word w ⟨offset, w.bytes a ++ rest⟩ = .ok a ⟨offset + w.width, rest⟩ := by
  unfold word
  rw [bind_of_ok (take_append (w.length_bytes a) bound rest), w.ofBytes_bytes]
  rfl

/-- A byte is read as it stands. -/
theorem word_cons (byte : UInt8) {offset : Nat} (bound : offset + 1 < addressLimit) (rest : Bytes) :
    word Word.u8 ⟨offset, byte :: rest⟩ = .ok byte ⟨offset + 1, rest⟩ := by
  have read := word_append Word.u8 byte bound rest
  rw [Word.bytes_u8] at read
  exact read

theorem code_append (field : String) (c : ByteCode α) (a : α) {offset : Nat} (bound : offset + 1 < addressLimit)
    (rest : Bytes) : code field c ⟨offset, Word.u8.bytes (c.toByte a) ++ rest⟩ = .ok a ⟨offset + 1, rest⟩ := by
  unfold code
  rw [word_append Word.u8 (c.toByte a) bound rest]
  simp only [c.ofByte?_toByte]
  rfl

/-! ### Bytes that run short -/

theorem take_of_short {n : Nat} {r : Reader} (bound : r.offset + n < addressLimit) (few : r.remaining < n) :
    take n r = .error (.sizeMismatch (r.offset + n) r.size) r := by
  have ended : (r.rest.take n).length < n := Nat.lt_of_le_of_lt (List.length_take_le' ..) few
  unfold take
  rw [if_neg (by omega), if_pos ended]

theorem word_of_short {w : Word α} {r : Reader} (bound : r.offset + w.width < addressLimit)
    (few : r.remaining < w.width) : word w r = .error (.sizeMismatch (r.offset + w.width) r.size) r :=
  bind_of_error (take_of_short bound few) _

/-! ### Bytes of an enumeration -/

theorem code_of_error {field : String} {c : ByteCode α} {r r' : Reader} {fault : Fault}
    (failed : word Word.u8 r = .error fault r') : code field c r = .error fault r' := by
  simp only [code, failed]

theorem code_of_known {field : String} {c : ByteCode α} {byte : UInt8} {r r' : Reader} {a : α}
    (found : word Word.u8 r = .ok byte r') (known : c.ofByte? byte = some a) : code field c r = .ok a r' := by
  simp only [code, found, known]

theorem code_of_unknown {field : String} {c : ByteCode α} {byte : UInt8} {r r' : Reader}
    (found : word Word.u8 r = .ok byte r') (unknown : c.ofByte? byte = none) :
    code field c r = .error (.fieldOutOfRange r.offset field byte.toUInt32) r' := by
  simp only [code, found, unknown]

theorem code_eq_ok {field : String} {c : ByteCode α} {r r' : Reader} {a : α} (read : code field c r = .ok a r') :
    ∃ byte, word Word.u8 r = .ok byte r' ∧ c.ofByte? byte = some a := by
  cases found : word Word.u8 r with
  | error fault last =>
    rw [code_of_error found] at read
    cases read
  | ok byte last =>
    cases known : c.ofByte? byte with
    | none =>
      rw [code_of_unknown found known] at read
      cases read
    | some b =>
      rw [code_of_known found known] at read
      obtain ⟨rfl, rfl⟩ := EStateM.Result.ok.inj read
      exact ⟨byte, rfl, known⟩

/-! ### How far a step goes -/

/-- A step from here to there that succeeded: it passed so many bytes and, if there were any, it ended at an address. -/
structure Passed (n : Nat) (r r' : Reader) : Prop where
  offset_eq : r'.offset = r.offset + n
  offset_lt : 0 < n → r'.offset < addressLimit

theorem Passed.refl (r : Reader) : Passed 0 r r where
  offset_eq := rfl
  offset_lt wide := absurd wide (Nat.lt_irrefl 0)

theorem Passed.trans {m n : Nat} {r middle r' : Reader} (first : Passed m r middle) (second : Passed n middle r') :
    Passed (m + n) r r' where
  offset_eq := by rw [second.offset_eq, first.offset_eq, Nat.add_assoc]
  offset_lt wide := by
    rcases Nat.eq_zero_or_pos n with rfl | some
    · rw [second.offset_eq, Nat.add_zero]
      exact first.offset_lt wide
    · exact second.offset_lt some

theorem passed_of_take {n : Nat} {r r' : Reader} {bytes : Bytes} (read : take n r = .ok bytes r') : Passed n r r' := by
  obtain ⟨-, -, rfl⟩ := take_eq_ok read
  refine ⟨rfl, fun _ => ?_⟩
  unfold take at read
  split at read
  · cases read
  · rename_i inside
    exact Nat.lt_of_not_le inside

theorem passed_of_skip {n : Nat} {r r' : Reader} (read : skip n r = .ok () r') : Passed n r r' := by
  obtain ⟨bytes, middle, taken, returned⟩ := bind_eq_ok read
  obtain ⟨-, rfl⟩ := EStateM.Result.ok.inj returned
  exact passed_of_take taken

theorem passed_of_word {w : Word α} {r r' : Reader} {a : α} (read : word w r = .ok a r') : Passed w.width r r' := by
  obtain ⟨bytes, middle, taken, returned⟩ := bind_eq_ok read
  obtain ⟨-, rfl⟩ := EStateM.Result.ok.inj returned
  exact passed_of_take taken

theorem passed_of_block {n : Nat} {r r' : Reader} {b : Block n} (read : block n r = .ok b r') : Passed n r r' := by
  cases taken : take n r with
  | error fault last =>
    rw [block_of_error taken] at read
    cases read
  | ok bytes last =>
    rw [block_of_ok taken] at read
    obtain ⟨-, rfl⟩ := EStateM.Result.ok.inj read
    exact passed_of_take taken

end Read

theorem Presence.passed_of_read {presence : Presence} {r r' : Reader} {mark : UInt32}
    (read : presence.read r = .ok mark r') : Read.Passed presence.width r r' := by
  cases presence with
  | byte =>
    obtain ⟨byte, middle, found, returned⟩ := Read.bind_eq_ok read
    obtain ⟨-, rfl⟩ := EStateM.Result.ok.inj returned
    exact Read.passed_of_word found
  | word => exact Read.passed_of_word read

theorem Presence.read_append (presence : Presence) {mark offset : Nat} (small : mark = 0 ∨ mark = 1)
    (bound : offset + presence.width < addressLimit) (rest : Bytes) :
    presence.read ⟨offset, Bytes.littleEndian presence.width mark ++ rest⟩ =
      .ok (UInt32.ofNat mark) ⟨offset + presence.width, rest⟩ := by
  cases presence with
  | byte =>
    have read := Read.word_append Word.u8 (UInt8.ofNat mark) bound rest
    obtain rfl | rfl := small
    · exact Read.bind_of_ok read
    · exact Read.bind_of_ok read
  | word =>
    have read := Read.word_append Word.u32 (UInt32.ofNat mark) bound rest
    obtain rfl | rfl := small
    · exact read
    · exact read

/-! ### Branches -/

namespace Layout

variable {α : Type} {presence : Presence} {payload : Layout α} {r r' : Reader}

theorem read_optional (presence : Presence) (payload : Layout α) (r : Reader) :
    (optional presence payload).read r = match presence.read r with
      | .error fault r' => .error fault r'
      | .ok 0 r' => (do Read.skip payload.size; return none : Read (Option α)) r'
      | .ok 1 r' => (do return some (← payload.read) : Read (Option α)) r'
      | .ok mark r' => .error (.fieldOutOfRange r.offset presence.field mark) r' := rfl

theorem read_optional_of_error {fault : Fault} (failed : presence.read r = .error fault r') :
    (optional presence payload).read r = .error fault r' := by
  simp only [read_optional, failed]

theorem read_optional_absent (mark : presence.read r = .ok 0 r') :
    (optional presence payload).read r = (do Read.skip payload.size; return none : Read (Option α)) r' := by
  simp only [read_optional, mark]

theorem read_optional_present (mark : presence.read r = .ok 1 r') :
    (optional presence payload).read r = (do return some (← payload.read) : Read (Option α)) r' := by
  simp only [read_optional, mark]

theorem read_optional_refused {mark : UInt32} (found : presence.read r = .ok mark r') (absent : mark ≠ 0)
    (present : mark ≠ 1) :
    (optional presence payload).read r = .error (.fieldOutOfRange r.offset presence.field mark) r' := by
  simp only [read_optional, found]

theorem read_optional_eq_ok {value : Option α} (read : (optional presence payload).read r = .ok value r') :
    ∃ mark middle, presence.read r = .ok mark middle ∧
      (mark = 0 ∧ value = none ∧ Read.skip payload.size middle = .ok () r' ∨
        mark = 1 ∧ ∃ a, value = some a ∧ payload.read middle = .ok a r') := by
  cases marked : presence.read r with
  | error fault last =>
    rw [read_optional_of_error marked] at read
    cases read
  | ok mark middle =>
    refine ⟨mark, middle, rfl, ?_⟩
    by_cases absent : mark = 0
    · subst absent
      rw [read_optional_absent marked] at read
      obtain ⟨_, last, skipped, returned⟩ := Read.bind_eq_ok read
      obtain ⟨rfl, rfl⟩ := EStateM.Result.ok.inj returned
      exact .inl ⟨rfl, rfl, skipped⟩
    by_cases present : mark = 1
    · subst present
      rw [read_optional_present marked] at read
      obtain ⟨a, last, payloadRead, returned⟩ := Read.bind_eq_ok read
      obtain ⟨rfl, rfl⟩ := EStateM.Result.ok.inj returned
      exact .inr ⟨rfl, a, rfl, payloadRead⟩
    · rw [read_optional_refused marked absent present] at read
      cases read

/-- A layout passes as many bytes as it is wide. -/
theorem passed_of_read {l : Layout α} {r r' : Reader} {a : α} (read : l.read r = .ok a r') :
    Read.Passed l.size r r' := by
  induction l generalizing r r' with
  | empty =>
    obtain ⟨-, rfl⟩ := EStateM.Result.ok.inj read
    exact .refl r
  | word w => exact Read.passed_of_word read
  | code field c =>
    obtain ⟨byte, found, -⟩ := Read.code_eq_ok read
    exact Read.passed_of_word found
  | block n => exact Read.passed_of_block read
  | optional presence payload ih =>
    obtain ⟨mark, middle, marked, ⟨-, -, skipped⟩ | ⟨-, a, -, payloadRead⟩⟩ := read_optional_eq_ok read
    · exact (Presence.passed_of_read marked).trans (Read.passed_of_skip skipped)
    · exact (Presence.passed_of_read marked).trans (ih payloadRead)
  | pair first second ihFirst ihSecond =>
    obtain ⟨a, middle, readFirst, later⟩ := Read.bind_eq_ok read
    obtain ⟨b, last, readSecond, returned⟩ := Read.bind_eq_ok later
    obtain ⟨-, rfl⟩ := EStateM.Result.ok.inj returned
    exact (ihFirst readFirst).trans (ihSecond readSecond)
  | via bijection inner ih =>
    obtain ⟨a, middle, readInner, returned⟩ := Read.bind_eq_ok read
    obtain ⟨-, rfl⟩ := EStateM.Result.ok.inj returned
    exact ih readInner

theorem readMany_of_ok {l : Layout α} {a : α} (read : l.read r = .ok a r') (count : Nat) (done : List α) :
    l.readMany (count + 1) done r = l.readMany count (a :: done) r' := by
  simp only [readMany, read]

theorem readMany_of_error {l : Layout α} {fault : Fault} (failed : l.read r = .error fault r') (count : Nat)
    (done : List α) : l.readMany (count + 1) done r = .error fault r' := by
  simp only [readMany, failed]

theorem passed_of_readMany {l : Layout α} {count : Nat} {done items : List α}
    (read : l.readMany count done r = .ok items r') : Read.Passed (count * l.size) r r' := by
  induction count generalizing done r with
  | zero =>
    obtain ⟨-, rfl⟩ := EStateM.Result.ok.inj read
    rw [Nat.zero_mul]
    exact .refl r
  | succ count ih =>
    cases first : l.read r with
    | error fault last =>
      rw [readMany_of_error first] at read
      cases read
    | ok a middle =>
      rw [readMany_of_ok first] at read
      rw [Nat.succ_mul, Nat.add_comm]
      exact (passed_of_read first).trans (ih read)

/-- What is done once the count of a sequence is known. -/
def readCounted (l : Layout α) (count : UInt32) : Read (List α) := fun r =>
  if addressLimit ≤ count.toNat * l.size then
    .error (.overflow .sequenceLength) r
  else if r.remaining < count.toNat * l.size then
    if addressLimit ≤ r.offset + count.toNat * l.size then
      .error (.overflow .sequenceEnd) r
    else
      .error (.sizeMismatch (r.offset + count.toNat * l.size) r.size) r
  else
    l.readMany count.toNat [] r

theorem readCounted_of_fits {l : Layout α} {count : UInt32} (bound : count.toNat * l.size < addressLimit)
    (enough : count.toNat * l.size ≤ r.remaining) : l.readCounted count r = l.readMany count.toNat [] r := by
  rw [readCounted, if_neg (by omega), if_neg (by omega)]

theorem readCounted_of_short {l : Layout α} {count : UInt32} (bound : r.offset + count.toNat * l.size < addressLimit)
    (few : r.remaining < count.toNat * l.size) :
    l.readCounted count r = .error (.sizeMismatch (r.offset + count.toNat * l.size) r.size) r := by
  rw [readCounted, if_neg (by omega), if_pos few, if_neg (by omega)]

theorem readCounted_of_overflow {l : Layout α} {count : UInt32} (beyond : addressLimit ≤ count.toNat * l.size)
    (r : Reader) : l.readCounted count r = .error (.overflow .sequenceLength) r := by
  rw [readCounted, if_pos beyond]

theorem readCounted_of_end {l : Layout α} {count : UInt32} (bound : count.toNat * l.size < addressLimit)
    (few : r.remaining < count.toNat * l.size) (beyond : addressLimit ≤ r.offset + count.toNat * l.size) :
    l.readCounted count r = .error (.overflow .sequenceEnd) r := by
  rw [readCounted, if_neg (by omega), if_pos few, if_pos beyond]

theorem readSequence_of_error {l : Layout α} {fault : Fault} (failed : Read.word Word.u32 r = .error fault r') :
    l.readSequence r = .error fault r' := by
  simp only [readSequence, failed]

theorem readSequence_of_counted {l : Layout α} {count : UInt32} (counted : Read.word Word.u32 r = .ok count r') :
    l.readSequence r = l.readCounted count r' := by
  simp only [readSequence, counted, readCounted]

/-- A sequence whose count asks for no more bytes than there are is read item by item. -/
theorem readSequence_of_fits {l : Layout α} {count : UInt32} (counted : Read.word Word.u32 r = .ok count r')
    (bound : count.toNat * l.size < addressLimit) (enough : count.toNat * l.size ≤ r'.remaining) :
    l.readSequence r = l.readMany count.toNat [] r' :=
  (readSequence_of_counted counted).trans (readCounted_of_fits bound enough)

/-- A sequence whose count asks for more bytes than there are is refused. -/
theorem readSequence_of_short {l : Layout α} {count : UInt32} (counted : Read.word Word.u32 r = .ok count r')
    (bound : r'.offset + count.toNat * l.size < addressLimit) (few : r'.remaining < count.toNat * l.size) :
    l.readSequence r = .error (.sizeMismatch (r'.offset + count.toNat * l.size) r'.size) r' :=
  (readSequence_of_counted counted).trans (readCounted_of_short bound few)

end Layout

namespace Format

variable {ι : Type} {payload : ι → Type} {c : ByteCode ι} {format : (i : ι) → Format (payload i)} {r r' : Reader}
  {byte : UInt8}

theorem read_variant_of_known {i : ι} (found : Read.word Word.u8 r = .ok byte r') (known : c.ofByte? byte = some i) :
    (variant c format).read r = (do return ⟨i, ← (format i).read⟩ : Read _) r' := by
  simp only [read, found, known]

theorem read_variant_of_unknown (found : Read.word Word.u8 r = .ok byte r') (unknown : c.ofByte? byte = none) :
    (variant c format).read r = .error (.unknownVariant r.offset byte) r' := by
  simp only [read, found, unknown]

theorem read_variant_of_error {fault : Fault} (failed : Read.word Word.u8 r = .error fault r') :
    (variant c format).read r = .error fault r' := by
  simp only [read, failed]

end Format

end StakePool
