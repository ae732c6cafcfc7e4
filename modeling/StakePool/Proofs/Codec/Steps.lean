import StakePool.Proofs.Codec.Agreement

/-!
# Steps of a reader

Whatever it is asked for, in whatever order and after whatever failures, a reader goes forward in its byte string, and a
fault it reports is about the bytes that stand there: `Read.Disciplined`. Steps that have this property compose
(`disciplined_bind`, `disciplined_of_branches`), so reading any format has it (`Format.disciplined_read`).
`ReadSteps.keep_to_the_bytes` states it for runs of steps, with what each primitive step hands out.
-/

namespace StakePool

/-! ### What is refused -/

/-- A part of a value that is refused: a field of so many bytes, or the byte that tells variants apart. -/
inductive Refusal
  | field (name : String) (width value : Nat)
  | variant (byte : UInt8)
deriving DecidableEq

/-- Whether some part of a layout does not take this value. -/
def Layout.Refuses : {α : Type} → Layout α → Refusal → Prop
  | _, .empty, _ => False
  | _, .word _, _ => False
  | _, .code field c, refusal => ∃ byte, c.ofByte? byte = none ∧ refusal = .field field 1 byte.toNat
  | _, .block _, _ => False
  | _, .optional presence payload, refusal =>
    (∃ mark, 1 < mark ∧ refusal = .field presence.field presence.width mark) ∨ payload.Refuses refusal
  | _, .pair first second, refusal => first.Refuses refusal ∨ second.Refuses refusal
  | _, .via _ inner, refusal => inner.Refuses refusal

/-- Whether some part of a format does not take this value. -/
def Format.Refuses : {α : Type} → Format α → Refusal → Prop
  | _, .fixed l, refusal => l.Refuses refusal
  | _, .sequence item, refusal => item.Refuses refusal
  | _, .pair first second, refusal => first.Refuses refusal ∨ second.Refuses refusal
  | _, .variant c format, refusal =>
    (∃ byte, c.ofByte? byte = none ∧ refusal = .variant byte) ∨ ∃ i, (format i).Refuses refusal
  | _, .via _ inner, refusal => inner.Refuses refusal

/-- The fault of a step that has gone from `start` to `stop`: that the byte string is too short, or that the last bytes
passed are a part that is refused. -/
def Fault.Blames (refuses : Refusal → Prop) (bytes : Bytes) (start stop : Nat) : Fault → Prop
  | .sizeMismatch expected actual => actual = bytes.length ∧ bytes.length < expected
  | .fieldOutOfRange offset name value => ∃ width, start ≤ offset ∧ offset + width = stop ∧
    Bytes.ofLittleEndian ((bytes.drop offset).take width) = value.toNat ∧ refuses (.field name width value.toNat)
  | .unknownVariant offset byte => start ≤ offset ∧ offset + 1 = stop ∧ bytes[offset]? = some byte ∧
    refuses (.variant byte)
  | .overflow quantity => quantity = .readerOffset ∨ quantity = .sequenceLength ∨ quantity = .sequenceEnd
  | _ => False

theorem Fault.Blames.mono {refuses refuses' : Refusal → Prop} {bytes : Bytes} {start middle stop : Nat} {fault : Fault}
    (blames : fault.Blames refuses bytes middle stop) (forward : start ≤ middle)
    (more : ∀ refusal, refuses refusal → refuses' refusal) : fault.Blames refuses' bytes start stop := by
  cases fault with
  | sizeMismatch expected actual => exact blames
  | fieldOutOfRange offset name value =>
    obtain ⟨width, inside, last, stored, refused⟩ := blames
    exact ⟨width, Nat.le_trans forward inside, last, stored, more _ refused⟩
  | unknownVariant offset byte =>
    obtain ⟨inside, last, stored, refused⟩ := blames
    exact ⟨Nat.le_trans forward inside, last, stored, more _ refused⟩
  | overflow quantity => exact blames
  | unknownTag => exact blames
  | corruptEntry => exact blames
  | invalidCursor => exact blames
  | invariantViolation => exact blames

/-! ### Where a reader stands -/

theorem Reader.remaining_atOffset (bytes : Bytes) (start : Nat) :
    (atOffset bytes start).remaining = bytes.length - start := List.length_drop

theorem Reader.size_atOffset {bytes : Bytes} {start : Nat} (inside : start ≤ bytes.length) :
    (atOffset bytes start).size = bytes.length := by
  rw [size, remaining_atOffset]
  exact Nat.add_sub_cancel' inside

theorem Word.ofLittleEndian_bytes {α : Type} (w : Word α) (a : α) : Bytes.ofLittleEndian (w.bytes a) = w.toNat a :=
  Bytes.ofLittleEndian_littleEndian (w.toNat_lt a)

namespace Read

variable {α β : Type} {x : Read α} {f : α → Read β} {y : Read β} {refuses refuses' : Refusal → Prop} {bytes : Bytes}
  {start middle n : Nat}

/-- A step ends within the byte string, no earlier than it began, and its fault is to be blamed on what it passed. -/
def Ends (refuses : Refusal → Prop) (bytes : Bytes) (start : Nat) : EStateM.Result Fault Reader α → Prop
  | .ok _ r => ∃ stop, start ≤ stop ∧ stop ≤ bytes.length ∧ r = .atOffset bytes stop
  | .error fault r => ∃ stop, start ≤ stop ∧ stop ≤ bytes.length ∧ r = .atOffset bytes stop ∧
    fault.Blames refuses bytes start stop

def Disciplined (x : Read α) (refuses : Refusal → Prop) : Prop :=
  ∀ ⦃bytes start⦄, start ≤ bytes.length → Ends refuses bytes start (x (.atOffset bytes start))

theorem Ends.mono {result : EStateM.Result Fault Reader α} (ends : Ends refuses bytes middle result)
    (forward : start ≤ middle) (more : ∀ refusal, refuses refusal → refuses' refusal) :
    Ends refuses' bytes start result := by
  cases result with
  | ok a r =>
    obtain ⟨stop, onward, inside, same⟩ := ends
    exact ⟨stop, Nat.le_trans forward onward, inside, same⟩
  | error fault r =>
    obtain ⟨stop, onward, inside, same, blames⟩ := ends
    exact ⟨stop, Nat.le_trans forward onward, inside, same, blames.mono forward more⟩

theorem Disciplined.mono (first : Disciplined x refuses) (more : ∀ refusal, refuses refusal → refuses' refusal) :
    Disciplined x refuses' := fun _ _ inside => (first inside).mono (Nat.le_refl _) more

/-! ### One step after the other -/

theorem disciplined_pure (a : α) : Disciplined (pure a) refuses :=
  fun _ start inside => ⟨start, Nat.le_refl _, inside, rfl⟩

theorem disciplined_of_branches (first : Disciplined x refuses)
    (failed : ∀ {r r' fault}, x r = .error fault r' → y r = .error fault r')
    (branch : ∀ {bytes start middle a}, start ≤ middle → middle ≤ bytes.length →
      x (.atOffset bytes start) = .ok a (.atOffset bytes middle) → Ends refuses bytes start (y (.atOffset bytes start))) :
    Disciplined y refuses := by
  intro bytes start inside
  have ends := first inside
  cases step : x (.atOffset bytes start) with
  | error fault r =>
    rw [step] at ends
    rw [failed step]
    exact ends
  | ok a r =>
    rw [step] at ends
    obtain ⟨middle, forward, within, rfl⟩ := ends
    exact branch forward within step

theorem disciplined_bind (first : Disciplined x refuses) (second : ∀ a, Disciplined (f a) refuses) :
    Disciplined (x >>= f) refuses := by
  refine disciplined_of_branches first (fun failed => bind_of_error failed f) fun forward within read => ?_
  rw [bind_of_ok read]
  exact (second _ within).mono forward fun _ => id

/-! ### Single steps -/

/-- The three ways in which taking bytes ends. -/
theorem take_cases (n : Nat) (inside : start ≤ bytes.length) :
    (start + n ≤ bytes.length ∧ start + n < addressLimit ∧
      take n (.atOffset bytes start) = .ok ((bytes.drop start).take n) (.atOffset bytes (start + n))) ∨
    (addressLimit ≤ start + n ∧
      take n (.atOffset bytes start) = .error (.overflow .readerOffset) (.atOffset bytes start)) ∨
    (bytes.length < start + n ∧ start + n < addressLimit ∧
      take n (.atOffset bytes start) = .error (.sizeMismatch (start + n) bytes.length) (.atOffset bytes start)) := by
  rcases Nat.lt_or_ge (start + n) addressLimit with address | beyond
  · rcases Nat.lt_or_ge bytes.length (start + n) with few | enough
    · have short : (Reader.atOffset bytes start).remaining < n := by
        rw [Reader.remaining_atOffset]
        omega
      have failed := take_of_short (r := .atOffset bytes start) address short
      rw [Reader.size_atOffset inside] at failed
      exact .inr (.inr ⟨few, address, failed⟩)
    · refine .inl ⟨enough, address, ?_⟩
      rw [Reader.atOffset_eq bytes start n]
      exact take_append (length_window enough) address _
  · exact .inr (.inl ⟨beyond, if_pos beyond⟩)

theorem disciplined_take (n : Nat) : Disciplined (take n) refuses := by
  intro bytes start inside
  rcases take_cases n inside with ⟨enough, -, read⟩ | ⟨-, failed⟩ | ⟨few, -, failed⟩
  · rw [read]
    exact ⟨start + n, Nat.le_add_right .., enough, rfl⟩
  · rw [failed]
    exact ⟨start, Nat.le_refl _, inside, rfl, .inl rfl⟩
  · rw [failed]
    exact ⟨start, Nat.le_refl _, inside, rfl, rfl, few⟩

theorem disciplined_skip (n : Nat) : Disciplined (skip n) refuses :=
  disciplined_bind (disciplined_take n) fun _ => disciplined_pure ()

theorem disciplined_word (w : Word α) : Disciplined (word w) refuses :=
  disciplined_bind (disciplined_take w.width) fun _ => disciplined_pure _

theorem disciplined_block (n : Nat) : Disciplined (block n) refuses := by
  refine disciplined_of_branches (disciplined_take n) block_of_error fun forward within taken => ?_
  rw [block_of_ok taken]
  exact ⟨_, forward, within, rfl⟩

theorem word_atOffset_eq_ok {w : Word α} {a : α} {r : Reader} (inside : start ≤ bytes.length)
    (read : word w (.atOffset bytes start) = .ok a r) :
    w.bytes a = (bytes.drop start).take w.width ∧ r = .atOffset bytes (start + w.width) := by
  rcases take_cases w.width inside with ⟨enough, -, taken⟩ | ⟨-, failed⟩ | ⟨-, -, failed⟩
  · obtain ⟨rfl, rfl⟩ := EStateM.Result.ok.inj (read.symm.trans (bind_of_ok taken))
    exact ⟨w.bytes_ofBytes (length_window enough), rfl⟩
  · cases read.symm.trans (bind_of_error failed _)
  · cases read.symm.trans (bind_of_error failed _)

theorem disciplined_code (field : String) (c : ByteCode α) :
    Disciplined (code field c) (Layout.code field c).Refuses := by
  refine disciplined_of_branches (disciplined_word Word.u8) code_of_error
    fun {bytes start middle byte} forward within found => ?_
  obtain ⟨stored, stop⟩ := word_atOffset_eq_ok (Nat.le_trans forward within) found
  obtain rfl : middle = start + 1 := congrArg Reader.offset stop
  cases known : c.ofByte? byte with
  | some a =>
    rw [code_of_known found known]
    exact ⟨start + 1, forward, within, rfl⟩
  | none =>
    have value : Bytes.ofLittleEndian ((bytes.drop start).take 1) = byte.toUInt32.toNat := by
      rw [UInt8.toNat_toUInt32]
      exact (congrArg Bytes.ofLittleEndian stored.symm).trans (Word.u8.ofLittleEndian_bytes byte)
    rw [code_of_unknown found known]
    exact ⟨start + 1, forward, within, rfl, 1, Nat.le_refl _, rfl, value, byte, known, by rw [UInt8.toNat_toUInt32]⟩

end Read

namespace Presence

variable {refuses : Refusal → Prop} {bytes : Bytes} {start : Nat} {presence : Presence}

theorem disciplined_read (presence : Presence) : Read.Disciplined presence.read refuses := by
  cases presence with
  | byte => exact Read.disciplined_bind (Read.disciplined_word _) fun _ => Read.disciplined_pure _
  | word => exact Read.disciplined_word _

theorem read_atOffset_eq_ok {mark : UInt32} {r : Reader} (inside : start ≤ bytes.length)
    (read : presence.read (.atOffset bytes start) = .ok mark r) :
    Bytes.ofLittleEndian ((bytes.drop start).take presence.width) = mark.toNat ∧
      r = .atOffset bytes (start + presence.width) := by
  cases presence with
  | byte =>
    obtain ⟨byte, middle, found, returned⟩ := Read.bind_eq_ok read
    obtain ⟨rfl, rfl⟩ := EStateM.Result.ok.inj returned
    obtain ⟨stored, stop⟩ := Read.word_atOffset_eq_ok inside found
    refine ⟨?_, stop⟩
    rw [UInt8.toNat_toUInt32]
    exact (congrArg Bytes.ofLittleEndian stored.symm).trans (Word.u8.ofLittleEndian_bytes byte)
  | word =>
    obtain ⟨stored, stop⟩ := Read.word_atOffset_eq_ok inside read
    exact ⟨(congrArg Bytes.ofLittleEndian stored.symm).trans (Word.u32.ofLittleEndian_bytes mark), stop⟩

end Presence

/-! ### Layouts -/

namespace Layout

variable {α β : Type}

theorem disciplined_optional {presence : Presence} {payload : Layout α}
    (disciplined : Read.Disciplined payload.read payload.Refuses) :
    Read.Disciplined (optional presence payload).read (optional presence payload).Refuses := by
  refine Read.disciplined_of_branches presence.disciplined_read read_optional_of_error
    fun {bytes start middle mark} forward within found => ?_
  by_cases absent : mark = 0
  · subst absent
    rw [read_optional_absent found]
    exact (Read.disciplined_bind (Read.disciplined_skip _) (fun _ => Read.disciplined_pure _) within).mono forward
      fun _ => id
  by_cases present : mark = 1
  · subst present
    rw [read_optional_present found]
    exact (Read.disciplined_bind disciplined (fun _ => Read.disciplined_pure _) within).mono forward fun _ => .inr
  · rw [read_optional_refused found absent present]
    obtain ⟨stored, stop⟩ := Presence.read_atOffset_eq_ok (Nat.le_trans forward within) found
    obtain rfl : middle = start + presence.width := congrArg Reader.offset stop
    refine ⟨_, forward, within, rfl, presence.width, Nat.le_refl _, rfl, stored, .inl ⟨mark.toNat, ?_, rfl⟩⟩
    have notZero : mark.toNat ≠ 0 := fun zero => absent (UInt32.toNat_inj.mp zero)
    have notOne : mark.toNat ≠ 1 := fun one => present (UInt32.toNat_inj.mp one)
    omega

theorem disciplined_read (l : Layout α) : Read.Disciplined l.read l.Refuses := by
  induction l with
  | empty => exact Read.disciplined_pure ()
  | word w => exact Read.disciplined_word w
  | code field c => exact Read.disciplined_code field c
  | block n => exact Read.disciplined_block n
  | optional presence payload ih => exact disciplined_optional ih
  | pair first second ihFirst ihSecond =>
    refine Read.disciplined_bind (ihFirst.mono fun _ => .inl) fun _ => ?_
    exact Read.disciplined_bind (ihSecond.mono fun _ => .inr) fun _ => Read.disciplined_pure _
  | via bijection inner ih => exact Read.disciplined_bind ih fun _ => Read.disciplined_pure _

/-! ### Sequences -/

theorem disciplined_readMany (l : Layout α) (count : Nat) (done : List α) :
    Read.Disciplined (l.readMany count done) l.Refuses := by
  induction count generalizing done with
  | zero => exact Read.disciplined_pure done.reverse
  | succ count ih =>
    refine Read.disciplined_of_branches l.disciplined_read (readMany_of_error · count done)
      fun forward within read => ?_
    rw [readMany_of_ok read]
    exact (ih _ within).mono forward fun _ => id

theorem disciplined_readCounted (l : Layout α) (count : UInt32) : Read.Disciplined (l.readCounted count) l.Refuses := by
  intro bytes start inside
  unfold readCounted
  split
  · exact ⟨start, Nat.le_refl _, inside, rfl, .inr (.inl rfl)⟩
  split
  · rename_i few
    rw [Reader.remaining_atOffset] at few
    split
    · exact ⟨start, Nat.le_refl _, inside, rfl, .inr (.inr rfl)⟩
    · refine ⟨start, Nat.le_refl _, inside, rfl, Reader.size_atOffset inside, ?_⟩
      show bytes.length < start + count.toNat * l.size
      omega
  · exact l.disciplined_readMany count.toNat [] inside

end Layout

/-! ### Formats -/

namespace Format

variable {α : Type}

theorem disciplined_read (f : Format α) : Read.Disciplined f.read f.Refuses := by
  induction f with
  | fixed l => exact l.disciplined_read
  | sequence item =>
    refine Read.disciplined_of_branches (Read.disciplined_word Word.u32) Layout.readSequence_of_error
      fun forward within counted => ?_
    rw [Format.read, Layout.readSequence_of_counted counted]
    exact (item.disciplined_readCounted _ within).mono forward fun _ => id
  | pair first second ihFirst ihSecond =>
    refine Read.disciplined_bind (ihFirst.mono fun _ => .inl) fun _ => ?_
    exact Read.disciplined_bind (ihSecond.mono fun _ => .inr) fun _ => Read.disciplined_pure _
  | variant c format ih =>
    refine Read.disciplined_of_branches (Read.disciplined_word Word.u8) read_variant_of_error
      fun {bytes start middle byte} forward within found => ?_
    cases known : c.ofByte? byte with
    | some i =>
      rw [read_variant_of_known found known]
      exact (Read.disciplined_bind (ih i) (fun _ => Read.disciplined_pure _) within).mono forward
        fun _ refused => .inr ⟨i, refused⟩
    | none =>
      rw [read_variant_of_unknown found known]
      obtain ⟨stored, stop⟩ := Read.word_atOffset_eq_ok (Nat.le_trans forward within) found
      obtain rfl : middle = start + 1 := congrArg Reader.offset stop
      have here : bytes[start]? = some byte := by
        rw [← Nat.add_zero start, ← getElem?_window bytes (show 0 < Word.u8.width from Nat.one_pos), ← stored,
          Word.bytes_u8]
        rfl
      exact ⟨start + 1, forward, within, rfl, Nat.le_refl _, rfl, here, .inl ⟨byte, known, rfl⟩⟩
  | via bijection inner ih => exact Read.disciplined_bind ih fun _ => Read.disciplined_pure _

end Format

/-! ### What a reader is asked for -/

/-- A step of a reader: one of the primitive ones, or the reading of a value. -/
inductive ReadStep : Type → Type 1
  | take (n : Nat) : ReadStep Bytes
  | skip (n : Nat) : ReadStep Unit
  | word {α : Type} (w : Word α) : ReadStep α
  | block (n : Nat) : ReadStep (Block n)
  | flag (field : String) : ReadStep Bool
  | value {α : Type} (f : Format α) : ReadStep α

namespace ReadStep

variable {α : Type} {step : ReadStep α} {bytes stored : Bytes} {start n : Nat} {r r' last : Reader} {a : α}

def perform : {α : Type} → ReadStep α → Read α
  | _, take n => Read.take n
  | _, skip n => Read.skip n
  | _, word w => Read.word w
  | _, block n => Read.block n
  | _, flag field => Read.code field ByteCode.bool
  | _, value f => f.read

/-- Where the reader stands afterwards, whether the step succeeded or not. -/
def next (step : ReadStep α) (r : Reader) : Reader :=
  match step.perform r with
  | .ok _ r' => r'
  | .error _ r' => r'

/-- How many bytes a primitive step asks for. -/
def width? : {α : Type} → ReadStep α → Option Nat
  | _, take n => some n
  | _, skip n => some n
  | _, word w => some w.width
  | _, block n => some n
  | _, flag _ => some 1
  | _, value _ => none

/-- Whether a primitive step makes this value of the bytes that it passes. -/
def Holds : {α : Type} → ReadStep α → Bytes → α → Prop
  | _, take _, stored, a => a = stored
  | _, skip _, _, _ => True
  | _, word w, stored, a => w.toNat a = Bytes.ofLittleEndian stored
  | _, block _, stored, a => a.bytes = stored
  | _, flag _, stored, a => stored = [if a then 1 else 0]
  | _, value _, _, _ => False

def Refuses : {α : Type} → ReadStep α → Refusal → Prop
  | _, flag field, refusal => (Layout.flag field).Refuses refusal
  | _, value f, refusal => f.Refuses refusal
  | _, _, _ => False

theorem disciplined_perform (step : ReadStep α) : Read.Disciplined step.perform step.Refuses := by
  cases step with
  | take n => exact Read.disciplined_take n
  | skip n => exact Read.disciplined_skip n
  | word w => exact Read.disciplined_word w
  | block n => exact Read.disciplined_block n
  | flag field => exact Read.disciplined_code field ByteCode.bool
  | value f => exact f.disciplined_read

/-! ### Primitive steps -/

theorem perform_of_take_error {fault : Fault} (wide : step.width? = some n) (failed : Read.take n r = .error fault r') :
    step.perform r = .error fault r' := by
  cases step with
  | take n' =>
    obtain rfl := Option.some.inj wide
    exact failed
  | skip n' =>
    obtain rfl := Option.some.inj wide
    exact Read.bind_of_error failed _
  | word w =>
    obtain rfl := Option.some.inj wide
    exact Read.bind_of_error failed _
  | block n' =>
    obtain rfl := Option.some.inj wide
    exact Read.block_of_error failed
  | flag field =>
    obtain rfl := Option.some.inj wide
    exact Read.code_of_error (Read.bind_of_error failed _)
  | value f => cases wide

theorem flag_eq_ok_iff {field : String} {a : Bool} (taken : Read.take 1 r = .ok stored r') :
    (flag field).perform r = .ok a last ↔ stored = [if a then 1 else 0] ∧ last = r' := by
  have sized : stored.length = Word.u8.width := (Read.take_eq_ok taken).2.1
  have found : Read.word Word.u8 r = .ok (Word.u8.ofBytes stored) r' := Read.bind_of_ok taken
  have same : stored = [Word.u8.ofBytes stored] := (Word.u8.bytes_ofBytes sized).symm.trans (Word.bytes_u8 _)
  generalize Word.u8.ofBytes stored = byte at found same
  subst same
  constructor
  · intro read
    obtain ⟨other, foundToo, known⟩ := Read.code_eq_ok read
    obtain ⟨rfl, rfl⟩ := EStateM.Result.ok.inj (found.symm.trans foundToo)
    exact ⟨congrArg (fun byte => [byte]) (ByteCode.bool.toByte_of_ofByte? _ _ known).symm, rfl⟩
  · rintro ⟨same, rfl⟩
    obtain rfl : byte = ByteCode.bool.toByte a := List.singleton_inj.mp same
    exact Read.code_of_known found (ByteCode.bool.ofByte?_toByte a)

theorem perform_eq_ok_iff_of_holds {found : α} (read : step.perform r = .ok found r')
    (only : ∀ a, step.Holds stored a ↔ a = found) :
    step.perform r = .ok a last ↔ step.Holds stored a ∧ last = r' := by
  rw [read, only]
  constructor
  · intro same
    obtain ⟨rfl, rfl⟩ := EStateM.Result.ok.inj same
    exact ⟨rfl, rfl⟩
  · rintro ⟨rfl, rfl⟩
    rfl

/-- A primitive step makes of the bytes that it takes what they hold, and stops behind them. -/
theorem perform_eq_ok_iff_of_take (wide : step.width? = some n) (taken : Read.take n r = .ok stored r') :
    step.perform r = .ok a last ↔ step.Holds stored a ∧ last = r' := by
  have sized := (Read.take_eq_ok taken).2.1
  cases step with
  | take n' =>
    obtain rfl := Option.some.inj wide
    exact perform_eq_ok_iff_of_holds taken fun _ => Iff.rfl
  | skip n' =>
    obtain rfl := Option.some.inj wide
    exact perform_eq_ok_iff_of_holds (Read.bind_of_ok taken) fun _ => iff_of_true trivial rfl
  | word w =>
    obtain rfl := Option.some.inj wide
    have small := Bytes.ofLittleEndian_lt stored
    rw [sized] at small
    refine perform_eq_ok_iff_of_holds (Read.bind_of_ok taken) fun a => ⟨fun number => ?_, ?_⟩
    · rw [Word.ofBytes, ← (show w.toNat a = _ from number), w.ofNat_toNat]
    · rintro rfl
      exact w.toNat_ofNat _ small
  | block n' =>
    obtain rfl := Option.some.inj wide
    refine perform_eq_ok_iff_of_holds (Read.block_of_ok taken) fun a => ⟨fun same => Block.ext same, ?_⟩
    rintro rfl
    rfl
  | flag field =>
    obtain rfl := Option.some.inj wide
    exact flag_eq_ok_iff taken
  | value f => cases wide

theorem perform_eq_ok_iff (wide : step.width? = some n) (inside : start ≤ bytes.length)
    (bound : bytes.length < addressLimit) :
    step.perform (.atOffset bytes start) = .ok a r' ↔
      start + n ≤ bytes.length ∧ step.Holds ((bytes.drop start).take n) a ∧ r' = .atOffset bytes (start + n) := by
  rcases Read.take_cases n inside with ⟨enough, -, taken⟩ | ⟨beyond, failed⟩ | ⟨few, -, failed⟩
  · rw [perform_eq_ok_iff_of_take wide taken, and_iff_right enough]
  · rw [perform_of_take_error wide failed]
    exact ⟨nofun, fun holds => by omega⟩
  · rw [perform_of_take_error wide failed]
    exact ⟨nofun, fun holds => by omega⟩

theorem perform_of_short (wide : step.width? = some n) (inside : start ≤ bytes.length) (few : bytes.length < start + n) :
    step.perform (.atOffset bytes start) =
      .error (if addressLimit ≤ start + n then .overflow .readerOffset else .sizeMismatch (start + n) bytes.length)
        (.atOffset bytes start) := by
  rcases Read.take_cases n inside with ⟨enough, -, -⟩ | ⟨beyond, failed⟩ | ⟨-, address, failed⟩
  · omega
  · rw [perform_of_take_error wide failed, if_pos beyond]
  · rw [perform_of_take_error wide failed, if_neg (Nat.not_le.mpr address)]

theorem flag_of_other {byte : UInt8} (field : String) (here : bytes[start]? = some byte) (other : 1 < byte)
    (bound : bytes.length < addressLimit) :
    (flag field).perform (.atOffset bytes start) =
      .error (.fieldOutOfRange start field byte.toUInt32) (.atOffset bytes (start + 1)) := by
  obtain ⟨inside, rfl⟩ := List.getElem?_eq_some_iff.mp here
  have unknown : ByteCode.bool.ofByte? bytes[start] = none := by
    cases known : ByteCode.bool.ofByte? bytes[start] with
    | none => rfl
    | some a =>
      rw [← ByteCode.bool.toByte_of_ofByte? _ a known] at other
      cases a with
      | false => exact absurd other (by decide)
      | true => exact absurd other (by decide)
  have found : Read.word Word.u8 (.atOffset bytes start) = .ok bytes[start] (.atOffset bytes (start + 1)) := by
    rw [Reader.atOffset, List.drop_eq_getElem_cons inside]
    exact Read.word_cons _ (by omega) _
  exact Read.code_of_unknown found unknown

/-- Bytes that are there can only be refused. -/
theorem fault_of_take {fault : Fault} (wide : step.width? = some n) (taken : Read.take n r = .ok stored r')
    (failed : step.perform r = .error fault last) : ∃ field value, fault = .fieldOutOfRange r.offset field value := by
  cases step with
  | take n' =>
    obtain rfl := Option.some.inj wide
    cases failed.symm.trans taken
  | skip n' =>
    obtain rfl := Option.some.inj wide
    cases failed.symm.trans (Read.bind_of_ok taken)
  | word w =>
    obtain rfl := Option.some.inj wide
    cases failed.symm.trans (Read.bind_of_ok taken)
  | block n' =>
    obtain rfl := Option.some.inj wide
    cases failed.symm.trans (Read.block_of_ok taken)
  | flag field =>
    obtain rfl := Option.some.inj wide
    have found : Read.word Word.u8 r = .ok (Word.u8.ofBytes stored) r' := Read.bind_of_ok taken
    cases known : ByteCode.bool.ofByte? (Word.u8.ofBytes stored) with
    | some a => cases failed.symm.trans (Read.code_of_known found known)
    | none => exact ⟨_, _, (EStateM.Result.error.inj (failed.symm.trans (Read.code_of_unknown found known))).1⟩
  | value f => cases wide

/-- A primitive step overflows where it would reach further than any address, and nowhere else. -/
theorem overflows_iff (wide : step.width? = some n) (inside : start ≤ bytes.length) (bound : bytes.length < addressLimit) :
    (∃ r', step.perform (.atOffset bytes start) = .error (.overflow .readerOffset) r') ↔ addressLimit ≤ start + n := by
  constructor
  · rintro ⟨r', failed⟩
    rcases Read.take_cases n inside with ⟨-, -, taken⟩ | ⟨beyond, -⟩ | ⟨-, -, short⟩
    · obtain ⟨field, value, same⟩ := fault_of_take wide taken failed
      cases same
    · exact beyond
    · cases failed.symm.trans (perform_of_take_error wide short)
  · intro beyond
    exact ⟨_, by rw [perform_of_short wide inside (by omega), if_pos beyond]⟩

/-! ### Runs -/

theorem exists_next (step : ReadStep α) (inside : start ≤ bytes.length) :
    ∃ stop, start ≤ stop ∧ stop ≤ bytes.length ∧ step.next (.atOffset bytes start) = .atOffset bytes stop := by
  have ends := step.disciplined_perform inside
  unfold next
  cases performed : step.perform (.atOffset bytes start) with
  | ok a r =>
    rw [performed] at ends
    exact ends
  | error fault r =>
    rw [performed] at ends
    obtain ⟨stop, forward, within, same, -⟩ := ends
    exact ⟨stop, forward, within, same⟩

end ReadStep

/-- Steps that a reader is asked for one after the other. -/
abbrev ReadSteps := List ((α : Type) × ReadStep α)

namespace ReadSteps

/-- Where a reader stands after all steps. A step that fails does not keep the next one from being asked for. -/
def run (steps : ReadSteps) (r : Reader) : Reader := steps.foldl (fun r step => step.2.next r) r

theorem exists_run {bytes : Bytes} {start : Nat} (steps : ReadSteps) (inside : start ≤ bytes.length) :
    ∃ stop, start ≤ stop ∧ stop ≤ bytes.length ∧ steps.run (.atOffset bytes start) = .atOffset bytes stop := by
  induction steps generalizing start with
  | nil => exact ⟨start, Nat.le_refl _, inside, rfl⟩
  | cons step steps ih =>
    obtain ⟨middle, forward, within, next⟩ := step.2.exists_next inside
    obtain ⟨stop, onward, last, same⟩ := ih within
    exact ⟨stop, Nat.le_trans forward onward, last, by rw [← same, ← next]; rfl⟩

/-- After any steps, successful or not, a reader stands within its byte string, and it never goes back. A primitive step
hands out the bytes in front of it or, where they run short, leaves the reader alone; a step that fails stops within the
byte string, and what its fault says of the bytes is true of them. -/
theorem keep_to_the_bytes (bytes : Bytes) (bound : bytes.length < addressLimit) (steps more : ReadSteps) :
    let r := steps.run (.ofBytes bytes)
    let start := r.offset
    (start + r.remaining = bytes.length ∧ r = .atOffset bytes start ∧ start ≤ (more.run r).offset) ∧
    (∀ {α : Type} (step : ReadStep α),
      (∀ n ∈ step.width?,
        (∀ a r', step.perform r = .ok a r' ↔
          start + n ≤ bytes.length ∧ step.Holds ((bytes.drop start).take n) a ∧ r' = .atOffset bytes (start + n)) ∧
        (bytes.length < start + n → step.perform r = .error
          (if addressLimit ≤ start + n then .overflow .readerOffset else .sizeMismatch (start + n) bytes.length) r) ∧
        ((∃ r', step.perform r = .error (.overflow .readerOffset) r') ↔ addressLimit ≤ start + n)) ∧
      (∀ fault r', step.perform r = .error fault r' →
        start ≤ r'.offset ∧ r'.offset ≤ bytes.length ∧ fault.Blames step.Refuses bytes start r'.offset)) ∧
    (∀ field byte, bytes[start]? = some byte → 1 < byte →
      (ReadStep.flag field).perform r =
        .error (.fieldOutOfRange start field byte.toUInt32) (.atOffset bytes (start + 1))) := by
  obtain ⟨start, -, inside, stands⟩ := exists_run steps (Nat.zero_le bytes.length)
  have origin : Reader.ofBytes bytes = .atOffset bytes 0 := by rw [Reader.ofBytes, Reader.atOffset, List.drop_zero]
  rw [← origin] at stands
  rw [stands]
  refine ⟨⟨?_, rfl, ?_⟩, fun step => ⟨fun n wide => ⟨fun a r' => step.perform_eq_ok_iff wide inside bound,
    step.perform_of_short wide inside, step.overflows_iff wide inside bound⟩, fun fault r' failed => ?_⟩,
    fun field byte here other => ReadStep.flag_of_other field here other bound⟩
  · rw [Reader.remaining_atOffset]
    exact Nat.add_sub_cancel' inside
  · obtain ⟨stop, forward, -, ended⟩ := exists_run more inside
    rw [ended]
    exact forward
  · have ends := step.disciplined_perform inside
    rw [failed] at ends
    obtain ⟨stop, forward, within, rfl, blames⟩ := ends
    exact ⟨forward, within, blames⟩

/-- A flag that is refused inside an optional item, behind a byte that was skipped, and what can be asked for then. -/
theorem keep_to_the_bytes_damaged :
    let bytes : Bytes := [9, 1, 0, 0, 0, 1, 7, 5]
    let damaged : ReadStep (List (Option Bool)) := .value (.sequence (.option (.flag "bool")))
    bytes.length < addressLimit ∧
    damaged.perform (run [⟨_, .skip 1⟩] (.ofBytes bytes)) = .error (.fieldOutOfRange 6 "bool" 7) (.atOffset bytes 7) ∧
    (Fault.fieldOutOfRange 6 "bool" 7).Blames damaged.Refuses bytes 1 7 ∧
    (ReadStep.word Word.u64).perform (run [⟨_, .skip 1⟩, ⟨_, damaged⟩] (.ofBytes bytes)) =
      .error (.sizeMismatch 15 8) (.atOffset bytes 7) ∧
    ∃ r', (ReadStep.take 0xffffffffffffffff).perform (run [⟨_, .skip 1⟩, ⟨_, damaged⟩] (.ofBytes bytes)) =
      .error (.overflow .readerOffset) r' := by
  intro bytes damaged
  have bound : bytes.length < addressLimit := by decide
  have failed : damaged.perform (run [⟨_, .skip 1⟩] (.ofBytes bytes)) =
      .error (.fieldOutOfRange 6 "bool" 7) (.atOffset bytes 7) := rfl
  obtain ⟨-, before, -⟩ := keep_to_the_bytes bytes bound [⟨_, .skip 1⟩] []
  obtain ⟨-, behind, -⟩ := keep_to_the_bytes bytes bound [⟨_, .skip 1⟩, ⟨_, damaged⟩] []
  obtain ⟨-, -, blames⟩ := (before damaged).2 _ _ failed
  obtain ⟨-, short, -⟩ := (behind (.word Word.u64)).1 8 rfl
  obtain ⟨-, -, overflows⟩ := (behind (.take 0xffffffffffffffff)).1 _ rfl
  exact ⟨bound, failed, blames, short (by decide), overflows.mpr (by decide)⟩

end ReadSteps

end StakePool
