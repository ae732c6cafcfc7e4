import StakePool.Proofs.Codec.Plain

/-!
# What a record checks

The `Layout.checks` of a record are the parts of it that take some values only: bytes that stand for the members of an
enumeration, and the marks of optional parts. A byte string of the right length holds a record when all checks pass, and
is refused for the first that does not; writing the record back gives the same bytes, but for zeros in the space of
absent parts (`blank`). `Layout.readByChecks` is the induction behind this, over a layout that may stand anywhere in a byte string,
and `Layout.decodesBy` states it for whole records.
-/

namespace StakePool

/-! ### Checks -/

/-- The values that some byte stands for. -/
def ByteCode.values {α : Type} (c : ByteCode α) : List Nat :=
  (List.range 256).filter fun n => (c.ofByte? (.ofNat n)).isSome

theorem ByteCode.mem_values_iff {α : Type} {c : ByteCode α} {n : Nat} (small : n < 256) :
    n ∈ c.values ↔ (c.ofByte? (.ofNat n)).isSome = true := by
  rw [ByteCode.values, List.mem_filter, List.mem_range, and_iff_right small]

/-- A part of a record that takes some values only. -/
structure Check where
  offset : Nat
  width : Nat
  /-- What the part is called when it is refused. -/
  field : String
  accepted : List Nat
  /-- How many bytes behind this part are passed over when it is zero. -/
  space : Nat
deriving DecidableEq

namespace Check

def value (c : Check) (bytes : Bytes) : Nat := Bytes.ofLittleEndian ((bytes.drop c.offset).take c.width)

def Passes (c : Check) (bytes : Bytes) : Prop := c.value bytes ∈ c.accepted

def fault (c : Check) (bytes : Bytes) : Fault := .fieldOutOfRange c.offset c.field (.ofNat (c.value bytes))

def stop (c : Check) : Nat := c.offset + c.width + c.space

/-- Whether a position lies in the space of a part that is absent. -/
def Hides (c : Check) (bytes : Bytes) (i : Nat) : Prop :=
  c.value bytes = 0 ∧ c.offset + c.width ≤ i ∧ i < c.stop

instance (c : Check) (bytes : Bytes) (i : Nat) : Decidable (c.Hides bytes i) := inferInstanceAs (Decidable (_ ∧ _))

end Check

/-- The bytes with zeros in the space of absent parts. -/
def blank (checks : List Check) (bytes : Bytes) : Bytes :=
  bytes.mapIdx fun i byte => if ∃ c ∈ checks, c.Hides bytes i then 0 else byte

section

variable {checks left right : List Check} {bytes bytes' : Bytes} {i : Nat}

@[simp] theorem length_blank : (blank checks bytes).length = bytes.length := List.length_mapIdx

theorem getElem?_blank_of_hidden (hidden : ∃ c ∈ checks, c.Hides bytes i) (inside : i < bytes.length) :
    (blank checks bytes)[i]? = some 0 := by
  rw [blank, List.getElem?_mapIdx, List.getElem?_eq_getElem inside, Option.map_some, if_pos hidden]

theorem getElem?_blank_of_shown (shown : ∀ c ∈ checks, ¬ c.Hides bytes i) : (blank checks bytes)[i]? = bytes[i]? := by
  have none : ¬ ∃ c ∈ checks, c.Hides bytes i := fun ⟨c, member, hides⟩ => shown c member hides
  rw [blank, List.getElem?_mapIdx]
  simp only [none, if_false, Option.map_id']

theorem blank_nil (bytes : Bytes) : blank [] bytes = bytes :=
  List.ext_getElem? fun _ => getElem?_blank_of_shown fun _ member => nomatch member

theorem getElem?_blank_congr (same : ∀ c, c.Hides bytes i → (c ∈ left ↔ c ∈ right)) :
    (blank left bytes)[i]? = (blank right bytes)[i]? := by
  have hidden : (∃ c ∈ left, c.Hides bytes i) ↔ ∃ c ∈ right, c.Hides bytes i :=
    exists_congr fun c => and_congr_left (same c)
  simp only [blank, List.getElem?_mapIdx, hidden]

end

namespace Layout

variable {α : Type} {l : Layout α} {offset : Nat} {c : Check} {bytes : Bytes}

/-- Whether no optional part has anything to check inside. -/
def Flat : {α : Type} → Layout α → Prop
  | _, empty => True
  | _, word _ => True
  | _, code _ _ => True
  | _, block _ => True
  | _, optional _ payload => payload.Plain
  | _, pair first second => first.Flat ∧ second.Flat
  | _, via _ inner => inner.Flat

/-- The checks of a flat layout that begins at `offset`, in order. -/
def checks : {α : Type} → Layout α → Nat → List Check
  | _, empty, _ => []
  | _, word _, _ => []
  | _, code field c, offset => [⟨offset, 1, field, c.values, 0⟩]
  | _, block _, _ => []
  | _, optional presence payload, offset => [⟨offset, presence.width, presence.field, [0, 1], payload.size⟩]
  | _, pair first second, offset => first.checks offset ++ second.checks (offset + first.size)
  | _, via _ inner, offset => inner.checks offset

/-! ### Where the checks lie -/

theorem check_within (member : c ∈ l.checks offset) : offset ≤ c.offset ∧ c.stop ≤ offset + l.size := by
  induction l generalizing offset with
  | empty => cases member
  | word w => cases member
  | code field code =>
    obtain rfl := List.mem_singleton.mp member
    exact ⟨Nat.le_refl _, Nat.le_refl _⟩
  | block n => cases member
  | optional presence payload =>
    obtain rfl := List.mem_singleton.mp member
    exact ⟨Nat.le_refl _, Nat.le_of_eq (Nat.add_assoc ..)⟩
  | pair first second ihFirst ihSecond =>
    rw [size]
    rcases List.mem_append.mp member with inFirst | inSecond
    · have := ihFirst inFirst
      omega
    · have := ihSecond inSecond
      omega
  | via bijection inner ih => exact ih member

theorem pairwise_checks (l : Layout α) (offset : Nat) : (l.checks offset).Pairwise fun c d => c.stop ≤ d.offset := by
  induction l generalizing offset with
  | empty => exact .nil
  | word w => exact .nil
  | code field c => exact List.pairwise_singleton ..
  | block n => exact .nil
  | optional presence payload => exact List.pairwise_singleton ..
  | pair first second ihFirst ihSecond =>
    refine List.pairwise_append.mpr ⟨ihFirst offset, ihSecond _, fun c inFirst d inSecond => ?_⟩
    exact Nat.le_trans (check_within inFirst).2 (check_within inSecond).1
  | via bijection inner ih => exact ih offset

theorem not_hides_of_lt (member : c ∈ l.checks offset) {i : Nat} (before : i < offset) : ¬ c.Hides bytes i := by
  rintro ⟨-, reached, -⟩
  have := (check_within member).1
  omega

theorem not_hides_of_le (member : c ∈ l.checks offset) {i : Nat} (behind : offset + l.size ≤ i) :
    ¬ c.Hides bytes i := by
  rintro ⟨-, -, within⟩
  have := (check_within member).2
  omega

theorem checks_apart {d : Check} (inC : c ∈ l.checks offset) (inD : d ∈ l.checks offset) :
    c = d ∨ c.stop ≤ d.offset ∨ d.stop ≤ c.offset := by
  have ordered := List.pairwise_iff_getElem.mp (pairwise_checks l offset)
  obtain ⟨i, hi, rfl⟩ := List.getElem_of_mem inC
  obtain ⟨j, hj, rfl⟩ := List.getElem_of_mem inD
  rcases Nat.lt_trichotomy i j with before | rfl | behind
  · exact .inr (.inl (ordered i j hi hj before))
  · exact .inl rfl
  · exact .inr (.inr (ordered j i hj hi behind))

/-- What a check looks at does not lie in the space of an absent part. -/
theorem not_hides_check {d : Check} (inC : c ∈ l.checks offset) (inD : d ∈ l.checks offset) {i : Nat}
    (inside : i < c.width) : ¬ d.Hides bytes (c.offset + i) := by
  have stop : c.offset + c.width ≤ c.stop := Nat.le_add_right ..
  rintro ⟨-, reached, below⟩
  rcases checks_apart inC inD with rfl | before | behind
  · omega
  · omega
  · omega

/-- A check gives the same verdict on byte strings that differ in the space of absent parts only. -/
theorem value_congr {bytes' : Bytes} (member : c ∈ l.checks offset)
    (same : ∀ i, (¬ ∃ d ∈ l.checks offset, d.Hides bytes i) → bytes'[i]? = bytes[i]?) :
    c.value bytes' = c.value bytes := by
  refine congrArg Bytes.ofLittleEndian (List.ext_getElem? fun i => ?_)
  rw [List.getElem?_take, List.getElem?_take]
  split
  · rename_i inside
    rw [List.getElem?_drop, List.getElem?_drop, same]
    rintro ⟨d, inD, hides⟩
    exact not_hides_check member inD inside hides
  · rfl

theorem blank_congr {bytes' : Bytes} (within : offset + l.size ≤ bytes.length) (sized : bytes'.length = bytes.length)
    (same : ∀ i, (¬ ∃ c ∈ l.checks offset, c.Hides bytes i) → bytes'[i]? = bytes[i]?) :
    blank (l.checks offset) bytes' = blank (l.checks offset) bytes := by
  refine List.ext_getElem? fun i => ?_
  have hides (c : Check) (member : c ∈ l.checks offset) : c.Hides bytes' i ↔ c.Hides bytes i := by
    rw [Check.Hides, value_congr member same, Check.Hides]
  by_cases hidden : ∃ c ∈ l.checks offset, c.Hides bytes i
  · obtain ⟨c, member, covers⟩ := hidden
    have inside : i < bytes.length := Nat.lt_of_lt_of_le covers.2.2 (Nat.le_trans (check_within member).2 within)
    rw [getElem?_blank_of_hidden ⟨c, member, covers⟩ inside,
      getElem?_blank_of_hidden ⟨c, member, (hides c member).mpr covers⟩ (sized ▸ inside)]
  · have shown (c : Check) (member : c ∈ l.checks offset) : ¬ c.Hides bytes i := fun covers => hidden ⟨c, member, covers⟩
    rw [getElem?_blank_of_shown shown, getElem?_blank_of_shown fun c member => mt (hides c member).mp (shown c member),
      same i hidden]

end Layout

/-! ### Reading from within a byte string -/

section

variable {α : Type} {bytes : Bytes} {offset n : Nat}

theorem getElem?_window (bytes : Bytes) {i : Nat} (inside : i < n) :
    ((bytes.drop offset).take n)[i]? = bytes[offset + i]? := by
  rw [List.getElem?_take, if_pos inside, List.getElem?_drop]

theorem length_window (within : offset + n ≤ bytes.length) : ((bytes.drop offset).take n).length = n := by
  rw [List.length_take, List.length_drop]
  omega

theorem Reader.atOffset_eq (bytes : Bytes) (offset n : Nat) :
    atOffset bytes offset = ⟨offset, (bytes.drop offset).take n ++ bytes.drop (offset + n)⟩ := by
  rw [atOffset, ← List.drop_drop, List.take_append_drop]

namespace Read

/-- Any bytes of the right number are read as a word. -/
theorem word_stored (w : Word α) {stored : Bytes} (sized : stored.length = w.width)
    (bound : offset + w.width < addressLimit) (rest : Bytes) :
    word w ⟨offset, stored ++ rest⟩ = .ok (w.ofBytes stored) ⟨offset + w.width, rest⟩ := by
  have read := word_append w (w.ofBytes stored) bound rest
  rwa [w.bytes_ofBytes sized] at read

theorem word_atOffset (w : Word α) (within : offset + w.width ≤ bytes.length) (bound : bytes.length < addressLimit) :
    word w (.atOffset bytes offset) =
      .ok (w.ofBytes ((bytes.drop offset).take w.width)) (.atOffset bytes (offset + w.width)) := by
  rw [Reader.atOffset_eq bytes offset w.width]
  exact word_stored w (length_window within) (by omega) _

theorem skip_atOffset (within : offset + n ≤ bytes.length) (bound : bytes.length < addressLimit) :
    skip n (.atOffset bytes offset) = .ok () (.atOffset bytes (offset + n)) := by
  rw [Reader.atOffset_eq bytes offset n]
  exact skip_append (length_window within) (by omega) _

end Read

theorem toUInt32_ofNat {n : Nat} (small : n < 256) : (UInt8.ofNat n).toUInt32 = UInt32.ofNat n := by
  apply UInt32.toNat_inj.mp
  rw [UInt8.toNat_toUInt32, UInt8.toNat_ofNat_of_lt' small, UInt32.toNat_ofNat_of_lt' (Nat.lt_trans small (by decide))]

namespace Presence

theorem read_stored (presence : Presence) {stored : Bytes} (sized : stored.length = presence.width)
    (bound : offset + presence.width < addressLimit) (rest : Bytes) :
    presence.read ⟨offset, stored ++ rest⟩ =
      .ok (.ofNat (Bytes.ofLittleEndian stored)) ⟨offset + presence.width, rest⟩ := by
  cases presence with
  | byte =>
    have small := Bytes.ofLittleEndian_lt stored
    rw [sized] at small
    rw [← toUInt32_ofNat small]
    exact Read.bind_of_ok (Read.word_stored Word.u8 sized bound rest)
  | word => exact Read.word_stored Word.u32 sized bound rest

theorem read_atOffset (presence : Presence) (within : offset + presence.width ≤ bytes.length)
    (bound : bytes.length < addressLimit) :
    presence.read (.atOffset bytes offset) =
      .ok (.ofNat (Bytes.ofLittleEndian ((bytes.drop offset).take presence.width)))
        (.atOffset bytes (offset + presence.width)) := by
  rw [Reader.atOffset_eq bytes offset presence.width]
  exact presence.read_stored (length_window within) (by omega) _

end Presence

theorem Layout.exists_read_atOffset {l : Layout α} (plain : l.Plain) (within : offset + l.size ≤ bytes.length)
    (bound : bytes.length < addressLimit) :
    ∃ a, l.read (.atOffset bytes offset) = .ok a (.atOffset bytes (offset + l.size)) ∧
      l.encode a = (bytes.drop offset).take l.size := by
  obtain ⟨a, stored⟩ := l.exists_encode plain (length_window within)
  refine ⟨a, ?_, stored⟩
  rw [Reader.atOffset_eq bytes offset l.size, ← stored]
  exact l.read_encode a (by omega) _

end

/-! ### Reading a record -/

namespace Layout

variable {α β : Type} {l : Layout α} {offset : Nat} {bytes : Bytes}

/-- What is said of a layout that is read at an offset of a byte string: its checks decide. -/
def ReadByChecks (l : Layout α) (bytes : Bytes) (offset : Nat) : Prop :=
  (∃ a, l.read (.atOffset bytes offset) = .ok a (.atOffset bytes (offset + l.size)) ∧
    (∀ c ∈ l.checks offset, c.Passes bytes) ∧
    ∀ i < l.size, (l.encode a)[i]? = (blank (l.checks offset) bytes)[offset + i]?) ∨
  ∃ before c after, l.checks offset = before ++ c :: after ∧ (∀ d ∈ before, d.Passes bytes) ∧
    ¬ c.Passes bytes ∧ ∃ r', l.read (.atOffset bytes offset) = .error (c.fault bytes) r'

theorem checks_eq_nil (plain : l.Plain) (offset : Nat) : l.checks offset = [] := by
  induction l generalizing offset with
  | empty => rfl
  | word w => rfl
  | code field c => exact plain.elim
  | block n => rfl
  | optional presence payload => exact plain.elim
  | pair first second ihFirst ihSecond => rw [checks, ihFirst plain.1, ihSecond plain.2, List.append_nil]
  | via bijection inner ih => exact ih plain offset

theorem readByChecks_of_plain (plain : l.Plain) (within : offset + l.size ≤ bytes.length)
    (bound : bytes.length < addressLimit) : l.ReadByChecks bytes offset := by
  obtain ⟨a, read, stored⟩ := exists_read_atOffset plain within bound
  refine .inl ⟨a, read, ?_, fun i inside => ?_⟩
  · rw [checks_eq_nil plain]
    exact fun c member => nomatch member
  · rw [stored, getElem?_window bytes inside, checks_eq_nil plain, blank_nil]

theorem readByChecks_code (field : String) (c : ByteCode α) (within : offset + 1 ≤ bytes.length)
    (bound : bytes.length < addressLimit) : (code field c).ReadByChecks bytes offset := by
  have width := length_window within
  have read : Read.word Word.u8 (.atOffset bytes offset) =
      .ok (Word.u8.ofBytes ((bytes.drop offset).take 1)) (.atOffset bytes (offset + 1)) :=
    Read.word_atOffset Word.u8 within bound
  have small := Bytes.ofLittleEndian_lt ((bytes.drop offset).take 1)
  rw [width] at small
  have passes : ∀ d ∈ (code field c).checks offset,
      d.Passes bytes ↔ (c.ofByte? (Word.u8.ofBytes ((bytes.drop offset).take 1))).isSome = true := by
    intro d member
    rw [List.mem_singleton.mp member]
    exact ByteCode.mem_values_iff small
  cases known : c.ofByte? (Word.u8.ofBytes ((bytes.drop offset).take 1)) with
  | some a =>
    refine .inl ⟨a, Read.code_of_known read known, fun d member => (passes d member).mpr ?_, fun i inside => ?_⟩
    · rw [known]
      rfl
    · have shown : ∀ d ∈ (code field c).checks offset, ¬ d.Hides bytes (offset + i) := by
        rintro d member ⟨-, reached, below⟩
        rw [List.mem_singleton.mp member] at reached below
        exact Nat.not_lt.mpr reached below
      rw [encode_code, c.toByte_of_ofByte? _ a known, Word.u8.bytes_ofBytes width,
        getElem?_window bytes (show i < 1 from inside), getElem?_blank_of_shown shown]
  | none =>
    have byte : (Word.u8.ofBytes ((bytes.drop offset).take 1)).toUInt32 = _ := toUInt32_ofNat small
    refine .inr ⟨[], _, [], rfl, List.forall_mem_nil _, fun passing => ?_, _, byte ▸ Read.code_of_unknown read known⟩
    have some := (passes _ (.head _)).mp passing
    rw [known] at some
    cases some

section

variable {presence : Presence} {payload : Layout α} {i : Nat}

/-- An absent part is written as its mark and zeros. -/
theorem getElem?_encode_none (within : offset + (optional presence payload).size ≤ bytes.length)
    (inside : i < (optional presence payload).size)
    (absent : ∀ c ∈ (optional presence payload).checks offset, c.value bytes = 0)
    (stored : Bytes.littleEndian presence.width 0 = (bytes.drop offset).take presence.width) :
    ((optional presence payload).encode none)[i]? =
      (blank ((optional presence payload).checks offset) bytes)[offset + i]? := by
  rw [size] at within inside
  have length := length_window (show offset + presence.width ≤ bytes.length by omega)
  rw [encode_none, stored]
  rcases Nat.lt_or_ge i presence.width with inMark | inSpace
  · have shown : ∀ c ∈ (optional presence payload).checks offset, ¬ c.Hides bytes (offset + i) := by
      rintro c member ⟨-, reached, -⟩
      rw [List.mem_singleton.mp member] at reached
      exact Nat.not_lt.mpr reached (Nat.add_lt_add_left inMark _)
    rw [List.getElem?_append_left (by rwa [length]), getElem?_window bytes inMark, getElem?_blank_of_shown shown]
  · have below : offset + i < offset + presence.width + payload.size := by omega
    have hidden : ∃ c ∈ (optional presence payload).checks offset, c.Hides bytes (offset + i) :=
      ⟨_, .head _, absent _ (.head _), Nat.add_le_add_left inSpace _, below⟩
    rw [List.getElem?_append_right (by rwa [length]), length, getElem?_blank_of_hidden hidden (by omega), Bytes.zeros,
      List.getElem?_replicate, if_pos (by omega)]

/-- A part that is present is written as the bytes it was read from. -/
theorem getElem?_encode_some {a : α} (inside : i < (optional presence payload).size)
    (present : ∀ c ∈ (optional presence payload).checks offset, c.value bytes = 1)
    (stored : Bytes.littleEndian presence.width 1 = (bytes.drop offset).take presence.width)
    (storedPayload : payload.encode a = (bytes.drop (offset + presence.width)).take payload.size) :
    ((optional presence payload).encode (some a))[i]? =
      (blank ((optional presence payload).checks offset) bytes)[offset + i]? := by
  have shown : ∀ c ∈ (optional presence payload).checks offset, ¬ c.Hides bytes (offset + i) := by
    rintro c member ⟨zero, -⟩
    rw [present c member] at zero
    cases zero
  rw [encode_some, stored, storedPayload, ← List.drop_drop, ← List.take_add, getElem?_blank_of_shown shown]
  exact getElem?_window bytes inside

/-- An optional part is absent when its mark is 0, whatever lies in its space, and present when it is 1. -/
theorem readByChecks_optional (plain : payload.Plain)
    (within : offset + (optional presence payload).size ≤ bytes.length) (bound : bytes.length < addressLimit) :
    (optional presence payload).ReadByChecks bytes offset := by
  have whole := within
  rw [size, ← Nat.add_assoc] at within
  have front : offset + presence.width ≤ bytes.length := Nat.le_trans (Nat.le_add_right ..) within
  have read := presence.read_atOffset front bound
  have stored := Bytes.littleEndian_ofLittleEndian ((bytes.drop offset).take presence.width)
  have small := Bytes.ofLittleEndian_lt ((bytes.drop offset).take presence.width)
  rw [length_window front] at stored small
  have value : ∀ c ∈ (optional presence payload).checks offset,
      c.value bytes = Bytes.ofLittleEndian ((bytes.drop offset).take presence.width) := by
    intro c member
    rw [List.mem_singleton.mp member]
    rfl
  generalize Bytes.ofLittleEndian ((bytes.drop offset).take presence.width) = mark at read stored small value
  rcases show mark = 0 ∨ mark = 1 ∨ 1 < mark by omega with rfl | rfl | large
  · refine .inl ⟨none, ?_, fun c member => ?_, fun i inside => getElem?_encode_none whole inside value stored⟩
    · rw [read_optional_absent read, size, ← Nat.add_assoc]
      exact Read.bind_of_ok (Read.skip_atOffset within bound)
    · rw [Check.Passes, value c member, List.mem_singleton.mp member]
      exact .head _
  · obtain ⟨a, readPayload, storedPayload⟩ := exists_read_atOffset plain within bound
    refine .inl ⟨some a, ?_, fun c member => ?_, fun i inside => getElem?_encode_some inside value stored storedPayload⟩
    · rw [read_optional_present read, size, ← Nat.add_assoc]
      exact Read.bind_of_ok readPayload
    · rw [Check.Passes, value c member, List.mem_singleton.mp member]
      exact .tail _ (.head _)
  · have range : mark < 2 ^ 32 := by
      cases presence with
      | byte => exact Nat.lt_trans small (by decide)
      | word => exact small
    have word : (UInt32.ofNat mark).toNat = mark := UInt32.toNat_ofNat_of_lt' range
    have absent : UInt32.ofNat mark ≠ 0 := by
      rw [Ne, ← UInt32.toNat_inj, word]
      exact Nat.ne_of_gt (Nat.lt_trans Nat.one_pos large)
    have present : UInt32.ofNat mark ≠ 1 := by
      rw [Ne, ← UInt32.toNat_inj, word]
      exact Nat.ne_of_gt large
    refine .inr ⟨[], _, [], rfl, List.forall_mem_nil _, ?_, .atOffset bytes (offset + presence.width), ?_⟩
    · rw [Check.Passes, value _ (.head _)]
      simp only [List.mem_cons, List.not_mem_nil, or_false]
      omega
    · rw [Check.fault, value _ (.head _)]
      exact read_optional_refused read absent present

end

/-- No check of one part hides bytes of the other. -/
theorem getElem?_encode_pair {first : Layout α} {second : Layout β} {a : α} {b : β} {i : Nat}
    (inside : i < (pair first second).size)
    (keptFirst : ∀ i < first.size, (first.encode a)[i]? = (blank (first.checks offset) bytes)[offset + i]?)
    (keptSecond : ∀ i < second.size,
      (second.encode b)[i]? = (blank (second.checks (offset + first.size)) bytes)[offset + first.size + i]?) :
    ((pair first second).encode (a, b))[i]? = (blank ((pair first second).checks offset) bytes)[offset + i]? := by
  rw [size] at inside
  rw [encode_pair, checks]
  rcases Nat.lt_or_ge i first.size with inFirst | inSecond
  · rw [List.getElem?_append_left (by rwa [length_encode]), keptFirst i inFirst]
    refine getElem?_blank_congr fun c hides => ⟨List.mem_append_left _, fun member => ?_⟩
    refine (List.mem_append.mp member).resolve_right fun later => ?_
    exact not_hides_of_lt later (Nat.add_lt_add_left inFirst _) hides
  · have position : offset + first.size + (i - first.size) = offset + i := by omega
    rw [List.getElem?_append_right (by rwa [length_encode]), length_encode, keptSecond _ (by omega), position]
    refine getElem?_blank_congr fun c hides => ⟨List.mem_append_right _, fun member => ?_⟩
    refine (List.mem_append.mp member).resolve_left fun earlier => ?_
    exact not_hides_of_le earlier (Nat.add_le_add_left inSecond _) hides

/-- Reading a flat layout looks at its checks in order and at nothing else. -/
theorem readByChecks (flat : l.Flat) (within : offset + l.size ≤ bytes.length) (bound : bytes.length < addressLimit) :
    l.ReadByChecks bytes offset := by
  induction l generalizing offset with
  | empty => exact readByChecks_of_plain trivial within bound
  | word w => exact readByChecks_of_plain trivial within bound
  | code field c => exact readByChecks_code field c within bound
  | block n => exact readByChecks_of_plain trivial within bound
  | optional presence payload => exact readByChecks_optional flat within bound
  | pair first second ihFirst ihSecond =>
    rw [size, ← Nat.add_assoc] at within
    rcases ihFirst flat.1 (Nat.le_trans (Nat.le_add_right ..) within) with
      ⟨a, readFirst, passFirst, keptFirst⟩ | ⟨before, c, after, found, earlier, fails, r', refused⟩
    · rcases ihSecond flat.2 within with
        ⟨b, readSecond, passSecond, keptSecond⟩ | ⟨before, c, after, found, earlier, fails, r', refused⟩
      · refine .inl ⟨(a, b), ?_, List.forall_mem_append.mpr ⟨passFirst, passSecond⟩, fun i inside =>
          getElem?_encode_pair inside keptFirst keptSecond⟩
        rw [read, Read.bind_of_ok readFirst, Read.bind_of_ok readSecond, size, ← Nat.add_assoc]
        rfl
      · refine .inr ⟨first.checks offset ++ before, c, after, ?_, List.forall_mem_append.mpr ⟨passFirst, earlier⟩, fails,
          r', ?_⟩
        · rw [checks, found, List.append_assoc]
        · rw [read, Read.bind_of_ok readFirst, Read.bind_of_error refused]
    · refine .inr ⟨before, c, after ++ second.checks (offset + first.size), ?_, earlier, fails, r', ?_⟩
      · rw [checks, found, List.append_assoc, List.cons_append]
      · rw [read, Read.bind_of_error refused]
  | via bijection inner ih =>
    rcases ih flat within with ⟨a, read, pass, kept⟩ | ⟨before, c, after, found, earlier, fails, r', refused⟩
    · refine .inl ⟨bijection.forth a, Read.bind_of_ok read, pass, ?_⟩
      rw [encode_via, bijection.back_forth]
      exact kept
    · exact .inr ⟨before, c, after, found, earlier, fails, r', Read.bind_of_error refused _⟩

/-! ### Records -/

/-- What decoding a record of a layout amounts to: the checks say which byte strings of the right length are refused,
and for what, and which bytes do not matter. -/
structure DecodesBy (l : Layout α) (size : Nat) (checks : List Check) : Prop where
  wrong_length : ∀ bytes, bytes.length ≠ size → l.decodeExact bytes = .error (.sizeMismatch size bytes.length)
  accepted_iff : ∀ bytes, (∃ a, l.decodeExact bytes = .ok a) ↔ bytes.length = size ∧ ∀ c ∈ checks, c.Passes bytes
  first_fault : ∀ bytes fault, bytes.length = size → l.decodeExact bytes = .error fault →
    ∃ c ∈ checks, fault = c.fault bytes ∧ ¬ c.Passes bytes ∧ ∀ d ∈ checks, d.offset < c.offset → d.Passes bytes
  normal_form : ∀ bytes a, l.decodeExact bytes = .ok a → l.encode a = blank checks bytes
  stable : ∀ bytes a, l.decodeExact bytes = .ok a → l.decodeExact (l.encode a) = .ok a
  blind : ∀ bytes bytes' a, l.decodeExact bytes = .ok a → bytes'.length = bytes.length →
    (∀ i, (¬ ∃ c ∈ checks, c.Hides bytes i) → bytes'[i]? = bytes[i]?) → l.decodeExact bytes' = .ok a

theorem decodeExact_of_wrong_length (wrong : bytes.length ≠ l.size) :
    l.decodeExact bytes = .error (.sizeMismatch l.size bytes.length) := if_neg wrong

theorem decodeExact_of_sized (sized : bytes.length = l.size) :
    l.decodeExact bytes = match l.read (.atOffset bytes 0) with
      | .ok a _ => .ok a
      | .error fault _ => .error fault := by
  rw [decodeExact, if_pos sized, decode, if_neg (by omega), List.take_of_length_le (Nat.le_of_eq sized)]
  rfl

theorem decodeExact_encode (l : Layout α) (a : α) (small : l.size < addressLimit) :
    l.decodeExact (l.encode a) = .ok a := by
  have read : l.read ⟨0, l.encode a ++ []⟩ = .ok a _ := l.read_encode a (by omega) []
  rw [List.append_nil] at read
  rw [decodeExact_of_sized (length_encode l a), Reader.atOffset, List.drop_zero, read]

theorem decodeExact_cases (flat : l.Flat) (small : l.size < addressLimit) (sized : bytes.length = l.size) :
    (∃ a, l.decodeExact bytes = .ok a ∧ (∀ c ∈ l.checks 0, c.Passes bytes) ∧ l.encode a = blank (l.checks 0) bytes) ∨
    ∃ before c after, l.checks 0 = before ++ c :: after ∧ (∀ d ∈ before, d.Passes bytes) ∧ ¬ c.Passes bytes ∧
      l.decodeExact bytes = .error (c.fault bytes) := by
  have whole : 0 + l.size ≤ bytes.length := by omega
  rw [decodeExact_of_sized sized]
  rcases readByChecks flat whole (sized ▸ small) with
    ⟨a, read, pass, kept⟩ | ⟨before, c, after, found, earlier, fails, r', refused⟩
  · refine .inl ⟨a, by rw [read], pass, List.ext_getElem? fun i => ?_⟩
    rcases Nat.lt_or_ge i l.size with inside | outside
    · rw [kept i inside, Nat.zero_add]
    · rw [List.getElem?_eq_none (by rwa [length_encode]), List.getElem?_eq_none (by rwa [length_blank, sized])]
  · exact .inr ⟨before, c, after, found, earlier, fails, by rw [refused]⟩

theorem length_of_decodeExact {a : α} (decoded : l.decodeExact bytes = .ok a) : bytes.length = l.size := by
  refine Decidable.byContradiction fun wrong => ?_
  rw [decodeExact_of_wrong_length wrong] at decoded
  cases decoded

theorem decodeExact_eq_ok {a : α} (flat : l.Flat) (small : l.size < addressLimit) (decoded : l.decodeExact bytes = .ok a) :
    (∀ c ∈ l.checks 0, c.Passes bytes) ∧ l.encode a = blank (l.checks 0) bytes := by
  rcases decodeExact_cases flat small (length_of_decodeExact decoded) with
    ⟨b, accepted, pass, kept⟩ | ⟨_, _, _, _, _, _, refused⟩
  · obtain rfl := Except.ok.inj (decoded.symm.trans accepted)
    exact ⟨pass, kept⟩
  · cases decoded.symm.trans refused

theorem exists_decodeExact (flat : l.Flat) (small : l.size < addressLimit) (sized : bytes.length = l.size)
    (pass : ∀ c ∈ l.checks 0, c.Passes bytes) : ∃ a, l.decodeExact bytes = .ok a := by
  rcases decodeExact_cases flat small sized with ⟨a, accepted, -, -⟩ | ⟨before, c, after, found, -, fails, -⟩
  · exact ⟨a, accepted⟩
  · exact absurd (pass c (found ▸ List.mem_append_right _ (.head _))) fails

theorem decodesBy (flat : l.Flat) (small : l.size < addressLimit) : l.DecodesBy l.size (l.checks 0) where
  wrong_length bytes := decodeExact_of_wrong_length
  accepted_iff bytes := by
    constructor
    · rintro ⟨a, decoded⟩
      exact ⟨length_of_decodeExact decoded, (decodeExact_eq_ok flat small decoded).1⟩
    · rintro ⟨sized, pass⟩
      exact exists_decodeExact flat small sized pass
  first_fault bytes fault sized refused := by
    rcases decodeExact_cases flat small sized with
      ⟨a, accepted, -, -⟩ | ⟨before, c, after, found, earlier, fails, atCheck⟩
    · cases refused.symm.trans accepted
    · have ordered := pairwise_checks l 0
      rw [found] at ordered ⊢
      refine ⟨c, List.mem_append_right _ (.head _), Except.error.inj (refused.symm.trans atCheck), fails,
        fun d member first => ?_⟩
      rcases List.mem_append.mp member with before | notBefore
      · exact earlier d before
      rcases List.mem_cons.mp notBefore with rfl | after
      · exact absurd first (Nat.lt_irrefl _)
      · have behind := (List.pairwise_cons.mp (List.pairwise_append.mp ordered).2.1).1 d after
        rw [Check.stop] at behind
        omega
  normal_form bytes a decoded := (decodeExact_eq_ok flat small decoded).2
  stable bytes a _ := decodeExact_encode l a small
  blind bytes bytes' a decoded sized same := by
    have length := length_of_decodeExact decoded
    obtain ⟨pass, kept⟩ := decodeExact_eq_ok flat small decoded
    have passToo : ∀ c ∈ l.checks 0, c.Passes bytes' := by
      intro c member
      rw [Check.Passes, value_congr member same]
      exact pass c member
    obtain ⟨b, decodedToo⟩ := exists_decodeExact flat small (sized.trans length) passToo
    have keptToo := (decodeExact_eq_ok flat small decodedToo).2
    -- Both values are written as the same bytes, from which each of them is read back.
    rw [blank_congr (by omega) sized same, ← kept] at keptToo
    have back := decodeExact_encode l b small
    rw [keptToo, decodeExact_encode l a small] at back
    rw [decodedToo, Except.ok.inj back]

theorem decodesBy_of_checks {size : Nat} {checks : List Check} (flat : l.Flat) (found : l.checks 0 = checks)
    (sized : l.size = size) (small : size < addressLimit) : l.DecodesBy size checks := by
  subst found sized
  exact decodesBy flat small

/-- A record without optional parts is written back as the bytes that it was read from. -/
theorem DecodesBy.encode_eq {size : Nat} {checks : List Check} (record : l.DecodesBy size checks)
    (full : ∀ c ∈ checks, c.space = 0) {a : α} (decoded : l.decodeExact bytes = .ok a) : l.encode a = bytes := by
  rw [record.normal_form bytes a decoded]
  refine List.ext_getElem? fun i => getElem?_blank_of_shown ?_
  rintro c member ⟨-, reached, below⟩
  rw [Check.stop, full c member] at below
  omega

/-- Bytes that lie in the space of no optional part are written back as they were. -/
theorem DecodesBy.window_encode {size : Nat} {checks : List Check} (record : l.DecodesBy size checks) {a : α}
    (decoded : l.decodeExact bytes = .ok a) {start n : Nat}
    (apart : ∀ c ∈ checks, start + n ≤ c.offset + c.width ∨ c.stop ≤ start) :
    ((l.encode a).drop start).take n = (bytes.drop start).take n := by
  rw [record.normal_form bytes a decoded]
  refine List.ext_getElem? fun i => ?_
  by_cases inside : i < n
  · rw [getElem?_window _ inside, getElem?_window _ inside]
    refine getElem?_blank_of_shown ?_
    rintro c member ⟨-, reached, below⟩
    have := apart c member
    omega
  · simp only [List.getElem?_take, if_neg inside]

end Layout

end StakePool
