import StakePool.Proofs.Dump

/-!
# Bursts of damage

Bytes are fed to the checksum's register bit by bit (`registerAfter_eq_feed`). The register loses nothing: feeding the
same bits keeps different registers apart (`feed_injective`), and as long as they fit the register different bits give
different registers (`feed_ne`). So damage within 64 bits in a row always shows (`burst_is_detected`).
-/

namespace StakePool.Checksum

/-! ### Bits -/

/-- The bits of a byte, from the lowest one up. -/
def byteBits (byte : UInt8) : List Bool := (List.range 8).map byte.toBitVec.getLsbD

def bits (bytes : Bytes) : List Bool := bytes.flatMap byteBits

/-- The register that has these bits, the first one lowest. -/
def word (bs : List Bool) : UInt64 := ⟨(BitVec.ofBoolListLE bs).setWidth 64⟩

theorem eq_of_bits {a b : UInt64} (same : ∀ i < 64, a.toBitVec.getLsbD i = b.toBitVec.getLsbD i) : a = b :=
  UInt64.toBitVec_inj.mp (BitVec.eq_of_getLsbD_eq same)

theorem getLsbD_word {bs : List Bool} (fits : bs.length ≤ 64) (i : Nat) :
    (word bs).toBitVec.getLsbD i = bs.getD i false := by
  rw [word, BitVec.getLsbD_setWidth, BitVec.getLsbD_ofBoolListLE]
  by_cases inside : i < 64
  · rw [decide_eq_true inside, Bool.true_and]
  · rw [decide_eq_false inside, Bool.false_and, List.getD_eq_getElem?_getD, List.getElem?_eq_none (by omega),
      Option.getD_none]

theorem word_inj {x y : List Bool} (length : x.length = y.length) (fits : y.length ≤ 64) (same : word x = word y) :
    x = y := by
  apply List.ext_getElem length
  intro i hx hy
  have bit : (word x).toBitVec.getLsbD i = (word y).toBitVec.getLsbD i := by rw [same]
  rw [getLsbD_word (by omega), getLsbD_word fits, List.getD_eq_getElem?_getD, List.getD_eq_getElem?_getD] at bit
  rwa [List.getElem?_eq_getElem hx, List.getElem?_eq_getElem hy] at bit

theorem length_byteBits (byte : UInt8) : (byteBits byte).length = 8 := by simp [byteBits]

theorem word_byteBits (byte : UInt8) : word (byteBits byte) = byte.toUInt64 := by
  apply eq_of_bits
  intro i inside
  rw [getLsbD_word (by rw [length_byteBits]; decide), UInt8.toBitVec_toUInt64, BitVec.getLsbD_setWidth,
    decide_eq_true inside, Bool.true_and]
  by_cases low : i < 8
  · simp [byteBits, low]
  · rw [BitVec.getLsbD_of_ge _ _ (by omega), List.getD_eq_getElem?_getD,
      List.getElem?_eq_none (by rw [length_byteBits]; omega), Option.getD_none]

theorem length_bits (bytes : Bytes) : (bits bytes).length = 8 * bytes.length := by
  induction bytes with
  | nil => rfl
  | cons byte rest ih =>
    rw [bits, List.flatMap_cons, List.length_append, length_byteBits, List.length_cons]
    change 8 + (bits rest).length = _
    omega

theorem bits_append (front back : Bytes) : bits (front ++ back) = bits front ++ bits back := List.flatMap_append

theorem bits_injective {a b : Bytes} (same : bits a = bits b) : a = b := by
  induction a generalizing b with
  | nil =>
    have length := congrArg List.length same
    rw [length_bits, length_bits, List.length_nil] at length
    exact (List.eq_nil_of_length_eq_zero (by omega)).symm
  | cons x a ih =>
    cases b with
    | nil =>
      have length := congrArg List.length same
      rw [length_bits, length_bits, List.length_cons, List.length_nil] at length
      omega
    | cons y b =>
      rw [bits, bits, List.flatMap_cons, List.flatMap_cons] at same
      obtain ⟨first, rest⟩ := List.append_inj same (by rw [length_byteBits, length_byteBits])
      have byte : x.toUInt64 = y.toUInt64 := by rw [← word_byteBits, ← word_byteBits, first]
      rw [ih rest, UInt8.toUInt64_inj.mp byte]

/-! ### One bit -/

theorem odd_iff (register : UInt64) : register &&& 1 = 1 ↔ register.toBitVec.getLsbD 0 = true := by
  have masked : (register &&& 1).toBitVec = BitVec.setWidth 64 (BitVec.ofBool (register.toBitVec.getLsbD 0)) :=
    BitVec.and_one_eq_setWidth_ofBool_getLsbD
  rw [← UInt64.toBitVec_inj, masked]
  cases register.toBitVec.getLsbD 0 with
  | false => decide
  | true => decide

/-- The register moves down by one bit, and the polynomial is added when a one falls out. -/
theorem getLsbD_bitStep (register : UInt64) (i : Nat) :
    (bitStep register).toBitVec.getLsbD i =
      (register.toBitVec.getLsbD (i + 1) ^^ (register.toBitVec.getLsbD 0 && polynomial.toBitVec.getLsbD i)) := by
  have moved : (register >>> 1).toBitVec.getLsbD i = register.toBitVec.getLsbD (i + 1) := by
    rw [UInt64.toBitVec_shiftRight]
    show (register.toBitVec >>> 1).getLsbD i = _
    rw [BitVec.getLsbD_ushiftRight, Nat.add_comm]
  unfold bitStep
  split
  · rename_i odd
    rw [UInt64.toBitVec_xor, BitVec.getLsbD_xor, moved, (odd_iff register).mp odd, Bool.true_and]
  · rename_i even
    rw [odd_iff, Bool.not_eq_true] at even
    rw [moved, even, Bool.false_and, Bool.xor_false]

/-- The polynomial has its highest bit, so the bit that fell out can be told from the result. -/
theorem bitStep_injective {a b : UInt64} (same : bitStep a = bitStep b) : a = b := by
  have bit (i : Nat) : (bitStep a).toBitVec.getLsbD i = (bitStep b).toBitVec.getLsbD i := by rw [same]
  simp only [getLsbD_bitStep] at bit
  have high : polynomial.toBitVec.getLsbD 63 = true := by decide
  have fallen : a.toBitVec.getLsbD 0 = b.toBitVec.getLsbD 0 := by
    have last := bit 63
    have above (n : UInt64) : n.toBitVec.getLsbD (63 + 1) = false := BitVec.getLsbD_of_ge _ _ (Nat.le_refl 64)
    rwa [high, above a, above b, Bool.and_true, Bool.and_true, Bool.false_xor, Bool.false_xor] at last
  apply eq_of_bits
  intro i _
  cases i with
  | zero => exact fallen
  | succ i =>
    have next := bit i
    rw [fallen] at next
    exact Bool.xor_left_inj.mp next

theorem bitSteps_injective (n : Nat) {a b : UInt64} (same : bitSteps n a = bitSteps n b) : a = b := by
  induction n generalizing a b with
  | zero => exact same
  | succ n ih => exact bitStep_injective (ih same)

/-! ### Feeding bits -/

def feedBit (register : UInt64) (bit : Bool) : UInt64 := bitStep (register ^^^ word [bit])

def feed (register : UInt64) (bs : List Bool) : UInt64 := bs.foldl feedBit register

theorem feed_append (register : UInt64) (front back : List Bool) :
    feed register (front ++ back) = feed (feed register front) back := List.foldl_append

/-- A bit that waits behind the lowest one is moved down and meets nothing on its way. -/
theorem bitStep_xor_word (register : UInt64) (bit : Bool) {bs : List Bool} (fits : bs.length < 64) :
    bitStep (register ^^^ word (bit :: bs)) = feedBit register bit ^^^ word bs := by
  apply eq_of_bits
  intro i _
  have whole : (bit :: bs).length ≤ 64 := fits
  have alone : [bit].length ≤ 64 := Nat.le_add_left 1 63
  rw [feedBit, UInt64.toBitVec_xor, BitVec.getLsbD_xor, getLsbD_bitStep, getLsbD_bitStep]
  simp only [UInt64.toBitVec_xor, BitVec.getLsbD_xor, getLsbD_word whole, getLsbD_word alone,
    getLsbD_word (Nat.le_of_lt fits),
    List.getD_cons_succ, List.getD_cons_zero, List.getD_nil, Bool.xor_false]
  rw [Bool.xor_assoc, Bool.xor_assoc, Bool.xor_comm (bs.getD i false)]

/-- As long as they fit the register, bits can be put into it at once. -/
theorem feed_eq_bitSteps (register : UInt64) {bs : List Bool} (fits : bs.length ≤ 64) :
    feed register bs = bitSteps bs.length (register ^^^ word bs) := by
  induction bs generalizing register with
  | nil => exact (UInt64.xor_zero).symm
  | cons bit bs ih =>
    rw [feed, List.foldl_cons, List.length_cons, bitSteps, bitStep_xor_word register bit fits]
    exact ih _ (Nat.le_of_succ_le fits)

theorem registerAfter_eq_feed (register : UInt64) (bytes : Bytes) :
    registerAfter register bytes = feed register (bits bytes) := by
  induction bytes generalizing register with
  | nil => rfl
  | cons byte rest ih =>
    have eight : (byteBits byte).length ≤ 64 := by rw [length_byteBits]; decide
    rw [registerAfter, List.foldl_cons, bits, List.flatMap_cons, feed_append, feed_eq_bitSteps register eight,
      length_byteBits, word_byteBits]
    exact ih _

theorem feed_injective (bs : List Bool) {a b : UInt64} (same : feed a bs = feed b bs) : a = b := by
  induction bs generalizing a b with
  | nil => exact same
  | cons bit bs ih => exact (UInt64.xor_left_inj _).mp (bitStep_injective (ih same))

/-- Different bits, no more than the register has, take it to different states. -/
theorem feed_ne (register : UInt64) {x y : List Bool} (length : x.length = y.length) (fits : y.length ≤ 64)
    (differ : x ≠ y) : feed register x ≠ feed register y := by
  intro same
  rw [feed_eq_bitSteps register (length ▸ fits), feed_eq_bitSteps register fits, length] at same
  exact differ (word_inj length fits ((UInt64.xor_right_inj _).mp (bitSteps_injective _ same)))

/-! ### Bursts -/

/-- Lists that differ only in a window are the same in front of it and behind it. -/
theorem eq_outside {x y : List Bool} {start n : Nat}
    (near : ∀ i, x[i]? ≠ y[i]? → start ≤ i ∧ i < start + n) :
    x.take start = y.take start ∧ x.drop (start + n) = y.drop (start + n) := by
  have same {i : Nat} (outside : i < start ∨ start + n ≤ i) : x[i]? = y[i]? := by
    refine Decidable.byContradiction fun differ => ?_
    obtain ⟨low, high⟩ := near i differ
    omega
  constructor
  · apply List.ext_getElem?
    intro i
    rw [List.getElem?_take, List.getElem?_take]
    split
    · rename_i front
      exact same (.inl front)
    · rfl
  · apply List.ext_getElem?
    intro i
    rw [List.getElem?_drop, List.getElem?_drop]
    exact same (.inr (Nat.le_add_right _ _))

theorem take_append_window (x : List Bool) (start n : Nat) :
    x = x.take start ++ ((x.drop start).take n ++ x.drop (start + n)) := by
  rw [← List.drop_drop, List.take_append_drop, List.take_append_drop]

theorem checksum_ne_of_burst {bytes damaged : Bytes} (length : damaged.length = bytes.length) (differ : damaged ≠ bytes)
    {start : Nat} (near : ∀ i, (bits damaged)[i]? ≠ (bits bytes)[i]? → start ≤ i ∧ i < start + 64) :
    checksum damaged ≠ checksum bytes := by
  obtain ⟨front, back⟩ := eq_outside near
  have window : ((bits damaged).drop start).take 64 ≠ ((bits bytes).drop start).take 64 := by
    intro same
    apply differ
    apply bits_injective
    rw [take_append_window (bits damaged) start 64, take_append_window (bits bytes) start 64, front, same, back]
  intro same
  have registers := (UInt64.xor_left_inj ones).mp same
  rw [registerAfter_eq_feed, registerAfter_eq_feed, take_append_window (bits damaged) start 64,
    take_append_window (bits bytes) start 64, front, back, feed_append, feed_append, feed_append,
    feed_append] at registers
  -- Undo what is fed behind the window: the registers were equal there already, though the windows differ.
  refine feed_ne _ ?_ (List.length_take_le 64 _) window (feed_injective _ registers)
  simp only [List.length_take, List.length_drop, length_bits, length]

/-- The dump of `body` is refused once `damaged` stands where the body stood. -/
def Detected (body damaged : Bytes) : Prop :=
  checksum damaged ≠ checksum body ∧
    ∃ h, DumpHeader.ofBody body = .ok h ∧
      Dump.read (h.toBytes ++ damaged) = .error (.checksumMismatch (checksum body) (checksum damaged))

theorem detected_of_burst {body damaged : Bytes} (short : body.length < 0x100000000)
    (length : damaged.length = body.length) (differ : damaged ≠ body) (start : Nat)
    (near : ∀ i, (bits damaged)[i]? ≠ (bits body)[i]? → start ≤ i ∧ i < start + 64) : Detected body damaged := by
  have mismatch := checksum_ne_of_burst length differ near
  have made : DumpHeader.ofBody body = .ok
      { magic := DumpHeader.dumpMagic, version := DumpHeader.dumpVersion, length := .ofNat body.length,
        checksum := checksum body } := if_pos short
  obtain ⟨magic, version, declared, expected⟩ := DumpHeader.ofBody_eq_ok_iff.1 made
  refine ⟨mismatch, _, made, ?_⟩
  generalize ({ .. } : DumpHeader) = h at magic version declared expected
  have front : (h.toBytes ++ damaged).take DumpHeader.size = h.toBytes := List.take_left' h.length_toBytes
  have opened := DumpHeader.ofFile_eq_ok_iff.2 ⟨magic, version, front.symm⟩
  have long : DumpHeader.size ≤ (h.toBytes ++ damaged).length := by
    rw [List.length_append, h.length_toBytes]
    exact Nat.le_add_right _ _
  rw [Dump.read_of_long long, opened, List.drop_left' h.length_toBytes]
  show (do h.verify damaged; return damaged) = _
  rw [DumpHeader.verify_return, declared, length, if_neg (not_not_intro rfl), expected, if_pos mismatch.symm]

/-- Damage to bytes in a row is damage to bits in a row. -/
theorem near_of_bytes {front x y back : Bytes} (length : y.length = x.length) (i : Nat)
    (differ : (bits (front ++ y ++ back))[i]? ≠ (bits (front ++ x ++ back))[i]?) :
    8 * front.length ≤ i ∧ i < 8 * front.length + 8 * x.length := by
  refine Decidable.byContradiction fun outside => differ ?_
  simp only [List.append_assoc, bits_append, List.getElem?_append, length_bits, length]
  split
  · rfl
  · rw [if_neg (by omega), if_neg (by omega)]

/-- Any damage that lies within 64 bits in a row, so any to eight bytes in a row, changes the checksum, and the dump is
refused. -/
theorem burst_is_detected :
    (∀ body damaged : Bytes, body.length < 0x100000000 → damaged.length = body.length → damaged ≠ body →
      (∃ start, ∀ i, (bits damaged)[i]? ≠ (bits body)[i]? → start ≤ i ∧ i < start + 64) → Detected body damaged) ∧
    (∀ front x y back : Bytes, (front ++ x ++ back).length < 0x100000000 → y.length = x.length → y ≠ x →
      x.length ≤ 8 → Detected (front ++ x ++ back) (front ++ y ++ back)) := by
  constructor
  · rintro body damaged short length differ ⟨start, near⟩
    exact detected_of_burst short length differ start near
  · intro front x y back short length differ few
    have sameLength : (front ++ y ++ back).length = (front ++ x ++ back).length := by
      simp only [List.length_append, length]
    have changed : front ++ y ++ back ≠ front ++ x ++ back := fun same =>
      differ (List.append_cancel_left (List.append_cancel_right same))
    refine detected_of_burst short sameLength changed (8 * front.length) fun i differ => ?_
    obtain ⟨low, high⟩ := near_of_bytes length i differ
    exact ⟨low, by omega⟩

/-- Eight of ten bytes are replaced, and in the other damage a bit on either side of a byte's edge is flipped. -/
theorem burst_is_detected_in_ten_bytes :
    Detected [9, 1, 2, 3, 4, 5, 6, 7, 8, 9] [9, 0, 0, 0, 0, 0, 0, 0, 0, 9] ∧ Detected [0, 0, 7] [128, 1, 7] := by
  constructor
  · exact burst_is_detected.2 [9] [1, 2, 3, 4, 5, 6, 7, 8] [0, 0, 0, 0, 0, 0, 0, 0] [9] (by decide) rfl (by decide)
      (by decide)
  · refine burst_is_detected.1 [0, 0, 7] [128, 1, 7] (by decide) rfl (by decide) ⟨7, fun i differ => ?_⟩
    have near : ∀ i < 24, (bits [128, 1, 7])[i]? ≠ (bits [0, 0, 7])[i]? → 7 ≤ i ∧ i < 7 + 64 := by decide
    refine near i (Nat.lt_of_not_le fun beyond => differ ?_) differ
    rw [List.getElem?_eq_none (by rw [length_bits]; exact beyond),
      List.getElem?_eq_none (by rw [length_bits]; exact beyond)]

end StakePool.Checksum
