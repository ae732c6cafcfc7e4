import StakePool.Proofs.Codec.Agreement

/-!
# Counted sequences

A counted sequence is read chunk by chunk, each item from the bytes that it would be decoded from alone
(`Layout.readMany_cases`). The count is weighed against the bytes that are left before any item is read, and no item that
is read runs short: `Layout.sequence_is_exact`.
-/

namespace StakePool

namespace Layout

variable {α : Type} {l : Layout α} {front bytes : Bytes} {offset : Nat} {r : Reader}

/-! ### Chunks -/

/-- The bytes of an item, by its index in a sequence whose first item stands at the front. -/
def chunk (l : Layout α) (bytes : Bytes) (i : Nat) : Bytes := (bytes.drop (i * l.size)).take l.size

theorem chunk_zero (front rest : Bytes) (sized : front.length = l.size) : l.chunk (front ++ rest) 0 = front := by
  rw [chunk, Nat.zero_mul, List.drop_zero, List.take_left' sized]

theorem chunk_succ (front rest : Bytes) (sized : front.length = l.size) (i : Nat) :
    l.chunk (front ++ rest) (i + 1) = l.chunk rest i := by
  have passed : (i + 1) * l.size = front.length + i * l.size := by rw [Nat.succ_mul, sized, Nat.add_comm]
  rw [chunk, chunk, passed, ← List.drop_drop, List.drop_left]

/-- An item within a byte string is read as it is decoded alone, but for the offset of what is refused in it. -/
theorem read_cases (sized : front.length = l.size) (bound : offset + l.size < addressLimit) (rest : Bytes) :
    (∃ a, l.decode front = .ok a ∧ l.read ⟨offset, front ++ rest⟩ = .ok a ⟨offset + l.size, rest⟩) ∨
    ∃ position field value, position < l.size ∧ l.decode front = .error (.fieldOutOfRange position field value) ∧
      ∃ r', l.read ⟨offset, front ++ rest⟩ = .error (.fieldOutOfRange (offset + position) field value) r' := by
  have small : l.size < addressLimit := by omega
  have enough : l.size ≤ front.length := Nat.le_of_eq sized.symm
  have alone : Reader.ofBytes (front.take l.size) = ⟨0, front ++ []⟩ := by
    rw [List.take_of_length_le (Nat.le_of_eq sized), List.append_nil, Reader.ofBytes]
  rcases l.decided sized with ⟨a, held⟩ | ⟨position, field, value, inside, refused⟩
  · exact .inl ⟨a, decode_of_read enough (alone ▸ held 0 [] (by omega)), held offset rest bound⟩
  · obtain ⟨r', failed⟩ := refused 0 [] (by omega)
    rw [Nat.zero_add, ← alone] at failed
    exact .inr ⟨position, field, value, inside, decode_of_read_error enough failed, refused offset rest bound⟩

/-- Items that have room are read in order, up to the first one that does not decode. -/
theorem readMany_cases (count : Nat) (enough : count * l.size ≤ bytes.length)
    (bound : offset + count * l.size < addressLimit) (done : List α) :
    (∃ items : List α, items.length = count ∧
      (∀ i (inside : i < items.length), l.decode (l.chunk bytes i) = .ok items[i]) ∧
      l.readMany count done ⟨offset, bytes⟩ =
        .ok (done.reverse ++ items) ⟨offset + count * l.size, bytes.drop (count * l.size)⟩) ∨
    ∃ i < count, (∀ j < i, ∃ a, l.decode (l.chunk bytes j) = .ok a) ∧
      ∃ position field value, position < l.size ∧
        l.decode (l.chunk bytes i) = .error (.fieldOutOfRange position field value) ∧
        ∃ r', l.readMany count done ⟨offset, bytes⟩ =
          .error (.fieldOutOfRange (offset + i * l.size + position) field value) r' := by
  induction count generalizing offset bytes done with
  | zero => exact .inl ⟨[], rfl, fun i inside => absurd inside (Nat.not_lt_zero i), by simp [readMany]⟩
  | succ count ih =>
    rw [Nat.succ_mul, Nat.add_comm] at enough
    rw [Nat.succ_mul, Nat.add_comm (count * l.size), ← Nat.add_assoc] at bound
    obtain ⟨front, rest, rfl, sized⟩ : ∃ front rest, bytes = front ++ rest ∧ front.length = l.size :=
      ⟨bytes.take l.size, bytes.drop l.size, (List.take_append_drop ..).symm, List.length_take_of_le (by omega)⟩
    rw [List.length_append, sized, Nat.add_le_add_iff_left] at enough
    have here : offset + l.size < addressLimit := by omega
    have next (i : Nat) : offset + (i + 1) * l.size = offset + l.size + i * l.size := by rw [Nat.succ_mul]; omega
    rcases read_cases sized here rest with ⟨a, decoded, read⟩ | ⟨position, field, value, inside, refused, r', failed⟩
    · rcases ih enough bound (a :: done) with
        ⟨items, length, all, later⟩ | ⟨i, before, fine, position, field, value, inside, refused, r', failed⟩
      · refine .inl ⟨a :: items, congrArg Nat.succ length, fun i inside => ?_, ?_⟩
        · cases i with
          | zero => rwa [chunk_zero front rest sized]
          | succ i =>
            rw [chunk_succ front rest sized]
            exact all i (Nat.lt_of_succ_lt_succ inside)
        · have passed : (count + 1) * l.size = front.length + count * l.size := by rw [Nat.succ_mul, sized, Nat.add_comm]
          rw [readMany_of_ok read, later, next, passed, ← List.drop_drop, List.drop_left, List.reverse_cons,
            List.append_assoc]
          rfl
      · refine .inr ⟨i + 1, Nat.succ_lt_succ before, fun j earlier => ?_, position, field, value, inside, ?_, r', ?_⟩
        · cases j with
          | zero => exact ⟨a, by rwa [chunk_zero front rest sized]⟩
          | succ j =>
            rw [chunk_succ front rest sized]
            exact fine j (Nat.lt_of_succ_lt_succ earlier)
        · rwa [chunk_succ front rest sized]
        · rw [readMany_of_ok read, failed, next]
    · refine .inr ⟨0, Nat.succ_pos count, fun j earlier => absurd earlier (Nat.not_lt_zero j), position, field, value,
        inside, by rwa [chunk_zero front rest sized], r', ?_⟩
      rw [readMany_of_error failed, Nat.zero_mul, Nat.add_zero]

/-! ### The count -/

theorem toNat_ofBytes_u32 {stored : Bytes} (sized : stored.length = 4) :
    (Word.u32.ofBytes stored).toNat = Bytes.ofLittleEndian stored := by
  have small := Bytes.ofLittleEndian_lt stored
  rw [sized] at small
  exact Word.u32.toNat_ofNat _ small

theorem readSequence_of_no_count (l : Layout α) (bound : r.offset + 4 < addressLimit) (few : r.remaining < 4) :
    l.readSequence r = .error (.sizeMismatch (r.offset + 4) r.size) r :=
  readSequence_of_error (Read.word_of_short (w := Word.u32) bound few)

/-- Where there is a count, it decides how reading goes on. -/
theorem exists_count (l : Layout α) (bound : r.offset + 4 < addressLimit) (enough : 4 ≤ r.remaining) :
    ∃ count : UInt32, count.toNat = Bytes.ofLittleEndian (r.rest.take 4) ∧
      l.readSequence r = l.readCounted count ⟨r.offset + 4, r.rest.drop 4⟩ := by
  have sized : (r.rest.take 4).length = 4 := List.length_take_of_le enough
  have read := Read.word_stored Word.u32 sized bound (r.rest.drop 4)
  rw [List.take_append_drop] at read
  exact ⟨_, toNat_ofBytes_u32 sized, readSequence_of_counted read⟩

/-- A counted sequence, told apart by what its count asks for. -/
theorem readSequence_of_count (bound : r.size + 4 < addressLimit) (enough : 4 ≤ r.remaining) :
    let count := Bytes.ofLittleEndian (r.rest.take 4)
    let counted : Reader := ⟨r.offset + 4, r.rest.drop 4⟩
    (addressLimit ≤ count * l.size → l.readSequence r = .error (.overflow .sequenceLength) counted) ∧
    (r.remaining - 4 < count * l.size → count * l.size < addressLimit →
      addressLimit ≤ r.offset + (4 + count * l.size) → l.readSequence r = .error (.overflow .sequenceEnd) counted) ∧
    (r.remaining - 4 < count * l.size → r.offset + (4 + count * l.size) < addressLimit →
      l.readSequence r = .error (.sizeMismatch (r.offset + (4 + count * l.size)) r.size) counted) ∧
    (count * l.size ≤ r.remaining - 4 → l.readSequence r = l.readMany count [] counted) := by
  intro count counted
  have room : r.offset + 4 < addressLimit := by
    rw [Reader.size] at bound
    omega
  obtain ⟨word, same, read⟩ := l.exists_count room enough
  have left : counted.remaining = r.remaining - 4 := List.length_drop
  have size : counted.size = r.size := by
    rw [Reader.size, Reader.size, left]
    show r.offset + 4 + (r.remaining - 4) = _
    omega
  rw [read, ← (show word.toNat = count from same)]
  rw [← Nat.add_assoc]
  refine ⟨fun beyond => readCounted_of_overflow beyond counted, fun few fits beyond => ?_, fun few inside => ?_,
    fun fits => ?_⟩
  · rw [← left] at few
    exact readCounted_of_end fits few beyond
  · rw [← left] at few
    rw [readCounted_of_short inside few, size]
  · rw [← left] at fits
    have whole : counted.remaining ≤ counted.size := Nat.le_add_left ..
    exact readCounted_of_fits (by omega) fits

/-- The items of a count that is met: all of them, or the first one that does not decode is refused where it stands. -/
theorem readSequence_cases (bound : r.size + 4 < addressLimit) (enough : 4 ≤ r.remaining)
    (fits : Bytes.ofLittleEndian (r.rest.take 4) * l.size ≤ r.remaining - 4) :
    let count := Bytes.ofLittleEndian (r.rest.take 4)
    (∃ items : List α, items.length = count ∧
      (∀ i (inside : i < items.length), l.decode (l.chunk (r.rest.drop 4) i) = .ok items[i]) ∧
      l.readSequence r = .ok items ⟨r.offset + (4 + count * l.size), r.rest.drop (4 + count * l.size)⟩) ∨
    ∃ i < count, (∀ j < i, ∃ a, l.decode (l.chunk (r.rest.drop 4) j) = .ok a) ∧
      ∃ position field value, position < l.size ∧
        l.decode (l.chunk (r.rest.drop 4) i) = .error (.fieldOutOfRange position field value) ∧
        ∃ r', l.readSequence r = .error (.fieldOutOfRange (r.offset + 4 + i * l.size + position) field value) r' := by
  intro count
  have items := (readSequence_of_count (l := l) bound enough).2.2.2 fits
  have body : count * l.size ≤ (r.rest.drop 4).length := List.length_drop ▸ fits
  have room : r.offset + 4 + count * l.size < addressLimit := by
    have whole : r.size = r.offset + r.remaining := rfl
    have here : count * l.size ≤ r.remaining - 4 := fits
    omega
  rw [items, ← List.drop_drop, ← Nat.add_assoc]
  exact readMany_cases count body room []

theorem fits_of_readSequence {items : List α} {r' : Reader} (bound : r.size + 4 < addressLimit)
    (read : l.readSequence r = .ok items r') :
    4 ≤ r.remaining ∧ Bytes.ofLittleEndian (r.rest.take 4) * l.size ≤ r.remaining - 4 := by
  have whole : r.size = r.offset + r.remaining := rfl
  rcases Nat.lt_or_ge r.remaining 4 with few | enough
  · cases read.symm.trans (readSequence_of_no_count l (by omega) few)
  refine ⟨enough, Nat.le_of_not_lt fun short => ?_⟩
  obtain ⟨overflows, ends, runsShort, -⟩ := readSequence_of_count (l := l) bound enough
  rcases Nat.lt_or_ge (Bytes.ofLittleEndian (r.rest.take 4) * l.size) addressLimit with fits | beyond
  · rcases Nat.lt_or_ge (r.offset + (4 + Bytes.ofLittleEndian (r.rest.take 4) * l.size)) addressLimit with
      inside | beyond
    · cases read.symm.trans (runsShort short inside)
    · cases read.symm.trans (ends short fits beyond)
  · cases read.symm.trans (overflows beyond)

end Layout

end StakePool
