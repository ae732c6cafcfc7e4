import StakePool.Proofs.Codec.RoundTrip

/-!
# Plain layouts and formats

Words and blocks take any bytes, so that a layout made of them holds a value whatever its bytes are
(`Layout.exists_encode`), and a reader has nothing to refuse but that the bytes run short (`Read.Short`). The same holds
of formats made of such layouts: `Format.holds_or_short`.
-/

namespace StakePool

/-! ### Running short -/

namespace Read

variable {α β : Type} {x : Read α} {f : α → Read β} {r : Reader}

/-- A step fails because the byte string ends before what the step asks for. -/
def Short (x : Read α) (r : Reader) : Prop :=
  ∃ expected r', x r = .error (.sizeMismatch expected r.size) r' ∧ r.size < expected

theorem short_bind (short : Short x r) (f : α → Read β) : Short (x >>= f) r := by
  obtain ⟨expected, r', failed, more⟩ := short
  exact ⟨expected, r', bind_of_error failed f, more⟩

theorem short_bind_of_ok {a : α} {r' : Reader} (read : x r = .ok a r') (same : r'.size = r.size)
    (short : Short (f a) r') : Short (x >>= f) r := by
  obtain ⟨expected, last, failed, more⟩ := short
  rw [same] at failed more
  exact ⟨expected, last, (bind_of_ok read).trans failed, more⟩

theorem short_take {n : Nat} (bound : r.offset + n < addressLimit) (few : r.remaining < n) : Short (take n) r :=
  ⟨r.offset + n, r, take_of_short bound few, Nat.add_lt_add_left few _⟩

theorem short_word {w : Word α} (bound : r.offset + w.width < addressLimit) (few : r.remaining < w.width) :
    Short (word w) r :=
  short_bind (short_take bound few) _

theorem short_block {n : Nat} (bound : r.offset + n < addressLimit) (few : r.remaining < n) : Short (block n) r := by
  obtain ⟨expected, r', failed, more⟩ := short_take bound few
  exact ⟨expected, r', block_of_error failed, more⟩

end Read

/-! ### Layouts -/

namespace Layout

variable {α : Type} {l : Layout α}

/-- Whether a layout is made of words and blocks only. -/
def Plain : {α : Type} → Layout α → Prop
  | _, empty => True
  | _, word _ => True
  | _, code _ _ => False
  | _, block _ => True
  | _, optional _ _ => False
  | _, pair first second => first.Plain ∧ second.Plain
  | _, via _ inner => inner.Plain

theorem exists_encode (plain : l.Plain) {stored : Bytes} (sized : stored.length = l.size) :
    ∃ a, l.encode a = stored := by
  induction l generalizing stored with
  | empty => exact ⟨(), (List.eq_nil_of_length_eq_zero sized).symm⟩
  | word w => exact ⟨w.ofBytes stored, by rw [encode_word, w.bytes_ofBytes sized]⟩
  | code field c => exact plain.elim
  | block n => exact ⟨⟨stored, sized⟩, encode_block _⟩
  | optional presence payload => exact plain.elim
  | pair first second ihFirst ihSecond =>
    have front : (stored.take first.size).length = first.size := by
      rw [List.length_take, sized, size, Nat.min_eq_left (Nat.le_add_right ..)]
    have back : (stored.drop first.size).length = second.size := by
      rw [List.length_drop, sized, size, Nat.add_sub_cancel_left]
    obtain ⟨a, heldFirst⟩ := ihFirst plain.1 front
    obtain ⟨b, heldSecond⟩ := ihSecond plain.2 back
    exact ⟨(a, b), by rw [encode_pair, heldFirst, heldSecond, List.take_append_drop]⟩
  | via bijection inner ih =>
    obtain ⟨a, held⟩ := ih plain sized
    exact ⟨bijection.forth a, by rw [encode_via, bijection.back_forth, held]⟩

/-- Where there are enough bytes, those in front are a value's. -/
theorem exists_encode_append (plain : l.Plain) {bytes : Bytes} (enough : l.size ≤ bytes.length) :
    ∃ a rest, bytes = l.encode a ++ rest := by
  obtain ⟨a, held⟩ := exists_encode plain (List.length_take_of_le enough)
  exact ⟨a, bytes.drop l.size, by rw [held, List.take_append_drop]⟩

theorem short_read (plain : l.Plain) {r : Reader} (bound : r.offset + l.size < addressLimit)
    (few : r.remaining < l.size) : Read.Short l.read r := by
  induction l generalizing r with
  | empty => exact absurd few (Nat.not_lt_zero _)
  | word w => exact Read.short_word bound few
  | code field c => exact plain.elim
  | block n => exact Read.short_block bound few
  | optional presence payload => exact plain.elim
  | pair first second ihFirst ihSecond =>
    rw [size] at bound few
    rcases Nat.lt_or_ge r.remaining first.size with early | enough
    · exact Read.short_bind (ihFirst plain.1 (by omega) early) _
    -- The first part is there, and the bytes end within the second one.
    obtain ⟨offset, bytes⟩ := r
    obtain ⟨a, rest, rfl⟩ := exists_encode_append plain.1 enough
    simp only [Reader.remaining, List.length_append, length_encode] at few bound
    have room : offset + first.size < addressLimit := by omega
    have read := first.read_encode a room rest
    have same : Reader.size ⟨offset + first.size, rest⟩ = Reader.size ⟨offset, first.encode a ++ rest⟩ := by
      simp only [Reader.size, Reader.remaining, List.length_append, length_encode, Nat.add_assoc]
    refine Read.short_bind_of_ok read same (Read.short_bind (ihSecond plain.2 ?_ ?_) _)
    · show offset + first.size + second.size < addressLimit
      omega
    · show rest.length < second.size
      omega
  | via bijection inner ih => exact Read.short_bind (ih plain bound few) _

/-! ### Sequences -/

/-- Items of a plain layout fill as many bytes as they are said to, whatever the bytes are. -/
theorem exists_flatMap_encode (plain : l.Plain) (count : Nat) {bytes : Bytes} (enough : count * l.size ≤ bytes.length) :
    ∃ (items : List α) (rest : Bytes), items.length = count ∧ bytes = items.flatMap l.encode ++ rest := by
  induction count generalizing bytes with
  | zero => exact ⟨[], bytes, rfl, rfl⟩
  | succ count ih =>
    rw [Nat.succ_mul] at enough
    obtain ⟨a, others, rfl⟩ := exists_encode_append plain (Nat.le_trans (Nat.le_add_left ..) enough)
    rw [List.length_append, length_encode] at enough
    have left : count * l.size ≤ others.length := by omega
    obtain ⟨items, rest, rfl, rfl⟩ := ih left
    exact ⟨a :: items, rest, rfl, by rw [List.flatMap_cons, List.append_assoc]⟩

theorem holds_or_short_sequence (plain : l.Plain) {r : Reader}
    (bound : r.offset + (4 + 0xffffffff * l.size) < addressLimit) :
    (∃ items rest, items.length ≤ 0xffffffff ∧ r.rest = (Format.sequence l).encode items ++ rest) ∨
      Read.Short l.readSequence r := by
  obtain ⟨offset, bytes⟩ := r
  dsimp only at bound ⊢
  have room : offset + Word.u32.width < addressLimit := by
    show offset + 4 < addressLimit
    omega
  rcases Nat.lt_or_ge bytes.length 4 with early | counted
  · obtain ⟨expected, r', failed, more⟩ := Read.short_word (r := ⟨offset, bytes⟩) room early
    exact .inr ⟨expected, r', by simp only [readSequence, failed], more⟩
  obtain ⟨count, rest, rfl⟩ := exists_encode_append (l := .u32) trivial counted
  rw [encode_word]
  have small : count.toNat ≤ 0xffffffff := Nat.le_of_lt_succ count.toNat_lt
  have width : count.toNat * l.size ≤ 0xffffffff * l.size := Nat.mul_le_mul_right _ small
  rcases Nat.lt_or_ge rest.length (count.toNat * l.size) with few | enough
  · have read := Read.word_append Word.u32 count room rest
    have size : Reader.size ⟨offset + 4, rest⟩ = Reader.size ⟨offset, Word.u32.bytes count ++ rest⟩ := by
      simp only [Reader.size, Reader.remaining, List.length_append, Word.length_bytes, ← Nat.add_assoc]
      rfl
    have inside : offset + 4 + count.toNat * l.size < addressLimit := by omega
    refine .inr ⟨_, _, size ▸ readSequence_of_short read inside few, ?_⟩
    rw [← size]
    exact Nat.add_lt_add_left few _
  · obtain ⟨items, rest, length, rfl⟩ := exists_flatMap_encode plain count.toNat enough
    refine .inl ⟨items, rest, length ▸ small, ?_⟩
    rw [Format.encode_sequence, Nat.min_eq_left (length ▸ small), length, List.append_assoc]
    rfl

end Layout

/-! ### Formats -/

namespace Format

variable {α : Type} {f : Format α}

/-- Whether a format is made of plain layouts, without variants. -/
def Plain : {α : Type} → Format α → Prop
  | _, fixed l => l.Plain
  | _, sequence item => item.Plain
  | _, pair first second => first.Plain ∧ second.Plain
  | _, variant _ _ => False
  | _, via _ inner => inner.Plain

/-- How many bytes a value can take at most. -/
def widest : {α : Type} → Format α → Nat
  | _, fixed l => l.size
  | _, sequence item => 4 + 0xffffffff * item.size
  | _, pair first second => first.widest + second.widest
  | _, variant _ _ => 0
  | _, via _ inner => inner.widest

theorem encodedLength_le_widest (plain : f.Plain) {a : α} (fits : f.Fits a) : f.encodedLength a ≤ f.widest := by
  induction f with
  | fixed l => exact Nat.le_refl _
  | sequence item => exact Nat.add_le_add_left (Nat.mul_le_mul_right _ fits) _
  | pair first second ihFirst ihSecond => exact Nat.add_le_add (ihFirst plain.1 fits.1) (ihSecond plain.2 fits.2)
  | variant c format => exact plain.elim
  | via bijection inner ih => exact ih plain fits

end Format

/-- In front of a reader stand the bytes of a value, unless they run short. -/
theorem Format.holds_or_short {α : Type} {f : Format α} (plain : f.Plain) {r : Reader}
    (bound : r.offset + f.widest < addressLimit) :
    (∃ a rest, f.Fits a ∧ r.rest = f.encode a ++ rest) ∨ Read.Short f.read r := by
  induction f generalizing r with
  | fixed l =>
    rcases Nat.lt_or_ge r.remaining l.size with few | enough
    · exact .inr (Layout.short_read plain bound few)
    · obtain ⟨a, rest, held⟩ := Layout.exists_encode_append plain enough
      exact .inl ⟨a, rest, trivial, held⟩
  | sequence item => exact Layout.holds_or_short_sequence plain bound
  | pair first second ihFirst ihSecond =>
    rw [widest] at bound
    rcases ihFirst plain.1 (r := r) (by omega) with ⟨a, later, fits, held⟩ | short
    · obtain ⟨offset, bytes⟩ := r
      obtain rfl : bytes = first.encode a ++ later := held
      have width := encodedLength_le_widest plain.1 fits
      dsimp only at bound
      rcases ihSecond plain.2 (r := ⟨offset + first.encodedLength a, later⟩) (by dsimp only; omega) with
        ⟨b, rest, fitsToo, held⟩ | short
      · obtain rfl : later = second.encode b ++ rest := held
        exact .inl ⟨(a, b), rest, ⟨fits, fitsToo⟩, by rw [encode_pair, List.append_assoc]⟩
      · have room : offset + first.encodedLength a < addressLimit := by omega
        have read := first.read_encode a fits room later
        refine .inr (Read.short_bind_of_ok read ?_ (Read.short_bind short _))
        simp only [Reader.size, Reader.remaining, List.length_append, length_encode, Nat.add_assoc]
    · exact .inr (Read.short_bind short _)
  | variant c format => exact plain.elim
  | via bijection inner ih =>
    rcases ih plain bound with ⟨a, rest, fits, held⟩ | short
    · refine .inl ⟨bijection.forth a, rest, ?_, ?_⟩
      · rw [Fits, bijection.back_forth]
        exact fits
      · rw [encode_via, bijection.back_forth, held]
    · exact .inr (Read.short_bind short _)

end StakePool
