import StakePool.Codec.Format

/-!
# What encoders write

An encoder appends to a writer and leaves alone what is already there: `Layout.toBytes_encodeInto` and
`Format.toBytes_encodeInto`. The bytes of a value are therefore those of its parts, one after the other, and
there are `Layout.size` or `Format.encodedLength` of them.
-/

namespace StakePool

namespace Layout

variable {α β : Type}

theorem toBytes_encodeInto (l : Layout α) (a : α) (w : Writer) :
    (l.encodeInto a w).toBytes = w.toBytes ++ l.encode a := by
  induction l generalizing w with
  | empty => simp [encode, encodeInto]
  | word kind => simp [encode, encodeInto]
  | code field c => simp [encode, encodeInto]
  | block n => simp [encode, encodeInto]
  | optional presence payload ih =>
    cases a with
    | none => simp [encode, encodeInto]
    | some a =>
      rw [encode, encodeInto, encodeInto, ih, ih]
      simp
  | pair first second ihFirst ihSecond =>
    obtain ⟨a, b⟩ := a
    rw [encode, encodeInto, encodeInto, ihSecond, ihFirst, ihSecond, ihFirst]
    simp
  | via bijection inner ih => exact ih (bijection.back a) w

/-! ### The bytes of each kind of layout -/

theorem encode_word (w : Word α) (a : α) : (word w).encode a = w.bytes a := by
  show (Writer.empty.putWord w a).toBytes = _
  simp

theorem encode_code (field : String) (c : ByteCode α) (a : α) :
    (code field c).encode a = Word.u8.bytes (c.toByte a) := encode_word Word.u8 (c.toByte a)

theorem encode_block {n : Nat} (b : Block n) : (block n).encode b = b.bytes := by
  show (Writer.empty.put b.bytes).toBytes = _
  simp

theorem encode_none (presence : Presence) (payload : Layout α) :
    (optional presence payload).encode none = Bytes.littleEndian presence.width 0 ++ Bytes.zeros payload.size := by
  show ((Writer.empty.putNumber presence.width 0).putZeros payload.size).toBytes = _
  simp

theorem encode_some (presence : Presence) (payload : Layout α) (a : α) :
    (optional presence payload).encode (some a) = Bytes.littleEndian presence.width 1 ++ payload.encode a := by
  show (payload.encodeInto a (Writer.empty.putNumber presence.width 1)).toBytes = _
  rw [toBytes_encodeInto]
  simp

theorem encode_pair (first : Layout α) (second : Layout β) (a : α) (b : β) :
    (pair first second).encode (a, b) = first.encode a ++ second.encode b := by
  show (second.encodeInto b (first.encodeInto a Writer.empty)).toBytes = _
  rw [toBytes_encodeInto]
  rfl

theorem encode_via (bijection : Bijection α β) (inner : Layout α) (b : β) :
    (via bijection inner).encode b = inner.encode (bijection.back b) := rfl

/-- Every value of a layout fills the same number of bytes. -/
@[simp] theorem length_encode (l : Layout α) (a : α) : (l.encode a).length = l.size := by
  induction l with
  | empty => rfl
  | word kind => rw [encode_word, Word.length_bytes, size]
  | code field c => rw [encode_code, Word.length_bytes, size]; rfl
  | block n => rw [encode_block, a.length_eq, size]
  | optional presence payload ih =>
    cases a with
    | none => rw [encode_none, List.length_append, Bytes.length_littleEndian, Bytes.length_zeros, size]
    | some a => rw [encode_some, List.length_append, Bytes.length_littleEndian, ih, size]
  | pair first second ihFirst ihSecond =>
    obtain ⟨a, b⟩ := a
    rw [encode_pair, List.length_append, ihFirst, ihSecond, size]
  | via bijection inner ih => rw [encode_via, ih, size]

theorem toBytes_foldl_encodeInto (l : Layout α) (items : List α) (w : Writer) :
    (items.foldl (fun w a => l.encodeInto a w) w).toBytes = w.toBytes ++ items.flatMap l.encode := by
  induction items generalizing w with
  | nil => simp
  | cons a rest ih => rw [List.foldl_cons, ih, toBytes_encodeInto, List.flatMap_cons, List.append_assoc]

theorem length_flatMap_encode (l : Layout α) (items : List α) :
    (items.flatMap l.encode).length = items.length * l.size := by
  induction items with
  | nil => simp
  | cons a rest ih =>
    rw [List.flatMap_cons, List.length_append, length_encode, ih, List.length_cons, Nat.succ_mul, Nat.add_comm]

end Layout

namespace Format

variable {α β : Type}

theorem toBytes_encodeInto (f : Format α) (a : α) (w : Writer) :
    (f.encodeInto a w).toBytes = w.toBytes ++ f.encode a := by
  induction f generalizing w with
  | fixed l => exact l.toBytes_encodeInto a w
  | sequence item =>
    rw [encode, encodeInto, encodeInto, Layout.toBytes_foldl_encodeInto, Layout.toBytes_foldl_encodeInto]
    simp
  | pair first second ihFirst ihSecond =>
    obtain ⟨a, b⟩ := a
    rw [encode, encodeInto, encodeInto, ihSecond, ihFirst, ihSecond, ihFirst]
    simp
  | variant c format ih =>
    obtain ⟨i, a⟩ := a
    rw [encode, encodeInto, encodeInto, ih, ih]
    simp
  | via bijection inner ih => exact ih (bijection.back a) w

/-! ### The bytes of each kind of format -/

theorem encode_sequence (item : Layout α) (items : List α) :
    (sequence item).encode items =
      Bytes.littleEndian 4 (min items.length 0xffffffff) ++ items.flatMap item.encode := by
  show (items.foldl (fun w a => item.encodeInto a w) (Writer.empty.putCount items.length)).toBytes = _
  rw [Layout.toBytes_foldl_encodeInto]
  simp

theorem encode_pair (first : Format α) (second : Format β) (a : α) (b : β) :
    (pair first second).encode (a, b) = first.encode a ++ second.encode b := by
  show (second.encodeInto b (first.encodeInto a Writer.empty)).toBytes = _
  rw [toBytes_encodeInto]
  rfl

theorem encode_variant {ι : Type} {payload : ι → Type} (c : ByteCode ι) (format : (i : ι) → Format (payload i))
    (i : ι) (a : payload i) :
    (variant c format).encode ⟨i, a⟩ = Word.u8.bytes (c.toByte i) ++ (format i).encode a := by
  show ((format i).encodeInto a (Writer.empty.putWord Word.u8 (c.toByte i))).toBytes = _
  rw [toBytes_encodeInto]
  simp

theorem encode_via (bijection : Bijection α β) (inner : Format α) (b : β) :
    (via bijection inner).encode b = inner.encode (bijection.back b) := rfl

/-- The bytes of a value are as many as it declares. -/
theorem length_encode (f : Format α) (a : α) : (f.encode a).length = f.encodedLength a := by
  induction f with
  | fixed l => exact l.length_encode a
  | sequence item =>
    rw [encode_sequence, List.length_append, Bytes.length_littleEndian, Layout.length_flatMap_encode, encodedLength]
  | pair first second ihFirst ihSecond =>
    obtain ⟨a, b⟩ := a
    rw [encode_pair, List.length_append, ihFirst, ihSecond, encodedLength]
  | variant c format ih =>
    obtain ⟨i, a⟩ := a
    rw [encode_variant, List.length_append, Word.length_bytes, ih, encodedLength]
    rfl
  | via bijection inner ih => rw [encode_via, ih, encodedLength]

end Format

end StakePool
