import StakePool.Codec.Reader
import StakePool.Codec.Writer

/-!
# Words and byte codes

A `Word α` stores the values of `α` as numbers of a fixed width, least significant byte first. A `ByteCode α`
stores an enumeration in one byte, of which some values stand for nothing.
-/

namespace StakePool

/-- How the values of a type are stored as numbers of `width` bytes. Every such number is a value. -/
structure Word (α : Type) where
  width : Nat
  toNat : α → Nat
  ofNat : Nat → α
  toNat_lt : ∀ a, toNat a < Radix.bound 256 width
  ofNat_toNat : ∀ a, ofNat (toNat a) = a
  toNat_ofNat : ∀ n, n < Radix.bound 256 width → toNat (ofNat n) = n

namespace Word

def u8 : Word UInt8 where
  width := 1
  toNat := UInt8.toNat
  ofNat := UInt8.ofNat
  toNat_lt a := a.toNat_lt
  ofNat_toNat a := UInt8.ofNat_toNat
  toNat_ofNat n h := by simp [Radix.bound] at h ⊢; omega

def u32 : Word UInt32 where
  width := 4
  toNat := UInt32.toNat
  ofNat := UInt32.ofNat
  toNat_lt a := a.toNat_lt
  ofNat_toNat a := UInt32.ofNat_toNat
  toNat_ofNat n h := by simp [Radix.bound] at h ⊢; omega

def u64 : Word UInt64 where
  width := 8
  toNat := UInt64.toNat
  ofNat := UInt64.ofNat
  toNat_lt a := a.toNat_lt
  ofNat_toNat a := UInt64.ofNat_toNat
  toNat_ofNat n h := by simp [Radix.bound] at h ⊢; omega

/-- Signed words are stored in two's complement. -/
def i64 : Word Int64 where
  width := 8
  toNat a := a.toUInt64.toNat
  ofNat n := (UInt64.ofNat n).toInt64
  toNat_lt a := a.toUInt64.toNat_lt
  ofNat_toNat a := by simp
  toNat_ofNat n h := by simp [Radix.bound] at h ⊢; omega

def bytes {α : Type} (w : Word α) (a : α) : Bytes := Bytes.littleEndian w.width (w.toNat a)

def ofBytes {α : Type} (w : Word α) (stored : Bytes) : α := w.ofNat (Bytes.ofLittleEndian stored)

theorem length_bytes {α : Type} (w : Word α) (a : α) : (w.bytes a).length = w.width := by simp [bytes]

theorem ofBytes_bytes {α : Type} (w : Word α) (a : α) : w.ofBytes (w.bytes a) = a := by
  rw [ofBytes, bytes, Bytes.ofLittleEndian_littleEndian (w.toNat_lt a), w.ofNat_toNat]

theorem bytes_ofBytes {α : Type} (w : Word α) {stored : Bytes} (h : stored.length = w.width) :
    w.bytes (w.ofBytes stored) = stored := by
  rw [bytes, ofBytes, w.toNat_ofNat _ (h ▸ Bytes.ofLittleEndian_lt stored), ← h, Bytes.littleEndian_ofLittleEndian]

end Word

structure ByteCode (α : Type) where
  toByte : α → UInt8
  ofByte? : UInt8 → Option α
  ofByte?_toByte : ∀ a, ofByte? (toByte a) = some a
  toByte_of_ofByte? : ∀ b a, ofByte? b = some a → toByte a = b

namespace ByteCode

def ofList {α : Type} (all : List α) (toByte : α → UInt8) (complete : ∀ a, a ∈ all)
    (injective : ∀ a b, toByte a = toByte b → a = b) : ByteCode α where
  toByte := toByte
  ofByte? b := all.find? fun a => toByte a == b
  ofByte?_toByte a := by
    cases h : all.find? fun x => toByte x == toByte a with
    | none => simpa using List.find?_eq_none.1 h a (complete a)
    | some x => rw [injective x a (by simpa using List.find?_some h)]
  toByte_of_ofByte? b a h := by simpa using List.find?_some h

def bool : ByteCode Bool :=
  ofList [false, true] (fun b => if b then 1 else 0) (by decide) (by decide)

end ByteCode

namespace Read

def word {α : Type} (w : Word α) : Read α := do
  return w.ofBytes (← take w.width)

/-- The next byte as a member of an enumeration, which is called `field` when its byte stands for nothing. -/
def code {α : Type} (field : String) (c : ByteCode α) : Read α := fun r =>
  match word Word.u8 r with
  | .error fault r' => .error fault r'
  | .ok byte r' =>
    match c.ofByte? byte with
    | some a => .ok a r'
    | none => .error (.fieldOutOfRange r.offset field byte.toUInt32) r'

end Read

namespace Writer

def putWord {α : Type} (w : Writer) (word : Word α) (a : α) : Writer := w.put (word.bytes a)

@[simp] theorem toBytes_putWord {α : Type} (w : Writer) (word : Word α) (a : α) :
    (w.putWord word a).toBytes = w.toBytes ++ word.bytes a := toBytes_put ..

end Writer

end StakePool
