import StakePool.Codec.Word

/-!
# Fixed layouts

A `Layout α` describes how the values of `α` fill a fixed number of bytes: words, blocks, enumerations in a
byte, optional parts whose space is kept when they are absent, and sequences of these. Size, writing and
reading are three functions on the description.
-/

namespace StakePool

/-- Two types with the same values, written differently. -/
structure Bijection (α β : Type) where
  forth : α → β
  back : β → α
  back_forth : ∀ a, back (forth a) = a
  forth_back : ∀ b, forth (back b) = b

/-- What stands in front of an optional part: 0 when it is absent, 1 when it is present. -/
inductive Presence
  | byte
  | word
deriving DecidableEq, Repr

namespace Presence

def width : Presence → Nat
  | byte => 1
  | word => 4

def field : Presence → String
  | byte => "option"
  | word => "coption"

def read : Presence → Read UInt32
  | byte => do return (← Read.word Word.u8).toUInt32
  | word => Read.word Word.u32

end Presence

/-- A description of a fixed number of bytes that hold a value. -/
inductive Layout : Type → Type 1
  | empty : Layout Unit
  | word {α : Type} (w : Word α) : Layout α
  | code {α : Type} (field : String) (c : ByteCode α) : Layout α
  | block (n : Nat) : Layout (Block n)
  | optional {α : Type} (presence : Presence) (payload : Layout α) : Layout (Option α)
  | pair {α β : Type} (first : Layout α) (second : Layout β) : Layout (α × β)
  | via {α β : Type} (b : Bijection α β) (inner : Layout α) : Layout β

namespace Layout

variable {α : Type}

abbrev u8 : Layout UInt8 := word Word.u8
abbrev u32 : Layout UInt32 := word Word.u32
abbrev u64 : Layout UInt64 := word Word.u64
abbrev i64 : Layout Int64 := word Word.i64

abbrev flag (field : String) : Layout Bool := code field ByteCode.bool

abbrev pubkey : Layout (Block 32) := block 32

abbrev option (payload : Layout α) : Layout (Option α) := optional .byte payload

abbrev wideOption (payload : Layout α) : Layout (Option α) := optional .word payload

def size : {α : Type} → Layout α → Nat
  | _, empty => 0
  | _, word w => w.width
  | _, code _ _ => 1
  | _, block n => n
  | _, optional presence payload => presence.width + payload.size
  | _, pair first second => first.size + second.size
  | _, via _ inner => inner.size

/-- Appends the bytes of a value. The space of an absent part is filled with zeros. -/
def encodeInto : {α : Type} → Layout α → α → Writer → Writer
  | _, empty, _, w => w
  | _, word kind, a, w => w.putWord kind a
  | _, code _ c, a, w => w.putWord Word.u8 (c.toByte a)
  | _, block _, a, w => w.put a.bytes
  | _, optional presence payload, none, w => (w.putNumber presence.width 0).putZeros payload.size
  | _, optional presence payload, some a, w => payload.encodeInto a (w.putNumber presence.width 1)
  | _, pair first second, (a, b), w => second.encodeInto b (first.encodeInto a w)
  | _, via bijection inner, b, w => inner.encodeInto (bijection.back b) w

/-- Reads a value. The bytes in the space of an absent part are passed over, whatever they are. -/
def read : {α : Type} → Layout α → Read α
  | _, empty => pure ()
  | _, word w => Read.word w
  | _, code field c => Read.code field c
  | _, block n => Read.block n
  | _, optional presence payload => fun r =>
    match presence.read r with
    | .error fault r' => .error fault r'
    | .ok 0 r' => (do Read.skip payload.size; return none : Read _) r'
    | .ok 1 r' => (do return some (← payload.read) : Read _) r'
    | .ok mark r' => .error (.fieldOutOfRange r.offset presence.field mark) r'
  | _, pair first second => do
    let a ← first.read
    let b ← second.read
    return (a, b)
  | _, via bijection inner => do return bijection.forth (← inner.read)

def encode (l : Layout α) (a : α) : Bytes := (l.encodeInto a Writer.empty).toBytes

/-- The value in the first `size` bytes. What follows them belongs to whatever holds this part. -/
def decode (l : Layout α) (bytes : Bytes) : Except Fault α :=
  if bytes.length < l.size then
    .error (.sizeMismatch l.size bytes.length)
  else
    match l.read (Reader.ofBytes (bytes.take l.size)) with
    | .ok a _ => .ok a
    | .error fault _ => .error fault

def decodeExact (l : Layout α) (bytes : Bytes) : Except Fault α :=
  if bytes.length = l.size then l.decode bytes else .error (.sizeMismatch l.size bytes.length)

end Layout

end StakePool
