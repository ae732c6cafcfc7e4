import StakePool.Codec.Layout

/-!
# Formats of varying length

A `Format α` adds to the fixed layouts what varies in length: counted sequences and variants told apart by
a leading byte. `decodePrefix` reads a value from the front of a byte string and leaves the rest alone.
-/

namespace StakePool

/-- A description of the bytes that hold a value, as many as the value needs. -/
inductive Format : Type → Type 1
  | fixed {α : Type} (l : Layout α) : Format α
  | sequence {α : Type} (item : Layout α) : Format (List α)
  | pair {α β : Type} (first : Format α) (second : Format β) : Format (α × β)
  | variant {ι : Type} {payload : ι → Type} (c : ByteCode ι) (format : (i : ι) → Format (payload i)) :
      Format ((i : ι) × payload i)
  | via {α β : Type} (b : Bijection α β) (inner : Format α) : Format β

namespace Layout

/-- Reads `count` values in a row, and puts them after those that `done` holds in reverse. -/
def readMany {α : Type} (l : Layout α) : Nat → List α → Reader → EStateM.Result Fault Reader (List α)
  | 0, done, r => .ok done.reverse r
  | count + 1, done, r =>
    match l.read r with
    | .ok a r' => l.readMany count (a :: done) r'
    | .error fault r' => .error fault r'

/-- Reads a counted sequence. A count that asks for more bytes than there are is refused before any item is
read. -/
def readSequence {α : Type} (l : Layout α) : Read (List α) := fun r =>
  match Read.word Word.u32 r with
  | .error fault r' => .error fault r'
  | .ok count r' =>
    let needed := count.toNat * l.size
    if addressLimit ≤ needed then
      .error (.overflow .sequenceLength) r'
    else if r'.remaining < needed then
      -- The end is only worked out to be reported, and by then it may be no address.
      if addressLimit ≤ r'.offset + needed then
        .error (.overflow .sequenceEnd) r'
      else
        .error (.sizeMismatch (r'.offset + needed) r'.size) r'
    else
      l.readMany count.toNat [] r'

end Layout

namespace Format

variable {α : Type}

def encodedLength : {α : Type} → Format α → α → Nat
  | _, fixed l, _ => l.size
  | _, sequence item, items => 4 + items.length * item.size
  | _, pair first second, (a, b) => first.encodedLength a + second.encodedLength b
  | _, variant _ format, ⟨i, a⟩ => 1 + (format i).encodedLength a
  | _, via bijection inner, b => inner.encodedLength (bijection.back b)

def encodeInto : {α : Type} → Format α → α → Writer → Writer
  | _, fixed l, a, w => l.encodeInto a w
  | _, sequence item, items, w => items.foldl (fun w a => item.encodeInto a w) (w.putCount items.length)
  | _, pair first second, (a, b), w => second.encodeInto b (first.encodeInto a w)
  | _, variant c format, ⟨i, a⟩, w => (format i).encodeInto a (w.putWord Word.u8 (c.toByte i))
  | _, via bijection inner, b, w => inner.encodeInto (bijection.back b) w

def read : {α : Type} → Format α → Read α
  | _, fixed l => l.read
  | _, sequence item => item.readSequence
  | _, pair first second => do
    let a ← first.read
    let b ← second.read
    return (a, b)
  | _, variant c format => fun r =>
    match Read.word Word.u8 r with
    | .error fault r' => .error fault r'
    | .ok byte r' =>
      match c.ofByte? byte with
      | some i => (do return ⟨i, ← (format i).read⟩ : Read _) r'
      | none => .error (.unknownVariant r.offset byte) r'
  | _, via bijection inner => do return bijection.forth (← inner.read)

def encode (f : Format α) (a : α) : Bytes := (f.encodeInto a Writer.empty).toBytes

/-- The value at the front of a byte string. What follows it is not looked at. -/
def decodePrefix (f : Format α) (bytes : Bytes) : Except Fault α :=
  match f.read (Reader.ofBytes bytes) with
  | .ok a _ => .ok a
  | .error fault _ => .error fault

end Format

end StakePool
