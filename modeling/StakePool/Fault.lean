import StakePool.Bytes

/-!
# Faults

A `Fault` says why a byte string was refused or a request could not be met. `Fault.message` is its text.
-/

namespace StakePool

/-- What the 64-bit or 32-bit result was for, when an arithmetic step does not fit. -/
inductive Quantity
  | readerOffset
  | sequenceLength
  /-- The end of a sequence behind all addresses. Nothing reports it: the program stops where it adds. -/
  | sequenceEnd
  | ringSize
  | ringHead
  | basketQuantity
deriving DecidableEq, Repr

inductive Requirement
  | nonZeroGeometry
  | seedInRange
  | vaultCount
deriving DecidableEq, Repr

inductive Fault
  | sizeMismatch (expected actual : Nat)
  | fieldOutOfRange (offset : Nat) (field : String) (value : UInt32)
  /-- The leading eight bytes name no known family of requests. -/
  | unknownTag (tag : UInt64)
  | unknownVariant (offset : Nat) (discriminant : UInt8)
  /-- The ring slot of this logical index does not decode. -/
  | corruptEntry (index : UInt32) (source : Fault)
  | invalidCursor (cursor tail head : UInt32)
  | invariantViolation (requirement : Requirement) (expected actual : Nat)
  | overflow (quantity : Quantity)
deriving DecidableEq, Repr

def Quantity.text : Quantity → String
  | readerOffset => "reader offset"
  | sequenceLength => "sequence length"
  | sequenceEnd => "sequence end"
  | ringSize => "ring buffer size"
  | ringHead => "ring head"
  | basketQuantity => "basket quantity"

def Requirement.text : Requirement → String
  | nonZeroGeometry => "ring geometry must be non-zero"
  | seedInRange => "seed asset index out of range"
  | vaultCount => "vault count does not match pool asset count"

/-- The lowest `count` hexadecimal digits of a number, most significant first. -/
def hexDigits (count n : Nat) : String :=
  String.ofList ((Radix.digits 16 count n).reverse.map Nat.digitChar)

def Fault.message : Fault → String
  | sizeMismatch expected actual => s!"size mismatch: expected {expected} bytes, got {actual}"
  | fieldOutOfRange offset field value => s!"field `{field}` at offset {offset} out of range: {value.toNat}"
  | unknownTag tag => s!"unknown request tag 0x{hexDigits 16 tag.toNat}"
  | unknownVariant offset discriminant => s!"unknown variant {discriminant.toNat} at offset {offset}"
  | corruptEntry index source => s!"corrupt ring entry {index.toNat}: {source.message}"
  | invalidCursor cursor tail head =>
    s!"cursor {cursor.toNat} outside readable window [{tail.toNat}, {head.toNat}]"
  | invariantViolation requirement expected actual =>
    s!"invariant violation: {requirement.text} (expected {expected}, got {actual})"
  | overflow quantity => s!"arithmetic overflow in {quantity.text}"

end StakePool
