import StakePool.Block
import StakePool.Fault

/-!
# Writing bytes

A `Writer` collects bytes; its contents are seen through `toBytes`, and every step appends to them.
-/

namespace StakePool

structure Writer where
  buffer : Array UInt8

namespace Writer

def empty : Writer := ⟨#[]⟩

def toBytes (w : Writer) : Bytes := w.buffer.toList

def size (w : Writer) : Nat := w.buffer.size

def isEmpty (w : Writer) : Bool := w.buffer.isEmpty

def put (w : Writer) (bytes : Bytes) : Writer := ⟨bytes.foldl Array.push w.buffer⟩

def putNumber (w : Writer) (width n : Nat) : Writer := w.put (Bytes.littleEndian width n)

def putZeros (w : Writer) (n : Nat) : Writer := w.put (Bytes.zeros n)

/-- Appends a 4-byte count; a count that does not fit is written as the largest one. -/
def putCount (w : Writer) (n : Nat) : Writer := w.putNumber 4 (min n 0xffffffff)

@[simp] theorem toBytes_empty : empty.toBytes = [] := rfl

@[simp] theorem toBytes_put (w : Writer) (bytes : Bytes) : (w.put bytes).toBytes = w.toBytes ++ bytes := by
  simp [toBytes, put]

@[simp] theorem toBytes_putNumber (w : Writer) (width n : Nat) :
    (w.putNumber width n).toBytes = w.toBytes ++ Bytes.littleEndian width n := toBytes_put ..

@[simp] theorem toBytes_putZeros (w : Writer) (n : Nat) :
    (w.putZeros n).toBytes = w.toBytes ++ Bytes.zeros n := toBytes_put ..

@[simp] theorem toBytes_putCount (w : Writer) (n : Nat) :
    (w.putCount n).toBytes = w.toBytes ++ Bytes.littleEndian 4 (min n 0xffffffff) := toBytes_put ..

end Writer

end StakePool
