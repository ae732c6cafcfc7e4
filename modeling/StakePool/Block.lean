import StakePool.Bytes

/-!
# Blocks

A `Block n` is a byte string of exactly `n` bytes: the raw payload of a field that is stored as it stands.
-/

namespace StakePool

structure Block (n : Nat) where
  bytes : Bytes
  length_eq : bytes.length = n
deriving DecidableEq

namespace Block

variable {n : Nat}

theorem ext {a b : Block n} (h : a.bytes = b.bytes) : a = b := by
  cases a; cases b; simpa using h

def fill (n : Nat) (byte : UInt8) : Block n := ⟨List.replicate n byte, by simp⟩

instance : Inhabited (Block n) := ⟨fill n 0⟩

def ofBytes? (n : Nat) (bytes : Bytes) : Option (Block n) :=
  if h : bytes.length = n then some ⟨bytes, h⟩ else none

@[simp] theorem ofBytes?_bytes (b : Block n) : ofBytes? n b.bytes = some b := by
  simp [ofBytes?, b.length_eq]

end Block

end StakePool
