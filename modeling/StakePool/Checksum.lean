import StakePool.Bytes

/-!
# Checksums

`checksum` is the 64-bit cyclic redundancy check with the reflected polynomial 0xC96C5795D7870F42, a register
that starts as all ones, and a result whose bits are flipped.
-/

namespace StakePool.Checksum

def polynomial : UInt64 := 0xC96C5795D7870F42

/-- The register after one more bit, which is its lowest one. -/
def bitStep (register : UInt64) : UInt64 :=
  if register &&& 1 = 1 then (register >>> 1) ^^^ polynomial else register >>> 1

def bitSteps : Nat → UInt64 → UInt64
  | 0, register => register
  | n + 1, register => bitSteps n (bitStep register)

def byteStep (register : UInt64) (byte : UInt8) : UInt64 := bitSteps 8 (register ^^^ byte.toUInt64)

def registerAfter (register : UInt64) (bytes : Bytes) : UInt64 := bytes.foldl byteStep register

def ones : UInt64 := 0xFFFFFFFFFFFFFFFF

end Checksum

def checksum (bytes : Bytes) : UInt64 := Checksum.registerAfter Checksum.ones bytes ^^^ Checksum.ones

-- The published check value of these parameters is that of the digits 1 to 9.
example : checksum [0x31, 0x32, 0x33, 0x34, 0x35, 0x36, 0x37, 0x38, 0x39] = 0x995DC9BBDF1939FA := by decide +kernel

end StakePool
