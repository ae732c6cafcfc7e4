import StakePool.Radix

/-!
# Byte strings

Words are stored least significant byte first: `littleEndian` writes a number into a fixed number of
bytes and `ofLittleEndian` reads it back. `ofLittleEndian_littleEndian` and `littleEndian_ofLittleEndian`
show that each undoes the other.
-/

namespace StakePool

abbrev Bytes := List UInt8

/-- Lengths, offsets and sizes are 64-bit: none reaches this bound. -/
abbrev addressLimit : Nat := 0x10000000000000000

namespace Bytes

def zeros (n : Nat) : Bytes := List.replicate n 0

@[simp] theorem length_zeros (n : Nat) : (zeros n).length = n := by simp [zeros]

/-- `bytes` followed by as many zeros as it takes to fill `size` bytes. -/
def padTo (size : Nat) (bytes : Bytes) : Bytes := bytes ++ zeros (size - bytes.length)

theorem length_padTo {size : Nat} {bytes : Bytes} (h : bytes.length ≤ size) : (padTo size bytes).length = size := by
  simp [padTo]; omega

/-- The lowest `width` bytes of a number, least significant first. -/
def littleEndian (width n : Nat) : Bytes := (Radix.digits 256 width n).map UInt8.ofNat

def ofLittleEndian (bytes : Bytes) : Nat := Radix.value 256 (bytes.map UInt8.toNat)

@[simp] theorem length_littleEndian (width n : Nat) : (littleEndian width n).length = width := by
  simp [littleEndian]

theorem toNat_mem_lt (bytes : Bytes) : ∀ d ∈ bytes.map UInt8.toNat, d < 256 := by
  intro d hd
  obtain ⟨b, -, rfl⟩ := List.mem_map.1 hd
  exact b.toNat_lt

theorem ofLittleEndian_lt (bytes : Bytes) : ofLittleEndian bytes < Radix.bound 256 bytes.length := by
  simpa [ofLittleEndian] using Radix.value_lt (toNat_mem_lt bytes)

theorem map_toNat_map_ofNat {ds : List Nat} (h : ∀ d ∈ ds, d < 256) :
    (ds.map UInt8.ofNat).map UInt8.toNat = ds := by
  rw [List.map_map]
  refine (List.map_congr_left fun d hd => ?_).trans (List.map_id _)
  have := h d hd
  simp; omega

theorem ofLittleEndian_littleEndian {width n : Nat} (h : n < Radix.bound 256 width) :
    ofLittleEndian (littleEndian width n) = n := by
  rw [ofLittleEndian, littleEndian, map_toNat_map_ofNat (Radix.digits_lt (by decide) _ _),
    Radix.value_digits_of_lt h]

theorem littleEndian_ofLittleEndian (bytes : Bytes) : littleEndian bytes.length (ofLittleEndian bytes) = bytes := by
  have := Radix.digits_value (toNat_mem_lt bytes)
  rw [List.length_map] at this
  rw [littleEndian, ofLittleEndian, this, List.map_map]
  exact (List.map_congr_left fun b _ => by simp).trans (List.map_id _)

end Bytes

end StakePool
