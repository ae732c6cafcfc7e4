import StakePool.Bytes

/-!
# Stretches of a buffer

`stretch` reads the bytes at an offset of a buffer, and `overwrite` stores a byte string over them, in place.
`toList_overwrite` shows what the buffer then holds; `stretch_overwrite_self` and
`stretch_overwrite_of_disjoint` show what is read back, there and elsewhere.
-/

namespace StakePool

/-- The `n` bytes from `start` on. -/
def stretch (buffer : Array UInt8) (start n : Nat) : Bytes := (buffer.extract start (start + n)).toList

theorem length_stretch {buffer : Array UInt8} {start n : Nat} (h : start + n ≤ buffer.size) :
    (stretch buffer start n).length = n := by
  rw [stretch, Array.length_toList, Array.size_extract]
  omega

theorem getElem?_stretch {buffer : Array UInt8} {start n : Nat} (h : start + n ≤ buffer.size) (i : Nat) :
    (stretch buffer start n)[i]? = if i < n then buffer[start + i]? else none := by
  rw [stretch, Array.getElem?_toList, Array.getElem?_extract]
  congr 1
  simp only [eq_iff_iff]
  omega

/-- The buffer with `bytes` stored from `offset` on. What does not fit is dropped. -/
def overwrite (buffer : Array UInt8) (offset : Nat) : Bytes → Array UInt8
  | [] => buffer
  | b :: rest => overwrite (buffer.setIfInBounds offset b) (offset + 1) rest

@[simp] theorem size_overwrite (buffer : Array UInt8) (offset : Nat) (bytes : Bytes) :
    (overwrite buffer offset bytes).size = buffer.size := by
  induction bytes generalizing buffer offset with
  | nil => rfl
  | cons b rest ih => rw [overwrite, ih, Array.size_setIfInBounds]

theorem getElem?_overwrite (buffer : Array UInt8) (offset : Nat) (bytes : Bytes) (i : Nat) :
    (overwrite buffer offset bytes)[i]? =
      if offset ≤ i ∧ i < offset + bytes.length ∧ i < buffer.size then bytes[i - offset]? else buffer[i]? := by
  induction bytes generalizing buffer offset with
  | nil => simp [overwrite]; omega
  | cons b rest ih =>
    rw [overwrite, ih, Array.size_setIfInBounds, Array.getElem?_setIfInBounds]
    by_cases hi : i = offset
    · subst hi
      have h1 : ¬(i + 1 ≤ i ∧ i < i + 1 + rest.length ∧ i < buffer.size) := by omega
      rw [if_neg h1, if_pos rfl, List.length_cons]
      by_cases hs : i < buffer.size
      · rw [if_pos hs, if_pos ⟨by omega, by omega, hs⟩, Nat.sub_self, List.getElem?_cons_zero]
      · rw [if_neg hs, if_neg (by omega), Array.getElem?_eq_none (by omega)]
    · have hne : ¬ offset = i := fun h => hi h.symm
      by_cases hlt : offset + 1 ≤ i
      · have hsub : i - offset = (i - (offset + 1)) + 1 := by omega
        simp only [hne, if_false, hsub, List.getElem?_cons_succ, List.length_cons]
        congr 1
        simp only [eq_iff_iff]
        omega
      · have h1 : ¬(offset + 1 ≤ i ∧ i < offset + 1 + rest.length ∧ i < buffer.size) := by omega
        have h2 : ¬(offset ≤ i ∧ i < offset + (b :: rest).length ∧ i < buffer.size) := by omega
        rw [if_neg h1, if_neg h2, if_neg hne]

theorem toList_overwrite {buffer : Array UInt8} {offset : Nat} {bytes : Bytes}
    (h : offset + bytes.length ≤ buffer.size) :
    (overwrite buffer offset bytes).toList =
      buffer.toList.take offset ++ bytes ++ buffer.toList.drop (offset + bytes.length) := by
  apply List.ext_getElem?
  intro i
  have hsize : buffer.toList.length = buffer.size := Array.length_toList
  rw [Array.getElem?_toList, getElem?_overwrite, List.append_assoc, List.getElem?_append, List.length_take, hsize,
    Nat.min_eq_left (by omega)]
  by_cases h1 : i < offset
  · rw [if_neg (by omega), if_pos h1, List.getElem?_take_of_lt h1, Array.getElem?_toList]
  · rw [if_neg h1, List.getElem?_append]
    by_cases h2 : i - offset < bytes.length
    · rw [if_pos ⟨by omega, by omega, by omega⟩, if_pos h2]
    · rw [if_neg (by omega), if_neg h2, List.getElem?_drop, Array.getElem?_toList]
      congr 1
      omega

/-- What a buffer holds after a part of it was replaced by as many bytes. -/
theorem toList_overwrite_of_split {buffer : Array UInt8} {front old back bytes : Bytes}
    (split : buffer.toList = front ++ old ++ back) (filled : bytes.length = old.length) :
    (overwrite buffer front.length bytes).toList = front ++ bytes ++ back := by
  have room : front.length + bytes.length ≤ buffer.size := by
    simp [← Array.length_toList, split, filled]
  rw [toList_overwrite room, split, filled, ← List.length_append, List.drop_left, List.append_assoc front, List.take_left]

theorem overwrite_append (buffer : Array UInt8) (offset : Nat) (front back : Bytes) :
    overwrite buffer offset (front ++ back) = overwrite (overwrite buffer offset front) (offset + front.length) back := by
  induction front generalizing buffer offset with
  | nil => rfl
  | cons b rest ih => rw [List.cons_append, overwrite, overwrite, ih, List.length_cons, Nat.add_assoc, Nat.add_comm 1]

theorem stretch_overwrite_self {buffer : Array UInt8} {offset : Nat} {bytes : Bytes}
    (h : offset + bytes.length ≤ buffer.size) : stretch (overwrite buffer offset bytes) offset bytes.length = bytes := by
  apply List.ext_getElem?
  intro i
  rw [getElem?_stretch (by rwa [size_overwrite]), getElem?_overwrite]
  by_cases hi : i < bytes.length
  · rw [if_pos hi, if_pos ⟨by omega, by omega, by omega⟩, Nat.add_sub_cancel_left]
  · rw [if_neg hi, List.getElem?_eq_none (by omega)]

/-- Bytes that were not stored over stay as they were. -/
theorem stretch_overwrite_of_disjoint {buffer : Array UInt8} {offset start n : Nat} {bytes : Bytes}
    (h : start + n ≤ buffer.size) (hd : start + n ≤ offset ∨ offset + bytes.length ≤ start) :
    stretch (overwrite buffer offset bytes) start n = stretch buffer start n := by
  apply List.ext_getElem?
  intro i
  rw [getElem?_stretch (by rwa [size_overwrite]), getElem?_stretch h, getElem?_overwrite]
  by_cases hi : i < n
  · rw [if_pos hi, if_pos hi, if_neg (by omega)]
  · rw [if_neg hi, if_neg hi]

end StakePool
