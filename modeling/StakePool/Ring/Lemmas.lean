import StakePool.Ring.Basic

/-!
# What an append changes

`store` changes the head and the slot at the old head, and nothing else: `head_store`, `authority_store`,
`slotBytes_store_self` and `slotBytes_store_of_ne`.
-/

namespace StakePool.Ring

variable {capacity : UInt32} {itemSize : Nat}

/-! ### Where slots lie -/

theorem toNat_capacity_pos (r : Ring capacity itemSize) : 0 < capacity.toNat := by
  have h := r.capacity_ne_zero
  have : capacity.toNat ≠ 0 := fun h0 => h (UInt32.toNat_inj.1 h0)
  omega

theorem slotOffset_le (r : Ring capacity itemSize) (index : UInt32) :
    slotOffset capacity itemSize index + itemSize ≤ r.buffer.size := by
  have hlt : index.toNat % capacity.toNat < capacity.toNat := Nat.mod_lt _ r.toNat_capacity_pos
  have hmul : (index.toNat % capacity.toNat + 1) * itemSize ≤ capacity.toNat * itemSize :=
    Nat.mul_le_mul_right _ hlt
  rw [Nat.add_mul, Nat.one_mul] at hmul
  rw [r.size_eq, slotOffset, UInt32.toNat_mod]
  omega

theorem header_le_slotOffset (index : UInt32) : RingHeader.size ≤ slotOffset capacity itemSize index :=
  Nat.le_add_right _ _

theorem slotOffset_disjoint {i j : UInt32} (h : i % capacity ≠ j % capacity) :
    slotOffset capacity itemSize i + itemSize ≤ slotOffset capacity itemSize j ∨
      slotOffset capacity itemSize j + itemSize ≤ slotOffset capacity itemSize i := by
  have hne : (i % capacity).toNat ≠ (j % capacity).toNat := fun e => h (UInt32.toNat_inj.1 e)
  have apart {a b : Nat} (hab : a < b) : RingHeader.size + a * itemSize + itemSize ≤ RingHeader.size + b * itemSize := by
    have := Nat.mul_le_mul_right itemSize hab
    rw [Nat.succ_mul] at this
    omega
  rcases Nat.lt_or_gt_of_ne hne with hlt | hgt
  · exact .inl (apart hlt)
  · exact .inr (apart hgt)

theorem headOffset_le (r : Ring capacity itemSize) : RingHeader.headOffset + 4 ≤ r.buffer.size := by
  rw [r.size_eq]; unfold RingHeader.headOffset RingHeader.size; omega

/-! ### The bytes after `store` -/

theorem head_store (r : Ring capacity itemSize) (slot : Bytes) : (r.store slot).head = r.head + 1 := by
  have hs : RingHeader.headOffset + (Word.u32.bytes (r.head + 1)).length ≤
      (overwrite r.buffer (slotOffset capacity itemSize r.head) slot).size := by
    rw [size_overwrite, Word.length_bytes]; exact r.headOffset_le
  have back := stretch_overwrite_self hs
  have width : (Word.u32.bytes (r.head + 1)).length = 4 := Word.length_bytes ..
  rw [width] at back
  rw [head, store]
  dsimp only
  rw [back, Word.ofBytes_bytes]

theorem authority_store (r : Ring capacity itemSize) (slot : Bytes) : (r.store slot).authority = r.authority := by
  have hle := r.headOffset_le
  apply Block.ext
  rw [authority, authority, store]
  dsimp only
  rw [stretch_overwrite_of_disjoint (by rw [size_overwrite]; omega) (.inl (by omega)),
    stretch_overwrite_of_disjoint (by omega)
      (.inl (Nat.le_trans (by decide) (header_le_slotOffset r.head)))]

/-- Storing the head leaves every slot alone. -/
theorem slotBytes_store (r : Ring capacity itemSize) (slot : Bytes) (index : UInt32) :
    (r.store slot).slotBytes index = stretch (overwrite r.buffer (slotOffset capacity itemSize r.head) slot)
      (slotOffset capacity itemSize index) itemSize := by
  rw [slotBytes, store]
  dsimp only
  refine stretch_overwrite_of_disjoint (by rw [size_overwrite]; exact r.slotOffset_le index) (.inr ?_)
  rw [Word.length_bytes]
  exact header_le_slotOffset index

theorem slotBytes_store_self (r : Ring capacity itemSize) {slot : Bytes} (hs : slot.length = itemSize)
    {index : UInt32} (h : index % capacity = r.head % capacity) : (r.store slot).slotBytes index = slot := by
  have same : slotOffset capacity itemSize index = slotOffset capacity itemSize r.head := by
    rw [slotOffset, slotOffset, h]
  rw [slotBytes_store, same]
  subst hs
  exact stretch_overwrite_self (r.slotOffset_le _)

/-- Every other slot keeps its bytes. -/
theorem slotBytes_store_of_ne (r : Ring capacity itemSize) {slot : Bytes} (hs : slot.length = itemSize)
    {index : UInt32} (h : index % capacity ≠ r.head % capacity) :
    (r.store slot).slotBytes index = r.slotBytes index := by
  rw [slotBytes_store, slotBytes]
  refine stretch_overwrite_of_disjoint (r.slotOffset_le index) ?_
  rw [hs]
  exact slotOffset_disjoint h

end StakePool.Ring
