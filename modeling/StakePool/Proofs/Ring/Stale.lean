import StakePool.Proofs.Ring.History

/-!
# Stale slots

Two rings with one header, whose slots hold whatever they hold, take the same items. `Alike` says where the two agree:
in the header and in the slots that were written since. Every append keeps it and adds its own slot (`attempt_alike`),
so that a run gives the same answers on both (`after_alike`) and what is left of the first contents lies in slots that
no item was written to (`exists_slot_of_ne`).
-/

namespace StakePool

namespace Ring

variable {capacity : UInt32} {itemSize : Nat}

/-- The indices that were given out. -/
def written (answers : List (Except Fault UInt32)) : List UInt32 := answers.filterMap Except.toOption

@[simp] theorem written_nil : written [] = [] := rfl

@[simp] theorem written_ok (index : UInt32) (answers : List (Except Fault UInt32)) :
    written (.ok index :: answers) = index :: written answers := rfl

@[simp] theorem written_error (fault : Fault) (answers : List (Except Fault UInt32)) :
    written (.error fault :: answers) = written answers := rfl

/-- Both rings have the same header and the same bytes in the slots of these indices. -/
structure Alike (indices : List UInt32) (r r' : Ring capacity itemSize) : Prop where
  authority_eq : r.authority = r'.authority
  head_eq : r.head = r'.head
  slots : ∀ index ∈ indices, r.slotBytes index = r'.slotBytes index

/-! ### Positions -/

theorem slotBytes_congr (r : Ring capacity itemSize) {i j : UInt32} (same : i % capacity = j % capacity) :
    r.slotBytes i = r.slotBytes j := by
  rw [slotBytes, slotBytes, slotOffset, slotOffset, same]

/-- Behind the header every byte lies in a slot. -/
theorem exists_slot (r : Ring capacity itemSize) {position : Nat} (behind : RingHeader.size ≤ position)
    (inside : position < r.toBytes.length) :
    ∃ slot < capacity, slotOffset capacity itemSize slot ≤ position ∧
      position < slotOffset capacity itemSize slot + itemSize := by
  have positive := r.itemSize_pos
  have small := capacity.toNat_lt
  rw [toBytes, Array.length_toList, r.size_eq] at inside
  have number : (position - RingHeader.size) / itemSize < capacity.toNat := by
    rw [Nat.div_lt_iff_lt_mul positive]
    omega
  have slot : (UInt32.ofNat ((position - RingHeader.size) / itemSize)).toNat =
      (position - RingHeader.size) / itemSize := UInt32.toNat_ofNat_of_lt (by show _ < 2 ^ 32; omega)
  have split := Nat.div_add_mod (position - RingHeader.size) itemSize
  have rest := Nat.mod_lt (position - RingHeader.size) positive
  rw [Nat.mul_comm] at split
  refine ⟨_, by rwa [UInt32.lt_iff_toNat_lt, slot], ?_⟩
  rw [slotOffset, UInt32.toNat_mod, slot, Nat.mod_eq_of_lt number]
  omega

theorem getElem?_toBytes_of_slot (r : Ring capacity itemSize) {slot : UInt32} {position : Nat}
    (reached : slotOffset capacity itemSize slot ≤ position)
    (below : position < slotOffset capacity itemSize slot + itemSize) :
    r.toBytes[position]? = (r.slotBytes slot)[position - slotOffset capacity itemSize slot]? := by
  rw [slotBytes, getElem?_stretch (r.slotOffset_le slot), if_pos (by omega), Nat.add_sub_cancel' reached, toBytes,
    Array.getElem?_toList]

namespace Alike

variable {indices : List UInt32} {r r' : Ring capacity itemSize}

/-- The header is read back from its 36 bytes. -/
theorem of_take (header : r.toBytes.take RingHeader.size = r'.toBytes.take RingHeader.size) : Alike [] r r' := by
  rw [take_toBytes, take_toBytes] at header
  have small : 0 + RingHeader.layout.size < addressLimit := by decide
  have read := RingHeader.layout.read_encode { authority := r.authority, head := r.head } small []
  have read' := RingHeader.layout.read_encode { authority := r'.authority, head := r'.head } small []
  rw [header, read'] at read
  obtain ⟨same, -⟩ := EStateM.Result.ok.inj read
  obtain ⟨authority, head⟩ := RingHeader.mk.inj same
  exact ⟨authority.symm, head.symm, by simp⟩

theorem take_eq (alike : Alike indices r r') :
    r.toBytes.take RingHeader.size = r'.toBytes.take RingHeader.size := by
  rw [take_toBytes, take_toBytes, alike.authority_eq, alike.head_eq]

/-- Where the bytes of the two rings differ there is a slot that was not written. -/
theorem exists_slot_of_ne (alike : Alike indices r r') {position : Nat}
    (differ : r.toBytes[position]? ≠ r'.toBytes[position]?) :
    ∃ slot < capacity, slotOffset capacity itemSize slot ≤ position ∧
      position < slotOffset capacity itemSize slot + itemSize ∧ ∀ index ∈ indices, index % capacity ≠ slot := by
  have behind : RingHeader.size ≤ position := by
    refine Nat.le_of_not_lt fun front => differ ?_
    rw [← List.getElem?_take_of_lt front, alike.take_eq, List.getElem?_take_of_lt front]
  have inside : position < r.toBytes.length := by
    have lengths : r.toBytes.length = r'.toBytes.length := by
      rw [toBytes, toBytes, Array.length_toList, Array.length_toList, r.size_eq, r'.size_eq]
    refine Nat.lt_of_not_le fun outside => differ ?_
    rw [List.getElem?_eq_none (by omega), List.getElem?_eq_none (by omega)]
  obtain ⟨slot, number, reached, below⟩ := r.exists_slot behind inside
  refine ⟨slot, number, reached, below, ?_⟩
  intro index member same
  apply differ
  have here : slot % capacity = index % capacity := by
    rw [same]
    exact UInt32.mod_eq_of_lt number
  rw [r.getElem?_toBytes_of_slot reached below, r'.getElem?_toBytes_of_slot reached below, r.slotBytes_congr here,
    r'.slotBytes_congr here, alike.slots index member]

theorem slot?_eq (alike : Alike indices r r') {index : UInt32} (member : r.head ≤ index ∨ index ∈ indices) :
    r.slot? index = r'.slot? index := by
  unfold slot? tail
  rw [alike.head_eq]
  split
  · rfl
  · rename_i readable
    rcases member with ahead | member
    · rw [alike.head_eq] at ahead
      exact absurd (.inr ahead) readable
    · rw [alike.slots index member]

/-! ### One append -/

theorem store (alike : Alike indices r r') {slot : Bytes} (filled : slot.length = itemSize) :
    Alike (indices ++ [r.head]) (r.store slot) (r'.store slot) where
  authority_eq := by rw [authority_store, authority_store, alike.authority_eq]
  head_eq := by rw [head_store, head_store, alike.head_eq]
  slots index member := by
    by_cases here : index % capacity = r.head % capacity
    · rw [slotBytes_store_self r filled here, slotBytes_store_self r' filled (alike.head_eq ▸ here)]
    · have earlier : index ∈ indices := by
        rcases List.mem_append.mp member with earlier | last
        · exact earlier
        · rw [List.mem_singleton.mp last] at here
          exact absurd rfl here
      rw [slotBytes_store_of_ne r filled here, slotBytes_store_of_ne r' filled (alike.head_eq ▸ here),
        alike.slots index earlier]

end Alike

/-- Both rings give the same answer, and agree afterwards in the slot that was written as well. -/
theorem attempt_alike {indices : List UInt32} {r r' : Ring capacity itemSize} (alike : Alike indices r r') (d : Datum) :
    (r.attempt d).1 = (r'.attempt d).1 ∧
      Alike (indices ++ written [(r.attempt d).1]) (r.attempt d).2 (r'.attempt d).2 := by
  unfold attempt append push
  rw [← alike.head_eq]
  dsimp only
  by_cases long : itemSize < (d.format.encode d.value).length
  · rw [if_pos long, if_pos long]
    exact ⟨rfl, by simpa using alike⟩
  rw [if_neg long, if_neg long]
  by_cases last : r.head = 0xffffffff
  · rw [if_pos last, if_pos last]
    exact ⟨rfl, by simpa using alike⟩
  · rw [if_neg last, if_neg last]
    exact ⟨rfl, alike.store (Bytes.length_padTo (Nat.le_of_not_lt long))⟩

/-! ### Whole runs -/

theorem after_alike {indices : List UInt32} {r r' : Ring capacity itemSize} (alike : Alike indices r r')
    (items : List Datum) :
    r'.answers items = r.answers items ∧
      Alike (indices ++ written (r.answers items)) (r.after items) (r'.after items) := by
  induction items generalizing indices r r' with
  | nil => exact ⟨rfl, by simpa [answers, after] using alike⟩
  | cons d items ih =>
    obtain ⟨answer, next⟩ := attempt_alike alike d
    obtain ⟨later, last⟩ := ih next
    rw [List.append_assoc, written, written, ← List.filterMap_append, List.singleton_append] at last
    refine ⟨?_, last⟩
    rw [answers, answers, later, answer]

theorem toNat_head_after (r : Ring capacity itemSize) (items : List Datum) :
    (r.after items).head.toNat = r.head.toNat + (written (r.answers items)).length := by
  have counted := congrArg List.length (r.indices_eq_range' items)
  rw [List.length_map, List.length_range'] at counted
  rw [(after_follows r.follows_refl items).head_eq, List.nil_append, List.length_map, ← counted, written]

theorem mem_written (r : Ring capacity itemSize) (items : List Datum) {index : UInt32} :
    index ∈ written (r.answers items) ↔ r.head ≤ index ∧ index < (r.after items).head := by
  have counted := r.indices_eq_range' items
  have length := congrArg List.length counted
  rw [List.length_map, List.length_range'] at length
  have number : index ∈ written (r.answers items) ↔
      index.toNat ∈ ((r.answers items).filterMap Except.toOption).map UInt32.toNat := by
    simp only [List.mem_map, UInt32.toNat_inj, exists_eq_right]
    rfl
  rw [number, counted, List.mem_range'_1, UInt32.le_iff_toNat_le, UInt32.lt_iff_toNat_lt, toNat_head_after, written,
    length]

/-- Among as many successive numbers as there are slots each slot has one. -/
theorem exists_mod_eq {slot slots : Nat} (number : slot < slots) (start : Nat) :
    ∃ i, start ≤ i ∧ i < start + slots ∧ i % slots = slot := by
  refine ⟨start + (slot + start * (slots - 1)) % slots, by omega, ?_, ?_⟩
  · have := Nat.mod_lt (slot + start * (slots - 1)) (by omega : slots > 0)
    omega
  · obtain ⟨n, rfl⟩ : ∃ n, slots = n + 1 := ⟨slots - 1, by omega⟩
    have whole : start + (slot + start * n) = slot + start * (n + 1) := by
      rw [Nat.mul_succ]
      omega
    rw [Nat.add_mod_mod, Nat.add_sub_cancel, whole, Nat.add_mul_mod_self_right, Nat.mod_eq_of_lt number]

/-- As many items as there are slots are written to every slot. -/
theorem exists_written (r : Ring capacity itemSize) {items : List Datum}
    (enough : capacity.toNat ≤ (written (r.answers items)).length) {slot : UInt32} (number : slot < capacity) :
    ∃ index ∈ written (r.answers items), index % capacity = slot := by
  obtain ⟨i, reached, below, here⟩ := exists_mod_eq (UInt32.lt_iff_toNat_lt.mp number) r.head.toNat
  have head := r.toNat_head_after items
  have small := (r.after items).head.toNat_lt
  have position : (UInt32.ofNat i).toNat = i := UInt32.toNat_ofNat_of_lt (by show i < 2 ^ 32; omega)
  refine ⟨.ofNat i, (r.mem_written items).mpr ⟨?_, ?_⟩, ?_⟩
  · rwa [UInt32.le_iff_toNat_le, position]
  · rw [UInt32.lt_iff_toNat_lt, position]
    omega
  · rw [← UInt32.toNat_inj, UInt32.toNat_mod, position, here]

/-- Two rings that differ in what their slots held at first take items with the same answers, show the same new items,
differ afterwards only in slots that no item was written to, and do not differ any more once every slot was written. -/
theorem stale_bytes_never_leak {bytes bytes' : Bytes} {r r' : Ring capacity itemSize}
    (opened : ofBytes capacity itemSize bytes = .ok r) (opened' : ofBytes capacity itemSize bytes' = .ok r')
    (header : bytes.take RingHeader.size = bytes'.take RingHeader.size) (items : List Datum) :
    let indices := written (r.answers items)
    let last := r.after items
    let last' := r'.after items
    r'.answers items = r.answers items ∧
    (∀ index, r.head ≤ index → last'.slot? index = last.slot? index) ∧
    (∀ position : Nat, last'.toBytes[position]? ≠ last.toBytes[position]? →
      ∃ slot < capacity, slotOffset capacity itemSize slot ≤ position ∧
        position < slotOffset capacity itemSize slot + itemSize ∧ ∀ index ∈ indices, index % capacity ≠ slot) ∧
    (capacity.toNat ≤ indices.length → last'.toBytes = last.toBytes) := by
  intro indices last last'
  rw [← toBytes_of_ofBytes opened, ← toBytes_of_ofBytes opened'] at header
  obtain ⟨answers, alike⟩ := after_alike (Alike.of_take header) items
  have apart {position : Nat} (differ : last'.toBytes[position]? ≠ last.toBytes[position]?) :=
    alike.exists_slot_of_ne differ.symm
  refine ⟨answers, ?_, fun _ => apart, ?_⟩
  · intro index new
    apply Eq.symm
    apply alike.slot?_eq
    by_cases below : index < last.head
    · exact .inr ((r.mem_written items).mpr ⟨new, below⟩)
    · exact .inl (UInt32.not_lt.mp below)
  · intro enough
    apply List.ext_getElem?
    intro position
    apply Decidable.byContradiction
    intro differ
    obtain ⟨slot, number, -, -, unwritten⟩ := apart differ
    obtain ⟨index, member, here⟩ := r.exists_written enough number
    exact unwritten index member here

/-- Of two items the first leaves one slot of two as it was, and both together leave none. -/
theorem stale_bytes_never_leak_two_slots :
    let header : Bytes := Bytes.zeros 32 ++ [1, 0, 0, 0]
    let first : Datum := ⟨.fixed .u8, 3⟩
    let second : Datum := ⟨.fixed .u8, 4⟩
    ∃ r r' : Ring 2 2, ofBytes 2 2 (header ++ [5, 6, 7, 8]) = .ok r ∧ ofBytes 2 2 (header ++ [9, 9, 9, 9]) = .ok r' ∧
      (r'.after [first]).slot? 1 = (r.after [first]).slot? 1 ∧
      (r'.after [first]).slot? 0 ≠ (r.after [first]).slot? 0 ∧
      (r'.after [first, second]).toBytes = (r.after [first, second]).toBytes := by
  intro header first second
  refine ⟨_, _, rfl, rfl, ?_, by decide +kernel, ?_⟩
  · obtain ⟨-, slot, -, -⟩ := @stale_bytes_never_leak 2 2 (header ++ [5, 6, 7, 8]) (header ++ [9, 9, 9, 9]) _ _ rfl rfl rfl
      [first]
    exact slot 1 (by decide +kernel)
  · obtain ⟨-, -, -, whole⟩ := @stale_bytes_never_leak 2 2 (header ++ [5, 6, 7, 8]) (header ++ [9, 9, 9, 9]) _ _ rfl rfl rfl
      [first, second]
    exact whole (by decide +kernel)

end Ring

end StakePool
