import StakePool.Proofs.Codec.RoundTrip
import StakePool.Ring.Entries
import StakePool.Ring.Lemmas

/-!
# The readable window

The numbers that a ring reports about itself (`toNat_tail`, `length_eq`, `header_eq`), when an item can be read
(`isSome_slot?`), when an append succeeds (`push_eq_ok_iff`), and what an iteration hands out (`take_eq`).
-/

namespace StakePool

namespace Ring

variable {capacity : UInt32} {itemSize : Nat}

/-! ### Opening -/

theorem toBytes_of_ofBytes {bytes : Bytes} {r : Ring capacity itemSize}
    (opened : ofBytes capacity itemSize bytes = .ok r) :
    r.toBytes = bytes := by
  unfold ofBytes at opened
  split at opened
  · cases opened
  · obtain rfl := Except.ok.inj opened
    rfl

theorem validate_eq_ok_iff {length : Nat} :
    validate length capacity itemSize = .ok () ↔ capacity ≠ 0 ∧ 0 < itemSize ∧
      RingHeader.size + capacity.toNat * itemSize < addressLimit ∧
      length = RingHeader.size + capacity.toNat * itemSize := by
  constructor
  · intro sized
    obtain ⟨slots, positive, length_eq, small⟩ := validate_eq_ok sized
    exact ⟨slots, positive, length_eq ▸ small, length_eq⟩
  · rintro ⟨slots, positive, small, rfl⟩
    have geometry : ¬ (capacity = 0 ∨ itemSize = 0) := by
      rintro (zero | zero)
      · exact slots zero
      · omega
    have size : bufferSize capacity itemSize = .ok (capacity.toNat * itemSize + RingHeader.size) := by
      rw [bufferSize, if_neg (by omega)]
    simp only [validate, if_neg geometry, size, Nat.add_comm, if_true]

theorem validate_toBytes (r : Ring capacity itemSize) : validate r.toBytes.length capacity itemSize = .ok () := by
  have sized : r.toBytes.length = RingHeader.size + capacity.toNat * itemSize := by
    rw [toBytes, Array.length_toList, r.size_eq]
  exact validate_eq_ok_iff.mpr ⟨r.capacity_ne_zero, r.itemSize_pos, r.size_eq ▸ r.size_lt, sized⟩

theorem ofBytes_toBytes (r : Ring capacity itemSize) : ofBytes capacity itemSize r.toBytes = .ok r := by
  unfold ofBytes
  split
  · rename_i refused
    rw [validate_toBytes] at refused
    cases refused
  · rfl

theorem stretch_eq_take_drop (buffer : Array UInt8) (start n : Nat) :
    stretch buffer start n = (buffer.toList.drop start).take n := by
  rw [stretch, Array.toList_extract, List.extract_eq_take_drop, Nat.add_sub_cancel_left]

theorem exists_ofBytes {bytes : Bytes} (sized : validate bytes.length capacity itemSize = .ok ()) :
    ∃ r, ofBytes capacity itemSize bytes = .ok r := by
  unfold ofBytes
  split
  · rename_i refused
    rw [sized] at refused
    cases refused
  · exact ⟨_, rfl⟩

theorem ofBytes_of_refused {bytes : Bytes} {fault : Fault}
    (refused : validate bytes.length capacity itemSize = .error fault) :
    ofBytes capacity itemSize bytes = .error fault := by
  unfold ofBytes
  split
  · rename_i failed
    rw [failed] at refused
    exact congrArg Except.error (Except.error.inj refused)
  · rename_i passed
    rw [passed] at refused
    cases refused

theorem head_of_zeros {r : Ring capacity itemSize} {n : Nat} (zeros : r.toBytes = Bytes.zeros n) : r.head = 0 := by
  have long : RingHeader.headOffset + 4 ≤ n := by
    have sized := congrArg List.length zeros
    rw [Bytes.length_zeros, toBytes, Array.length_toList] at sized
    exact sized ▸ r.headOffset_le
  have word : stretch r.buffer RingHeader.headOffset 4 = Bytes.zeros 4 := by
    rw [stretch_eq_take_drop]
    change ((r.toBytes).drop RingHeader.headOffset).take 4 = _
    rw [zeros, Bytes.zeros, List.drop_replicate, List.take_replicate, Nat.min_eq_left (by omega), Bytes.zeros]
  rw [head, word]
  rfl

theorem authority_bytes (r : Ring capacity itemSize) : r.authority.bytes = r.toBytes.take 32 :=
  stretch_eq_take_drop r.buffer 0 32

theorem take_toBytes_eq_append (r : Ring capacity itemSize) :
    r.toBytes.take RingHeader.size = r.authority.bytes ++ Word.u32.bytes r.head := by
  have four : (stretch r.buffer RingHeader.headOffset 4).length = Word.u32.width := length_stretch r.headOffset_le
  have head : Word.u32.bytes r.head = (r.toBytes.drop 32).take 4 := by
    rw [Ring.head, Word.bytes_ofBytes _ four, stretch_eq_take_drop]
    rfl
  rw [authority_bytes, head, ← List.take_add]

/-- The 36 bytes in front of the slots are those of the header. -/
theorem take_toBytes (r : Ring capacity itemSize) :
    r.toBytes.take RingHeader.size = RingHeader.layout.encode { authority := r.authority, head := r.head } := by
  have fields : RingHeader.layout.encode { authority := r.authority, head := r.head } =
      r.authority.bytes ++ Word.u32.bytes r.head := by
    rw [RingHeader.layout, Layout.encode_via]
    exact (Layout.encode_pair _ _ _ _).trans (by rw [Layout.encode_block, Layout.encode_word])
  rw [fields, take_toBytes_eq_append]

theorem header_eq (r : Ring capacity itemSize) :
    r.header = .ok { authority := r.authority, head := r.head } := by
  have long : RingHeader.size ≤ r.toBytes.length := by
    rw [toBytes, Array.length_toList, r.size_eq]
    exact Nat.le_add_right _ _
  have read := RingHeader.layout.read_encode { authority := r.authority, head := r.head }
    (by decide : 0 + 36 < addressLimit) []
  rw [List.append_nil, ← take_toBytes] at read
  unfold header Layout.decode
  rw [if_neg (by rw [RingHeader.size_layout]; omega), RingHeader.size_layout, Reader.ofBytes, read]

/-! ### The window -/

theorem toNat_min_head (r : Ring capacity itemSize) :
    (min r.head capacity).toNat = min r.head.toNat capacity.toNat := by
  show (if r.head ≤ capacity then r.head else capacity).toNat = _
  split
  · rename_i le
    exact (Nat.min_eq_left (UInt32.le_iff_toNat_le.mp le)).symm
  · rename_i gt
    have lt := UInt32.lt_iff_toNat_lt.mp (UInt32.not_le.mp gt)
    exact (Nat.min_eq_right (by omega)).symm

theorem min_head_le (r : Ring capacity itemSize) : min r.head capacity ≤ r.head := by
  rw [UInt32.le_iff_toNat_le, toNat_min_head]
  exact Nat.min_le_left _ _

theorem toNat_tail (r : Ring capacity itemSize) : r.tail.toNat = r.head.toNat - capacity.toNat := by
  rw [tail, UInt32.toNat_sub_of_le _ _ r.min_head_le, toNat_min_head]
  omega

theorem tail_le_iff {r : Ring capacity itemSize} {index : UInt32} :
    r.tail ≤ index ↔ r.head.toNat - capacity.toNat ≤ index.toNat := by
  rw [UInt32.le_iff_toNat_le, toNat_tail]

theorem tail_le_head (r : Ring capacity itemSize) : r.tail ≤ r.head := tail_le_iff.mpr (Nat.sub_le _ _)

theorem length_eq (r : Ring capacity itemSize) : r.length = min r.head.toNat capacity.toNat := r.toNat_min_head

theorem isEmpty_iff (r : Ring capacity itemSize) : r.isEmpty = true ↔ r.head = 0 := beq_iff_eq

theorem slot?_of_mem {r : Ring capacity itemSize} {index : UInt32} (old : r.tail ≤ index) (new : index < r.head) :
    r.slot? index = some (r.slotBytes index) := by
  unfold slot?
  rw [if_neg]
  rintro (gone | ahead)
  · exact UInt32.not_le.mpr gone old
  · exact UInt32.not_le.mpr new ahead

theorem isSome_slot? (r : Ring capacity itemSize) (index : UInt32) :
    (r.slot? index).isSome = true ↔ r.tail ≤ index ∧ index < r.head := by
  constructor
  · intro some
    unfold slot? at some
    split at some
    · cases some
    · rename_i inside
      have ⟨old, new⟩ := not_or.mp inside
      exact ⟨UInt32.not_lt.mp old, UInt32.not_le.mp new⟩
  · rintro ⟨old, new⟩
    rw [slot?_of_mem old new]
    rfl

theorem length_slotBytes (r : Ring capacity itemSize) (index : UInt32) : (r.slotBytes index).length = itemSize :=
  length_stretch (r.slotOffset_le index)

/-- Two indices less than `n` apart do not share a slot of a ring of `n` slots. -/
theorem mod_ne_of_lt_of_lt_add {i j n : Nat} (before : i < j) (near : j < i + n) : i % n ≠ j % n := by
  intro same
  have divides : n ∣ j - i := Nat.dvd_of_mod_eq_zero (Nat.sub_mod_eq_zero_of_mod_eq same.symm)
  have : j - i = 0 := Nat.eq_zero_of_dvd_of_lt divides (by omega)
  omega

/-! ### Appending -/

theorem push_eq_ok_iff {r r' : Ring capacity itemSize} {item : Bytes} {index : UInt32} :
    r.push item = .ok (index, r') ↔ item.length ≤ itemSize ∧ r.head.toNat < 0xffffffff ∧ index = r.head ∧
      r' = r.store (Bytes.padTo itemSize item) := by
  have last : r.head = 0xffffffff ↔ ¬ r.head.toNat < 0xffffffff := by
    rw [← UInt32.toNat_inj]
    have := r.head.toNat_lt
    show r.head.toNat = 4294967295 ↔ _
    omega
  constructor
  · intro pushed
    unfold push at pushed
    dsimp only at pushed
    split at pushed
    · cases pushed
    · rename_i short
      split at pushed
      · cases pushed
      · rename_i room
        obtain ⟨rfl, rfl⟩ := Prod.mk.inj (Except.ok.inj pushed)
        exact ⟨by omega, by rw [last] at room; omega, rfl, rfl⟩
  · rintro ⟨short, room, rfl, rfl⟩
    unfold push
    dsimp only
    rw [if_neg (by omega), if_neg (by rw [last]; omega)]

theorem toNat_head_store {r : Ring capacity itemSize} (room : r.head.toNat < 0xffffffff) (slot : Bytes) :
    (r.store slot).head.toNat = r.head.toNat + 1 := by
  rw [head_store, UInt32.toNat_add]
  show (r.head.toNat + 1) % 2 ^ 32 = _
  omega

theorem length_toBytes_store (r : Ring capacity itemSize) (slot : Bytes) :
    (r.store slot).toBytes.length = r.toBytes.length := by
  simp [toBytes, store]

end Ring

/-! ### Iterating -/

namespace Entries

variable {capacity : UInt32} {itemSize : Nat} {α : Type}

/-- What is handed out for the bytes of a slot. -/
def decodeItem (decoder : Bytes → Except Fault α) (index : UInt32) (slot : Bytes) : Except Fault α :=
  match decoder slot with
  | .ok a => .ok a
  | .error source => .error (.corruptEntry index source)

theorem item_eq (e : Entries capacity itemSize α) (index : UInt32) :
    e.item index = decodeItem e.decoder index (e.ring.slotBytes index) := rfl

theorem remaining_eq {e : Entries capacity itemSize α} (ordered : e.next ≤ e.stop) :
    e.remaining = e.stop.toNat - e.next.toNat := UInt32.toNat_sub_of_le _ _ ordered

theorem next?_eq_some {e : Entries capacity itemSize α} (more : e.next < e.stop) :
    e.next? = some (e.item e.next, { e with next := e.next + 1 }) := if_pos more

theorem next?_eq_none {e : Entries capacity itemSize α} (ended : ¬ e.next < e.stop) : e.next? = none := if_neg ended

theorem toNat_next_add_one {e : Entries capacity itemSize α} (more : e.next < e.stop) :
    (e.next + 1).toNat = e.next.toNat + 1 := by
  have lt := UInt32.lt_iff_toNat_lt.mp more
  have stop := e.stop.toNat_lt
  rw [UInt32.toNat_add]
  show (e.next.toNat + 1) % 2 ^ 32 = _
  omega

theorem next_add_one_le {e : Entries capacity itemSize α} (more : e.next < e.stop) : e.next + 1 ≤ e.stop := by
  rw [UInt32.le_iff_toNat_le, toNat_next_add_one more]
  exact UInt32.lt_iff_toNat_lt.mp more

theorem takeOnto_eq (n : Nat) (done : List (Except Fault α)) {e : Entries capacity itemSize α}
    (ordered : e.next ≤ e.stop) :
    takeOnto n done e = (done.reverse ++ (List.range' e.next.toNat (min n e.remaining)).map fun i => e.item (.ofNat i),
      { e with next := .ofNat (e.next.toNat + min n e.remaining) }) := by
  induction n generalizing done e with
  | zero => simp [takeOnto]
  | succ n ih =>
    have le := UInt32.le_iff_toNat_le.mp ordered
    have left := remaining_eq ordered
    by_cases more : e.next < e.stop
    · have lt := UInt32.lt_iff_toNat_lt.mp more
      have advanced := toNat_next_add_one more
      have still := next_add_one_le more
      have fewer := remaining_eq (e := { e with next := e.next + 1 }) still
      simp only [advanced] at fewer
      have count : min (n + 1) e.remaining =
          min n ({ e with next := e.next + 1 } : Entries capacity itemSize α).remaining + 1 := by
        omega
      rw [takeOnto, next?_eq_some more]
      dsimp only
      rw [ih _ still, count, List.range'_succ, List.map_cons, UInt32.ofNat_toNat, List.reverse_cons, List.append_assoc,
        advanced, Nat.add_right_comm e.next.toNat 1]
      rfl
    · have none : e.remaining = 0 := by
        rw [UInt32.lt_iff_toNat_lt] at more
        omega
      rw [takeOnto, next?_eq_none more, none]
      simp

theorem take_eq (n : Nat) {e : Entries capacity itemSize α} (ordered : e.next ≤ e.stop) :
    e.take n = ((List.range' e.next.toNat (min n e.remaining)).map fun i => e.item (.ofNat i),
      { e with next := .ofNat (e.next.toNat + min n e.remaining) }) := takeOnto_eq n [] ordered

/-- However far an iteration has got, it stands at or before its end. -/
theorem take_ordered {e : Entries capacity itemSize α} (ordered : e.next ≤ e.stop) (n : Nat) :
    (e.take n).2.next ≤ (e.take n).2.stop := by
  have le := UInt32.le_iff_toNat_le.mp ordered
  have stop := e.stop.toNat_lt
  rw [take_eq n ordered, UInt32.le_iff_toNat_le, remaining_eq ordered, UInt32.toNat_ofNat']
  show _ ≤ e.stop.toNat
  omega

/-- What is handed out was decoded from a slot. -/
theorem exists_slotBytes_of_mem {e : Entries capacity itemSize α} (ordered : e.next ≤ e.stop) {a : α}
    (member : .ok a ∈ e.toList) : ∃ index, e.decoder (e.ring.slotBytes index) = .ok a := by
  rw [toList, take_eq _ ordered] at member
  obtain ⟨i, -, handed⟩ := List.mem_map.mp member
  refine ⟨.ofNat i, ?_⟩
  rw [item_eq] at handed
  unfold decodeItem at handed
  split at handed
  · rename_i b decoded
    exact decoded.trans handed
  · cases handed

end Entries

end StakePool
