import StakePool.Proofs.Ring.Iteration

/-!
# Appends, byte for byte

An append writes one slot and the head, or nothing at all. `exists_split` cuts the bytes of a ring at a slot and
`toBytes_store` says which of them an append replaces; `appendInPlace` appends to the buffer itself, where a write in
front of a failed check would show (`run_appendInPlace`). `append_is_atomic` puts both together with what stays readable,
up to the last head that a word can hold.
-/

namespace StakePool

namespace Ring

variable {capacity : UInt32} {itemSize : Nat} {α : Type}

/-! ### The bytes around a slot -/

/-- A ring is its authority, its head, the slots in front of the one of an index, that slot, and those behind it. -/
theorem exists_split (r : Ring capacity itemSize) (index : UInt32) :
    ∃ front back, r.toBytes = r.authority.bytes ++ Word.u32.bytes r.head ++ front ++ r.slotBytes index ++ back ∧
      front.length = index.toNat % capacity.toNat * itemSize := by
  have inside := r.slotOffset_le index
  have offset : slotOffset capacity itemSize index = RingHeader.size + index.toNat % capacity.toNat * itemSize := by
    rw [slotOffset, UInt32.toNat_mod]
  have slot : r.slotBytes index = (r.toBytes.drop (slotOffset capacity itemSize index)).take itemSize :=
    stretch_eq_take_drop ..
  refine ⟨(r.toBytes.drop RingHeader.size).take (index.toNat % capacity.toNat * itemSize),
    r.toBytes.drop (slotOffset capacity itemSize index + itemSize), ?_, ?_⟩
  · rw [← take_toBytes_eq_append, slot, ← List.take_add, ← offset, ← List.take_add, List.take_append_drop]
  · rw [List.length_take, List.length_drop, toBytes, Array.length_toList]
    omega

/-- An append replaces the head and the slot at the old head. -/
theorem toBytes_store {r : Ring capacity itemSize} {front old back slot : Bytes}
    (split : r.toBytes = r.authority.bytes ++ Word.u32.bytes r.head ++ front ++ old ++ back)
    (reached : front.length = r.head.toNat % capacity.toNat * itemSize) (filled : slot.length = old.length) :
    (r.store slot).toBytes = r.authority.bytes ++ Word.u32.bytes (r.head + 1) ++ front ++ slot ++ back := by
  have start : (r.authority.bytes ++ Word.u32.bytes r.head ++ front).length = slotOffset capacity itemSize r.head := by
    rw [List.length_append, List.length_append, r.authority.length_eq, Word.length_bytes, reached, slotOffset,
      UInt32.toNat_mod]
    rfl
  have stored := toList_overwrite_of_split split filled
  rw [start] at stored
  have regrouped : (overwrite r.buffer (slotOffset capacity itemSize r.head) slot).toList =
      r.authority.bytes ++ Word.u32.bytes r.head ++ (front ++ slot ++ back) := by
    simpa using stored
  have counted : (Word.u32.bytes (r.head + 1)).length = (Word.u32.bytes r.head).length := by
    rw [Word.length_bytes, Word.length_bytes]
  have headed := toList_overwrite_of_split regrouped counted
  rw [r.authority.length_eq] at headed
  simpa [toBytes, store] using headed

/-! ### In place -/

/-- An append to the buffer itself, one check or write after the other. A failed check leaves what was written so far. -/
def appendInPlace (capacity : UInt32) (itemSize : Nat) (item : Bytes) : EStateM Fault (Array UInt8) UInt32 := do
  if itemSize < item.length then
    throw (.sizeMismatch itemSize item.length)
  let index := Word.u32.ofBytes (stretch (← get) RingHeader.headOffset 4)
  if index = 0xffffffff then
    throw (.overflow .ringHead)
  let start := slotOffset capacity itemSize index
  modify fun buffer => overwrite buffer start item
  modify fun buffer => overwrite buffer (start + item.length) (Bytes.zeros (itemSize - item.length))
  modify fun buffer => overwrite buffer RingHeader.headOffset (Word.u32.bytes (index + 1))
  return index

/-- An answer together with the buffer of the ring that it leaves. -/
def settle (buffer : Array UInt8) :
    Except Fault (UInt32 × Ring capacity itemSize) → EStateM.Result Fault (Array UInt8) UInt32
  | .ok (index, r') => .ok index r'.buffer
  | .error fault => .error fault buffer

/-- Both checks stand in front of every write. -/
theorem run_appendInPlace (r : Ring capacity itemSize) (item : Bytes) :
    (appendInPlace capacity itemSize item).run r.buffer = settle r.buffer (r.push item) := by
  have index : Word.u32.ofBytes (stretch r.buffer RingHeader.headOffset 4) = r.head := rfl
  unfold appendInPlace push
  by_cases long : itemSize < item.length
  · simp [settle, long]
  · by_cases last : r.head = 0xffffffff
    · simp [settle, long, last, index]
    · simp [settle, long, last, index, store, Bytes.padTo, overwrite_append, -bind_pure_comp]

/-! ### Failures -/

theorem push_eq_error_iff {r : Ring capacity itemSize} {item : Bytes} {fault : Fault} :
    r.push item = .error fault ↔ (itemSize < item.length ∧ fault = .sizeMismatch itemSize item.length) ∨
      (item.length ≤ itemSize ∧ r.head = 0xffffffff ∧ fault = .overflow .ringHead) := by
  unfold push
  by_cases long : itemSize < item.length
  · simp [long, Nat.not_le.mpr long, eq_comm]
  · by_cases last : r.head = 0xffffffff
    · simp [long, last, Nat.not_lt.mp long, eq_comm]
    · simp [long, last]

/-- Behind the last head nothing is taken. -/
theorem attempt_of_last {r : Ring capacity itemSize} (last : r.head = 0xffffffff) (d : Datum) :
    ∃ fault, r.attempt d = (.error fault, r) := by
  rcases r.attempt_cases d with ⟨-, room, -⟩ | refused
  · rw [last] at room
    exact absurd room (Nat.lt_irrefl _)
  · exact refused

theorem after_of_last {r : Ring capacity itemSize} (last : r.head = 0xffffffff) (items : List Datum) :
    r.after items = r ∧ ∀ answer ∈ r.answers items, ∃ fault, answer = .error fault := by
  induction items with
  | nil => exact ⟨rfl, by simp [answers]⟩
  | cons d items ih =>
    obtain ⟨fault, refused⟩ := attempt_of_last last d
    obtain ⟨same, errors⟩ := ih
    simp only [after, answers, refused]
    exact ⟨same, by simpa using errors⟩

/-! ### What stays readable -/

section

variable {r : Ring capacity itemSize} {slot : Bytes} {index : UInt32}

theorem slot?_store_of_isSome (filled : slot.length = itemSize) (room : r.head.toNat < 0xffffffff)
    (before : (r.slot? index).isSome = true) (after : ((r.store slot).slot? index).isSome = true) :
    (r.store slot).slot? index = r.slot? index := by
  obtain ⟨old, new⟩ := (isSome_slot? ..).mp before
  obtain ⟨old', new'⟩ := (isSome_slot? ..).mp after
  rw [slot?_of_mem old new, slot?_of_mem old' new', slotBytes_store_of_ne r filled (mod_capacity_ne_head room old' new)]

/-- Only a full ring loses an item, and only its oldest. -/
theorem isSome_slot?_and_not_store (room : r.head.toNat < 0xffffffff) :
    ((r.slot? index).isSome = true ∧ ¬ ((r.store slot).slot? index).isSome = true) ↔
      capacity ≤ r.head ∧ index = r.head - capacity := by
  have slots := r.toNat_capacity_pos
  have full : capacity ≤ r.head → (r.head - capacity).toNat = r.head.toNat - capacity.toNat :=
    UInt32.toNat_sub_of_le _ _
  rw [isSome_slot?, isSome_slot?, tail_le_iff, tail_le_iff, UInt32.lt_iff_toNat_lt, UInt32.lt_iff_toNat_lt,
    toNat_head_store room, UInt32.le_iff_toNat_le, ← UInt32.toNat_inj]
  rw [UInt32.le_iff_toNat_le] at full
  -- The window moves up by one, so its lower end is all that it can lose.
  constructor
  · intro gone
    exact ⟨by omega, by rw [full (by omega)]; omega⟩
  · intro oldest
    rw [full oldest.1] at oldest
    omega

end

theorem getElem?_toList_of_entriesSince {r : Ring capacity itemSize} {cursor index : UInt32}
    {decoder : Bytes → Except Fault α} {e : Entries capacity itemSize α}
    (opened : r.entriesSince cursor decoder = .ok e) (reached : cursor ≤ index) (new : index < r.head) :
    e.toList[index.toNat - cursor.toNat]? = some (Entries.decodeItem decoder index (r.slotBytes index)) := by
  rw [UInt32.le_iff_toNat_le] at reached
  rw [UInt32.lt_iff_toNat_lt] at new
  have position : cursor.toNat + (index.toNat - cursor.toNat) = index.toNat := Nat.add_sub_cancel' reached
  rw [toList_of_entriesSince opened, getElem?_deliveries r decoder (by omega), position, UInt32.ofNat_toNat]

/-! ### The append -/

/-- An append that fits writes its slot and the head, keeps every other item that is still readable, and drops at most
the oldest one. An append that does not fit, or that comes behind the last head that a word can hold, writes nothing;
behind the last head the newest items stay readable for good. -/
theorem append_is_atomic {bytes : Bytes} {r : Ring capacity itemSize}
    (opened : ofBytes capacity itemSize bytes = .ok r) (format : Format α) (a : α) :
    ((∃ index r', r.append format a = .ok (index, r')) ↔
      (format.encode a).length ≤ itemSize ∧ r.head.toNat < 0xffffffff) ∧
    (∀ index r', r.append format a = .ok (index, r') →
      index = r.head ∧ r'.head.toNat = r.head.toNat + 1 ∧
      (∃ front old back,
        bytes = r.authority.bytes ++ Word.u32.bytes r.head ++ front ++ old ++ back ∧
        r'.toBytes = r.authority.bytes ++ Word.u32.bytes (r.head + 1) ++ front ++
          Bytes.padTo itemSize (format.encode a) ++ back ∧
        front.length = r.head.toNat % capacity.toNat * itemSize ∧ old.length = itemSize) ∧
      r'.slot? index = some (Bytes.padTo itemSize (format.encode a)) ∧
      (∀ i, (r.slot? i).isSome = true → (r'.slot? i).isSome = true → r'.slot? i = r.slot? i) ∧
      ∀ i, ((r.slot? i).isSome = true ∧ ¬ (r'.slot? i).isSome = true) ↔ capacity ≤ r.head ∧ i = r.head - capacity) ∧
    (∀ fault, r.append format a = .error fault ↔
      (itemSize < (format.encode a).length ∧ fault = .sizeMismatch itemSize (format.encode a).length) ∨
      ((format.encode a).length ≤ itemSize ∧ r.head = 0xffffffff ∧ fault = .overflow .ringHead)) ∧
    (appendInPlace capacity itemSize (format.encode a)).run bytes.toArray = settle bytes.toArray (r.append format a) ∧
    (r.head = 0xffffffff → ∀ items,
      (∀ answer ∈ r.answers items, ∃ fault, answer = .error fault) ∧ r.after items = r ∧
      r.length = min 0xffffffff capacity.toNat ∧
      ∀ index : UInt32, 0xffffffff - r.length ≤ index.toNat → index.toNat < 0xffffffff →
        ∃ slot, r.slot? index = some slot ∧
          ∀ {β : Type} (decoder : Bytes → Except Fault β),
            (r.entries decoder).toList[index.toNat - (0xffffffff - r.length)]? =
              some (Entries.decodeItem decoder index slot) ∧
            ∀ cursor, r.tail ≤ cursor → cursor ≤ index → ∃ e, r.entriesSince cursor decoder = .ok e ∧
              e.toList[index.toNat - cursor.toNat]? = some (Entries.decodeItem decoder index slot)) := by
  have buffer : bytes.toArray = r.buffer := by rw [← toBytes_of_ofBytes opened, toBytes, Array.toArray_toList]
  refine ⟨?succeeds, ?changes, fun fault => push_eq_error_iff, ?inPlace, ?exhausted⟩
  case succeeds =>
    constructor
    · intro succeeded
      obtain ⟨index, r', appended⟩ := succeeded
      obtain ⟨fits, room, -⟩ := push_eq_ok_iff.mp appended
      exact ⟨fits, room⟩
    · intro possible
      exact ⟨_, _, push_eq_ok_iff.mpr ⟨possible.1, possible.2, rfl, rfl⟩⟩
  case changes =>
    intro index r' appended
    obtain ⟨fits, room, rfl, rfl⟩ := push_eq_ok_iff.mp appended
    have filled := Bytes.length_padTo fits
    obtain ⟨front, back, split, reached⟩ := r.exists_split r.head
    have old := r.length_slotBytes r.head
    have newest := toNat_head_store room (Bytes.padTo itemSize (format.encode a))
    refine ⟨rfl, newest, ⟨front, _, back, ?_, toBytes_store split reached (filled.trans old.symm), reached, old⟩, ?_,
      fun i => slot?_store_of_isSome filled room, fun i => isSome_slot?_and_not_store room⟩
    · rw [← toBytes_of_ofBytes opened, split]
    · rw [slot?_of_mem, slotBytes_store_self r filled rfl]
      · have slots := r.toNat_capacity_pos
        rw [tail_le_iff]
        omega
      · rw [UInt32.lt_iff_toNat_lt]
        omega
  case inPlace =>
    rw [buffer, run_appendInPlace, append]
  case exhausted =>
    intro last items
    obtain ⟨same, refused⟩ := after_of_last last items
    have head : r.head.toNat = 0xffffffff := by rw [last]; rfl
    have length : r.length = min 0xffffffff capacity.toNat := by rw [length_eq, head]
    have tail : r.tail.toNat = 0xffffffff - r.length := by
      rw [toNat_tail, head, length]
      omega
    refine ⟨refused, same, length, ?_⟩
    intro index low high
    have old : r.tail ≤ index := by rwa [UInt32.le_iff_toNat_le, tail]
    have new : index < r.head := by rwa [UInt32.lt_iff_toNat_lt, head]
    refine ⟨_, slot?_of_mem old new, fun decoder => ⟨?_, ?_⟩⟩
    · rw [← tail]
      exact getElem?_toList_of_entriesSince (entriesSince_of_mem (UInt32.le_refl _) r.tail_le_head decoder) old new
    · intro cursor inside reached
      have readable := entriesSince_of_mem inside (UInt32.le_trans reached (UInt32.le_of_lt new)) decoder
      exact ⟨_, readable, getElem?_toList_of_entriesSince readable reached new⟩

/-- A full ring of two slots takes a third item, and an exhausted one refuses it. -/
theorem append_is_atomic_full :
    ∃ r r' last : Ring 2 2,
      ofBytes 2 2 (Bytes.zeros 32 ++ [2, 0, 0, 0, 5, 6, 7, 8]) = .ok r ∧ r.append (.fixed .u8) 9 = .ok (2, r') ∧
      r'.toBytes = Bytes.zeros 32 ++ [3, 0, 0, 0, 9, 0, 7, 8] ∧ r'.slot? 1 = r.slot? 1 ∧
      ¬ (r'.slot? 0).isSome = true ∧
      ofBytes 2 2 (Bytes.zeros 32 ++ [255, 255, 255, 255, 5, 6, 7, 8]) = .ok last ∧
      last.append (.fixed .u8) 9 = .error (.overflow .ringHead) ∧
      ∃ slot, last.slot? 0xfffffffe = some slot := by
  obtain ⟨-, changes, -⟩ := @append_is_atomic 2 2 UInt8 (Bytes.zeros 32 ++ [2, 0, 0, 0, 5, 6, 7, 8]) _ rfl (.fixed .u8) 9
  obtain ⟨-, -, -, -, kept, gone⟩ := changes 2 _ rfl
  obtain ⟨-, -, refused, -, exhausted⟩ :=
    @append_is_atomic 2 2 UInt8 (Bytes.zeros 32 ++ [255, 255, 255, 255, 5, 6, 7, 8]) _ rfl (.fixed .u8) 9
  obtain ⟨-, -, -, readable⟩ := exhausted rfl []
  obtain ⟨slot, found, -⟩ := readable 0xfffffffe (by decide +kernel) (by decide +kernel)
  exact ⟨_, _, _, rfl, rfl, by decide +kernel, kept 1 rfl rfl, ((gone 0).mpr ⟨by decide +kernel, rfl⟩).2, rfl,
    (refused _).mpr (.inr ⟨by decide +kernel, rfl, rfl⟩), slot, found⟩

end Ring

end StakePool
