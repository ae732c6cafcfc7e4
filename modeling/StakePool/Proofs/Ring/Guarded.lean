import StakePool.Proofs.Ring.Polling

/-!
# Rings in guarded arithmetic

The operations of a ring once more, in steps that have no result where a word overflows, where a divisor is zero or
where a slice reaches beyond its bytes. On every ring, whatever its header and its slots hold, each of them has a result
and it is that of the operation: `Ring.no_guard_fails`.
-/

namespace StakePool

namespace Guarded

/-! ### Steps -/

def add32 (a b : UInt32) : Option UInt32 := if a.toNat + b.toNat < UInt32.size then some (a + b) else none

def sub32 (a b : UInt32) : Option UInt32 := if b ≤ a then some (a - b) else none

def mod32 (a b : UInt32) : Option UInt32 := if b = 0 then none else some (a % b)

def addSize (a b : Nat) : Option Nat := if a + b < addressLimit then some (a + b) else none

def mulSize (a b : Nat) : Option Nat := if a * b < addressLimit then some (a * b) else none

/-- The bytes of a buffer from `start` up to `stop`. -/
def slice (buffer : Array UInt8) (start stop : Nat) : Option Bytes :=
  if start ≤ stop ∧ stop ≤ buffer.size then some (stretch buffer start (stop - start)) else none

/-- The buffer with `bytes` stored from `start` on. -/
def put (buffer : Array UInt8) (start : Nat) (bytes : Bytes) : Option (Array UInt8) :=
  if start + bytes.length ≤ buffer.size then some (overwrite buffer start bytes) else none

/-- The bytes of a slot with an item copied over the first of them. -/
def copyFront (slot item : Bytes) : Option Bytes :=
  if item.length ≤ slot.length then some (item ++ slot.drop item.length) else none

/-- The bytes of a slot with zeros from position `n` on. -/
def clearFrom (slot : Bytes) (n : Nat) : Option Bytes :=
  if n ≤ slot.length then some (slot.take n ++ Bytes.zeros (slot.length - n)) else none

section

variable {a b : UInt32} {m n start stop : Nat} {buffer : Array UInt8} {slot item : Bytes}

theorem add32_eq (small : a.toNat + b.toNat < UInt32.size) : add32 a b = some (a + b) := if_pos small

theorem sub32_eq (le : b ≤ a) : sub32 a b = some (a - b) := if_pos le

theorem mod32_eq (divisor : b ≠ 0) : mod32 a b = some (a % b) := if_neg divisor

theorem addSize_eq (small : m + n < addressLimit) : addSize m n = some (m + n) := if_pos small

theorem mulSize_eq (small : m * n < addressLimit) : mulSize m n = some (m * n) := if_pos small

theorem slice_eq (inside : start + n ≤ buffer.size) : slice buffer start (start + n) = some (stretch buffer start n) := by
  rw [slice, if_pos ⟨Nat.le_add_right .., inside⟩, Nat.add_sub_cancel_left]

theorem put_eq {bytes : Bytes} (inside : start + bytes.length ≤ buffer.size) :
    put buffer start bytes = some (overwrite buffer start bytes) := if_pos inside

theorem copyFront_eq (short : item.length ≤ slot.length) :
    copyFront slot item = some (item ++ slot.drop item.length) := if_pos short

/-- An item that stands at the front of a slot, and zeros behind it. -/
theorem clearFrom_append (item rest : Bytes) :
    clearFrom (item ++ rest) item.length = some (Bytes.padTo (item.length + rest.length) item) := by
  rw [clearFrom, List.length_append, if_pos (Nat.le_add_right ..), List.take_left, Bytes.padTo]

end

/-! ### Operations -/

section

variable {capacity : UInt32} {itemSize : Nat} {α : Type}

def bufferSize (capacity : UInt32) (itemSize : Nat) : Option Nat := do
  addSize (← mulSize capacity.toNat itemSize) RingHeader.size

def head (r : Ring capacity itemSize) : Option UInt32 := do
  let word ← slice r.buffer RingHeader.headOffset (← addSize RingHeader.headOffset 4)
  return Word.u32.ofBytes word

def tail (r : Ring capacity itemSize) : Option UInt32 := do
  sub32 (← head r) (min (← head r) capacity)

def length (r : Ring capacity itemSize) : Option Nat := do
  return (min (← head r) capacity).toNat

def slotOffset (capacity : UInt32) (itemSize : Nat) (index : UInt32) : Option Nat := do
  let position ← mod32 index capacity
  addSize RingHeader.size (← mulSize position.toNat itemSize)

def slotBytes (r : Ring capacity itemSize) (index : UInt32) : Option Bytes := do
  let start ← slotOffset capacity itemSize index
  slice r.buffer start (← addSize start itemSize)

def slot? (r : Ring capacity itemSize) (index : UInt32) : Option (Option Bytes) := do
  let tail ← tail r
  let head ← head r
  if index < tail ∨ head ≤ index then some none else some (← slotBytes r index)

def entries (r : Ring capacity itemSize) (decoder : Bytes → Except Fault α) :
    Option (Entries capacity itemSize α) := do
  return { ring := r, next := ← tail r, stop := ← head r, decoder }

def entriesSince (r : Ring capacity itemSize) (cursor : UInt32) (decoder : Bytes → Except Fault α) :
    Option (Except Fault (Entries capacity itemSize α)) := do
  let tail ← tail r
  let head ← head r
  if cursor < tail ∨ head < cursor then
    return .error (.invalidCursor cursor tail head)
  else
    return .ok { (← entries r decoder) with next := cursor }

def next? (e : Entries capacity itemSize α) : Option (Option (Except Fault α × Entries capacity itemSize α)) :=
  if e.next < e.stop then do
    let next ← add32 e.next 1
    let slot ← slotBytes e.ring e.next
    return some (Entries.decodeItem e.decoder e.next slot, { e with next })
  else
    some none

def takeOnto : Nat → List (Except Fault α) → Entries capacity itemSize α →
    Option (List (Except Fault α) × Entries capacity itemSize α)
  | 0, done, e => some (done.reverse, e)
  | n + 1, done, e =>
    match next? e with
    | none => none
    | some none => some (done.reverse, e)
    | some (some (item, rest)) => takeOnto n (item :: done) rest

def take (e : Entries capacity itemSize α) (n : Nat) :
    Option (List (Except Fault α) × Entries capacity itemSize α) := takeOnto n [] e

def remaining (e : Entries capacity itemSize α) : Option Nat := do
  return (← sub32 e.stop e.next).toNat

/-- The index of an item, and the buffer afterwards. -/
def push (r : Ring capacity itemSize) (item : Bytes) : Option (Except Fault (UInt32 × Array UInt8)) :=
  if itemSize < item.length then
    some (.error (.sizeMismatch itemSize item.length))
  else do
    let index ← head r
    match add32 index 1 with
    | none => return .error (.overflow .ringHead)
    | some next =>
      let start ← slotOffset capacity itemSize index
      let copied ← copyFront (← slice r.buffer start (← addSize start itemSize)) item
      let buffer ← put r.buffer start (← clearFrom copied item.length)
      let buffer ← put buffer RingHeader.headOffset (Word.u32.bytes next)
      return .ok (index, buffer)

end

/-! ### Results -/

section

variable {capacity : UInt32} {itemSize : Nat} {α : Type}

theorem bufferSize_eq (capacity : UInt32) (itemSize : Nat) :
    Ring.bufferSize capacity itemSize = (bufferSize capacity itemSize).elim (.error (.overflow .ringSize)) .ok := by
  unfold Ring.bufferSize bufferSize mulSize
  by_cases slots : capacity.toNat * itemSize < addressLimit
  · rw [if_pos slots]
    show _ = (addSize _ _).elim _ _
    unfold addSize
    by_cases whole : capacity.toNat * itemSize + RingHeader.size < addressLimit
    · rw [if_pos whole, if_neg (by omega)]
      rfl
    · rw [if_neg whole, if_pos (by omega)]
      rfl
  · rw [if_neg slots, if_pos (by omega)]
    rfl

theorem head_eq (r : Ring capacity itemSize) : head r = some r.head := by
  have room : addSize RingHeader.headOffset 4 = some (RingHeader.headOffset + 4) := addSize_eq (by decide)
  simp [head, room, slice_eq r.headOffset_le, Ring.head]

theorem tail_eq (r : Ring capacity itemSize) : tail r = some r.tail := by
  simp [tail, head_eq, sub32_eq r.min_head_le, Ring.tail]

theorem length_eq (r : Ring capacity itemSize) : length r = some r.length := by
  simp [length, head_eq, Ring.length]

theorem slotOffset_eq (r : Ring capacity itemSize) (index : UInt32) :
    slotOffset capacity itemSize index = some (Ring.slotOffset capacity itemSize index) := by
  have inside := r.slotOffset_le index
  have small := r.size_lt
  unfold Ring.slotOffset at inside
  unfold slotOffset Ring.slotOffset
  rw [mod32_eq r.capacity_ne_zero]
  simp only [Option.bind_eq_bind, Option.bind_some]
  rw [mulSize_eq (by omega), Option.bind_some, addSize_eq (by omega)]

theorem addSize_slotOffset (r : Ring capacity itemSize) (index : UInt32) :
    addSize (Ring.slotOffset capacity itemSize index) itemSize =
      some (Ring.slotOffset capacity itemSize index + itemSize) :=
  addSize_eq (Nat.lt_of_le_of_lt (r.slotOffset_le index) r.size_lt)

theorem slotBytes_eq (r : Ring capacity itemSize) (index : UInt32) :
    slotBytes r index = some (r.slotBytes index) := by
  simp [slotBytes, slotOffset_eq r, addSize_slotOffset r, slice_eq (r.slotOffset_le index), Ring.slotBytes]

theorem slot?_eq (r : Ring capacity itemSize) (index : UInt32) : slot? r index = some (r.slot? index) := by
  unfold slot? Ring.slot?
  simp only [tail_eq, head_eq, slotBytes_eq, Option.bind_eq_bind, Option.bind_some]
  split <;> rfl

theorem entries_eq (r : Ring capacity itemSize) (decoder : Bytes → Except Fault α) :
    entries r decoder = some (r.entries decoder) := by
  simp [entries, tail_eq, head_eq, Ring.entries]

theorem entriesSince_eq (r : Ring capacity itemSize) (cursor : UInt32) (decoder : Bytes → Except Fault α) :
    entriesSince r cursor decoder = some (r.entriesSince cursor decoder) := by
  unfold entriesSince Ring.entriesSince
  simp only [tail_eq, head_eq, entries_eq, Option.bind_eq_bind, Option.bind_some, Option.pure_def]
  split <;> rfl

theorem next?_eq (e : Entries capacity itemSize α) : next? e = some e.next? := by
  unfold next?
  by_cases more : e.next < e.stop
  · have small : e.next.toNat + (1 : UInt32).toNat < UInt32.size := by
      have advanced := Entries.toNat_next_add_one more
      have bound := (e.next + 1).toNat_lt
      rw [advanced] at bound
      exact bound
    rw [if_pos more, Entries.next?_eq_some more, add32_eq small, slotBytes_eq, Entries.item_eq]
    rfl
  · rw [if_neg more, Entries.next?_eq_none more]

theorem takeOnto_eq (n : Nat) (done : List (Except Fault α)) (e : Entries capacity itemSize α) :
    takeOnto n done e = some (e.takeOnto n done) := by
  induction n generalizing done e with
  | zero => rfl
  | succ n ih =>
    unfold takeOnto Entries.takeOnto
    rw [next?_eq]
    cases e.next? with
    | none => rfl
    | some handed => exact ih ..

theorem take_eq (e : Entries capacity itemSize α) (n : Nat) : take e n = some (e.take n) := takeOnto_eq n [] e

theorem remaining_eq {e : Entries capacity itemSize α} (ordered : e.next ≤ e.stop) :
    remaining e = some e.remaining := by
  simp [remaining, sub32_eq ordered, Entries.remaining]

theorem clearFrom_slotBytes (r : Ring capacity itemSize) {item : Bytes} (short : item.length ≤ itemSize)
    (index : UInt32) :
    clearFrom (item ++ (r.slotBytes index).drop item.length) item.length = some (Bytes.padTo itemSize item) := by
  have rest : item.length + ((r.slotBytes index).drop item.length).length = itemSize := by
    rw [List.length_drop, r.length_slotBytes]
    omega
  rw [clearFrom_append, rest]

theorem put_slot (r : Ring capacity itemSize) {slot : Bytes} (filled : slot.length = itemSize) (index : UInt32) :
    put r.buffer (Ring.slotOffset capacity itemSize index) slot =
      some (overwrite r.buffer (Ring.slotOffset capacity itemSize index) slot) :=
  put_eq (filled ▸ r.slotOffset_le index)

theorem put_head (r : Ring capacity itemSize) {buffer : Array UInt8} (same : buffer.size = r.buffer.size)
    (head : UInt32) :
    put buffer RingHeader.headOffset (Word.u32.bytes head) =
      some (overwrite buffer RingHeader.headOffset (Word.u32.bytes head)) := by
  apply put_eq
  rw [Word.length_bytes, same]
  exact r.headOffset_le

theorem push_eq (r : Ring capacity itemSize) (item : Bytes) :
    push r item = some ((r.push item).map fun (index, r') => (index, r'.buffer)) := by
  unfold push Ring.push
  by_cases long : itemSize < item.length
  · rw [if_pos long, if_pos long]
    rfl
  rw [if_neg long, if_neg long, head_eq]
  by_cases last : r.head = 0xffffffff
  · rw [last]
    rfl
  · have short := Nat.le_of_not_lt long
    have room : r.head.toNat + (1 : UInt32).toNat < UInt32.size := by
      have bound := r.head.toNat_lt
      have apart : r.head.toNat ≠ 0xffffffff := fun same => last (UInt32.toNat_inj.mp same)
      show r.head.toNat + 1 < 2 ^ 32
      omega
    have slot : slice r.buffer (Ring.slotOffset capacity itemSize r.head) _ = some (r.slotBytes r.head) :=
      slice_eq (r.slotOffset_le r.head)
    have fits : item.length ≤ (r.slotBytes r.head).length := by rwa [r.length_slotBytes]
    simp only [Option.bind_eq_bind, Option.bind_some, add32_eq room, slotOffset_eq r, addSize_slotOffset r, slot,
      copyFront_eq fits, clearFrom_slotBytes r short, put_slot r (Bytes.length_padTo short),
      put_head r (size_overwrite ..), if_neg last, Option.pure_def, Except.map, Ring.store]

end

end Guarded

namespace Ring

/-- Whatever bytes are taken for a ring, no operation on it overflows, divides by zero or leaves its buffer. -/
theorem no_guard_fails (capacity : UInt32) (itemSize : Nat) (bytes : Bytes) :
    bufferSize capacity itemSize = (Guarded.bufferSize capacity itemSize).elim (.error (.overflow .ringSize)) .ok ∧
    (validate bytes.length capacity itemSize = .ok () ↔ capacity ≠ 0 ∧ 0 < itemSize ∧
      RingHeader.size + capacity.toNat * itemSize < addressLimit ∧
      bytes.length = RingHeader.size + capacity.toNat * itemSize) ∧
    ∀ r : Ring capacity itemSize, ofBytes capacity itemSize bytes = .ok r →
      Guarded.head r = some r.head ∧ Guarded.tail r = some r.tail ∧ Guarded.length r = some r.length ∧
      (∀ index, Guarded.slot? r index = some (r.slot? index)) ∧
      (∀ {α : Type} (decoder : Bytes → Except Fault α),
        Guarded.entries r decoder = some (r.entries decoder) ∧
        (∀ cursor, Guarded.entriesSince r cursor decoder = some (r.entriesSince cursor decoder)) ∧
        ∀ e, (e = r.entries decoder ∨ ∃ cursor, r.entriesSince cursor decoder = .ok e) → ∀ n,
          Guarded.take e n = some (e.take n) ∧
          Guarded.next? (e.take n).2 = some (e.take n).2.next? ∧
          Guarded.remaining (e.take n).2 = some (e.take n).2.remaining) ∧
      ∀ {α : Type} (format : Format α) (a : α),
        Guarded.push r (format.encode a) =
          some ((r.append format a).map fun (index, r') => (index, r'.buffer)) := by
  refine ⟨Guarded.bufferSize_eq capacity itemSize, validate_eq_ok_iff, fun r _ => ?_⟩
  refine ⟨Guarded.head_eq r, Guarded.tail_eq r, Guarded.length_eq r, Guarded.slot?_eq r, ?_,
    fun format a => Guarded.push_eq r (format.encode a)⟩
  intro α decoder
  refine ⟨Guarded.entries_eq r decoder, fun cursor => Guarded.entriesSince_eq r cursor decoder, fun e begun n => ?_⟩
  have ordered : e.next ≤ e.stop := by
    rcases begun with rfl | ⟨cursor, opened⟩
    · exact r.tail_le_head
    · obtain ⟨within, rfl⟩ := entriesSince_eq_ok opened
      exact within
  exact ⟨Guarded.take_eq e n, Guarded.next?_eq _, Guarded.remaining_eq (Entries.take_ordered ordered n)⟩

/-- A ring whose head is the last one that a word can hold takes no further item, and its newest slot is readable. -/
theorem no_guard_fails_last_head :
    ∃ r : Ring 2 2, ofBytes 2 2 (Bytes.zeros 32 ++ [255, 255, 255, 255, 5, 6, 7, 8]) = .ok r ∧
      Guarded.slot? r 0xfffffffe = some (some [5, 6]) ∧
      Guarded.push r (Format.encode (.fixed .u8) 1) = some (.error (.overflow .ringHead)) := by
  refine ⟨_, rfl, ?_⟩
  obtain ⟨-, -, safe⟩ := no_guard_fails 2 2 (Bytes.zeros 32 ++ [255, 255, 255, 255, 5, 6, 7, 8])
  obtain ⟨-, -, -, slot, -, push⟩ := safe _ rfl
  exact ⟨slot _, push (.fixed .u8) 1⟩

end Ring

end StakePool
