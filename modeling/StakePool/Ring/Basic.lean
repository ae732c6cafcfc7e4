import StakePool.Codec.Format
import StakePool.Overwrite
import StakePool.Text.Json

/-!
# Rings

A `Ring capacity itemSize` is a bounded log inside a byte buffer: a header with the authority and the head,
and then `capacity` slots of `itemSize` bytes. The head counts every append ever made; item `i` lies in slot
`i % capacity`, so that once the ring is full each append overwrites the oldest item. The readable items are
those from `tail` up to `head`.
-/

namespace StakePool

/-- What stands in front of the slots. -/
structure RingHeader where
  authority : Pubkey
  head : UInt32
deriving DecidableEq, Inhabited

namespace RingHeader

def fields : Bijection (Pubkey × UInt32) RingHeader where
  forth := fun (authority, head) => { authority, head }
  back h := (h.authority, h.head)
  back_forth _ := rfl
  forth_back _ := rfl

def layout : Layout RingHeader := .via fields <| .pair .pubkey .u32

abbrev headOffset : Nat := 32

abbrev size : Nat := 36

theorem size_layout : layout.size = size := rfl

def toJson (h : RingHeader) : Json := .object [
  ("authority", .ofPubkey h.authority),
  ("head", .ofWord32 h.head)]

end RingHeader

namespace Ring

def bufferSize (capacity : UInt32) (itemSize : Nat) : Except Fault Nat :=
  let slots := capacity.toNat * itemSize
  if addressLimit ≤ slots ∨ addressLimit ≤ slots + RingHeader.size then
    .error (.overflow .ringSize)
  else
    .ok (slots + RingHeader.size)

def validate (length : Nat) (capacity : UInt32) (itemSize : Nat) : Except Fault Unit :=
  if capacity = 0 ∨ itemSize = 0 then
    .error (.invariantViolation .nonZeroGeometry 1 0)
  else
    match bufferSize capacity itemSize with
    | .error fault => .error fault
    | .ok expected => if length = expected then .ok () else .error (.sizeMismatch expected length)

theorem validate_eq_ok {length : Nat} {capacity : UInt32} {itemSize : Nat}
    (h : validate length capacity itemSize = .ok ()) :
    capacity ≠ 0 ∧ 0 < itemSize ∧ length = RingHeader.size + capacity.toNat * itemSize ∧ length < addressLimit := by
  unfold validate bufferSize at h
  split at h
  · cases h
  · rename_i hz
    dsimp only at h
    split at h
    · cases h
    · rename_i expected hs
      split at hs
      · cases hs
      · rename_i hf
        injection hs with hs
        split at h
        · rename_i hl
          refine ⟨fun hc => hz (.inl hc), by omega, by omega, by omega⟩
        · cases h

end Ring

structure Ring (capacity : UInt32) (itemSize : Nat) where
  buffer : Array UInt8
  capacity_ne_zero : capacity ≠ 0
  itemSize_pos : 0 < itemSize
  size_eq : buffer.size = RingHeader.size + capacity.toNat * itemSize
  size_lt : buffer.size < addressLimit

namespace Ring

variable {capacity : UInt32} {itemSize : Nat}

def ofBytes (capacity : UInt32) (itemSize : Nat) (bytes : Bytes) : Except Fault (Ring capacity itemSize) :=
  match h : validate bytes.length capacity itemSize with
  | .error fault => .error fault
  | .ok () =>
    have ok := validate_eq_ok h
    .ok {
      buffer := bytes.toArray
      capacity_ne_zero := ok.1
      itemSize_pos := ok.2.1
      size_eq := by simpa using ok.2.2.1
      size_lt := by simpa using ok.2.2.2 }

def toBytes (r : Ring capacity itemSize) : Bytes := r.buffer.toList

/-! ### Header -/

def authority (r : Ring capacity itemSize) : Pubkey :=
  ⟨stretch r.buffer 0 RingHeader.headOffset, length_stretch (by rw [r.size_eq]; unfold RingHeader.headOffset RingHeader.size; omega)⟩

/-- The logical index of the next append. -/
def head (r : Ring capacity itemSize) : UInt32 := Word.u32.ofBytes (stretch r.buffer RingHeader.headOffset 4)

def header (r : Ring capacity itemSize) : Except Fault RingHeader := RingHeader.layout.decode r.toBytes

/-- The logical index of the oldest readable item. -/
def tail (r : Ring capacity itemSize) : UInt32 := r.head - min r.head capacity

def length (r : Ring capacity itemSize) : Nat := (min r.head capacity).toNat

def isEmpty (r : Ring capacity itemSize) : Bool := r.head == 0

/-! ### Slots -/

/-- Where the slot of a logical index begins. -/
def slotOffset (capacity : UInt32) (itemSize : Nat) (index : UInt32) : Nat :=
  RingHeader.size + (index % capacity).toNat * itemSize

def slotBytes (r : Ring capacity itemSize) (index : UInt32) : Bytes :=
  stretch r.buffer (slotOffset capacity itemSize index) itemSize

/-- The bytes of the item of a logical index, while it is readable. -/
def slot? (r : Ring capacity itemSize) (index : UInt32) : Option Bytes :=
  if index < r.tail ∨ r.head ≤ index then none else some (r.slotBytes index)

/-! ### Appending -/

def store (r : Ring capacity itemSize) (slot : Bytes) : Ring capacity itemSize where
  buffer := overwrite (overwrite r.buffer (slotOffset capacity itemSize r.head) slot) RingHeader.headOffset
    (Word.u32.bytes (r.head + 1))
  capacity_ne_zero := r.capacity_ne_zero
  itemSize_pos := r.itemSize_pos
  size_eq := by simpa using r.size_eq
  size_lt := by simpa using r.size_lt

/-- Appends an item, padded with zeros to the size of a slot, and returns its logical index. -/
def push (r : Ring capacity itemSize) (item : Bytes) : Except Fault (UInt32 × Ring capacity itemSize) :=
  let index := r.head
  if itemSize < item.length then
    .error (.sizeMismatch itemSize item.length)
  else if index = 0xffffffff then
    .error (.overflow .ringHead)
  else
    .ok (index, r.store (Bytes.padTo itemSize item))

def append {α : Type} (r : Ring capacity itemSize) (format : Format α) (a : α) :
    Except Fault (UInt32 × Ring capacity itemSize) := r.push (format.encode a)

end Ring

end StakePool
