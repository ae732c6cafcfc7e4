import StakePool.Ring.Basic

/-!
# Reading a ring in order

`Entries` is the reading of a ring that has got as far as `next`: `next?` decodes one item and moves on. A
slot that does not decode gives a fault in its place and the reading goes on behind it.
-/

namespace StakePool

/-- The items of a ring from `next` up to `stop`, still to be decoded. -/
structure Entries (capacity : UInt32) (itemSize : Nat) (α : Type) where
  ring : Ring capacity itemSize
  next : UInt32
  stop : UInt32
  decoder : Bytes → Except Fault α

namespace Entries

variable {capacity : UInt32} {itemSize : Nat} {α : Type}

/-- The item of a logical index, or why it does not decode. -/
def item (e : Entries capacity itemSize α) (index : UInt32) : Except Fault α :=
  match e.decoder (e.ring.slotBytes index) with
  | .ok a => .ok a
  | .error source => .error (.corruptEntry index source)

def next? (e : Entries capacity itemSize α) : Option (Except Fault α × Entries capacity itemSize α) :=
  if e.next < e.stop then some (e.item e.next, { e with next := e.next + 1 }) else none

def remaining (e : Entries capacity itemSize α) : Nat := (e.stop - e.next).toNat

/-- Up to `n` items, behind those that `done` holds in reverse, and what is left. -/
def takeOnto : Nat → List (Except Fault α) → Entries capacity itemSize α →
    List (Except Fault α) × Entries capacity itemSize α
  | 0, done, e => (done.reverse, e)
  | n + 1, done, e =>
    match e.next? with
    | none => (done.reverse, e)
    | some (item, rest) => takeOnto n (item :: done) rest

def take (e : Entries capacity itemSize α) (n : Nat) :
    List (Except Fault α) × Entries capacity itemSize α := takeOnto n [] e

def toList (e : Entries capacity itemSize α) : List (Except Fault α) := (e.take e.remaining).1

end Entries

namespace Ring

variable {capacity : UInt32} {itemSize : Nat} {α : Type}

/-- Every readable item, oldest first. -/
def entries (r : Ring capacity itemSize) (decoder : Bytes → Except Fault α) : Entries capacity itemSize α :=
  { ring := r, next := r.tail, stop := r.head, decoder }

/-- The items from `cursor` on. A cursor whose items were overwritten, or that lies ahead of the head, is
refused. -/
def entriesSince (r : Ring capacity itemSize) (cursor : UInt32) (decoder : Bytes → Except Fault α) :
    Except Fault (Entries capacity itemSize α) :=
  if cursor < r.tail ∨ r.head < cursor then
    .error (.invalidCursor cursor r.tail r.head)
  else
    .ok { r.entries decoder with next := cursor }

end Ring

end StakePool
