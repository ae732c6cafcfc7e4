import StakePool.RewardEvent
import StakePool.Ring.Entries

/-!
# The reward queue

A `RewardQueue` is the ring that keeps the last 500 reward events. A slot has room for the longest locked
allocation, and so for a pool drop of at most nine totals.
-/

namespace StakePool

namespace RewardQueue

abbrev capacity : UInt32 := 500

abbrev slotSize : Nat := 145

abbrev accountSize : Nat := 72536

/-- How many totals a pool drop may have if it is to fit a slot. -/
def maxPoolDropAssets : Nat := (slotSize - (1 + 32 + 4 + 32)) / 8

end RewardQueue

abbrev RewardQueue := Ring RewardQueue.capacity RewardQueue.slotSize

namespace RewardQueue

def validate (length : Nat) : Except Fault Unit := Ring.validate length capacity slotSize

def ofBytes (bytes : Bytes) : Except Fault RewardQueue := Ring.ofBytes capacity slotSize bytes

theorem validate_accountSize : validate accountSize = .ok () := rfl

def append (q : RewardQueue) (e : RewardEvent) : Except Fault (UInt32 × RewardQueue) :=
  Ring.append q RewardEvent.format e

def decodeSlot (slot : Bytes) : Except Fault RewardEvent := RewardEvent.format.decodePrefix slot

def events (q : RewardQueue) : Entries capacity slotSize RewardEvent := Ring.entries q decodeSlot

def eventsSince (q : RewardQueue) (cursor : UInt32) : Except Fault (Entries capacity slotSize RewardEvent) :=
  Ring.entriesSince q cursor decodeSlot

end RewardQueue

end StakePool
