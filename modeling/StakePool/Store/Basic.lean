import StakePool.Codec.Layout
import StakePool.RewardQueue
import StakePool.Store.Fault

/-!
# Account stores

An account store keeps byte strings under public keys. `load` decodes what it keeps and `appendInPlace` adds an event to
a queue that it keeps; both work with any store. An update that fails leaves a store too, the one that its steps had
come to; `persist` and `appendRewardEvent` have the store of an update that succeeds.
-/

namespace StakePool

class AccountStore (σ : Type) where
  /-- The bytes of an account. One that is not there is a fault, never an empty byte string. -/
  fetch : σ → Pubkey → Except StoreFault Bytes
  keep : Pubkey → Bytes → EStateM StoreFault σ Unit
  /-- The keys of all accounts, ascending. -/
  keys : σ → List Pubkey

namespace AccountStore

variable {σ : Type} [AccountStore σ]

def load {α : Type} (store : σ) (l : Layout α) (key : Pubkey) : Except StoreFault α := do
  let bytes ← fetch store key
  (l.decodeExact bytes).mapError .layout

/-- Appends an event to the reward queue of an account and returns its cursor. -/
def appendInPlace (key : Pubkey) (event : RewardEvent) : EStateM StoreFault σ UInt32 := do
  let bytes ← liftExcept (fetch (← get) key)
  let queue ← liftExcept ((RewardQueue.ofBytes bytes).mapError StoreFault.layout)
  let (cursor, queue) ← liftExcept ((queue.append event).mapError StoreFault.layout)
  keep key (Ring.toBytes queue)
  return cursor

/-- What an update returns, and the store with it. That of an update that failed is dropped. -/
def completed {α : Type} : EStateM.Result StoreFault σ α → Except StoreFault (α × σ)
  | .ok a store => .ok (a, store)
  | .error fault _ => .error fault

def persist (store : σ) (key : Pubkey) (bytes : Bytes) : Except StoreFault σ :=
  Prod.snd <$> completed ((keep key bytes).run store)

def appendRewardEvent (store : σ) (key : Pubkey) (event : RewardEvent) : Except StoreFault (UInt32 × σ) :=
  completed ((appendInPlace key event).run store)

end AccountStore

end StakePool
