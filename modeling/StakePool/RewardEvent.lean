import StakePool.Codec.Format
import StakePool.Text.Json

/-!
# Reward events

Every distribution of a reward is recorded as a `RewardEvent`. Its format is a leading byte that tells the
kinds apart, and then the fields; the totals of a pool drop are a counted sequence.
-/

namespace StakePool

inductive RewardEvent
  /-- A reward shared out over a pool: one total for each asset, in the pool's order. -/
  | poolDrop (sender : Pubkey) (totals : List UInt64) (pool : Pubkey)
  /-- A reward held by a vendor until it expires. -/
  | lockedAlloc (sender : Pubkey) (total : UInt64) (expiry : Int64) (expiryReceiver pool vendor : Pubkey)
deriving DecidableEq

namespace RewardEvent

inductive Kind
  | poolDrop
  | lockedAlloc
deriving DecidableEq, Repr

namespace Kind

def toByte : Kind → UInt8
  | poolDrop => 0
  | lockedAlloc => 1

def code : ByteCode Kind :=
  .ofList [poolDrop, lockedAlloc] toByte (by intro a; cases a <;> decide)
    (by intro a b; cases a <;> cases b <;> decide)

def name : Kind → String
  | poolDrop => "PoolDrop"
  | lockedAlloc => "LockedAlloc"

abbrev Fields : Kind → Type
  | poolDrop => Pubkey × List UInt64 × Pubkey
  | lockedAlloc => Pubkey × UInt64 × Int64 × Pubkey × Pubkey × Pubkey

/-- The fields of this kind in the order in which they are stored. -/
def format : (k : Kind) → Format k.Fields
  | poolDrop => .pair (.fixed .pubkey) <| .pair (.sequence .u64) (.fixed .pubkey)
  | lockedAlloc =>
    .fixed <| .pair .pubkey <| .pair .u64 <| .pair .i64 <| .pair .pubkey <| .pair .pubkey .pubkey

end Kind

def fields : Bijection ((k : Kind) × k.Fields) RewardEvent where
  forth
    | ⟨.poolDrop, sender, totals, pool⟩ => poolDrop sender totals pool
    | ⟨.lockedAlloc, sender, total, expiry, expiryReceiver, pool, vendor⟩ =>
      lockedAlloc sender total expiry expiryReceiver pool vendor
  back
    | poolDrop sender totals pool => ⟨.poolDrop, sender, totals, pool⟩
    | lockedAlloc sender total expiry expiryReceiver pool vendor =>
      ⟨.lockedAlloc, sender, total, expiry, expiryReceiver, pool, vendor⟩
  back_forth
    | ⟨.poolDrop, _⟩ => rfl
    | ⟨.lockedAlloc, _⟩ => rfl
  forth_back e := by cases e <;> rfl

def format : Format RewardEvent := .via fields (.variant Kind.code Kind.format)

def kind : RewardEvent → Kind
  | poolDrop .. => .poolDrop
  | lockedAlloc .. => .lockedAlloc

def pool : RewardEvent → Pubkey
  | poolDrop _ _ pool => pool
  | lockedAlloc _ _ _ _ pool _ => pool

def sender : RewardEvent → Pubkey
  | poolDrop sender .. => sender
  | lockedAlloc sender .. => sender

def toJson : RewardEvent → Json
  | poolDrop sender totals pool => .object [("poolDrop", .object [
      ("from", .ofPubkey sender),
      ("totals", .list (totals.map .ofWord64)),
      ("pool", .ofPubkey pool)])]
  | lockedAlloc sender total expiry expiryReceiver pool vendor => .object [("lockedAlloc", .object [
      ("from", .ofPubkey sender),
      ("total", .ofWord64 total),
      ("expiry_ts", .ofSigned expiry),
      ("expiry_receiver", .ofPubkey expiryReceiver),
      ("pool", .ofPubkey pool),
      ("locked_vendor", .ofPubkey vendor)])]

end RewardEvent

end StakePool
