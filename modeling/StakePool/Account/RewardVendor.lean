import StakePool.Codec.Layout
import StakePool.Text.Json

/-!
# Reward vendors

A `RewardVendor` holds the locked reward of one allocation until it is claimed or expires.
`RewardVendor.layout` fills 86 bytes.
-/

namespace StakePool

structure RewardVendor where
  initialized : Bool
  vault : Pubkey
  nonce : UInt8
  /-- The share supply of the pool when the reward was allocated. -/
  shareSupply : UInt64
  /-- The cursor of the event that allocated the reward. -/
  eventCursor : UInt32
  expiry : Int64
  expiryReceiver : Pubkey
deriving DecidableEq, Inhabited

namespace RewardVendor

def fields : Bijection (Bool × Pubkey × UInt8 × UInt64 × UInt32 × Int64 × Pubkey) RewardVendor where
  forth := fun (initialized, vault, nonce, shareSupply, eventCursor, expiry, expiryReceiver) =>
    { initialized, vault, nonce, shareSupply, eventCursor, expiry, expiryReceiver }
  back v := (v.initialized, v.vault, v.nonce, v.shareSupply, v.eventCursor, v.expiry, v.expiryReceiver)
  back_forth _ := rfl
  forth_back _ := rfl

def layout : Layout RewardVendor :=
  .via fields <| .pair (.flag "initialized") <| .pair .pubkey <| .pair .u8 <| .pair .u64 <| .pair .u32
    <| .pair .i64 .pubkey

theorem size_layout : layout.size = 86 := rfl

def toJson (v : RewardVendor) : Json := .object [
  ("initialized", .bool v.initialized),
  ("vault", .ofPubkey v.vault),
  ("nonce", .number v.nonce.toNat),
  ("pool_token_supply", .ofWord64 v.shareSupply),
  ("reward_event_queue_cursor", .ofWord32 v.eventCursor),
  ("expiry_ts", .ofSigned v.expiry),
  ("expiry_receiver", .ofPubkey v.expiryReceiver)]

end RewardVendor

end StakePool
