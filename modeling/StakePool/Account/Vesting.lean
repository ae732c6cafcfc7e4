import StakePool.Codec.Layout
import StakePool.Text.Json

/-!
# Vesting accounts

A `Vesting` locks a balance for a beneficiary and releases it period by period. `Vesting.layout` fills 210
bytes.
-/

namespace StakePool

/-- A balance that is released to a beneficiary over time. -/
structure Vesting where
  initialized : Bool
  safe : Pubkey
  beneficiary : Pubkey
  /-- Whether the locked token has been claimed. -/
  claimed : Bool
  grantor : Pubkey
  /-- The amount still locked or not withdrawn. -/
  balance : UInt64
  startBalance : UInt64
  startTime : Int64
  endTime : Int64
  periodCount : UInt64
  lockedTokenMint : Pubkey
  lockedTokenAccount : Pubkey
  /-- The amount that is out at whitelisted programs. -/
  whitelistOwned : UInt64
deriving DecidableEq, Inhabited

namespace Vesting

def fields : Bijection
    (Bool × Pubkey × Pubkey × Bool × Pubkey × UInt64 × UInt64 × Int64 × Int64 × UInt64 × Pubkey × Pubkey × UInt64)
    Vesting where
  forth := fun (initialized, safe, beneficiary, claimed, grantor, balance, startBalance, startTime, endTime,
      periodCount, lockedTokenMint, lockedTokenAccount, whitelistOwned) =>
    { initialized, safe, beneficiary, claimed, grantor, balance, startBalance, startTime, endTime, periodCount,
      lockedTokenMint, lockedTokenAccount, whitelistOwned }
  back v := (v.initialized, v.safe, v.beneficiary, v.claimed, v.grantor, v.balance, v.startBalance, v.startTime,
    v.endTime, v.periodCount, v.lockedTokenMint, v.lockedTokenAccount, v.whitelistOwned)
  back_forth _ := rfl
  forth_back _ := rfl

def layout : Layout Vesting :=
  .via fields <| .pair (.flag "initialized") <| .pair .pubkey <| .pair .pubkey <| .pair (.flag "claimed")
    <| .pair .pubkey <| .pair .u64 <| .pair .u64 <| .pair .i64 <| .pair .i64 <| .pair .u64 <| .pair .pubkey
    <| .pair .pubkey .u64

theorem size_layout : layout.size = 210 := rfl

def toJson (v : Vesting) : Json := .object [
  ("initialized", .bool v.initialized),
  ("safe", .ofPubkey v.safe),
  ("beneficiary", .ofPubkey v.beneficiary),
  ("claimed", .bool v.claimed),
  ("grantor", .ofPubkey v.grantor),
  ("balance", .ofWord64 v.balance),
  ("start_balance", .ofWord64 v.startBalance),
  ("start_ts", .ofSigned v.startTime),
  ("end_ts", .ofSigned v.endTime),
  ("period_count", .ofWord64 v.periodCount),
  ("locked_nft_mint", .ofPubkey v.lockedTokenMint),
  ("locked_nft_token", .ofPubkey v.lockedTokenAccount),
  ("whitelist_owned", .ofWord64 v.whitelistOwned)]

end Vesting

end StakePool
