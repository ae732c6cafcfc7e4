import StakePool.Codec.Layout
import StakePool.Text.Json

/-!
# Mints

A `Mint` says how many units of a token exist and who may change that. `Mint.layout` fills 82 bytes.
-/

namespace StakePool

structure Mint where
  mintAuthority : Option Pubkey
  supply : UInt64
  decimals : UInt8
  initialized : Bool
  freezeAuthority : Option Pubkey
deriving DecidableEq, Inhabited

namespace Mint

def fields : Bijection (Option Pubkey × UInt64 × UInt8 × Bool × Option Pubkey) Mint where
  forth := fun (mintAuthority, supply, decimals, initialized, freezeAuthority) =>
    { mintAuthority, supply, decimals, initialized, freezeAuthority }
  back m := (m.mintAuthority, m.supply, m.decimals, m.initialized, m.freezeAuthority)
  back_forth _ := rfl
  forth_back _ := rfl

def layout : Layout Mint :=
  .via fields <| .pair (.wideOption .pubkey) <| .pair .u64 <| .pair .u8 <| .pair (.flag "is_initialized")
    (.wideOption .pubkey)

theorem size_layout : layout.size = 82 := rfl

def toJson (m : Mint) : Json := .object [
  ("mint_authority", .ofOption .ofPubkey m.mintAuthority),
  ("supply", .ofWord64 m.supply),
  ("decimals", .number m.decimals.toNat),
  ("is_initialized", .bool m.initialized),
  ("freeze_authority", .ofOption .ofPubkey m.freezeAuthority)]

end Mint

end StakePool
