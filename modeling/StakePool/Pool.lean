import StakePool.Account.Mint
import StakePool.Account.Token
import StakePool.Basket

/-!
# Pools

A stake pool holds one asset and a mega pool two. A `PoolValuation` is what the value of shares depends on:
the share supply and the balance of each vault, as many as the kind of pool has assets.
-/

namespace StakePool

inductive PoolKind
  | stake
  | mega
deriving DecidableEq, Repr

namespace PoolKind

def assetCount : PoolKind → Nat
  | stake => 1
  | mega => 2

def name : PoolKind → String
  | stake => "Stake"
  | mega => "Mega"

def wrongCount (kind : PoolKind) (count : Nat) : Fault := .invariantViolation .vaultCount kind.assetCount count

end PoolKind

namespace Basket

def stake (shares balance supply : UInt64) (rounding : Rounding) : Basket :=
  ofShares shares [balance] supply rounding

def mega (shares : UInt64) (balances : List UInt64) (supply : UInt64) (rounding : Rounding) :
    Except Fault Basket :=
  if balances.length = PoolKind.mega.assetCount then
    .ok (ofShares shares balances supply rounding)
  else
    .error (PoolKind.mega.wrongCount balances.length)

end Basket

/-- The state of a pool that the value of its shares depends on. -/
structure PoolValuation where
  kind : PoolKind
  shareSupply : UInt64
  vaultBalances : List UInt64
  length_vaultBalances : vaultBalances.length = kind.assetCount
deriving DecidableEq

namespace PoolValuation

def ofBalances (kind : PoolKind) (shareSupply : UInt64) (balances : List UInt64) : Except Fault PoolValuation :=
  if h : balances.length = kind.assetCount then
    .ok ⟨kind, shareSupply, balances, h⟩
  else
    .error (kind.wrongCount balances.length)

def ofAccounts (kind : PoolKind) (shareMint : Mint) (vaults : List TokenAccount) : Except Fault PoolValuation :=
  ofBalances kind shareMint.supply (vaults.map (·.amount))

def basket (v : PoolValuation) (shares : UInt64) (rounding : Rounding) : Basket :=
  .ofShares shares v.vaultBalances v.shareSupply rounding

def sharePrice (v : PoolValuation) : Basket := v.basket 1 .up

def toJson (v : PoolValuation) : Json := .object [
  ("kind", .text v.kind.name),
  ("share_supply", .ofWord64 v.shareSupply),
  ("vault_balances", .list (v.vaultBalances.map .ofWord64))]

end PoolValuation

end StakePool
