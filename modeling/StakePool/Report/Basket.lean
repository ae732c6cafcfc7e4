import StakePool.Pool
import StakePool.Report.Fault
import StakePool.Store.Basic
import StakePool.Text.Table

/-!
# The report on a basket

`Report.basket` values an amount of shares of the pool that a share mint and one or two vaults make up.
-/

namespace StakePool.Report

def kindOfCount (count : Nat) : Except ReportFault PoolKind :=
  match count with
  | 1 => .ok .stake
  | 2 => .ok .mega
  | n => .error (.vaultCount n)

/-- The valuation of a pool and the basket of an amount of its shares. The vaults are counted before any account
is fetched. -/
def basket {σ : Type} [AccountStore σ] (store : σ) (mint : Pubkey) (vaults : List Pubkey) (shares : UInt64)
    (rounding : Rounding) : Except ReportFault (PoolValuation × Basket) := do
  let kind ← kindOfCount vaults.length
  let shareMint ← (AccountStore.load store Mint.layout mint).mapError .store
  let accounts ← vaults.mapM fun key => (AccountStore.load store TokenAccount.layout key).mapError .store
  let valuation ← (PoolValuation.ofAccounts kind shareMint accounts).mapError .bytes
  return (valuation, valuation.basket shares rounding)

def basketSummary (valuation : PoolValuation) (shares : UInt64) (rounding : Rounding) : TextTable where
  header := ["Property", "Value"]
  rows := [
    ["Pool", valuation.kind.name],
    ["Share Supply", toString valuation.shareSupply.toNat],
    ["Shares", toString shares.toNat],
    ["Rounding", rounding.name]]

/-- A row for each asset: its index, its vault, the balance of the vault, and its quantity in the basket. -/
def basketTable (vaults : List Pubkey) (valuation : PoolValuation) (basket : Basket) : TextTable where
  header := ["Asset", "Vault", "Vault Balance", "Quantity"]
  rows := ((vaults.zip valuation.vaultBalances).zip basket.quantities).mapIdx fun index ((key, balance), quantity) =>
    [toString index, key.toBase58, toString balance.toNat, toString quantity.toNat]

end StakePool.Report
