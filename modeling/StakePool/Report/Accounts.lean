import StakePool.Account.Mint
import StakePool.Account.RewardVendor
import StakePool.Account.Token
import StakePool.Account.Vesting
import StakePool.Store.Basic
import StakePool.Text.Table
import StakePool.Text.Timestamp

/-!
# The report on all accounts

`AccountKind.detect` tells what an account holds by its length, `describe` sums it up in a line, and
`accountTable` has a row for every account of a store, damaged ones included.
-/

namespace StakePool

inductive AccountKind
  | vesting
  | rewardVendor
  | mint
  | token
  | rewardQueue
  | unknown
deriving DecidableEq, Repr

namespace AccountKind

def detect (length : Nat) : AccountKind :=
  if length = Vesting.layout.size then vesting
  else if length = RewardVendor.layout.size then rewardVendor
  else if length = Mint.layout.size then mint
  else if length = TokenAccount.layout.size then token
  else if length = RewardQueue.accountSize then rewardQueue
  else unknown

def name : AccountKind → String
  | vesting => "Vesting"
  | rewardVendor => "LockedRewardVendor"
  | mint => "Mint"
  | token => "TokenAccount"
  | rewardQueue => "RewardEventQueue"
  | unknown => "Unknown"

end AccountKind

def Vesting.summary (v : Vesting) : String :=
  s!"beneficiary {v.beneficiary.toBase58}, balance {v.balance.toNat}/{v.startBalance.toNat}, " ++
    s!"{Timestamp.text v.startTime} to {Timestamp.text v.endTime}"

def RewardVendor.summary (v : RewardVendor) : String :=
  s!"cursor {v.eventCursor.toNat}, supply snapshot {v.shareSupply.toNat}, expires {Timestamp.text v.expiry}"

def Mint.summary (m : Mint) : String := s!"supply {m.supply.toNat}, decimals {m.decimals.toNat}"

def TokenAccount.summary (t : TokenAccount) : String :=
  s!"mint {t.mint.toBase58}, owner {t.owner.toBase58}, amount {t.amount.toNat}, {t.state.name}"

def RewardQueue.summary (q : RewardQueue) : String :=
  s!"head {(Ring.head q).toNat}, {Ring.length q} events retained"

/-- A line on an account that holds what `kind` says. -/
def describe (kind : AccountKind) (bytes : Bytes) : Except Fault String :=
  match kind with
  | .vesting => Vesting.summary <$> Vesting.layout.decodeExact bytes
  | .rewardVendor => RewardVendor.summary <$> RewardVendor.layout.decodeExact bytes
  | .mint => Mint.summary <$> Mint.layout.decodeExact bytes
  | .token => TokenAccount.summary <$> TokenAccount.layout.decodeExact bytes
  | .rewardQueue => RewardQueue.summary <$> RewardQueue.ofBytes bytes
  | .unknown => .ok ""

namespace Report

def accountRow {σ : Type} [AccountStore σ] (store : σ) (key : Pubkey) : List String :=
  match AccountStore.fetch store key with
  | .error fault => [key.toBase58, "-", "CORRUPT", fault.message]
  | .ok bytes =>
    let kind := AccountKind.detect bytes.length
    let details := match describe kind bytes with
      | .ok line => line
      | .error fault => s!"decode failed: {fault.message}"
    [key.toBase58, toString bytes.length, kind.name, details]

/-- A row for every account of a store, ascending by key. -/
def accountTable {σ : Type} [AccountStore σ] (store : σ) : TextTable where
  header := ["Account", "Size", "Layout", "Details"]
  rows := (AccountStore.keys store).map (accountRow store)

end Report

end StakePool
