import StakePool.Account.RewardVendor
import StakePool.Account.Vesting
import StakePool.Pool
import StakePool.Store.Basic

/-!
# A sample of accounts

`Scenario.populate` fills a store with the share mint and the two vaults of a mega pool, a reward queue with two
drops and a locked allocation, the vendor of that allocation, and a vesting account. The key of the pool itself
is only referred to.
-/

namespace StakePool.Scenario

def pool : Pubkey := .fill 32 0x50
def rewardQueue : Pubkey := .fill 32 0x51
def vendor : Pubkey := .fill 32 0x52
def vesting : Pubkey := .fill 32 0x53
def shareMint : Pubkey := .fill 32 0x54
def firstVault : Pubkey := .fill 32 0x55
def secondVault : Pubkey := .fill 32 0x56

def funder : Pubkey := .fill 32 0x01

def expiry : Int64 := 1800000000

def mint : Mint where
  mintAuthority := some pool
  supply := 2000
  decimals := 6
  initialized := true
  freezeAuthority := none

def vault (asset : Pubkey) (amount : UInt64) : TokenAccount :=
  { (default : TokenAccount) with mint := asset, owner := pool, amount, state := .initialized }

def firstDrop : RewardEvent := .poolDrop funder [100, 1] pool
def secondDrop : RewardEvent := .poolDrop funder [250, 0] pool
def allocation : RewardEvent := .lockedAlloc funder 1000 expiry funder pool vendor

def vendorOf (cursor : UInt32) : RewardVendor where
  initialized := true
  vault := .fill 32 0x57
  nonce := 255
  shareSupply := mint.supply
  eventCursor := cursor
  expiry := expiry
  expiryReceiver := funder

def vestingAccount : Vesting :=
  { (default : Vesting) with
    initialized := true
    safe := .fill 32 0x58
    beneficiary := .fill 32 0x59
    grantor := funder
    balance := 750
    startBalance := 1000
    startTime := 1600000000
    endTime := 1700000000
    periodCount := 4 }

open AccountStore in
def populate {σ : Type} [AccountStore σ] (store : σ) : Except StoreFault σ := do
  let store ← persist store shareMint (Mint.layout.encode mint)
  let store ← persist store firstVault (TokenAccount.layout.encode (vault (.fill 32 0xA0) 6000))
  let store ← persist store secondVault (TokenAccount.layout.encode (vault (.fill 32 0xA1) 3))
  let store ← persist store rewardQueue (Bytes.zeros RewardQueue.accountSize)
  let (_, store) ← appendRewardEvent store rewardQueue firstDrop
  let (_, store) ← appendRewardEvent store rewardQueue secondDrop
  let (cursor, store) ← appendRewardEvent store rewardQueue allocation
  let store ← persist store vendor (RewardVendor.layout.encode (vendorOf cursor))
  persist store vesting (Vesting.layout.encode vestingAccount)

end StakePool.Scenario
