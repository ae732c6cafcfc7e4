import StakePool.Fault
import StakePool.Text.Json

/-!
# Baskets

A basket is what an amount of pool shares is worth in each asset of the pool: `balance * shares / supply`,
rounded down for a redemption and up for a creation. Products are formed in 128 bits.
-/

namespace StakePool

/-- Which way quantities are rounded. The remainder stays with the pool when redeemers are paid `down` and
creators are charged `up`. -/
inductive Rounding
  | down
  | up
deriving DecidableEq, Repr

namespace Rounding

def ofBool (roundUp : Bool) : Rounding := if roundUp then up else down

def name : Rounding → String
  | down => "Down"
  | up => "Up"

end Rounding

/-- A quantity of an asset before it is narrowed to a token amount. -/
abbrev Amount := BitVec 128

def Amount.ofWord (n : UInt64) : Amount := n.toBitVec.setWidth 128

/-- What `shares` out of `supply` are worth in the asset at `index`. While there are no shares yet, the first
depositor sets the ratio and the whole amount is put on the asset at `seed`. -/
def quantity (index seed : Nat) (balance shares supply : UInt64) (rounding : Rounding) : Amount :=
  if supply = 0 then
    if index = seed then .ofWord shares else 0
  else
    let product := Amount.ofWord balance * Amount.ofWord shares
    let bias := match rounding with
      | .down => 0
      | .up => Amount.ofWord supply - 1
    (product + bias) / Amount.ofWord supply

structure Basket where
  quantities : List Amount
deriving DecidableEq, Inhabited

namespace Basket

/-- The asset that stands for the whole amount while a pool has no shares. -/
def seedAsset : Nat := 0

def seededBy (seed : Nat) (shares : UInt64) (balances : List UInt64) (supply : UInt64) (rounding : Rounding) :
    Basket :=
  ⟨balances.mapIdx fun index balance => quantity index seed balance shares supply rounding⟩

def ofShares (shares : UInt64) (balances : List UInt64) (supply : UInt64) (rounding : Rounding) : Basket :=
  seededBy seedAsset shares balances supply rounding

/-- Like `ofShares`, with a seed asset of the caller's choice, which has to be one of the pool's. -/
def ofSharesSeeded (shares : UInt64) (balances : List UInt64) (supply : UInt64) (rounding : Rounding)
    (seed : Nat) : Except Fault Basket :=
  if seed < balances.length then
    .ok (seededBy seed shares balances supply rounding)
  else
    .error (.invariantViolation .seedInRange balances.length seed)

def narrow (q : Amount) : Except Fault UInt64 :=
  if q.toNat < 0x10000000000000000 then .ok (.ofNat q.toNat) else .error (.overflow .basketQuantity)

def amounts (b : Basket) : Except Fault (List UInt64) := b.quantities.mapM narrow

def toJson (b : Basket) : Json := .object [("quantities", .list (b.quantities.map fun q => .number q.toNat))]

end Basket

end StakePool
