import Mathlib.Algebra.Order.Floor.Div
import StakePool.Proofs.Basket.Quantity

/-!
# Quantities as rounded quotients

A quantity is the product of a balance and an amount of shares divided by the supply, and rounded
(`toNat_quantity_eq_quotient`). None of the steps that compute it overflows (`Guarded.quantity_eq`), whatever the words
are; only what is narrowed to a token amount can be too large (`Basket.amounts_eq_error_iff`).
-/

namespace StakePool

/-! ### Rounded quotients -/

namespace Rounding

def quotient : Rounding → Nat → Nat → Nat
  | down, n, d => n ⌊/⌋ d
  | up, n, d => n ⌈/⌉ d

variable {n n' d d' : Nat}

theorem isGreatest_quotient (pos : 0 < d) (n : Nat) : IsGreatest {k | k * d ≤ n} (down.quotient n d) := by
  simp only [Nat.mul_comm _ d]
  exact (gc_floorDiv_mul pos).isGreatest_u

theorem isLeast_quotient (pos : 0 < d) (n : Nat) : IsLeast {k | n ≤ k * d} (up.quotient n d) := by
  simp only [Nat.mul_comm _ d]
  exact (gc_mul_ceilDiv pos).isLeast_l

theorem quotient_up (pos : 0 < d) (n : Nat) :
    up.quotient n d = down.quotient n d + if d ∣ n then 0 else 1 := by
  have floor : down.quotient n d = n / d := rfl
  refine (isLeast_quotient pos n).unique ?_
  rw [floor]
  split
  · rename_i whole
    have exact : n / d * d = n := Nat.div_mul_cancel whole
    exact ⟨exact.ge, fun k above => Nat.div_le_of_le_mul (Nat.mul_comm k d ▸ above)⟩
  · rename_i broken
    refine ⟨Nat.le_of_lt (Nat.succ_mul .. ▸ Nat.lt_div_mul_add pos), fun k above => ?_⟩
    -- No multiple of the divisor is the number itself, so one that is not below it is above it.
    have apart : n ≠ k * d := fun same => broken ⟨k, same.trans (Nat.mul_comm k d)⟩
    exact (Nat.div_lt_iff_lt_mul pos).mpr (Nat.lt_of_le_of_ne above apart)

theorem quotient_mono (rounding : Rounding) (pos : 0 < d') (more : n ≤ n') (fewer : d' ≤ d) :
    rounding.quotient n d ≤ rounding.quotient n' d' := by
  cases rounding with
  | down => exact Nat.div_le_div more fewer (Nat.ne_of_gt pos)
  | up =>
    refine (isLeast_quotient (Nat.lt_of_lt_of_le pos fewer) n).2 ?_
    calc n
      _ ≤ n' := more
      _ ≤ up.quotient n' d' * d' := (isLeast_quotient pos n').1
      _ ≤ up.quotient n' d' * d := Nat.mul_le_mul_left _ fewer

theorem quotient_eq_add_bias (rounding : Rounding) (pos : 0 < d) (n : Nat) :
    rounding.quotient n d = (n + rounding.bias d) / d := by
  cases rounding with
  | down => rfl
  | up => exact congrArg (· / d) (Nat.add_sub_assoc pos n)

end Rounding

theorem toNat_quantity_eq_quotient {supply : UInt64} (index seed : Nat) (balance shares : UInt64) (rounding : Rounding)
    (live : supply ≠ 0) :
    (quantity index seed balance shares supply rounding).toNat =
      rounding.quotient (balance.toNat * shares.toNat) supply.toNat := by
  rw [toNat_quantity index seed balance shares rounding live,
    rounding.quotient_eq_add_bias (toNat_pos_of_ne_zero live)]

/-- More shares of more assets are worth no less, and neither are shares of a smaller supply. -/
theorem quantity_mono {balance balance' shares shares' supply supply' : UInt64} (index seed : Nat)
    (rounding : Rounding) (live : supply' ≠ 0) (richer : balance ≤ balance') (more : shares ≤ shares')
    (fewer : supply' ≤ supply) :
    quantity index seed balance shares supply rounding ≤ quantity index seed balance' shares' supply' rounding := by
  have liveToo : supply ≠ 0 := by
    rintro rfl
    exact live (UInt64.le_zero_iff.mp fewer)
  rw [UInt64.le_iff_toNat_le] at richer more fewer
  rw [BitVec.le_def, toNat_quantity_eq_quotient index seed balance shares rounding liveToo,
    toNat_quantity_eq_quotient index seed balance' shares' rounding live]
  exact rounding.quotient_mono (toNat_pos_of_ne_zero live) (Nat.mul_le_mul richer more) fewer

/-! ### Guarded steps -/

namespace Guarded

def add128 (a b : Amount) : Option Amount := if a.toNat + b.toNat < 2 ^ 128 then some (a + b) else none

def sub128 (a b : Amount) : Option Amount := if b ≤ a then some (a - b) else none

def mul128 (a b : Amount) : Option Amount := if a.toNat * b.toNat < 2 ^ 128 then some (a * b) else none

def div128 (a b : Amount) : Option Amount := if b = 0 then none else some (a / b)

/-- A quantity in steps that have no result where 128 bits do not suffice. -/
def quantity (index seed : Nat) (balance shares supply : UInt64) (rounding : Rounding) : Option Amount :=
  if supply = 0 then
    some (if index = seed then .ofWord shares else 0)
  else do
    let product ← mul128 (.ofWord balance) (.ofWord shares)
    let numerator ← match rounding with
      | .down => some product
      | .up => do add128 product (← sub128 (.ofWord supply) 1)
    div128 numerator (.ofWord supply)

theorem quantity_eq (index seed : Nat) (balance shares supply : UInt64) (rounding : Rounding) :
    quantity index seed balance shares supply rounding =
      some (StakePool.quantity index seed balance shares supply rounding) := by
  unfold quantity StakePool.quantity
  by_cases live : supply = 0
  · rw [if_pos live, if_pos live]
  rw [if_neg live, if_neg live]
  have room := mul_words_add_lt balance shares supply
  have product : mul128 (.ofWord balance) (.ofWord shares) = some (.ofWord balance * .ofWord shares) := by
    rw [mul128, Amount.toNat_ofWord, Amount.toNat_ofWord, if_pos (by omega)]
  have divisor : Amount.ofWord supply ≠ 0 := by
    intro zero
    have positive := Amount.one_le_ofWord live
    rw [zero] at positive
    exact absurd positive (by decide)
  have quotient (numerator : Amount) : div128 numerator (.ofWord supply) = some (numerator / .ofWord supply) :=
    if_neg divisor
  cases rounding with
  | down => simp [product, quotient]
  | up =>
    have bias : sub128 (.ofWord supply) 1 = some (.ofWord supply - 1) := if_pos (Amount.one_le_ofWord live)
    have sum : add128 (.ofWord balance * .ofWord shares) (.ofWord supply - 1) =
        some (.ofWord balance * .ofWord shares + (.ofWord supply - 1)) := by
      rw [add128, Amount.toNat_ofWord_mul, Amount.toNat_ofWord_sub_one live, if_pos (by omega)]
    simp only [product, bias, sum, quotient, Option.bind_eq_bind, Option.bind_some]

end Guarded

/-! ### Token amounts -/

namespace Basket

theorem narrow_eq_error_iff {q : Amount} {fault : Fault} :
    narrow q = .error fault ↔ fault = .overflow .basketQuantity ∧ 0x10000000000000000 ≤ q.toNat := by
  unfold narrow
  split
  · simp
    omega
  · simp [eq_comm]
    omega

/-- The only fault of a basket is a quantity that is no token amount. -/
theorem amounts_eq_error_iff {basket : Basket} {fault : Fault} :
    basket.amounts = .error fault ↔
      fault = .overflow .basketQuantity ∧ ∃ q ∈ basket.quantities, 0x10000000000000000 ≤ q.toNat := by
  constructor
  · intro refused
    obtain ⟨before, q, after, split, -, failed⟩ := mapM_eq_error_iff.mp refused
    obtain ⟨same, large⟩ := narrow_eq_error_iff.mp failed
    exact ⟨same, q, split ▸ List.mem_append_right _ (.head _), large⟩
  · rintro ⟨rfl, q, member, large⟩
    cases amounted : basket.amounts with
    | error fault =>
      obtain ⟨_, _, _, _, -, failed⟩ := mapM_eq_error_iff.mp amounted
      rw [(narrow_eq_error_iff.mp failed).1]
    | ok ns =>
      have same := mapM_narrow_eq_ok_iff.mp amounted
      obtain ⟨n, -, narrowed⟩ := List.mem_map.mp (same ▸ List.mem_map_of_mem member)
      exact absurd (narrowed ▸ n.toNat_lt) (Nat.not_lt.mpr large)

/-- Quantities are exact. No step overflows; a quantity that is rounded down is the greatest and one that is rounded up
the least on its side of the quotient, and they differ by one unless the division comes out even; they grow with the
balance and the shares and shrink as the supply grows. What a part of the supply is worth is in the vaults, so that it
can be paid, and any basket is paid just as it is unless one of its quantities is no token amount. -/
theorem quantities_are_exact :
    (∀ index seed balance shares supply rounding,
      Guarded.quantity index seed balance shares supply rounding =
        some (quantity index seed balance shares supply rounding)) ∧
    (∀ index seed (balance shares supply : UInt64), supply ≠ 0 →
      let product := balance.toNat * shares.toNat
      let down := (quantity index seed balance shares supply .down).toNat
      let up := (quantity index seed balance shares supply .up).toNat
      product + supply.toNat < 2 ^ 128 ∧
      down = product / supply.toNat ∧ up = (product + (supply.toNat - 1)) / supply.toNat ∧
      IsGreatest {d | d * supply.toNat ≤ product} down ∧ IsLeast {u | product ≤ u * supply.toNat} up ∧
      up = down + if supply.toNat ∣ product then 0 else 1) ∧
    (∀ index seed rounding {balance balance' shares shares' supply supply' : UInt64}, supply' ≠ 0 →
      balance ≤ balance' → shares ≤ shares' → supply' ≤ supply →
      quantity index seed balance shares supply rounding ≤ quantity index seed balance' shares' supply' rounding) ∧
    (∀ rounding balances {shares supply : UInt64}, shares ≤ supply →
      let basket := ofShares shares balances supply rounding
      List.Forall₂ (fun q balance => q.toNat ≤ balance.toNat) basket.quantities balances ∧
        ∃ ns, basket.amounts = .ok ns) ∧
    (∀ basket : Basket,
      (basket.amounts = .error (.overflow .basketQuantity) ↔ ∃ q ∈ basket.quantities, 2 ^ 64 ≤ q.toNat) ∧
      ((∀ q ∈ basket.quantities, q.toNat < 2 ^ 64) →
        ∃ ns, basket.amounts = .ok ns ∧ ns.map UInt64.toNat = basket.quantities.map BitVec.toNat)) := by
  refine ⟨Guarded.quantity_eq, ?rounded, fun index seed rounding => quantity_mono index seed rounding, ?part,
    fun basket => ⟨amounts_eq_error_iff.trans (and_iff_right rfl), fun small => ?narrowed⟩⟩
  case rounded =>
    intro index seed balance shares supply live product down up
    have pos := toNat_pos_of_ne_zero live
    have floor : down = Rounding.down.quotient product supply.toNat :=
      toNat_quantity_eq_quotient index seed balance shares .down live
    have ceiling : up = Rounding.up.quotient product supply.toNat :=
      toNat_quantity_eq_quotient index seed balance shares .up live
    rw [floor, ceiling]
    exact ⟨mul_words_add_lt balance shares supply, rfl, Rounding.up.quotient_eq_add_bias pos product,
      Rounding.isGreatest_quotient pos product, Rounding.isLeast_quotient pos product,
      Rounding.quotient_up pos product⟩
  case part =>
    intro rounding balances shares supply part basket
    have covered := toNat_quantities_le part balances rounding
    exact ⟨covered, exists_amounts_of_covered covered⟩
  case narrowed =>
    obtain ⟨ns, paid⟩ := exists_amounts small
    exact ⟨ns, paid, mapM_narrow_eq_ok_iff.mp paid⟩

/-- A vault that is as full as can be pays a part of its supply, but not many times its supply. -/
theorem quantities_are_exact_largest :
    let large : UInt64 := 0xffffffffffffffff
    large ≠ 0 ∧ quantity 0 0 large 7 10 .down ≤ quantity 0 0 large 8 9 .down ∧
      (∃ ns, (ofShares 7 [large, 1] 10 .up).amounts = .ok ns) ∧
      (quantity 0 0 10 2 3 .up).toNat = (quantity 0 0 10 2 3 .down).toNat + 1 ∧
      (ofShares large [large, 1] 1 .down).amounts = .error (.overflow .basketQuantity) := by
  intro large
  obtain ⟨-, rounded, monotone, part, narrowed⟩ := quantities_are_exact
  obtain ⟨-, -, -, -, -, apart⟩ := rounded 0 0 10 2 3 (by decide)
  refine ⟨by decide, monotone 0 0 .down (by decide) (by decide) (by decide) (by decide),
    (part .up [large, 1] (by decide)).2, apart.trans (by decide), ?_⟩
  refine (narrowed _).1.mpr ⟨_, .head _, ?_⟩
  decide +kernel

end Basket

end StakePool
