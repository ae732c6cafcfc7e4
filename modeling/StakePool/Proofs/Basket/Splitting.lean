import Mathlib.Algebra.GroupWithZero.Nat
import StakePool.Proofs.Basket.Quantity

/-!
# Shares in pieces

An amount of shares that is priced in pieces is rounded once for each piece. So pieces that are redeemed come to at most
what the whole is worth, pieces that are created to at least that, and either way the difference is less than one unit
for each piece (`piecewise_down`, `piecewise_up`). `splitting_never_gains` has this for every asset of a basket.
-/

namespace StakePool

variable {supply whole : UInt64} {pieces : List UInt64} (index seed : Nat) (balance : UInt64) (rounding : Rounding)

/-! ### One asset -/

/-- What the pieces come to in the asset at `index`. -/
def piecewise (index seed : Nat) (balance : UInt64) (pieces : List UInt64) (supply : UInt64) (rounding : Rounding) :
    Nat :=
  (pieces.map fun shares => (quantity index seed balance shares supply rounding).toNat).sum

theorem lt_add_of_mul_lt {a b n s : Nat} (lt : a * s < b * s + n * s) : a < b + n :=
  Nat.lt_of_mul_lt_mul_right (a := s) (by rwa [Nat.add_mul])

theorem piecewise_down_mul (live : supply ≠ 0) (pieces : List UInt64) :
    piecewise index seed balance pieces supply .down * supply.toNat ≤
      balance.toNat * (pieces.map UInt64.toNat).sum ∧
    balance.toNat * (pieces.map UInt64.toNat).sum + pieces.length ≤
      piecewise index seed balance pieces supply .down * supply.toNat + pieces.length * supply.toNat := by
  induction pieces with
  | nil => simp [piecewise]
  | cons shares pieces ih =>
    have below := quantity_down_mul_le index seed balance shares live
    have above := lt_quantity_down_mul_add index seed balance shares live
    simp only [piecewise, List.map_cons, List.sum_cons, List.length_cons, Nat.add_mul, Nat.mul_add] at ih ⊢
    omega

theorem piecewise_up_mul (live : supply ≠ 0) (pieces : List UInt64) :
    balance.toNat * (pieces.map UInt64.toNat).sum ≤
      piecewise index seed balance pieces supply .up * supply.toNat ∧
    piecewise index seed balance pieces supply .up * supply.toNat + pieces.length ≤
      balance.toNat * (pieces.map UInt64.toNat).sum + pieces.length * supply.toNat := by
  induction pieces with
  | nil => simp [piecewise]
  | cons shares pieces ih =>
    have above := le_quantity_up_mul index seed balance shares live
    have below := quantity_up_mul_lt_add index seed balance shares live
    simp only [piecewise, List.map_cons, List.sum_cons, List.length_cons, Nat.add_mul, Nat.mul_add] at ih ⊢
    omega

/-- Pieces that are rounded down lose less than one unit each. -/
theorem piecewise_down (live : supply ≠ 0) (nonempty : pieces ≠ [])
    (sum : (pieces.map UInt64.toNat).sum = whole.toNat) :
    piecewise index seed balance pieces supply .down ≤ (quantity index seed balance whole supply .down).toNat ∧
    (quantity index seed balance whole supply .down).toNat <
      piecewise index seed balance pieces supply .down + pieces.length := by
  have count := List.length_pos_of_ne_nil nonempty
  obtain ⟨below, above⟩ := piecewise_down_mul index seed balance live pieces
  -- What the whole is worth and what the pieces are worth are compared as multiples of the supply, unrounded.
  have wholeBelow := quantity_down_mul_le index seed balance whole live
  have wholeAbove := lt_quantity_down_mul_add index seed balance whole live
  rw [sum] at below above
  constructor
  · exact Nat.le_of_lt_succ (lt_add_of_mul_lt (n := 1) (s := supply.toNat) (by omega))
  · exact lt_add_of_mul_lt (s := supply.toNat) (by omega)

/-- Pieces that are rounded up cost less than one unit more each. -/
theorem piecewise_up (live : supply ≠ 0) (nonempty : pieces ≠ [])
    (sum : (pieces.map UInt64.toNat).sum = whole.toNat) :
    (quantity index seed balance whole supply .up).toNat ≤ piecewise index seed balance pieces supply .up ∧
    piecewise index seed balance pieces supply .up <
      (quantity index seed balance whole supply .up).toNat + pieces.length := by
  have count := List.length_pos_of_ne_nil nonempty
  obtain ⟨above, below⟩ := piecewise_up_mul index seed balance live pieces
  have wholeAbove := le_quantity_up_mul index seed balance whole live
  have wholeBelow := quantity_up_mul_lt_add index seed balance whole live
  rw [sum] at above below
  constructor
  · exact Nat.le_of_lt_succ (lt_add_of_mul_lt (n := 1) (s := supply.toNat) (by omega))
  · exact lt_add_of_mul_lt (s := supply.toNat) (by omega)

/-- Before there are shares nothing is rounded. -/
theorem piecewise_of_no_supply (sum : (pieces.map UInt64.toNat).sum = whole.toNat) :
    piecewise index seed balance pieces 0 rounding = (quantity index seed balance whole 0 rounding).toNat := by
  unfold piecewise
  simp only [toNat_quantity_of_no_supply]
  split
  · exact sum
  · simp

/-! ### Baskets -/

namespace Basket

/-- The quantity of the asset at `index`. -/
def amountAt (b : Basket) (index : Nat) : Nat := (b.quantities.getD index 0).toNat

theorem length_quantities_ofShares (shares : UInt64) (balances : List UInt64) (supply : UInt64)
    (rounding : Rounding) : (ofShares shares balances supply rounding).quantities.length = balances.length :=
  List.length_mapIdx

theorem amountAt_ofShares {balances : List UInt64} {index : Nat} (inside : index < balances.length)
    (shares supply : UInt64) (rounding : Rounding) :
    (ofShares shares balances supply rounding).amountAt index =
      (quantity index seedAsset balances[index] shares supply rounding).toNat := by
  have found : (ofShares shares balances supply rounding).quantities[index]? =
      some (quantity index seedAsset balances[index] shares supply rounding) := by
    rw [ofShares, seededBy, List.getElem?_mapIdx, List.getElem?_eq_getElem inside, Option.map_some]
  rw [amountAt, List.getD_eq_getElem?_getD, found, Option.getD_some]

/-- The quantities of the asset at `index` in a basket for each of the pieces, together. -/
def inPieces (pieces balances : List UInt64) (supply : UInt64) (rounding : Rounding) (index : Nat) : Nat :=
  (pieces.map fun shares => (ofShares shares balances supply rounding).amountAt index).sum

theorem inPieces_eq {balances : List UInt64} {index : Nat} (inside : index < balances.length) (pieces : List UInt64)
    (supply : UInt64) (rounding : Rounding) :
    inPieces pieces balances supply rounding index =
      piecewise index seedAsset balances[index] pieces supply rounding := by
  simp only [inPieces, piecewise, amountAt_ofShares inside]

/-- The seed asset of a pool without shares has the whole amount, and the others have nothing. -/
theorem sum_quantities_of_no_supply {balances : List UInt64} (assets : balances ≠ []) (shares : UInt64)
    (rounding : Rounding) :
    ((ofShares shares balances 0 rounding).quantities.map BitVec.toNat).sum = shares.toNat := by
  obtain ⟨balance, rest, rfl⟩ := List.exists_cons_of_ne_nil assets
  have others : ((rest.mapIdx fun index balance => quantity (index + 1) seedAsset balance shares 0 rounding).map
      BitVec.toNat).sum = 0 := by
    rw [List.sum_eq_zero_iff_forall_eq_nat]
    simp [List.mem_mapIdx, toNat_quantity_of_no_supply, seedAsset]
  rw [ofShares, seededBy, List.mapIdx_cons, List.map_cons, List.sum_cons, others, toNat_quantity_of_no_supply]
  rfl

/-- Splitting an amount of shares never gains. In every asset the pieces come to at most what the whole is worth when
they are redeemed and to at least that when they are created, by less than one unit for each piece; without a supply
they come to the same. So the holders of all shares are never paid more than there is, and leave less than one unit
each. -/
theorem splitting_never_gains (balances : List UInt64) (supply : UInt64) {pieces : List UInt64} {whole : UInt64}
    (nonempty : pieces ≠ []) (sum : (pieces.map UInt64.toNat).sum = whole.toNat) :
    (∀ shares rounding, (ofShares shares balances supply rounding).quantities.length = balances.length) ∧
    (∀ index (inside : index < balances.length),
      inPieces pieces balances supply .down index ≤ (ofShares whole balances supply .down).amountAt index ∧
      (ofShares whole balances supply .down).amountAt index ≤
        inPieces pieces balances supply .down index + (pieces.length - 1) ∧
      (ofShares whole balances supply .up).amountAt index ≤ inPieces pieces balances supply .up index ∧
      inPieces pieces balances supply .up index ≤
        (ofShares whole balances supply .up).amountAt index + (pieces.length - 1) ∧
      (supply = 0 → ∀ rounding,
        inPieces pieces balances supply rounding index = (ofShares whole balances supply rounding).amountAt index) ∧
      (supply ≠ 0 → whole = supply →
        inPieces pieces balances supply .down index ≤ balances[index].toNat ∧
        balances[index].toNat < inPieces pieces balances supply .down index + pieces.length)) ∧
    (supply = 0 → balances ≠ [] →
      ∀ rounding, ((ofShares whole balances supply rounding).quantities.map BitVec.toNat).sum = whole.toNat) := by
  refine ⟨fun shares => length_quantities_ofShares shares balances supply, ?_, ?_⟩
  · intro index inside
    simp only [inPieces_eq inside, amountAt_ofShares inside]
    by_cases live : supply = 0
    · subst live
      have same (rounding : Rounding) := piecewise_of_no_supply index seedAsset balances[index] rounding sum
      simp [same]
    · obtain ⟨below, short⟩ := piecewise_down index seedAsset balances[index] live nonempty sum
      obtain ⟨above, dear⟩ := piecewise_up index seedAsset balances[index] live nonempty sum
      refine ⟨below, by omega, above, by omega, fun none => absurd none live, ?_⟩
      rintro - rfl
      rw [toNat_quantity_self index seedAsset balances[index] .down live] at below short
      exact ⟨below, short⟩
  · rintro rfl assets rounding
    exact sum_quantities_of_no_supply assets whole rounding

/-- Two holders of three shares are paid nine of ten units, and would have to pay eleven for their shares. -/
theorem splitting_never_gains_in_thirds :
    ([1, 2] : List UInt64) ≠ [] ∧ (([1, 2] : List UInt64).map UInt64.toNat).sum = (3 : UInt64).toNat ∧
      inPieces [1, 2] [10, 1] 3 .down 0 = 9 ∧ inPieces [1, 2] [10, 1] 3 .up 0 = 11 ∧
      inPieces [1, 2] [10, 1] 3 .down 0 ≤ (10 : UInt64).toNat ∧
      (10 : UInt64).toNat < inPieces [1, 2] [10, 1] 3 .down 0 + 2 := by
  obtain ⟨-, assets, -⟩ := @splitting_never_gains [10, 1] 3 [1, 2] 3 (by decide) (by decide)
  obtain ⟨-, -, -, -, -, all⟩ := assets 0 (by decide)
  exact ⟨by decide, by decide, by decide +kernel, by decide +kernel, all (by decide) rfl⟩

end Basket

end StakePool
