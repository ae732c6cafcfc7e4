import Mathlib.Algebra.GroupWithZero.Nat
import Mathlib.Data.List.Forall2
import StakePool.Basket
import StakePool.Proofs.Outcome

/-!
# Quantities as numbers

The 128 bits in which a quantity is computed always suffice, so that it is a quotient of natural numbers
(`toNat_quantity`), at most the balance that it is a part of (`toNat_quantity_le`). A basket is paid out exactly
when its quantities are the numbers of token amounts (`Basket.mapM_narrow_eq_ok_iff`).
-/

namespace StakePool

/-! ### In 128 bits -/

theorem Amount.toNat_ofWord (n : UInt64) : (Amount.ofWord n).toNat = n.toNat := by
  have small := n.toNat_lt
  rw [Amount.ofWord, BitVec.toNat_setWidth, UInt64.toNat_toBitVec]
  omega

/-- What is added to a product before it is divided. -/
def Rounding.bias : Rounding → Nat → Nat
  | .down, _ => 0
  | .up, supply => supply - 1

theorem toNat_pos_of_ne_zero {n : UInt64} (live : n ≠ 0) : 0 < n.toNat :=
  UInt64.lt_iff_toNat_lt.mp (UInt64.pos_iff_ne_zero.mpr live)

/-- The largest product of two words leaves room for what is added to it before it is divided. -/
theorem mul_words_add_lt (a b c : UInt64) : a.toNat * b.toNat + c.toNat < 2 ^ 128 := by
  have ha := a.toNat_lt
  have hb := b.toNat_lt
  have hc := c.toNat_lt
  have room : a.toNat * b.toNat ≤ 0xffffffffffffffff * 0xffffffffffffffff := Nat.mul_le_mul (by omega) (by omega)
  omega

theorem Amount.toNat_ofWord_mul (a b : UInt64) : (ofWord a * ofWord b).toNat = a.toNat * b.toNat := by
  have room := mul_words_add_lt a b 0
  rw [BitVec.toNat_mul, toNat_ofWord, toNat_ofWord]
  exact Nat.mod_eq_of_lt (by omega)

theorem Amount.one_le_ofWord {n : UInt64} (live : n ≠ 0) : 1 ≤ ofWord n := by
  rw [BitVec.le_def, toNat_ofWord]
  exact toNat_pos_of_ne_zero live

theorem Amount.toNat_ofWord_sub_one {n : UInt64} (live : n ≠ 0) : (ofWord n - 1).toNat = n.toNat - 1 := by
  rw [BitVec.toNat_sub_of_le (one_le_ofWord live), toNat_ofWord]
  rfl

section

variable {supply : UInt64} (index seed : Nat) (balance shares : UInt64) (rounding : Rounding)

theorem toNat_quantity (live : supply ≠ 0) :
    (quantity index seed balance shares supply rounding).toNat =
      (balance.toNat * shares.toNat + rounding.bias supply.toNat) / supply.toNat := by
  have room := mul_words_add_lt balance shares supply
  unfold quantity
  rw [if_neg live]
  dsimp only
  rw [BitVec.toNat_udiv, BitVec.toNat_add, Amount.toNat_ofWord_mul, Amount.toNat_ofWord]
  cases rounding with
  | down =>
    show (_ + 0) % _ / _ = _
    rw [Nat.mod_eq_of_lt (by omega)]
    rfl
  | up =>
    dsimp only
    rw [Amount.toNat_ofWord_sub_one live, Nat.mod_eq_of_lt (by omega)]
    rfl

/-- Before there are shares the seed asset stands for the whole amount. -/
theorem toNat_quantity_of_no_supply :
    (quantity index seed balance shares 0 rounding).toNat = if index = seed then shares.toNat else 0 := by
  unfold quantity
  rw [if_pos rfl]
  split
  · exact Amount.toNat_ofWord shares
  · rfl

/-- What is paid for a part of the supply is there, whichever way it is rounded. -/
theorem toNat_quantity_le {shares : UInt64} (part : shares ≤ supply) :
    (quantity index seed balance shares supply rounding).toNat ≤ balance.toNat := by
  by_cases live : supply = 0
  · subst live
    have none : shares = 0 := UInt64.le_zero_iff.mp part
    rw [none, toNat_quantity_of_no_supply, UInt64.toNat_zero, ite_self]
    exact Nat.zero_le _
  · have pos := toNat_pos_of_ne_zero live
    have bias : rounding.bias supply.toNat < supply.toNat := by
      cases rounding with
      | down => exact pos
      | up => exact Nat.sub_lt pos Nat.one_pos
    have share : balance.toNat * shares.toNat ≤ balance.toNat * supply.toNat :=
      Nat.mul_le_mul_left _ (UInt64.le_iff_toNat_le.mp part)
    rw [toNat_quantity index seed balance shares rounding live]
    apply Nat.le_of_lt_succ
    rw [Nat.div_lt_iff_lt_mul pos, Nat.succ_mul]
    omega

/-- The whole supply is worth the whole balance, whichever way it is rounded. -/
theorem toNat_quantity_self (live : supply ≠ 0) :
    (quantity index seed balance supply supply rounding).toNat = balance.toNat := by
  have pos := toNat_pos_of_ne_zero live
  apply Nat.le_antisymm
  · exact toNat_quantity_le index seed balance rounding (UInt64.le_refl _)
  · rw [toNat_quantity index seed balance supply rounding live, Nat.le_div_iff_mul_le pos]
    exact Nat.le_add_right _ _

theorem quantity_down_mul_le (live : supply ≠ 0) :
    (quantity index seed balance shares supply .down).toNat * supply.toNat ≤ balance.toNat * shares.toNat := by
  rw [toNat_quantity index seed balance shares .down live]
  exact Nat.div_mul_le_self _ _

theorem lt_quantity_down_mul_add (live : supply ≠ 0) :
    balance.toNat * shares.toNat <
      (quantity index seed balance shares supply .down).toNat * supply.toNat + supply.toNat := by
  have pos := toNat_pos_of_ne_zero live
  rw [toNat_quantity index seed balance shares .down live]
  exact Nat.lt_div_mul_add pos

theorem le_quantity_up_mul (live : supply ≠ 0) :
    balance.toNat * shares.toNat ≤ (quantity index seed balance shares supply .up).toNat * supply.toNat := by
  have pos := toNat_pos_of_ne_zero live
  have above := Nat.lt_mul_div_succ (balance.toNat * shares.toNat + (supply.toNat - 1)) pos
  rw [Nat.mul_comm supply.toNat, Nat.succ_mul] at above
  rw [toNat_quantity index seed balance shares .up live]
  show _ ≤ (balance.toNat * shares.toNat + (supply.toNat - 1)) / supply.toNat * supply.toNat
  omega

theorem quantity_up_mul_lt_add (live : supply ≠ 0) :
    (quantity index seed balance shares supply .up).toNat * supply.toNat <
      balance.toNat * shares.toNat + supply.toNat := by
  have pos := toNat_pos_of_ne_zero live
  have below := Nat.div_mul_le_self (balance.toNat * shares.toNat + (supply.toNat - 1)) supply.toNat
  rw [toNat_quantity index seed balance shares .up live]
  show (balance.toNat * shares.toNat + (supply.toNat - 1)) / supply.toNat * supply.toNat < _
  omega

end

/-! ### Token amounts -/

namespace Basket

theorem narrow_eq_ok_iff {q : Amount} {n : UInt64} : narrow q = .ok n ↔ n.toNat = q.toNat := by
  unfold narrow
  split
  · rename_i small
    have back : (UInt64.ofNat q.toNat).toNat = q.toNat := UInt64.toNat_ofNat_of_lt small
    constructor
    · intro narrowed
      rw [← Except.ok.inj narrowed, back]
    · intro same
      rw [UInt64.toNat_inj.mp (same.trans back.symm)]
  · rename_i large
    constructor
    · intro narrowed
      cases narrowed
    · intro same
      exact absurd (same ▸ n.toNat_lt) large

theorem mapM_narrow_eq_ok_iff {qs : List Amount} {ns : List UInt64} :
    qs.mapM narrow = .ok ns ↔ ns.map UInt64.toNat = qs.map BitVec.toNat := by
  have same : List.Forall₂ (fun (q : Amount) (n : UInt64) => q.toNat = n.toNat) qs ns ↔
      qs.map BitVec.toNat = ns.map UInt64.toNat := by
    rw [← congrFun₂ List.forall₂_eq_eq_eq, List.forall₂_map_left_iff, List.forall₂_map_right_iff]
  simp only [mapM_eq_ok_iff, narrow_eq_ok_iff]
  rw [eq_comm, ← same]
  simp only [eq_comm]

theorem exists_amounts {basket : Basket} (small : ∀ q ∈ basket.quantities, q.toNat < 0x10000000000000000) :
    ∃ ns, basket.amounts = .ok ns := by
  refine ⟨basket.quantities.map fun q => .ofNat q.toNat, mapM_narrow_eq_ok_iff.mpr ?_⟩
  rw [List.map_map]
  apply List.map_congr_left
  intro q member
  exact UInt64.toNat_ofNat_of_lt (small q member)

/-- Each asset of a basket has the quantity that its balance calls for. -/
theorem quantities_ofShares (shares : UInt64) (balances : List UInt64) (supply : UInt64) (rounding : Rounding) :
    List.Forall₂ (fun q balance => ∃ index, q = quantity index seedAsset balance shares supply rounding)
      (ofShares shares balances supply rounding).quantities balances := by
  have priced (f : Nat → UInt64 → Amount) (all : List UInt64) :
      List.Forall₂ (fun q balance => ∃ index, q = f index balance) (all.mapIdx f) all := by
    induction all generalizing f with
    | nil => exact .nil
    | cons balance rest ih =>
      rw [List.mapIdx_cons]
      refine .cons ⟨0, rfl⟩ ((ih fun index => f (index + 1)).imp ?_)
      rintro q b ⟨index, same⟩
      exact ⟨index + 1, same⟩
  exact priced _ balances

/-- What is paid for a part of the supply is in the vaults. -/
theorem toNat_quantities_le {shares supply : UInt64} (part : shares ≤ supply) (balances : List UInt64)
    (rounding : Rounding) :
    List.Forall₂ (fun q balance => q.toNat ≤ balance.toNat) (ofShares shares balances supply rounding).quantities
      balances := by
  refine (quantities_ofShares shares balances supply rounding).imp ?_
  rintro q balance ⟨index, rfl⟩
  exact toNat_quantity_le index seedAsset balance rounding part

theorem exists_amounts_of_covered {basket : Basket} {balances : List UInt64}
    (covered : List.Forall₂ (fun q balance => q.toNat ≤ balance.toNat) basket.quantities balances) :
    ∃ ns, basket.amounts = .ok ns := by
  obtain ⟨small, -⟩ := (List.forall₂_and_left _ _).mp
    (covered.imp fun q balance le => ⟨Nat.lt_of_le_of_lt le balance.toNat_lt, le⟩)
  exact exists_amounts small

end Basket

end StakePool
