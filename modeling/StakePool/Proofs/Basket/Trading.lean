import StakePool.Proofs.Basket.Quantity

/-!
# Pools whose shares are traded

Shares are created for a basket that is rounded up and redeemed for one that is rounded down. Neither dilutes the
pool (`Undiluted`): each trade keeps what a share is worth in every asset (`after_undiluted`), and so does a run of
them while there are shares (`run_undiluted`). `trading_never_dilutes` draws the consequences.
-/

namespace StakePool

/-- A pool as its trades see it: how many shares there are, and what each vault holds. -/
structure TradedPool where
  supply : UInt64
  balances : List UInt64
deriving DecidableEq

inductive Trade
  | create (shares : UInt64)
  | redeem (shares : UInt64)

namespace TradedPool

/-! ### Trades -/

def deposit? (held amount : UInt64) : Option UInt64 :=
  if held.toNat + amount.toNat < 0x10000000000000000 then some (held + amount) else none

def withdraw? (held amount : UInt64) : Option UInt64 := if amount ≤ held then some (held - amount) else none

/-- Moves shares into or out of the supply, and the basket of these shares into or out of the vaults. -/
def exchange? (p : TradedPool) (move? : UInt64 → UInt64 → Option UInt64) (rounding : Rounding) (shares : UInt64) :
    Option TradedPool := do
  let supply ← move? p.supply shares
  let amounts ← (Basket.ofShares shares p.balances p.supply rounding).amounts.toOption
  let balances ← (p.balances.zip amounts).mapM fun x => move? x.1 x.2
  return { supply, balances }

/-- The pool after a trade, when the shares are there and every result is a token amount. -/
def trade? (p : TradedPool) : Trade → Option TradedPool
  | .create shares => p.exchange? deposit? .up shares
  | .redeem shares => p.exchange? withdraw? .down shares

/-- A trade that does not go through leaves the pool as it is. -/
def after (p : TradedPool) (t : Trade) : TradedPool := (p.trade? t).getD p

def run (p : TradedPool) (trades : List Trade) : TradedPool := trades.foldl after p

theorem exchange?_eq_some_iff {p p' : TradedPool} {move? : UInt64 → UInt64 → Option UInt64} {rounding : Rounding}
    {shares : UInt64} :
    p.exchange? move? rounding shares = some p' ↔
      ∃ amounts, move? p.supply shares = some p'.supply ∧
        (Basket.ofShares shares p.balances p.supply rounding).amounts = .ok amounts ∧
        (p.balances.zip amounts).mapM (fun x => move? x.1 x.2) = some p'.balances := by
  unfold exchange?
  constructor
  · intro moved
    obtain ⟨supply, supplied, moved⟩ := Option.bind_eq_some_iff.mp moved
    obtain ⟨amounts, priced, moved⟩ := Option.bind_eq_some_iff.mp moved
    obtain ⟨balances, settled, same⟩ := Option.bind_eq_some_iff.mp moved
    obtain rfl := Option.some.inj same
    exact ⟨amounts, supplied, toOption_eq_some_iff.mp priced, settled⟩
  · rintro ⟨amounts, supplied, priced, settled⟩
    refine Option.bind_eq_some_iff.mpr ⟨_, supplied, ?_⟩
    refine Option.bind_eq_some_iff.mpr ⟨_, toOption_eq_some_iff.mpr priced, ?_⟩
    exact Option.bind_eq_some_iff.mpr ⟨_, settled, rfl⟩

theorem deposit?_eq_some_iff {held amount n : UInt64} :
    deposit? held amount = some n ↔ n.toNat = held.toNat + amount.toNat := by
  unfold deposit?
  have sum : (held + amount).toNat = (held.toNat + amount.toNat) % 2 ^ 64 := UInt64.toNat_add ..
  have bound := n.toNat_lt
  split
  · rw [Option.some_inj, ← UInt64.toNat_inj, sum]
    omega
  · constructor
    · intro none
      cases none
    · omega

theorem withdraw?_eq_some_iff {held amount n : UInt64} :
    withdraw? held amount = some n ↔ n.toNat + amount.toNat = held.toNat := by
  unfold withdraw?
  split
  · rename_i enough
    have difference := UInt64.toNat_sub_of_le _ _ enough
    have le := UInt64.le_iff_toNat_le.mp enough
    rw [Option.some_inj, ← UInt64.toNat_inj, difference]
    omega
  · rename_i short
    rw [UInt64.le_iff_toNat_le] at short
    constructor
    · intro none
      cases none
    · omega

/-! ### Baskets of a pool that has shares -/

/-- The amounts of a basket stand beside the balances that they are parts of. -/
theorem amounts_ofShares {shares supply : UInt64} {balances amounts : List UInt64} {rounding : Rounding}
    (priced : (Basket.ofShares shares balances supply rounding).amounts = .ok amounts) :
    List.Forall₂ (fun n balance =>
        ∃ index, n.toNat = (quantity index Basket.seedAsset balance shares supply rounding).toNat)
      amounts balances := by
  have same := Basket.mapM_narrow_eq_ok_iff.mp priced
  have quantities := Basket.quantities_ofShares shares balances supply rounding
  generalize (Basket.ofShares shares balances supply rounding).quantities = qs at same quantities
  clear priced
  induction quantities generalizing amounts with
  | nil =>
    rw [List.map_nil, List.map_eq_nil_iff] at same
    rw [same]
    exact .nil
  | cons here _ ih =>
    obtain ⟨index, rfl⟩ := here
    rw [List.map_cons, List.map_eq_cons_iff] at same
    obtain ⟨n, rest, rfl, first, others⟩ := same
    exact .cons ⟨index, first⟩ (ih others)

/-! ### Moving the amounts -/

/-- What holds of every vault that has its amount moved holds of all vaults. -/
theorem forall₂_of_moved {move? : UInt64 → UInt64 → Option UInt64} {amounts balances moved : List UInt64}
    {Part Kept : UInt64 → UInt64 → Prop} (parts : List.Forall₂ Part amounts balances)
    (settled : (balances.zip amounts).mapM (fun x => move? x.1 x.2) = some moved)
    (kept : ∀ {n b b'}, Part n b → move? b n = some b' → Kept b b') : List.Forall₂ Kept balances moved := by
  induction parts generalizing moved with
  | nil =>
    obtain rfl := Option.some.inj settled
    exact .nil
  | cons part _ ih =>
    rw [List.zip_cons_cons, List.mapM_cons] at settled
    obtain ⟨b', first, settled⟩ := Option.bind_eq_some_iff.mp settled
    obtain ⟨rest, others, same⟩ := Option.bind_eq_some_iff.mp settled
    obtain rfl := Option.some.inj same
    exact .cons (kept part first) (ih others)

theorem mapM_withdraw? {amounts balances : List UInt64} (covered : List.Forall₂ (· ≤ ·) amounts balances) :
    (balances.zip amounts).mapM (fun x => withdraw? x.1 x.2) = some (List.zipWith (· - ·) balances amounts) := by
  induction covered with
  | nil => rfl
  | cons enough _ ih =>
    rw [List.zip_cons_cons, List.mapM_cons, List.zipWith_cons_cons]
    refine Option.bind_eq_some_iff.mpr ⟨_, if_pos enough, ?_⟩
    exact Option.bind_eq_some_iff.mpr ⟨_, ih, rfl⟩

/-! ### What a share is worth -/

/-- A share is worth no less in `p'` than in `p`, in any asset. -/
def Undiluted (p p' : TradedPool) : Prop :=
  List.Forall₂ (fun b b' => b.toNat * p'.supply.toNat ≤ b'.toNat * p.supply.toNat) p.balances p'.balances

theorem undiluted_refl (p : TradedPool) : p.Undiluted p := List.forall₂_same.mpr fun _ _ => Nat.le_refl _

/-- The shares in the middle are what the two comparisons have in common, so there have to be some. -/
theorem undiluted_trans {p q r : TradedPool} (first : p.Undiluted q) (second : q.Undiluted r) (live : q.supply ≠ 0) :
    p.Undiluted r := by
  have pos := toNat_pos_of_ne_zero live
  unfold Undiluted at first second ⊢
  generalize p.balances = before, q.balances = between, r.balances = later at first second ⊢
  induction first generalizing later with
  | nil =>
    cases second
    exact .nil
  | @cons a b _ _ ab _ ih =>
    cases second with
    | @cons _ c _ _ bc others =>
      refine .cons ?_ (ih _ others)
      apply Nat.le_of_mul_le_mul_right _ pos
      calc a.toNat * r.supply.toNat * q.supply.toNat
        _ = a.toNat * q.supply.toNat * r.supply.toNat := Nat.mul_right_comm ..
        _ ≤ b.toNat * p.supply.toNat * r.supply.toNat := Nat.mul_le_mul_right _ ab
        _ = b.toNat * r.supply.toNat * p.supply.toNat := Nat.mul_right_comm ..
        _ ≤ c.toNat * q.supply.toNat * p.supply.toNat := Nat.mul_le_mul_right _ bc
        _ = c.toNat * p.supply.toNat * q.supply.toNat := Nat.mul_right_comm ..

theorem create_undiluted {p p' : TradedPool} {shares : UInt64} (live : p.supply ≠ 0)
    (created : p.trade? (.create shares) = some p') : p.Undiluted p' := by
  obtain ⟨amounts, supplied, priced, settled⟩ := exchange?_eq_some_iff.mp created
  have supply := deposit?_eq_some_iff.mp supplied
  refine forall₂_of_moved (amounts_ofShares priced) settled ?_
  rintro n b b' ⟨index, charged⟩ moved
  have balance := deposit?_eq_some_iff.mp moved
  have share := le_quantity_up_mul index Basket.seedAsset b shares live
  rw [← charged] at share
  calc b.toNat * p'.supply.toNat
    _ = b.toNat * p.supply.toNat + b.toNat * shares.toNat := by rw [supply, Nat.mul_add]
    _ ≤ b.toNat * p.supply.toNat + n.toNat * p.supply.toNat := Nat.add_le_add_left share _
    _ = b'.toNat * p.supply.toNat := by rw [balance, Nat.add_mul]

theorem redeem_undiluted {p p' : TradedPool} {shares : UInt64} (live : p.supply ≠ 0)
    (redeemed : p.trade? (.redeem shares) = some p') : p.Undiluted p' := by
  obtain ⟨amounts, supplied, priced, settled⟩ := exchange?_eq_some_iff.mp redeemed
  have supply := withdraw?_eq_some_iff.mp supplied
  refine forall₂_of_moved (amounts_ofShares priced) settled ?_
  rintro n b b' ⟨index, paid⟩ moved
  have balance := withdraw?_eq_some_iff.mp moved
  have share := quantity_down_mul_le index Basket.seedAsset b shares live
  rw [← paid] at share
  apply Nat.le_of_add_le_add_right
  calc b.toNat * p'.supply.toNat + b.toNat * shares.toNat
    _ = b.toNat * p.supply.toNat := by rw [← supply, Nat.mul_add]
    _ = b'.toNat * p.supply.toNat + n.toNat * p.supply.toNat := by rw [← balance, Nat.add_mul]
    _ ≤ b'.toNat * p.supply.toNat + b.toNat * shares.toNat := Nat.add_le_add_left share _

theorem after_undiluted {p : TradedPool} (live : p.supply ≠ 0) (t : Trade) : p.Undiluted (p.after t) := by
  unfold after
  cases traded : p.trade? t with
  | none => exact p.undiluted_refl
  | some p' =>
    cases t with
    | create shares => exact create_undiluted live traded
    | redeem shares => exact redeem_undiluted live traded

/-! ### Runs -/

theorem run_take_succ (p : TradedPool) (trades : List Trade) (k : Nat) :
    p.run (trades.take (k + 1)) = p.run (trades.take k) ∨
      ∃ t, p.run (trades.take (k + 1)) = (p.run (trades.take k)).after t := by
  rw [List.take_add_one]
  cases trades[k]? with
  | none => exact .inl (by rw [Option.toList_none, List.append_nil])
  | some t => exact .inr ⟨t, by rw [run, List.foldl_append]; rfl⟩

theorem run_undiluted (p : TradedPool) (trades : List Trade) {i j : Nat} (le : i ≤ j)
    (live : ∀ k, i ≤ k → k ≤ j → (p.run (trades.take k)).supply ≠ 0) :
    (p.run (trades.take i)).Undiluted (p.run (trades.take j)) := by
  induction le with
  | refl => exact undiluted_refl _
  | @step j le ih =>
    have before : (p.run (trades.take j)).supply ≠ 0 := live j le (Nat.le_succ j)
    have sofar := ih fun k low high => live k low (Nat.le_succ_of_le high)
    rcases p.run_take_succ trades j with same | ⟨t, next⟩
    · rw [same]
      exact sofar
    · rw [next]
      exact undiluted_trans sofar (after_undiluted before t) before

theorem balances_le_of_undiluted {p p' : TradedPool} (kept : p.Undiluted p') (live : p.supply ≠ 0)
    (same : p'.supply = p.supply) : List.Forall₂ (· ≤ ·) p.balances p'.balances := by
  have pos := toNat_pos_of_ne_zero live
  unfold Undiluted at kept
  rw [same] at kept
  exact kept.imp fun b b' le => UInt64.le_iff_toNat_le.mpr (Nat.le_of_mul_le_mul_right le pos)

/-! ### Redemptions -/

theorem quantities_le (p : TradedPool) {shares : UInt64} (part : shares ≤ p.supply) (rounding : Rounding) :
    List.Forall₂ (fun q b => q.toNat ≤ b.toNat) (Basket.ofShares shares p.balances p.supply rounding).quantities
      p.balances := Basket.toNat_quantities_le part p.balances rounding

/-- A redemption that the supply allows is always paid. -/
theorem redemption_paid (p : TradedPool) {shares : UInt64} (part : shares ≤ p.supply) :
    ∃ paid, (Basket.ofShares shares p.balances p.supply .down).amounts = .ok paid ∧
      p.trade? (.redeem shares) = some
        { supply := p.supply - shares, balances := List.zipWith (· - ·) p.balances paid } := by
  obtain ⟨paid, priced⟩ := Basket.exists_amounts_of_covered (p.quantities_le part .down)
  have covered : List.Forall₂ (· ≤ ·) paid p.balances := by
    refine (amounts_ofShares priced).imp ?_
    rintro n b ⟨index, same⟩
    rw [UInt64.le_iff_toNat_le, same]
    exact toNat_quantity_le index Basket.seedAsset b .down part
  exact ⟨paid, priced, exchange?_eq_some_iff.mpr ⟨paid, if_pos part, priced, mapM_withdraw? covered⟩⟩

/-- Whoever redeems all shares is paid all there is. -/
theorem amounts_of_whole_supply (p : TradedPool) (live : p.supply ≠ 0) :
    (Basket.ofShares p.supply p.balances p.supply .down).amounts = .ok p.balances := by
  obtain ⟨paid, priced, -⟩ := p.redemption_paid (UInt64.le_refl p.supply)
  have whole : List.Forall₂ (· = ·) paid p.balances := by
    refine (amounts_ofShares priced).imp ?_
    rintro n b ⟨index, same⟩
    exact UInt64.toNat_inj.mp (same.trans (toNat_quantity_self index Basket.seedAsset b .down live))
  rw [List.forall₂_eq_eq_eq] at whole
  rw [priced, whole]

/-- Trading never dilutes a pool. In every state of a run, redemptions are within the balances and are paid, and all
shares are paid all there is; between two states with shares all the way the worth of a share falls in no asset; so
what comes back to the supply it began with has lost nothing, and creating and redeeming does not profit. -/
theorem trading_never_dilutes (p : TradedPool) (trades : List Trade) :
    let state := fun k => p.run (trades.take k)
    (∀ k shares, shares ≤ (state k).supply →
      List.Forall₂ (fun q b => q.toNat ≤ b.toNat)
        (Basket.ofShares shares (state k).balances (state k).supply .down).quantities (state k).balances ∧
      ∃ paid, (Basket.ofShares shares (state k).balances (state k).supply .down).amounts = .ok paid ∧
        (state k).trade? (.redeem shares) = some
          { supply := (state k).supply - shares, balances := List.zipWith (· - ·) (state k).balances paid }) ∧
    (∀ k, (state k).supply ≠ 0 →
      (Basket.ofShares (state k).supply (state k).balances (state k).supply .down).amounts =
        .ok (state k).balances) ∧
    (∀ i j, i ≤ j → (∀ k, i ≤ k → k ≤ j → (state k).supply ≠ 0) →
      List.Forall₂ (fun b b' => b.toNat * (state j).supply.toNat ≤ b'.toNat * (state i).supply.toNat)
        (state i).balances (state j).balances) ∧
    ((∀ k, (state k).supply ≠ 0) → (p.run trades).supply = p.supply →
      List.Forall₂ (· ≤ ·) p.balances (p.run trades).balances) ∧
    (∀ shares created returned, p.supply ≠ 0 → p.trade? (.create shares) = some created →
      created.trade? (.redeem shares) = some returned → List.Forall₂ (· ≤ ·) p.balances returned.balances) := by
  intro state
  refine ⟨fun k shares part => ⟨(state k).quantities_le part .down, (state k).redemption_paid part⟩,
    fun k live => (state k).amounts_of_whole_supply live, fun i j le live => p.run_undiluted trades le live, ?_, ?_⟩
  · intro live same
    have kept := p.run_undiluted trades (Nat.zero_le trades.length) fun k _ _ => live k
    rw [List.take_length] at kept
    exact balances_le_of_undiluted kept (live 0) same
  · intro shares created returned live came went
    obtain ⟨_, supplied, -⟩ := exchange?_eq_some_iff.mp came
    obtain ⟨_, withdrawn, -⟩ := exchange?_eq_some_iff.mp went
    have more := deposit?_eq_some_iff.mp supplied
    have back := withdraw?_eq_some_iff.mp withdrawn
    have pos : 0 < p.supply.toNat := UInt64.lt_iff_toNat_lt.mp (UInt64.pos_iff_ne_zero.mpr live)
    have still : created.supply ≠ 0 := by
      intro none
      rw [none] at more
      have zero : (0 : UInt64).toNat = 0 := rfl
      omega
    have kept := undiluted_trans (create_undiluted live came) (redeem_undiluted still went) still
    exact balances_le_of_undiluted kept live (UInt64.toNat_inj.mp (by omega))

/-- Two shares that are created for what they are worth and a bit more, and redeemed again. -/
theorem trading_never_dilutes_rounded :
    let p : TradedPool := { supply := 3, balances := [10, 1] }
    p.trade? (.create 2) = some { supply := 5, balances := [17, 2] } ∧
      p.run [.create 2, .redeem 2] = { supply := 3, balances := [11, 2] } ∧
      List.Forall₂ (fun b b' : UInt64 => b.toNat * 5 ≤ b'.toNat * 3) [10, 1] [17, 2] ∧
      List.Forall₂ (· ≤ ·) ([10, 1] : List UInt64) [11, 2] := by
  intro p
  have created : p.trade? (.create 2) = some { supply := 5, balances := [17, 2] } := by decide +kernel
  have redeemed : ({ supply := 5, balances := [17, 2] } : TradedPool).trade? (.redeem 2) =
      some { supply := 3, balances := [11, 2] } := by decide +kernel
  have between : p.run [.create 2] = { supply := 5, balances := [17, 2] } := by decide +kernel
  obtain ⟨-, -, kept, -, back⟩ := trading_never_dilutes p [.create 2, .redeem 2]
  have live : ∀ k, 0 ≤ k → k ≤ 1 → (p.run ([.create 2, .redeem 2].take k)).supply ≠ 0 := by
    intro k _ high
    obtain rfl | rfl : k = 0 ∨ k = 1 := by omega
    · decide +kernel
    · decide +kernel
  have first := kept 0 1 (Nat.zero_le 1) live
  change List.Forall₂ (fun b b' => b.toNat * (p.run [.create 2]).supply.toNat ≤ b'.toNat * p.supply.toNat) p.balances
    (p.run [.create 2]).balances at first
  rw [between] at first
  exact ⟨created, by decide +kernel, first, back 2 _ _ (by decide) created redeemed⟩

end TradedPool

end StakePool
