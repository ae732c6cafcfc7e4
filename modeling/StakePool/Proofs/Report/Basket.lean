import StakePool.Proofs.Accounts
import StakePool.Proofs.Basket.Rounding
import StakePool.Proofs.Basket.Splitting
import StakePool.Proofs.Store.Lawful
import StakePool.Report.Basket

/-!
# The report on a basket and what is stored

`Report.basket` counts the vaults, loads the share mint and then each vault, and values the shares. It fails for the
first of these accounts that cannot be loaded (`Report.basket_eq_error_iff`), and shows otherwise what the records of
all of them say (`Report.basket_eq_ok_iff`).
-/

namespace StakePool

open AccountStore

/-! ### Loading -/

section

variable {σ α : Type} [AccountStore σ]

/-- The account holds this record. -/
def Holds (store : σ) (l : Layout α) (key : Pubkey) (a : α) : Prop :=
  ∃ body, fetch store key = .ok body ∧ l.decodeExact body = .ok a

/-- The account is not there, or its bytes are no record, for this reason. -/
def Lacks (store : σ) (l : Layout α) (key : Pubkey) (fault : StoreFault) : Prop :=
  fetch store key = .error fault ∨
    ∃ body reason, fetch store key = .ok body ∧ l.decodeExact body = .error reason ∧ fault = .layout reason

variable {store : σ} {l : Layout α} {key : Pubkey}

theorem load_eq_ok_iff {a : α} : load store l key = .ok a ↔ Holds store l key a := by
  simp only [load, Holds, bind_eq_ok_iff, mapError_eq_ok_iff]

theorem load_eq_error_iff {fault : StoreFault} : load store l key = .error fault ↔ Lacks store l key fault := by
  simp only [load, Lacks, bind_eq_error_iff, mapError_eq_error_iff, exists_and_left]

theorem holds_of_fetch_encode {a : α} (stored : fetch store key = .ok (l.encode a)) (small : l.size < addressLimit) :
    Holds store l key a := ⟨_, stored, Layout.decodeExact_encode l a small⟩

end

namespace Report

variable {σ : Type} [AccountStore σ] {store : σ} {mint : Pubkey} {vaults : List Pubkey} {shares : UInt64}
  {rounding : Rounding}

/-! ### Counting -/

theorem kindOfCount_eq_ok_iff {count : Nat} {kind : PoolKind} :
    kindOfCount count = .ok kind ↔ count = kind.assetCount := by
  unfold kindOfCount
  split
  · cases kind <;> simp [PoolKind.assetCount]
  · cases kind <;> simp [PoolKind.assetCount]
  · cases kind <;> simp_all [PoolKind.assetCount]

theorem kindOfCount_eq_error_iff {count : Nat} {fault : ReportFault} :
    kindOfCount count = .error fault ↔ ¬ (count = 1 ∨ count = 2) ∧ fault = .vaultCount count := by
  unfold kindOfCount
  split
  · simp
  · simp
  · simp_all [eq_comm]

theorem counted_iff {count : Nat} : (count = 1 ∨ count = 2) ↔ ∃ kind : PoolKind, count = kind.assetCount := by
  constructor
  · rintro (one | two)
    · exact ⟨.stake, one⟩
    · exact ⟨.mega, two⟩
  · rintro ⟨kind, rfl⟩
    cases kind with
    | stake => exact .inl rfl
    | mega => exact .inr rfl

/-! ### Valuing -/

/-- What a report shows when the accounts are these records. -/
structure Shows (shareMint : Mint) (accounts : List TokenAccount) (shares : UInt64) (rounding : Rounding)
    (valuation : PoolValuation) (basket : Basket) : Prop where
  kind_eq : valuation.kind = if accounts.length = 1 then .stake else .mega
  shareSupply_eq : valuation.shareSupply = shareMint.supply
  vaultBalances_eq : valuation.vaultBalances = accounts.map (·.amount)
  length_quantities : basket.quantities.length = accounts.length
  amountAt_eq : ∀ index (inside : index < accounts.length), basket.amountAt index =
    if shareMint.supply = 0 then if index = 0 then shares.toNat else 0
    else rounding.quotient (accounts[index].amount.toNat * shares.toNat) shareMint.supply.toNat

variable {kind : PoolKind} {shareMint : Mint} {accounts : List TokenAccount} {valuation : PoolValuation}
  {quantities : Basket}

theorem amountAt_accounts {index : Nat} (inside : index < accounts.length) (supply : UInt64) :
    (Basket.ofShares shares (accounts.map (·.amount)) supply rounding).amountAt index =
      if supply = 0 then if index = 0 then shares.toNat else 0
      else rounding.quotient (accounts[index].amount.toNat * shares.toNat) supply.toNat := by
  rw [Basket.amountAt_ofShares (by rwa [List.length_map]), List.getElem_map]
  split
  · rename_i none
    rw [none, toNat_quantity_of_no_supply, Basket.seedAsset]
  · rename_i live
    exact toNat_quantity_eq_quotient index _ _ shares rounding live

theorem exists_ofAccounts (counted : accounts.length = kind.assetCount) (shareMint : Mint) :
    ∃ valuation, PoolValuation.ofAccounts kind shareMint accounts = .ok valuation ∧
      ∀ shares rounding, Shows shareMint accounts shares rounding valuation (valuation.basket shares rounding) := by
  have length : (accounts.map (·.amount)).length = kind.assetCount := by rw [List.length_map, counted]
  refine ⟨_, dif_pos length, fun shares rounding => ⟨?_, rfl, rfl, ?_, fun index inside => amountAt_accounts inside _⟩⟩
  · rw [counted]
    cases kind with
    | stake => rfl
    | mega => rfl
  · rw [PoolValuation.basket, Basket.length_quantities_ofShares, List.length_map]

theorem Shows.unique {valuation' : PoolValuation} {quantities' : Basket}
    (shown : Shows shareMint accounts shares rounding valuation quantities)
    (shown' : Shows shareMint accounts shares rounding valuation' quantities') :
    valuation = valuation' ∧ quantities = quantities' := by
  constructor
  · obtain ⟨kind, supply, balances, length⟩ := valuation
    obtain ⟨kind', supply', balances', length'⟩ := valuation'
    obtain rfl : kind = kind' := shown.kind_eq.trans shown'.kind_eq.symm
    obtain rfl : supply = supply' := shown.shareSupply_eq.trans shown'.shareSupply_eq.symm
    obtain rfl : balances = balances' := shown.vaultBalances_eq.trans shown'.vaultBalances_eq.symm
    rfl
  · have length := shown.length_quantities.trans shown'.length_quantities.symm
    refine congrArg Basket.mk (List.ext_getElem length fun index inside inside' => ?_)
    have within := shown.length_quantities ▸ inside
    have amounts := (shown.amountAt_eq index within).trans (shown'.amountAt_eq index within).symm
    simp only [Basket.amountAt, List.getD_eq_getElem?_getD, List.getElem?_eq_getElem inside,
      List.getElem?_eq_getElem inside', Option.getD_some] at amounts
    exact BitVec.eq_of_toNat_eq amounts

/-! ### Outcomes -/

/-- The first of the accounts that is not the record that it should be, and why. -/
def FirstFault (store : σ) (mint : Pubkey) (vaults : List Pubkey) (fault : StoreFault) : Prop :=
  Lacks store Mint.layout mint fault ∨
    (∃ shareMint, Holds store Mint.layout mint shareMint) ∧
      ∃ before key after, vaults = before ++ key :: after ∧
        (∀ earlier ∈ before, ∃ account, Holds store TokenAccount.layout earlier account) ∧
        Lacks store TokenAccount.layout key fault

theorem loadVaults_eq_ok_iff :
    (vaults.mapM fun key => (load store TokenAccount.layout key).mapError ReportFault.store) = .ok accounts ↔
      List.Forall₂ (Holds store TokenAccount.layout) vaults accounts := by
  simp only [mapM_eq_ok_iff, mapError_eq_ok_iff, load_eq_ok_iff]

theorem loadVaults_eq_error_iff {fault : ReportFault} :
    (vaults.mapM fun key => (load store TokenAccount.layout key).mapError ReportFault.store) = .error fault ↔
      ∃ first, fault = .store first ∧ ∃ before key after, vaults = before ++ key :: after ∧
        (∀ earlier ∈ before, ∃ account, Holds store TokenAccount.layout earlier account) ∧
        Lacks store TokenAccount.layout key first := by
  simp only [mapM_eq_error_iff, mapError_eq_ok_iff, mapError_eq_error_iff, load_eq_ok_iff, load_eq_error_iff]
  constructor
  · rintro ⟨before, key, after, split, fine, first, lacking, rfl⟩
    exact ⟨first, rfl, before, key, after, split, fine, lacking⟩
  · rintro ⟨first, rfl, before, key, after, split, fine, lacking⟩
    exact ⟨before, key, after, split, fine, first, lacking, rfl⟩

theorem basket_eq_error_iff {fault : ReportFault} :
    Report.basket store mint vaults shares rounding = .error fault ↔
      ¬ (vaults.length = 1 ∨ vaults.length = 2) ∧ fault = .vaultCount vaults.length ∨
      (vaults.length = 1 ∨ vaults.length = 2) ∧ ∃ first, fault = .store first ∧ FirstFault store mint vaults first := by
  constructor
  · intro failed
    rcases bind_eq_error_iff.mp failed with miscounted | ⟨kind, counted, failed⟩
    · exact .inl (kindOfCount_eq_error_iff.mp miscounted)
    have counted := kindOfCount_eq_ok_iff.mp counted
    refine .inr ⟨counted_iff.mpr ⟨kind, counted⟩, ?_⟩
    rcases bind_eq_error_iff.mp failed with refused | ⟨shareMint, minted, failed⟩
    · obtain ⟨first, lacking, rfl⟩ := mapError_eq_error_iff.mp refused
      exact ⟨first, rfl, .inl (load_eq_error_iff.mp lacking)⟩
    have minted := load_eq_ok_iff.mp (mapError_eq_ok_iff.mp minted)
    rcases bind_eq_error_iff.mp failed with refused | ⟨accounts, held, failed⟩
    · obtain ⟨first, rfl, lacking⟩ := loadVaults_eq_error_iff.mp refused
      exact ⟨first, rfl, .inr ⟨⟨shareMint, minted⟩, lacking⟩⟩
    -- The accounts were counted before they were loaded, so they are not refused now.
    have length := (loadVaults_eq_ok_iff.mp held).length_eq
    obtain ⟨valuation, valued, -⟩ := exists_ofAccounts (length.symm.trans counted) shareMint
    rw [valued] at failed
    cases failed
  · rintro (miscounted | ⟨counted, first, rfl, lacking | ⟨⟨shareMint, minted⟩, lacking⟩⟩)
    · exact bind_eq_error_iff.mpr (.inl (kindOfCount_eq_error_iff.mpr miscounted))
    · obtain ⟨kind, counted⟩ := counted_iff.mp counted
      refine bind_eq_error_iff.mpr (.inr ⟨kind, kindOfCount_eq_ok_iff.mpr counted, bind_eq_error_iff.mpr (.inl ?_)⟩)
      exact mapError_eq_error_iff.mpr ⟨first, load_eq_error_iff.mpr lacking, rfl⟩
    · obtain ⟨kind, counted⟩ := counted_iff.mp counted
      refine bind_eq_error_iff.mpr (.inr ⟨kind, kindOfCount_eq_ok_iff.mpr counted, bind_eq_error_iff.mpr (.inr
        ⟨shareMint, mapError_eq_ok_iff.mpr (load_eq_ok_iff.mpr minted), bind_eq_error_iff.mpr (.inl ?_)⟩)⟩)
      exact loadVaults_eq_error_iff.mpr ⟨first, rfl, lacking⟩

theorem basket_of_holds (counted : vaults.length = 1 ∨ vaults.length = 2)
    (minted : Holds store Mint.layout mint shareMint)
    (held : List.Forall₂ (Holds store TokenAccount.layout) vaults accounts) (shares : UInt64) (rounding : Rounding) :
    ∃ valuation quantities, Report.basket store mint vaults shares rounding = .ok (valuation, quantities) ∧
      Shows shareMint accounts shares rounding valuation quantities := by
  obtain ⟨kind, counted⟩ := counted_iff.mp counted
  obtain ⟨valuation, valued, shown⟩ := exists_ofAccounts (held.length_eq.symm.trans counted) shareMint
  refine ⟨valuation, valuation.basket shares rounding, bind_eq_ok_iff.mpr ⟨kind, kindOfCount_eq_ok_iff.mpr counted,
    bind_eq_ok_iff.mpr ⟨shareMint, mapError_eq_ok_iff.mpr (load_eq_ok_iff.mpr minted), bind_eq_ok_iff.mpr
      ⟨accounts, loadVaults_eq_ok_iff.mpr held, ?_⟩⟩⟩, shown shares rounding⟩
  rw [valued]
  rfl

theorem basket_eq_ok_iff :
    Report.basket store mint vaults shares rounding = .ok (valuation, quantities) ↔
      (vaults.length = 1 ∨ vaults.length = 2) ∧ ∃ shareMint accounts, Holds store Mint.layout mint shareMint ∧
        List.Forall₂ (Holds store TokenAccount.layout) vaults accounts ∧
        Shows shareMint accounts shares rounding valuation quantities := by
  constructor
  · intro reported
    obtain ⟨kind, counted, later⟩ := bind_eq_ok_iff.mp reported
    obtain ⟨shareMint, minted, later⟩ := bind_eq_ok_iff.mp later
    obtain ⟨accounts, held, -⟩ := bind_eq_ok_iff.mp later
    have counted := counted_iff.mpr ⟨kind, kindOfCount_eq_ok_iff.mp counted⟩
    have minted := load_eq_ok_iff.mp (mapError_eq_ok_iff.mp minted)
    have held := loadVaults_eq_ok_iff.mp held
    refine ⟨counted, shareMint, accounts, minted, held, ?_⟩
    obtain ⟨valuation', quantities', again, shown⟩ := basket_of_holds counted minted held shares rounding
    obtain ⟨rfl, rfl⟩ := Prod.mk.inj (Except.ok.inj (reported.symm.trans again))
    exact shown
  · rintro ⟨counted, shareMint, accounts, minted, held, shown⟩
    obtain ⟨valuation', quantities', reported, shown'⟩ := basket_of_holds counted minted held shares rounding
    obtain ⟨rfl, rfl⟩ := shown.unique shown'
    exact reported

theorem basket_reads_stored_words
    (reported : Report.basket store mint vaults shares rounding = .ok (valuation, quantities)) :
    (∃ body, fetch store mint = .ok body ∧ body.length = 82 ∧
      valuation.shareSupply = Word.u64.ofBytes ((body.drop 36).take 8)) ∧
    List.Forall₂ (fun key balance => ∃ body, fetch store key = .ok body ∧ body.length = 165 ∧
      balance = Word.u64.ofBytes ((body.drop 64).take 8)) vaults valuation.vaultBalances := by
  obtain ⟨-, shareMint, accounts, ⟨body, fetched, decoded⟩, held, shown⟩ := basket_eq_ok_iff.mp reported
  constructor
  · refine ⟨body, fetched, Layout.length_of_decodeExact decoded, ?_⟩
    rw [shown.shareSupply_eq]
    exact Mint.decodesBy.word_eq Mint.stores_supply (by decide) decoded
  · rw [shown.vaultBalances_eq, List.forall₂_map_right_iff]
    refine held.imp fun key account ⟨body, fetched, decoded⟩ => ?_
    exact ⟨body, fetched, Layout.length_of_decodeExact decoded,
      TokenAccount.decodesBy.word_eq TokenAccount.stores_amount (by decide) decoded⟩

/-- A basket is what the stored accounts make of it. The vaults are counted before any account is looked at; then the
first account that is not the record that it should be is the fault, and nothing else is. The share supply and the
balances are the numbers of the records, at their places in the bytes, in the order of the vaults, and each quantity is
the rounded quotient of these. -/
theorem basket_shows_what_is_stored (store : σ) (mint : Pubkey) (vaults : List Pubkey) (shares : UInt64)
    (rounding : Rounding) :
    let report := Report.basket store mint vaults shares rounding
    let counted := vaults.length = 1 ∨ vaults.length = 2
    (∀ fault, report = .error fault ↔
      ¬ counted ∧ fault = .vaultCount vaults.length ∨
      counted ∧ ∃ first, fault = .store first ∧ FirstFault store mint vaults first) ∧
    (¬ counted →
      (∀ {τ : Type} [AccountStore τ] (other : τ) (mint' : Pubkey),
        Report.basket other mint' vaults shares rounding = .error (.vaultCount vaults.length)) ∧
      (ReportFault.vaultCount vaults.length).message = s!"expected one or two vaults, got {vaults.length}") ∧
    (∀ fault, report ≠ .error (.bytes fault)) ∧
    (∀ valuation quantities, report = .ok (valuation, quantities) ↔
      counted ∧ ∃ shareMint accounts, Holds store Mint.layout mint shareMint ∧
        List.Forall₂ (Holds store TokenAccount.layout) vaults accounts ∧
        Shows shareMint accounts shares rounding valuation quantities) ∧
    (∀ valuation quantities, report = .ok (valuation, quantities) →
      valuation.vaultBalances.length = vaults.length ∧ quantities.quantities.length = vaults.length ∧
      (∃ body, fetch store mint = .ok body ∧ body.length = 82 ∧
        valuation.shareSupply = Word.u64.ofBytes ((body.drop 36).take 8)) ∧
      List.Forall₂ (fun key balance => ∃ body, fetch store key = .ok body ∧ body.length = 165 ∧
        balance = Word.u64.ofBytes ((body.drop 64).take 8)) vaults valuation.vaultBalances) ∧
    (∀ shareMint accounts, counted → fetch store mint = .ok (Mint.layout.encode shareMint) →
      List.Forall₂ (fun key account => fetch store key = .ok (TokenAccount.layout.encode account)) vaults accounts →
      ∃ valuation quantities, report = .ok (valuation, quantities) ∧
        Shows shareMint accounts shares rounding valuation quantities) := by
  refine ⟨fun _ => basket_eq_error_iff, fun miscounted => ⟨fun other mint' => ?miscounted, rfl⟩,
    fun fault refused => ?valued, fun _ _ => basket_eq_ok_iff, fun valuation quantities reported => ?stored,
    fun shareMint accounts counted minted held => ?written⟩
  case miscounted => exact basket_eq_error_iff.mpr (.inl ⟨miscounted, rfl⟩)
  case valued =>
    rcases basket_eq_error_iff.mp refused with ⟨-, other⟩ | ⟨-, first, other, -⟩
    · cases other
    · cases other
  case stored =>
    obtain ⟨supply, balances⟩ := basket_reads_stored_words reported
    obtain ⟨-, shareMint, accounts, -, held, shown⟩ := basket_eq_ok_iff.mp reported
    exact ⟨balances.length_eq.symm, shown.length_quantities.trans held.length_eq.symm, supply, balances⟩
  case written =>
    have small : TokenAccount.layout.size < addressLimit := by decide
    exact basket_of_holds counted (holds_of_fetch_encode minted (by decide))
      (held.imp fun _ _ stored => holds_of_fetch_encode stored small) shares rounding

/-- Two of three shares of a pool with ten and five units, and the same pool with three vaults. -/
theorem basket_shows_what_is_stored_two_vaults :
    let key (n : UInt8) : Pubkey := Block.fill 32 n
    let shareMint : Mint := { (default : Mint) with supply := 3 }
    let vault (amount : UInt64) : TokenAccount := { (default : TokenAccount) with amount := amount }
    let store : MemoryStore := ⟨[(key 1, Mint.layout.encode shareMint),
      (key 2, TokenAccount.layout.encode (vault 10)), (key 3, TokenAccount.layout.encode (vault 5))], by decide⟩
    (∃ valuation quantities, Report.basket store (key 1) [key 3, key 2] 2 .up = .ok (valuation, quantities) ∧
      valuation.kind = .mega ∧ valuation.vaultBalances = [5, 10] ∧
      quantities.amountAt 0 = 4 ∧ quantities.amountAt 1 = 7) ∧
    Report.basket store (key 1) [key 2, key 3, key 2] 2 .up = .error (.vaultCount 3) := by
  intro key shareMint vault store
  obtain ⟨-, -, -, -, -, written⟩ := basket_shows_what_is_stored store (key 1) [key 3, key 2] 2 .up
  obtain ⟨-, miscounted, -⟩ := basket_shows_what_is_stored store (key 1) [key 2, key 3, key 2] 2 .up
  have stored {key : Pubkey} {body : Bytes} (member : (key, body) ∈ store.accounts.entries) :
      fetch store key = .ok body := MemoryStore.fetch_eq_ok_iff.mpr (Catalog.get?_eq_some_iff.mpr member)
  constructor
  · obtain ⟨valuation, quantities, reported, shown⟩ := written shareMint [vault 5, vault 10] (.inr rfl)
      (stored (.head _)) (.cons (stored (.tail _ (.tail _ (.head _)))) (.cons (stored (.tail _ (.head _))) .nil))
    refine ⟨valuation, quantities, reported, shown.kind_eq, shown.vaultBalances_eq, ?_, ?_⟩
    · exact (shown.amountAt_eq 0 (by decide)).trans (by decide)
    · exact (shown.amountAt_eq 1 (by decide)).trans (by decide)
  · exact (miscounted (by decide)).1 store (key 1)

end Report

end StakePool
