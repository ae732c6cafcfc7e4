import StakePool.Proofs.Accounts
import StakePool.Proofs.Store.Append
import StakePool.Proofs.Store.Listing
import StakePool.Proofs.Text.Faults
import StakePool.Report.Accounts

/-!
# The report on all accounts and what is stored

The report has a row for each key of a store, whatever state the accounts are in (`Report.rowFor`). A length tells what
an account holds before it is decoded, so that decoding fails for a field, if at all
(`AccountKind.describe_detect_eq_error`).
-/

namespace StakePool

open AccountStore

/-! ### Kinds and lengths -/

namespace AccountKind

variable {kind : AccountKind} {size length : Nat}

def size? : AccountKind → Option Nat
  | vesting => some 210
  | rewardVendor => some 86
  | mint => some 82
  | token => some 165
  | rewardQueue => some 72536
  | unknown => none

theorem detect_eq (length : Nat) :
    detect length =
      if length = 210 then vesting else if length = 86 then rewardVendor else if length = 82 then mint
      else if length = 165 then token else if length = 72536 then rewardQueue else unknown := rfl

theorem detect_eq_iff (known : kind.size? = some size) : detect length = kind ↔ length = size := by
  rw [detect_eq]
  cases kind with
  | unknown => cases known
  | _ =>
    obtain rfl := Option.some.inj known
    grind

theorem name_injective {kind' : AccountKind} (same : kind.name = kind'.name) : kind = kind' := by
  revert same
  cases kind <;> cases kind' <;> decide

/-- The name of what an account of this length holds. -/
def nameOf (length : Nat) : String :=
  if length = 210 then "Vesting" else if length = 86 then "LockedRewardVendor" else if length = 82 then "Mint"
  else if length = 165 then "TokenAccount" else if length = 72536 then "RewardEventQueue" else "Unknown"

theorem name_detect (length : Nat) : (detect length).name = nameOf length := by
  rw [detect_eq, nameOf]
  simp only [apply_ite name]
  rfl

theorem detect_eq_rewardQueue_iff : detect length = rewardQueue ↔ length = 72536 := detect_eq_iff rfl

theorem detect_eq_unknown_iff : detect length = unknown ↔ length ∉ [210, 86, 82, 165, 72536] := by
  rw [detect_eq]
  grind

/-- Accounts of this kind are as long as such a record, and are described by a line on it. -/
structure Covers {α : Type} (kind : AccountKind) (size : Nat) (l : Layout α) (line : α → String) : Prop where
  detect_iff : ∀ length, detect length = kind ↔ length = size
  describe_ok_iff : ∀ body text, describe kind body = .ok text ↔ ∃ a, l.decodeExact body = .ok a ∧ text = line a
  describe_error_iff : ∀ body fault, describe kind body = .error fault ↔ l.decodeExact body = .error fault
  detect_encode : ∀ a, detect (l.encode a).length = kind
  describe_encode : ∀ a, describe kind (l.encode a) = .ok (line a)

theorem covers {α : Type} {l : Layout α} {line : α → String} (known : kind.size? = some size) (sized : l.size = size)
    (small : l.size < addressLimit) (same : ∀ body, describe kind body = line <$> l.decodeExact body) :
    kind.Covers size l line where
  detect_iff length := detect_eq_iff known
  describe_ok_iff body text := by rw [same, map_eq_ok_iff]
  describe_error_iff body fault := by rw [same, map_eq_error_iff]
  detect_encode a := (detect_eq_iff known).mpr ((Layout.length_encode l a).trans sized)
  describe_encode a := by
    rw [same, Layout.decodeExact_encode l a small]
    rfl

theorem covers_vesting : vesting.Covers 210 Vesting.layout Vesting.summary :=
  covers rfl rfl (by decide) fun _ => rfl

theorem covers_rewardVendor : rewardVendor.Covers 86 RewardVendor.layout RewardVendor.summary :=
  covers rfl rfl (by decide) fun _ => rfl

theorem covers_mint : mint.Covers 82 Mint.layout Mint.summary := covers rfl rfl (by decide) fun _ => rfl

theorem covers_token : token.Covers 165 TokenAccount.layout TokenAccount.summary :=
  covers rfl rfl (by decide) fun _ => rfl

/-! ### Describing what is there -/

variable {body : Bytes} {fault : Fault}

theorem Covers.exists_field {α : Type} {l : Layout α} {line : α → String} {checks : List Check}
    (covers : kind.Covers size l line) (record : l.DecodesBy size checks) (sized : body.length = size)
    (failed : describe kind body = .error fault) : ∃ offset field value, fault = .fieldOutOfRange offset field value := by
  have refused := (covers.describe_error_iff body fault).mp failed
  obtain ⟨c, -, same, -⟩ := record.first_fault body fault sized refused
  exact ⟨_, _, _, same⟩

theorem exists_describe_queue (sized : body.length = 72536) :
    ∃ queue, RewardQueue.ofBytes body = .ok queue ∧ describe rewardQueue body = .ok (RewardQueue.summary queue) := by
  obtain ⟨queue, opened⟩ := RewardQueue.exists_ofBytes_iff.mpr sized
  exact ⟨queue, opened, map_eq_ok_iff.mpr ⟨queue, opened, rfl⟩⟩

theorem exists_describe_detect (plain : body.length ∉ [210, 86, 82, 165]) :
    ∃ line, describe (detect body.length) body = .ok line := by
  by_cases queue : body.length = 72536
  · obtain ⟨_, -, described⟩ := exists_describe_queue queue
    rw [detect_eq_rewardQueue_iff.mpr queue]
    exact ⟨_, described⟩
  · have unknown : detect body.length = unknown := detect_eq_unknown_iff.mpr (by grind)
    rw [unknown]
    exact ⟨"", rfl⟩

theorem describe_detect_eq_error (failed : describe (detect body.length) body = .error fault) :
    ∃ offset field value, fault = .fieldOutOfRange offset field value := by
  cases kind : detect body.length with
  | vesting =>
    rw [kind] at failed
    exact covers_vesting.exists_field Vesting.decodesBy ((covers_vesting.detect_iff _).mp kind) failed
  | rewardVendor =>
    rw [kind] at failed
    exact covers_rewardVendor.exists_field RewardVendor.decodesBy ((covers_rewardVendor.detect_iff _).mp kind) failed
  | mint =>
    rw [kind] at failed
    exact covers_mint.exists_field Mint.decodesBy ((covers_mint.detect_iff _).mp kind) failed
  | token =>
    rw [kind] at failed
    exact covers_token.exists_field TokenAccount.decodesBy ((covers_token.detect_iff _).mp kind) failed
  | rewardQueue =>
    obtain ⟨_, -, described⟩ := exists_describe_queue (detect_eq_rewardQueue_iff.mp kind)
    rw [kind, described] at failed
    cases failed
  | unknown =>
    rw [kind] at failed
    cases failed

end AccountKind

/-! ### Keys -/

theorem MemoryStore.keys_ascend (store : MemoryStore) : (keys store).Pairwise fun a b => a.bytes < b.bytes :=
  Pubkey.pairwise_lt_sort store.accounts.nodup

theorem MemoryStore.mem_keys_iff {store : MemoryStore} {key : Pubkey} :
    key ∈ keys store ↔ ∃ body, fetch store key = .ok body := by
  have listed : key ∈ keys store ↔ key ∈ store.accounts.keys := Pubkey.mem_sort
  rw [listed, ← not_iff_not, ← Catalog.get?_eq_none_iff]
  simp only [MemoryStore.fetch_eq_ok_iff, not_exists]
  exact Option.eq_none_iff_forall_ne_some

/-! ### Damaged dumps -/

/-- Why an account that is listed cannot be fetched, and how that is said. -/
inductive Damage : StoreFault → String → Prop
  | directory : Damage (.file .notMappable) "IO error: No such device (os error 19)"
  | magic : Damage .invalidMagic "Invalid magic bytes in account dump"
  | version (found : UInt32) :
    Damage (.unsupportedVersion found) ("Unsupported dump version " ++ toString found.toNat)
  | length (declared found : Nat) :
    Damage (.truncated declared found)
      ("Truncated dump: header declares " ++ toString declared ++ " bytes, found " ++ toString found)
  | checksum (expected found : UInt64) :
    Damage (.checksumMismatch expected found)
      ("Checksum mismatch: expected " ++ toString expected.toNat ++ ", found " ++ toString found.toNat)

theorem StoreFault.IsFormat.damage {fault : StoreFault} (format : fault.IsFormat) : Damage fault fault.message := by
  cases fault with
  | invalidMagic => exact .magic
  | unsupportedVersion found => exact .version found
  | truncated declared found => exact .length declared found
  | checksumMismatch expected found => exact .checksum expected found
  | accountNotFound => exact format.elim
  | file => exact format.elim
  | layout => exact format.elim

theorem DirectoryStore.damage_of_listed {store : DirectoryStore} {key : Pubkey} {fault : StoreFault}
    (listed : key ∈ keys store) (failed : fetch store key = .error fault) : Damage fault fault.message := by
  obtain ⟨entry, found⟩ := exists_entry_iff.mpr listed
  cases entry with
  | directory =>
    obtain rfl := Except.error.inj (failed.symm.trans (fetch_of_directory found))
    exact .directory
  | file contents => exact (Dump.isFormat_of_read ((fetch_of_file found).symm.trans failed)).damage

/-! ### Rows -/

namespace Report

open AccountKind (detect nameOf)

/-- The row of an account that cannot be fetched says so and why, and that of any other account what it holds, or which
field of it is refused. -/
structure RowFor {σ : Type} [AccountStore σ] (store : σ) (key : Pubkey) (row : List String) : Prop where
  damaged_iff : ∀ text, row = [key.toBase58, "-", "CORRUPT", text] ↔
    ∃ fault, fetch store key = .error fault ∧ text = fault.message
  damaged_for : ∀ fault, row = [key.toBase58, "-", "CORRUPT", fault.message] → fetch store key = .error fault
  described : ∀ body line, fetch store key = .ok body → describe (detect body.length) body = .ok line →
    row = [key.toBase58, toString body.length, nameOf body.length, line]
  refused : ∀ body fault, fetch store key = .ok body → describe (detect body.length) body = .error fault →
    ∃ field offset value, fault = .fieldOutOfRange offset field value ∧
      row = [key.toBase58, toString body.length, nameOf body.length, "decode failed: " ++
        ("field `" ++ field ++ "` at offset " ++ toString offset ++ " out of range: " ++ toString value.toNat)]

theorem accountRow_eq_damaged_iff {σ : Type} [AccountStore σ] {store : σ} {key : Pubkey} {text : String} :
    accountRow store key = [key.toBase58, "-", "CORRUPT", text] ↔
      ∃ fault, fetch store key = .error fault ∧ text = fault.message := by
  unfold accountRow
  cases fetch store key with
  | error fault => simp [eq_comm]
  | ok body =>
    have named (kind : AccountKind) : kind.name ≠ "CORRUPT" := by cases kind <;> decide
    simp [named]

theorem rowFor {σ : Type} [AccountStore σ] (store : σ) (key : Pubkey) : RowFor store key (accountRow store key) where
  damaged_iff text := accountRow_eq_damaged_iff
  damaged_for fault same := by
    obtain ⟨found, failed, text⟩ := accountRow_eq_damaged_iff.mp same
    rw [StoreFault.message_injective text, failed]
  described body line fetched shown := by
    unfold accountRow
    simp only [fetched, shown, AccountKind.name_detect]
  refused body fault fetched failed := by
    obtain ⟨offset, field, value, rfl⟩ := AccountKind.describe_detect_eq_error failed
    refine ⟨field, offset, value, rfl, ?_⟩
    unfold accountRow
    simp only [fetched, failed, AccountKind.name_detect]
    rfl

end Report

end StakePool
