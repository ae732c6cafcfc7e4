import StakePool.Proofs.Dump
import StakePool.Proofs.Pubkey
import StakePool.Store.Directory
import StakePool.Store.Memory

/-!
# What stores have in common

A lawful store finds what it kept last under a key, leaves other keys alone, can always replace an account by one of the
same length, and is left alone by what it refuses to keep. Accounts in memory and in a directory are both lawful; the
latter because a key is read from the name of its dump file (`DirectoryStore.keyOfName?_fileName`) and a body from its
dump.
-/

namespace StakePool

open AccountStore

namespace AccountStore

variable {σ α : Type} {store store' : σ} {result : EStateM.Result StoreFault σ α}

theorem run_liftExcept {α : Type} (x : Except StoreFault α) (store : σ) :
    (liftExcept x : EStateM StoreFault σ α).run store = match x with
      | .error fault => .error fault store
      | .ok a => .ok a store := by
  cases x with
  | error fault => rfl
  | ok a => rfl

theorem completed_eq_ok_iff {a : α} : completed result = .ok (a, store) ↔ result = .ok a store := by
  cases result with
  | ok b last => simp [completed]
  | error fault last => simp [completed]

theorem persist_eq_ok_iff_keep [AccountStore σ] {key : Pubkey} {bytes : Bytes} :
    persist store key bytes = .ok store' ↔ (keep key bytes).run store = .ok () store' := by
  rw [persist, map_eq_ok_iff]
  constructor
  · rintro ⟨⟨_, last⟩, kept, rfl⟩
    exact completed_eq_ok_iff.mp kept
  · intro kept
    exact ⟨_, completed_eq_ok_iff.mpr kept, rfl⟩

end AccountStore

class LawfulStore (σ : Type) [AccountStore σ] : Prop where
  fetch_persist_self : ∀ {store store' : σ} {key : Pubkey} {bytes : Bytes},
    persist store key bytes = .ok store' → fetch store' key = .ok bytes
  fetch_persist_of_ne : ∀ {store store' : σ} {key other : Pubkey} {bytes : Bytes},
    persist store key bytes = .ok store' → other ≠ key → fetch store' other = fetch store other
  persist_of_fetch : ∀ {store : σ} {key : Pubkey} {bytes old : Bytes},
    fetch store key = .ok old → bytes.length = old.length → ∃ store', persist store key bytes = .ok store'
  keep_of_error : ∀ {store store' : σ} {key : Pubkey} {bytes : Bytes} {fault : StoreFault},
    (keep key bytes).run store = .error fault store' → store' = store

/-! ### Memory -/

namespace MemoryStore

theorem fetch_eq (store : MemoryStore) (key : Pubkey) :
    fetch store key = match store.accounts.get? key with
      | none => .error (.accountNotFound key)
      | some bytes => .ok bytes := rfl

theorem fetch_eq_ok_iff {store : MemoryStore} {key : Pubkey} {bytes : Bytes} :
    fetch store key = .ok bytes ↔ store.accounts.get? key = some bytes := by
  rw [fetch_eq]
  cases store.accounts.get? key with
  | none => simp
  | some found => simp

theorem persist_eq (store : MemoryStore) (key : Pubkey) (bytes : Bytes) :
    persist store key bytes = .ok ⟨store.accounts.insert key bytes⟩ := rfl

instance : LawfulStore MemoryStore where
  fetch_persist_self := by
    intro store store' key bytes kept
    obtain rfl := Except.ok.inj kept
    rw [fetch_eq, Catalog.get?_insert_self]
  fetch_persist_of_ne := by
    intro store store' key other bytes kept ne
    obtain rfl := Except.ok.inj kept
    rw [fetch_eq, fetch_eq, Catalog.get?_insert_of_ne _ ne]
  persist_of_fetch := fun _ _ => ⟨_, persist_eq ..⟩
  keep_of_error := by
    intro store store' key bytes fault refused
    cases refused

end MemoryStore

/-! ### Directories -/

namespace DirectoryStore

theorem keyOfName?_fileName (key : Pubkey) : keyOfName? (fileName key) = some key := by
  have name : (fileName key).toList = key.toBase58.toList ++ suffix := String.toList_ofList
  have split : (key.toBase58.toList ++ suffix).length - suffix.length = key.toBase58.toList.length := by
    rw [List.length_append, Nat.add_sub_cancel]
  unfold keyOfName?
  dsimp only
  rw [name, split, List.drop_left, List.take_left, if_pos rfl, String.ofList_toList, Pubkey.parse_toBase58]
  rfl

theorem fileName_injective {a b : Pubkey} (same : fileName a = fileName b) : a = b := by
  have key := keyOfName?_fileName a
  rw [same, keyOfName?_fileName b] at key
  exact (Option.some.inj key).symm

variable {store store' : DirectoryStore} {key : Pubkey} {bytes : Bytes}

theorem fetch_eq (store : DirectoryStore) (key : Pubkey) :
    fetch store key = match store.directory.get? (fileName key) with
      | none => .error (.accountNotFound key)
      | some .directory => .error (.file .notMappable)
      | some (.file contents) => Dump.read contents := rfl

theorem fetch_eq_ok_iff :
    fetch store key = .ok bytes ↔
      ∃ contents, store.directory.get? (fileName key) = some (.file contents) ∧ Dump.read contents = .ok bytes := by
  rw [fetch_eq]
  cases store.directory.get? (fileName key) with
  | none => simp
  | some entry =>
    cases entry with
    | directory => simp
    | file contents => simp

/-- Both checks stand in front of the writing. -/
theorem run_keep (store : DirectoryStore) (key : Pubkey) (bytes : Bytes) :
    (keep key bytes).run store = match Dump.write bytes with
      | .error fault => .error fault store
      | .ok contents =>
        if store.directory.get? (fileName key) = some .directory then
          .error (.file .isDirectory) store
        else
          .ok () ⟨store.directory.insert (fileName key) (.file contents)⟩ := by
  have steps : (keep key bytes : EStateM StoreFault DirectoryStore Unit) = (do
      let contents ← liftExcept (Dump.write bytes)
      if (← get).directory.get? (fileName key) = some .directory then
        throw (.file .isDirectory)
      modify fun s => ⟨s.directory.insert (fileName key) (.file contents)⟩) := rfl
  rw [steps]
  cases Dump.write bytes with
  | error fault => rfl
  | ok contents =>
    by_cases taken : store.directory.get? (fileName key) = some .directory
    · simp [liftExcept, taken]
    · simp [liftExcept, taken]

theorem persist_eq_ok_iff :
    persist store key bytes = .ok store' ↔
      store.directory.get? (fileName key) ≠ some .directory ∧
        ∃ contents, Dump.write bytes = .ok contents ∧
          store' = ⟨store.directory.insert (fileName key) (.file contents)⟩ := by
  rw [persist_eq_ok_iff_keep, run_keep]
  cases Dump.write bytes with
  | error fault => simp
  | ok contents =>
    by_cases taken : store.directory.get? (fileName key) = some .directory
    · simp [taken]
    · simp [taken, eq_comm]

instance : LawfulStore DirectoryStore where
  fetch_persist_self := by
    intro store store' key bytes kept
    obtain ⟨-, contents, written, rfl⟩ := persist_eq_ok_iff.mp kept
    exact fetch_eq_ok_iff.mpr ⟨contents, Catalog.get?_insert_self _ _ _, Dump.read_eq_ok_iff_write.mpr written⟩
  fetch_persist_of_ne := by
    intro store store' key other bytes kept ne
    obtain ⟨-, contents, -, rfl⟩ := persist_eq_ok_iff.mp kept
    rw [fetch_eq, fetch_eq, Catalog.get?_insert_of_ne _ fun same => ne (fileName_injective same)]
  persist_of_fetch := by
    intro store key bytes old fetched same
    obtain ⟨contents, found, read⟩ := fetch_eq_ok_iff.mp fetched
    have short : bytes.length < 0x100000000 := by
      rw [same]
      exact Dump.exists_write_iff.mp ⟨contents, Dump.read_eq_ok_iff_write.mp read⟩
    obtain ⟨file, written⟩ := Dump.exists_write_iff.mpr short
    exact ⟨_, persist_eq_ok_iff.mpr ⟨by simp [found], file, written, rfl⟩⟩
  keep_of_error := by
    intro store store' key bytes fault refused
    rw [run_keep] at refused
    cases written : Dump.write bytes with
    | error first =>
      rw [written] at refused
      exact (EStateM.Result.error.inj refused).2.symm
    | ok contents =>
      rw [written] at refused
      dsimp only at refused
      split at refused
      · exact (EStateM.Result.error.inj refused).2.symm
      · cases refused

end DirectoryStore

end StakePool
