import StakePool.Proofs.Store.Requests

/-!
# Memory and directories

A store in memory and one in a directory that start empty give the same answers to all requests. The invariant is
`Mirrors`: the same accounts are found, and the directory lists a dump for each of them and nothing else. The order in
which the two list their accounts does not matter, for `Pubkey.sort_eq_of_perm`.
-/

namespace StakePool

open AccountStore

/-! ### The invariant -/

structure Mirrors (memory : MemoryStore) (dumps : DirectoryStore) : Prop where
  listing : dumps.directory.keys.Perm (memory.accounts.keys.map DirectoryStore.fileName)
  fetch_eq : ∀ key, fetch dumps key = fetch memory key

namespace Mirrors

variable {memory : MemoryStore} {dumps : DirectoryStore}

theorem empty : Mirrors .empty ⟨.empty⟩ where
  listing := .nil
  fetch_eq _ := rfl

theorem keys_eq (mirrors : Mirrors memory dumps) : keys dumps = keys memory := by
  have read : DirectoryStore.keyOfName? ∘ DirectoryStore.fileName = some := by
    funext key
    rw [Function.comp_apply, DirectoryStore.keyOfName?_fileName]
  have names : (memory.accounts.keys.map DirectoryStore.fileName).filterMap DirectoryStore.keyOfName? =
      memory.accounts.keys := by
    rw [List.filterMap_map, read, List.filterMap_some]
  have perm := mirrors.listing.filterMap DirectoryStore.keyOfName?
  rw [names] at perm
  exact Pubkey.sort_eq_of_perm perm

theorem mem_directory_iff (mirrors : Mirrors memory dumps) (key : Pubkey) :
    DirectoryStore.fileName key ∈ dumps.directory.keys ↔ key ∈ memory.accounts.keys := by
  rw [mirrors.listing.mem_iff, List.mem_map]
  constructor
  · rintro ⟨other, member, same⟩
    exact DirectoryStore.fileName_injective same ▸ member
  · exact fun member => ⟨key, member, rfl⟩

/-- Both stores take an account whose length a dump can declare. -/
theorem persist (mirrors : Mirrors memory dumps) (key : Pubkey) {bytes : Bytes} (short : bytes.length < 0x100000000) :
    ∃ memory' dumps', AccountStore.persist memory key bytes = .ok memory' ∧
      AccountStore.persist dumps key bytes = .ok dumps' ∧ Mirrors memory' dumps' := by
  -- A directory under this name would be a fault to read, and in memory there is no such fault.
  have free : dumps.directory.get? (DirectoryStore.fileName key) ≠ some .directory := by
    intro taken
    have found := mirrors.fetch_eq key
    rw [DirectoryStore.fetch_eq, taken, MemoryStore.fetch_eq] at found
    cases known : memory.accounts.get? key with
    | none => simp [known] at found
    | some bytes => simp [known] at found
  obtain ⟨contents, written⟩ := Dump.exists_write_iff.mpr short
  have inMemory : AccountStore.persist memory key bytes = .ok ⟨memory.accounts.insert key bytes⟩ := rfl
  have inDumps := DirectoryStore.persist_eq_ok_iff.mpr ⟨free, contents, written, rfl⟩
  refine ⟨_, _, inMemory, inDumps, ?listing, fun other => ?found⟩
  case listing =>
    dsimp only
    rw [Catalog.keys_insert, Catalog.keys_insert]
    simp only [mirrors.mem_directory_iff]
    split
    · exact mirrors.listing
    · rw [List.map_append]
      exact mirrors.listing.append_right _
  case found =>
    by_cases same : other = key
    · rw [same, LawfulStore.fetch_persist_self inDumps, LawfulStore.fetch_persist_self inMemory]
    · rw [LawfulStore.fetch_persist_of_ne inDumps same, LawfulStore.fetch_persist_of_ne inMemory same,
        mirrors.fetch_eq]

theorem accountTable_eq (mirrors : Mirrors memory dumps) : Report.accountTable dumps = Report.accountTable memory := by
  have row : Report.accountRow dumps = Report.accountRow memory :=
    funext fun key => accountRow_congr (mirrors.fetch_eq key)
  rw [Report.accountTable, Report.accountTable, mirrors.keys_eq, row]

theorem respond (mirrors : Mirrors memory dumps) {r : Request}
    (short : ∀ key bytes, r = .persist key bytes → bytes.length < 0x100000000) :
    (AccountStore.respond dumps r).1 = (AccountStore.respond memory r).1 ∧
      Mirrors (AccountStore.respond memory r).2 (AccountStore.respond dumps r).2 := by
  cases r with
  | persist key bytes =>
    obtain ⟨memory', dumps', inMemory, inDumps, next⟩ := mirrors.persist key (short key bytes rfl)
    rw [respond_persist_of_ok inMemory, respond_persist_of_ok inDumps]
    exact ⟨rfl, next⟩
  | appendRewardEvent key event =>
    have same := mirrors.fetch_eq key
    cases taken : extended (fetch memory key) event with
    | error fault =>
      rw [respond_append_of_error taken, respond_append_of_error (same ▸ taken)]
      exact ⟨rfl, mirrors⟩
    | ok next =>
      obtain ⟨cursor, queue⟩ := next
      have short : (Ring.toBytes queue).length < 0x100000000 := by
        rw [RewardQueue.length_toBytes]
        decide
      obtain ⟨memory', dumps', inMemory, inDumps, next⟩ := mirrors.persist key short
      obtain ⟨_, keptM, respondedM⟩ := respond_append_of_ok taken
      obtain ⟨_, keptD, respondedD⟩ := respond_append_of_ok (same ▸ taken)
      obtain rfl := Except.ok.inj (keptM.symm.trans inMemory)
      obtain rfl := Except.ok.inj (keptD.symm.trans inDumps)
      rw [respondedM, respondedD]
      exact ⟨rfl, next⟩
  | fetch key => exact ⟨mirrors.fetch_eq key, mirrors⟩
  | load l key => exact ⟨load_congr (mirrors.fetch_eq key) l, mirrors⟩
  | events key since => exact ⟨events_congr (mirrors.fetch_eq key) since, mirrors⟩
  | keys => exact ⟨mirrors.keys_eq, mirrors⟩
  | accountTable => exact ⟨mirrors.accountTable_eq, mirrors⟩
  | basket mint vaults shares rounding => exact ⟨basket_congr mirrors.fetch_eq mint vaults shares rounding, mirrors⟩

theorem answers_eq (mirrors : Mirrors memory dumps) {requests : List Request}
    (short : ∀ key bytes, .persist key bytes ∈ requests → bytes.length < 0x100000000) :
    answers dumps requests = answers memory requests := by
  induction requests generalizing memory dumps with
  | nil => rfl
  | cons r requests ih =>
    obtain ⟨answer, next⟩ := mirrors.respond (r := r) fun key bytes first => short key bytes (first ▸ .head _)
    rw [answers, answers, answer, ih next fun key bytes later => short key bytes (.tail _ later)]

end Mirrors

/-- Whatever is asked of them, an empty directory and an empty store in memory give the same answers, as long as every
account that they are to keep is shorter than 4 GiB. -/
theorem directory_answers_like_memory (requests : List Request)
    (short : ∀ key bytes, .persist key bytes ∈ requests → bytes.length < 0x100000000) :
    answers (⟨.empty⟩ : DirectoryStore) requests = answers MemoryStore.empty requests :=
  Mirrors.empty.answers_eq short

theorem directory_answers_like_memory_replaced :
    let first : Pubkey := ⟨List.replicate 32 1, rfl⟩
    let second : Pubkey := ⟨List.replicate 32 2, rfl⟩
    let requests : List Request :=
      [.fetch first, .persist second [5], .persist first [1, 2], .persist second [7, 8, 9], .keys, .fetch second,
        .load Mint.layout first]
    (∀ key bytes, .persist key bytes ∈ requests → bytes.length < 0x100000000) ∧
      answers (⟨.empty⟩ : DirectoryStore) requests =
        [⟨.fetch first, Except.error (.accountNotFound first)⟩, ⟨.persist second [5], Except.ok ()⟩,
          ⟨.persist first [1, 2], Except.ok ()⟩, ⟨.persist second [7, 8, 9], Except.ok ()⟩, ⟨.keys, [first, second]⟩,
          ⟨.fetch second, Except.ok [7, 8, 9]⟩,
          ⟨.load Mint.layout first, Except.error (.layout (.sizeMismatch 82 2))⟩] := by
  intro first second requests
  have short : ∀ key bytes, .persist key bytes ∈ requests → bytes.length < 0x100000000 := by
    intro key bytes member
    simp [requests] at member
    rcases member with ⟨-, rfl⟩ | ⟨-, rfl⟩ | ⟨-, rfl⟩
    all_goals decide
  have sorted : Pubkey.sort [second, first] = [first, second] :=
    (Pubkey.sort_eq_of_perm (.swap first second [])).trans (List.mergeSort_of_pairwise (by decide))
  refine ⟨short, (directory_answers_like_memory requests short).trans ?_⟩
  show [_, _, _, _, (⟨.keys, Pubkey.sort [second, first]⟩ : (r : Request) × r.Answer), _, _] = _
  rw [sorted]
  rfl

end StakePool
