import StakePool.Proofs.Store.Lawful

/-!
# The keys of a directory

A directory lists the keys whose dump files it holds, in ascending order, whatever else lies in it and in whatever order
its names come. `DirectoryStore.keyOfName?_eq_some_iff` is what this rests on: one name for each key, one key for each
name. `DirectoryStore.listed_keys_are_fetched` adds what fetching a key gives, listed or not.
-/

namespace StakePool

open AccountStore

/-! ### Faults of a dump -/

/-- The faults that lie in the contents of a dump, and not in the file that should hold it. -/
def StoreFault.IsFormat : StoreFault → Prop
  | .invalidMagic | .unsupportedVersion _ | .truncated _ _ | .checksumMismatch _ _ => True
  | .accountNotFound _ | .file _ | .layout _ => False

namespace Dump

variable {contents body : Bytes} {fault : StoreFault}

theorem eq_of_mem_report {wrong : Prop} [Decidable wrong] {reason : StoreFault} (member : fault ∈ report wrong reason) :
    fault = reason := by
  unfold report at member
  split at member
  · exact List.mem_singleton.mp member
  · cases member

theorem isFormat_of_mem_defects (member : fault ∈ defects contents) : fault.IsFormat := by
  unfold defects at member
  simp only [List.mem_append] at member
  rcases member with length | magic | version | declared | checksum
  · exact eq_of_mem_report length ▸ trivial
  · exact eq_of_mem_report magic ▸ trivial
  · exact eq_of_mem_report version ▸ trivial
  · exact eq_of_mem_report declared ▸ trivial
  · exact eq_of_mem_report checksum ▸ trivial

theorem isFormat_of_read (refused : read contents = .error fault) : fault.IsFormat :=
  isFormat_of_mem_defects (List.mem_of_mem_head? (Option.mem_def.mpr (read_eq_error_iff.mp refused)))

theorem read_eq_ok_iff_header :
    read contents = .ok body ↔ ∃ header, DumpHeader.ofBody body = .ok header ∧ contents = header.toBytes ++ body := by
  rw [read_eq_ok_iff_write, write_eq_ok_iff]

end Dump

namespace DirectoryStore

variable {name : String} {names : List String} {key : Pubkey} {store other : DirectoryStore}

/-! ### Names of dump files -/

theorem fileName_eq (key : Pubkey) : fileName key = key.toBase58 ++ ".acct" := by
  show String.ofList (key.toBase58.toList ++ ".acct".toList) = _
  rw [← String.toList_append, String.ofList_toList]

/-- A name stands for a key only if it is the name that the key is kept under. -/
theorem keyOfName?_eq_some_iff : keyOfName? name = some key ↔ name = fileName key := by
  constructor
  · intro read
    unfold keyOfName? at read
    dsimp only at read
    split at read
    · rename_i ending
      have stem := Pubkey.parse_eq_ok_iff.mp (toOption_eq_some_iff.mp read)
      have whole := List.take_append_drop (name.toList.length - suffix.length) name.toList
      rw [ending] at whole
      rw [fileName, ← stem, String.toList_ofList, whole, String.ofList_toList]
    · cases read
  · rintro rfl
    exact keyOfName?_fileName key

theorem mem_filterMap_keyOfName? : key ∈ names.filterMap keyOfName? ↔ fileName key ∈ names := by
  simp only [List.mem_filterMap, keyOfName?_eq_some_iff]
  constructor
  · rintro ⟨name, member, rfl⟩
    exact member
  · exact fun member => ⟨_, member, rfl⟩

theorem nodup_filterMap_keyOfName? (distinct : names.Nodup) : (names.filterMap keyOfName?).Nodup := by
  refine distinct.filterMap fun first second key ofFirst ofSecond => ?_
  exact (keyOfName?_eq_some_iff.mp ofFirst).trans (keyOfName?_eq_some_iff.mp ofSecond).symm

/-! ### Listing -/

theorem mem_keys_iff : key ∈ keys store ↔ fileName key ∈ store.directory.keys :=
  Pubkey.mem_sort.trans mem_filterMap_keyOfName?

theorem keys_ascend (store : DirectoryStore) : (keys store).Pairwise fun a b => a.bytes < b.bytes :=
  Pubkey.pairwise_lt_sort (nodup_filterMap_keyOfName? store.directory.nodup)

theorem keys_eq_of_perm (same : other.directory.entries.Perm store.directory.entries) : keys other = keys store :=
  Pubkey.sort_eq_of_perm ((same.map Prod.fst).filterMap keyOfName?)

/-! ### Fetching -/

theorem fetch_of_directory (found : (fileName key, .directory) ∈ store.directory.entries) :
    fetch store key = .error (.file .notMappable) := by
  rw [fetch_eq, Catalog.get?_eq_some_iff.mpr found]

theorem fetch_of_file {contents : Bytes} (found : (fileName key, .file contents) ∈ store.directory.entries) :
    fetch store key = Dump.read contents := by
  rw [fetch_eq, Catalog.get?_eq_some_iff.mpr found]

theorem fetch_of_not_listed (absent : key ∉ keys store) : fetch store key = .error (.accountNotFound key) := by
  rw [fetch_eq, Catalog.get?_eq_none_iff.mpr fun member => absent (mem_keys_iff.mpr member)]

theorem exists_entry_iff : (∃ entry, (fileName key, entry) ∈ store.directory.entries) ↔ key ∈ keys store := by
  rw [mem_keys_iff, Catalog.keys, List.mem_map]
  constructor
  · rintro ⟨entry, found⟩
    exact ⟨_, found, rfl⟩
  · rintro ⟨⟨name, entry⟩, found, rfl⟩
    exact ⟨entry, found⟩

theorem fetch_eq_accountNotFound_iff : fetch store key = .error (.accountNotFound key) ↔ key ∉ keys store := by
  refine ⟨fun missing listed => ?_, fetch_of_not_listed⟩
  obtain ⟨entry, found⟩ := exists_entry_iff.mpr listed
  cases entry with
  | directory =>
    rw [fetch_of_directory found] at missing
    cases missing
  | file contents =>
    rw [fetch_of_file found] at missing
    exact Dump.isFormat_of_read missing

theorem fetch_eq_ok_iff_mem {body : Bytes} :
    fetch store key = .ok body ↔
      ∃ header, DumpHeader.ofBody body = .ok header ∧
        (fileName key, .file (header.toBytes ++ body)) ∈ store.directory.entries := by
  rw [fetch_eq_ok_iff]
  constructor
  · rintro ⟨contents, found, read⟩
    obtain ⟨header, made, rfl⟩ := Dump.read_eq_ok_iff_header.mp read
    exact ⟨header, made, Catalog.get?_eq_some_iff.mp found⟩
  · rintro ⟨header, made, found⟩
    exact ⟨_, Catalog.get?_eq_some_iff.mpr found, Dump.read_eq_ok_iff_header.mpr ⟨header, made, rfl⟩⟩

theorem fetch_eq_of_perm (same : other.directory.entries.Perm store.directory.entries) :
    fetch other key = fetch store key := by
  have found : other.directory.get? (fileName key) = store.directory.get? (fileName key) := by
    refine Option.ext fun entry => ?_
    rw [Catalog.get?_eq_some_iff, Catalog.get?_eq_some_iff, same.mem_iff]
  rw [fetch_eq, fetch_eq, found]

/-- The keys of a directory ascend, are those whose dump files it has an entry for, and do not depend on the order of
its entries. Fetching tells the keys that are not listed from those whose entry is damaged or no file at all. -/
theorem listed_keys_are_fetched (store : DirectoryStore) :
    (keys store).Pairwise (fun a b => a.bytes < b.bytes) ∧
    (∀ other : DirectoryStore, other.directory.entries.Perm store.directory.entries →
      keys other = keys store ∧ ∀ key, fetch other key = fetch store key) ∧
    (∀ key, key ∈ keys store ↔ ∃ entry, (key.toBase58 ++ ".acct", entry) ∈ store.directory.entries) ∧
    (∀ key, fetch store key = .error (.accountNotFound key) ↔ key ∉ keys store) ∧
    (∀ key body, fetch store key = .ok body ↔
      ∃ header, DumpHeader.ofBody body = .ok header ∧
        (key.toBase58 ++ ".acct", .file (header.toBytes ++ body)) ∈ store.directory.entries) ∧
    (∀ key contents, (key.toBase58 ++ ".acct", .file contents) ∈ store.directory.entries →
      (¬ ∃ body header, DumpHeader.ofBody body = .ok header ∧ contents = header.toBytes ++ body) →
      ∃ fault, fault.IsFormat ∧ fetch store key = .error fault) ∧
    (∀ key, (key.toBase58 ++ ".acct", .directory) ∈ store.directory.entries →
      fetch store key = .error (.file .notMappable)) := by
  simp only [← fileName_eq]
  refine ⟨keys_ascend store, fun other same => ⟨keys_eq_of_perm same, fun key => fetch_eq_of_perm same⟩,
    fun key => exists_entry_iff.symm, fun key => fetch_eq_accountNotFound_iff, fun key body => fetch_eq_ok_iff_mem,
    fun key contents found damaged => ?_, fun key => fetch_of_directory⟩
  cases read : Dump.read contents with
  | error fault => exact ⟨fault, Dump.isFormat_of_read read, (fetch_of_file found).trans read⟩
  | ok body => exact absurd ⟨body, Dump.read_eq_ok_iff_header.mp read⟩ damaged

/-- A dump that ends within its header is listed, and damaged when it is fetched. -/
theorem listed_keys_are_fetched_damaged :
    let key : Pubkey := ⟨List.replicate 32 0, rfl⟩
    let store : DirectoryStore := ⟨(Catalog.empty.insert "notes.txt" .directory).insert (fileName key) (.file [0x53])⟩
    key ∈ keys store ∧ ∃ fault, fault.IsFormat ∧ fetch store key = .error fault := by
  intro key store
  have found : (key.toBase58 ++ ".acct", .file [0x53]) ∈ store.directory.entries :=
    Catalog.get?_eq_some_iff.mp (fileName_eq key ▸ Catalog.get?_insert_self ..)
  have damaged : ¬ ∃ body header, DumpHeader.ofBody body = .ok header ∧ [0x53] = header.toBytes ++ body := by
    rintro ⟨body, header, -, same⟩
    have size : header.toBytes.length = 20 := header.length_toBytes
    have length := congrArg List.length same
    rw [List.length_append, size, List.length_singleton] at length
    omega
  obtain ⟨-, -, listed, -, -, refused, -⟩ := listed_keys_are_fetched store
  exact ⟨(listed key).mpr ⟨_, found⟩, refused key [0x53] found damaged⟩

end DirectoryStore

end StakePool
