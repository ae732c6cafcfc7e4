import StakePool.Dump
import StakePool.Proofs.Outcome

/-!
# Canonical dumps

The files that `Dump.read` accepts are those that `Dump.write` leaves, and any other file is refused for
the first of its `Dump.defects`. Packing a header and reading its fields undo each other
(`toBytes_unpack`, `unpack_toBytes`), which is what `Dump.read_canonical` rests on.
-/

namespace StakePool

namespace DumpHeader

variable {file body : Bytes} {front : Block size} {h : DumpHeader}

/-! ### The fields of a header -/

theorem length_toBytes (h : DumpHeader) : h.toBytes.length = size := by
  simp only [toBytes, List.length_append, Word.length_bytes, h.magic.length_eq]
  rfl

theorem length_take_magic (front : Block size) : (front.bytes.take 4).length = 4 := by
  rw [List.length_take, front.length_eq]
  rfl

/-- The fields that 20 bytes hold, whatever they are. -/
def unpack (front : Block size) : DumpHeader where
  magic := ⟨front.bytes.take 4, length_take_magic front⟩
  version := Word.u32.ofBytes ((front.bytes.drop 4).take 4)
  length := Word.u32.ofBytes ((front.bytes.drop 8).take 4)
  checksum := Word.u64.ofBytes ((front.bytes.drop 12).take 8)

theorem toBytes_unpack (front : Block size) : (unpack front).toBytes = front.bytes := by
  obtain ⟨bytes, sized⟩ := front
  have version : ((bytes.drop 4).take 4).length = Word.u32.width := by simp [sized, Word.u32, size]
  have length : ((bytes.drop 8).take 4).length = Word.u32.width := by simp [sized, Word.u32, size]
  have checksum : ((bytes.drop 12).take 8).length = Word.u64.width := by simp [sized, Word.u64, size]
  unfold toBytes unpack
  dsimp only
  -- The fields lie side by side, so together they are the first 20 of the 20 bytes.
  rw [Word.bytes_ofBytes _ version, Word.bytes_ofBytes _ length, Word.bytes_ofBytes _ checksum,
    ← List.take_add, ← List.take_add, ← List.take_add]
  exact List.take_of_length_le (Nat.le_of_eq sized)

theorem take_drop_append {before field after : Bytes} {offset width : Nat}
    (start : before.length = offset) (sized : field.length = width) :
    ((before ++ (field ++ after)).drop offset).take width = field := by
  rw [List.drop_left' start, List.take_left' sized]

theorem unpack_toBytes (h : DumpHeader) : unpack ⟨h.toBytes, h.length_toBytes⟩ = h := by
  have magicSize : h.magic.bytes.length = 4 := h.magic.length_eq
  have versionSize : (Word.u32.bytes h.version).length = 4 := Word.length_bytes ..
  have lengthSize : (Word.u32.bytes h.length).length = 4 := Word.length_bytes ..
  have magic : h.toBytes.take 4 = h.magic.bytes := by
    simp only [toBytes, List.append_assoc]
    exact List.take_left' magicSize
  have version : (h.toBytes.drop 4).take 4 = Word.u32.bytes h.version := by
    simp only [toBytes, List.append_assoc]
    exact take_drop_append magicSize versionSize
  have length : (h.toBytes.drop 8).take 4 = Word.u32.bytes h.length := by
    rw [toBytes, List.append_assoc]
    exact take_drop_append (by simp [magicSize, versionSize]) lengthSize
  have checksum : (h.toBytes.drop 12).take 8 = Word.u64.bytes h.checksum := by
    rw [toBytes, ← List.append_nil (Word.u64.bytes h.checksum)]
    exact take_drop_append (by simp [magicSize, versionSize, lengthSize]) (Word.length_bytes ..)
  simp only [unpack, magic, version, length, checksum, Word.ofBytes_bytes]

theorem parse_eq (front : Block size) :
    parse front =
      if (unpack front).magic ≠ dumpMagic then .error .invalidMagic
      else if (unpack front).version ≠ dumpVersion then .error (.unsupportedVersion (unpack front).version)
      else .ok (unpack front) := rfl

theorem parse_eq_ok_iff :
    parse front = .ok h ↔ h.magic = dumpMagic ∧ h.version = dumpVersion ∧ h.toBytes = front.bytes := by
  rw [parse_eq]
  constructor
  · intro parsed
    split at parsed
    · cases parsed
    rename_i magic
    split at parsed
    · cases parsed
    rename_i version
    cases parsed
    exact ⟨Decidable.not_not.1 magic, Decidable.not_not.1 version, toBytes_unpack front⟩
  · rintro ⟨magic, version, bytes⟩
    have same : front = ⟨h.toBytes, h.length_toBytes⟩ := Block.ext bytes.symm
    rw [same, unpack_toBytes, if_neg (not_not_intro magic), if_neg (not_not_intro version)]

/-! ### Headers of files -/

theorem ofFile_of_short (short : file.length < size) : ofFile file = .error (.file .endOfFile) := by
  have unsized : (file.take size).length ≠ size := by rw [List.length_take]; omega
  rw [ofFile, Block.ofBytes?, dif_neg unsized]

theorem ofFile_of_long (sized : (file.take size).length = size) : ofFile file = parse ⟨file.take size, sized⟩ := by
  rw [ofFile, Block.ofBytes?, dif_pos sized]

theorem ofFile_eq_ok_iff :
    ofFile file = .ok h ↔ h.magic = dumpMagic ∧ h.version = dumpVersion ∧ h.toBytes = file.take size := by
  by_cases sized : (file.take size).length = size
  · rw [ofFile_of_long sized, parse_eq_ok_iff]
  · have short : file.length < size := by rw [List.length_take] at sized; omega
    rw [ofFile_of_short short]
    constructor
    · intro opened
      cases opened
    · rintro ⟨-, -, bytes⟩
      exact absurd (bytes ▸ h.length_toBytes) sized

/-- The length a header declares determines its word, and the other way round: lengths are below 4 GiB. -/
theorem ofBody_eq_ok_iff :
    ofBody body = .ok h ↔ h.magic = dumpMagic ∧ h.version = dumpVersion ∧ h.length.toNat = body.length ∧
      h.checksum = StakePool.checksum body := by
  unfold ofBody
  split
  · rename_i short
    have declared : (UInt32.ofNat body.length).toNat = body.length := by
      rw [UInt32.toNat_ofNat']
      exact Nat.mod_eq_of_lt short
    constructor
    · intro made
      cases made
      exact ⟨rfl, rfl, declared, rfl⟩
    · obtain ⟨magic, version, length, checksum⟩ := h
      rintro ⟨rfl, rfl, length_eq, rfl⟩
      have same : length = UInt32.ofNat body.length := UInt32.toNat_inj.1 (length_eq.trans declared.symm)
      rw [same]
  · rename_i long
    constructor
    · intro made
      cases made
    · rintro ⟨-, -, length_eq, -⟩
      exact absurd (length_eq ▸ h.length.toNat_lt) long

theorem length_lt_of_ofBody (made : ofBody body = .ok h) : body.length < 0x100000000 := by
  obtain ⟨-, -, declared, -⟩ := ofBody_eq_ok_iff.1 made
  exact declared ▸ h.length.toNat_lt

theorem verify_eq_ok_iff :
    h.verify body = .ok () ↔ h.length.toNat = body.length ∧ h.checksum = StakePool.checksum body := by
  unfold verify
  split
  · rename_i differs
    exact ⟨fun verified => (by cases verified), fun agrees => absurd agrees.1.symm differs⟩
  rename_i length
  split
  · rename_i differs
    exact ⟨fun verified => (by cases verified), fun agrees => absurd agrees.2.symm differs⟩
  rename_i checksum
  exact ⟨fun _ => ⟨(Decidable.not_not.1 length).symm, (Decidable.not_not.1 checksum).symm⟩, fun _ => rfl⟩

theorem verify_return (h : DumpHeader) (body : Bytes) :
    (do h.verify body; return body) =
      if h.length.toNat ≠ body.length then .error (.truncated h.length.toNat body.length)
      else if h.checksum ≠ StakePool.checksum body then .error (.checksumMismatch h.checksum (StakePool.checksum body))
      else .ok body := by
  unfold verify
  by_cases length : body.length ≠ h.length.toNat
  · rw [if_pos length, if_pos length.symm]
    rfl
  rw [if_neg length, if_neg fun differs => length (Ne.symm differs)]
  by_cases checksum : StakePool.checksum body ≠ h.checksum
  · rw [if_pos checksum, if_pos checksum.symm]
    rfl
  · rw [if_neg checksum, if_neg fun differs => checksum (Ne.symm differs)]
    rfl

end DumpHeader

namespace Dump

open DumpHeader (size dumpMagic dumpVersion)

variable {file body : Bytes} {fault : StoreFault}

/-! ### What is read -/

theorem read_of_short (short : file.length < size) : read file = .error (.truncated size file.length) := by
  have unsized : (file.take size).length ≠ size := by rw [List.length_take]; omega
  rw [read, Block.ofBytes?, dif_neg unsized]

theorem read_of_long (long : size ≤ file.length) :
    read file = (do
      let header ← DumpHeader.ofFile file
      header.verify (file.drop size)
      return file.drop size) := by
  have sized : (file.take size).length = size := List.length_take_of_le long
  rw [DumpHeader.ofFile_of_long sized, read, Block.ofBytes?, dif_pos sized]

theorem read_eq_ok_iff :
    read file = .ok body ↔
      ∃ h, DumpHeader.ofFile file = .ok h ∧ h.verify body = .ok () ∧ file.drop size = body := by
  rcases Nat.lt_or_ge file.length size with short | long
  · rw [read_of_short short, DumpHeader.ofFile_of_short short]
    constructor
    · intro accepted
      cases accepted
    · rintro ⟨_, opened, -⟩
      cases opened
  · rw [read_of_long long, bind_eq_ok_iff]
    constructor
    · rintro ⟨h, opened, accepted⟩
      obtain ⟨_, verified, rest⟩ := bind_eq_ok_iff.1 accepted
      obtain rfl := Except.ok.inj rest
      exact ⟨h, opened, verified, rfl⟩
    · rintro ⟨h, opened, verified, rfl⟩
      exact ⟨h, opened, bind_eq_ok_iff.2 ⟨(), verified, rfl⟩⟩

theorem write_eq_ok_iff :
    write body = .ok file ↔ ∃ h, DumpHeader.ofBody body = .ok h ∧ file = h.toBytes ++ body := by
  rw [write, bind_eq_ok_iff]
  constructor
  · rintro ⟨h, made, written⟩
    exact ⟨h, made, (Except.ok.inj written).symm⟩
  · rintro ⟨h, made, rfl⟩
    exact ⟨h, made, rfl⟩

/-- A file is read exactly when it was written: a header that agrees with the body is the header of the body. -/
theorem read_eq_ok_iff_write : read file = .ok body ↔ write body = .ok file := by
  rw [read_eq_ok_iff, write_eq_ok_iff]
  constructor
  · rintro ⟨h, opened, verified, rfl⟩
    obtain ⟨magic, version, bytes⟩ := DumpHeader.ofFile_eq_ok_iff.1 opened
    obtain ⟨length, checksum⟩ := DumpHeader.verify_eq_ok_iff.1 verified
    refine ⟨h, DumpHeader.ofBody_eq_ok_iff.2 ⟨magic, version, length, checksum⟩, ?_⟩
    rw [bytes, List.take_append_drop]
  · rintro ⟨h, made, rfl⟩
    obtain ⟨magic, version, length, checksum⟩ := DumpHeader.ofBody_eq_ok_iff.1 made
    have front : (h.toBytes ++ body).take size = h.toBytes := List.take_left' h.length_toBytes
    refine ⟨h, DumpHeader.ofFile_eq_ok_iff.2 ⟨magic, version, front.symm⟩, ?_, ?_⟩
    · exact DumpHeader.verify_eq_ok_iff.2 ⟨length, checksum⟩
    · exact List.drop_left' h.length_toBytes

theorem exists_write_iff : (∃ file, write body = .ok file) ↔ body.length < 0x100000000 := by
  constructor
  · rintro ⟨file, written⟩
    obtain ⟨h, made, -⟩ := write_eq_ok_iff.1 written
    exact DumpHeader.length_lt_of_ofBody made
  · intro short
    exact ⟨_, write_eq_ok_iff.2 ⟨_, if_pos short, rfl⟩⟩

/-! ### What is refused -/

def versionOf (file : Bytes) : UInt32 := Word.u32.ofBytes ((file.drop 4).take 4)

def lengthOf (file : Bytes) : UInt32 := Word.u32.ofBytes ((file.drop 8).take 4)

def checksumOf (file : Bytes) : UInt64 := Word.u64.ofBytes ((file.drop 12).take 8)

/-- A fault, when there is reason for it. -/
def report (wrong : Prop) [Decidable wrong] (fault : StoreFault) : List StoreFault :=
  if wrong then [fault] else []

/-- Everything that is wrong with a file. Each field is looked at on its own, whatever the others are. -/
def defects (file : Bytes) : List StoreFault :=
  report (file.length < size) (.truncated size file.length) ++
  (report (file.take 4 ≠ dumpMagic.bytes) .invalidMagic ++
  (report (versionOf file ≠ dumpVersion) (.unsupportedVersion (versionOf file)) ++
  (report ((lengthOf file).toNat ≠ file.length - size) (.truncated (lengthOf file).toNat (file.length - size)) ++
  report (checksumOf file ≠ checksum (file.drop size))
    (.checksumMismatch (checksumOf file) (checksum (file.drop size))))))

theorem head?_report (wrong : Prop) [Decidable wrong] (fault : StoreFault) (others : List StoreFault) :
    (report wrong fault ++ others).head? = if wrong then some fault else others.head? := by
  unfold report
  split
  · rfl
  · rfl

theorem head?_report_self (wrong : Prop) [Decidable wrong] (fault : StoreFault) :
    (report wrong fault).head? = if wrong then some fault else none := by
  rw [← List.append_nil (report wrong fault), head?_report]
  rfl

theorem unpack_take (sized : (file.take size).length = size) :
    (DumpHeader.unpack ⟨file.take size, sized⟩).magic.bytes = file.take 4 ∧
    (DumpHeader.unpack ⟨file.take size, sized⟩).version = versionOf file ∧
    (DumpHeader.unpack ⟨file.take size, sized⟩).length = lengthOf file ∧
    (DumpHeader.unpack ⟨file.take size, sized⟩).checksum = checksumOf file := by
  simp [DumpHeader.unpack, versionOf, lengthOf, checksumOf, List.drop_take, List.take_take, size]

/-- The reader meets the defects in the order they are listed in, and returns the rest of a file that has none. -/
theorem read_eq_of_defects (file : Bytes) :
    read file = match (defects file).head? with
      | some fault => .error fault
      | none => .ok (file.drop size) := by
  simp only [defects, head?_report, head?_report_self]
  rcases Nat.lt_or_ge file.length size with short | long
  · rw [read_of_short short, if_pos short]
  have sized : (file.take size).length = size := List.length_take_of_le long
  obtain ⟨magicAt, versionAt, lengthAt, checksumAt⟩ := unpack_take sized
  rw [read_of_long long, DumpHeader.ofFile_of_long sized, DumpHeader.parse_eq, if_neg (Nat.not_lt.2 long),
    ← magicAt, ← versionAt, ← lengthAt, ← checksumAt, ← List.length_drop]
  generalize DumpHeader.unpack ⟨file.take size, sized⟩ = h
  -- From here on both sides compare the same things in the same order.
  by_cases otherMagic : h.magic ≠ dumpMagic
  · have otherBytes : h.magic.bytes ≠ dumpMagic.bytes := fun same => otherMagic (Block.ext same)
    rw [if_pos otherMagic, if_pos otherBytes]
    rfl
  have sameBytes : ¬ h.magic.bytes ≠ dumpMagic.bytes :=
    not_not_intro (congrArg Block.bytes (Decidable.not_not.1 otherMagic))
  rw [if_neg otherMagic, if_neg sameBytes]
  by_cases otherVersion : h.version ≠ dumpVersion
  · rw [if_pos otherVersion, if_pos otherVersion]
    rfl
  rw [if_neg otherVersion, if_neg otherVersion]
  show (do h.verify (file.drop size); return file.drop size) = _
  rw [DumpHeader.verify_return]
  split
  · rfl
  split
  · rfl
  · rfl

theorem read_eq_error_iff : read file = .error fault ↔ (defects file).head? = some fault := by
  rw [read_eq_of_defects]
  cases (defects file).head? with
  | none => simp
  | some first => simp

/-- The faults that a header is refused for, before anything behind it is looked at. -/
def OfHeader (fault : StoreFault) : Prop := fault = .invalidMagic ∨ ∃ version, fault = .unsupportedVersion version

theorem ofHeader_of_parse {front : Block size} (refused : DumpHeader.parse front = .error fault) :
    OfHeader fault := by
  rw [DumpHeader.parse_eq] at refused
  split at refused
  · cases refused
    exact .inl rfl
  split at refused
  · cases refused
    exact .inr ⟨_, rfl⟩
  · cases refused

theorem not_ofHeader_of_verify {h : DumpHeader} (refused : h.verify body = .error fault) : ¬ OfHeader fault := by
  unfold DumpHeader.verify at refused
  split at refused
  · cases refused
    rintro (same | ⟨_, same⟩) <;> cases same
  split at refused
  · cases refused
    rintro (same | ⟨_, same⟩) <;> cases same
  · cases refused

/-- Reading only the header refuses what reading the whole dump refuses the header for. -/
theorem ofFile_eq_error_iff (long : size ≤ file.length) :
    DumpHeader.ofFile file = .error fault ↔ OfHeader fault ∧ read file = .error fault := by
  have sized : (file.take size).length = size := List.length_take_of_le long
  rw [read_of_long long, bind_eq_error_iff]
  constructor
  · intro refused
    exact ⟨ofHeader_of_parse (DumpHeader.ofFile_of_long sized ▸ refused), .inl refused⟩
  · rintro ⟨ofHeader, refused | ⟨h, -, refused⟩⟩
    · exact refused
    · rcases bind_eq_error_iff.1 refused with failed | ⟨_, -, failed⟩
      · exact absurd ofHeader (not_ofHeader_of_verify failed)
      · cases failed

/-- Dumps are canonical: a file is read as a body exactly when it is what writing the body leaves, any other file
is refused for its first defect, and reading only the header agrees with that. -/
theorem read_canonical (file : Bytes) :
    (∀ body, read file = .ok body ↔
      body.length < 0x100000000 ∧ ∃ h, DumpHeader.ofBody body = .ok h ∧ file = h.toBytes ++ body) ∧
    (∀ body, write body = .ok file ↔ read file = .ok body) ∧
    (∀ fault, read file = .error fault ↔ (defects file).head? = some fault) ∧
    (file.length < size → DumpHeader.ofFile file = .error (.file .endOfFile)) ∧
    (size ≤ file.length →
      (∀ fault, DumpHeader.ofFile file = .error fault ↔ OfHeader fault ∧ read file = .error fault) ∧
      ((∀ fault, OfHeader fault → read file ≠ .error fault) →
        ∃ h, DumpHeader.ofFile file = .ok h ∧ h.toBytes = file.take size)) := by
  refine ⟨fun body => ?_, fun body => read_eq_ok_iff_write.symm, fun fault => read_eq_error_iff,
    DumpHeader.ofFile_of_short, fun long => ⟨fun fault => ofFile_eq_error_iff long, fun unrefused => ?_⟩⟩
  · rw [read_eq_ok_iff_write, write_eq_ok_iff]
    constructor
    · rintro ⟨h, made, rfl⟩
      exact ⟨DumpHeader.length_lt_of_ofBody made, h, made, rfl⟩
    · rintro ⟨-, written⟩
      exact written
  · cases opened : DumpHeader.ofFile file with
    | error fault =>
      obtain ⟨ofHeader, refused⟩ := (ofFile_eq_error_iff long).1 opened
      exact absurd refused (unrefused fault ofHeader)
    | ok h => exact ⟨h, rfl, (DumpHeader.ofFile_eq_ok_iff.1 opened).2.2⟩

end Dump

end StakePool
