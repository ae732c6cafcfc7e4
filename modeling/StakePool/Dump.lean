import StakePool.Checksum
import StakePool.Codec.Word
import StakePool.Store.Fault

/-!
# Account dumps

A dump is a header of 20 bytes and then the bytes of an account. The header declares the length and the
checksum of what follows; `Dump.read` returns nothing that does not agree with both.
-/

namespace StakePool

structure DumpHeader where
  magic : Block 4
  version : UInt32
  length : UInt32
  checksum : UInt64
deriving DecidableEq

namespace DumpHeader

abbrev size : Nat := 20

def dumpMagic : Block 4 := ⟨[0x53, 0x4c, 0x41, 0x44], rfl⟩

def dumpVersion : UInt32 := 1

/-- The header of a dump of `body`, which has to be shorter than 4 GiB. -/
def ofBody (body : Bytes) : Except StoreFault DumpHeader :=
  if body.length < 0x100000000 then
    .ok { magic := dumpMagic, version := dumpVersion, length := .ofNat body.length, checksum := StakePool.checksum body }
  else
    .error (.truncated 0xffffffff body.length)

def toBytes (h : DumpHeader) : Bytes :=
  h.magic.bytes ++ Word.u32.bytes h.version ++ Word.u32.bytes h.length ++ Word.u64.bytes h.checksum

/-- The header that 20 bytes hold: the magic bytes are checked first, and then the version. -/
def parse (bytes : Block size) : Except StoreFault DumpHeader :=
  let magic : Block 4 := ⟨bytes.bytes.take 4, by rw [List.length_take, bytes.length_eq]; rfl⟩
  let version := Word.u32.ofBytes ((bytes.bytes.drop 4).take 4)
  if magic ≠ dumpMagic then
    .error .invalidMagic
  else if version ≠ dumpVersion then
    .error (.unsupportedVersion version)
  else
    .ok {
      magic
      version
      length := Word.u32.ofBytes ((bytes.bytes.drop 8).take 4)
      checksum := Word.u64.ofBytes ((bytes.bytes.drop 12).take 8) }

def ofFile (file : Bytes) : Except StoreFault DumpHeader :=
  match Block.ofBytes? size (file.take size) with
  | none => .error (.file .endOfFile)
  | some front => parse front

def verify (h : DumpHeader) (body : Bytes) : Except StoreFault Unit :=
  if body.length ≠ h.length.toNat then
    .error (.truncated h.length.toNat body.length)
  else if StakePool.checksum body ≠ h.checksum then
    .error (.checksumMismatch h.checksum (StakePool.checksum body))
  else
    .ok ()

end DumpHeader

namespace Dump

def write (body : Bytes) : Except StoreFault Bytes := do
  let header ← DumpHeader.ofBody body
  return header.toBytes ++ body

def read (file : Bytes) : Except StoreFault Bytes :=
  match Block.ofBytes? DumpHeader.size (file.take DumpHeader.size) with
  | none => .error (.truncated DumpHeader.size file.length)
  | some front => do
    let header ← DumpHeader.parse front
    let body := file.drop DumpHeader.size
    header.verify body
    return body

end Dump

end StakePool
