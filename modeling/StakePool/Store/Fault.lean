import StakePool.Fault
import StakePool.Pubkey

/-!
# Store faults

A `StoreFault` says why an account could not be fetched, kept or decoded. `StoreFault.message` is its text.
-/

namespace StakePool

inductive FileFault
  | endOfFile
  /-- A directory cannot be mapped into memory. -/
  | notMappable
  /-- A directory cannot be written to. -/
  | isDirectory
  | notDirectory
deriving DecidableEq, Repr

def FileFault.text : FileFault → String
  | endOfFile => "failed to fill whole buffer"
  | notMappable => "No such device (os error 19)"
  | isDirectory => "Is a directory (os error 21)"
  | notDirectory => "Not a directory (os error 20)"

inductive StoreFault
  | accountNotFound (key : Pubkey)
  | invalidMagic
  | unsupportedVersion (version : UInt32)
  | truncated (declared found : Nat)
  | checksumMismatch (expected found : UInt64)
  | file (fault : FileFault)
  | layout (fault : Fault)
deriving DecidableEq

namespace StoreFault

def message : StoreFault → String
  | accountNotFound key => s!"Account not found: {key.toBase58}"
  | invalidMagic => "Invalid magic bytes in account dump"
  | unsupportedVersion version => s!"Unsupported dump version {version.toNat}"
  | truncated declared found => s!"Truncated dump: header declares {declared} bytes, found {found}"
  | checksumMismatch expected found => s!"Checksum mismatch: expected {expected.toNat}, found {found.toNat}"
  | file fault => s!"IO error: {fault.text}"
  | layout fault => s!"Layout error: {fault.message}"

def cause? : StoreFault → Option String
  | file fault => some fault.text
  | layout fault => some fault.message
  | _ => none

end StoreFault

end StakePool
