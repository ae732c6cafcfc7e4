import StakePool.Base58
import StakePool.Block

/-!
# Public keys

A public key is 32 bytes, stored and compared as they stand; base58 is its text form.
-/

namespace StakePool

abbrev Pubkey := Block 32

namespace Pubkey

inductive ParseFault
  | invalidBase58
  | tooLong
  | wrongLength (length : Nat)
deriving DecidableEq, Repr

def ParseFault.message : ParseFault → String
  | invalidBase58 => "invalid base58 public key"
  | tooLong => "public key longer than 32 bytes"
  | wrongLength length => s!"public key decodes to {length} bytes, expected 32"

def toBase58 (key : Pubkey) : String := Base58.encode key.bytes

def parse (text : String) : Except ParseFault Pubkey :=
  match Base58.decode 32 text with
  | .error .badSymbol => .error .invalidBase58
  | .error .tooLong => .error .tooLong
  | .ok bytes => if h : bytes.length = 32 then .ok ⟨bytes, h⟩ else .error (.wrongLength bytes.length)

/-- Keys are ordered byte by byte, the first byte weighing most. -/
def le (a b : Pubkey) : Bool := decide (a.bytes ≤ b.bytes)

def sort (keys : List Pubkey) : List Pubkey := keys.mergeSort le

end Pubkey

end StakePool
