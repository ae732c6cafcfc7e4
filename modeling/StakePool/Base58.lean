import StakePool.Bytes

/-!
# Base58 text

A byte string is read as one big-endian number and written in base 58; each leading zero byte is written
as one leading `1`. `decode` bounds the length of the result and reports the first fault from the left.
-/

namespace StakePool.Base58

def alphabet : List Char := "123456789ABCDEFGHJKLMNPQRSTUVWXYZabcdefghijkmnopqrstuvwxyz".toList

def symbol (digit : Nat) : Char := alphabet.getD digit '1'

def digit? (c : Char) : Option Nat := alphabet.idxOf? c

/-- The number that a big-endian byte string stands for. -/
def number (bytes : Bytes) : Nat := Bytes.ofLittleEndian bytes.reverse

/-- Base58 text of a byte string. Two digits for each byte are always enough. -/
def encode (bytes : Bytes) : String :=
  let ones := (bytes.takeWhile (· = 0)).map fun _ => '1'
  let digits := (Radix.digits 58 (2 * bytes.length) (number bytes)).reverse.dropWhile (· = 0)
  String.ofList (ones ++ digits.map symbol)

inductive Fault
  | badSymbol
  | tooLong
deriving DecidableEq, Repr

/-- The number that base58 symbols stand for, most significant first. The first symbol outside the alphabet
and the first one that takes the number past `limit` bytes are told apart, whichever comes first. -/
def readNumber (limit : Nat) : Nat → List Char → Except Fault Nat
  | n, [] => .ok n
  | n, c :: rest =>
    match digit? c with
    | none => .error .badSymbol
    | some d => if Radix.bound 256 limit ≤ n * 58 + d then .error .tooLong else readNumber limit (n * 58 + d) rest

def decode (limit : Nat) (text : String) : Except Fault Bytes := do
  let symbols := text.toList
  let n ← readNumber limit 0 symbols
  let ones := symbols.takeWhile (· = '1')
  let digits := (Bytes.littleEndian limit n).reverse.dropWhile (· = 0)
  if limit < ones.length + digits.length then
    throw .tooLong
  return Bytes.zeros ones.length ++ digits

end StakePool.Base58
