import StakePool.Arguments
import StakePool.Basket
import StakePool.Pubkey

/-!
# The command line

`Invocation.parse` reads the arguments of the program: the directory of the accounts and the report to make.
The directory is the one given behind the command, or else before it, or else in the environment.
-/

namespace StakePool

inductive Command
  | accounts
  | events (queue : Pubkey) (since : Option UInt32) (json : Bool)
  | basket (mint : Pubkey) (vaults : List Pubkey) (shares : UInt64) (rounding : Rounding)
deriving DecidableEq

structure Invocation where
  directory : String
  command : Command
deriving DecidableEq

/-! ### Values -/

namespace Argument

/-- The number that a non-empty run of decimal digits stands for. -/
def digits? (cs : List Char) : Option Nat :=
  if cs ≠ [] ∧ cs.all (fun c => '0' ≤ c ∧ c ≤ '9') then
    some (cs.foldl (fun n c => 10 * n + (c.toNat - '0'.toNat)) 0)
  else
    none

def signed? (text : String) : Option Int :=
  match text.toList with
  | '-' :: cs => (digits? cs).map fun n => -(n : Int)
  | '+' :: cs => (digits? cs).map fun n => (n : Int)
  | cs => (digits? cs).map fun n => (n : Int)

def word32? (text : String) : Option UInt32 :=
  (signed? text).bind fun n => if 0 ≤ n ∧ n < 0x100000000 then some (.ofNat n.toNat) else none

def word64? (text : String) : Option UInt64 :=
  let digits := match text.toList with
    | '+' :: cs => digits? cs
    | cs => digits? cs
  digits.bind fun n => if n < 0x10000000000000000 then some (.ofNat n) else none

def pubkey? (text : String) : Option Pubkey := (Pubkey.parse text).toOption

def optional? {α : Type} (read : String → Option α) : Option String → Option (Option α)
  | none => some none
  | some text => (read text).map some

end Argument

/-! ### Commands -/

namespace Command

def directoryOption : OptionSpec := ⟨"dir", some 'd', 1⟩

def options? (name : String) : Option (List OptionSpec) :=
  if name = "inspect" then
    some [directoryOption]
  else if name = "events" then
    some [directoryOption, ⟨"since", none, 1⟩, ⟨"json", none, 0⟩]
  else if name = "basket" then
    some [directoryOption, ⟨"mint", none, 1⟩, ⟨"vault", none, 2⟩, ⟨"shares", none, 1⟩, ⟨"round-up", none, 0⟩]
  else
    none

def parseEvents (a : Arguments) : Option Command := do
  let [queue] := a.plain | none
  let queue ← Argument.pubkey? queue
  let since ← Argument.optional? Argument.word32? (← a.value? "since")
  let json ← a.flag? "json"
  return .events queue since json

def parseBasket (a : Arguments) : Option Command := do
  let [] := a.plain | none
  let mint ← Argument.pubkey? (← (← a.value? "mint"))
  let vaults ← (a.values "vault").mapM Argument.pubkey?
  if vaults = [] then
    none
  let shares ← Argument.optional? Argument.word64? (← a.value? "shares")
  let roundUp ← a.flag? "round-up"
  return .basket mint vaults (shares.getD 1) (.ofBool roundUp)

def parse (name : String) (a : Arguments) : Option Command :=
  if name = "inspect" then
    if a.plain = [] then some .accounts else none
  else if name = "events" then
    parseEvents a
  else
    parseBasket a

end Command

/-! ### The program -/

namespace Invocation

def defaultDirectory : String := "accounts"

/-- The directory to use: the one given behind the command, or else before it, or else in the environment. An
empty name is refused, also an empty one in the environment unless both others are given. -/
def directory? (environment before behind : Option String) : Option String :=
  if before = some "" ∨ behind = some "" then
    none
  else
    match before, behind with
    | some _, some name => some name
    | before, behind =>
      if environment = some "" then none
      else some ((behind.or (before.or environment)).getD defaultDirectory)

def parse (environment : Option String) (arguments : List String) : Option Invocation := do
  let front ← Arguments.scan [Command.directoryOption] true none arguments
  let [name] := front.plain | none
  let back ← Arguments.scan (← Command.options? name) false none front.rest
  let directory ← directory? environment (← front.value? "dir") (← back.value? "dir")
  let command ← Command.parse name back
  return { directory, command }

end Invocation

end StakePool
