/-!
# Arguments

`Arguments.scan` sorts the arguments of a command into options with their values and plain arguments. An
argument that begins with a hyphen is never a value, `--` ends the options, and a value may follow its
option as the next argument, behind `=`, or directly behind a one-letter option.
-/

namespace StakePool

structure OptionSpec where
  name : String
  letter : Option Char
  /-- How many values one mention takes at most. One that takes none is a flag; any other takes at least one. -/
  maxValues : Nat
deriving DecidableEq, Repr

structure Arguments where
  options : List (String × List String)
  plain : List String
  /-- What stands behind the first plain argument, when the scan ends there. -/
  rest : List String
deriving DecidableEq, Repr

namespace Arguments

def empty : Arguments := ⟨[], [], []⟩

def addOption (name : String) (values : List String) (a : Arguments) : Arguments :=
  { a with options := (name, values) :: a.options }

def addPlain (value : String) (a : Arguments) : Arguments := { a with plain := value :: a.plain }

structure Pending where
  name : String
  values : List String
  room : Nat
deriving DecidableEq, Repr

inductive Shape
  | endOfOptions
  | long (name : String) (value : Option String)
  | short (letter : Char) (value : Option String)
  | plain
deriving DecidableEq, Repr

/-- The shape of an argument. A lone hyphen is plain. -/
def shape (argument : String) : Shape :=
  match argument.toList with
  | ['-', '-'] => .endOfOptions
  | '-' :: '-' :: cs =>
    let name := String.ofList (cs.takeWhile (· ≠ '='))
    match cs.dropWhile (· ≠ '=') with
    | [] => .long name none
    | _ :: value => .long name (some (String.ofList value))
  | ['-'] => .plain
  | ['-', letter] => .short letter none
  | '-' :: letter :: '=' :: value => .short letter (some (String.ofList value))
  | '-' :: letter :: value => .short letter (some (String.ofList value))
  | _ => .plain

def close (pending : Option Pending) (a : Arguments) : Option Arguments :=
  match pending with
  | none => some a
  | some p => if p.values = [] then none else some (a.addOption p.name p.values.reverse)

/-- Sorts arguments, or finds none of it valid. With `untilPlain` the scan ends at the first plain argument. -/
def scan (specs : List OptionSpec) (untilPlain : Bool) (pending : Option Pending) :
    List String → Option Arguments
  | [] => close pending empty
  | argument :: rest =>
    let given (spec? : Option OptionSpec) (attached : Option String) : Option Arguments :=
      match spec?, attached with
      | none, _ => none
      | some spec, some value =>
        if spec.maxValues = 0 then none
        else (scan specs untilPlain none rest).bind fun a => close pending (a.addOption spec.name [value])
      | some spec, none =>
        if spec.maxValues = 0 then
          (scan specs untilPlain none rest).bind fun a => close pending (a.addOption spec.name [])
        else
          (scan specs untilPlain (some ⟨spec.name, [], spec.maxValues⟩) rest).bind (close pending)
    match shape argument with
    | .endOfOptions => if untilPlain then none else close pending ⟨[], rest, []⟩
    | .long name attached => given (specs.find? (·.name == name)) attached
    | .short letter attached => given (specs.find? (·.letter == some letter)) attached
    | .plain =>
      match pending with
      | some p =>
        if p.room = 0 then
          if untilPlain then close pending ⟨[], [argument], rest⟩
          else (scan specs untilPlain none rest).bind fun a => close pending (a.addPlain argument)
        else
          scan specs untilPlain (some ⟨p.name, argument :: p.values, p.room - 1⟩) rest
      | none =>
        if untilPlain then some ⟨[], [argument], rest⟩
        else (scan specs untilPlain none rest).map (addPlain argument)

def values (a : Arguments) (name : String) : List String :=
  (a.options.filter (·.1 == name)).flatMap (·.2)

def mentions (a : Arguments) (name : String) : Nat := (a.options.filter (·.1 == name)).length

/-- The value of an option that may be mentioned once: nothing is valid when it is mentioned more often. -/
def value? (a : Arguments) (name : String) : Option (Option String) :=
  match a.options.filter (·.1 == name) with
  | [] => some none
  | [(_, [value])] => some (some value)
  | _ => none

/-- Whether a flag is given: nothing is valid when it is given twice. -/
def flag? (a : Arguments) (name : String) : Option Bool :=
  match a.mentions name with
  | 0 => some false
  | 1 => some true
  | _ => none

end Arguments

end StakePool
