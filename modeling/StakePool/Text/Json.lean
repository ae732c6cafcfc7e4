import StakePool.Pubkey

/-!
# JSON text

`Json.compact` writes a value without blanks and `Json.pretty` with one member to a line, two blanks deeper
than what holds it. Members keep the order in which they are listed.
-/

namespace StakePool

inductive Json
  | null
  | bool (b : Bool)
  | number (n : Int)
  | text (s : String)
  | list (items : List Json)
  | object (members : List (String × Json))

namespace Json

def ofWord32 (n : UInt32) : Json := number n.toNat

def ofWord64 (n : UInt64) : Json := number n.toNat

def ofSigned (n : Int64) : Json := number n.toInt

def ofPubkey (key : Pubkey) : Json := text key.toBase58

def ofOption {α : Type} (f : α → Json) (a : Option α) : Json := (a.map f).getD null

def hexPair (n : Nat) : List Char := [Nat.digitChar (n / 16 % 16), Nat.digitChar (n % 16)]

/-- A character inside quotes: quotes, backslashes and control characters are escaped. -/
def escape (c : Char) : List Char :=
  if c = '"' then ['\\', '"']
  else if c = '\\' then ['\\', '\\']
  else if c.toNat = 8 then ['\\', 'b']
  else if c.toNat = 9 then ['\\', 't']
  else if c.toNat = 10 then ['\\', 'n']
  else if c.toNat = 12 then ['\\', 'f']
  else if c.toNat = 13 then ['\\', 'r']
  else if c.toNat < 32 then '\\' :: 'u' :: '0' :: '0' :: hexPair c.toNat
  else [c]

def quote (s : String) : String := String.ofList ('"' :: s.toList.flatMap escape ++ ['"'])

def boolText (b : Bool) : String := if b then "true" else "false"

/-! ### Without blanks -/

mutual

def compact : Json → String
  | null => "null"
  | bool b => boolText b
  | number n => toString n
  | text s => quote s
  | list [] => "[]"
  | list (item :: rest) => "[" ++ item.compact ++ compactItems rest ++ "]"
  | object [] => "\x7b\x7d"
  | object (⟨name, value⟩ :: rest) => "\x7b" ++ quote name ++ ":" ++ value.compact ++ compactMembers rest ++ "\x7d"

def compactItems : List Json → String
  | [] => ""
  | item :: rest => "," ++ item.compact ++ compactItems rest

def compactMembers : List (String × Json) → String
  | [] => ""
  | ⟨name, value⟩ :: rest => "," ++ quote name ++ ":" ++ value.compact ++ compactMembers rest

end

/-! ### With line breaks -/

def lineBreak (depth : Nat) : String := String.ofList ('\n' :: List.replicate (2 * depth) ' ')

mutual

/-- The text of a value whose first line stands at `depth`. -/
def prettyAt (depth : Nat) : Json → String
  | null => "null"
  | bool b => boolText b
  | number n => toString n
  | text s => quote s
  | list [] => "[]"
  | list (item :: rest) =>
    "[" ++ lineBreak (depth + 1) ++ item.prettyAt (depth + 1) ++ prettyItems (depth + 1) rest ++ lineBreak depth ++ "]"
  | object [] => "\x7b\x7d"
  | object (⟨name, value⟩ :: rest) =>
    "\x7b" ++ lineBreak (depth + 1) ++ quote name ++ ": " ++ value.prettyAt (depth + 1)
      ++ prettyMembers (depth + 1) rest ++ lineBreak depth ++ "\x7d"

def prettyItems (depth : Nat) : List Json → String
  | [] => ""
  | item :: rest => "," ++ lineBreak depth ++ item.prettyAt depth ++ prettyItems depth rest

def prettyMembers (depth : Nat) : List (String × Json) → String
  | [] => ""
  | ⟨name, value⟩ :: rest =>
    "," ++ lineBreak depth ++ quote name ++ ": " ++ value.prettyAt depth ++ prettyMembers depth rest

end

def pretty (json : Json) : String := json.prettyAt 0

end Json

end StakePool
