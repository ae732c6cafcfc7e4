import Mathlib.Data.Nat.Digits.Defs
import StakePool.Text.Json

/-!
# JSON text is written for one value only

Both ways of writing a value are one, up to the blanks between its parts (`Json.Spacing`). A text that is followed by no
digit ends where its value ends, so that what stands behind it can be told from it: `Json.write_inj`. No two values are
written as the same text, with blanks (`Json.pretty_injective`) or without (`Json.compact_injective`).
-/

namespace StakePool

namespace Json

variable {s t : List Char}

/-! ### Numbers -/

/-- The text goes on with something other than a digit, or not at all. -/
def Ends (s : List Char) : Prop := ∀ c ∈ s.head?, c.isDigit = false

theorem ends_nil : Ends [] := fun c inside => absurd inside (Option.not_mem_none c)

theorem ends_cons {c : Char} (other : c.isDigit = false) : Ends (c :: s) := by
  rintro _ ⟨⟩
  exact other

theorem takeWhile_of_ends (ends : Ends s) : s.takeWhile Char.isDigit = [] := by
  cases s with
  | nil => rfl
  | cons c s => rw [List.takeWhile_cons, ends c rfl, if_neg Bool.false_ne_true]

theorem isDigit_of_mem_toDigits {k : Nat} {c : Char} (inside : c ∈ Nat.toDigits 10 k) : c.isDigit = true :=
  Nat.isDigit_of_mem_toDigits (by decide) (by decide) inside

theorem takeWhile_append_of_ends {digits : List Char} (all : ∀ c ∈ digits, c.isDigit = true) (ends : Ends s) :
    (digits ++ s).takeWhile Char.isDigit = digits := by
  rw [List.takeWhile_append_of_pos all, takeWhile_of_ends ends, List.append_nil]

theorem toDigits_inj {m n : Nat} (same : Nat.toDigits 10 m = Nat.toDigits 10 n) : m = n := by
  rw [← Nat.ofDigitChars_ten_toDigits (n := m), same, Nat.ofDigitChars_ten_toDigits]

theorem toDigits_append_inj {m n : Nat} (same : Nat.toDigits 10 m ++ s = Nat.toDigits 10 n ++ t) (endsS : Ends s)
    (endsT : Ends t) : m = n ∧ s = t := by
  have numerals : Nat.toDigits 10 m = Nat.toDigits 10 n := by
    rw [← takeWhile_append_of_ends (fun _ => isDigit_of_mem_toDigits) endsS, same,
      takeWhile_append_of_ends (fun _ => isDigit_of_mem_toDigits) endsT]
  exact ⟨toDigits_inj numerals, List.append_cancel_left (numerals ▸ same)⟩

theorem exists_digit (k : Nat) : ∃ c digits, Nat.toDigits 10 k = c :: digits ∧ c.isDigit = true := by
  obtain ⟨c, digits, same⟩ := List.exists_cons_of_ne_nil (Nat.toDigits_ne_nil (n := k) (b := 10))
  exact ⟨c, digits, same, isDigit_of_mem_toDigits (k := k) (same ▸ .head _)⟩

theorem toDigits_append_ne_minus (k : Nat) (s t : List Char) : Nat.toDigits 10 k ++ s ≠ '-' :: t := by
  obtain ⟨c, digits, same, digit⟩ := exists_digit k
  rw [same, List.cons_append]
  rintro ⟨⟩
  cases digit

theorem toList_toString_ofNat (k : Nat) : (toString (Int.ofNat k)).toList = Nat.toDigits 10 k := by
  show (toString k).toList = _
  rw [Nat.toString_eq_ofList_toDigits, String.toList_ofList]

theorem toList_toString_negSucc (k : Nat) : (toString (Int.negSucc k)).toList = '-' :: Nat.toDigits 10 (k + 1) := by
  show ("-" ++ toString (k + 1)).toList = _
  rw [String.toList_append, Nat.toString_eq_ofList_toDigits, String.toList_ofList, String.toList_ofList]
  rfl

theorem toString_append_inj {m n : Int} (same : (toString m).toList ++ s = (toString n).toList ++ t) (endsS : Ends s)
    (endsT : Ends t) : m = n ∧ s = t := by
  cases m with
  | ofNat m =>
    rw [toList_toString_ofNat] at same
    cases n with
    | ofNat n =>
      rw [toList_toString_ofNat] at same
      obtain ⟨rfl, rest⟩ := toDigits_append_inj same endsS endsT
      exact ⟨rfl, rest⟩
    | negSucc n =>
      rw [toList_toString_negSucc] at same
      cases toDigits_append_ne_minus _ _ _ same
  | negSucc m =>
    rw [toList_toString_negSucc] at same
    cases n with
    | ofNat n =>
      rw [toList_toString_ofNat] at same
      cases toDigits_append_ne_minus _ _ _ same.symm
    | negSucc n =>
      rw [toList_toString_negSucc] at same
      obtain ⟨next, rest⟩ := toDigits_append_inj (List.cons.inj same).2 endsS endsT
      obtain rfl := Nat.succ.inj next
      exact ⟨rfl, rest⟩

/-! ### Strings -/

/-- The value of a hexadecimal digit. -/
def hexValue (c : Char) : Nat := if c.isDigit then c.toNat - 48 else c.toNat - 87

/-- The character that a backslash stands for, with what follows it. -/
def unescapeCode : List Char → Option (Char × List Char)
  | '"' :: s => some ('"', s)
  | '\\' :: s => some ('\\', s)
  | 'b' :: s => some (Char.ofNat 8, s)
  | 't' :: s => some (Char.ofNat 9, s)
  | 'n' :: s => some (Char.ofNat 10, s)
  | 'f' :: s => some (Char.ofNat 12, s)
  | 'r' :: s => some (Char.ofNat 13, s)
  | 'u' :: '0' :: '0' :: high :: low :: s => some (Char.ofNat (16 * hexValue high + hexValue low), s)
  | _ => none

/-- The first character inside quotes, with what follows it; none where the quotes close. -/
def unescape : List Char → Option (Char × List Char)
  | [] => none
  | c :: s => if c = '"' then none else if c = '\\' then unescapeCode s else some (c, s)

theorem hexValue_digitChar : ∀ d < 16, hexValue (Nat.digitChar d) = d := by decide

theorem unescape_hexPair {n : Nat} (small : n < 256) (s : List Char) :
    unescape ('\\' :: 'u' :: '0' :: '0' :: hexPair n ++ s) = some (Char.ofNat n, s) := by
  have value : 16 * hexValue (Nat.digitChar (n / 16 % 16)) + hexValue (Nat.digitChar (n % 16)) = n := by
    rw [hexValue_digitChar _ (by omega), hexValue_digitChar _ (by omega)]
    omega
  show some (Char.ofNat _, s) = _
  rw [value]

theorem unescape_escape (c : Char) (s : List Char) : unescape (escape c ++ s) = some (c, s) := by
  unfold escape
  split_ifs with quote backslash b t n f r control
  · subst quote; rfl
  · subst backslash; rfl
  · rw [← Char.ofNat_toNat c, b]; rfl
  · rw [← Char.ofNat_toNat c, t]; rfl
  · rw [← Char.ofNat_toNat c, n]; rfl
  · rw [← Char.ofNat_toNat c, f]; rfl
  · rw [← Char.ofNat_toNat c, r]; rfl
  · rw [unescape_hexPair (by omega), Char.ofNat_toNat]
  · rw [List.singleton_append, unescape, if_neg quote, if_neg backslash]

theorem escape_append_inj {c d : Char} (same : escape c ++ s = escape d ++ t) : c = d ∧ s = t := by
  have read := congrArg unescape same
  rw [unescape_escape, unescape_escape] at read
  exact Prod.mk.inj (Option.some.inj read)

theorem escape_append_ne_quote (c : Char) (s t : List Char) : escape c ++ s ≠ '"' :: t := by
  intro same
  have read := congrArg unescape same
  rw [unescape_escape] at read
  cases read

theorem body_append_inj {cs ds : List Char} (same : cs.flatMap escape ++ '"' :: s = ds.flatMap escape ++ '"' :: t) :
    cs = ds ∧ s = t := by
  induction cs generalizing ds with
  | nil =>
    cases ds with
    | nil => exact ⟨rfl, (List.cons.inj same).2⟩
    | cons d ds =>
      rw [List.flatMap_cons, List.append_assoc] at same
      cases escape_append_ne_quote _ _ _ same.symm
  | cons c cs ih =>
    rw [List.flatMap_cons, List.append_assoc] at same
    cases ds with
    | nil => cases escape_append_ne_quote _ _ _ same
    | cons d ds =>
      rw [List.flatMap_cons, List.append_assoc] at same
      obtain ⟨rfl, later⟩ := escape_append_inj same
      obtain ⟨rfl, rest⟩ := ih later
      exact ⟨rfl, rest⟩

theorem toList_quote_append (x : String) (s : List Char) :
    (quote x).toList ++ s = '"' :: (x.toList.flatMap escape ++ '"' :: s) := by
  rw [quote, String.toList_ofList, List.cons_append, List.cons_append, List.append_assoc]
  rfl

theorem quote_append_inj {x y : String} (same : (quote x).toList ++ s = (quote y).toList ++ t) : x = y ∧ s = t := by
  rw [toList_quote_append, toList_quote_append] at same
  obtain ⟨chars, rest⟩ := body_append_inj (List.cons.inj same).2
  exact ⟨String.toList_inj.mp chars, rest⟩

/-! ### One way of writing -/

/-- The blanks between the parts of a value. -/
structure Spacing where
  lineStart : Nat → List Char
  afterColon : List Char
  blank : ∀ depth, ∀ c ∈ lineStart depth, c = ' ' ∨ c = '\n'

namespace Spacing

def none : Spacing where
  lineStart _ := []
  afterColon := []
  blank _ _ inside := absurd inside List.not_mem_nil

def lines : Spacing where
  lineStart depth := (lineBreak depth).toList
  afterColon := [' ']
  blank depth c inside := by
    rw [lineBreak, String.toList_ofList] at inside
    rcases List.mem_cons.mp inside with rfl | inside
    · exact .inr rfl
    · exact .inl (List.eq_of_mem_replicate inside)

end Spacing

variable (sp : Spacing)

mutual

/-- The text of a value whose first line stands at `depth`, in front of what follows it. -/
def write (depth : Nat) : Json → List Char → List Char
  | null, s => "null".toList ++ s
  | bool b, s => (boolText b).toList ++ s
  | number n, s => (toString n).toList ++ s
  | text x, s => (quote x).toList ++ s
  | list [], s => '[' :: ']' :: s
  | list (item :: rest), s => '[' :: (sp.lineStart (depth + 1) ++ item.write (depth + 1) (writeItems depth rest s))
  | object [], s => '\x7b' :: '\x7d' :: s
  | object (⟨name, value⟩ :: rest), s =>
    '\x7b' :: (sp.lineStart (depth + 1) ++ ((quote name).toList ++
      ':' :: (sp.afterColon ++ value.write (depth + 1) (writeMembers depth rest s))))

/-- What follows the first item, up to the end of a list at `depth`. -/
def writeItems (depth : Nat) : List Json → List Char → List Char
  | [], s => sp.lineStart depth ++ ']' :: s
  | item :: rest, s => ',' :: (sp.lineStart (depth + 1) ++ item.write (depth + 1) (writeItems depth rest s))

def writeMembers (depth : Nat) : List (String × Json) → List Char → List Char
  | [], s => sp.lineStart depth ++ '\x7d' :: s
  | ⟨name, value⟩ :: rest, s =>
    ',' :: (sp.lineStart (depth + 1) ++ ((quote name).toList ++
      ':' :: (sp.afterColon ++ value.write (depth + 1) (writeMembers depth rest s))))

end

mutual

theorem compact_eq_write (depth : Nat) : ∀ (json : Json) (s : List Char),
    json.compact.toList ++ s = json.write .none depth s
  | null, s => rfl
  | bool b, s => rfl
  | number n, s => rfl
  | text x, s => rfl
  | list [], s => rfl
  | list (item :: rest), s => by
    rw [compact, write, ← compact_eq_write, ← compactItems_eq_write]
    simp [Spacing.none]
  | object [], s => rfl
  | object (⟨name, value⟩ :: rest), s => by
    rw [compact, write, ← compact_eq_write, ← compactMembers_eq_write]
    simp [Spacing.none]

theorem compactItems_eq_write (depth : Nat) : ∀ (items : List Json) (s : List Char),
    (compactItems items).toList ++ ']' :: s = writeItems .none depth items s
  | [], s => rfl
  | item :: rest, s => by
    rw [compactItems, writeItems, ← compact_eq_write, ← compactItems_eq_write]
    simp [Spacing.none]

theorem compactMembers_eq_write (depth : Nat) : ∀ (members : List (String × Json)) (s : List Char),
    (compactMembers members).toList ++ '\x7d' :: s = writeMembers .none depth members s
  | [], s => rfl
  | ⟨name, value⟩ :: rest, s => by
    rw [compactMembers, writeMembers, ← compact_eq_write, ← compactMembers_eq_write]
    simp [Spacing.none]

end

mutual

theorem prettyAt_eq_write (depth : Nat) : ∀ (json : Json) (s : List Char),
    (json.prettyAt depth).toList ++ s = json.write .lines depth s
  | null, s => rfl
  | bool b, s => rfl
  | number n, s => rfl
  | text x, s => rfl
  | list [], s => by
    rw [prettyAt, write]
    rfl
  | list (item :: rest), s => by
    rw [prettyAt, write, ← prettyAt_eq_write, ← prettyItems_eq_write]
    simp [Spacing.lines]
  | object [], s => by
    rw [prettyAt, write]
    rfl
  | object (⟨name, value⟩ :: rest), s => by
    rw [prettyAt, write, ← prettyAt_eq_write, ← prettyMembers_eq_write]
    simp [Spacing.lines]

theorem prettyItems_eq_write (depth : Nat) : ∀ (items : List Json) (s : List Char),
    (prettyItems (depth + 1) items).toList ++ ((lineBreak depth).toList ++ ']' :: s) = writeItems .lines depth items s
  | [], s => rfl
  | item :: rest, s => by
    rw [prettyItems, writeItems, ← prettyAt_eq_write, ← prettyItems_eq_write]
    simp [Spacing.lines]

theorem prettyMembers_eq_write (depth : Nat) : ∀ (members : List (String × Json)) (s : List Char),
    (prettyMembers (depth + 1) members).toList ++ ((lineBreak depth).toList ++ '\x7d' :: s) =
      writeMembers .lines depth members s
  | [], s => rfl
  | ⟨name, value⟩ :: rest, s => by
    rw [prettyMembers, writeMembers, ← prettyAt_eq_write, ← prettyMembers_eq_write]
    simp [Spacing.lines]

end

/-! ### Kinds of values -/

inductive Kind
  | null
  | bool
  | number
  | text
  | list
  | object

namespace Kind

/-- The kind of the values that open with this character. -/
def ofOpening? (c : Char) : Option Kind :=
  if c = 'n' then some null
  else if c = 't' ∨ c = 'f' then some bool
  else if c = '-' ∨ c.isDigit then some number
  else if c = '"' then some text
  else if c = '[' then some list
  else if c = '\x7b' then some object
  else none

theorem ofOpening?_of_isDigit {c : Char} (digit : c.isDigit = true) : ofOpening? c = some number := by
  have other (d : Char) (noDigit : d.isDigit = false) : c ≠ d := by
    rintro rfl
    exact Bool.noConfusion (digit.symm.trans noDigit)
  unfold ofOpening?
  rw [if_neg (other 'n' rfl), if_neg (not_or_intro (other 't' rfl) (other 'f' rfl)), if_pos (.inr digit)]

end Kind

def kind : Json → Kind
  | null => .null
  | bool _ => .bool
  | number _ => .number
  | text _ => .text
  | list _ => .list
  | object _ => .object

/-- A value opens with a character that tells its kind. -/
theorem exists_opening (depth : Nat) (json : Json) (s : List Char) :
    ∃ c rest, json.write sp depth s = c :: rest ∧ Kind.ofOpening? c = some json.kind := by
  cases json with
  | null => exact ⟨'n', _, rfl, rfl⟩
  | bool b => cases b <;> exact ⟨_, _, rfl, rfl⟩
  | number n =>
    rw [write]
    cases n with
    | ofNat k =>
      obtain ⟨c, digits, same, digit⟩ := exists_digit k
      rw [toList_toString_ofNat, same]
      exact ⟨c, _, rfl, Kind.ofOpening?_of_isDigit digit⟩
    | negSucc k =>
      rw [toList_toString_negSucc]
      exact ⟨'-', _, rfl, rfl⟩
  | text x =>
    rw [write, toList_quote_append]
    exact ⟨'"', _, rfl, rfl⟩
  | list items => cases items <;> exact ⟨'[', _, rfl, rfl⟩
  | object members => cases members <;> exact ⟨'\x7b', _, rfl, rfl⟩

variable {sp} {depth : Nat} {a b : Json}

theorem kind_eq_of_write (same : a.write sp depth s = b.write sp depth t) : a.kind = b.kind := by
  obtain ⟨c, rest, first, opening⟩ := exists_opening sp depth a s
  obtain ⟨c', rest', first', opening'⟩ := exists_opening sp depth b t
  obtain ⟨rfl, -⟩ := List.cons.inj (first.symm.trans (same.trans first'))
  exact Option.some.inj (opening.symm.trans opening')

/-! ### One value for a text -/

theorem Spacing.eq_of_lineStart_append {c d : Char} (solid : d ≠ ' ' ∧ d ≠ '\n')
    (same : sp.lineStart depth ++ c :: s = d :: t) : c = d := by
  have blank := sp.blank depth
  cases front : sp.lineStart depth with
  | nil =>
    rw [front] at same
    exact (List.cons.inj same).1
  | cons x xs =>
    rw [front] at same blank
    obtain rfl := (List.cons.inj same).1
    exact absurd (blank x (.head _)) (not_or_intro solid.1 solid.2)

theorem Spacing.ends_lineStart_append {c : Char} (other : c.isDigit = false) : Ends (sp.lineStart depth ++ c :: s) := by
  have blank := sp.blank depth
  cases front : sp.lineStart depth with
  | nil => exact ends_cons other
  | cons x xs =>
    rw [front] at blank
    rcases blank x (.head _) with rfl | rfl
    · exact ends_cons rfl
    · exact ends_cons rfl

theorem ends_writeItems {items : List Json} : Ends (writeItems sp depth items s) := by
  cases items with
  | nil => exact Spacing.ends_lineStart_append rfl
  | cons item rest => exact ends_cons rfl

theorem ends_writeMembers {members : List (String × Json)} : Ends (writeMembers sp depth members s) := by
  cases members with
  | nil => exact Spacing.ends_lineStart_append rfl
  | cons member rest => exact ends_cons rfl

theorem lineStart_append_write_ne {c : Char} (solid : c ≠ ' ' ∧ c ≠ '\n') (closing : Kind.ofOpening? c = none) :
    sp.lineStart depth ++ a.write sp depth s ≠ c :: t := by
  intro same
  obtain ⟨d, rest, first, opening⟩ := exists_opening sp depth a s
  rw [first] at same
  rw [Spacing.eq_of_lineStart_append solid same, closing] at opening
  cases opening

theorem lineStart_append_quote_ne {c : Char} {name : String} (solid : c ≠ ' ' ∧ c ≠ '\n') (other : '"' ≠ c) :
    sp.lineStart depth ++ ((quote name).toList ++ s) ≠ c :: t := by
  intro same
  rw [toList_quote_append] at same
  exact other (Spacing.eq_of_lineStart_append solid same)

/-- Texts of two lists are both of the empty one, or tell their items as the texts behind a first item do. -/
theorem items_of_write {items items' : List Json}
    (same : (list items).write sp depth s = (list items').write sp depth t) :
    items = [] ∧ items' = [] ∧ s = t ∨ writeItems sp depth items s = writeItems sp depth items' t := by
  cases items with
  | nil =>
    cases items' with
    | nil => exact .inl ⟨rfl, rfl, (List.cons.inj (List.cons.inj same).2).2⟩
    | cons item' rest' => cases lineStart_append_write_ne (by decide) (by decide) (List.cons.inj same).2.symm
  | cons item rest =>
    cases items' with
    | nil => cases lineStart_append_write_ne (by decide) (by decide) (List.cons.inj same).2
    | cons item' rest' => exact .inr (congrArg (List.cons ',') (List.cons.inj same).2)

theorem members_of_write {members members' : List (String × Json)}
    (same : (object members).write sp depth s = (object members').write sp depth t) :
    members = [] ∧ members' = [] ∧ s = t ∨ writeMembers sp depth members s = writeMembers sp depth members' t := by
  cases members with
  | nil =>
    cases members' with
    | nil => exact .inl ⟨rfl, rfl, (List.cons.inj (List.cons.inj same).2).2⟩
    | cons member' rest' => cases lineStart_append_quote_ne (by decide) (by decide) (List.cons.inj same).2.symm
  | cons member rest =>
    cases members' with
    | nil => cases lineStart_append_quote_ne (by decide) (by decide) (List.cons.inj same).2
    | cons member' rest' => exact .inr (congrArg (List.cons ',') (List.cons.inj same).2)

-- The induction is on the first value; how the texts open rules out that the second one is of another kind.
mutual

/-- Two values with the same text, each in front of something that is no digit, are equal, and so is what follows. -/
theorem write_inj (depth : Nat) : ∀ (a b : Json) (s t : List Char), a.write sp depth s = b.write sp depth t →
    Ends s → Ends t → a = b ∧ s = t
  | null, b, s, t, same, _, _ => by
    have kinds := kind_eq_of_write same
    cases b with
    | null => exact ⟨rfl, List.append_cancel_left same⟩
    | _ => cases kinds
  | bool x, b, s, t, same, _, _ => by
    have kinds := kind_eq_of_write same
    cases b with
    | bool y =>
      cases x <;> cases y
      · exact ⟨rfl, List.append_cancel_left same⟩
      · cases (List.cons.inj same).1
      · cases (List.cons.inj same).1
      · exact ⟨rfl, List.append_cancel_left same⟩
    | _ => cases kinds
  | number n, b, s, t, same, endsS, endsT => by
    have kinds := kind_eq_of_write same
    cases b with
    | number m =>
      obtain ⟨rfl, rest⟩ := toString_append_inj same endsS endsT
      exact ⟨rfl, rest⟩
    | _ => cases kinds
  | text x, b, s, t, same, _, _ => by
    have kinds := kind_eq_of_write same
    cases b with
    | text y =>
      obtain ⟨rfl, rest⟩ := quote_append_inj same
      exact ⟨rfl, rest⟩
    | _ => cases kinds
  | list items, b, s, t, same, _, _ => by
    have kinds := kind_eq_of_write same
    cases b with
    | list items' =>
      rcases items_of_write same with ⟨rfl, rfl, rest⟩ | texts
      · exact ⟨rfl, rest⟩
      · obtain ⟨rfl, rest⟩ := writeItems_inj depth items items' s t texts
        exact ⟨rfl, rest⟩
    | _ => cases kinds
  | object members, b, s, t, same, _, _ => by
    have kinds := kind_eq_of_write same
    cases b with
    | object members' =>
      rcases members_of_write same with ⟨rfl, rfl, rest⟩ | texts
      · exact ⟨rfl, rest⟩
      · obtain ⟨rfl, rest⟩ := writeMembers_inj depth members members' s t texts
        exact ⟨rfl, rest⟩
    | _ => cases kinds

theorem writeItems_inj (depth : Nat) : ∀ (items items' : List Json) (s t : List Char),
    writeItems sp depth items s = writeItems sp depth items' t → items = items' ∧ s = t
  | [], [], s, t, same => ⟨rfl, (List.cons.inj (List.append_cancel_left same)).2⟩
  | [], item' :: rest', s, t, same => by cases Spacing.eq_of_lineStart_append (by decide) same
  | item :: rest, [], s, t, same => by cases Spacing.eq_of_lineStart_append (by decide) same.symm
  | item :: rest, item' :: rest', s, t, same => by
    have first := List.append_cancel_left (List.cons.inj same).2
    obtain ⟨rfl, later⟩ := write_inj (depth + 1) item item' _ _ first ends_writeItems ends_writeItems
    obtain ⟨rfl, behind⟩ := writeItems_inj depth rest rest' s t later
    exact ⟨rfl, behind⟩

theorem writeMembers_inj (depth : Nat) : ∀ (members members' : List (String × Json)) (s t : List Char),
    writeMembers sp depth members s = writeMembers sp depth members' t → members = members' ∧ s = t
  | [], [], s, t, same => ⟨rfl, (List.cons.inj (List.append_cancel_left same)).2⟩
  | [], member' :: rest', s, t, same => by cases Spacing.eq_of_lineStart_append (by decide) same
  | member :: rest, [], s, t, same => by cases Spacing.eq_of_lineStart_append (by decide) same.symm
  | ⟨name, value⟩ :: rest, ⟨name', value'⟩ :: rest', s, t, same => by
    obtain ⟨rfl, first⟩ := quote_append_inj (List.append_cancel_left (List.cons.inj same).2)
    have first := List.append_cancel_left (List.cons.inj first).2
    obtain ⟨rfl, later⟩ := write_inj (depth + 1) value value' _ _ first ends_writeMembers ends_writeMembers
    obtain ⟨rfl, behind⟩ := writeMembers_inj depth rest rest' s t later
    exact ⟨rfl, behind⟩

end

theorem compact_injective (same : a.compact = b.compact) : a = b := by
  have texts : a.write .none 0 [] = b.write .none 0 [] := by rw [← compact_eq_write, ← compact_eq_write, same]
  exact (write_inj 0 a b [] [] texts ends_nil ends_nil).1

theorem pretty_injective (same : a.pretty = b.pretty) : a = b := by
  have texts : a.write .lines 0 [] = b.write .lines 0 [] := by
    rw [← prettyAt_eq_write, ← prettyAt_eq_write]
    exact congrArg (·.toList ++ []) same
  exact (write_inj 0 a b [] [] texts ends_nil ends_nil).1

end Json

end StakePool
