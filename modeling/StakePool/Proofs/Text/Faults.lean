import StakePool.Proofs.Pubkey
import StakePool.Proofs.Text.Json
import StakePool.Store.Fault

/-!
# What the text of a fault tells

No two faults have the same text (`Fault.message_injective`, `StoreFault.message_injective`): it names the numbers, the
offset, the index and the field of a fault, and goes on with what lies behind it. How a text begins tells the kind of
fault; numbers are cut off at its end, behind the words in front of them (`append_number_inj`).
-/

namespace StakePool

/-! ### Beginnings and numbers -/

theorem prefix_append {x y z : String} (front : x.toList <+: y.toList) : x.toList <+: (y ++ z).toList := by
  rw [String.toList_append]
  exact front.trans (List.prefix_append ..)

theorem toList_toString (n : Nat) : (toString n).toList = Nat.toDigits 10 n := by
  rw [Nat.toString_eq_ofList_toDigits, String.toList_ofList]

theorem toString_inj {m n : Nat} (same : toString m = toString n) : m = n := by
  refine Json.toDigits_inj ?_
  rw [← toList_toString, same, toList_toString]

/-- The number at the end of a text and what it follows, where the words between them do not end in a digit. -/
theorem append_number_inj {x y : String} {m n : Nat} (words : String)
    (closed : ∃ c, words.toList.getLast? = some c ∧ c.isDigit = false)
    (same : x ++ words ++ toString m = y ++ words ++ toString n) : x = y ∧ m = n := by
  obtain ⟨c, last, other⟩ := closed
  obtain ⟨front, split⟩ := List.getLast?_eq_some_iff.mp last
  have text (x : String) (n : Nat) : (x ++ words ++ toString n).toList.reverse =
      (Nat.toDigits 10 n).reverse ++ c :: (front.reverse ++ x.toList.reverse) := by
    simp [String.toList_append, split]
  have digits (x : String) (n : Nat) :
      (x ++ words ++ toString n).toList.reverse.takeWhile Char.isDigit = (Nat.toDigits 10 n).reverse := by
    rw [text]
    refine Json.takeWhile_append_of_ends (fun d inside => ?_) (Json.ends_cons other)
    exact Json.isDigit_of_mem_toDigits (List.mem_reverse.mp inside)
  have numerals : Nat.toDigits 10 m = Nat.toDigits 10 n := by
    rw [← List.reverse_inj, ← digits x m, same, digits]
  obtain rfl := Json.toDigits_inj numerals
  exact ⟨(String.append_left_inj words).mp ((String.append_left_inj _).mp same), rfl⟩

theorem number_append_inj {x y : String} {m n : Nat} (words : String)
    (opened : ∃ c, words.toList.head? = some c ∧ c.isDigit = false)
    (same : toString m ++ words ++ x = toString n ++ words ++ y) : m = n ∧ x = y := by
  obtain ⟨c, first, other⟩ := opened
  obtain ⟨rest, split⟩ := List.head?_eq_some_iff.mp first
  have lists := congrArg String.toList same
  simp only [String.toList_append, toList_toString, split, List.append_assoc, List.cons_append] at lists
  obtain ⟨number, behind⟩ := Json.toDigits_append_inj lists (Json.ends_cons other) (Json.ends_cons other)
  exact ⟨number, String.toList_inj.mp (List.append_cancel_left (List.cons.inj behind).2)⟩

theorem hexDigits_inj {count m n : Nat} (smallM : m < Radix.bound 16 count) (smallN : n < Radix.bound 16 count)
    (same : hexDigits count m = hexDigits count n) : m = n := by
  have read (k : Nat) : (hexDigits count k).toList.map Json.hexValue = (Radix.digits 16 count k).reverse := by
    rw [hexDigits, String.toList_ofList, List.map_map]
    refine (List.map_congr_left fun d inside => ?_).trans (List.map_id _)
    exact Json.hexValue_digitChar d (Radix.digits_lt (by decide) count k d (List.mem_reverse.mp inside))
  have digits := List.reverse_inj.mp ((read m).symm.trans (same ▸ read n))
  rw [← Radix.value_digits_of_lt smallM, digits, Radix.value_digits_of_lt smallN]

/-- Where texts begin with openings of which none continues another, the text tells the opening. -/
theorem opening_eq {φ : Type} {opening message : φ → String}
    (begins : ∀ f, (opening f).toList <+: (message f).toList)
    (apart : ∀ f g, (opening f).toList <+: (opening g).toList → opening f = opening g)
    {f g : φ} (same : message f = message g) : opening f = opening g := by
  have other := begins g
  rw [← same] at other
  rcases List.prefix_or_prefix_of_prefix (begins f) other with first | second
  · exact apart f g first
  · exact (apart g f second).symm

/-! ### Faults -/

theorem Quantity.text_injective {q q' : Quantity} (same : q.text = q'.text) : q = q' := by
  revert same
  cases q <;> cases q' <;> decide

theorem Requirement.text_injective {r r' : Requirement} (same : r.text = r'.text) : r = r' := by
  revert same
  cases r <;> cases r' <;> decide

namespace Fault

/-- How a text begins, up to the first thing that it names. -/
def opening : Fault → String
  | sizeMismatch .. => "size mismatch: expected "
  | fieldOutOfRange .. => "field `"
  | unknownTag _ => "unknown request tag 0x"
  | unknownVariant .. => "unknown variant "
  | corruptEntry .. => "corrupt ring entry "
  | invalidCursor .. => "cursor "
  | invariantViolation .. => "invariant violation: "
  | overflow _ => "arithmetic overflow in "

theorem opening_prefix (fault : Fault) : fault.opening.toList <+: fault.message.toList := by
  cases fault with
  | sizeMismatch => exact prefix_append (prefix_append (prefix_append List.prefix_rfl))
  | fieldOutOfRange =>
    exact prefix_append (prefix_append (prefix_append (prefix_append (prefix_append List.prefix_rfl))))
  | unknownTag => exact prefix_append List.prefix_rfl
  | unknownVariant => exact prefix_append (prefix_append (prefix_append List.prefix_rfl))
  | corruptEntry => exact prefix_append (prefix_append (prefix_append List.prefix_rfl))
  | invalidCursor =>
    exact prefix_append (prefix_append (prefix_append (prefix_append (prefix_append (prefix_append List.prefix_rfl)))))
  | invariantViolation =>
    exact prefix_append (prefix_append (prefix_append (prefix_append (prefix_append (prefix_append List.prefix_rfl)))))
  | overflow => exact prefix_append List.prefix_rfl

/-- No text begins like that of another kind of fault. -/
theorem openings_apart (fault other : Fault) (front : fault.opening.toList <+: other.opening.toList) :
    fault.opening = other.opening := by
  revert front
  cases fault <;> cases other <;> simp only [opening] <;> decide

/-- The text of a fault tells all of it: what kind it is, its numbers and its field, and what lies behind it. -/
theorem message_injective {fault other : Fault} (same : fault.message = other.message) : fault = other := by
  have start := opening_eq opening_prefix openings_apart same
  -- Texts are taken apart from the end, where the last number stands, but for an entry, whose end is another text.
  induction fault generalizing other with
  | sizeMismatch expected actual =>
    cases other with
    | sizeMismatch expected' actual' =>
      obtain ⟨front, rfl⟩ := append_number_inj " bytes, got " ⟨' ', rfl, rfl⟩ same
      rw [toString_inj ((String.append_right_inj _).mp front)]
    | _ => simp [opening] at start
  | fieldOutOfRange offset field value =>
    cases other with
    | fieldOutOfRange offset' field' value' =>
      obtain ⟨front, value⟩ := append_number_inj " out of range: " ⟨' ', rfl, rfl⟩ same
      obtain ⟨named, offset⟩ := append_number_inj "` at offset " ⟨' ', rfl, rfl⟩ front
      have field : field = field' := (String.append_right_inj _).mp named
      rw [field, offset, UInt32.toNat_inj.mp value]
    | _ => simp [opening] at start
  | unknownTag tag =>
    cases other with
    | unknownTag tag' =>
      have digits : hexDigits 16 tag.toNat = hexDigits 16 tag'.toNat := (String.append_right_inj _).mp same
      rw [UInt64.toNat_inj.mp (hexDigits_inj tag.toNat_lt tag'.toNat_lt digits)]
    | _ => simp [opening] at start
  | unknownVariant offset discriminant =>
    cases other with
    | unknownVariant offset' discriminant' =>
      obtain ⟨front, rfl⟩ := append_number_inj " at offset " ⟨' ', rfl, rfl⟩ same
      rw [UInt8.toNat_inj.mp (toString_inj ((String.append_right_inj _).mp front))]
    | _ => simp [opening] at start
  | corruptEntry index source ih =>
    cases other with
    | corruptEntry index' source' =>
      have cut (i : UInt32) (behind : String) :
          "corrupt ring entry " ++ (toString i.toNat ++ ": " ++ behind) =
            "corrupt ring entry " ++ toString i.toNat ++ ": " ++ behind := by
        simp only [String.append_assoc]
      have named := (String.append_right_inj _).mp ((cut index _).trans (same.trans (cut index' _).symm))
      obtain ⟨index, behind⟩ := number_append_inj ": " ⟨':', rfl, rfl⟩ named
      rw [UInt32.toNat_inj.mp index, ih behind (opening_eq opening_prefix openings_apart behind)]
    | _ => simp [opening] at start
  | invalidCursor cursor tail head =>
    cases other with
    | invalidCursor cursor' tail' head' =>
      obtain ⟨front, head⟩ := append_number_inj ", " ⟨' ', rfl, rfl⟩ ((String.append_left_inj _).mp same)
      obtain ⟨first, tail⟩ := append_number_inj " outside readable window [" ⟨'[', rfl, rfl⟩ front
      have cursor := toString_inj ((String.append_right_inj _).mp first)
      rw [UInt32.toNat_inj.mp head, UInt32.toNat_inj.mp tail, UInt32.toNat_inj.mp cursor]
    | _ => simp [opening] at start
  | invariantViolation requirement expected actual =>
    cases other with
    | invariantViolation requirement' expected' actual' =>
      obtain ⟨front, actual⟩ := append_number_inj ", got " ⟨' ', rfl, rfl⟩ ((String.append_left_inj _).mp same)
      obtain ⟨named, expected⟩ := append_number_inj " (expected " ⟨' ', rfl, rfl⟩ front
      rw [Requirement.text_injective ((String.append_right_inj _).mp named), expected, actual]
    | _ => simp [opening] at start
  | overflow quantity =>
    cases other with
    | overflow quantity' => rw [Quantity.text_injective ((String.append_right_inj _).mp same)]
    | _ => simp [opening] at start

end Fault

/-! ### Store faults -/

theorem FileFault.text_injective {f f' : FileFault} (same : f.text = f'.text) : f = f' := by
  revert same
  cases f <;> cases f' <;> decide

namespace StoreFault

def opening : StoreFault → String
  | accountNotFound _ => "Account not found: "
  | invalidMagic => "Invalid magic bytes in account dump"
  | unsupportedVersion _ => "Unsupported dump version "
  | truncated .. => "Truncated dump: header declares "
  | checksumMismatch .. => "Checksum mismatch: expected "
  | file _ => "IO error: "
  | layout _ => "Layout error: "

theorem opening_prefix (fault : StoreFault) : fault.opening.toList <+: fault.message.toList := by
  cases fault with
  | accountNotFound => exact prefix_append List.prefix_rfl
  | invalidMagic => exact List.prefix_rfl
  | unsupportedVersion => exact prefix_append List.prefix_rfl
  | truncated => exact prefix_append (prefix_append (prefix_append List.prefix_rfl))
  | checksumMismatch => exact prefix_append (prefix_append (prefix_append List.prefix_rfl))
  | file => exact prefix_append List.prefix_rfl
  | layout => exact prefix_append List.prefix_rfl

theorem openings_apart (fault other : StoreFault) (front : fault.opening.toList <+: other.opening.toList) :
    fault.opening = other.opening := by
  revert front
  cases fault <;> cases other <;> simp only [opening] <;> decide

/-- The text of a store fault tells all of it: the key, version, lengths or checksums, and what lies behind it. -/
theorem message_injective {fault other : StoreFault} (same : fault.message = other.message) : fault = other := by
  have start := opening_eq opening_prefix openings_apart same
  cases fault with
  | accountNotFound key =>
    cases other with
    | accountNotFound key' => rw [Pubkey.toBase58_injective ((String.append_right_inj _).mp same)]
    | _ => simp [opening] at start
  | invalidMagic =>
    cases other with
    | invalidMagic => rfl
    | _ => simp [opening] at start
  | unsupportedVersion version =>
    cases other with
    | unsupportedVersion version' =>
      rw [UInt32.toNat_inj.mp (toString_inj ((String.append_right_inj _).mp same))]
    | _ => simp [opening] at start
  | truncated declared found =>
    cases other with
    | truncated declared' found' =>
      obtain ⟨front, found⟩ := append_number_inj " bytes, found " ⟨' ', rfl, rfl⟩ same
      rw [toString_inj ((String.append_right_inj _).mp front), found]
    | _ => simp [opening] at start
  | checksumMismatch expected found =>
    cases other with
    | checksumMismatch expected' found' =>
      obtain ⟨front, found⟩ := append_number_inj ", found " ⟨' ', rfl, rfl⟩ same
      have expected := toString_inj ((String.append_right_inj _).mp front)
      rw [UInt64.toNat_inj.mp expected, UInt64.toNat_inj.mp found]
    | _ => simp [opening] at start
  | file fault =>
    cases other with
    | file fault' => rw [FileFault.text_injective ((String.append_right_inj _).mp same)]
    | _ => simp [opening] at start
  | layout fault =>
    cases other with
    | layout fault' => rw [Fault.message_injective ((String.append_right_inj _).mp same)]
    | _ => simp [opening] at start

end StoreFault

end StakePool
