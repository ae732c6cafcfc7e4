import Mathlib.Data.Nat.Digits.Lemmas
import StakePool.Base58
import StakePool.Proofs.Outcome

/-!
# Base58 in both directions

A byte string and a base58 text are both a run of zeros and then the digits of a number, to base 256 and to base 58
(`Radix.spell`). So `Base58.contents`, what a text stands for, and `Base58.encode` undo each other, and the decoder that
is bound to a length gives the contents of a text or finds them too long (`Base58.decode_of_known`).
-/

namespace StakePool

/-! ### Digits, most significant first -/

namespace Radix

/-- `zeros` zeros, and then the digits of a number. -/
def spell (base zeros n : Nat) : List Nat := List.replicate zeros 0 ++ (Nat.digits base n).reverse

def zerosInFront (ds : List Nat) : Nat := (ds.takeWhile (· = 0)).length

theorem zerosInFront_zero_cons (ds : List Nat) : zerosInFront (0 :: ds) = zerosInFront ds + 1 := rfl

theorem zerosInFront_cons_of_ne {d : Nat} (nonzero : d ≠ 0) (ds : List Nat) : zerosInFront (d :: ds) = 0 := by
  rw [zerosInFront, List.takeWhile_cons_of_neg (by simpa using nonzero), List.length_nil]

theorem value_eq_ofDigits (base : Nat) (ds : List Nat) : value base ds = Nat.ofDigits base ds := by
  induction ds with
  | nil => rfl
  | cons d ds ih => rw [value_cons, ih, Nat.ofDigits_cons]

theorem bound_eq_pow (base n : Nat) : bound base n = base ^ n := by
  induction n with
  | zero => rfl
  | succ n ih => rw [bound, ih, Nat.pow_succ, Nat.mul_comm]

theorem takeWhile_zero (ds : List Nat) : ds.takeWhile (· = 0) = List.replicate (zerosInFront ds) 0 := by
  refine List.eq_replicate_iff.mpr ⟨rfl, fun d member => ?_⟩
  exact of_decide_eq_true (List.all_eq_true.mp List.all_takeWhile d member)

variable {base : Nat} {ds : List Nat}

/-- What follows the zeros in front are the digits of the whole. -/
theorem dropWhile_zero (proper : 1 < base) (small : ∀ d ∈ ds, d < base) :
    ds.dropWhile (· = 0) = (Nat.digits base (value base ds.reverse)).reverse := by
  have split := List.takeWhile_append_dropWhile (p := (· = 0)) (l := ds)
  rw [takeWhile_zero] at split
  have head {nonempty : ds.dropWhile (· = 0) ≠ []} : (ds.dropWhile (· = 0)).head nonempty ≠ 0 :=
    of_decide_eq_false (List.head_dropWhile_not (· = 0) nonempty)
  generalize ds.dropWhile (· = 0) = top at split head
  have value : value base ds.reverse = Nat.ofDigits base top.reverse := by
    rw [value_eq_ofDigits, ← split, List.reverse_append, List.reverse_replicate, Nat.ofDigits_append_replicate_zero]
  have digits : Nat.digits base (Nat.ofDigits base top.reverse) = top.reverse := by
    refine Nat.digits_ofDigits base proper _ (fun d member => ?_) fun nonempty => ?_
    · exact small d (split ▸ List.mem_append_right _ (List.mem_reverse.mp member))
    · rw [List.getLast_reverse]
      exact head
  rw [value, digits, List.reverse_reverse]

theorem spell_value (proper : 1 < base) (small : ∀ d ∈ ds, d < base) :
    spell base (zerosInFront ds) (value base ds.reverse) = ds := by
  rw [spell, ← dropWhile_zero proper small, ← takeWhile_zero, List.takeWhile_append_dropWhile]

theorem value_spell (base zeros n : Nat) : value base (spell base zeros n).reverse = n := by
  rw [spell, List.reverse_append, List.reverse_reverse, List.reverse_replicate, value_eq_ofDigits,
    Nat.ofDigits_append_replicate_zero, Nat.ofDigits_digits]

theorem zerosInFront_spell (base zeros n : Nat) : zerosInFront (spell base zeros n) = zeros := by
  have stop : (Nat.digits base n).reverse.takeWhile (· = 0) = [] := by
    cases digits : (Nat.digits base n).reverse with
    | nil => rfl
    | cons d ds =>
      have positive : n ≠ 0 := by
        rintro rfl
        rw [Nat.digits_zero] at digits
        cases digits
      have last := Nat.getLast_digit_ne_zero base positive
      have first : d ≠ 0 := by simpa [← List.head_reverse, digits] using last
      rw [List.takeWhile_cons_of_neg (by simpa using first)]
  rw [zerosInFront, spell, List.takeWhile_append_of_pos (by simp), stop, List.append_nil, List.length_replicate]

theorem spell_lt (proper : 1 < base) (zeros n : Nat) : ∀ d ∈ spell base zeros n, d < base := by
  intro d member
  rcases List.mem_append.mp member with zero | digit
  · rw [List.eq_of_mem_replicate zero]
    omega
  · exact Nat.digits_lt_base proper (List.mem_reverse.mp digit)

end Radix

namespace Base58

open Radix (spell zerosInFront value)

/-! ### Symbols -/

theorem alphabet_eq : alphabet =
    ['1', '2', '3', '4', '5', '6', '7', '8', '9', 'A', 'B', 'C', 'D', 'E', 'F', 'G', 'H', 'J', 'K', 'L', 'M', 'N', 'P',
      'Q', 'R', 'S', 'T', 'U', 'V', 'W', 'X', 'Y', 'Z', 'a', 'b', 'c', 'd', 'e', 'f', 'g', 'h', 'i', 'j', 'k', 'm',
      'n', 'o', 'p', 'q', 'r', 's', 't', 'u', 'v', 'w', 'x', 'y', 'z'] := String.toList_ofList

theorem length_alphabet : alphabet.length = 58 := by
  rw [alphabet_eq]
  rfl

theorem symbol_zero : symbol 0 = '1' := by
  rw [symbol, alphabet_eq]
  rfl

/-- The digit that a symbol stands for. -/
def digitOf (c : Char) : Nat := alphabet.idxOf c

/-- The symbols stand in ascending order, so that none comes twice. -/
theorem nodup_alphabet : alphabet.Nodup := by
  have ascending : alphabet.IsChain (· < ·) := by
    rw [alphabet_eq]
    decide +kernel
  exact (List.isChain_iff_pairwise.mp ascending).imp Char.ne_of_lt

theorem symbol_eq_getElem {d : Nat} (small : d < alphabet.length) : symbol d = alphabet[d] := by
  rw [symbol, List.getD_eq_getElem?_getD, List.getElem?_eq_getElem small, Option.getD_some]

theorem digitOf_symbol {d : Nat} (small : d < 58) : digitOf (symbol d) = d := by
  rw [← length_alphabet] at small
  rw [digitOf, symbol_eq_getElem small, nodup_alphabet.idxOf_getElem]

theorem symbol_mem {d : Nat} (small : d < 58) : symbol d ∈ alphabet := by
  rw [← length_alphabet] at small
  rw [symbol_eq_getElem small]
  exact List.getElem_mem small

section Known

variable {c : Char} (known : c ∈ alphabet)

include known

theorem digitOf_lt : digitOf c < 58 := by
  rw [digitOf, ← length_alphabet]
  exact List.idxOf_lt_length_iff.mpr known

theorem symbol_digitOf : symbol (digitOf c) = c := by
  rw [digitOf, symbol_eq_getElem (List.idxOf_lt_length_iff.mpr known), List.getElem_idxOf]

theorem digit?_eq_digitOf : digit? c = some (digitOf c) := by
  obtain ⟨d, found⟩ := Option.isSome_iff_exists.mp (List.isSome_idxOf?.mpr known)
  rw [digit?, digitOf, List.idxOf_eq_getD_idxOf?, found, Option.getD_some]

theorem digitOf_eq_zero_iff : digitOf c = 0 ↔ c = '1' := by
  constructor
  · intro zero
    rw [← symbol_digitOf known, zero, symbol_zero]
  · rintro rfl
    rw [← symbol_zero, digitOf_symbol (by decide)]

end Known

theorem digit?_eq_none_iff {c : Char} : digit? c = none ↔ c ∉ alphabet := List.idxOf?_eq_none_iff

/-! ### What a text stands for -/

/-- The digits of a text, most significant first. -/
def digits (text : String) : List Nat := text.toList.map digitOf

/-- What a text stands for, at whatever length: a zero byte for each `1` in front, and then the bytes of the number that
its digits make, most significant first. -/
def contents (text : String) : Bytes :=
  Bytes.zeros (text.toList.takeWhile (· = '1')).length ++
    ((Nat.digits 256 (value 58 (digits text).reverse)).map UInt8.ofNat).reverse

/-- Whether a text has no symbols but those of the alphabet. -/
def Known (text : String) : Prop := ∀ c ∈ text.toList, c ∈ alphabet

section Known

variable {text : String} (known : Known text)

include known

theorem digits_lt : ∀ d ∈ digits text, d < 58 := by
  intro d member
  obtain ⟨c, inside, rfl⟩ := List.mem_map.mp member
  exact digitOf_lt (known c inside)

theorem map_symbol_digits : (digits text).map symbol = text.toList := by
  rw [digits, List.map_map, Function.comp_def]
  exact (List.map_congr_left fun c inside => symbol_digitOf (known c inside)).trans (List.map_id _)

theorem length_takeWhile_one : (text.toList.takeWhile (· = '1')).length = zerosInFront (digits text) := by
  unfold Known digits at *
  generalize text.toList = cs at known ⊢
  induction cs with
  | nil => rfl
  | cons c cs ih =>
    have same := digitOf_eq_zero_iff (known c List.mem_cons_self)
    have rest := ih fun x later => known x (List.mem_cons_of_mem c later)
    by_cases one : c = '1'
    · rw [List.map_cons, same.mpr one, Radix.zerosInFront_zero_cons, ← rest,
        List.takeWhile_cons_of_pos (p := (· = '1')) (decide_eq_true one), List.length_cons]
    · rw [List.map_cons, Radix.zerosInFront_cons_of_ne (mt same.mp one),
        List.takeWhile_cons_of_neg (p := (· = '1')) (by simpa using one), List.length_nil]

/-- The bytes of the contents are the digits to base 256 of a text's zeros and number. -/
theorem contents_eq : contents text =
    (spell 256 (zerosInFront (digits text)) (value 58 (digits text).reverse)).map UInt8.ofNat := by
  rw [contents, length_takeWhile_one known, spell, List.map_append, List.map_replicate, List.map_reverse]
  rfl

end Known

/-! ### The text of a byte string -/

theorem number_eq (bytes : Bytes) : number bytes = value 256 (bytes.map UInt8.toNat).reverse := by
  rw [number, Bytes.ofLittleEndian, List.map_reverse]

theorem number_lt (bytes : Bytes) : number bytes < Radix.bound 256 bytes.length := by
  have lt := Bytes.ofLittleEndian_lt bytes.reverse
  rwa [List.length_reverse] at lt

/-- Two digits are more than enough for a byte. -/
theorem bound_le (n : Nat) : Radix.bound 256 n ≤ Radix.bound 58 (2 * n) := by
  induction n with
  | zero => exact Nat.le_refl 1
  | succ n ih =>
    show 256 * Radix.bound 256 n ≤ 58 * (58 * Radix.bound 58 (2 * n))
    omega

theorem isZero_comp_toNat : (fun n : Nat => decide (n = 0)) ∘ UInt8.toNat = fun b => decide (b = 0) := by
  funext b
  exact decide_eq_decide.mpr (UInt8.toNat_inj (b := 0))

theorem zerosInFront_map_toNat (bytes : Bytes) :
    zerosInFront (bytes.map UInt8.toNat) = (bytes.takeWhile (· = 0)).length := by
  rw [zerosInFront, List.takeWhile_map, List.length_map, isZero_comp_toNat]

/-- What follows the zero bytes in front are the bytes of the number. -/
theorem dropWhile_zero_eq (bytes : Bytes) :
    bytes.dropWhile (· = 0) = ((Nat.digits 256 (number bytes)).map UInt8.ofNat).reverse := by
  have digits := Radix.dropWhile_zero (by decide) (Bytes.toNat_mem_lt bytes)
  rw [List.dropWhile_map, isZero_comp_toNat, ← number_eq] at digits
  rw [← List.map_reverse, ← digits, List.map_map]
  exact ((List.map_congr_left fun b _ => by simp).trans (List.map_id _)).symm

/-- The symbols of a byte string are the digits to base 58 of its zeros and number. -/
theorem toList_encode (bytes : Bytes) :
    (encode bytes).toList = (spell 58 (zerosInFront (bytes.map UInt8.toNat)) (number bytes)).map symbol := by
  have fits := Nat.lt_of_lt_of_le (number_lt bytes) (bound_le _)
  have significant : (Radix.digits 58 (2 * bytes.length) (number bytes)).reverse.dropWhile (· = 0) =
      (Nat.digits 58 (number bytes)).reverse := by
    rw [Radix.dropWhile_zero (by decide) fun d member => Radix.digits_lt (by decide) _ _ d (List.mem_reverse.mp member),
      List.reverse_reverse, Radix.value_digits_of_lt fits]
  rw [encode, String.toList_ofList, significant, spell, List.map_append, List.map_replicate, symbol_zero, List.map_const',
    zerosInFront_map_toNat]

/-! ### There and back -/

theorem known_encode (bytes : Bytes) : Known (encode bytes) := by
  intro c inside
  rw [toList_encode] at inside
  obtain ⟨d, digit, rfl⟩ := List.mem_map.mp inside
  exact symbol_mem (Radix.spell_lt (by decide) _ _ d digit)

theorem digits_encode (bytes : Bytes) :
    digits (encode bytes) = spell 58 (zerosInFront (bytes.map UInt8.toNat)) (number bytes) := by
  rw [digits, toList_encode, List.map_map, Function.comp_def]
  refine (List.map_congr_left fun d digit => ?_).trans (List.map_id _)
  exact digitOf_symbol (Radix.spell_lt (by decide) _ _ d digit)

theorem contents_encode (bytes : Bytes) : contents (encode bytes) = bytes := by
  rw [contents_eq (known_encode bytes), digits_encode, Radix.zerosInFront_spell, Radix.value_spell, number_eq,
    Radix.spell_value (by decide) (Bytes.toNat_mem_lt bytes), List.map_map]
  exact (List.map_congr_left fun b _ => by simp).trans (List.map_id _)

theorem encode_contents {text : String} (known : Known text) : encode (contents text) = text := by
  apply String.toList_inj.mp
  have bytes : (contents text).map UInt8.toNat =
      spell 256 (zerosInFront (digits text)) (value 58 (digits text).reverse) := by
    rw [contents_eq known, Bytes.map_toNat_map_ofNat (Radix.spell_lt (by decide) _ _)]
  rw [toList_encode, number_eq, bytes, Radix.zerosInFront_spell, Radix.value_spell,
    Radix.spell_value (by decide) (digits_lt known), map_symbol_digits known]

/-! ### Decoding -/

/-- The number that `n` becomes when these digits are written behind it. -/
def extend (n : Nat) (ds : List Nat) : Nat := ds.foldl (fun n d => n * 58 + d) n

theorem extend_cons (n d : Nat) (ds : List Nat) : extend n (d :: ds) = extend (n * 58 + d) ds := rfl

theorem le_extend (n : Nat) (ds : List Nat) : n ≤ extend n ds := by
  induction ds generalizing n with
  | nil => exact Nat.le_refl n
  | cons d ds ih =>
    have step : n ≤ n * 58 + d := by omega
    exact Nat.le_trans step (ih _)

theorem extend_zero_eq_value (ds : List Nat) : extend 0 ds.reverse = value 58 ds := by
  induction ds with
  | nil => rfl
  | cons d ds ih =>
    rw [extend, List.reverse_cons, List.foldl_append, Radix.value_cons, ← ih, Nat.add_comm, Nat.mul_comm]
    rfl

variable {limit n m : Nat} {cs : List Char}

theorem readNumber_cons (limit n : Nat) (c : Char) (cs : List Char) :
    readNumber limit n (c :: cs) = match digit? c with
      | none => .error .badSymbol
      | some d =>
        if Radix.bound 256 limit ≤ n * 58 + d then .error .tooLong else readNumber limit (n * 58 + d) cs := rfl

theorem readNumber_of_mem (known : ∀ c ∈ cs, c ∈ alphabet) (fits : n < Radix.bound 256 limit) :
    readNumber limit n cs =
      if Radix.bound 256 limit ≤ extend n (cs.map digitOf) then .error .tooLong
      else .ok (extend n (cs.map digitOf)) := by
  induction cs generalizing n with
  | nil => exact (if_neg (Nat.not_le.mpr fits)).symm
  | cons c cs ih =>
    rw [readNumber_cons, digit?_eq_digitOf (known c List.mem_cons_self), List.map_cons, extend_cons]
    dsimp only
    split
    · rename_i long
      rw [if_pos (Nat.le_trans long (le_extend _ _))]
    · rename_i short
      exact ih (fun x later => known x (List.mem_cons_of_mem c later)) (Nat.not_le.mp short)

theorem mem_of_readNumber (read : readNumber limit n cs = .ok m) : ∀ c ∈ cs, c ∈ alphabet := by
  induction cs generalizing n with
  | nil => simp
  | cons c cs ih =>
    rw [readNumber_cons] at read
    split at read
    · cases read
    · rename_i d found
      split at read
      · cases read
      · intro x member
        rcases List.mem_cons.mp member with rfl | later
        · refine Decidable.not_not.mp fun unknown => ?_
          rw [digit?_eq_none_iff.mpr unknown] at found
          cases found
        · exact ih read x later

theorem dropWhile_zero_littleEndian (fits : n < Radix.bound 256 limit) :
    (Bytes.littleEndian limit n).reverse.dropWhile (· = 0) = ((Nat.digits 256 n).map UInt8.ofNat).reverse := by
  rw [dropWhile_zero_eq, number, List.reverse_reverse, Bytes.ofLittleEndian_littleEndian fits]

/-- A text of known symbols is decoded to its contents when these are within the limit. -/
theorem decode_of_known {text : String} (known : Known text) :
    decode limit text = if limit < (contents text).length then .error .tooLong else .ok (contents text) := by
  have positive : 0 < Radix.bound 256 limit := by
    rw [Radix.bound_eq_pow]
    exact Nat.pow_pos (by decide)
  have read := readNumber_of_mem known positive
  have total : extend 0 (digits text) = value 58 (digits text).reverse := by
    rw [← extend_zero_eq_value, List.reverse_reverse]
  rw [← digits, total] at read
  have length : (contents text).length =
      (text.toList.takeWhile (· = '1')).length + (Nat.digits 256 (value 58 (digits text).reverse)).length := by
    rw [contents, List.length_append, Bytes.length_zeros, List.length_reverse, List.length_map]
  unfold decode
  dsimp only
  rw [read]
  by_cases long : Radix.bound 256 limit ≤ value 58 (digits text).reverse
  · have digitsLong : limit < (Nat.digits 256 (value 58 (digits text).reverse)).length := by
      rw [Nat.lt_digits_length_iff (by decide), ← Radix.bound_eq_pow]
      exact long
    rw [if_pos long, if_pos (by omega)]
    rfl
  · rw [if_neg long]
    change (if limit < _ + ((Bytes.littleEndian limit _).reverse.dropWhile (· = 0)).length then _ else
      Except.ok (Bytes.zeros _ ++ (Bytes.littleEndian limit _).reverse.dropWhile (· = 0))) = _
    rw [dropWhile_zero_littleEndian (Nat.not_le.mp long), ← contents, length, List.length_reverse, List.length_map]
    rfl

theorem known_of_decode {text : String} {bytes : Bytes} (decoded : decode limit text = .ok bytes) : Known text := by
  obtain ⟨n, read, -⟩ := bind_eq_ok_iff.mp (show readNumber limit 0 text.toList >>= _ = _ from decoded)
  exact mem_of_readNumber read

end Base58

end StakePool
