import StakePool.Proofs.Base58
import StakePool.Pubkey

/-!
# The text and the order of keys

The text of a key is the only text that is parsed as this key: `Pubkey.parse_eq_ok_iff`. `Pubkey.text_is_canonical` adds
what becomes of all other texts. Sorting keys forgets the order in which they came (`Pubkey.sort_eq_of_perm`) and puts
distinct keys into strictly ascending order (`Pubkey.pairwise_lt_sort`).
-/

namespace StakePool

namespace Pubkey

open Base58 (Known contents encode)

/-! ### Text -/

variable {text : String} {key : Pubkey}

theorem parse_of_known (known : Known text) :
    parse text =
      if 32 < (contents text).length then .error .tooLong
      else if sized : (contents text).length = 32 then .ok ⟨contents text, sized⟩
      else .error (.wrongLength (contents text).length) := by
  rw [parse, Base58.decode_of_known known]
  by_cases long : 32 < (contents text).length
  · rw [if_pos long, if_pos long]
  · rw [if_neg long, if_neg long]

theorem known_of_parse (parsed : parse text = .ok key) : Known text := by
  unfold parse at parsed
  split at parsed
  · cases parsed
  · cases parsed
  · rename_i bytes decoded
    exact Base58.known_of_decode decoded

theorem parse_eq_ok_iff_contents (known : Known text) : parse text = .ok key ↔ key.bytes = contents text := by
  rw [parse_of_known known]
  constructor
  · intro parsed
    split at parsed
    · cases parsed
    split at parsed
    · exact (congrArg Block.bytes (Except.ok.inj parsed)).symm
    · cases parsed
  · intro same
    have sized : (contents text).length = 32 := same ▸ key.length_eq
    rw [if_neg (by omega), dif_pos sized]
    exact congrArg Except.ok (Block.ext same.symm)

/-- A key is parsed from its own text and from no other. -/
theorem parse_eq_ok_iff : parse text = .ok key ↔ text = key.toBase58 := by
  constructor
  · intro parsed
    have known := known_of_parse parsed
    rw [toBase58, (parse_eq_ok_iff_contents known).mp parsed, Base58.encode_contents known]
  · rintro rfl
    exact (parse_eq_ok_iff_contents (Base58.known_encode _)).mpr (Base58.contents_encode _).symm

theorem parse_toBase58 (key : Pubkey) : parse key.toBase58 = .ok key := parse_eq_ok_iff.mpr rfl

theorem toBase58_injective {key key' : Pubkey} (same : key.toBase58 = key'.toBase58) : key = key' := by
  have parsed := parse_toBase58 key
  rw [same, parse_toBase58] at parsed
  exact (Except.ok.inj parsed).symm

theorem parse_of_not_known (unknown : ¬ Known text) :
    parse text = .error .invalidBase58 ∨ parse text = .error .tooLong := by
  unfold parse
  split
  · exact .inl rfl
  · exact .inr rfl
  · rename_i bytes decoded
    exact absurd (Base58.known_of_decode decoded) unknown

/-- Keys and their texts correspond one to one. A text over the alphabet is judged by the length of what it stands for,
and any other text is refused. -/
theorem text_is_canonical :
    (∀ key : Pubkey, parse key.toBase58 = .ok key) ∧
    (∀ text key, parse text = .ok key → text = key.toBase58) ∧
    (∀ first second : Pubkey, first.toBase58 = second.toBase58 → first = second) ∧
    (∀ bytes, Known (encode bytes) ∧ contents (encode bytes) = bytes) ∧
    (∀ text, Known text →
      encode (contents text) = text ∧
      (∀ key, parse text = .ok key ↔ key.bytes = contents text) ∧
      ((∃ key, parse text = .ok key) ↔ (contents text).length = 32) ∧
      (∀ n, parse text = .error (.wrongLength n) ↔ (contents text).length = n ∧ n < 32) ∧
      (parse text = .error .tooLong ↔ 32 < (contents text).length)) ∧
    (∀ text, ¬ Known text → parse text = .error .invalidBase58 ∨ parse text = .error .tooLong) := by
  refine ⟨parse_toBase58, fun text key => parse_eq_ok_iff.mp, fun first second => toBase58_injective, fun bytes =>
    ⟨Base58.known_encode bytes, Base58.contents_encode bytes⟩, fun text known => ?known, fun text => parse_of_not_known⟩
  case known =>
    refine ⟨Base58.encode_contents known, fun key => parse_eq_ok_iff_contents known, ?_⟩
    rw [parse_of_known known]
    rcases Nat.lt_trichotomy (contents text).length 32 with short | sized | long
    · rw [if_neg (by omega), dif_neg (by omega)]
      simp
      omega
    · rw [if_neg (by omega), dif_pos sized]
      simp
      omega
    · rw [if_pos long]
      simp
      omega

/-- Each `1` in front stands for a byte, so that 33 of them are too many. -/
theorem text_is_canonical_ones :
    Known (String.ofList (List.replicate 33 '1')) ∧
      parse (String.ofList (List.replicate 33 '1')) = .error .tooLong := by
  have known : Known (String.ofList (List.replicate 33 '1')) := by
    intro c inside
    rw [String.toList_ofList] at inside
    rw [List.eq_of_mem_replicate inside, ← Base58.symbol_zero]
    exact Base58.symbol_mem (by decide)
  have long : 32 < (contents (String.ofList (List.replicate 33 '1'))).length := by
    rw [contents, List.length_append, Bytes.length_zeros, String.toList_ofList]
    exact Nat.lt_add_right _ (by decide)
  exact ⟨known, (text_is_canonical.2.2.2.2.1 _ known).2.2.2.2.mpr long⟩

/-! ### Order -/

variable {a b c : Pubkey}

theorem le_iff : le a b = true ↔ a.bytes ≤ b.bytes := decide_eq_true_iff

theorem le_trans (first : le a b = true) (second : le b c = true) : le a c = true :=
  le_iff.mpr (List.le_trans (le_iff.mp first) (le_iff.mp second))

theorem le_antisymm (ascending : le a b = true) (descending : le b a = true) : a = b :=
  Block.ext (List.le_antisymm (le_iff.mp ascending) (le_iff.mp descending))

theorem le_total (a b : Pubkey) : (le a b || le b a) = true := by
  rw [Bool.or_eq_true, le_iff, le_iff]
  exact List.le_total _ _

theorem pairwise_le_sort (keys : List Pubkey) : (sort keys).Pairwise fun a b => le a b = true :=
  @List.pairwise_mergeSort _ le (fun _ _ _ => le_trans) le_total keys

theorem perm_sort (keys : List Pubkey) : (sort keys).Perm keys := List.mergeSort_perm keys le

theorem mem_sort {key : Pubkey} {keys : List Pubkey} : key ∈ sort keys ↔ key ∈ keys := (perm_sort keys).mem_iff

/-- Sorting forgets the order in which the keys came. -/
theorem sort_eq_of_perm {keys keys' : List Pubkey} (same : keys.Perm keys') : sort keys = sort keys' := by
  have perm : (sort keys).Perm (sort keys') := (perm_sort keys).trans (same.trans (perm_sort keys').symm)
  exact perm.eq_of_pairwise (fun _ _ _ _ => le_antisymm) (pairwise_le_sort keys) (pairwise_le_sort keys')

/-- Keys of which none comes twice are sorted into strictly ascending order. -/
theorem pairwise_lt_sort {keys : List Pubkey} (distinct : keys.Nodup) :
    (sort keys).Pairwise fun a b => a.bytes < b.bytes := by
  have distinct : (sort keys).Nodup := (perm_sort keys).nodup_iff.mpr distinct
  refine ((pairwise_le_sort keys).and distinct).imp ?_
  rintro a b ⟨ascending, different⟩
  refine Decidable.not_not.mp fun notBelow => different ?_
  exact le_antisymm ascending (le_iff.mpr (List.not_lt.mp notBelow))

end Pubkey

end StakePool
