import StakePool.Account.Mint
import StakePool.Account.RewardVendor
import StakePool.Account.Token
import StakePool.Account.Vesting
import StakePool.Proofs.Codec.Checks
import StakePool.Ring.Basic

/-!
# What account records check

The checks of each account record, with the offsets that they have in its bytes. `Layout.decodesBy` says what follows
from them; records without optional parts are written back as the bytes that they were read from. A number that stands
outside the optional parts is read from where it is written (`Layout.DecodesBy.word_eq`).
-/

namespace StakePool

namespace Check

/-- A byte that is 0 or 1. -/
def flag (offset : Nat) (field : String) : Check := ⟨offset, 1, field, [0, 1], 0⟩

/-- The four bytes in front of an optional part of `space` bytes. -/
def mark (offset space : Nat) : Check := ⟨offset, 4, "coption", [0, 1], space⟩

end Check

theorem ByteCode.values_bool : ByteCode.bool.values = [0, 1] := by decide +kernel

theorem AccountState.values_code : AccountState.code.values = [0, 1, 2] := by decide +kernel

/-! ### Each record -/

theorem Vesting.decodesBy : layout.DecodesBy 210 [.flag 0 "initialized", .flag 65 "claimed"] := by
  refine Layout.decodesBy_of_checks ?flat ?checks rfl (by decide)
  case flat => simp [layout, Layout.Flat]
  case checks =>
    simp only [layout, Layout.checks, ByteCode.values_bool]
    rfl

theorem RewardVendor.decodesBy : layout.DecodesBy 86 [.flag 0 "initialized"] := by
  refine Layout.decodesBy_of_checks ?flat ?checks rfl (by decide)
  case flat => simp [layout, Layout.Flat]
  case checks =>
    simp only [layout, Layout.checks, ByteCode.values_bool]
    rfl

theorem RingHeader.decodesBy : layout.DecodesBy 36 [] :=
  Layout.decodesBy_of_checks ⟨trivial, trivial⟩ rfl rfl (by decide)

theorem Mint.decodesBy : layout.DecodesBy 82 [.mark 0 32, .flag 45 "is_initialized", .mark 46 32] := by
  refine Layout.decodesBy_of_checks ?flat ?checks rfl (by decide)
  case flat => simp [layout, Layout.Flat, Layout.Plain]
  case checks =>
    simp only [layout, Layout.checks, ByteCode.values_bool]
    rfl

theorem TokenAccount.decodesBy :
    layout.DecodesBy 165 [.mark 72 32, ⟨108, 1, "state", [0, 1, 2], 0⟩, .mark 109 8, .mark 129 32] := by
  refine Layout.decodesBy_of_checks ?flat ?checks rfl (by decide)
  case flat => simp [layout, Layout.Flat, Layout.Plain]
  case checks =>
    simp only [layout, Layout.checks, AccountState.values_code]
    rfl

/-! ### Where numbers are stored -/

namespace Layout

variable {α β γ : Type} {w : Word γ} {start : Nat}

/-- Every value is written with the word that `get` finds in it at `start`. -/
def Stores (l : Layout α) (start : Nat) (w : Word γ) (get : α → γ) : Prop :=
  ∀ a, ∃ before after, l.encode a = before ++ (w.bytes (get a) ++ after) ∧ before.length = start

theorem stores_word (w : Word γ) : (word w).Stores 0 w id := by
  intro a
  refine ⟨[], [], ?_, rfl⟩
  rw [encode_word, List.nil_append, List.append_nil, id]

theorem stores_first {first : Layout α} {get : α → γ} (stored : first.Stores start w get) (second : Layout β) :
    (pair first second).Stores start w fun x => get x.1 := by
  intro (a, b)
  obtain ⟨before, after, split, reached⟩ := stored a
  refine ⟨before, after ++ second.encode b, ?_, reached⟩
  rw [encode_pair, split, List.append_assoc, List.append_assoc]

theorem stores_second {second : Layout β} {get : β → γ} (first : Layout α) (stored : second.Stores start w get) :
    (pair first second).Stores (first.size + start) w fun x => get x.2 := by
  intro (a, b)
  obtain ⟨before, after, split, reached⟩ := stored b
  refine ⟨first.encode a ++ before, after, ?_, ?_⟩
  · rw [encode_pair, split, List.append_assoc]
  · rw [List.length_append, length_encode, reached]

theorem stores_via {inner : Layout α} {get : α → γ} (b : Bijection α β) (stored : inner.Stores start w get) :
    (via b inner).Stores start w fun x => get (b.back x) := fun x => stored (b.back x)

theorem DecodesBy.word_eq {l : Layout α} {size : Nat} {checks : List Check} (record : l.DecodesBy size checks)
    {get : α → γ} (stored : l.Stores start w get)
    (apart : ∀ c ∈ checks, start + w.width ≤ c.offset + c.width ∨ c.stop ≤ start) {bytes : Bytes} {a : α}
    (decoded : l.decodeExact bytes = .ok a) : get a = w.ofBytes ((bytes.drop start).take w.width) := by
  obtain ⟨before, after, split, reached⟩ := stored a
  rw [← record.window_encode decoded apart, split, List.drop_left' reached, List.take_left' (Word.length_bytes ..),
    Word.ofBytes_bytes]

end Layout

theorem Mint.stores_supply : layout.Stores 36 Word.u64 supply :=
  Layout.stores_via fields <| Layout.stores_second _ <| Layout.stores_first (Layout.stores_word _) _

theorem TokenAccount.stores_amount : layout.Stores 64 Word.u64 amount :=
  Layout.stores_via fields <| Layout.stores_second _ <| Layout.stores_second _ <|
    Layout.stores_first (Layout.stores_word _) _

/-- A record is accepted when its checks pass, and written back as it was but for zeros in the space of absent parts. Of
several checks that fail, the first one in the record is reported. -/
theorem account_records_decode_by_checks :
    Vesting.layout.DecodesBy 210 [.flag 0 "initialized", .flag 65 "claimed"] ∧
    RewardVendor.layout.DecodesBy 86 [.flag 0 "initialized"] ∧
    RingHeader.layout.DecodesBy 36 [] ∧
    Mint.layout.DecodesBy 82 [.mark 0 32, .flag 45 "is_initialized", .mark 46 32] ∧
    TokenAccount.layout.DecodesBy 165
      [.mark 72 32, ⟨108, 1, "state", [0, 1, 2], 0⟩, .mark 109 8, .mark 129 32] ∧
    (∀ bytes v, Vesting.layout.decodeExact bytes = .ok v → Vesting.layout.encode v = bytes) ∧
    (∀ bytes v, RewardVendor.layout.decodeExact bytes = .ok v → RewardVendor.layout.encode v = bytes) ∧
    (∀ bytes h, RingHeader.layout.decodeExact bytes = .ok h → RingHeader.layout.encode h = bytes) :=
  ⟨Vesting.decodesBy, RewardVendor.decodesBy, RingHeader.decodesBy, Mint.decodesBy, TokenAccount.decodesBy,
    fun _ _ => Vesting.decodesBy.encode_eq (by decide), fun _ _ => RewardVendor.decodesBy.encode_eq (by decide),
    fun _ _ => RingHeader.decodesBy.encode_eq (by decide)⟩

/-- What lies in the space of an absent authority is not kept. -/
theorem account_records_decode_by_checks_absent :
    let bytes : Bytes := Bytes.zeros 4 ++ List.replicate 32 7 ++ Bytes.zeros 46
    bytes[4]? = some 7 ∧
      ∃ mint, Mint.layout.decodeExact bytes = .ok mint ∧ (Mint.layout.encode mint)[4]? = some 0 := by
  intro bytes
  let checks : List Check := [.mark 0 32, .flag 45 "is_initialized", .mark 46 32]
  have mints : Mint.layout.DecodesBy 82 checks := account_records_decode_by_checks.2.2.2.1
  have pass : ∀ c ∈ checks, c.value bytes ∈ c.accepted := by decide +kernel
  have hidden : ∃ c ∈ checks, c.Hides bytes 4 := ⟨.mark 0 32, .head _, by decide +kernel⟩
  obtain ⟨mint, decoded⟩ := (mints.accepted_iff bytes).mpr ⟨rfl, pass⟩
  refine ⟨rfl, mint, decoded, ?_⟩
  rw [mints.normal_form bytes mint decoded]
  exact getElem?_blank_of_hidden hidden (show 4 < 82 by decide)

end StakePool
