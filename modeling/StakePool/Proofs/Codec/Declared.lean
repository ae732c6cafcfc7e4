import StakePool.Account.Mint
import StakePool.Account.RewardVendor
import StakePool.Account.Token
import StakePool.Account.Vesting
import StakePool.AdminRequest
import StakePool.Proofs.Codec.RoundTrip
import StakePool.Ring.Basic

/-!
# What encoders declare

The types that are stored, each with the number of bytes that it declares: a sum that is written down field by field,
apart from the layout that its encoder follows. The two agree whatever the value and however nested the type
(`StoredType.encodedLength_format`), so an encoder appends as many bytes as are declared:
`StoredType.appends_as_declared`.
-/

namespace StakePool

/-! ### Counts that are checked -/

/-- Appends a 4-byte count, if four bytes can hold it. -/
def Writer.putCount? (w : Writer) (n : Nat) : Option Writer :=
  if n ≤ 0xffffffff then some (w.putCount n) else none

namespace Format

variable {α : Type} {f : Format α} {a : α} {w w' : Writer}

/-- Appends the bytes of a value, if every count in it can be held. -/
def encodeInto? : {α : Type} → Format α → α → Writer → Option Writer
  | _, fixed l, a, w => some (l.encodeInto a w)
  | _, sequence item, items, w =>
    (w.putCount? items.length).map fun w => items.foldl (fun w a => item.encodeInto a w) w
  | _, pair first second, (a, b), w => do second.encodeInto? b (← first.encodeInto? a w)
  | _, variant c format, ⟨i, a⟩, w => (format i).encodeInto? a (w.putWord Word.u8 (c.toByte i))
  | _, via bijection inner, b, w => inner.encodeInto? (bijection.back b) w

/-- The counts that are checked are those of the sequences in a value, and they are all that is checked. -/
theorem encodeInto?_eq_some_iff : f.encodeInto? a w = some w' ↔ f.Fits a ∧ w' = f.encodeInto a w := by
  induction f generalizing w w' with
  | fixed l =>
    rw [encodeInto?, encodeInto, Fits, Option.some.injEq, eq_comm, true_and]
  | sequence item =>
    rw [encodeInto?, encodeInto, Fits, Writer.putCount?]
    by_cases fits : a.length ≤ 0xffffffff
    · rw [if_pos fits, Option.map_some, Option.some.injEq, eq_comm, and_iff_right fits]
    · rw [if_neg fits, Option.map_none]
      constructor
      · intro written
        cases written
      · intro held
        exact absurd held.1 fits
  | pair first second ihFirst ihSecond =>
    obtain ⟨a, b⟩ := a
    rw [encodeInto?, encodeInto, Fits]
    -- The second part starts from the writer that the first part leaves.
    constructor
    · intro written
      obtain ⟨middle, writtenFirst, writtenSecond⟩ := Option.bind_eq_some_iff.mp written
      obtain ⟨fitsFirst, rfl⟩ := ihFirst.mp writtenFirst
      obtain ⟨fitsSecond, rfl⟩ := ihSecond.mp writtenSecond
      exact ⟨⟨fitsFirst, fitsSecond⟩, rfl⟩
    · rintro ⟨⟨fitsFirst, fitsSecond⟩, rfl⟩
      exact Option.bind_eq_some_iff.mpr ⟨_, ihFirst.mpr ⟨fitsFirst, rfl⟩, ihSecond.mpr ⟨fitsSecond, rfl⟩⟩
  | variant c format ih =>
    obtain ⟨i, a⟩ := a
    exact ih i
  | via bijection inner ih => exact ih

theorem encodeInto?_of_fits (fits : f.Fits a) (w : Writer) : f.encodeInto? a w = some (f.encodeInto a w) :=
  encodeInto?_eq_some_iff.mpr ⟨fits, rfl⟩

theorem encodeInto?_of_not_fits (long : ¬ f.Fits a) (w : Writer) : f.encodeInto? a w = none :=
  Option.eq_none_iff_forall_ne_some.mpr fun _ written => long (encodeInto?_eq_some_iff.mp written).1

end Format

/-! ### Types of fixed size -/

/-- The types whose values all fill the same number of bytes. -/
inductive FixedType
  | u8
  | u32
  | u64
  | i64
  | flag
  | block (n : Nat)
  | pubkey
  | option (payload : FixedType)
  | wideOption (payload : FixedType)
  | ringHeader
  | vesting
  | rewardVendor
  | mint
  | tokenAccount
deriving DecidableEq, Repr

namespace FixedType

abbrev Value : FixedType → Type
  | u8 => UInt8
  | u32 => UInt32
  | u64 => UInt64
  | i64 => Int64
  | flag => Bool
  | block n => Block n
  | pubkey => Pubkey
  | option payload => Option payload.Value
  | wideOption payload => Option payload.Value
  | ringHeader => RingHeader
  | vesting => Vesting
  | rewardVendor => RewardVendor
  | mint => Mint
  | tokenAccount => TokenAccount

def layout : (t : FixedType) → Layout t.Value
  | u8 => .u8
  | u32 => .u32
  | u64 => .u64
  | i64 => .i64
  | flag => .flag "bool"
  | block n => .block n
  | pubkey => .pubkey
  | option payload => .option payload.layout
  | wideOption payload => .wideOption payload.layout
  | ringHeader => RingHeader.layout
  | vesting => Vesting.layout
  | rewardVendor => RewardVendor.layout
  | mint => Mint.layout
  | tokenAccount => TokenAccount.layout

/-- How many bytes a type says that its values fill: for a record, field by field. -/
def declaredSize : FixedType → Nat
  | u8 => 1
  | u32 => 4
  | u64 => 8
  | i64 => 8
  | flag => 1
  | block n => n
  | pubkey => 32
  | option payload => 1 + payload.declaredSize
  | wideOption payload => 4 + payload.declaredSize
  | ringHeader => 32 + 4
  | vesting => 1 + 32 + 32 + 1 + 32 + 8 + 8 + 8 + 8 + 8 + 32 + 32 + 8
  | rewardVendor => 1 + 32 + 1 + 8 + 4 + 8 + 32
  | mint => 36 + 8 + 1 + 1 + 36
  | tokenAccount => 32 + 32 + 8 + 36 + 1 + 12 + 8 + 36

/-- The bytes of a value, if there are as many as its type declares. -/
def encode? (t : FixedType) (v : t.Value) : Option Bytes :=
  if (t.layout.encode v).length = t.declaredSize then some (t.layout.encode v) else none

theorem size_layout (t : FixedType) : t.layout.size = t.declaredSize := by
  induction t with
  | u8 | u32 | u64 | i64 | flag | block | pubkey => rfl
  | option payload ih => exact congrArg (1 + ·) ih
  | wideOption payload ih => exact congrArg (4 + ·) ih
  | ringHeader => exact RingHeader.size_layout
  | vesting => exact Vesting.size_layout
  | rewardVendor => exact RewardVendor.size_layout
  | mint => exact Mint.size_layout
  | tokenAccount => exact TokenAccount.size_layout

theorem length_encode (t : FixedType) (v : t.Value) : (t.layout.encode v).length = t.declaredSize := by
  rw [Layout.length_encode, size_layout]

end FixedType

/-! ### Stored types -/

/-- How many bytes an event says that it takes: more for each total of a pool drop. -/
def RewardEvent.declaredLength : RewardEvent → Nat
  | poolDrop _ totals _ => 1 + 32 + 4 + 32 + totals.length * 8
  | lockedAlloc .. => 1 + 32 + 8 + 8 + 32 + 32 + 32

theorem RewardEvent.encodedLength_format (event : RewardEvent) :
    format.encodedLength event = event.declaredLength := by
  cases event with
  | poolDrop sender totals pool =>
    show 1 + (32 + (4 + totals.length * 8 + 32)) = 1 + 32 + 4 + 32 + totals.length * 8
    omega
  | lockedAlloc => rfl

/-- How many bytes a request says that it takes behind its tag. -/
def AdminRequest.declaredLength : AdminRequest → Nat
  | updateFee _ => 1 + 4
  | createOrder _ => 1 + 284
  | cancelOrder _ => 1 + 132
  | _ => 1

theorem AdminRequest.encodedLength_format (request : AdminRequest) :
    format.encodedLength request = request.declaredLength := by
  cases request <;> rfl

/-- The types whose values are stored, of fixed size or not. -/
inductive StoredType
  | fixed (t : FixedType)
  | sequence (item : FixedType)
  | rewardEvent
  | adminRequest
deriving DecidableEq, Repr

namespace StoredType

abbrev Value : StoredType → Type
  | fixed t => t.Value
  | sequence item => List item.Value
  | rewardEvent => RewardEvent
  | adminRequest => AdminRequest

def format : (t : StoredType) → Format t.Value
  | fixed t => .fixed t.layout
  | sequence item => .sequence item.layout
  | rewardEvent => RewardEvent.format
  | adminRequest => AdminRequest.format

/-- How many bytes a value says that it takes. -/
def declaredLength : (t : StoredType) → t.Value → Nat
  | fixed t, _ => t.declaredSize
  | sequence item, items => 4 + items.length * item.declaredSize
  | rewardEvent, event => event.declaredLength
  | adminRequest, request => request.declaredLength

theorem encodedLength_format (t : StoredType) (v : t.Value) : t.format.encodedLength v = t.declaredLength v := by
  cases t with
  | fixed t => exact t.size_layout
  | sequence item =>
    show 4 + v.length * item.layout.size = 4 + v.length * item.declaredSize
    rw [item.size_layout]
  | rewardEvent => exact RewardEvent.encodedLength_format v
  | adminRequest => exact AdminRequest.encodedLength_format v

/-- An encoder keeps what a writer held and appends the bytes of a value, as many as the value declares. For a type of
fixed size that is the same number for every value, so none fails the check of its size, and an optional part takes the
same space whether it is there or not. A sequence longer than its count can say is refused where counts are checked. -/
theorem appends_as_declared :
    (∀ (t : StoredType) (v : t.Value) (w : Writer), t.format.Fits v →
      t.format.encodeInto? v w = some (t.format.encodeInto v w) ∧
      (t.format.encodeInto v w).toBytes = w.toBytes ++ t.format.encode v ∧
      (t.format.encode v).length = t.format.encodedLength v ∧
      t.format.encodedLength v = t.declaredLength v) ∧
    (∀ (t : StoredType) (v : t.Value) (w : Writer), ¬ t.format.Fits v → t.format.encodeInto? v w = none) ∧
    (∀ (t : FixedType) (v : t.Value), t.layout.size = t.declaredSize ∧
      (fixed t).format.Fits v ∧ (fixed t).format.encodedLength v = t.declaredSize ∧
      (t.layout.encode v).length = t.declaredSize ∧ t.encode? v = some (t.layout.encode v)) ∧
    (∀ (t : FixedType) (v : t.Value),
      (t.option.layout.encode none).length = (t.option.layout.encode (some v)).length ∧
      (t.wideOption.layout.encode none).length = (t.wideOption.layout.encode (some v)).length) := by
  refine ⟨fun t v w fits => ?written, fun t v w long => Format.encodeInto?_of_not_fits long w, fun t v => ?fixed,
    fun t v => ?optional⟩
  case written =>
    exact ⟨Format.encodeInto?_of_fits fits w, t.format.toBytes_encodeInto v w, t.format.length_encode v,
      t.encodedLength_format v⟩
  case fixed =>
    have length := t.length_encode v
    exact ⟨t.size_layout, trivial, t.size_layout, length, if_pos length⟩
  case optional =>
    constructor
    · exact (t.option.length_encode none).trans (t.option.length_encode (some v)).symm
    · exact (t.wideOption.length_encode none).trans (t.wideOption.length_encode (some v)).symm

/-- Three flags, each behind two marks, and a drop of two totals, behind a byte that is there already; and one byte more
than a count can say. -/
theorem appends_as_declared_nested :
    let nested : StoredType := .sequence (.option (.wideOption .flag))
    let items : List (Option (Option Bool)) := [none, some none, some (some true)]
    let drop : RewardEvent := .poolDrop default [7, 300] default
    let tooMany : List UInt8 := List.replicate 0x100000000 0
    let w := Writer.empty.put [9]
    nested.format.Fits items ∧ rewardEvent.format.Fits drop ∧ ¬ (sequence .u8).format.Fits tooMany ∧
    nested.format.encodeInto? items w = some (nested.format.encodeInto items w) ∧
    (nested.format.encodeInto items w).toBytes =
      [9, 3, 0, 0, 0, 0, 0, 0, 0, 0, 0, 1, 0, 0, 0, 0, 0, 1, 1, 0, 0, 0, 1] ∧
    (nested.format.encode items).length = 22 ∧
    (rewardEvent.format.encodeInto drop w).toBytes.length = 86 ∧
    (sequence .u8).format.encodeInto? tooMany w = none := by
  intro nested items drop tooMany w
  have fits : nested.format.Fits items := show 3 ≤ 0xffffffff by decide
  have fitsDrop : rewardEvent.format.Fits drop := ⟨trivial, show 2 ≤ 0xffffffff by decide, trivial⟩
  have long : ¬ (sequence .u8).format.Fits tooMany := by
    show ¬ tooMany.length ≤ 0xffffffff
    rw [List.length_replicate]
    decide
  obtain ⟨written, refused, -⟩ := appends_as_declared
  obtain ⟨checked, held, length, declared⟩ := written nested items w fits
  obtain ⟨-, heldDrop, lengthDrop, declaredDrop⟩ := written rewardEvent drop w fitsDrop
  refine ⟨fits, fitsDrop, long, checked, held.trans (by decide), length.trans declared, ?_,
    refused (.sequence .u8) tooMany w long⟩
  rw [heldDrop, List.length_append, lengthDrop, declaredDrop]
  rfl

end StoredType

end StakePool
