import StakePool.Proofs.Ring.Window

/-!
# Rings as logs

After any run of appends a ring holds the last `capacity` entries of one unbounded log: what it held when the run
began, and then the items that were taken, in order. `Follows` is the invariant, `store_follows` its step and
`after_follows` its run; `appends_refine_log` says what every reader of the ring sees.
-/

namespace StakePool

universe u v

/-- A value together with the format of its type. Blocks make every byte string the bytes of some value. -/
structure Datum where
  {α : Type}
  format : Format α
  value : α

def Datum.encode (d : Datum) : Bytes := d.format.encode d.value

namespace Ring

variable {capacity : UInt32} {itemSize : Nat}

/-! ### Runs -/

/-- The answer to an append, and the ring afterwards, which a refused item leaves as it was. -/
def attempt (r : Ring capacity itemSize) (d : Datum) : Except Fault UInt32 × Ring capacity itemSize :=
  match r.append d.format d.value with
  | .ok (index, r') => (.ok index, r')
  | .error fault => (.error fault, r)

def answers (r : Ring capacity itemSize) : List Datum → List (Except Fault UInt32)
  | [] => []
  | d :: items => (r.attempt d).1 :: (r.attempt d).2.answers items

def after (r : Ring capacity itemSize) : List Datum → Ring capacity itemSize
  | [] => r
  | d :: items => (r.attempt d).2.after items

/-- Those of the items whose append succeeded. -/
def accepted {β : Type u} : List β → List (Except Fault UInt32) → List β
  | item :: items, .ok _ :: answers => item :: accepted items answers
  | _ :: items, .error _ :: answers => accepted items answers
  | _, _ => []

/-! ### The invariant -/

/-- The log's entry of an index: the slot that the ring held at first, or an item that was taken since. -/
def entry (r : Ring capacity itemSize) (log : List Bytes) (index : UInt32) : Bytes :=
  if index < r.head then r.slotBytes index
  else Bytes.padTo itemSize (log.getD (index.toNat - r.head.toNat) [])

/-- `last` is what `r` becomes when the items of `log` are stored in it one after the other. -/
structure Follows (r : Ring capacity itemSize) (log : List Bytes) (last : Ring capacity itemSize) : Prop where
  head_eq : last.head.toNat = r.head.toNat + log.length
  short : ∀ item ∈ log, item.length ≤ itemSize
  slots : ∀ index, last.tail ≤ index → index < last.head → last.slotBytes index = r.entry log index
  authority_eq : last.authority = r.authority
  length_eq : last.toBytes.length = r.toBytes.length

theorem follows_refl (r : Ring capacity itemSize) : r.Follows [] r where
  head_eq := rfl
  short := by simp
  slots index _ new := by rw [entry, if_pos new]
  authority_eq := rfl
  length_eq := rfl

theorem entry_append (r : Ring capacity itemSize) {log : List Bytes} {index : UInt32}
    (old : index.toNat < r.head.toNat + log.length) (item : Bytes) :
    r.entry (log ++ [item]) index = r.entry log index := by
  unfold entry
  split
  · rfl
  · rename_i new
    rw [UInt32.lt_iff_toNat_lt] at new
    simp only [List.getD_eq_getElem?_getD]
    rw [List.getElem?_append_left (by omega)]

theorem entry_append_self (r : Ring capacity itemSize) {log : List Bytes} {index : UInt32}
    (here : index.toNat = r.head.toNat + log.length) (item : Bytes) :
    r.entry (log ++ [item]) index = Bytes.padTo itemSize item := by
  have new : ¬ index < r.head := by
    rw [UInt32.lt_iff_toNat_lt]
    omega
  have position : index.toNat - r.head.toNat = log.length := by omega
  rw [entry, if_neg new, position, List.getD_eq_getElem?_getD, List.getElem?_concat_length, Option.getD_some]

/-- Storing an item at the head overwrites no other slot of the window. -/
theorem mod_capacity_ne_head {r : Ring capacity itemSize} (room : r.head.toNat < 0xffffffff) {slot : Bytes}
    {index : UInt32} (old : (r.store slot).tail ≤ index) (before : index < r.head) :
    index % capacity ≠ r.head % capacity := by
  have low := tail_le_iff.mp old
  rw [toNat_head_store room] at low
  have high := UInt32.lt_iff_toNat_lt.mp before
  have apart := mod_ne_of_lt_of_lt_add (n := capacity.toNat) high (by omega)
  intro same
  apply apart
  rw [← UInt32.toNat_mod, ← UInt32.toNat_mod, same]

theorem store_follows {r last : Ring capacity itemSize} {log : List Bytes} (follows : r.Follows log last)
    {item : Bytes} (fits : item.length ≤ itemSize) (room : last.head.toNat < 0xffffffff) :
    r.Follows (log ++ [item]) (last.store (Bytes.padTo itemSize item)) where
  head_eq := by
    rw [toNat_head_store room, follows.head_eq, List.length_append, List.length_singleton, Nat.add_assoc]
  short x member := by
    rcases List.mem_append.mp member with earlier | same
    · exact follows.short x earlier
    · rwa [List.mem_singleton.mp same]
  slots index old new := by
    have filled : (Bytes.padTo itemSize item).length = itemSize := Bytes.length_padTo fits
    have reached := UInt32.lt_iff_toNat_lt.mp new
    rw [toNat_head_store room] at reached
    -- The new window is the old one, less what was overwritten, and the item at the old head.
    by_cases before : index < last.head
    · have inside : last.tail ≤ index := by
        have low := tail_le_iff.mp old
        rw [toNat_head_store room] at low
        exact tail_le_iff.mpr (by omega)
      have high := UInt32.lt_iff_toNat_lt.mp before
      rw [slotBytes_store_of_ne last filled (mod_capacity_ne_head room old before), follows.slots index inside before,
        entry_append r (by rw [← follows.head_eq]; exact high)]
    · have here : index.toNat = last.head.toNat := by
        rw [UInt32.lt_iff_toNat_lt] at before
        omega
      rw [slotBytes_store_self last filled (by rw [UInt32.toNat_inj.mp here]),
        entry_append_self r (by rw [here, follows.head_eq])]
  authority_eq := (authority_store last _).trans follows.authority_eq
  length_eq := (length_toBytes_store last _).trans follows.length_eq

/-! ### Whole runs -/

theorem attempt_cases (r : Ring capacity itemSize) (d : Datum) :
    (d.encode.length ≤ itemSize ∧ r.head.toNat < 0xffffffff ∧
      r.attempt d = (.ok r.head, r.store (Bytes.padTo itemSize d.encode))) ∨
    ∃ fault, r.attempt d = (.error fault, r) := by
  unfold attempt append
  split
  · rename_i index r' pushed
    obtain ⟨fits, room, rfl, rfl⟩ := push_eq_ok_iff.mp pushed
    exact .inl ⟨fits, room, rfl⟩
  · exact .inr ⟨_, rfl⟩

theorem after_follows {r last : Ring capacity itemSize} {log : List Bytes} (follows : r.Follows log last)
    (items : List Datum) :
    r.Follows (log ++ (accepted items (last.answers items)).map Datum.encode) (last.after items) := by
  induction items generalizing last log with
  | nil => simpa [answers, accepted, after] using follows
  | cons d items ih =>
    rcases last.attempt_cases d with ⟨fits, room, taken⟩ | ⟨fault, refused⟩
    · have next := ih (store_follows follows fits room)
      rw [List.append_assoc, List.singleton_append] at next
      simpa only [answers, after, taken, accepted, List.map_cons] using next
    · simpa only [answers, after, refused, accepted] using ih follows

/-- The indices that are given out count up from the head. -/
theorem indices_eq_range' (r : Ring capacity itemSize) (items : List Datum) :
    ((r.answers items).filterMap Except.toOption).map UInt32.toNat =
      List.range' r.head.toNat (accepted items (r.answers items)).length := by
  induction items generalizing r with
  | nil => rfl
  | cons d items ih =>
    rcases r.attempt_cases d with ⟨fits, room, taken⟩ | ⟨fault, refused⟩
    · have later := ih (r.store (Bytes.padTo itemSize d.encode))
      rw [toNat_head_store room] at later
      simp only [answers, taken, accepted, List.length_cons, List.range'_succ]
      rw [← later]
      rfl
    · have later := ih r
      simp only [answers, refused, accepted]
      rw [← later]
      rfl

theorem accepted_map {β : Type u} {γ : Type v} (f : β → γ) (items : List β) (answers : List (Except Fault UInt32)) :
    accepted (items.map f) answers = (accepted items answers).map f := by
  induction items generalizing answers with
  | nil => rfl
  | cons item items ih =>
    cases answers with
    | nil => rfl
    | cons answer answers =>
      cases answer with
      | ok index => simp only [List.map_cons, accepted, ih]
      | error fault => simp only [List.map_cons, accepted, ih]

/-! ### What readers see -/

theorem slot?_of_follows {r last : Ring capacity itemSize} {log : List Bytes} (follows : r.Follows log last)
    {index : UInt32} (old : last.tail ≤ index) (new : index < last.head) : last.slot? index = some (r.entry log index) := by
  rw [slot?_of_mem old new, follows.slots index old new]

/-- An index that was readable at first and still is shows what it showed then. -/
theorem slot?_of_follows_of_lt {r last : Ring capacity itemSize} {log : List Bytes} (follows : r.Follows log last)
    {index : UInt32} (old : last.tail ≤ index) (new : index < last.head) (first : index < r.head) :
    last.slot? index = r.slot? index := by
  have low := tail_le_iff.mp old
  rw [follows.head_eq] at low
  have still : r.tail ≤ index := tail_le_iff.mpr (by omega)
  rw [slot?_of_follows follows old new, slot?_of_mem still first, entry, if_pos first]

theorem entry_of_le {r : Ring capacity itemSize} {log : List Bytes} {index : UInt32} (new : r.head ≤ index)
    {item : Bytes} (found : log[index.toNat - r.head.toNat]? = some item) : r.entry log index = Bytes.padTo itemSize item := by
  rw [entry, if_neg (UInt32.not_lt.mpr new), List.getD_eq_getElem?_getD, found, Option.getD_some]

theorem itemSize_lt (r : Ring capacity itemSize) : itemSize < addressLimit := by
  have one : 1 * itemSize ≤ capacity.toNat * itemSize := Nat.mul_le_mul_right _ r.toNat_capacity_pos
  have size := r.size_eq
  have small := r.size_lt
  omega

/-- A value that fits its slot is decoded from it, whatever was there before. -/
theorem decodeItem_padTo {α : Type} (r : Ring capacity itemSize) (f : Format α) (a : α) (fits : f.Fits a)
    (short : (f.encode a).length ≤ itemSize) (index : UInt32) :
    Entries.decodeItem f.decodePrefix index (Bytes.padTo itemSize (f.encode a)) = .ok a := by
  have small := r.itemSize_lt
  rw [f.length_encode] at short
  unfold Entries.decodeItem Bytes.padTo
  rw [f.decodePrefix_encode_append a fits (by omega)]

/-! ### What is handed out -/

variable {α : Type}

/-- The decoded entries of the log from one index up to another. -/
def deliveries (r : Ring capacity itemSize) (log : List Bytes) (decoder : Bytes → Except Fault α) (start stop : Nat) :
    List (Except Fault α) :=
  (List.range' start (stop - start)).map fun i => Entries.decodeItem decoder (.ofNat i) (r.entry log (.ofNat i))

/-- While the indices are readable, taking items hands out the log's entries. -/
theorem take_of_follows {r last : Ring capacity itemSize} {log : List Bytes} (follows : r.Follows log last)
    {cursor : UInt32} (old : last.tail ≤ cursor) (new : cursor ≤ last.head) (decoder : Bytes → Except Fault α)
    (count : Nat) :
    ({ last.entries decoder with next := cursor }.take count).1 =
      r.deliveries log decoder cursor.toNat (cursor.toNat + min count (last.head.toNat - cursor.toNat)) := by
  have low := UInt32.le_iff_toNat_le.mp old
  have high := UInt32.le_iff_toNat_le.mp new
  have stop := last.head.toNat_lt
  have left : ({ last.entries decoder with next := cursor } : Entries capacity itemSize α).remaining =
      last.head.toNat - cursor.toNat := Entries.remaining_eq new
  rw [Entries.take_eq count new, left, deliveries, Nat.add_sub_cancel_left]
  apply List.map_congr_left
  intro i member
  change i ∈ List.range' cursor.toNat (min count (last.head.toNat - cursor.toNat)) at member
  obtain ⟨reached, below⟩ := List.mem_range'_1.mp member
  have position : (UInt32.ofNat i).toNat = i := UInt32.toNat_ofNat_of_lt (by show i < 2 ^ 32; omega)
  rw [Entries.item_eq]
  show Entries.decodeItem decoder _ (last.slotBytes _) = _
  rw [follows.slots]
  · rw [UInt32.le_iff_toNat_le, position]
    omega
  · rw [UInt32.lt_iff_toNat_lt, position]
    show i < last.head.toNat
    omega

theorem toList_of_follows_from {r last : Ring capacity itemSize} {log : List Bytes} (follows : r.Follows log last)
    {cursor : UInt32} (old : last.tail ≤ cursor) (new : cursor ≤ last.head) (decoder : Bytes → Except Fault α) :
    ({ last.entries decoder with next := cursor } : Entries capacity itemSize α).toList =
      r.deliveries log decoder cursor.toNat last.head.toNat := by
  have window := UInt32.le_iff_toNat_le.mp new
  have all : ({ last.entries decoder with next := cursor } : Entries capacity itemSize α).remaining =
      last.head.toNat - cursor.toNat := Entries.remaining_eq new
  have taken := take_of_follows follows old new decoder (last.head.toNat - cursor.toNat)
  rw [Nat.min_self, Nat.add_sub_cancel' window] at taken
  rw [Entries.toList, all, taken]

theorem toList_of_follows {r last : Ring capacity itemSize} {log : List Bytes} (follows : r.Follows log last)
    (decoder : Bytes → Except Fault α) :
    (last.entries decoder).toList = r.deliveries log decoder last.tail.toNat last.head.toNat :=
  toList_of_follows_from follows (UInt32.le_refl _) last.tail_le_head decoder

/-- A log of encoded values, in a ring that started empty, is decoded to the values. -/
theorem deliveries_encode {f : Format α} {r : Ring capacity itemSize} {values : List α} (empty : r.head = 0)
    (fits : ∀ a ∈ values, f.Fits a) (short : ∀ a ∈ values, (f.encode a).length ≤ itemSize)
    (small : values.length < UInt32.size) (start : Nat) :
    r.deliveries (values.map f.encode) f.decodePrefix start values.length = (values.drop start).map .ok := by
  have zero : r.head.toNat = 0 := by rw [empty]; rfl
  apply List.ext_getElem
  · rw [deliveries, List.length_map, List.length_range', List.length_map, List.length_drop]
  · intro k inRange inValues
    rw [List.length_map, List.length_drop] at inValues
    have position : (UInt32.ofNat (start + k)).toNat = start + k := UInt32.toNat_ofNat_of_lt (by omega)
    have stored : (values.map f.encode)[(UInt32.ofNat (start + k)).toNat - r.head.toNat]? =
        some (f.encode values[start + k]) := by
      rw [position, zero, Nat.sub_zero, List.getElem?_map, List.getElem?_eq_getElem (by omega), Option.map_some]
    have member : values[start + k] ∈ values := List.getElem_mem _
    simp only [deliveries, List.getElem_map, List.getElem_range', List.getElem_drop, Nat.one_mul]
    rw [entry_of_le (by rw [empty]; exact UInt32.zero_le) stored]
    exact r.decodeItem_padTo f _ (fits _ member) (short _ member) _

/-! ### The log -/

/-- After any run of appends a ring is the log of its first contents and the items that were taken, cut to the last
`capacity` entries. -/
theorem appends_refine_log {bytes : Bytes} {r : Ring capacity itemSize}
    (opened : ofBytes capacity itemSize bytes = .ok r) (items : List Datum) :
    let taken := accepted items (r.answers items)
    let last := r.after items
    ((r.answers items).filterMap Except.toOption).map UInt32.toNat = List.range' r.head.toNat taken.length ∧
    last.head.toNat = r.head.toNat + taken.length ∧
    last.tail.toNat = last.head.toNat - min last.head.toNat capacity.toNat ∧
    last.length = min last.head.toNat capacity.toNat ∧
    (last.isEmpty = true ↔ last.head = 0) ∧
    last.header = .ok { authority := last.authority, head := last.head } ∧
    (∀ index, (last.slot? index).isSome = true ↔ last.tail ≤ index ∧ index < last.head) ∧
    (∀ index, last.tail ≤ index → index < last.head → r.head ≤ index →
      ∃ d, taken[index.toNat - r.head.toNat]? = some d ∧ d.encode.length ≤ itemSize ∧
        last.slot? index = some (Bytes.padTo itemSize d.encode)) ∧
    (∀ index, last.tail ≤ index → index < last.head → index < r.head → last.slot? index = r.slot? index) ∧
    last.authority.bytes = bytes.take 32 ∧
    last.toBytes.length = bytes.length ∧
    (∀ {α : Type} (f : Format α) (values : List α), items = values.map (Datum.mk f) → r.head = 0 →
      let kept := accepted values (r.answers items)
      (∀ a ∈ kept, f.Fits a) →
      (last.entries f.decodePrefix).toList = (kept.drop (kept.length - min kept.length capacity.toNat)).map .ok) := by
  intro taken last
  have follows : r.Follows (taken.map Datum.encode) last := after_follows r.follows_refl items
  have contents := toBytes_of_ofBytes opened
  have head : last.head.toNat = r.head.toNat + taken.length := by rw [follows.head_eq, List.length_map]
  refine ⟨r.indices_eq_range' items, head, ?tail, last.length_eq, last.isEmpty_iff, last.header_eq, last.isSome_slot?,
    ?new, fun index => slot?_of_follows_of_lt follows, ?authority, ?size, ?typed⟩
  case tail =>
    rw [toNat_tail]
    omega
  case new =>
    intro index old new first
    have low := UInt32.le_iff_toNat_le.mp first
    have high := UInt32.lt_iff_toNat_lt.mp new
    have inside : index.toNat - r.head.toNat < taken.length := by omega
    have stored : (taken.map Datum.encode)[index.toNat - r.head.toNat]? =
        some taken[index.toNat - r.head.toNat].encode := by
      rw [List.getElem?_map, List.getElem?_eq_getElem inside, Option.map_some]
    refine ⟨taken[index.toNat - r.head.toNat], List.getElem?_eq_getElem inside, ?_, ?_⟩
    · exact follows.short _ (List.mem_map_of_mem (List.getElem_mem inside))
    · rw [slot?_of_follows follows old new, entry_of_le first stored]
  case authority => rw [follows.authority_eq, authority_bytes, contents]
  case size => rw [follows.length_eq, contents]
  case typed =>
    intro α f values same empty kept fits
    have encoded : taken.map Datum.encode = kept.map f.encode := by
      show (accepted items (r.answers items)).map Datum.encode = _
      rw [same, accepted_map, List.map_map]
      show _ = (accepted values (r.answers items)).map f.encode
      rw [same]
      rfl
    have length : last.head.toNat = kept.length := by
      rw [follows.head_eq, encoded, List.length_map, empty]
      exact Nat.zero_add _
    have short : ∀ a ∈ kept, (f.encode a).length ≤ itemSize := fun a member =>
      follows.short _ (encoded ▸ List.mem_map_of_mem member)
    have oldest : last.tail.toNat = kept.length - min kept.length capacity.toNat := by
      rw [toNat_tail, length]
      omega
    rw [toList_of_follows follows, encoded, length, oldest]
    exact deliveries_encode empty fits short (length ▸ last.head.toNat_lt) _

/-- A ring of two slots that begins at index 1 wraps around, past an item that is too large. -/
theorem appends_refine_log_wrapped :
    let items : List Datum := [⟨.fixed .u8, 3⟩, ⟨.fixed .u64, 1⟩, ⟨.fixed .u8, 4⟩]
    ∃ r : Ring 2 2, ofBytes 2 2 (Bytes.zeros 32 ++ [1, 0, 0, 0, 5, 6, 7, 8]) = .ok r ∧
      (r.after items).head.toNat = 3 ∧ (r.after items).slot? 0 = none ∧
      ∃ d : Datum, d.encode = [3] ∧ (r.after items).slot? 1 = some (Bytes.padTo 2 d.encode) := by
  intro items
  refine ⟨_, rfl, ?_⟩
  obtain ⟨-, head, -, -, -, -, readable, new, -⟩ :=
    @appends_refine_log 2 2 (Bytes.zeros 32 ++ [1, 0, 0, 0, 5, 6, 7, 8]) _ rfl items
  refine ⟨head, ?_, ?_⟩
  · exact Option.not_isSome_iff_eq_none.mp fun some => absurd ((readable 0).mp some) (by decide +kernel)
  · obtain ⟨d, found, -, slot⟩ := new 1 (by decide +kernel) (by decide +kernel) (by decide +kernel)
    obtain rfl := Option.some.inj found
    exact ⟨_, rfl, slot⟩

end Ring

end StakePool
