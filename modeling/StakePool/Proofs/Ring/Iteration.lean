import StakePool.Proofs.Ring.Polling
import StakePool.Proofs.Ring.Stale

/-!
# Iterators over a ring

Iterators over one ring are advanced in any order, by single items, by several, or past several, and copied in between.
`Along` says where an iterator stands and what it has consumed; every step keeps it (`step_along`), so that what it has
consumed and what it still hands out are always the decoded slots of one window (`Along.consumed_append_toList`). Damage
to a slot does not reach the items of other slots (`AlikeOutside.slotBytes_eq`).
-/

namespace StakePool

/-! ### Windows -/

namespace Ring

variable {capacity : UInt32} {itemSize : Nat} {α : Type}

theorem toNat_ofNat_of_lt_head {r : Ring capacity itemSize} {index : Nat} (new : index < r.head.toNat) :
    (UInt32.ofNat index).toNat = index :=
  UInt32.toNat_ofNat_of_lt' (Nat.lt_trans new r.head.toNat_lt)

theorem getElem?_deliveries (r : Ring capacity itemSize) (decoder : Bytes → Except Fault α) {start i : Nat}
    (inside : start + i < r.head.toNat) :
    (r.deliveries [] decoder start r.head.toNat)[i]? =
      some (Entries.decodeItem decoder (.ofNat (start + i)) (r.slotBytes (.ofNat (start + i)))) := by
  have below : UInt32.ofNat (start + i) < r.head := by rwa [UInt32.lt_iff_toNat_lt, toNat_ofNat_of_lt_head inside]
  have within : i < r.head.toNat - start := by omega
  rw [deliveries, List.getElem?_map, List.getElem?_range' within, Nat.one_mul, Option.map_some, entry, if_pos below]

theorem slot?_ofNat {r : Ring capacity itemSize} {index : Nat} (old : r.tail.toNat ≤ index) (new : index < r.head.toNat) :
    r.slot? (.ofNat index) = some (r.slotBytes (.ofNat index)) := by
  have position := toNat_ofNat_of_lt_head new
  exact slot?_of_mem (by rwa [UInt32.le_iff_toNat_le, position]) (by rwa [UInt32.lt_iff_toNat_lt, position])

theorem entriesSince_of_not_mem {r : Ring capacity itemSize} {cursor : UInt32}
    (outside : ¬ (r.tail ≤ cursor ∧ cursor ≤ r.head)) (decoder : Bytes → Except Fault α) :
    r.entriesSince cursor decoder = .error (.invalidCursor cursor r.tail r.head) := by
  unfold entriesSince
  rw [if_pos]
  rwa [not_and_or, UInt32.not_le, UInt32.not_le] at outside

theorem tail_le_of_entriesSince {r : Ring capacity itemSize} {cursor : UInt32} {decoder : Bytes → Except Fault α}
    {e : Entries capacity itemSize α} (opened : r.entriesSince cursor decoder = .ok e) : r.tail ≤ cursor := by
  apply Decidable.byContradiction
  intro behind
  rw [entriesSince_of_not_mem (fun within => behind within.1)] at opened
  cases opened

/-- The items from a cursor on are all the items without those in front of the cursor. -/
theorem entriesSince_eq_take {r : Ring capacity itemSize} {cursor : UInt32} (old : r.tail ≤ cursor)
    (new : cursor ≤ r.head) (decoder : Bytes → Except Fault α) :
    r.entriesSince cursor decoder = .ok ((r.entries decoder).take (cursor.toNat - r.tail.toNat)).2 := by
  have low := UInt32.le_iff_toNat_le.mp old
  have high := UInt32.le_iff_toNat_le.mp new
  have ordered : (r.entries decoder).next ≤ (r.entries decoder).stop := r.tail_le_head
  have all : (r.entries decoder).remaining = r.head.toNat - r.tail.toNat := Entries.remaining_eq ordered
  have start : (r.entries decoder).next = r.tail := rfl
  rw [entriesSince_of_mem old new, Entries.take_eq _ ordered, all, Nat.min_eq_left (by omega), start,
    Nat.add_sub_cancel' low, UInt32.ofNat_toNat]

theorem toList_of_entriesSince {r : Ring capacity itemSize} {cursor : UInt32} {decoder : Bytes → Except Fault α}
    {e : Entries capacity itemSize α} (opened : r.entriesSince cursor decoder = .ok e) :
    e.toList = r.deliveries [] decoder cursor.toNat r.head.toNat := by
  have old := tail_le_of_entriesSince opened
  obtain ⟨new, rfl⟩ := entriesSince_eq_ok opened
  exact toList_of_follows_from r.follows_refl old new decoder

/-! ### Damage to one slot -/

/-- The two rings hold the same bytes, except inside a slot. -/
def AlikeOutside (slot : UInt32) (r r' : Ring capacity itemSize) : Prop :=
  ∀ position : Nat, position < slotOffset capacity itemSize slot ∨
    slotOffset capacity itemSize slot + itemSize ≤ position → r'.toBytes[position]? = r.toBytes[position]?

namespace AlikeOutside

variable {slot : UInt32} {r r' : Ring capacity itemSize} (alike : AlikeOutside slot r r')
include alike

theorem header : Alike [] r' r := by
  apply Alike.of_take
  apply List.ext_getElem?
  intro position
  rw [List.getElem?_take, List.getElem?_take]
  split
  · rename_i front
    exact alike position (.inl (Nat.lt_of_lt_of_le front (header_le_slotOffset slot)))
  · rfl

theorem slotBytes_eq {index : UInt32} (other : index % capacity ≠ slot % capacity) :
    r'.slotBytes index = r.slotBytes index := by
  apply List.ext_getElem?
  intro i
  by_cases inside : i < itemSize
  · have apart := @slotOffset_disjoint capacity itemSize _ _ other
    have reached := Nat.le_add_right (slotOffset capacity itemSize index) i
    have below : slotOffset capacity itemSize index + i < slotOffset capacity itemSize index + itemSize := by omega
    have first := r.getElem?_toBytes_of_slot reached below
    have second := r'.getElem?_toBytes_of_slot reached below
    rw [Nat.add_sub_cancel_left] at first second
    rw [← first, ← second]
    exact alike _ (by omega)
  · rw [List.getElem?_eq_none (by rw [length_slotBytes]; omega),
      List.getElem?_eq_none (by rw [length_slotBytes]; omega)]

/-- Only an item of the slot can differ. -/
theorem mod_eq_of_ne {decoder : Bytes → Except Fault α} {start i : Nat}
    (differ : (r'.deliveries [] decoder start r'.head.toNat)[i]? ≠ (r.deliveries [] decoder start r.head.toNat)[i]?) :
    start + i < r.head.toNat ∧ (start + i) % capacity.toNat = slot.toNat % capacity.toNat := by
  have head := alike.header.head_eq
  have inside : start + i < r.head.toNat := by
    apply Decidable.byContradiction
    intro outside
    apply differ
    rw [List.getElem?_eq_none (by rw [length_deliveries, head]; omega),
      List.getElem?_eq_none (by rw [length_deliveries]; omega)]
  refine ⟨inside, Decidable.byContradiction fun other => differ ?_⟩
  rw [getElem?_deliveries r' decoder (by rwa [head]), getElem?_deliveries r decoder inside, alike.slotBytes_eq]
  rwa [ne_eq, ← UInt32.toNat_inj, UInt32.toNat_mod, UInt32.toNat_mod, toNat_ofNat_of_lt_head inside]

/-- No two items of a window share a slot, so only one can differ. -/
theorem eq_of_ne {decoder : Bytes → Except Fault α} {start i j : Nat} (old : r.tail.toNat ≤ start)
    (first : (r'.deliveries [] decoder start r'.head.toNat)[i]? ≠ (r.deliveries [] decoder start r.head.toNat)[i]?)
    (second : (r'.deliveries [] decoder start r'.head.toNat)[j]? ≠ (r.deliveries [] decoder start r.head.toNat)[j]?) :
    i = j := by
  obtain ⟨insideFirst, slotFirst⟩ := alike.mod_eq_of_ne first
  obtain ⟨insideSecond, slotSecond⟩ := alike.mod_eq_of_ne second
  have same := slotFirst.trans slotSecond.symm
  rw [toNat_tail] at old
  rcases Nat.lt_trichotomy i j with before | here | behind
  · exact absurd same (mod_ne_of_lt_of_lt_add (Nat.add_lt_add_left before start) (by omega))
  · exact here
  · exact absurd same.symm (mod_ne_of_lt_of_lt_add (Nat.add_lt_add_left behind start) (by omega))

end AlikeOutside

end Ring

/-! ### Iterators -/

/-- An iterator, and what it has handed out or passed over so far. -/
structure Reading (capacity : UInt32) (itemSize : Nat) (α : Type) where
  entries : Entries capacity itemSize α
  consumed : List (Except Fault α)

namespace Reading

variable {capacity : UInt32} {itemSize : Nat} {α : Type}

def begin (e : Entries capacity itemSize α) : Reading capacity itemSize α := ⟨e, []⟩

def next (x : Reading capacity itemSize α) : Reading capacity itemSize α :=
  match x.entries.next? with
  | none => x
  | some (item, rest) => ⟨rest, x.consumed ++ [item]⟩

def take (n : Nat) (x : Reading capacity itemSize α) : Reading capacity itemSize α :=
  ⟨(x.entries.take n).2, x.consumed ++ (x.entries.take n).1⟩

def skip : Nat → Reading capacity itemSize α → Reading capacity itemSize α
  | 0, x => x
  | n + 1, x => skip n x.next

/-- What is done next to the iterator at a position: a copy of it is put behind the others. -/
inductive Step
  | next (position : Nat)
  | take (position count : Nat)
  | skip (position count : Nat)
  | clone (position : Nat)

/-- The iterator that a step advances. -/
def Step.advances? : Step → Option Nat
  | next position | take position _ | skip position _ => some position
  | clone _ => none

def step (readings : List (Reading capacity itemSize α)) : Step → List (Reading capacity itemSize α)
  | .next position => readings.modify position next
  | .take position count => readings.modify position (take count)
  | .skip position count => readings.modify position (skip count)
  | .clone position => readings ++ readings[position]?.toList

def run (readings : List (Reading capacity itemSize α)) (steps : List Step) : List (Reading capacity itemSize α) :=
  steps.foldl step readings

/-! ### Where an iterator stands -/

/-- An iterator that began at `start` has consumed the items from there up to where it stands. -/
def Along (r : Ring capacity itemSize) (decoder : Bytes → Except Fault α) (start : UInt32)
    (x : Reading capacity itemSize α) : Prop :=
  ∃ cursor, x.entries = { r.entries decoder with next := cursor } ∧
    Polling.Served r [] decoder r.head start cursor x.consumed

variable {r : Ring capacity itemSize} {decoder : Bytes → Except Fault α} {start : UInt32}
  {x : Reading capacity itemSize α} {readings : List (Reading capacity itemSize α)}

theorem begin_along (new : start ≤ r.head) : Along r decoder start (begin { r.entries decoder with next := start }) :=
  ⟨start, rfl, UInt32.le_refl _, new, (r.deliveries_self [] decoder start.toNat).symm⟩

theorem exists_cursor (along : Along r decoder start x) :
    ∃ cursor, x.entries = { r.entries decoder with next := cursor } ∧
      Polling.Served r [] decoder r.head start cursor x.consumed ∧ start.toNat ≤ cursor.toNat ∧
      cursor.toNat ≤ r.head.toNat ∧ x.entries.remaining = r.head.toNat - cursor.toNat := by
  obtain ⟨cursor, same, served⟩ := along
  refine ⟨cursor, same, served, UInt32.le_iff_toNat_le.mp served.start_le,
    UInt32.le_iff_toNat_le.mp served.cursor_le, ?_⟩
  rw [same]
  exact Entries.remaining_eq served.cursor_le

theorem take_along (old : r.tail ≤ start) (along : Along r decoder start x) (n : Nat) :
    Along r decoder start (x.take n) := by
  obtain ⟨cursor, same, served, -, high, left⟩ := exists_cursor along
  rw [same] at left
  have ordered : ({ r.entries decoder with next := cursor } : Entries capacity itemSize α).next ≤ r.head :=
    served.cursor_le
  have items := Ring.take_of_follows r.follows_refl (UInt32.le_trans old served.start_le) served.cursor_le decoder n
  have length : (x.entries.take n).1.length = min n (r.head.toNat - cursor.toNat) := by
    rw [same, items, Ring.length_deliveries, Nat.add_sub_cancel_left]
  have stands : (x.entries.take n).2 =
      { r.entries decoder with next := cursor + .ofNat (x.entries.take n).1.length } := by
    have advanced : UInt32.ofNat (cursor.toNat + min n (r.head.toNat - cursor.toNat)) =
        cursor + .ofNat (min n (r.head.toNat - cursor.toNat)) := by rw [UInt32.ofNat_add, UInt32.ofNat_toNat]
    rw [length, same, Entries.take_eq n ordered, left, ← advanced]
  refine ⟨_, stands, Polling.served_append served ?_ (by omega)⟩
  rw [length, same, items]

/-- A single item is the first of one that is taken. -/
theorem next_eq_take (x : Reading capacity itemSize α) : x.next = x.take 1 := by
  unfold next take Entries.take Entries.takeOnto
  cases x.entries.next? with
  | none => simp
  | some handed => rfl

theorem skip_along (old : r.tail ≤ start) (along : Along r decoder start x) (n : Nat) :
    Along r decoder start (x.skip n) := by
  induction n generalizing x with
  | zero => exact along
  | succ n ih =>
    rw [skip, next_eq_take]
    exact ih (take_along old along 1)

theorem forall_mem_modify {P : Reading capacity itemSize α → Prop}
    {f : Reading capacity itemSize α → Reading capacity itemSize α} (all : ∀ x ∈ readings, P x)
    (kept : ∀ x, P x → P (f x)) (position : Nat) : ∀ x ∈ readings.modify position f, P x := by
  intro x member
  obtain ⟨i, found⟩ := List.mem_iff_getElem?.mp member
  rw [List.getElem?_modify] at found
  obtain ⟨before, present, rfl⟩ := Option.map_eq_some_iff.mp found
  have held := all before (List.mem_of_getElem? present)
  split
  · exact kept before held
  · exact held

theorem step_along (old : r.tail ≤ start) (all : ∀ x ∈ readings, Along r decoder start x) (s : Step) :
    ∀ x ∈ step readings s, Along r decoder start x := by
  cases s with
  | next position =>
    refine forall_mem_modify all (fun x along => ?_) position
    rw [next_eq_take]
    exact take_along old along 1
  | take position count => exact forall_mem_modify all (fun x along => take_along old along count) position
  | skip position count => exact forall_mem_modify all (fun x along => skip_along old along count) position
  | clone position =>
    intro x member
    rcases List.mem_append.mp member with earlier | copy
    · exact all x earlier
    · exact all x (List.mem_of_getElem? (Option.mem_toList.mp copy))

theorem run_along (old : r.tail ≤ start) (all : ∀ x ∈ readings, Along r decoder start x) (steps : List Step) :
    ∀ x ∈ run readings steps, Along r decoder start x := by
  induction steps generalizing readings with
  | nil => exact all
  | cons s steps ih => exact ih (step_along old all s)

namespace Along

variable (along : Along r decoder start x)
include along

theorem length_consumed_add : x.consumed.length + x.entries.remaining = r.head.toNat - start.toNat := by
  obtain ⟨cursor, -, served, low, high, left⟩ := exists_cursor along
  rw [served.received_eq, Ring.length_deliveries, left]
  omega

/-- What was consumed and what is left are together all the items. -/
theorem consumed_append_toList (old : r.tail ≤ start) :
    x.consumed ++ x.entries.toList = r.deliveries [] decoder start.toNat r.head.toNat := by
  obtain ⟨cursor, same, served, low, high, -⟩ := exists_cursor along
  have rest := Ring.toList_of_follows_from r.follows_refl (UInt32.le_trans old served.start_le) served.cursor_le decoder
  rw [served.received_eq, same, rest, Ring.deliveries_append r [] decoder low high]

theorem next?_eq_none_iff : x.entries.next? = none ↔ x.entries.remaining = 0 := by
  obtain ⟨cursor, same, -, -, high, left⟩ := exists_cursor along
  rw [left, same]
  by_cases more : cursor < r.head
  · have before := UInt32.lt_iff_toNat_lt.mp more
    have handed := @Entries.next?_eq_some _ _ _ { r.entries decoder with next := cursor } more
    simp only [handed, reduceCtorEq, false_iff]
    omega
  · have ended := @Entries.next?_eq_none _ _ _ { r.entries decoder with next := cursor } more
    rw [UInt32.lt_iff_toNat_lt] at more
    simp only [ended, true_iff]
    omega

end Along

/-! ### One iterator among others -/

theorem getElem?_step_of_ne {position : Nat} (found : readings[position]? = some x) {s : Step}
    (other : s.advances? ≠ some position) : (step readings s)[position]? = some x := by
  cases s with
  | clone _ =>
    have inside := (List.getElem?_eq_some_iff.mp found).1
    rw [step, List.getElem?_append_left inside, found]
  | _ =>
    rw [step, List.getElem?_modify_ne, found]
    exact fun same => other (congrArg some same)

/-- Whatever is done to other iterators, one that is not advanced stays where it is. -/
theorem getElem?_run_of_ne {position : Nat} (found : readings[position]? = some x) {steps : List Step}
    (others : ∀ s ∈ steps, s.advances? ≠ some position) : (run readings steps)[position]? = some x := by
  induction steps generalizing readings with
  | nil => exact found
  | cons s steps ih =>
    exact ih (getElem?_step_of_ne found (others s (.head _))) fun later member => others later (.tail _ member)

theorem getElem?_clone {position : Nat} (found : readings[position]? = some x) :
    (step readings (.clone position))[readings.length]? = some x := by
  rw [step, found, Option.toList_some, List.getElem?_concat_length]

/-! ### The end -/

section

variable (ended : x.entries.next? = none)
include ended

theorem next_of_ended : x.next = x := by rw [next, ended]

theorem take_of_ended (n : Nat) : x.take n = x := by
  cases n with
  | zero => simp [take, Entries.take, Entries.takeOnto]
  | succ n => simp [take, Entries.take, Entries.takeOnto, ended]

theorem skip_of_ended (n : Nat) : x.skip n = x := by
  induction n with
  | zero => rfl
  | succ n ih => rw [skip, next_of_ended ended, ih]

theorem getElem?_step_of_ended {position : Nat} (found : readings[position]? = some x) (s : Step) :
    (step readings s)[position]? = some x := by
  by_cases other : s.advances? = some position
  · cases s with
    | next k =>
      obtain rfl := Option.some.inj other
      simp [step, found, next_of_ended ended]
    | take k n =>
      obtain rfl := Option.some.inj other
      simp [step, found, take_of_ended ended]
    | skip k n =>
      obtain rfl := Option.some.inj other
      simp [step, found, skip_of_ended ended]
    | clone k => cases other
  · exact getElem?_step_of_ne found other

theorem getElem?_run_of_ended {position : Nat} (found : readings[position]? = some x) (steps : List Step) :
    (run readings steps)[position]? = some x := by
  induction steps generalizing readings with
  | nil => exact found
  | cons s steps ih => exact ih (getElem?_step_of_ended ended found s)

end

/-! ### The window -/

/-- An iterator hands out the decoded slots of its window, each once and in order, however it is advanced; a copy stands
where the original stands, and neither moves the other. A cursor outside the window is refused, and one inside passes
over the items in front of it. Damage to a slot changes no item but the one that lies in it. -/
theorem iterators_follow_window {bytes : Bytes} {r : Ring capacity itemSize}
    (opened : Ring.ofBytes capacity itemSize bytes = .ok r) (decoder : Bytes → Except Fault α) :
    r.entriesSince r.tail decoder = .ok (r.entries decoder) ∧
    (∀ cursor, ¬ (r.tail ≤ cursor ∧ cursor ≤ r.head) →
      r.entriesSince cursor decoder = .error (.invalidCursor cursor r.tail r.head)) ∧
    (∀ cursor, r.tail ≤ cursor → cursor ≤ r.head →
      ∃ e, r.entriesSince cursor decoder = .ok e ∧
        e = ((r.entries decoder).take (cursor.toNat - r.tail.toNat)).2 ∧
        e.toList = (r.entries decoder).toList.drop (cursor.toNat - r.tail.toNat)) ∧
    (∀ start e, r.entriesSince start decoder = .ok e →
      e.toList.length = r.head.toNat - start.toNat ∧
      (∀ i < r.head.toNat - start.toNat, ∃ slot, r.slot? (.ofNat (start.toNat + i)) = some slot ∧
        e.toList[i]? = some (Entries.decodeItem decoder (.ofNat (start.toNat + i)) slot)) ∧
      ∀ steps, ∀ x ∈ run [begin e] steps,
        x.consumed ++ x.entries.toList = e.toList ∧
        x.entries.remaining = r.head.toNat - start.toNat - x.consumed.length ∧
        (x.entries.next? = none ↔ x.consumed.length = r.head.toNat - start.toNat)) ∧
    (∀ (readings : List (Reading capacity itemSize α)) position x, readings[position]? = some x →
      (∀ steps, (∀ s ∈ steps, s.advances? ≠ some position) → (run readings steps)[position]? = some x) ∧
      (step readings (.clone position))[readings.length]? = some x ∧
      (x.entries.next? = none → ∀ steps, (run readings steps)[position]? = some x)) ∧
    (∀ (bytes' : Bytes) (r' : Ring capacity itemSize) (slot : UInt32),
      Ring.ofBytes capacity itemSize bytes' = .ok r' → slot < capacity →
      (∀ position : Nat, position < Ring.slotOffset capacity itemSize slot ∨
        Ring.slotOffset capacity itemSize slot + itemSize ≤ position → bytes'[position]? = bytes[position]?) →
      r'.tail = r.tail ∧ r'.head = r.head ∧
      ∀ start e e', r.entriesSince start decoder = .ok e → r'.entriesSince start decoder = .ok e' →
        (∀ i : Nat, e'.toList[i]? ≠ e.toList[i]? → (start.toNat + i) % capacity.toNat = slot.toNat) ∧
        (∀ i j : Nat, e'.toList[i]? ≠ e.toList[i]? → e'.toList[j]? ≠ e.toList[j]? → i = j)) := by
  refine ⟨Ring.entriesSince_of_mem (UInt32.le_refl _) r.tail_le_head decoder,
    fun cursor outside => Ring.entriesSince_of_not_mem outside decoder, ?since, ?window, ?others, ?damage⟩
  case since =>
    intro cursor old new
    have low := UInt32.le_iff_toNat_le.mp old
    have high := UInt32.le_iff_toNat_le.mp new
    have since := Ring.entriesSince_eq_take old new decoder
    refine ⟨_, since, rfl, ?_⟩
    rw [Ring.toList_of_entriesSince since, Ring.toList_of_follows r.follows_refl,
      ← r.deliveries_append [] decoder low high, List.drop_left' (r.length_deliveries ..)]
  case window =>
    intro start e since
    have old := Ring.tail_le_of_entriesSince since
    have low := UInt32.le_iff_toNat_le.mp old
    have all := Ring.toList_of_entriesSince since
    obtain ⟨new, rfl⟩ := Ring.entriesSince_eq_ok since
    refine ⟨by rw [all, Ring.length_deliveries], ?_, ?_⟩
    · intro i inside
      refine ⟨_, Ring.slot?_ofNat (by omega) (by omega), ?_⟩
      rw [all, Ring.getElem?_deliveries r decoder (by omega)]
    · intro steps x member
      have began : ∀ y ∈ [begin { r.entries decoder with next := start }], Along r decoder start y := by
        simpa using begin_along new
      have along := run_along old began steps x member
      have length := along.length_consumed_add
      refine ⟨(along.consumed_append_toList old).trans all.symm, by omega, ?_⟩
      rw [along.next?_eq_none_iff]
      omega
  case others =>
    intro readings position x found
    exact ⟨fun steps others => getElem?_run_of_ne found others, getElem?_clone found,
      fun ended steps => getElem?_run_of_ended ended found steps⟩
  case damage =>
    intro bytes' r' slot opened' number outside
    rw [← Ring.toBytes_of_ofBytes opened, ← Ring.toBytes_of_ofBytes opened'] at outside
    have alike : Ring.AlikeOutside slot r r' := outside
    have head := alike.header.head_eq
    have tail : r'.tail = r.tail := by rw [Ring.tail, Ring.tail, head]
    refine ⟨tail, head, ?_⟩
    intro start e e' since since'
    have old := UInt32.le_iff_toNat_le.mp (Ring.tail_le_of_entriesSince since)
    rw [Ring.toList_of_entriesSince since, Ring.toList_of_entriesSince since']
    refine ⟨fun i differ => ?_, fun i j => alike.eq_of_ne old⟩
    rw [(alike.mod_eq_of_ne differ).2, Nat.mod_eq_of_lt (UInt32.lt_iff_toNat_lt.mp number)]

/-- Two flags of which the newer one, in the first slot, is damaged. -/
theorem iterators_follow_window_damaged :
    let decoder : Bytes → Except Fault Bool := (Format.fixed (.flag "flag")).decodePrefix
    let header : Bytes := Bytes.zeros 32 ++ [3, 0, 0, 0]
    ∃ (r r' : Ring 2 1) (e e' : Entries 2 1 Bool),
      Ring.ofBytes 2 1 (header ++ [1, 1]) = .ok r ∧ Ring.ofBytes 2 1 (header ++ [7, 1]) = .ok r' ∧
      r.entriesSince 1 decoder = .ok e ∧ r'.entriesSince 1 decoder = .ok e' ∧
      e.toList.map Except.toOption = [some true, some true] ∧ e'.toList.map Except.toOption = [some true, none] ∧
      (∀ i : Nat, e'.toList[i]? ≠ e.toList[i]? → (1 + i) % 2 = 0) ∧
      ∀ x ∈ run [begin e'] [.next 0, .clone 0, .skip 1 5], x.consumed ++ x.entries.toList = e'.toList := by
  intro decoder header
  have damaged : header ++ [7, 1] = (header ++ [1, 1]).set 36 7 := by decide +kernel
  have outside : ∀ position : Nat, position < Ring.slotOffset 2 1 0 ∨ Ring.slotOffset 2 1 0 + 1 ≤ position →
      (header ++ [7, 1])[position]? = (header ++ [1, 1])[position]? := by
    intro position apart
    have start : Ring.slotOffset 2 1 0 = 36 := by decide +kernel
    rw [damaged, List.getElem?_set_ne (by omega)]
  obtain ⟨-, -, since, -, -, damage⟩ := @iterators_follow_window 2 1 Bool (header ++ [1, 1]) _ rfl decoder
  obtain ⟨-, -, since', window', -⟩ := @iterators_follow_window 2 1 Bool (header ++ [7, 1]) _ rfl decoder
  obtain ⟨e, opened, same, -⟩ := since 1 (by decide +kernel) (by decide +kernel)
  obtain ⟨e', opened', same', -⟩ := since' 1 (by decide +kernel) (by decide +kernel)
  obtain ⟨-, -, only⟩ := damage _ _ 0 rfl (by decide) outside
  refine ⟨_, _, e, e', rfl, rfl, opened, opened', ?_, ?_, (only 1 e e' opened opened').1, ?_⟩
  · rw [same]
    decide +kernel
  · rw [same']
    decide +kernel
  · exact fun x member => ((window' 1 e' opened').2.2 _ x member).1

end Reading

end StakePool
