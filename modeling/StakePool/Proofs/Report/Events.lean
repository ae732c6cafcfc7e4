import StakePool.Proofs.Ring.Guarded
import StakePool.Proofs.Ring.Iteration
import StakePool.Proofs.Store.Append
import StakePool.Proofs.Text.Faults
import StakePool.Report.Events

/-!
# The report on events and what the queue keeps

`Report.events` counts cursors on its own, beside the iterator that hands out the events. The two stay in step, past
damaged slots and up to the last head that a word can hold: the row under a cursor is that of the slot with this index
(`EventRow.number_deliveries`), and the count does not overflow (`Report.guarded_events_eq`).
-/

namespace StakePool

open AccountStore

/-! ### Slots that do not decode -/

namespace RewardQueue

variable {slot : Bytes} {source : Fault}

/-- Why a slot does not decode, and how that is said: its first byte names no kind of event, or its event is longer. -/
inductive SlotRefused (slot : Bytes) : Fault → String → Prop
  | kind (byte : UInt8) (first : slot.head? = some byte) (unknown : 1 < byte) :
    SlotRefused slot (.unknownVariant 0 byte) ("unknown variant " ++ toString byte.toNat ++ " at offset 0")
  | length (expected : Nat) (more : slot.length < expected) :
    SlotRefused slot (.sizeMismatch expected slot.length)
      ("size mismatch: expected " ++ toString expected ++ " bytes, got " ++ toString slot.length)

theorem message_unknownVariant_zero (byte : UInt8) :
    (Fault.unknownVariant 0 byte).message = "unknown variant " ++ toString byte.toNat ++ " at offset 0" := by
  have first : " at offset " ++ toString 0 = " at offset 0" := by decide
  calc (Fault.unknownVariant 0 byte).message
    _ = "unknown variant " ++ toString byte.toNat ++ " at offset " ++ toString 0 := rfl
    _ = "unknown variant " ++ toString byte.toNat ++ (" at offset " ++ toString 0) := String.append_assoc
    _ = _ := congrArg _ first

theorem slotRefused_of_decodeSlot (refused : decodeSlot slot = .error source) :
    SlotRefused slot source source.message := by
  rcases RewardEvent.holds_or_refused slot with ⟨event, rest, fits, rfl⟩ | ⟨byte, rest, rfl, unknown⟩ |
    ⟨expected, short, more⟩
  · cases refused.symm.trans (RewardEvent.decodePrefix_append fits rest)
  · obtain rfl := Except.error.inj (refused.symm.trans (RewardEvent.decodePrefix_of_unknown unknown rest))
    rw [message_unknownVariant_zero]
    exact .kind byte rfl unknown
  · obtain rfl := Except.error.inj (refused.symm.trans short)
    exact .length expected more

theorem SlotRefused.eq_message {text : String} (refused : SlotRefused slot source text) : text = source.message := by
  cases refused with
  | kind byte => exact (message_unknownVariant_zero byte).symm
  | length expected => rfl

end RewardQueue

/-! ### Rows -/

namespace EventRow

/-- A row has an event or the text of a fault, and not both. -/
def Exclusive (row : EventRow) : Prop :=
  (∃ event, row.event = some event ∧ row.error = none) ∨ ∃ text, row.event = none ∧ row.error = some text

/-- The row shows what the slot at its cursor holds: the event, or why there is none. -/
def Shows (queue : RewardQueue) (row : EventRow) : Prop :=
  ∃ slot, Ring.slot? queue row.cursor = some slot ∧
    ((∃ event, RewardQueue.decodeSlot slot = .ok event ∧ row.event = some event ∧ row.error = none) ∨
      ∃ source text, RewardQueue.decodeSlot slot = .error source ∧ RewardQueue.SlotRefused slot source text ∧
        row.event = none ∧ row.error = some ("corrupt ring entry " ++ toString row.cursor.toNat ++ ": " ++ text))

def ofSlot (queue : RewardQueue) (cursor : UInt32) : EventRow :=
  ofItem cursor (Entries.decodeItem RewardQueue.decodeSlot cursor (Ring.slotBytes queue cursor))

theorem cursor_ofItem (cursor : UInt32) (item : Except Fault RewardEvent) : (ofItem cursor item).cursor = cursor := by
  cases item with
  | ok event => rfl
  | error fault => rfl

theorem exclusive_ofItem (cursor : UInt32) (item : Except Fault RewardEvent) : (ofItem cursor item).Exclusive := by
  cases item with
  | ok event => exact .inl ⟨event, rfl, rfl⟩
  | error fault => exact .inr ⟨fault.message, rfl, rfl⟩

theorem shows_ofSlot {queue : RewardQueue} {cursor : UInt32}
    (kept : Ring.slot? queue cursor = some (Ring.slotBytes queue cursor)) : (ofSlot queue cursor).Shows queue := by
  unfold ofSlot Entries.decodeItem
  cases decoded : RewardQueue.decodeSlot (Ring.slotBytes queue cursor) with
  | ok event => exact ⟨_, kept, .inl ⟨event, decoded, rfl, rfl⟩⟩
  | error source =>
    exact ⟨_, kept, .inr ⟨source, _, decoded, RewardQueue.slotRefused_of_decodeSlot decoded, rfl, rfl⟩⟩

/-- The rows of the slots from one index up to another. -/
def between (queue : RewardQueue) (start stop : Nat) : List EventRow :=
  (List.range' start (stop - start)).map fun index => ofSlot queue (.ofNat index)

/-- An error text names the cursor of its row, and what is wrong with the slot there. -/
theorem Shows.index_eq {queue : RewardQueue} {row : EventRow} (shows : row.Shows queue) {index : UInt32}
    {source : Fault} (told : row.error = some (Fault.corruptEntry index source).message) :
    index = row.cursor ∧ ∃ slot, Ring.slot? queue row.cursor = some slot ∧ RewardQueue.decodeSlot slot = .error source := by
  obtain ⟨slot, kept, ⟨event, -, -, none⟩ | ⟨found, text, decoded, refused, -, same⟩⟩ := shows
  · cases told.symm.trans none
  · rw [refused.eq_message] at same
    have message : (Fault.corruptEntry index source).message = (Fault.corruptEntry row.cursor found).message :=
      Option.some.inj (told.symm.trans same)
    obtain ⟨rfl, rfl⟩ := Fault.corruptEntry.inj (Fault.message_injective message)
    exact ⟨rfl, slot, kept, decoded⟩

variable {queue : RewardQueue} {start middle stop : Nat}

theorem number_map_range' (f : Nat → Except Fault RewardEvent) (start n : Nat) :
    number (.ofNat start) ((List.range' start n).map f) =
      (List.range' start n).map fun index => ofItem (.ofNat index) (f index) := by
  induction n generalizing start with
  | zero => rfl
  | succ n ih =>
    rw [List.range'_succ, List.map_cons, List.map_cons, ← ih, UInt32.ofNat_add]
    rfl

theorem number_deliveries (queue : RewardQueue) (start : Nat) :
    number (.ofNat start) (Ring.deliveries queue [] RewardQueue.decodeSlot start (Ring.head queue).toNat) =
      between queue start (Ring.head queue).toNat := by
  rw [Ring.deliveries, number_map_range']
  apply List.map_congr_left
  intro index member
  obtain ⟨reached, inside⟩ := List.mem_range'_1.mp member
  have new : index < (Ring.head queue).toNat := by omega
  have below : UInt32.ofNat index < Ring.head queue := by
    rwa [UInt32.lt_iff_toNat_lt, Ring.toNat_ofNat_of_lt_head new]
  rw [Ring.entry, if_pos below, ofSlot]

theorem length_between (queue : RewardQueue) (start stop : Nat) : (between queue start stop).length = stop - start := by
  rw [between, List.length_map, List.length_range']

theorem shows_between {j : Nat} (old : (Ring.tail queue).toNat ≤ start)
    (inside : j < (between queue start (Ring.head queue).toNat).length) :
    (between queue start (Ring.head queue).toNat)[j].cursor.toNat = start + j ∧
      (between queue start (Ring.head queue).toNat)[j].Shows queue := by
  have row : (between queue start (Ring.head queue).toNat)[j] = ofSlot queue (.ofNat (start + j)) := by
    simp only [between, List.getElem_map, List.getElem_range', Nat.one_mul]
  rw [length_between] at inside
  have new : start + j < (Ring.head queue).toNat := by omega
  rw [row]
  refine ⟨?_, shows_ofSlot (Ring.slot?_ofNat (by omega) new)⟩
  rw [ofSlot, cursor_ofItem]
  exact Ring.toNat_ofNat_of_lt_head new

theorem between_append (first : start ≤ middle) (second : middle ≤ stop) :
    between queue start middle ++ between queue middle stop = between queue start stop := by
  unfold between
  rw [← List.map_append, Ring.range'_append_of_le first second]

theorem cursor_of_mem_between {row : EventRow} (member : row ∈ between queue start stop) (small : stop < UInt32.size) :
    start ≤ row.cursor.toNat ∧ row.cursor.toNat < stop := by
  obtain ⟨index, inside, rfl⟩ := List.mem_map.mp member
  have bounds := List.mem_range'_1.mp inside
  have position : (UInt32.ofNat index).toNat = index := UInt32.toNat_ofNat_of_lt' (by omega)
  rw [ofSlot, cursor_ofItem, position]
  omega

theorem filter_between {cursor : UInt32} (first : start ≤ cursor.toNat) (second : cursor.toNat ≤ stop)
    (small : stop < UInt32.size) :
    (between queue start stop).filter (fun row => cursor ≤ row.cursor) = between queue cursor.toNat stop := by
  have before : (between queue start cursor.toNat).filter (fun row => cursor ≤ row.cursor) = [] := by
    rw [List.filter_eq_nil_iff]
    intro row member
    have := cursor_of_mem_between member cursor.toNat_lt
    rw [decide_eq_true_iff, UInt32.le_iff_toNat_le]
    omega
  have behind : (between queue cursor.toNat stop).filter (fun row => cursor ≤ row.cursor) =
      between queue cursor.toNat stop := by
    rw [List.filter_eq_self]
    intro row member
    rw [decide_eq_true_iff, UInt32.le_iff_toNat_le]
    exact (cursor_of_mem_between member small).1
  rw [← between_append first second, List.filter_append, before, behind, List.nil_append]

end EventRow

/-! ### Guarded steps -/

namespace Guarded

def number (cursor : UInt32) : List (Except Fault RewardEvent) → Option (List EventRow)
  | [] => some []
  | item :: rest => do
    let next ← add32 cursor 1
    return .ofItem cursor item :: (← number next rest)

/-- The reading of a queue from a cursor, or from the oldest event. -/
def opened (queue : RewardQueue) (since : Option UInt32) :
    Option (Except Fault (Entries RewardQueue.capacity RewardQueue.slotSize RewardEvent)) := do
  match since with
  | none => return .ok (← entries queue RewardQueue.decodeSlot)
  | some cursor => entriesSince queue cursor RewardQueue.decodeSlot

def rows (queue : RewardQueue) (since : Option UInt32) : Option (Except ReportFault (List EventRow)) := do
  match ← opened queue since with
  | .error fault => return .error (.bytes fault)
  | .ok entries =>
    let (items, _) ← take entries (← remaining entries)
    return .ok (← number (since.getD (← tail queue)) items)

/-- The report on what was fetched, in steps that have no result where a word overflows. -/
def events (fetched : Except StoreFault Bytes) (since : Option UInt32) : Option (Except ReportFault (List EventRow)) :=
  match fetched with
  | .error fault => some (.error (.store fault))
  | .ok body =>
    match RewardQueue.ofBytes body with
    | .error fault => some (.error (.bytes fault))
    | .ok queue => rows queue since

theorem number_eq {cursor : UInt32} {items : List (Except Fault RewardEvent)}
    (room : cursor.toNat + items.length < UInt32.size) : number cursor items = some (EventRow.number cursor items) := by
  induction items generalizing cursor with
  | nil => rfl
  | cons item items ih =>
    rw [List.length_cons] at room
    have one : cursor.toNat + (1 : UInt32).toNat < UInt32.size := by
      show cursor.toNat + 1 < _
      omega
    have next : (cursor + 1).toNat = cursor.toNat + 1 := by
      rw [UInt32.toNat_add]
      exact Nat.mod_eq_of_lt one
    have later : number (cursor + 1) items = some (EventRow.number (cursor + 1) items) := ih (by omega)
    rw [number, add32_eq one, EventRow.number]
    simp [later]

theorem opened_eq (queue : RewardQueue) (since : Option UInt32) :
    opened queue since =
      some (Ring.entriesSince queue (since.getD (Ring.tail queue)) RewardQueue.decodeSlot) := by
  cases since with
  | none =>
    rw [Option.getD_none, Ring.entriesSince_tail]
    simp [opened, entries_eq]
  | some cursor => exact entriesSince_eq queue cursor RewardQueue.decodeSlot

theorem rows_eq (queue : RewardQueue) (since : Option UInt32) :
    rows queue since =
      some (((Ring.entriesSince queue (since.getD (Ring.tail queue)) RewardQueue.decodeSlot).mapError .bytes).map
        fun entries => EventRow.number (since.getD (Ring.tail queue)) entries.toList) := by
  rw [rows, opened_eq]
  simp only [tail_eq, Option.bind_eq_bind, Option.bind_some]
  generalize since.getD (Ring.tail queue) = start
  cases found : Ring.entriesSince queue start RewardQueue.decodeSlot with
  | error fault => rfl
  | ok entries =>
    obtain ⟨new, same⟩ := Ring.entriesSince_eq_ok found
    have left : remaining entries = some entries.remaining := remaining_eq (same ▸ new)
    -- The cursors are counted up to the head, which is a word itself.
    have room : start.toNat + entries.toList.length < UInt32.size := by
      rw [UInt32.le_iff_toNat_le] at new
      rw [Ring.toList_of_entriesSince found, Ring.length_deliveries, Nat.add_sub_cancel' new]
      exact (Ring.head queue).toNat_lt
    have counted : number start (entries.take entries.remaining).1 = some (EventRow.number start entries.toList) :=
      number_eq room
    simp [left, take_eq, counted, Except.mapError, Except.map]

end Guarded

/-! ### Outcomes -/

namespace Report

variable {σ : Type} [AccountStore σ] {store : σ} {key : Pubkey} {since : Option UInt32} {body : Bytes}
  {queue : RewardQueue}

theorem events_of_fetch_error {fault : StoreFault} (failed : fetch store key = .error fault) (since : Option UInt32) :
    Report.events store key since = .error (.store fault) :=
  bind_eq_error_iff.mpr (.inl (mapError_eq_error_iff.mpr ⟨fault, failed, rfl⟩))

theorem events_of_ne (fetched : fetch store key = .ok body) (other : body.length ≠ 72536) (since : Option UInt32) :
    Report.events store key since = .error (.bytes (.sizeMismatch 72536 body.length)) := by
  refine bind_eq_error_iff.mpr (.inr ⟨body, mapError_eq_ok_iff.mpr fetched, bind_eq_error_iff.mpr (.inl ?_)⟩)
  exact mapError_eq_error_iff.mpr ⟨_, RewardQueue.ofBytes_of_ne other, rfl⟩

theorem events_of_opened (fetched : fetch store key = .ok body) (opened : RewardQueue.ofBytes body = .ok queue)
    (since : Option UInt32) :
    Report.events store key since =
      ((Ring.entriesSince queue (since.getD (Ring.tail queue)) RewardQueue.decodeSlot).mapError .bytes).map
        fun entries => EventRow.number (since.getD (Ring.tail queue)) entries.toList := by
  rw [Report.events, fetched]
  show (RewardQueue.ofBytes body).mapError _ >>= _ = _
  rw [opened]
  cases since with
  | none =>
    rw [Option.getD_none, Ring.entriesSince_tail]
    rfl
  | some cursor =>
    rw [Option.getD_some]
    show (Ring.entriesSince queue cursor RewardQueue.decodeSlot).mapError _ >>= _ = _
    cases Ring.entriesSince queue cursor RewardQueue.decodeSlot with
    | error fault => rfl
    | ok entries => rfl

theorem getD_tail_within (within : ∀ cursor ∈ since, Ring.tail queue ≤ cursor ∧ cursor ≤ Ring.head queue) :
    Ring.tail queue ≤ since.getD (Ring.tail queue) ∧ since.getD (Ring.tail queue) ≤ Ring.head queue := by
  cases since with
  | none => exact ⟨UInt32.le_refl _, Ring.tail_le_head queue⟩
  | some cursor => exact within cursor rfl

theorem guarded_events_eq (store : σ) (key : Pubkey) (since : Option UInt32) :
    Guarded.events (fetch store key) since = some (Report.events store key since) := by
  cases fetched : fetch store key with
  | error fault => rw [events_of_fetch_error fetched, Guarded.events]
  | ok body =>
    rw [Guarded.events]
    by_cases sized : body.length = 72536
    · obtain ⟨queue, opened⟩ := RewardQueue.exists_ofBytes_iff.mpr sized
      rw [events_of_opened fetched opened, opened]
      exact Guarded.rows_eq queue since
    · rw [events_of_ne fetched sized, RewardQueue.ofBytes_of_ne sized]

theorem events_of_inside (fetched : fetch store key = .ok body) (opened : RewardQueue.ofBytes body = .ok queue)
    (within : ∀ cursor ∈ since, Ring.tail queue ≤ cursor ∧ cursor ≤ Ring.head queue) :
    Report.events store key since =
      .ok (EventRow.between queue (since.getD (Ring.tail queue)).toNat (Ring.head queue).toNat) := by
  obtain ⟨old, new⟩ := getD_tail_within within
  have found := Ring.entriesSince_of_mem old new RewardQueue.decodeSlot
  have numbered := EventRow.number_deliveries queue (since.getD (Ring.tail queue)).toNat
  rw [UInt32.ofNat_toNat, ← Ring.toList_of_entriesSince found] at numbered
  rw [events_of_opened fetched opened, found, ← numbered]
  rfl

theorem events_of_outside (fetched : fetch store key = .ok body) (opened : RewardQueue.ofBytes body = .ok queue)
    {cursor : UInt32} (outside : ¬ (Ring.tail queue ≤ cursor ∧ cursor ≤ Ring.head queue)) :
    Report.events store key (some cursor) =
      .error (.bytes (.invalidCursor cursor (Ring.tail queue) (Ring.head queue))) := by
  rw [events_of_opened fetched opened, Option.getD_some, Ring.entriesSince_of_not_mem outside]
  rfl

theorem events_cases (store : σ) (key : Pubkey) (since : Option UInt32) :
    (∃ first, fetch store key = .error first ∧ Report.events store key since = .error (.store first)) ∨
    (∃ body, fetch store key = .ok body ∧ body.length ≠ 72536 ∧
      Report.events store key since = .error (.bytes (.sizeMismatch 72536 body.length))) ∨
    (∃ body queue cursor, fetch store key = .ok body ∧ RewardQueue.ofBytes body = .ok queue ∧ since = some cursor ∧
      ¬ (Ring.tail queue ≤ cursor ∧ cursor ≤ Ring.head queue) ∧
      Report.events store key since = .error (.bytes (.invalidCursor cursor (Ring.tail queue) (Ring.head queue)))) ∨
    ∃ body queue, fetch store key = .ok body ∧ RewardQueue.ofBytes body = .ok queue ∧
      (∀ cursor ∈ since, Ring.tail queue ≤ cursor ∧ cursor ≤ Ring.head queue) ∧
      Report.events store key since =
        .ok (EventRow.between queue (since.getD (Ring.tail queue)).toNat (Ring.head queue).toNat) := by
  cases fetched : fetch store key with
  | error first => exact .inl ⟨first, rfl, events_of_fetch_error fetched since⟩
  | ok body =>
    by_cases sized : body.length = 72536
    · obtain ⟨queue, opened⟩ := RewardQueue.exists_ofBytes_iff.mpr sized
      by_cases within : ∀ cursor ∈ since, Ring.tail queue ≤ cursor ∧ cursor ≤ Ring.head queue
      · exact .inr (.inr (.inr ⟨body, queue, rfl, opened, within, events_of_inside fetched opened within⟩))
      · simp only [not_forall] at within
        obtain ⟨cursor, rfl, outside⟩ := within
        have refused := events_of_outside fetched opened outside
        exact .inr (.inr (.inl ⟨body, queue, cursor, rfl, opened, rfl, outside, refused⟩))
    · exact .inr (.inl ⟨body, rfl, sized, events_of_ne fetched sized since⟩)

theorem events_eq_error_iff {fault : ReportFault} :
    Report.events store key since = .error fault ↔
      (∃ first, fetch store key = .error first ∧ fault = .store first) ∨
      (∃ body, fetch store key = .ok body ∧ body.length ≠ 72536 ∧
        fault = .bytes (.sizeMismatch 72536 body.length)) ∨
      ∃ body queue cursor, fetch store key = .ok body ∧ RewardQueue.ofBytes body = .ok queue ∧ since = some cursor ∧
        ¬ (Ring.tail queue ≤ cursor ∧ cursor ≤ Ring.head queue) ∧
        fault = .bytes (.invalidCursor cursor (Ring.tail queue) (Ring.head queue)) := by
  constructor
  · intro failed
    rcases events_cases store key since with ⟨first, missing, same⟩ | ⟨body, fetched, other, same⟩ |
      ⟨body, queue, cursor, fetched, opened, given, outside, same⟩ | ⟨_, _, _, _, _, fine⟩
    · exact .inl ⟨first, missing, Except.error.inj (failed.symm.trans same)⟩
    · exact .inr (.inl ⟨body, fetched, other, Except.error.inj (failed.symm.trans same)⟩)
    · exact .inr (.inr ⟨body, queue, cursor, fetched, opened, given, outside,
        Except.error.inj (failed.symm.trans same)⟩)
    · cases failed.symm.trans fine
  · rintro (⟨first, failed, rfl⟩ | ⟨body, fetched, other, rfl⟩ |
      ⟨body, queue, cursor, fetched, opened, rfl, outside, rfl⟩)
    · exact events_of_fetch_error failed since
    · exact events_of_ne fetched other since
    · exact events_of_outside fetched opened outside

theorem exists_queue_of_events {rows : List EventRow} (reported : Report.events store key since = .ok rows) :
    ∃ body queue, fetch store key = .ok body ∧ RewardQueue.ofBytes body = .ok queue ∧
      (∀ cursor ∈ since, Ring.tail queue ≤ cursor ∧ cursor ≤ Ring.head queue) ∧
      rows = EventRow.between queue (since.getD (Ring.tail queue)).toNat (Ring.head queue).toNat := by
  rcases events_cases store key since with ⟨_, _, failed⟩ | ⟨_, _, _, failed⟩ | ⟨_, _, _, _, _, _, _, failed⟩ |
    ⟨body, queue, fetched, opened, within, same⟩
  · cases reported.symm.trans failed
  · cases reported.symm.trans failed
  · cases reported.symm.trans failed
  · exact ⟨body, queue, fetched, opened, within, Except.ok.inj (reported.symm.trans same)⟩

/-- Every row of a report has an event or the text of a fault, and not both. -/
theorem exclusive_of_mem_events {rows : List EventRow} (reported : Report.events store key since = .ok rows)
    {row : EventRow} (member : row ∈ rows) : row.Exclusive := by
  obtain ⟨body, queue, -, -, -, rfl⟩ := exists_queue_of_events reported
  obtain ⟨index, -, rfl⟩ := List.mem_map.mp member
  exact EventRow.exclusive_ofItem ..

theorem events_since_eq_filter {cursor : UInt32} {rows all : List EventRow}
    (reported : Report.events store key (some cursor) = .ok rows) (whole : Report.events store key none = .ok all) :
    rows = all.filter fun row => cursor ≤ row.cursor := by
  obtain ⟨body, queue, fetched, opened, within, rfl⟩ := exists_queue_of_events reported
  obtain ⟨body', queue', fetched', opened', -, rfl⟩ := exists_queue_of_events whole
  obtain rfl := Except.ok.inj (fetched.symm.trans fetched')
  obtain rfl := Except.ok.inj (opened.symm.trans opened')
  obtain ⟨old, new⟩ := within cursor rfl
  rw [UInt32.le_iff_toNat_le] at old new
  exact (EventRow.filter_between old new (Ring.head queue).toNat_lt).symm

/-! ### A damaged slot -/

/-- A queue with an empty drop and, behind it, a slot of no known kind. -/
def damagedBody : Bytes := Bytes.zeros 32 ++ [2, 0, 0, 0] ++ Bytes.zeros 145 ++ [7] ++ Bytes.zeros 72354

theorem exists_damagedQueue :
    damagedBody.length = 72536 ∧ ∃ queue, RewardQueue.ofBytes damagedBody = .ok queue ∧ Ring.head queue = 2 ∧
      Ring.tail queue = 0 ∧ RewardQueue.decodeSlot (Ring.slotBytes queue 1) = .error (.unknownVariant 0 7) := by
  have sized : damagedBody.length = 72536 := by
    simp only [damagedBody, List.length_append, Bytes.length_zeros, List.length_cons, List.length_nil]
  obtain ⟨queue, opened⟩ := RewardQueue.exists_ofBytes_iff.mpr sized
  have head : Ring.head queue = 2 := (RewardQueue.head_eq_headOf opened).trans (by decide +kernel)
  have kept : queue.buffer.toList = damagedBody := Ring.toBytes_of_ofBytes opened
  have start : Ring.slotOffset 500 145 1 = 181 := by decide +kernel
  refine ⟨sized, queue, opened, head, ?tail, ?slot⟩
  case tail =>
    rw [Ring.tail, head]
    rfl
  case slot =>
    rw [Ring.slotBytes, start, Ring.stretch_eq_take_drop, kept]
    decide +kernel

theorem within_damagedQueue {queue : RewardQueue} (head : Ring.head queue = 2) (tail : Ring.tail queue = 0) :
    ∀ cursor ∈ some (1 : UInt32), Ring.tail queue ≤ cursor ∧ cursor ≤ Ring.head queue := by
  rw [head, tail]
  rintro cursor ⟨⟩
  decide

/-! ### The report -/

/-- Each row stands under the index of its slot, whatever the slots hold and however far the head has come: a damaged
slot takes its row and shows its fault, and the count never overflows. Nothing but a failed fetch, a wrong length or a
cursor outside the window is a fault, and a cursor only leaves out the rows in front of it. -/
theorem events_stand_under_their_cursors (store : σ) (key : Pubkey) (since : Option UInt32) :
    let report := Report.events store key since
    Guarded.events (fetch store key) since = some report ∧
    (∀ fault, report = .error fault ↔
      (∃ first, fetch store key = .error first ∧ fault = .store first) ∨
      (∃ body, fetch store key = .ok body ∧ body.length ≠ 72536 ∧
        fault = .bytes (.sizeMismatch 72536 body.length)) ∨
      ∃ body queue cursor, fetch store key = .ok body ∧ RewardQueue.ofBytes body = .ok queue ∧ since = some cursor ∧
        ¬ (Ring.tail queue ≤ cursor ∧ cursor ≤ Ring.head queue) ∧
        fault = .bytes (.invalidCursor cursor (Ring.tail queue) (Ring.head queue))) ∧
    (∀ body, fetch store key = .ok body → body.length = 72536 → ∃ queue, RewardQueue.ofBytes body = .ok queue ∧
      ((∀ cursor ∈ since, Ring.tail queue ≤ cursor ∧ cursor ≤ Ring.head queue) →
        let start := since.getD (Ring.tail queue)
        start ≤ Ring.head queue ∧ ∃ rows, report = .ok rows ∧
          rows.length = (Ring.head queue).toNat - start.toNat ∧
          ∀ j (inside : j < rows.length), rows[j].cursor.toNat = start.toNat + j ∧ rows[j].Shows queue ∧
            ∀ index source, rows[j].error = some (Fault.corruptEntry index source).message →
              index = rows[j].cursor ∧
              ∃ slot, Ring.slot? queue index = some slot ∧ RewardQueue.decodeSlot slot = .error source)) ∧
    (∀ cursor rows all, Report.events store key (some cursor) = .ok rows → Report.events store key none = .ok all →
      rows = all.filter fun row => cursor ≤ row.cursor) := by
  refine ⟨guarded_events_eq store key since, fun _ => events_eq_error_iff, fun body fetched sized => ?_,
    fun _ _ _ => events_since_eq_filter⟩
  obtain ⟨queue, opened⟩ := RewardQueue.exists_ofBytes_iff.mpr sized
  refine ⟨queue, opened, fun within => ?_⟩
  obtain ⟨old, new⟩ := getD_tail_within within
  refine ⟨new, _, events_of_inside fetched opened within, EventRow.length_between .., fun j inside => ?_⟩
  obtain ⟨position, shows⟩ := EventRow.shows_between (UInt32.le_iff_toNat_le.mp old) inside
  refine ⟨position, shows, fun index source told => ?_⟩
  obtain ⟨rfl, kept⟩ := shows.index_eq told
  exact ⟨rfl, kept⟩

/-- A queue with an empty drop and a damaged slot. -/
theorem events_stand_under_their_cursors_damaged :
    let key : Pubkey := Block.fill 32 1
    let body : Bytes := Bytes.zeros 32 ++ [2, 0, 0, 0] ++ Bytes.zeros 145 ++ [7] ++ Bytes.zeros 72354
    let store : MemoryStore := ⟨[(key, body)], by decide⟩
    (∃ row all, Report.events store key (some 1) = .ok [row] ∧ Report.events store key none = .ok all ∧
      row.cursor = 1 ∧ row.event = none ∧ row.error = some "corrupt ring entry 1: unknown variant 7 at offset 0" ∧
      all.length = 2 ∧ [row] = all.filter fun row => 1 ≤ row.cursor) ∧
    Report.events store key (some 3) = .error (.bytes (.invalidCursor 3 0 2)) := by
  intro key body store
  have fetched : fetch store key = .ok body :=
    MemoryStore.fetch_eq_ok_iff.mpr (Catalog.get?_eq_some_iff.mpr (.head _))
  obtain ⟨sized, queue, opened, head, tail, damaged⟩ := exists_damagedQueue
  obtain ⟨-, -, since, only⟩ := events_stand_under_their_cursors store key (some 1)
  obtain ⟨-, -, whole, -⟩ := events_stand_under_their_cursors store key none
  obtain ⟨-, failed, -⟩ := events_stand_under_their_cursors store key (some 3)
  obtain ⟨_, opened', since⟩ := since body fetched sized
  obtain ⟨_, opened'', whole⟩ := whole body fetched sized
  obtain rfl := Except.ok.inj (opened.symm.trans opened')
  obtain rfl := Except.ok.inj (opened.symm.trans opened'')
  obtain ⟨-, rows, reported, count, shown⟩ := since (within_damagedQueue head tail)
  obtain ⟨-, all, reportedAll, countAll, -⟩ := whole fun cursor member => absurd member (Option.not_mem_none cursor)
  rw [head] at count
  rw [head, Option.getD_none, tail] at countAll
  obtain ⟨row, rfl⟩ := List.length_eq_one_iff.mp count
  obtain ⟨position, ⟨slot, found, shows⟩, -⟩ := shown 0 Nat.one_pos
  have cursor : row.cursor = 1 := UInt32.toNat_inj.mp position
  rw [List.getElem_cons_zero, cursor] at found shows
  rw [Ring.slot?_of_mem (by rw [tail]; decide) (by rw [head]; decide)] at found
  rw [← Option.some.inj found, damaged] at shows
  obtain ⟨_, decoded, -⟩ | ⟨_, text, same, refused, noEvent, told⟩ := shows
  · cases decoded
  obtain rfl := Except.error.inj same
  have words : text = "unknown variant 7 at offset 0" := by
    cases refused
    decide
  rw [words] at told
  refine ⟨⟨row, all, reported, reportedAll, cursor, noEvent, told.trans (by decide), countAll,
    only 1 [row] all reported reportedAll⟩, ?_⟩
  refine (failed _).mpr (.inr (.inr ⟨body, queue, 3, fetched, opened, rfl, ?_, ?_⟩))
  · rw [head, tail]
    decide
  · rw [head, tail]

end Report

end StakePool
