import StakePool.Proofs.RewardEvent
import StakePool.Proofs.Store.Requests

/-!
# Queues in a store

What happens to one account does not depend on requests about others: `answers_about` picks the requests about an
account out of any run. `Records` says what the appends among them leave in a queue, and `Records.number_events` what
the report on it then shows. `queues_are_independent` has both.
-/

namespace StakePool

universe u v

/-! ### Rows -/

theorem EventRow.number_ok {start : UInt32} {log : List (UInt32 × RewardEvent)}
    (counted : log.map (fun x => x.1.toNat) = List.range' start.toNat log.length) :
    number start (log.map fun x => .ok x.2) = log.map fun x => ⟨x.1, some x.2, none⟩ := by
  induction log generalizing start with
  | nil => rfl
  | cons x log ih =>
    rw [List.map_cons, List.length_cons, List.range'_succ, List.cons.injEq] at counted
    obtain ⟨first, others⟩ := counted
    obtain rfl := UInt32.toNat_inj.mp first
    rcases log with - | ⟨y, log⟩
    · rfl
    have advanced : (x.1 + 1).toNat = x.1.toNat + 1 := by
      have next : y.1.toNat = x.1.toNat + 1 := (List.cons.inj others).1
      have bound := y.1.toNat_lt
      rw [UInt32.toNat_add]
      show (x.1.toNat + 1) % 2 ^ 32 = _
      omega
    rw [List.map_cons, number, ih (by rw [advanced, others])]
    rfl

/-! ### What a queue records -/

/-- Of the events that were offered to the queue `start` those in `log` were taken, each under its cursor, and `queue`
is what became of it. -/
structure Records (start queue : RewardQueue) (offered : List RewardEvent) (log : List (UInt32 × RewardEvent)) :
    Prop where
  follows : Ring.Follows start (log.map fun x => RewardEvent.format.encode x.2) queue
  cursors : log.map (fun x => x.1.toNat) = List.range' (Ring.head start).toNat log.length
  taken : log.map Prod.snd = (offered.filter fun e => e.FitsSlot).take (0xffffffff - (Ring.head start).toNat)

namespace Records

variable {start queue queue' : RewardQueue} {offered : List RewardEvent} {log : List (UInt32 × RewardEvent)}
  {event : RewardEvent}

theorem refl (queue : RewardQueue) : Records queue queue [] [] where
  follows := Ring.follows_refl queue
  cursors := rfl
  taken := List.take_nil.symm

theorem head_eq (records : Records start queue offered log) :
    (Ring.head queue).toNat = (Ring.head start).toNat + log.length := by
  rw [records.follows.head_eq, List.length_map]

theorem length_eq (records : Records start queue offered log) :
    log.length = min (0xffffffff - (Ring.head start).toNat) (offered.filter fun e => e.FitsSlot).length := by
  rw [← List.length_map Prod.snd, records.taken, List.length_take]

theorem append_of_ok (records : Records start queue offered log) {cursor : UInt32}
    (pushed : RewardQueue.append queue event = .ok (cursor, queue')) :
    Records start queue' (offered ++ [event]) (log ++ [(cursor, event)]) := by
  obtain ⟨short, room, rfl, rfl⟩ := Ring.push_eq_ok_iff.mp pushed
  have head := records.head_eq
  have length := records.length_eq
  refine ⟨?follows, ?cursors, ?taken⟩
  case follows =>
    rw [List.map_append]
    exact Ring.store_follows records.follows short room
  case cursors =>
    rw [List.map_append, records.cursors, List.length_append, List.length_singleton, List.range'_1_concat, ← head]
    rfl
  case taken =>
    have fits : event.FitsSlot := short
    -- The head could still count this event, so none before it was refused for want of a cursor.
    rw [List.map_append, records.taken, List.filter_append, List.filter_cons_of_pos (by simpa using fits),
      List.filter_nil, List.take_of_length_le (by omega),
      List.take_of_length_le (by rw [List.length_append, List.length_singleton]; omega)]
    rfl

theorem append_of_error (records : Records start queue offered log) {fault : Fault}
    (refused : RewardQueue.append queue event = .error fault) : Records start queue (offered ++ [event]) log := by
  have head := records.head_eq
  have length := records.length_eq
  refine ⟨records.follows, records.cursors, ?_⟩
  rw [records.taken, List.filter_append]
  by_cases fits : event.FitsSlot
  · have full : ¬ (Ring.head queue).toNat < 0xffffffff := by
      intro room
      have pushed := Ring.push_eq_ok_iff.mpr ⟨fits, room, rfl, rfl⟩
      cases refused.symm.trans pushed
    rw [List.take_append_of_le_length (by omega)]
  · rw [List.filter_cons_of_neg (by simpa using fits), List.filter_nil, List.append_nil]

/-- The report on a queue that started empty has the last events that were taken, under their cursors. -/
theorem number_events (records : Records start queue offered log) (empty : Ring.head start = 0) :
    EventRow.number (Ring.tail queue) (RewardQueue.events queue).toList =
      (log.drop (log.length - min log.length 500)).map fun x => ⟨x.1, some x.2, none⟩ := by
  have zero : (Ring.head start).toNat = 0 := by rw [empty]; rfl
  have head : (Ring.head queue).toNat = log.length := by rw [records.head_eq, zero, Nat.zero_add]
  have tail : (Ring.tail queue).toNat = log.length - min log.length 500 := by
    rw [Ring.toNat_tail, head]
    show log.length - 500 = _
    omega
  have short : ∀ event ∈ log.map Prod.snd, event.FitsSlot := by
    intro event member
    rw [records.taken] at member
    simpa using (List.mem_filter.mp (List.mem_of_mem_take member)).2
  have small : (log.map Prod.snd).length < UInt32.size := by
    rw [List.length_map, ← head]
    exact (Ring.head queue).toNat_lt
  have follows := records.follows
  rw [← Function.comp_def, ← List.map_map] at follows
  have decoded := Ring.deliveries_encode empty (fun event member => RewardEvent.fits_of_fitsSlot (short event member))
    short small (Ring.tail queue).toNat
  rw [List.length_map, ← head] at decoded
  have items : (RewardQueue.events queue).toList = (log.drop (Ring.tail queue).toNat).map fun x => .ok x.2 := by
    refine (Ring.toList_of_follows follows RewardQueue.decodeSlot).trans (decoded.trans ?_)
    rw [← List.map_drop, List.map_map]
    rfl
  rw [items, ← tail]
  refine EventRow.number_ok ?_
  rw [List.map_drop, records.cursors, zero, List.drop_range', List.length_drop, Nat.zero_add, Nat.mul_one]

end Records

namespace AccountStore

variable {σ : Type} [AccountStore σ] [LawfulStore σ] {store : σ} {key : Pubkey} {requests : List Request}

/-! ### One account at a time -/

theorem fetch_after_of_ne (others : ∀ r ∈ requests, r.subject ≠ some key) :
    fetch (after store requests) key = fetch store key := by
  induction requests generalizing store with
  | nil => rfl
  | cons r requests ih =>
    rw [after, ih fun r member => others r (.tail _ member), fetch_respond_of_ne (others r (.head _))]

def about (key : Pubkey) (requests : List Request) : List Request := requests.filter fun r => r.subject = some key

/-- Unless something else is put in its place, what happens to an account is what happens to it in a run of the requests
about it alone. -/
theorem answers_about {s t : σ} (kept : ∀ bytes, .persist key bytes ∉ requests) (same : fetch s key = fetch t key) :
    (answers s requests).filter (fun a => a.1.subject = some key) = answers t (about key requests) ∧
      fetch (after s requests) key = fetch (after t (about key requests)) key := by
  induction requests generalizing s t with
  | nil => exact ⟨rfl, same⟩
  | cons r requests ih =>
    have later : ∀ bytes, .persist key bytes ∉ requests := fun bytes member => kept bytes (.tail _ member)
    by_cases subject : r.subject = some key
    · have own : about key (r :: requests) = r :: about key requests := by
        rw [about, List.filter_cons_of_pos (by simpa using subject), about]
      obtain ⟨answer, found⟩ := respond_local subject (fun bytes first => kept bytes (first ▸ .head _)) same
      obtain ⟨answered, left⟩ := ih later found
      rw [own, answers, answers, List.filter_cons_of_pos (by simpa using subject), answered, answer]
      exact ⟨rfl, left⟩
    · have own : about key (r :: requests) = about key requests := by
        rw [about, List.filter_cons_of_neg (by simpa using subject), about]
      rw [own, answers, List.filter_cons_of_neg (by simpa using subject)]
      exact ih later ((fetch_respond_of_ne subject).trans same)

/-! ### Queues -/

/-- The event that is to be appended to the queue of an account. -/
def offered? (key : Pubkey) : Request → Option RewardEvent
  | .appendRewardEvent named event => if named = key then some event else none
  | _ => none

/-- The event that was appended to the queue of an account, and its cursor. -/
def taken? (key : Pubkey) : ((r : Request) × r.Answer) → Option (UInt32 × RewardEvent)
  | ⟨.appendRewardEvent named event, answer⟩ =>
    if named = key then (answer : Except StoreFault UInt32).toOption.map fun cursor => (cursor, event) else none
  | _ => none

def offered (key : Pubkey) (requests : List Request) : List RewardEvent := requests.filterMap (offered? key)

def taken (key : Pubkey) (answers : List ((r : Request) × r.Answer)) : List (UInt32 × RewardEvent) :=
  answers.filterMap (taken? key)

theorem filterMap_cons_eq {α : Type u} {β : Type v} (f : α → Option β) (a : α) (rest : List α) :
    (a :: rest).filterMap f = (f a).toList ++ rest.filterMap f := by
  rw [List.filterMap_cons]
  cases f a with
  | none => rfl
  | some b => rfl

/-- One request leaves a queue that records one event more, or the same ones. -/
theorem respond_records {start queue : RewardQueue} {events : List RewardEvent}
    {log : List (UInt32 × RewardEvent)} {r : Request} (kept : ∀ bytes, r ≠ .persist key bytes)
    (held : fetch store key = .ok (Ring.toBytes queue)) (records : Records start queue events log) :
    ∃ queue', fetch (respond store r).2 key = .ok (Ring.toBytes queue') ∧
      Records start queue' (events ++ (offered? key r).toList)
        (log ++ (taken? key ⟨r, (respond store r).1⟩).toList) := by
  cases r with
  | appendRewardEvent named event =>
    by_cases same : named = key
    · subst same
      rw [offered?, if_pos rfl, Option.toList_some]
      have opened := extended_toBytes queue event
      cases pushed : RewardQueue.append queue event with
      | error fault =>
        rw [pushed, ← held] at opened
        rw [respond_append_of_error opened, taken?, if_pos rfl]
        refine ⟨queue, held, ?_⟩
        show Records start queue (events ++ [event]) (log ++ [])
        rw [List.append_nil]
        exact records.append_of_error pushed
      | ok next =>
        obtain ⟨cursor, queue'⟩ := next
        rw [pushed, ← held] at opened
        obtain ⟨store', stored, responded⟩ := respond_append_of_ok opened
        rw [responded, taken?, if_pos rfl]
        exact ⟨queue', LawfulStore.fetch_persist_self stored, records.append_of_ok pushed⟩
    · have other : (Request.appendRewardEvent named event).subject ≠ some key := fun subject =>
        same (Option.some.inj subject)
      rw [offered?, taken?, if_neg same, if_neg same, Option.toList_none, Option.toList_none, List.append_nil,
        List.append_nil]
      exact ⟨queue, (fetch_respond_of_ne other).trans held, records⟩
  | persist named bytes =>
    have other : (Request.persist named bytes).subject ≠ some key := by
      intro subject
      obtain rfl := Option.some.inj subject
      exact kept bytes rfl
    exact ⟨queue, (fetch_respond_of_ne other).trans held, by simpa [offered?, taken?] using records⟩
  | _ => exact ⟨queue, held, by simpa [offered?, taken?] using records⟩

theorem after_records {start queue : RewardQueue} {events : List RewardEvent} {log : List (UInt32 × RewardEvent)}
    (kept : ∀ bytes, .persist key bytes ∉ requests) (held : fetch store key = .ok (Ring.toBytes queue))
    (records : Records start queue events log) :
    ∃ queue', fetch (after store requests) key = .ok (Ring.toBytes queue') ∧
      Records start queue' (events ++ offered key requests) (log ++ taken key (answers store requests)) := by
  induction requests generalizing store queue events log with
  | nil => exact ⟨queue, held, by simpa [offered, answers, taken] using records⟩
  | cons r requests ih =>
    obtain ⟨next, left, recorded⟩ := respond_records (fun bytes first => kept bytes (first ▸ .head _)) held records
    obtain ⟨last, found, whole⟩ := ih (fun bytes member => kept bytes (.tail _ member)) left recorded
    have offers : offered key (r :: requests) = (offered? key r).toList ++ offered key requests :=
      filterMap_cons_eq _ _ _
    have takes : taken key (answers store (r :: requests)) = (taken? key ⟨r, (respond store r).1⟩).toList ++
        taken key (answers (respond store r).2 requests) := filterMap_cons_eq _ _ _
    rw [offers, takes, ← List.append_assoc, ← List.append_assoc]
    exact ⟨last, found, whole⟩

/-- The requests about an account, however they are interleaved with others, get the answers and leave the bytes that
they would on their own, and an account that no request is about keeps its bytes. A queue that started with zeros takes
the events that fit a slot under the cursors from 0 on, and the report has the last 500 of them. -/
theorem queues_are_independent (store : σ) (requests : List Request) :
    (∀ key, (∀ bytes, .persist key bytes ∉ requests) →
      let own := about key requests
      let log := taken key (answers store requests)
      (answers store requests).filter (fun a => a.1.subject = some key) = answers store own ∧
      fetch (after store requests) key = fetch (after store own) key ∧
      (fetch store key = .ok (Bytes.zeros RewardQueue.accountSize) →
        log.map Prod.snd = ((offered key requests).filter fun e => e.FitsSlot).take 0xffffffff ∧
        log.map (fun x => x.1.toNat) = List.range log.length ∧
        Report.events (after store requests) key none =
          .ok ((log.drop (log.length - min log.length 500)).map fun x => ⟨x.1, some x.2, none⟩))) ∧
    (∀ key, (∀ r ∈ requests, r.subject ≠ some key) → fetch (after store requests) key = fetch store key) := by
  refine ⟨fun key kept => ?_, fun key => fetch_after_of_ne⟩
  intro own log
  obtain ⟨answered, left⟩ := answers_about (s := store) kept rfl
  refine ⟨answered, left, fun held => ?_⟩
  have sized : Ring.validate (Bytes.zeros RewardQueue.accountSize).length RewardQueue.capacity RewardQueue.slotSize =
      .ok () := by
    rw [Bytes.length_zeros]
    exact RewardQueue.validate_accountSize
  obtain ⟨start, opened⟩ := Ring.exists_ofBytes sized
  have bytes := Ring.toBytes_of_ofBytes opened
  have empty : Ring.head start = 0 := Ring.head_of_zeros bytes
  rw [← bytes] at held
  obtain ⟨queue, found, records⟩ := after_records kept held (.refl start)
  have zero : (Ring.head start).toNat = 0 := by rw [empty]; rfl
  have events := records.taken
  have cursors := records.cursors
  rw [zero] at events cursors
  refine ⟨events, cursors.trans List.range_eq_range'.symm, ?_⟩
  rw [events_of_fetch found, records.number_events empty]
  rfl

theorem queues_are_independent_interleaved :
    let queue : Pubkey := ⟨List.replicate 32 1, rfl⟩
    let other : Pubkey := ⟨List.replicate 32 2, rfl⟩
    let drop : RewardEvent := .poolDrop other [5, 7] queue
    let large : RewardEvent := .poolDrop other (List.replicate 10 1) queue
    let alloc : RewardEvent := .lockedAlloc other 9 (-1) queue queue other
    let requests : List Request :=
      [.appendRewardEvent queue drop, .persist other [1], .appendRewardEvent queue large,
        .appendRewardEvent other drop, .appendRewardEvent queue alloc]
    let rows : List EventRow := [⟨0, some drop, none⟩, ⟨1, some alloc, none⟩]
    (∀ bytes, .persist queue bytes ∉ requests) ∧
    Report.events (after (⟨.insert .empty queue (.zeros RewardQueue.accountSize)⟩ : MemoryStore) requests) queue none =
      .ok rows ∧
    ∃ dumps : DirectoryStore, persist ⟨.empty⟩ queue (.zeros RewardQueue.accountSize) = .ok dumps ∧
      Report.events (after dumps requests) queue none = .ok rows := by
  intro queue other drop large alloc requests rows
  have distinct : other ≠ queue := by decide
  have kept : ∀ bytes, .persist queue bytes ∉ requests := by
    intro bytes
    simp [requests, Ne.symm distinct]
  have storable : (offered queue requests).filter (fun e => e.FitsSlot) = [drop, alloc] := by decide +kernel
  have report {σ : Type} [AccountStore σ] [LawfulStore σ] {store : σ}
      (held : fetch store queue = .ok (Bytes.zeros RewardQueue.accountSize)) :
      Report.events (after store requests) queue none = .ok rows := by
    obtain ⟨-, -, queued⟩ := (queues_are_independent store requests).1 queue kept
    obtain ⟨events, cursors, reported⟩ := queued held
    rw [storable] at events
    rw [reported]
    generalize taken queue (answers store requests) = log at events cursors
    have two : log.length = 2 := by simpa using congrArg List.length events
    rw [two] at cursors
    match log, events, cursors with
    | [(first, x), (second, y)], events, cursors =>
      obtain ⟨rfl, rfl⟩ : x = drop ∧ y = alloc := by simpa using events
      obtain ⟨zero, one⟩ : first.toNat = 0 ∧ second.toNat = 1 := by simpa [List.range_succ] using cursors
      obtain rfl : first = 0 := UInt32.toNat_inj.mp zero
      obtain rfl : second = 1 := UInt32.toNat_inj.mp one
      rfl
  have inMemory : persist MemoryStore.empty queue (.zeros RewardQueue.accountSize) = .ok _ := rfl
  have short : (Bytes.zeros RewardQueue.accountSize).length < 0x100000000 := by
    rw [Bytes.length_zeros]
    decide
  obtain ⟨contents, written⟩ := Dump.exists_write_iff.mpr short
  have free : (Catalog.empty : Directory).get? (DirectoryStore.fileName queue) ≠ some .directory := by
    intro taken
    cases taken
  have inDumps := DirectoryStore.persist_eq_ok_iff.mpr ⟨free, contents, written, rfl⟩
  exact ⟨kept, report (LawfulStore.fetch_persist_self inMemory), _, inDumps,
    report (LawfulStore.fetch_persist_self inDumps)⟩

end AccountStore

end StakePool
