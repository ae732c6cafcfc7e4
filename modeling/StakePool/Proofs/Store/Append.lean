import StakePool.Proofs.RewardEvent
import StakePool.Proofs.Ring.Append
import StakePool.Proofs.Store.Requests

/-!
# Appends in a store

An append reads an account, checks what it found, and writes the account back. `refusals` lists what can be wrong with
an account and an event, in the order in which it is looked for; `append_is_all_or_nothing` says that the first of them
is the answer and leaves the store alone, and that without any the append changes a slot and the head of one account.
-/

namespace StakePool

/-! ### Refusals -/

namespace RewardEvent

theorem fitsSlot_iff {event : RewardEvent} :
    event.FitsSlot ↔ event.kind = .lockedAlloc ∨
      ∃ sender totals pool, event = .poolDrop sender totals pool ∧ totals.length ≤ RewardQueue.maxPoolDropAssets := by
  cases event with
  | lockedAlloc sender total expiry expiryReceiver pool vendor =>
    have fits : (lockedAlloc sender total expiry expiryReceiver pool vendor).FitsSlot := by
      rw [FitsSlot, Format.length_encode]
      exact Nat.le_refl 145
    simp [fits, kind]
  | poolDrop sender totals pool =>
    rw [fitsSlot_poolDrop_iff]
    simp [kind]

end RewardEvent

namespace RewardQueue

open Dump (report head?_report)

variable {body : Bytes} {queue : RewardQueue} {event : RewardEvent}

/-- The head of the queue that some bytes are, if they are one. -/
def headOf (body : Bytes) : UInt32 := Word.u32.ofBytes ((body.drop RingHeader.headOffset).take 4)

theorem head_eq_headOf (opened : ofBytes body = .ok queue) : Ring.head queue = headOf body := by
  have bytes : queue.buffer.toList = body := Ring.toBytes_of_ofBytes opened
  rw [Ring.head, Ring.stretch_eq_take_drop, bytes, headOf]

theorem exists_ofBytes_iff : (∃ queue, ofBytes body = .ok queue) ↔ body.length = accountSize := by
  constructor
  · intro ⟨queue, opened⟩
    rw [← Ring.toBytes_of_ofBytes opened, length_toBytes]
  · intro sized
    apply Ring.exists_ofBytes
    rw [sized]
    exact validate_accountSize

theorem ofBytes_of_ne (other : body.length ≠ accountSize) :
    ofBytes body = .error (.sizeMismatch accountSize body.length) := by
  apply Ring.ofBytes_of_refused
  rw [Ring.validate, if_neg (by decide)]
  show (if body.length = accountSize then _ else _) = _
  rw [if_neg other]
  rfl

/-- What stands in the way of an append, in the order in which it is met. -/
def refusals (found : Except StoreFault Bytes) (event : RewardEvent) : List StoreFault :=
  match found with
  | .error fault => [fault]
  | .ok body =>
    report (body.length ≠ accountSize) (.layout (.sizeMismatch accountSize body.length)) ++
    (report (slotSize < (RewardEvent.format.encode event).length)
      (.layout (.sizeMismatch slotSize (RewardEvent.format.encode event).length)) ++
    report (headOf body = 0xffffffff) (.layout (.overflow .ringHead)))

end RewardQueue

namespace AccountStore

open RewardQueue (headOf refusals)

/-! ### The queue with one more event -/

section

variable {found : Except StoreFault Bytes} {event : RewardEvent} {cursor : UInt32} {queue : RewardQueue}

theorem extended_eq_error_iff {fault : StoreFault} :
    extended found event = .error fault ↔ (refusals found event).head? = some fault := by
  cases found with
  | error first =>
    have failed : extended (.error first) event = .error first := rfl
    simp [failed, refusals]
  | ok body =>
    simp only [refusals, Dump.head?_report, Dump.head?_report_self]
    by_cases other : body.length ≠ RewardQueue.accountSize
    · have failed : extended (.ok body) event = .error (.layout (.sizeMismatch RewardQueue.accountSize body.length)) := by
        show (RewardQueue.ofBytes body).mapError StoreFault.layout >>= _ = _
        rw [RewardQueue.ofBytes_of_ne other]
        rfl
      simp [failed, other]
    · obtain ⟨queue, opened⟩ := RewardQueue.exists_ofBytes_iff.mpr (Decidable.not_not.mp other)
      have pushed := extended_toBytes queue event
      rw [Ring.toBytes_of_ofBytes opened] at pushed
      rw [if_neg other, pushed, ← RewardQueue.head_eq_headOf opened]
      -- From here on both sides ask the same questions in the same order.
      unfold RewardQueue.append Ring.append Ring.push
      by_cases long : RewardQueue.slotSize < (RewardEvent.format.encode event).length
      · simp [long, Except.mapError]
      · by_cases last : Ring.head queue = 0xffffffff
        · simp [long, last, Except.mapError]
        · simp [long, last, Except.mapError]

theorem exists_extended_iff :
    (∃ cursor queue, extended found event = .ok (cursor, queue)) ↔
      ∃ body, found = .ok body ∧ body.length = RewardQueue.accountSize ∧ event.FitsSlot ∧
        (headOf body).toNat < 0xffffffff := by
  constructor
  · intro ⟨cursor, queue, taken⟩
    obtain ⟨body, old, held, opened, appended⟩ := extended_eq_ok_iff.mp taken
    obtain ⟨fits, room, -⟩ := RewardQueue.append_eq_ok_iff.mp appended
    rw [RewardQueue.head_eq_headOf opened] at room
    exact ⟨body, held, RewardQueue.exists_ofBytes_iff.mp ⟨old, opened⟩, fits, room⟩
  · intro ⟨body, held, sized, fits, room⟩
    obtain ⟨old, opened⟩ := RewardQueue.exists_ofBytes_iff.mpr sized
    rw [← RewardQueue.head_eq_headOf opened] at room
    have appended := RewardQueue.append_eq_ok_iff.mpr ⟨fits, room, rfl, rfl⟩
    exact ⟨_, _, extended_eq_ok_iff.mpr ⟨body, old, held, opened, appended⟩⟩

/-- The new queue differs from the old one in its head and in the slot at the old head. -/
theorem exists_split_of_extended (taken : extended found event = .ok (cursor, queue)) :
    ∃ authority front old back,
      found = .ok (authority ++ Word.u32.bytes cursor ++ front ++ old ++ back) ∧
      Ring.toBytes queue = authority ++ Word.u32.bytes (cursor + 1) ++ front ++
        Bytes.padTo RewardQueue.slotSize (RewardEvent.format.encode event) ++ back ∧
      authority.length = 32 ∧ cursor.toNat < 0xffffffff ∧
      front.length = cursor.toNat % 500 * RewardQueue.slotSize ∧ old.length = RewardQueue.slotSize := by
  obtain ⟨body, before, held, opened, appended⟩ := extended_eq_ok_iff.mp taken
  obtain ⟨fits, room, rfl, rfl⟩ := RewardQueue.append_eq_ok_iff.mp appended
  have filled := Bytes.length_padTo fits
  have old := Ring.length_slotBytes before (Ring.head before)
  obtain ⟨front, back, split, reached⟩ := Ring.exists_split before (Ring.head before)
  refine ⟨_, front, _, back, ?_, Ring.toBytes_store split reached (filled.trans old.symm),
    (Ring.authority before).length_eq, room, reached, old⟩
  rw [held, ← Ring.toBytes_of_ofBytes opened, split]

end

/-! ### The account -/

section

variable {σ : Type} [AccountStore σ] [LawfulStore σ] {store store' : σ} {key : Pubkey} {event : RewardEvent}
  {cursor : UInt32}

/-- Writing the queue back is no further cause of failure. -/
theorem exists_run_appendInPlace_iff :
    (∃ store', (appendInPlace key event).run store = .ok cursor store') ↔
      ∃ queue, extended (fetch store key) event = .ok (cursor, queue) := by
  constructor
  · intro ⟨store', appended⟩
    obtain ⟨queue, taken, -⟩ := run_appendInPlace_eq_ok_iff.mp appended
    exact ⟨queue, taken⟩
  · intro ⟨queue, taken⟩
    obtain ⟨store', kept⟩ := exists_persist_of_extended taken
    exact ⟨store', run_appendInPlace_eq_ok_iff.mpr ⟨queue, taken, kept⟩⟩

/-- An append that fails has not written anything. -/
theorem run_appendInPlace_eq_error_iff {fault : StoreFault} :
    (appendInPlace key event).run store = .error fault store' ↔
      extended (fetch store key) event = .error fault ∧ store' = store := by
  cases taken : extended (fetch store key) event with
  | error first =>
    rw [run_appendInPlace_of_error taken]
    simp [eq_comm]
  | ok next =>
    obtain ⟨last, appended⟩ := exists_run_appendInPlace_iff.mpr ⟨next.2, taken⟩
    rw [appended]
    simp

end

/-! ### Everything else -/

section

variable {key : Pubkey} {event : RewardEvent} {cursor : UInt32}

/-- No account comes or goes, and no other account changes. -/
theorem accounts_of_append {store store' : MemoryStore}
    (appended : (appendInPlace key event).run store = .ok cursor store') :
    store'.accounts.keys = store.accounts.keys ∧
      ∀ other, other ≠ key → store'.accounts.get? other = store.accounts.get? other := by
  obtain ⟨queue, taken, kept⟩ := run_appendInPlace_eq_ok_iff.mp appended
  obtain ⟨body, -, held, -⟩ := extended_eq_ok_iff.mp taken
  obtain rfl := Except.ok.inj kept
  have present := MemoryStore.fetch_eq_ok_iff.mp held
  exact ⟨Catalog.keys_insert_of_get? present _, fun other ne => Catalog.get?_insert_of_ne _ ne _⟩

/-- No file comes or goes, and none but the dump of the account changes. -/
theorem directory_of_append {store store' : DirectoryStore}
    (appended : (appendInPlace key event).run store = .ok cursor store') :
    store'.directory.keys = store.directory.keys ∧
      ∀ name, name ≠ DirectoryStore.fileName key → store'.directory.get? name = store.directory.get? name := by
  obtain ⟨queue, taken, kept⟩ := run_appendInPlace_eq_ok_iff.mp appended
  obtain ⟨body, -, held, -⟩ := extended_eq_ok_iff.mp taken
  obtain ⟨contents, present, -⟩ := DirectoryStore.fetch_eq_ok_iff.mp held
  obtain ⟨-, written, -, rfl⟩ := DirectoryStore.persist_eq_ok_iff.mp kept
  exact ⟨Catalog.keys_insert_of_get? present _, fun name ne => Catalog.get?_insert_of_ne _ ne _⟩

end

/-! ### The append -/

/-- An append succeeds on a whole queue whose head still counts, with an event that fits a slot. It then changes the
head and one slot of one account. Otherwise its answer is the first thing that is wrong, and the store that its steps
have come to by then is the one that they began with. -/
theorem append_is_all_or_nothing (key : Pubkey) (event : RewardEvent) :
    (event.FitsSlot ↔ event.kind = .lockedAlloc ∨
      ∃ sender totals pool, event = .poolDrop sender totals pool ∧ totals.length ≤ 9) ∧
    (∀ {σ : Type} [AccountStore σ] [LawfulStore σ] (store : σ),
      let result := (appendInPlace key event).run store
      ((∃ cursor store', result = .ok cursor store') ↔
        ∃ body, fetch store key = .ok body ∧ body.length = 72536 ∧
          (RewardEvent.format.encode event).length ≤ 145 ∧ (headOf body).toNat < 0xffffffff) ∧
      (∀ cursor store', result = .ok cursor store' →
        (∃ authority front old back,
          fetch store key = .ok (authority ++ Word.u32.bytes cursor ++ front ++ old ++ back) ∧
          fetch store' key = .ok (authority ++ Word.u32.bytes (cursor + 1) ++ front ++
            Bytes.padTo 145 (RewardEvent.format.encode event) ++ back) ∧
          authority.length = 32 ∧ cursor.toNat < 0xffffffff ∧ front.length = cursor.toNat % 500 * 145 ∧
          old.length = 145) ∧
        ∀ other, other ≠ key → fetch store' other = fetch store other) ∧
      (∀ fault store', result = .error fault store' ↔
        (refusals (fetch store key) event).head? = some fault ∧ store' = store) ∧
      (∀ fault store', result = .error fault store' →
        respond store (.appendRewardEvent key event) = ((.error fault : Except StoreFault UInt32), store))) ∧
    (∀ (store store' : MemoryStore) cursor, (appendInPlace key event).run store = .ok cursor store' →
      store'.accounts.keys = store.accounts.keys ∧
      ∀ other, other ≠ key → store'.accounts.get? other = store.accounts.get? other) ∧
    (∀ (store store' : DirectoryStore) cursor, (appendInPlace key event).run store = .ok cursor store' →
      store'.directory.keys = store.directory.keys ∧
      ∀ name, name ≠ DirectoryStore.fileName key → store'.directory.get? name = store.directory.get? name) := by
  refine ⟨RewardEvent.fitsSlot_iff, ?lawful, fun store store' cursor => accounts_of_append,
    fun store store' cursor => directory_of_append⟩
  case lawful =>
    intro σ _ _ store result
    refine ⟨?succeeds, ?changes, fun fault store' => ?first, ?leaves⟩
    case succeeds =>
      simp only [result, exists_run_appendInPlace_iff, exists_extended_iff, RewardEvent.FitsSlot]
    case changes =>
      intro cursor store' appended
      obtain ⟨queue, taken, kept⟩ := run_appendInPlace_eq_ok_iff.mp appended
      obtain ⟨authority, front, old, back, before, after, sizes⟩ := exists_split_of_extended taken
      refine ⟨⟨authority, front, old, back, before, ?_, sizes⟩, fun other => LawfulStore.fetch_persist_of_ne kept⟩
      rw [LawfulStore.fetch_persist_self kept, after]
    case first => rw [run_appendInPlace_eq_error_iff, extended_eq_error_iff]
    case leaves =>
      intro fault store' failed
      exact respond_append_of_error (run_appendInPlace_eq_error_iff.mp failed).1

/-- A new queue takes a drop in memory and in a directory, and refuses one that is too large without a trace. Nothing is
put into an empty directory either. -/
theorem append_is_all_or_nothing_new_queue :
    let queue : Pubkey := ⟨List.replicate 32 1, rfl⟩
    let drop : RewardEvent := .poolDrop queue [5, 7] queue
    let large : RewardEvent := .poolDrop queue (List.replicate 10 1) queue
    let tooLarge : StoreFault := .layout (.sizeMismatch 145 149)
    (∃ (store store' : MemoryStore) (cursor : UInt32),
      fetch store queue = .ok (Bytes.zeros 72536) ∧ (appendInPlace queue drop).run store = .ok cursor store' ∧
      store'.accounts.keys = store.accounts.keys ∧ (appendInPlace queue large).run store = .error tooLarge store) ∧
    (∃ (store store' : DirectoryStore) (cursor : UInt32),
      fetch store queue = .ok (Bytes.zeros 72536) ∧ (appendInPlace queue drop).run store = .ok cursor store' ∧
      store'.directory.keys = store.directory.keys ∧ (appendInPlace queue large).run store = .error tooLarge store) ∧
    (appendInPlace queue drop).run (⟨.empty⟩ : DirectoryStore) = .error (.accountNotFound queue) ⟨.empty⟩ ∧
    respond (⟨.empty⟩ : DirectoryStore) (.appendRewardEvent queue drop) =
      ((.error (.accountNotFound queue) : Except StoreFault UInt32), ⟨.empty⟩) := by
  intro queue drop large tooLarge
  obtain ⟨fits, lawful, memory, directory⟩ := append_is_all_or_nothing queue drop
  obtain ⟨-, refusesLarge, -, -⟩ := append_is_all_or_nothing queue large
  have short := fits.mpr (.inr ⟨queue, [5, 7], queue, rfl, by decide⟩)
  have fresh : headOf (Bytes.zeros 72536) = 0 := by decide +kernel
  have whole : (Bytes.zeros 72536).length = 72536 := Bytes.length_zeros _
  have encoded : (RewardEvent.format.encode large).length = 149 := by decide +kernel
  have appends {σ : Type} [AccountStore σ] [LawfulStore σ] {store : σ}
      (held : fetch store queue = .ok (Bytes.zeros 72536)) :
      ∃ cursor store', (appendInPlace queue drop).run store = .ok cursor store' :=
    (lawful store).1.mpr ⟨_, held, whole, short, by rw [fresh]; decide⟩
  have refuses {σ : Type} [AccountStore σ] [LawfulStore σ] {store : σ}
      (held : fetch store queue = .ok (Bytes.zeros 72536)) :
      (appendInPlace queue large).run store = .error tooLarge store := by
    refine ((refusesLarge store).2.2.1 tooLarge store).mpr ⟨?_, rfl⟩
    rw [held, refusals, Dump.head?_report, Dump.head?_report, encoded, whole, if_neg (by decide), if_pos (by decide)]
  have inMemory := MemoryStore.persist_eq .empty queue (Bytes.zeros 72536)
  have small : (Bytes.zeros 72536).length < 0x100000000 := by
    rw [whole]
    decide
  obtain ⟨contents, written⟩ := Dump.exists_write_iff.mpr small
  have free : (Catalog.empty : Directory).get? (DirectoryStore.fileName queue) ≠ some .directory := by
    intro taken
    cases taken
  have inDirectory := DirectoryStore.persist_eq_ok_iff.mpr ⟨free, contents, written, rfl⟩
  refine ⟨?memory, ?directory, ?empty⟩
  case memory =>
    have held := LawfulStore.fetch_persist_self inMemory
    obtain ⟨cursor, store', appended⟩ := appends held
    exact ⟨_, store', cursor, held, appended, (memory _ store' cursor appended).1, refuses held⟩
  case directory =>
    have held := LawfulStore.fetch_persist_self inDirectory
    obtain ⟨cursor, store', appended⟩ := appends held
    exact ⟨_, store', cursor, held, appended, (directory _ store' cursor appended).1, refuses held⟩
  case empty =>
    obtain ⟨-, -, first, leaves⟩ := lawful (⟨.empty⟩ : DirectoryStore)
    have missing := (first (.accountNotFound queue) ⟨.empty⟩).mpr ⟨rfl, rfl⟩
    exact ⟨missing, leaves _ _ missing⟩

end AccountStore

end StakePool
