import Mathlib.Logic.Function.Basic
import StakePool.Proofs.Ring.History

/-!
# Consumers that poll a ring

Any number of consumers follow one ring, each from a cursor of its own, while items are appended between their
polls. `Delivered` says that each consumer has received the entries of the ring's log from where it began up to its
cursor, each once and in order; every append and every poll keeps it (`store_delivered`, `poll_delivered`), and a
consumer that has fallen too far behind is told so (`poll_of_behind`).
-/

namespace StakePool

/-! ### What there is to receive -/

namespace Ring

variable {capacity : UInt32} {itemSize : Nat} {α : Type}

theorem length_deliveries (r : Ring capacity itemSize) (log : List Bytes) (decoder : Bytes → Except Fault α)
    (start stop : Nat) : (r.deliveries log decoder start stop).length = stop - start := by
  rw [deliveries, List.length_map, List.length_range']

theorem deliveries_self (r : Ring capacity itemSize) (log : List Bytes) (decoder : Bytes → Except Fault α)
    (start : Nat) :
    r.deliveries log decoder start start = [] := by
  rw [deliveries, Nat.sub_self]
  rfl

theorem range'_append_of_le {start middle stop : Nat} (first : start ≤ middle) (second : middle ≤ stop) :
    List.range' start (middle - start) ++ List.range' middle (stop - middle) = List.range' start (stop - start) := by
  have next : start + (middle - start) = middle := by omega
  have whole : middle - start + (stop - middle) = stop - start := by omega
  have joined : List.range' start (middle - start) ++ List.range' (start + (middle - start)) (stop - middle) =
      List.range' start (middle - start + (stop - middle)) := List.range'_append_1
  rw [next, whole] at joined
  exact joined

theorem deliveries_append (r : Ring capacity itemSize) (log : List Bytes) (decoder : Bytes → Except Fault α)
    {start middle stop : Nat} (first : start ≤ middle) (second : middle ≤ stop) :
    r.deliveries log decoder start middle ++ r.deliveries log decoder middle stop =
      r.deliveries log decoder start stop := by
  unfold deliveries
  rw [← List.map_append, range'_append_of_le first second]

/-- What was delivered is not touched by a later item. -/
theorem deliveries_log (r : Ring capacity itemSize) {log : List Bytes} (decoder : Bytes → Except Fault α)
    {start stop : Nat} (within : stop ≤ r.head.toNat + log.length) (item : Bytes) :
    r.deliveries (log ++ [item]) decoder start stop = r.deliveries log decoder start stop := by
  unfold deliveries
  apply List.map_congr_left
  intro i member
  obtain ⟨reached, below⟩ := List.mem_range'_1.mp member
  rw [entry_append]
  rw [UInt32.toNat_ofNat']
  omega

theorem entriesSince_of_mem {r : Ring capacity itemSize} {cursor : UInt32} (old : r.tail ≤ cursor)
    (new : cursor ≤ r.head) (decoder : Bytes → Except Fault α) :
    r.entriesSince cursor decoder = .ok { r.entries decoder with next := cursor } := by
  unfold entriesSince
  rw [if_neg]
  rintro (behind | ahead)
  · exact UInt32.not_le.mpr behind old
  · exact UInt32.not_le.mpr ahead new

/-- The oldest item is where reading begins. -/
theorem entriesSince_tail (r : Ring capacity itemSize) (decoder : Bytes → Except Fault α) :
    r.entriesSince r.tail decoder = .ok (r.entries decoder) :=
  entriesSince_of_mem (UInt32.le_refl _) r.tail_le_head decoder

theorem entriesSince_eq_ok {r : Ring capacity itemSize} {cursor : UInt32} {decoder : Bytes → Except Fault α}
    {e : Entries capacity itemSize α} (opened : r.entriesSince cursor decoder = .ok e) :
    cursor ≤ r.head ∧ e = { r.entries decoder with next := cursor } := by
  unfold entriesSince at opened
  split at opened
  · cases opened
  · rename_i inside
    exact ⟨UInt32.not_lt.mp fun ahead => inside (.inr ahead), (Except.ok.inj opened).symm⟩

/-- From its index on, an item that was just appended is all there is to read. -/
theorem entriesSince_store (r : Ring capacity itemSize) {item : Bytes} (fits : item.length ≤ itemSize)
    (room : r.head.toNat < 0xffffffff) (decoder : Bytes → Except Fault α) :
    ∃ e, (r.store (Bytes.padTo itemSize item)).entriesSince r.head decoder = .ok e ∧
      e.toList = [Entries.decodeItem decoder r.head (Bytes.padTo itemSize item)] := by
  have follows := store_follows (follows_refl r) fits room
  have head := toNat_head_store room (Bytes.padTo itemSize item)
  have here : r.head.toNat = r.head.toNat + ([] : List Bytes).length := (Nat.add_zero _).symm
  have stored := entry_append_self r here item
  rw [List.nil_append] at follows stored
  generalize r.store (Bytes.padTo itemSize item) = last at follows head
  have old : last.tail ≤ r.head := by
    have slots := r.toNat_capacity_pos
    rw [tail_le_iff, head]
    omega
  have new : r.head ≤ last.head := by
    rw [UInt32.le_iff_toNat_le, head]
    exact Nat.le_succ _
  have handed := toList_of_follows_from follows old new decoder
  rw [head, deliveries, Nat.add_sub_cancel_left, List.range'_one, List.map_singleton, UInt32.ofNat_toNat,
    stored] at handed
  exact ⟨_, entriesSince_of_mem old new decoder, handed⟩

end Ring

/-! ### Polls between appends -/

/-- A ring, and for each of its consumers the cursor and what it has received so far. -/
structure Polling (capacity : UInt32) (itemSize : Nat) (ι : Type) (α : ι → Type) where
  ring : Ring capacity itemSize
  cursor : ι → UInt32
  received : (k : ι) → List (Except Fault (α k))

namespace Polling

variable {capacity : UInt32} {itemSize : Nat} {ι : Type} {α : ι → Type}

/-- What can happen next: an append, or a poll that takes up to `count` items. -/
inductive Event (ι : Type)
  | append (d : Datum)
  | poll (consumer : ι) (count : Nat)

/-- The items of the appends. -/
def appended : List (Event ι) → List Datum
  | [] => []
  | .append d :: events => d :: appended events
  | .poll _ _ :: events => appended events

/-- Consumers that have received nothing yet. -/
def begin (r : Ring capacity itemSize) (start : ι → UInt32) : Polling capacity itemSize ι α :=
  { ring := r, cursor := start, received := fun _ => [] }

/-! ### The invariant -/

/-- A consumer that began at `start` has received the entries up to its cursor. -/
structure Served {β : Type} (r : Ring capacity itemSize) (log : List Bytes) (decoder : Bytes → Except Fault β)
    (head start cursor : UInt32) (received : List (Except Fault β)) : Prop where
  start_le : start ≤ cursor
  cursor_le : cursor ≤ head
  received_eq : received = r.deliveries log decoder start.toNat cursor.toNat

/-- Every consumer has received the log's entries from where it began up to its cursor. -/
structure Delivered (decoder : (k : ι) → Bytes → Except Fault (α k)) (r : Ring capacity itemSize) (start : ι → UInt32)
    (log : List Bytes) (s : Polling capacity itemSize ι α) : Prop where
  follows : r.Follows log s.ring
  served : ∀ k, Served r log (decoder k) s.ring.head (start k) (s.cursor k) (s.received k)

variable {decoder : (k : ι) → Bytes → Except Fault (α k)} {r : Ring capacity itemSize} {start : ι → UInt32}
  {log : List Bytes} {s : Polling capacity itemSize ι α}

theorem served_append {β : Type} {decoder : Bytes → Except Fault β} {head start cursor : UInt32}
    {received items : List (Except Fault β)} (served : Served r log decoder head start cursor received)
    (same : items = r.deliveries log decoder cursor.toNat (cursor.toNat + items.length))
    (within : cursor.toNat + items.length ≤ head.toNat) :
    Served r log decoder head start (cursor + .ofNat items.length) (received ++ items) := by
  have small := head.toNat_lt
  have first := UInt32.le_iff_toNat_le.mp served.start_le
  have advanced : (cursor + .ofNat items.length).toNat = cursor.toNat + items.length := by
    rw [UInt32.toNat_add, UInt32.toNat_ofNat']
    omega
  refine ⟨?_, ?_, ?_⟩
  · rw [UInt32.le_iff_toNat_le, advanced]
    omega
  · rwa [UInt32.le_iff_toNat_le, advanced]
  · rw [advanced, ← r.deliveries_append log decoder first (Nat.le_add_right _ _), ← same, served.received_eq]

theorem begin_delivered (within : ∀ k, start k ≤ r.head) :
    (begin r start : Polling capacity itemSize ι α).Delivered decoder r start [] where
  follows := r.follows_refl
  served k := {
    start_le := UInt32.le_refl _
    cursor_le := within k
    received_eq := (r.deliveries_self [] (decoder k) (start k).toNat).symm }

theorem store_delivered (delivered : s.Delivered decoder r start log) {item : Bytes} (fits : item.length ≤ itemSize)
    (room : s.ring.head.toNat < 0xffffffff) :
    { s with ring := s.ring.store (Bytes.padTo itemSize item) }.Delivered decoder r start (log ++ [item]) where
  follows := Ring.store_follows delivered.follows fits room
  served k := by
    have served := delivered.served k
    have behind := UInt32.le_iff_toNat_le.mp served.cursor_le
    refine ⟨served.start_le, ?_, ?_⟩
    · show s.cursor k ≤ (s.ring.store _).head
      rw [UInt32.le_iff_toNat_le, Ring.toNat_head_store room]
      omega
    · rw [delivered.follows.head_eq] at behind
      exact served.received_eq.trans (r.deliveries_log (decoder k) behind item).symm

theorem behind_iff (k : ι) : s.cursor k < s.ring.tail ↔ capacity.toNat < s.ring.head.toNat - (s.cursor k).toNat := by
  rw [UInt32.lt_iff_toNat_lt, Ring.toNat_tail]
  omega

theorem behind_or_readable (s : Polling capacity itemSize ι α) (k : ι) :
    s.cursor k < s.ring.tail ∨ s.ring.tail ≤ s.cursor k :=
  (Decidable.em _).imp_right UInt32.not_lt.mp

/-! ### Polls -/

section

variable [DecidableEq ι] (decoder : (k : ι) → Bytes → Except Fault (α k))

/-- The answer to a poll, and the state afterwards: the consumer has the items and its cursor stands behind them. -/
def poll (s : Polling capacity itemSize ι α) (k : ι) (count : Nat) :
    Except Fault (List (Except Fault (α k))) × Polling capacity itemSize ι α :=
  match s.ring.entriesSince (s.cursor k) (decoder k) with
  | .error fault => (.error fault, s)
  | .ok entries =>
    let items := (entries.take count).1
    (.ok items, { s with
      cursor := Function.update s.cursor k (s.cursor k + .ofNat items.length)
      received := Function.update s.received k (s.received k ++ items) })

def step (s : Polling capacity itemSize ι α) : Event ι → Polling capacity itemSize ι α
  | .append d => { s with ring := (s.ring.attempt d).2 }
  | .poll k count => (s.poll decoder k count).2

def run (s : Polling capacity itemSize ι α) : List (Event ι) → Polling capacity itemSize ι α
  | [] => s
  | event :: events => (s.step decoder event).run events

end

variable [DecidableEq ι]

/-- A consumer whose next item was overwritten is told where the window lies, and nothing changes. -/
theorem poll_of_behind {k : ι} (behind : s.cursor k < s.ring.tail) (count : Nat) :
    s.poll decoder k count = (.error (.invalidCursor (s.cursor k) s.ring.tail s.ring.head), s) := by
  unfold poll Ring.entriesSince
  rw [if_pos (.inl behind)]

/-- A consumer whose next item is still readable receives up to `count` entries. -/
theorem poll_of_readable (delivered : s.Delivered decoder r start log) {k : ι} (old : s.ring.tail ≤ s.cursor k)
    (count : Nat) :
    ∃ items, items = r.deliveries log (decoder k) (s.cursor k).toNat ((s.cursor k).toNat + items.length) ∧
      items.length = min count (s.ring.head.toNat - (s.cursor k).toNat) ∧
      s.poll decoder k count = (.ok items, { s with
        cursor := Function.update s.cursor k (s.cursor k + .ofNat items.length)
        received := Function.update s.received k (s.received k ++ items) }) := by
  have new := (delivered.served k).cursor_le
  have taken := Ring.take_of_follows delivered.follows old new (decoder k) count
  have length : (r.deliveries log (decoder k) (s.cursor k).toNat
      ((s.cursor k).toNat + min count (s.ring.head.toNat - (s.cursor k).toNat))).length =
      min count (s.ring.head.toNat - (s.cursor k).toNat) := by
    rw [Ring.length_deliveries, Nat.add_sub_cancel_left]
  refine ⟨_, by rw [length], length, ?_⟩
  unfold poll
  rw [Ring.entriesSince_of_mem old new, ← taken]

theorem poll_delivered (delivered : s.Delivered decoder r start log) (k : ι) (count : Nat) :
    (s.poll decoder k count).2.Delivered decoder r start log := by
  rcases s.behind_or_readable k with behind | readable
  · rw [poll_of_behind behind]
    exact delivered
  · obtain ⟨items, same, length, polled⟩ := poll_of_readable delivered readable count
    have within := UInt32.le_iff_toNat_le.mp (delivered.served k).cursor_le
    rw [polled]
    refine ⟨delivered.follows, fun j => ?_⟩
    dsimp only
    by_cases mine : j = k
    · subst mine
      rw [Function.update_self, Function.update_self]
      exact served_append (delivered.served j) same (by omega)
    · rw [Function.update_of_ne mine, Function.update_of_ne mine]
      exact delivered.served j

/-! ### Whole runs -/

theorem run_delivered (delivered : s.Delivered decoder r start log) (events : List (Event ι)) :
    (s.run decoder events).ring = s.ring.after (appended events) ∧
    (s.run decoder events).Delivered decoder r start
      (log ++ (Ring.accepted (appended events) (s.ring.answers (appended events))).map Datum.encode) := by
  induction events generalizing s log with
  | nil => exact ⟨rfl, by simpa [run, appended, Ring.answers, Ring.accepted] using delivered⟩
  | cons event events ih =>
    cases event with
    | append d =>
      rcases s.ring.attempt_cases d with ⟨fits, room, taken⟩ | ⟨fault, refused⟩
      · have next := ih (store_delivered delivered fits room)
        rw [List.append_assoc, List.singleton_append] at next
        simpa only [run, step, appended, Ring.after, Ring.answers, taken, Ring.accepted, List.map_cons] using next
      · simpa only [run, step, appended, Ring.after, Ring.answers, refused, Ring.accepted] using ih delivered
    | poll k count =>
      have same : (s.poll decoder k count).2.ring = s.ring := by
        unfold poll
        split <;> rfl
      have next := ih (poll_delivered delivered k count)
      rw [same] at next
      exact next

/-- In every run of appends and polls each consumer has received exactly the log's entries from where it began up to
its cursor, as they were written; a poll fails exactly when entries behind its cursor were overwritten, and then
delivers nothing. -/
theorem polls_deliver_log (decoder : (k : ι) → Bytes → Except Fault (α k)) (r : Ring capacity itemSize)
    {start : ι → UInt32} (within : ∀ k, start k ≤ r.head) (events : List (Event ι)) :
    let items := appended events
    let log := (Ring.accepted items (r.answers items)).map Datum.encode
    let s : Polling capacity itemSize ι α := (begin r start).run decoder events
    s.ring = r.after items ∧
    (∀ index, s.ring.tail ≤ index → index < s.ring.head → s.ring.slotBytes index = r.entry log index) ∧
    (∀ k, s.cursor k ≤ s.ring.head) ∧
    (∀ k, start k ≤ s.cursor k ∧
      s.received k = r.deliveries log (decoder k) (start k).toNat (s.cursor k).toNat) ∧
    (∀ k count, (∃ fault, (s.poll decoder k count).1 = .error fault) ↔
      capacity.toNat < s.ring.head.toNat - (s.cursor k).toNat) ∧
    (∀ k count fault, (s.poll decoder k count).1 = .error fault →
      fault = .invalidCursor (s.cursor k) s.ring.tail s.ring.head ∧ (s.poll decoder k count).2 = s) ∧
    (∀ k count delivery, (s.poll decoder k count).1 = .ok delivery →
      delivery.length = min count (s.ring.head.toNat - (s.cursor k).toNat) ∧
      delivery = r.deliveries log (decoder k) (s.cursor k).toNat ((s.cursor k).toNat + delivery.length)) := by
  intro items log s
  -- The state is the one that the run leaves, so what the invariant says of it holds of every reachable state.
  have began : (begin r start : Polling capacity itemSize ι α).Delivered decoder r start [] := begin_delivered within
  obtain ⟨ring, delivered⟩ := run_delivered began events
  refine ⟨ring, delivered.follows.slots, fun k => (delivered.served k).cursor_le,
    fun k => ⟨(delivered.served k).start_le, (delivered.served k).received_eq⟩, ?fails, ?told, ?delivers⟩
  all_goals
    intro k count
    rcases s.behind_or_readable k with behind | readable
  case fails.inl =>
    rw [← behind_iff]
    exact ⟨fun _ => behind, fun _ => ⟨_, congrArg Prod.fst (poll_of_behind behind count)⟩⟩
  case fails.inr =>
    obtain ⟨_, -, -, polled⟩ := poll_of_readable delivered readable count
    rw [← behind_iff, polled]
    refine ⟨?_, fun behind => absurd behind (UInt32.not_lt.mpr readable)⟩
    rintro ⟨fault, failed⟩
    cases failed
  case told.inl =>
    rw [poll_of_behind behind]
    intro fault failed
    exact ⟨(Except.error.inj failed).symm, rfl⟩
  case told.inr =>
    obtain ⟨_, -, -, polled⟩ := poll_of_readable delivered readable count
    rw [polled]
    intro fault failed
    cases failed
  case delivers.inl =>
    rw [poll_of_behind behind]
    intro delivery succeeded
    cases succeeded
  case delivers.inr =>
    obtain ⟨_, same, length, polled⟩ := poll_of_readable delivered readable count
    rw [polled]
    intro delivery succeeded
    obtain rfl := Except.ok.inj succeeded
    exact ⟨length, same⟩

/-- A ring of two items that has had one append. -/
def lapped : Ring 2 2 where
  buffer := (Bytes.zeros 32 ++ [1, 0, 0, 0, 5, 6, 7, 8]).toArray
  capacity_ne_zero := by decide
  itemSize_pos := by decide
  size_eq := by decide
  size_lt := by decide

/-- A slow consumer `false` and a quick one `true` of a ring of two items, from which only `true` is served. -/
theorem polls_deliver_log_lapped :
    let decoder : Bool → Bytes → Except Fault UInt8 := fun _ => (Format.fixed .u8).decodePrefix
    let events : List (Event Bool) :=
      [.poll false 0, .append ⟨.fixed .u8, 9⟩, .poll true 5, .append ⟨.fixed .u64, 1⟩, .append ⟨.fixed .u8, 10⟩,
        .append ⟨.fixed .u8, 11⟩]
    let s : Polling 2 2 Bool fun _ => UInt8 := (begin lapped fun _ => 1).run decoder events
    (s.received true).map Except.toOption = [some 9] ∧
      (s.poll decoder false 1).1 = .error (.invalidCursor 1 2 4) := by
  intro decoder events s
  obtain ⟨-, -, -, received, fails, told, -⟩ :=
    @polls_deliver_log 2 2 Bool (fun _ => UInt8) _ decoder lapped (fun _ => 1) (fun _ => by decide +kernel) events
  constructor
  · rw [(received true).2]
    decide +kernel
  · obtain ⟨fault, failed⟩ := (fails false 1).mpr (by decide +kernel)
    have window : s.cursor false = 1 ∧ s.ring.tail = 2 ∧ s.ring.head = 4 := by decide +kernel
    obtain ⟨cursor, tail, head⟩ := window
    have found := (told false 1 fault failed).1
    rw [cursor, tail, head] at found
    exact failed.trans (congrArg _ found)

end Polling

end StakePool
