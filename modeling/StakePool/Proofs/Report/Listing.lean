import StakePool.Program
import StakePool.Proofs.Outcome
import StakePool.Proofs.Pubkey
import StakePool.Proofs.Report.Events
import StakePool.Proofs.Text.Json

/-!
# What a listing of events tells

The JSON of a row tells its cursor and its event or fault, field by field (`EventRow.toJson_injective`), so that the
text of a listing is written for one list of rows only: `Report.listing_loses_nothing`.
-/

namespace StakePool

/-! ### Values -/

namespace Json

theorem ofWord32_injective {m n : UInt32} (same : ofWord32 m = ofWord32 n) : m = n :=
  UInt32.toNat_inj.mp (Int.ofNat.inj (number.inj same))

theorem ofWord64_injective {m n : UInt64} (same : ofWord64 m = ofWord64 n) : m = n :=
  UInt64.toNat_inj.mp (Int.ofNat.inj (number.inj same))

theorem ofSigned_injective {m n : Int64} (same : ofSigned m = ofSigned n) : m = n :=
  Int64.toInt_inj.mp (number.inj same)

theorem ofPubkey_injective {key key' : Pubkey} (same : ofPubkey key = ofPubkey key') : key = key' :=
  Pubkey.toBase58_injective (text.inj same)

/-- The first member of an object with this name. -/
def member? (name : String) : Json → Option Json
  | object members => members.lookup name
  | _ => none

/-- The names of the members of an object. -/
def names : Json → List String
  | object members => members.map Prod.fst
  | _ => []

end Json

namespace RewardEvent

/-- The fields of an event, its totals included, are all told by its JSON, and so is its kind. -/
theorem toJson_injective {e e' : RewardEvent} (same : e.toJson = e'.toJson) : e = e' := by
  cases e with
  | poolDrop sender totals pool =>
    cases e' with
    | poolDrop sender' totals' pool' =>
      simp only [toJson, Json.object.injEq, Json.list.injEq, List.cons.injEq, Prod.mk.injEq, true_and, and_true] at same
      obtain ⟨sender, totals, pool⟩ := same
      rw [Json.ofPubkey_injective sender, (List.map_inj_right fun _ _ => Json.ofWord64_injective).mp totals,
        Json.ofPubkey_injective pool]
    | lockedAlloc => simp [toJson] at same
  | lockedAlloc sender total expiry expiryReceiver pool vendor =>
    cases e' with
    | poolDrop => simp [toJson] at same
    | lockedAlloc sender' total' expiry' expiryReceiver' pool' vendor' =>
      simp only [toJson, Json.object.injEq, List.cons.injEq, Prod.mk.injEq, true_and, and_true] at same
      obtain ⟨sender, total, expiry, expiryReceiver, pool, vendor⟩ := same
      rw [Json.ofPubkey_injective sender, Json.ofWord64_injective total, Json.ofSigned_injective expiry,
        Json.ofPubkey_injective expiryReceiver, Json.ofPubkey_injective pool, Json.ofPubkey_injective vendor]

end RewardEvent

namespace EventRow

/-- The JSON of a row has a member for the event or the fault of the row, whichever of the two it has. -/
theorem names_toJson {row : EventRow} (exclusive : row.Exclusive) :
    (∃ event, row.event = some event ∧ row.error = none ∧ row.toJson.names = ["cursor", "event"]) ∨
    (∃ text, row.event = none ∧ row.error = some text ∧ row.toJson.names = ["cursor", "error"]) := by
  obtain ⟨cursor, found, failed⟩ := row
  rcases exclusive with ⟨event, rfl, rfl⟩ | ⟨text, rfl, rfl⟩
  · exact .inl ⟨event, rfl, rfl, rfl⟩
  · exact .inr ⟨text, rfl, rfl, rfl⟩

theorem member?_toJson (row : EventRow) :
    row.toJson.member? "cursor" = some (.ofWord32 row.cursor) ∧
      row.toJson.member? "event" = row.event.map RewardEvent.toJson ∧
      row.toJson.member? "error" = row.error.map Json.text := by
  obtain ⟨cursor, event, error⟩ := row
  cases event with
  | none =>
    cases error with
    | none => exact ⟨rfl, rfl, rfl⟩
    | some text => exact ⟨rfl, rfl, rfl⟩
  | some event =>
    cases error with
    | none => exact ⟨rfl, rfl, rfl⟩
    | some text => exact ⟨rfl, rfl, rfl⟩

theorem toJson_injective {row row' : EventRow} (same : row.toJson = row'.toJson) : row = row' := by
  obtain ⟨cursor, event, error⟩ := row.member?_toJson
  obtain ⟨cursor', event', error'⟩ := row'.member?_toJson
  rw [same] at cursor event error
  exact EventRow.ext (Json.ofWord32_injective (Option.some.inj (cursor.symm.trans cursor')))
    (Option.map_injective (fun _ _ => RewardEvent.toJson_injective) (event.symm.trans event'))
    (Option.map_injective (fun _ _ => Json.text.inj) (error.symm.trans error'))

end EventRow

/-! ### Listings -/

namespace Report

theorem eventsJson_injective {rows rows' : List EventRow} (same : eventsJson rows = eventsJson rows') : rows = rows' :=
  (List.map_inj_right fun _ _ => EventRow.toJson_injective).mp (Json.list.inj same)

theorem rows_eq_of_text {rows rows' : List EventRow}
    (same : (eventsJson rows).compact = (eventsJson rows').compact ∨
      (eventsJson rows).pretty = (eventsJson rows').pretty) : rows = rows' :=
  eventsJson_injective (same.elim Json.compact_injective Json.pretty_injective)

end Report

namespace Program

theorem exists_rows_of_report {store : DirectoryStore} {queue : Pubkey} {since : Option UInt32} {text : String}
    (reported : report store (.events queue since true) = .ok text) :
    ∃ rows, Report.events store queue since = .ok rows ∧ text = (Report.eventsJson rows).pretty ++ "\n" := by
  obtain ⟨rows, listed, written⟩ := bind_eq_ok_iff.mp reported
  exact ⟨rows, listed, (Except.ok.inj written).symm⟩

end Program

namespace Report

variable {σ τ : Type} [AccountStore σ] [AccountStore τ]

/-- The JSON text of a listing, with blanks or without, is that of one list of rows only, whichever queues are listed and
from wherever: the cursors, the events field by field and the texts of faults can be told from it. Each row shows an
event or a fault, and not both. So the program prints the same listing only where it reports the same. -/
theorem listing_loses_nothing (first : σ) (second : τ) (key key' : Pubkey) (since since' : Option UInt32) :
    (∀ rows rows', Report.events first key since = .ok rows → Report.events second key' since' = .ok rows' →
      ((eventsJson rows).compact = (eventsJson rows').compact ∨ (eventsJson rows).pretty = (eventsJson rows').pretty) →
      rows = rows') ∧
    (∀ rows, Report.events first key since = .ok rows → ∀ row ∈ rows,
      (∃ event, row.event = some event ∧ row.error = none ∧ row.toJson.names = ["cursor", "event"]) ∨
      (∃ text, row.event = none ∧ row.error = some text ∧ row.toJson.names = ["cursor", "error"])) ∧
    ∀ (store store' : DirectoryStore) (text : String),
      Program.report store (.events key since true) = .ok text →
      Program.report store' (.events key' since' true) = .ok text →
      Report.events store key since = Report.events store' key' since' := by
  refine ⟨fun rows rows' _ _ same => rows_eq_of_text same,
    fun rows reported row member => EventRow.names_toJson (exclusive_of_mem_events reported member),
    fun store store' text printed printed' => ?_⟩
  obtain ⟨rows, listed, written⟩ := Program.exists_rows_of_report printed
  obtain ⟨rows', listed', written'⟩ := Program.exists_rows_of_report printed'
  have texts : (eventsJson rows).pretty = (eventsJson rows').pretty := by
    have same := congrArg String.toList (written.symm.trans written')
    rw [String.toList_append, String.toList_append] at same
    exact String.toList_inj.mp (List.append_cancel_right same)
  rw [listed, listed', rows_eq_of_text (.inr texts)]

/-- A damaged slot is told apart from the whole queue that it stands in, and shows its fault. -/
theorem listing_loses_nothing_damaged :
    let key : Pubkey := Block.fill 32 1
    let body : Bytes := Bytes.zeros 32 ++ [2, 0, 0, 0] ++ Bytes.zeros 145 ++ [7] ++ Bytes.zeros 72354
    let store : MemoryStore := ⟨[(key, body)], by decide⟩
    ∃ row before, Report.events store key (some 1) = .ok [row] ∧ Report.events store key none = .ok [before, row] ∧
      (eventsJson [row]).compact ≠ (eventsJson [before, row]).compact ∧
      (eventsJson [row]).pretty ≠ (eventsJson [before, row]).pretty ∧
      row.event = none ∧ row.error = some "corrupt ring entry 1: unknown variant 7 at offset 0" ∧
      row.toJson.names = ["cursor", "error"] := by
  intro key body store
  have fetched : AccountStore.fetch store key = .ok body :=
    MemoryStore.fetch_eq_ok_iff.mpr (Catalog.get?_eq_some_iff.mpr (.head _))
  obtain ⟨-, queue, opened, head, tail, damaged⟩ := exists_damagedQueue
  have listed := events_of_inside fetched opened (within_damagedQueue head tail)
  have whole := events_of_inside fetched opened fun cursor member => absurd member (Option.not_mem_none cursor)
  rw [head] at listed
  rw [head, tail] at whole
  obtain ⟨tells, shown, -⟩ := listing_loses_nothing store store key key (some 1) none
  have different : [EventRow.ofSlot queue 1] ≠ [EventRow.ofSlot queue 0, EventRow.ofSlot queue 1] := by
    intro same
    cases (List.cons.inj same).2
  refine ⟨EventRow.ofSlot queue 1, EventRow.ofSlot queue 0, listed, whole,
    fun same => different (tells _ _ listed whole (.inl same)),
    fun same => different (tells _ _ listed whole (.inr same)), ?_⟩
  have row : EventRow.ofSlot queue 1 = ⟨1, none, some (Fault.corruptEntry 1 (.unknownVariant 0 7)).message⟩ := by
    rw [EventRow.ofSlot, Entries.decodeItem, damaged]
    rfl
  rcases shown _ listed (EventRow.ofSlot queue 1) (.head _) with ⟨event, held, -⟩ | ⟨text, noEvent, -, names⟩
  · rw [row] at held
    cases held
  · refine ⟨noEvent, ?_, names⟩
    rw [row]
    decide

end Report

end StakePool
