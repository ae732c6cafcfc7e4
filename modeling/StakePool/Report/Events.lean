import StakePool.Report.Fault
import StakePool.Store.Basic
import StakePool.Text.Table
import StakePool.Text.Timestamp

/-!
# The report on reward events

`Report.events` lists what a reward queue keeps, each event under its cursor. A slot that does not decode keeps
its row and shows the fault instead of an event.
-/

namespace StakePool

/-- What a queue keeps under a cursor: an event, or the text of the fault that stands in its place. -/
@[ext]
structure EventRow where
  cursor : UInt32
  event : Option RewardEvent
  error : Option String

namespace EventRow

def ofItem (cursor : UInt32) : Except Fault RewardEvent → EventRow
  | .ok event => { cursor, event := some event, error := none }
  | .error fault => { cursor, event := none, error := some fault.message }

/-- What a row does not have is left out. -/
def toJson (row : EventRow) : Json :=
  let event := row.event.map fun event => ("event", event.toJson)
  let error := row.error.map fun text => ("error", Json.text text)
  .object (("cursor", .ofWord32 row.cursor) :: event.toList ++ error.toList)

def details : RewardEvent → String
  | .poolDrop sender totals _ =>
    let shown := ", ".intercalate (totals.map fun n => toString n.toNat)
    s!"totals [{shown}] from {sender.toBase58}"
  | .lockedAlloc _ total expiry _ _ vendor =>
    s!"total {total.toNat}, expires {Timestamp.text expiry}, vendor {vendor.toBase58}"

def cells (row : EventRow) : List String :=
  match row.event with
  | some event => [toString row.cursor.toNat, event.kind.name, event.pool.toBase58, details event]
  | none => [toString row.cursor.toNat, "CORRUPT", "", row.error.getD ""]

/-- Items under consecutive cursors, the first one under `cursor`. -/
def number (cursor : UInt32) : List (Except Fault RewardEvent) → List EventRow
  | [] => []
  | item :: rest => ofItem cursor item :: number (cursor + 1) rest

end EventRow

namespace Report

def events {σ : Type} [AccountStore σ] (store : σ) (key : Pubkey) (since : Option UInt32) :
    Except ReportFault (List EventRow) := do
  let bytes ← (AccountStore.fetch store key).mapError .store
  let queue ← (RewardQueue.ofBytes bytes).mapError .bytes
  let entries ← match since with
    | none => pure queue.events
    | some cursor => (queue.eventsSince cursor).mapError .bytes
  return EventRow.number (since.getD (Ring.tail queue)) entries.toList

def eventsJson (rows : List EventRow) : Json := .list (rows.map EventRow.toJson)

def eventTable (rows : List EventRow) : TextTable where
  header := ["Cursor", "Type", "Pool", "Details"]
  rows := rows.map EventRow.cells

end Report

end StakePool
