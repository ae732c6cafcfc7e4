import StakePool.Proofs.Ring.Window
import StakePool.Proofs.Store.Lawful
import StakePool.Report.Accounts
import StakePool.Report.Basket
import StakePool.Report.Events

/-!
# Requests to stores

A `Request` is anything that is asked of a store: to keep an account, to append an event to a queue, or one of the
readings and reports. `respond` serves one request and `answers` a run of them. `respond_cases` says all that a request
can do to a lawful store, and `fetch_respond_of_ne` and `respond_local` follow: a request leaves alone the accounts it
does not name, and its answer depends on no other. An append is served step by step in the store itself, where a write in
front of a failed step would show; `run_appendInPlace` says that there is none.
-/

namespace StakePool

inductive Request : Type 1
  | persist (key : Pubkey) (bytes : Bytes)
  | appendRewardEvent (key : Pubkey) (event : RewardEvent)
  | fetch (key : Pubkey)
  | load {α : Type} (l : Layout α) (key : Pubkey)
  | events (key : Pubkey) (since : Option UInt32)
  | keys
  | accountTable
  | basket (mint : Pubkey) (vaults : List Pubkey) (shares : UInt64) (rounding : Rounding)

namespace Request

def Answer : Request → Type
  | persist .. => Except StoreFault Unit
  | appendRewardEvent .. => Except StoreFault UInt32
  | fetch .. => Except StoreFault Bytes
  | @load α _ _ => Except StoreFault α
  | events .. => Except ReportFault (List EventRow)
  | keys => List Pubkey
  | accountTable => TextTable
  | basket .. => Except ReportFault (PoolValuation × Basket)

/-- The one account that a request is about. Those on the whole store or on a pool are about none. -/
def subject : Request → Option Pubkey
  | persist key _ | appendRewardEvent key _ | fetch key | load _ key | events key _ => some key
  | keys | accountTable | basket .. => none

end Request

theorem RewardQueue.length_toBytes (queue : RewardQueue) : (Ring.toBytes queue).length = RewardQueue.accountSize := by
  rw [Ring.toBytes, Array.length_toList, queue.size_eq]
  rfl

namespace AccountStore

variable {σ τ : Type} [AccountStore σ] [AccountStore τ]

/-- The answer to an update, and the store that it leaves, be it refused or not. -/
def answered {α : Type} : EStateM.Result StoreFault σ α → Except StoreFault α × σ
  | .ok answer store => (.ok answer, store)
  | .error fault store => (.error fault, store)

def respond (store : σ) : (r : Request) → r.Answer × σ
  | .persist key bytes => answered ((keep key bytes).run store)
  | .appendRewardEvent key event => answered ((appendInPlace key event).run store)
  | .fetch key => (fetch store key, store)
  | .load l key => (load store l key, store)
  | .events key since => (Report.events store key since, store)
  | .keys => (keys store, store)
  | .accountTable => (Report.accountTable store, store)
  | .basket mint vaults shares rounding => (Report.basket store mint vaults shares rounding, store)

/-- Requests together with what was answered. -/
def answers (store : σ) : List Request → List ((r : Request) × r.Answer)
  | [] => []
  | r :: requests => ⟨r, (respond store r).1⟩ :: answers (respond store r).2 requests

def after (store : σ) : List Request → σ
  | [] => store
  | r :: requests => after (respond store r).2 requests

/-! ### What is read -/

section Reading

variable {s : σ} {t : τ} {key : Pubkey}

theorem load_congr (same : fetch s key = fetch t key) {α : Type} (l : Layout α) : load s l key = load t l key := by
  rw [load, load, same]

theorem events_congr (same : fetch s key = fetch t key) (since : Option UInt32) :
    Report.events s key since = Report.events t key since := by
  rw [Report.events, Report.events, same]

theorem events_of_fetch {queue : RewardQueue} (held : fetch s key = .ok (Ring.toBytes queue)) :
    Report.events s key none = .ok (EventRow.number (Ring.tail queue) (RewardQueue.events queue).toList) := by
  have opened : RewardQueue.ofBytes (Ring.toBytes queue) = .ok queue := Ring.ofBytes_toBytes queue
  rw [Report.events, held]
  show (RewardQueue.ofBytes (Ring.toBytes queue)).mapError ReportFault.bytes >>= _ = _
  rw [opened]
  rfl

theorem accountRow_congr (same : fetch s key = fetch t key) : Report.accountRow s key = Report.accountRow t key := by
  rw [Report.accountRow, Report.accountRow, same]

theorem basket_congr (same : ∀ key, fetch s key = fetch t key) (mint : Pubkey) (vaults : List Pubkey) (shares : UInt64)
    (rounding : Rounding) :
    Report.basket s mint vaults shares rounding = Report.basket t mint vaults shares rounding := by
  have vault (key : Pubkey) : load s TokenAccount.layout key = load t TokenAccount.layout key := load_congr (same key) _
  rw [Report.basket, Report.basket, load_congr (same mint)]
  simp only [vault]

end Reading

/-! ### Appending -/

/-- The queue that some bytes hold with one more event, and the cursor of the event. -/
def extended (found : Except StoreFault Bytes) (event : RewardEvent) : Except StoreFault (UInt32 × RewardQueue) := do
  let bytes ← found
  let queue ← (RewardQueue.ofBytes bytes).mapError .layout
  (queue.append event).mapError .layout

variable {store store' : σ} {key other : Pubkey} {event : RewardEvent} {cursor : UInt32} {queue : RewardQueue}

/-- Everything that is checked comes before the one thing that is kept. -/
theorem run_appendInPlace (store : σ) (key : Pubkey) (event : RewardEvent) :
    (appendInPlace key event).run store = match extended (fetch store key) event with
      | .error fault => .error fault store
      | .ok (cursor, queue) => match (keep key (Ring.toBytes queue)).run store with
        | .error fault store' => .error fault store'
        | .ok _ store' => .ok cursor store' := by
  unfold appendInPlace extended
  simp only [EStateM.run_bind, EStateM.run_get, run_liftExcept]
  cases fetch store key with
  | error fault => rfl
  | ok bytes =>
    dsimp only [bind, Except.bind]
    cases (RewardQueue.ofBytes bytes).mapError StoreFault.layout with
    | error fault => rfl
    | ok queue =>
      dsimp only
      cases (queue.append event).mapError StoreFault.layout with
      | error fault => rfl
      | ok next =>
        dsimp only
        cases (keep key (Ring.toBytes next.2)).run store with
        | error fault store' => rfl
        | ok _ store' => rfl

/-- The append as a function of the store. -/
theorem appendRewardEvent_eq (store : σ) (key : Pubkey) (event : RewardEvent) :
    appendRewardEvent store key event = (do
      let (cursor, queue) ← extended (fetch store key) event
      let store ← persist store key (Ring.toBytes queue)
      return (cursor, store)) := by
  rw [appendRewardEvent, run_appendInPlace]
  cases extended (fetch store key) event with
  | error fault => rfl
  | ok next =>
    dsimp only [bind, Except.bind]
    rw [persist]
    cases (keep key (Ring.toBytes next.2)).run store with
    | error fault store' => rfl
    | ok _ store' => rfl

theorem extended_eq_ok_iff {found : Except StoreFault Bytes} :
    extended found event = .ok (cursor, queue) ↔
      ∃ bytes old, found = .ok bytes ∧ RewardQueue.ofBytes bytes = .ok old ∧
        RewardQueue.append old event = .ok (cursor, queue) := by
  unfold extended
  simp only [bind_eq_ok_iff, mapError_eq_ok_iff, exists_and_left]

theorem extended_toBytes (queue : RewardQueue) (event : RewardEvent) :
    extended (.ok (Ring.toBytes queue)) event = (RewardQueue.append queue event).mapError .layout := by
  have opened : RewardQueue.ofBytes (Ring.toBytes queue) = .ok queue := Ring.ofBytes_toBytes queue
  show (RewardQueue.ofBytes (Ring.toBytes queue)).mapError StoreFault.layout >>= _ = _
  rw [opened]
  rfl

theorem run_appendInPlace_eq_ok_iff :
    (appendInPlace key event).run store = .ok cursor store' ↔
      ∃ queue, extended (fetch store key) event = .ok (cursor, queue) ∧
        persist store key (Ring.toBytes queue) = .ok store' := by
  rw [← completed_eq_ok_iff, ← appendRewardEvent, appendRewardEvent_eq, bind_eq_ok_iff]
  constructor
  · intro ⟨⟨_, queue⟩, taken, steps⟩
    obtain ⟨_, kept, same⟩ := bind_eq_ok_iff.mp steps
    obtain ⟨rfl, rfl⟩ := Prod.mk.inj (Except.ok.inj same)
    exact ⟨queue, taken, kept⟩
  · intro ⟨queue, taken, kept⟩
    exact ⟨_, taken, bind_eq_ok_iff.mpr ⟨store', kept, rfl⟩⟩

section

variable {fault : StoreFault} (refused : extended (fetch store key) event = .error fault)
include refused

theorem run_appendInPlace_of_error : (appendInPlace key event).run store = .error fault store := by
  rw [run_appendInPlace, refused]

theorem respond_append_of_error :
    respond store (.appendRewardEvent key event) = ((.error fault : Except StoreFault UInt32), store) := by
  rw [respond, run_appendInPlace_of_error refused]
  rfl

end

/-- In place of a queue a lawful store always takes the queue with one more event. -/
theorem exists_persist_of_extended [LawfulStore σ] (taken : extended (fetch store key) event = .ok (cursor, queue)) :
    ∃ store', persist store key (Ring.toBytes queue) = .ok store' := by
  obtain ⟨bytes, old, fetched, opened, -⟩ := extended_eq_ok_iff.mp taken
  have same : (Ring.toBytes queue).length = bytes.length := by
    rw [← Ring.toBytes_of_ofBytes opened, RewardQueue.length_toBytes, RewardQueue.length_toBytes]
  exact LawfulStore.persist_of_fetch fetched same

theorem respond_append_of_ok [LawfulStore σ] (taken : extended (fetch store key) event = .ok (cursor, queue)) :
    ∃ store', persist store key (Ring.toBytes queue) = .ok store' ∧
      respond store (.appendRewardEvent key event) = ((.ok cursor : Except StoreFault UInt32), store') := by
  obtain ⟨store', kept⟩ := exists_persist_of_extended taken
  refine ⟨store', kept, ?_⟩
  rw [respond, run_appendInPlace_eq_ok_iff.mpr ⟨queue, taken, kept⟩]
  rfl

/-! ### What changes -/

theorem respond_persist_of_ok {bytes : Bytes} (kept : persist store key bytes = .ok store') :
    respond store (.persist key bytes) = ((.ok () : Except StoreFault Unit), store') := by
  rw [respond, persist_eq_ok_iff_keep.mp kept]
  rfl

/-- A request leaves the store as it was, or keeps something under the key that it names. -/
theorem respond_cases [LawfulStore σ] (store : σ) (r : Request) :
    (respond store r).2 = store ∨
      ∃ key bytes, r.subject = some key ∧ persist store key bytes = .ok (respond store r).2 := by
  cases r with
  | persist key bytes =>
    cases kept : (keep key bytes).run store with
    | error fault store' =>
      left
      rw [respond, kept]
      exact LawfulStore.keep_of_error kept
    | ok _ store' =>
      have persisted := persist_eq_ok_iff_keep.mpr kept
      refine .inr ⟨key, bytes, rfl, persisted.trans ?_⟩
      rw [respond_persist_of_ok persisted]
  | appendRewardEvent key event =>
    cases taken : extended (fetch store key) event with
    | error fault =>
      left
      rw [respond_append_of_error taken]
    | ok next =>
      obtain ⟨store', kept, responded⟩ := respond_append_of_ok taken
      refine .inr ⟨key, _, rfl, kept.trans ?_⟩
      rw [responded]
  | _ => exact .inl rfl

theorem fetch_respond_of_ne [LawfulStore σ] {r : Request} (other : r.subject ≠ some key) :
    fetch (respond store r).2 key = fetch store key := by
  rcases respond_cases store r with same | ⟨named, bytes, subject, kept⟩
  · rw [same]
  · refine LawfulStore.fetch_persist_of_ne kept ?_
    rintro rfl
    exact other subject

/-- What a request answers, and what it leaves under its key, depends only on what was there, unless it puts something
else there. -/
theorem respond_local [LawfulStore σ] [LawfulStore τ] {s : σ} {t : τ} {r : Request} (subject : r.subject = some key)
    (kept : ∀ bytes, r ≠ .persist key bytes) (same : fetch s key = fetch t key) :
    (respond s r).1 = (respond t r).1 ∧ fetch (respond s r).2 key = fetch (respond t r).2 key := by
  cases r with
  | persist named bytes =>
    obtain rfl := Option.some.inj subject
    exact absurd rfl (kept bytes)
  | appendRewardEvent named event =>
    obtain rfl := Option.some.inj subject
    cases taken : extended (fetch t named) event with
    | error fault =>
      rw [respond_append_of_error taken, respond_append_of_error (same ▸ taken)]
      exact ⟨rfl, same⟩
    | ok next =>
      obtain ⟨s', keptS, respondedS⟩ := respond_append_of_ok (same ▸ taken)
      obtain ⟨t', keptT, respondedT⟩ := respond_append_of_ok taken
      rw [respondedS, respondedT]
      refine ⟨rfl, ?_⟩
      rw [LawfulStore.fetch_persist_self keptS, LawfulStore.fetch_persist_self keptT]
  | fetch named =>
    obtain rfl := Option.some.inj subject
    exact ⟨same, same⟩
  | load l named =>
    obtain rfl := Option.some.inj subject
    exact ⟨load_congr same l, same⟩
  | events named since =>
    obtain rfl := Option.some.inj subject
    exact ⟨events_congr same since, same⟩
  | _ => cases subject

end AccountStore

end StakePool
