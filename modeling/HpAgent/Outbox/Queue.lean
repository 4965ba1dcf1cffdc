import HpAgent.Domain.Authority
import HpAgent.Library.Table
import HpAgent.Library.Transaction

/-! # The outbox

An outbox event is claimed by a worker, handled outside the database, and then acknowledged, returned for a retry or
put aside as a dead letter; a recovery pass returns the claims that are too old.  A claim is known by its event, its
worker and the `attempt_count` it was given.

* `OutboxRepository`: `claimBatch`, `recoverExpired`, `markProcessed`, `markRetryableFailure`, `markDeadLetter`,
  which know a claim by its worker only.
* `OutboxService.dead_letter`: `deadLetter`, which may fail the Run as well.
* `MemoryStore`: `finishEvent`, `registerEvent`, `rejectEvent`, `saveEvent`, which compare `attempt_count` too. -/

namespace HpAgent.Outbox

open Library

/-! ### Rows -/

/-- `ck_outbox_events__event_type`. -/
inductive EventType where
  | startRun
  | cancelRun
  | retainMemory
  | memoryAction
  | publishTerminalEvent
  | publishWorkEvent
  | fileActionApprovalDecided
deriving DecidableEq, Repr

/-- `ck_outbox_events__status`. -/
inductive EventStatus where
  | pending
  | processing
  | processed
  | deadLetter
deriving DecidableEq, Repr

/-- `outbox_events`; the key is `outbox_event_id`. -/
structure OutboxEvent where
  accountId : Uuid
  eventType : EventType
  businessKey : String
  conversationId : Option Uuid
  runId : Option Uuid
  workId : Option Uuid
  payload : String
  status : EventStatus
  attemptCount : ℕ
  availableAt : Instant
  lockedAt : Option Instant
  lockedBy : Option String
  lastErrorCode : Option String
  lastErrorMessage : Option String
  processedAt : Option Instant
  createdAt : Instant
deriving DecidableEq, Repr

/-- The outbox, and the status of the Runs that can be locked with their owners, by account. -/
structure OutboxStore where
  events : Table Uuid OutboxEvent
  runs : Uuid → Uuid → Option RunStatus

/-- The errors of the queue. -/
inductive QueueError where
  | outboxLeaseLost
  | resourceNotFound
  | valueError (message : String)
  | integrityError
deriving DecidableEq, Repr

abbrev OutboxTx := Tx QueueError OutboxStore

/-- What an `INSERT` gives; the other columns have their defaults. -/
structure NewEvent where
  id : Uuid
  accountId : Uuid
  eventType : EventType
  businessKey : String
  conversationId : Option Uuid
  runId : Option Uuid
  workId : Option Uuid
  payload : String

def NewEvent.row (now : Instant) (e : NewEvent) : OutboxEvent :=
  ⟨e.accountId, e.eventType, e.businessKey, e.conversationId, e.runId, e.workId, e.payload, .pending, 0, now, none, none,
    none, none, none, now⟩

/-- A claim as its worker holds it: the event, the `worker_id` and the `attempt_count` of the returned row. -/
structure Claim where
  eventId : Uuid
  workerId : String
  attemptCount : ℕ
deriving DecidableEq, Repr

namespace OutboxEvent

/-- `claim_batch` on one row. -/
def claim (now : Instant) (worker : String) (e : OutboxEvent) : OutboxEvent :=
  { e with status := .processing, attemptCount := e.attemptCount + 1, lockedAt := some now, lockedBy := some worker }

/-- `recover_expired` on one row. -/
def recover (e : OutboxEvent) : OutboxEvent := { e with status := .pending, lockedAt := none, lockedBy := none }

/-- `mark_processed` on one row. -/
def process (now : Instant) (e : OutboxEvent) : OutboxEvent :=
  { e with status := .processed, processedAt := some now, lockedAt := none, lockedBy := none }

/-- `mark_retryable_failure` on one row. -/
def retry (next : Instant) (code message : Option String) (e : OutboxEvent) : OutboxEvent :=
  { e with
    status := .pending, lockedAt := none, lockedBy := none, availableAt := next, lastErrorCode := code
    lastErrorMessage := message }

/-- `mark_dead_letter` on one row. -/
def bury (code message : String) (e : OutboxEvent) : OutboxEvent :=
  { e with
    status := .deadLetter, lockedAt := none, lockedBy := none, lastErrorCode := some code, lastErrorMessage := some message }

/-- The row is being processed by the worker. -/
def lockedFor (worker : String) (e : OutboxEvent) : Bool := e.status = .processing && e.lockedBy = some worker

/-- The row can be claimed. -/
def claimable (now : Instant) (types : List EventType) (e : OutboxEvent) : Bool :=
  e.status = .pending && e.availableAt ≤ now && types.contains e.eventType

/-- The lease on the row is older than allowed. -/
def expired (now : Instant) (olderThanSeconds : ℕ) (types : List EventType) (e : OutboxEvent) : Bool :=
  e.status = .processing && e.lockedAt.any (fun t => t < now - olderThanSeconds * 1000000) && types.contains e.eventType

/-- `ORDER BY available_at,created_at,outbox_event_id`. -/
def before (a b : Sigma fun _ : Uuid => OutboxEvent) : Bool :=
  a.2.availableAt < b.2.availableAt || (a.2.availableAt = b.2.availableAt &&
    (a.2.createdAt < b.2.createdAt || (a.2.createdAt = b.2.createdAt && a.1 ≤ b.1)))

end OutboxEvent

/-! ### `OutboxRepository` -/

/-- `enqueue`: `ON CONFLICT (business_key) DO NOTHING`. -/
def enqueue (now : Instant) (e : NewEvent) : OutboxTx Unit := do
  let known ← Tx.query fun db => db.events.entries.any fun r => r.2.businessKey = e.businessKey
  if known then pure ()
  else do
    let taken ← Tx.query fun db => (db.events.lookup e.id).isSome
    Tx.check (taken = false) .integrityError
    Tx.update fun db => { db with events := db.events.insert e.id (e.row now) }

/-- The rows a batch takes; `skipped` are those other transactions have locked. -/
def candidates (now : Instant) (types : List EventType) (limit : ℕ) (skipped : Uuid → Bool) (db : OutboxStore) : List Uuid :=
  (((db.events.entries.filter fun r => r.2.claimable now types && !skipped r.1).mergeSort OutboxEvent.before).take limit).map
    Sigma.fst

/-- `claim_batch`; the rows it returns. -/
def claimBatch (now : Instant) (worker : String) (types : List EventType) (limit : ℕ) (skipped : Uuid → Bool) :
    OutboxTx (List (Uuid × OutboxEvent)) := do
  let chosen ← Tx.query (candidates now types limit skipped)
  Tx.update fun db => { db with events := db.events.updateWhere (fun k _ => chosen.contains k) (OutboxEvent.claim now worker) }
  Tx.query fun db => chosen.filterMap fun k => (db.events.lookup k).map (k, ·)

/-- `recover_expired`; how many rows it returned to the queue. -/
def recoverExpired (now : Instant) (olderThanSeconds : ℕ) (types : List EventType) : OutboxTx ℕ := do
  let rows ← Tx.query fun db => (db.events.entries.filter fun r => r.2.expired now olderThanSeconds types).length
  Tx.update fun db => { db with events := db.events.updateWhere (fun _ e => e.expired now olderThanSeconds types) OutboxEvent.recover }
  pure rows

/-- The statements that end a claim: a change of the row while the worker holds it, and whether there was one. -/
def changeOwned (event : Uuid) (worker : String) (f : OutboxEvent → OutboxEvent) : OutboxTx Bool := do
  let changed ← Tx.query fun db => (db.events.lookup event).any (OutboxEvent.lockedFor worker)
  Tx.update fun db => { db with events := db.events.updateWhere (fun k e => k = event && e.lockedFor worker) f }
  pure changed

/-- `mark_processed`. -/
def markProcessed (now : Instant) (event : Uuid) (worker : String) : OutboxTx Bool :=
  changeOwned event worker (OutboxEvent.process now)

/-- `mark_retryable_failure`. -/
def markRetryableFailure (event : Uuid) (worker code message : String) (next : Instant) : OutboxTx Bool :=
  changeOwned event worker (OutboxEvent.retry next (some code) (some message))

/-- `mark_dead_letter`. -/
def markDeadLetter (event : Uuid) (worker code message : String) : OutboxTx Bool :=
  changeOwned event worker (OutboxEvent.bury code message)

/-- `lock_owned_event`. -/
def lockOwnedEvent (event : Uuid) (worker : String) (db : OutboxStore) : Option OutboxEvent :=
  (db.events.lookup event).filter (OutboxEvent.lockedFor worker)

/-! ### `OutboxService` -/

/-- `OUTBOX_EVENT_TYPES`. -/
def outboxEventTypes : List EventType :=
  [.startRun, .cancelRun, .retainMemory, .memoryAction, .publishTerminalEvent, .publishWorkEvent, .fileActionApprovalDecided]

/-- `WEB_OUTBOX_RECOVERY_EVENT_TYPES`. -/
def webOutboxRecoveryEventTypes : List EventType := [.startRun, .cancelRun, .fileActionApprovalDecided]

/-- The check of `claim` and `recover_expired`. -/
def knownTypes (types : List EventType) : OutboxTx Unit :=
  Tx.check (types ≠ [] ∧ ∀ t ∈ types, t ∈ outboxEventTypes) (.valueError "owned_event_types must contain known Outbox event types")

/-- `OutboxService.claim`. -/
def claim (now : Instant) (worker : String) (types : List EventType) (limit : ℕ) (skipped : Uuid → Bool) :
    OutboxTx (List (Uuid × OutboxEvent)) := do
  knownTypes types
  claimBatch now worker types limit skipped

/-- `OutboxService.recover_expired`. -/
def recover (now : Instant) (olderThanSeconds : ℕ) (types : List EventType) : OutboxTx ℕ := do
  knownTypes types
  recoverExpired now olderThanSeconds types

/-- `_safe_error`. -/
def safeError (value : String) (limit : ℕ) : String := String.ofList ((value.toList.filter (· ≠ '\x00')).take limit)

/-- `finish_in_uow` of a queued Run as failed, with the events its projections enqueue. -/
def finishFailed (now : Instant) (account run : Uuid) (projected : List NewEvent) : OutboxTx Unit := do
  Tx.update fun db => { db with
    runs := fun a r => if a = account ∧ r = run then some .failed else db.runs a r }
  projected.forM (enqueue now)

/-- `OutboxService.dead_letter`. -/
def deadLetter (now : Instant) (event : Uuid) (worker code message : String) (projected : List NewEvent) : OutboxTx Bool := do
  let context ← Tx.query fun db => db.events.lookup event
  let context ← Tx.demand context .resourceNotFound
  let run ← Tx.demand context.runId .resourceNotFound
  let locked ← Tx.query fun db => db.runs context.accountId run
  let status ← Tx.demand locked .resourceNotFound
  let owned ← Tx.query (lockOwnedEvent event worker)
  let e ← Tx.demand owned .outboxLeaseLost
  Tx.check (e.runId = context.runId) .outboxLeaseLost
  if e.eventType = .startRun ∧ status = .queued then finishFailed now context.accountId run projected else pure ()
  let changed ← markDeadLetter event worker (safeError code 100) (safeError message 1000)
  Tx.check (changed = true) .outboxLeaseLost
  pure true

/-! ### `MemoryStore` -/

/-- `MemoryStore.owned`: the row, if the claim that is handed in holds it. -/
def owned (event : Uuid) (attempt : ℕ) (worker : String) : OutboxTx OutboxEvent := do
  let row ← Tx.query (lockOwnedEvent event worker)
  let row ← Tx.demand row .outboxLeaseLost
  Tx.check (row.attemptCount = attempt) .outboxLeaseLost
  pure row

/-- `MemoryStore.finish_event`. -/
def finishEvent (now : Instant) (event : Uuid) (attempt : ℕ) (worker : String) : OutboxTx Unit := do
  let _ ← owned event attempt worker
  let changed ← markProcessed now event worker
  Tx.check (changed = true) .outboxLeaseLost

/-- `MemoryStore.register`, with the event of the action it may freeze. -/
def registerEvent (now : Instant) (event : Uuid) (attempt : ℕ) (worker : String) (frozen : Option NewEvent) : OutboxTx Unit := do
  let _ ← owned event attempt worker
  frozen.toList.forM (enqueue now)
  let changed ← markProcessed now event worker
  Tx.check (changed = true) .outboxLeaseLost

/-- `MemoryStore.reject_event`. -/
def rejectEvent (event : Uuid) (attempt : ℕ) (worker code : String) : OutboxTx Unit := do
  let _ ← owned event attempt worker
  let changed ← markDeadLetter event worker code code
  Tx.check (changed = true) .outboxLeaseLost

/-- `MemoryStore.save` on the outbox: a terminal action is acknowledged, any other waits. -/
def saveEvent (now : Instant) (event : Uuid) (attempt : ℕ) (worker : String) (terminal : Bool) (code : Option String)
    (delaySeconds : ℤ) : OutboxTx Unit := do
  let _ ← owned event attempt worker
  if terminal then do
    let changed ← markProcessed now event worker
    Tx.check (changed = true) .outboxLeaseLost
  else
    Tx.update fun db => { db with
      events := db.events.updateWhere (fun k _ => k = event) (OutboxEvent.retry (now + delaySeconds * 1000000) code none) }

end HpAgent.Outbox
