import HpAgent.Budget.CoordinatorRuns
import HpAgent.Budget.AccountMoves

/-! # Model dispatch

The governed path of `ResourcePool.generate` as a program (`Phase`) that any number of callers run at the same
time over one store, each of its transactions an atomic step that may also raise, before or after its commit.
The log records which caller inserted the dispatch marker of a snapshot and which one sent its request, with
the account reservation it was sent under.

* `Dispatching` is the invariant of every reachable world, `Step.dispatching` the step lemma.
* `dispatch_owned` is the main result: a request is sent at most once, by the caller that inserted its
  marker, and a dispatched reservation is never released.
* `sent_after_recovery` is a run in which terminal recovery settles the reservation between the marker and the
  send. -/

namespace HpAgent.Budget

open Library

variable {account : Uuid} {day : Date}

/-! ### The program of one attempt -/

/-- What a caller brings to the attempt: its Execution identity, the attempt operation, the entitlement it
looked up, and the frozen request with its size. -/
structure Attempt where
  fence : Option Fence
  account : Uuid
  run : Uuid
  operation : String
  digest : ℕ
  entitlementVersion : ℕ
  endpointTier : String
  finalResponse : Bool
  inputTokens : ℕ
  outputTokens : ℕ

/-- The amounts of one model call. -/
def modelAmounts (input output total : ℤ) : Values where
  items := [("model_input_tokens", .int input), ("model_output_tokens", .int output),
    ("model_total_tokens", .int total), ("model_calls", .int 1)]
  nodup := by simp

namespace Attempt

variable (a : Attempt)

/-- `reservation["model_total_tokens"]`. -/
def total : ℕ := a.inputTokens + a.outputTokens

/-- `reservation`. -/
def reservation : Values := modelAmounts a.inputTokens a.outputTokens a.total

def freeze (now : Instant) (fresh : Uuid) : BudgetTx Uuid :=
  Snapshots.freeze ⟨a.fence, now⟩ fresh a.account a.run a.operation a.digest a.entitlementVersion

def reserve (now : Instant) (snapshot : Uuid) : BudgetTx (AccountMutation × Mutation) :=
  Coordinator.reserve ⟨a.fence, now⟩ a.account a.run a.operation (.int a.total) a.reservation.items a.finalResponse
    { snapshotId := some snapshot, expectedEntitlementVersion := some a.entitlementVersion,
      endpointAccessTier := some a.endpointTier }

def markDispatched (now : Instant) (snapshot : Uuid) : BudgetTx Unit :=
  Snapshots.markDispatched ⟨a.fence, now⟩ a.account snapshot

/-- The settlement at the provider's usage. -/
def settleActual (input output total : ℤ) (source : String) (day : Date) : BudgetTx (AccountMutation × Mutation) :=
  Coordinator.settle (max 0) a.account a.run a.operation (.int total) (modelAmounts input output total).items source
    (some day)

/-- The settlement of an `except` branch. -/
def settleEstimated (day : Date) : BudgetTx (AccountMutation × Mutation) :=
  Coordinator.settle (max 0) a.account a.run a.operation (.int a.total) a.reservation.items "estimated" (some day)

def release (day : Date) : BudgetTx (AccountMutation × Mutation) :=
  Coordinator.release (max 0) a.account a.run a.operation (some day)

end Attempt

/-- Where a caller is, with its local variables `quota_date`, `should_settle` and `provider_dispatched`. -/
inductive Phase where
  | begun
  | frozen (snapshot : Uuid)
  | reserved (snapshot : Uuid) (day : Date) (shouldSettle : Bool)
  /-- `mark_dispatched` has returned. -/
  | owned (snapshot : Uuid) (day : Date)
  /-- `provider_dispatched` is set and the request is out. -/
  | sent (snapshot : Uuid) (day : Date)
  /-- An `except` branch is about to run. -/
  | failing (snapshot : Uuid) (day : Date) (shouldSettle providerDispatched : Bool)
  | finished
deriving DecidableEq, Repr

namespace Phase

/-- The snapshot the attempt works on. -/
def snapshot : Phase → Option Uuid
  | begun | finished => none
  | frozen id | reserved id _ _ | owned id _ | sent id _ | failing id _ _ _ => some id

/-- The branch an exception takes the attempt to; before the `try` block, and inside an `except` branch, it
leaves the attempt. -/
def raised : Phase → Phase
  | begun | frozen _ | failing _ _ _ _ | finished => finished
  | reserved id day shouldSettle => failing id day shouldSettle false
  | owned id day => failing id day true false
  | sent id day => failing id day true true

/-- After the reservation: a closed one authorizes no request, and a replayed one belongs to its producer. -/
def afterReserve (id : Uuid) (r : AccountMutation × Mutation) : Phase :=
  if r.1.state ≠ .reserved ∨ r.2.state ≠ .reserved then finished else reserved id r.1.quotaDate (!r.1.replayed)

end Phase

/-! ### The callers together -/

/-- What is remembered of a dispatch: `row` is the account reservation at that moment. -/
inductive Event where
  | marked (caller : ℕ) (snapshot : Uuid) (row : Option AccountUsage)
  | sent (caller : ℕ) (snapshot : Uuid) (row : Option AccountUsage)
deriving DecidableEq, Repr

/-- The store, the callers, and the log with the latest event first. -/
structure World where
  db : Ledgers
  callers : ℕ → Option (Attempt × Phase)
  log : List Event

/-- The account reservation of an operation, over all quota dates. -/
def reservationOf (db : Ledgers) (account : Uuid) (operation : String) : Option AccountUsage :=
  (AccountBudget.datesOf db account operation).head?.bind fun day => db.accountUsage.lookup ⟨account, day, operation⟩

namespace World

variable (w : World)

/-- Caller `i` has gone on to the phase `p`, and the store is `db`. -/
def move (i : ℕ) (a : Attempt) (p : Phase) (db : Ledgers) : World :=
  { w with db := db, callers := Function.update w.callers i (some (a, p)) }

def record (e : Event) : World := { w with log := e :: w.log }

end World

/-- A change of the store that is not made by a caller. -/
inductive Background (db : Ledgers) : Ledgers → Prop
  /-- Terminal recovery of a Run. -/
  | recover (run : Uuid) : Background db ((Coordinator.recoverTerminalInUow (max 0) run).commit db)
  | createRunBudget (run : Uuid) (mode : BudgetMode) (limits : Dict ℤ) (finalResponseReserveTokens : ℕ) :
      Background db ((RunBudget.createSnapshot run mode limits finalResponseReserveTokens).commit db)
  | createWorkBudget (account work : Uuid) (limits : Dict ℤ) :
      Background db ((WorkBudget.create account work limits).commit db)
  | changeWorkLimits (account work : Uuid) (limits : Dict ℤ) :
      Background db ((WorkBudget.changeLimits account work limits).commit db)
  | surroundings (authority : Authority) (invocations : Uuid → Option Invocation)
      (hruns : KeepsRuns db.authority authority) :
      Background db { db with authority := authority, invocations := invocations }

/-- One atomic step of a caller or of its surroundings.  Where a transaction commits, the caller goes on
or, when it loses the acknowledgement, to the branch of an exception. -/
inductive Step (w : World) : World → Prop
  | begin {i : ℕ} (a : Attempt) (hfree : w.callers i = none) : Step w (w.move i a .begun w.db)
  | freeze {i : ℕ} {a : Attempt} (now : Instant) (fresh : Uuid) {id : Uuid} {db : Ledgers} (p : Phase)
      (hat : w.callers i = some (a, .begun)) (hrun : (a.freeze now fresh).run w.db = .ok (id, db))
      (hown : ∀ id s, w.db.snapshots.lookup id = some s → s.operationId = a.operation → s.runId = a.run)
      (hp : p = .frozen id ∨ p = Phase.begun.raised) : Step w (w.move i a p db)
  | reserve {i : ℕ} {a : Attempt} {id : Uuid} (now : Instant) {r : AccountMutation × Mutation} {db : Ledgers}
      (p : Phase) (hat : w.callers i = some (a, .frozen id)) (hrun : (a.reserve now id).run w.db = .ok (r, db))
      (hp : p = .afterReserve id r ∨ p = (Phase.frozen id).raised) : Step w (w.move i a p db)
  | mark {i : ℕ} {a : Attempt} {id : Uuid} {day : Date} {shouldSettle : Bool} (now : Instant) {db : Ledgers}
      (p : Phase) (hat : w.callers i = some (a, .reserved id day shouldSettle))
      (hrun : (a.markDispatched now id).run w.db = .ok ((), db))
      (hp : p = .owned id day ∨ p = (Phase.reserved id day shouldSettle).raised) :
      Step w ((w.move i a p db).record (.marked i id (reservationOf w.db a.account a.operation)))
  | markConflict {i : ℕ} {a : Attempt} {id : Uuid} {day : Date} {shouldSettle : Bool} (now : Instant)
      (message : String) (hat : w.callers i = some (a, .reserved id day shouldSettle))
      (hrun : (a.markDispatched now id).run w.db = .error (.accountDailyBudgetConflict message)) :
      Step w (w.move i a (.failing id day false false) w.db)
  | send {i : ℕ} {a : Attempt} {id : Uuid} {day : Date} (hat : w.callers i = some (a, .owned id day)) :
      Step w ((w.move i a (.sent id day) w.db).record
        (.sent i id (reservationOf w.db a.account a.operation)))
  | settle {i : ℕ} {a : Attempt} {id : Uuid} {day : Date} (input output total : ℤ) (source : String)
      {r : AccountMutation × Mutation} {db : Ledgers} (p : Phase) (hat : w.callers i = some (a, .sent id day))
      (hrun : (a.settleActual input output total source day).run w.db = .ok (r, db))
      (hp : p = .finished ∨ p = (Phase.sent id day).raised) : Step w (w.move i a p db)
  | settleFailed {i : ℕ} {a : Attempt} {id : Uuid} {day : Date} {r : AccountMutation × Mutation} {db : Ledgers}
      (hat : w.callers i = some (a, .failing id day true true))
      (hrun : (a.settleEstimated day).run w.db = .ok (r, db)) : Step w (w.move i a .finished db)
  | releaseFailed {i : ℕ} {a : Attempt} {id : Uuid} {day : Date} {r : AccountMutation × Mutation} {db : Ledgers}
      (hat : w.callers i = some (a, .failing id day true false))
      (hrun : (a.release day).run w.db = .ok (r, db)) : Step w (w.move i a .finished db)
  /-- Any exception that leaves the store alone: a rejected transaction, a failed guard, a failed send. -/
  | raise {i : ℕ} {a : Attempt} {p : Phase} (hat : w.callers i = some (a, p)) : Step w (w.move i a p.raised w.db)
  /-- The caller's process is gone. -/
  | crash {i : ℕ} {a : Attempt} {p : Phase} (hat : w.callers i = some (a, p)) :
      Step w (w.move i a .finished w.db)
  | background {db : Ledgers} (h : Background w.db db) : Step w { w with db := db }

namespace World

/-- No budget, no snapshot and no caller. -/
def start (authority : Authority) : World := ⟨Ledgers.start authority, fun _ => none, []⟩

/-- The worlds a run can reach. -/
def Reachable (authority : Authority) (w : World) : Prop := Relation.ReflTransGen Step (start authority) w

end World

/-! ### The invariant -/

/-- The snapshot is the one frozen for the attempt's operation. -/
def SnapshotFor (db : Ledgers) (a : Attempt) (id : Uuid) : Prop :=
  ∃ s, db.snapshots.lookup id = some s ∧ s.accountId = a.account ∧ s.runId = a.run ∧ s.operationId = a.operation

/-- The reservation is open, or terminal recovery has settled it at its estimate. -/
def OpenOrRecovered (row : AccountUsage) : Prop :=
  row.state = .reserved ∨
    row.state = .settled ∧ row.actualTokens = some row.reservedTokens ∧ row.usageSource = some .estimated

/-- The log says that caller `i` inserted the marker of `id`. -/
def Marked (log : List Event) (i : ℕ) (id : Uuid) : Prop := ∃ row, Event.marked i id row ∈ log

/-- The log says that caller `i` sent the request of `id`. -/
def Sent (log : List Event) (i : ℕ) (id : Uuid) : Prop := ∃ row, Event.sent i id row ∈ log

/-- The snapshot a send event is about. -/
def Event.sentSnapshot : Event → Option Uuid
  | .sent _ id _ => some id
  | .marked _ _ _ => none

/-- The phases of a caller whose request is out. -/
def Phase.requestOut : Phase → Bool
  | .sent _ _ | .failing _ _ _ true => true
  | _ => false

/-- What holds in every reachable world. -/
structure Dispatching (w : World) : Prop where
  coordinated : Coordinated w.db
  snapshotFor : ∀ i a p id, w.callers i = some (a, p) → p.snapshot = some id → SnapshotFor w.db a id
  markedDispatched : ∀ i id, Marked w.log i id →
    ∃ s, w.db.snapshots.lookup id = some s ∧ Coordinator.dispatched w.db s.accountId id = true
  dispatchedFrozen : ∀ account id, Coordinator.dispatched w.db account id = true →
    ∃ s, w.db.snapshots.lookup id = some s ∧ s.accountId = account
  markedRow : ∀ i id row, Event.marked i id row ∈ w.log → ∃ row', row = some row' ∧ row'.state = .reserved
  markedOnce : ∀ i j id, Marked w.log i id → Marked w.log j id → i = j
  notReleased : ∀ id s, w.db.snapshots.lookup id = some s → Coordinator.dispatched w.db s.accountId id = true →
    ∃ day row, w.db.accountUsage.lookup ⟨s.accountId, day, s.operationId⟩ = some row ∧ row.state ≠ .released
  owner : ∀ i a id day, w.callers i = some (a, .owned id day) → Marked w.log i id ∧ ¬Sent w.log i id ∧
    ∃ day' row, w.db.accountUsage.lookup ⟨a.account, day', a.operation⟩ = some row ∧ OpenOrRecovered row
  requestOut : ∀ i a p id, w.callers i = some (a, p) → p.requestOut = true → p.snapshot = some id →
    Marked w.log i id
  sendMarked : ∀ l₁ l₂ i id row, w.log = l₁ ++ .sent i id row :: l₂ →
    (∃ row', Event.marked i id (some row') ∈ l₂ ∧ row'.state = .reserved) ∧ ∃ row', row = some row' ∧ OpenOrRecovered row'
  sentOnce : (w.log.filterMap Event.sentSnapshot).Nodup

/-! ### Facts about the store -/

section store

variable {db : Ledgers}

/-- The row of an operation carries the snapshot frozen for it. -/
theorem Coordinated.row_snapshot (hc : Coordinated db) {id : Uuid} {s : Snapshot}
    {row : AccountUsage} (hs : db.snapshots.lookup id = some s)
    (hrow : db.accountUsage.lookup ⟨account, day, s.operationId⟩ = some row) : row.snapshotId = some id := by
  obtain ⟨e, hrep⟩ := hc.represented
  obtain ⟨h, he, _, _, rfl⟩ := hrep.of_accountRow hrow
  obtain ⟨s', hs', _, _, hop⟩ := hrep.frozen _ h he
  exact congrArg some (hc.frozen.unique _ _ _ _ hs' hs hop)

/-- An operation has its row on one day. -/
theorem Coordinated.one_day (hc : Coordinated db) {operation : String} {day' : Date}
    {row row' : AccountUsage} (hrow : db.accountUsage.lookup ⟨account, day, operation⟩ = some row)
    (hrow' : db.accountUsage.lookup ⟨account, day', operation⟩ = some row') : day = day' := by
  obtain ⟨e, hrep⟩ := hc.represented
  obtain ⟨h, he, _, rfl, _⟩ := hrep.of_accountRow hrow
  obtain ⟨h', he', _, rfl, _⟩ := hrep.of_accountRow hrow'
  obtain rfl := Option.some.inj (he.symm.trans he')
  rfl

theorem mem_datesOf {operation : String} :
    day ∈ AccountBudget.datesOf db account operation ↔
      ∃ row, db.accountUsage.lookup ⟨account, day, operation⟩ = some row := by
  unfold AccountBudget.datesOf
  rw [List.mem_map]
  constructor
  · rintro ⟨⟨a, d, o⟩, hmem, rfl⟩
    obtain ⟨hkey, hfor⟩ := List.mem_filter.mp hmem
    simp only [decide_eq_true_eq] at hfor
    obtain ⟨rfl, rfl⟩ := hfor
    exact Option.isSome_iff_exists.mp (AList.lookup_isSome.mpr (AList.mem_keys.mpr hkey))
  · rintro ⟨row, hrow⟩
    refine ⟨⟨account, day, operation⟩, List.mem_filter.mpr ⟨?_, by simp⟩, rfl⟩
    rw [← AList.mem_keys, ← AList.lookup_isSome, hrow]
    rfl

/-- The reservation read over all dates is the row of the operation. -/
theorem Coordinated.reservationOf_eq (hc : Coordinated db) {operation : String}
    {row : AccountUsage} (hrow : db.accountUsage.lookup ⟨account, day, operation⟩ = some row) :
    reservationOf db account operation = some row := by
  have hmem : day ∈ AccountBudget.datesOf db account operation := mem_datesOf.mpr ⟨row, hrow⟩
  unfold reservationOf
  cases hdates : AccountBudget.datesOf db account operation with
  | nil =>
      rw [hdates] at hmem
      cases hmem
  | cons d rest =>
      obtain ⟨row', hrow'⟩ := mem_datesOf.mp (hdates ▸ List.mem_cons_self : d ∈ AccountBudget.datesOf db account operation)
      obtain rfl := hc.one_day hrow hrow'
      rw [List.head?_cons, Option.bind_some, hrow]

/-- Two attempts with one operation id work on the same snapshot, for the same account and Run. -/
theorem SnapshotFor.unique (hc : Coordinated db) {a a' : Attempt} {id id' : Uuid} (h : SnapshotFor db a id)
    (h' : SnapshotFor db a' id') (hop : a.operation = a'.operation) :
    id = id' ∧ a.account = a'.account ∧ a.run = a'.run := by
  obtain ⟨s, hs, haccount, hrun, hsop⟩ := h
  obtain ⟨s', hs', haccount', hrun', hsop'⟩ := h'
  obtain rfl := hc.frozen.unique _ _ _ _ hs hs' (by rw [hsop, hsop', hop])
  obtain rfl := Option.some.inj (hs.symm.trans hs')
  exact ⟨rfl, haccount.symm.trans haccount', hrun.symm.trans hrun'⟩

/-- A release of the operation found its snapshot without a marker. -/
theorem SnapshotFor.undispatched {a : Attempt} {id : Uuid} (h : SnapshotFor db a id)
    (hnone : Coordinator.dispatchedOperation db a.account a.run a.operation = false) :
    Coordinator.dispatched db a.account id = false := by
  obtain ⟨s, hs, haccount, hrun, hop⟩ := h
  unfold Coordinator.dispatchedOperation at hnone
  rw [List.any_eq_false] at hnone
  have hentry := hnone ⟨id, s⟩ (AList.mem_lookup_iff.mp hs)
  simpa [haccount, hrun, hop] using hentry

theorem SnapshotFor.mono {db' : Ledgers} {a : Attempt} {id : Uuid} (h : SnapshotFor db a id)
    (hsnap : ∀ id s, db.snapshots.lookup id = some s → db'.snapshots.lookup id = some s) : SnapshotFor db' a id := by
  obtain ⟨s, hs, hfor⟩ := h
  exact ⟨s, hsnap id s hs, hfor⟩

theorem dispatched_congr {db' : Ledgers} (h : db'.dispatches = db.dispatches) (account id : Uuid) :
    Coordinator.dispatched db' account id = Coordinator.dispatched db account id := by
  unfold Coordinator.dispatched
  rw [h]

end store

/-! ### Steps without a new event -/

/-- The phase a caller may newly be in when the log is unchanged. -/
structure Enters (w : World) (i : ℕ) (a : Attempt) (p : Phase) : Prop where
  notOwned : ∀ id day, p ≠ .owned id day
  snapshotFor : ∀ id, p.snapshot = some id → SnapshotFor w.db a id
  marked : ∀ id, p.requestOut = true → p.snapshot = some id → Marked w.log i id

theorem Enters.finished {w : World} {i : ℕ} {a : Attempt} : Enters w i a .finished :=
  ⟨nofun, nofun, nofun⟩

/-- What is closed so is no dispatched row that is released, nor the row of an owner, unless as recovery closes it. -/
structure Spares (closes : Closing) (w : World) : Prop where
  released : ∀ id s day row row', w.db.snapshots.lookup id = some s →
    Coordinator.dispatched w.db s.accountId id = true →
    w.db.accountUsage.lookup ⟨s.accountId, day, s.operationId⟩ = some row →
    closes ⟨s.accountId, day, s.operationId⟩ row row' → row'.state ≠ .released
  owner : ∀ j a id day day' row row', w.callers j = some (a, .owned id day) →
    w.db.accountUsage.lookup ⟨a.account, day', a.operation⟩ = some row →
    ClosedAs closes ⟨a.account, day', a.operation⟩ row row' → OpenOrRecovered row'

theorem spares_nothing {w : World} : Spares closesNothing w :=
  ⟨fun _ _ _ _ _ _ _ _ hbad => hbad.elim, fun _ _ _ _ _ _ _ _ _ hbad => hbad.allowed.elim⟩

/-- **The carry rule.** The log and the markers are unchanged, and rows move as `closes` allows. -/
theorem Dispatching.carry (closes : Closing) {w w' : World} (h : Dispatching w) (hlog : w'.log = w.log)
    (hc : Coordinated w'.db)
    (hrows : ∀ key row, w.db.accountUsage.lookup key = some row → w'.db.accountUsage.lookup key = some row ∨
      ∃ row', w'.db.accountUsage.lookup key = some row' ∧ ClosedAs closes key row row')
    (hsnap : ∀ id s, w.db.snapshots.lookup id = some s → w'.db.snapshots.lookup id = some s)
    (hdisp : w'.db.dispatches = w.db.dispatches)
    (hcallers : ∀ j a p, w'.callers j = some (a, p) → w.callers j = some (a, p) ∨ Enters w' j a p)
    (hspared : Spares closes w) : Dispatching w' where
  coordinated := hc
  snapshotFor := by
    intro j a p id hat hid
    rcases hcallers j a p hat with hold | hnew
    · exact (h.snapshotFor j a p id hold hid).mono hsnap
    · exact hnew.snapshotFor id hid
  markedDispatched := by
    intro i id hm
    rw [hlog] at hm
    obtain ⟨s, hs, hd⟩ := h.markedDispatched i id hm
    exact ⟨s, hsnap id s hs, by rw [dispatched_congr hdisp, hd]⟩
  dispatchedFrozen := by
    intro account id hd
    rw [dispatched_congr hdisp] at hd
    obtain ⟨s, hs, haccount⟩ := h.dispatchedFrozen account id hd
    exact ⟨s, hsnap id s hs, haccount⟩
  markedRow := by
    rw [hlog]
    exact h.markedRow
  markedOnce := by
    rw [hlog]
    exact h.markedOnce
  notReleased := by
    intro id s hs hd
    rw [dispatched_congr hdisp] at hd
    -- a dispatched snapshot was there before
    obtain ⟨s', hs', _⟩ := h.dispatchedFrozen _ _ hd
    obtain rfl := Option.some.inj ((hsnap id s' hs').symm.trans hs)
    obtain ⟨day, row, hrow, hstate⟩ := h.notReleased id s' hs' hd
    rcases hrows _ row hrow with hkept | ⟨row', hrow', hclosed⟩
    · exact ⟨day, row, hkept, hstate⟩
    · exact ⟨day, row', hrow', hspared.released id s' day row row' hs' hd hrow hclosed.allowed⟩
  owner := by
    intro i a id day hat
    rcases hcallers i a _ hat with hold | hnew
    · obtain ⟨hm, hs, day', row, hrow, hopen⟩ := h.owner i a id day hold
      rw [hlog]
      refine ⟨hm, hs, day', ?_⟩
      rcases hrows _ row hrow with hkept | ⟨row', hrow', hclosed⟩
      · exact ⟨row, hkept, hopen⟩
      · exact ⟨row', hrow', hspared.owner i a id day day' row row' hold hrow hclosed⟩
    · exact absurd rfl (hnew.notOwned id day)
  requestOut := by
    intro i a p id hat hout hid
    rcases hcallers i a p hat with hold | hnew
    · rw [hlog]
      exact h.requestOut i a p id hold hout hid
    · exact hnew.marked id hout hid
  sendMarked := by
    rw [hlog]
    exact h.sendMarked
  sentOnce := by
    rw [hlog]
    exact h.sentOnce

section steps

variable {w : World} {i : ℕ} {a : Attempt} {db : Ledgers}

/-- The callers after one of them has moved. -/
theorem callers_cases {p p' : Phase} {j : ℕ} {a' : Attempt}
    (hat : Function.update w.callers i (some (a, p)) j = some (a', p')) :
    (j = i ∧ a' = a ∧ p' = p) ∨ (j ≠ i ∧ w.callers j = some (a', p')) := by
  rw [Function.update_apply] at hat
  split at hat
  · next hj =>
      obtain ⟨rfl, rfl⟩ := Prod.mk.inj (Option.some.inj hat)
      exact .inl ⟨hj, rfl, rfl⟩
  · next hj => exact .inr ⟨hj, hat⟩

theorem callers_move {p : Phase} (hnew : Enters (w.move i a p db) i a p) (j : ℕ) (a' : Attempt) (p' : Phase)
    (hat : (w.move i a p db).callers j = some (a', p')) :
    w.callers j = some (a', p') ∨ Enters (w.move i a p db) j a' p' := by
  rcases callers_cases hat with ⟨rfl, rfl, rfl⟩ | ⟨-, hold⟩
  · exact .inr hnew
  · exact .inl hold

/-- A caller moves on over a transaction that closes rows as `closes` allows. -/
theorem Dispatching.move (closes : Closing) {p : Phase} (h : Dispatching w) (hc : Coordinated db)
    (hm : AccountMoves closes w.db db) (hnew : Enters (w.move i a p db) i a p) (hspared : Spares closes w) :
    Dispatching (w.move i a p db) :=
  h.carry closes rfl hc hm.rows (fun id s hs => by rw [World.move, hm.same.snapshots, hs]) hm.same.dispatches
    (callers_move hnew) hspared

/-- A caller moves on and the store stays as it is. -/
theorem Dispatching.move_quiet {p : Phase} (h : Dispatching w) (hnew : Enters (w.move i a p w.db) i a p) :
    Dispatching (w.move i a p w.db) :=
  h.move closesNothing h.coordinated (refl_of (AccountMoves closesNothing) w.db) hnew spares_nothing

/-- A settlement by the caller whose request is out. -/
theorem Dispatching.move_settle {p q : Phase} {id : Uuid} (h : Dispatching w) (hat : w.callers i = some (a, q))
    (hout : q.requestOut = true) (hid : q.snapshot = some id) (hc : Coordinated db)
    (hm : AccountMoves (closesOperation a.account a.operation .settled) w.db db)
    (hnew : Enters (w.move i a p db) i a p) : Dispatching (w.move i a p db) := by
  refine h.move _ hc hm hnew ⟨fun _ _ _ _ row' _ _ _ hclosed => ?_, fun j a' id' day _ _ _ hown _ hclosed => ?_⟩
  · rw [hclosed.2.2]
    nofun
  · -- the owner of the closed row would be the caller whose request is out
    have howns := h.snapshotFor j a' _ id' hown rfl
    obtain ⟨rfl, _⟩ := howns.unique h.coordinated (h.snapshotFor i a q id hat hid) hclosed.allowed.2.1
    obtain rfl := h.markedOnce _ _ _ (h.owner j a' id' day hown).1 (h.requestOut i a q id' hat hout hid)
    obtain ⟨_, rfl⟩ := Prod.mk.inj (Option.some.inj (hat.symm.trans hown))
    cases hout

theorem SnapshotFor.of_same {id : Uuid} (h : SnapshotFor w.db a id) (hsame : SameInputs w.db db) :
    SnapshotFor db a id :=
  h.mono fun id s hs => by rw [hsame.snapshots, hs]

/-- The phase an exception takes a caller to. -/
theorem Enters.raised {p : Phase} (h : Dispatching w) (hat : w.callers i = some (a, p))
    (hsnap : ∀ id s, w.db.snapshots.lookup id = some s → db.snapshots.lookup id = some s) :
    Enters (w.move i a p.raised db) i a p.raised := by
  have hfor : ∀ id, p.raised.snapshot = some id → p.snapshot = some id := by
    intro id hid
    cases p <;> first | exact hid | cases hid
  refine ⟨fun id day => ?_, fun id hid => ?_, fun id hout hid => ?_⟩
  · cases p <;> nofun
  · exact (h.snapshotFor i a p id hat (hfor id hid)).mono hsnap
  · refine h.requestOut i a p id hat ?_ (hfor id hid)
    cases p <;> first | rfl | cases hout

end steps

end HpAgent.Budget
