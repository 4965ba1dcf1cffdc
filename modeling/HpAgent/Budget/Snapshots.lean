import HpAgent.Budget.Coordinator

/-! # Frozen model inputs and their dispatch markers

`SnapshotRepository`: `freeze` records the request of one attempt operation, once, and `markDispatched`
inserts the marker that makes its caller the one that may send it.

* `freeze_ok`: a snapshot is inserted under a fresh id, or the one already there is returned.
* `markDispatched_ok`: the marker was not there, and the reservation of the snapshot's operation was
  still `reserved`. -/

namespace HpAgent.Budget

open Library

namespace Snapshots

/-- `SELECT * FROM model_input_snapshots WHERE account_id AND run_id AND operation_id`. -/
def ofOperation (db : Ledgers) (account run : Uuid) (operation : String) : Option (Uuid × Snapshot) :=
  (db.snapshots.entries.find? fun e => e.2.accountId = account && e.2.runId = run &&
    e.2.operationId = operation).map fun e => (e.1, e.2)

/-- `freeze`; `fresh` is the new `uuid7` and `digest` the semantic hash of the request. -/
def freeze (caller : Caller) (fresh account run : Uuid) (operation : String) (digest entitlementVersion : ℕ) :
    BudgetTx Uuid := do
  let owns ← Tx.query fun db => (db.authority.ownedRun account run).isSome
  Tx.check (owns = true) (.lookupError "Run does not belong to model-call Account")
  let verdict ← Tx.query fun db => db.authority.checkExecution account run (caller.fence.map Fence.executionId)
  Tx.ofExcept verdict
  let old ← Tx.query fun db => ofOperation db account run operation
  match old with
  | some (id, row) => do
    Tx.check (row.contentHash = digest) (.snapshotConflict "snapshot operation replay changed semantic request")
    pure id
  | none => do
    let taken ← Tx.query fun db => db.snapshots.lookup fresh
    Tx.check (taken = none) .integrityError
    Tx.update fun db =>
      { db with snapshots := db.snapshots.insert fresh
                  ⟨account, run, operation, digest, caller.fence.map Fence.executionId, entitlementVersion⟩ }
    pure fresh

/-- The Execution a snapshot counts for: its own, or the root of its Run. -/
def executionOf (a : Authority) (snapshot : Snapshot) : Except Error Uuid :=
  match snapshot.executionId with
  | some e => .ok e
  | none =>
    match a.rootExecution snapshot.runId with
    | some e => .ok e
    | none => .error .typeError

/-- The snapshot is in the Execution context of the caller. -/
def inContext (account : Uuid) (snapshot : Snapshot) (execution : Uuid) : Option Fence → Bool
  | none => true
  | some f => f.accountId = account && f.runId = snapshot.runId && f.executionId = execution

/-- The checks of `mark_dispatched` that come before the reservation is read. -/
def authorizeDispatch (a : Authority) (caller : Caller) (account id : Uuid) (snapshot : Snapshot) :
    Except Error Unit := do
  let _ ← a.requireActiveRun account snapshot.runId
  let execution ← executionOf a snapshot
  if inContext account snapshot execution caller.fence then
    a.checkExecution account snapshot.runId snapshot.executionId
    if a.snapshotRevoked id then .error .memoryContextRevoked
    else
      match ← a.entitlementOf account none caller.now with
      | (.valid, some e) =>
        if e.version = snapshot.entitlementVersion then .ok ()
        else .error (.accountModelEntitlementUnavailable "model entitlement changed before dispatch")
      | _ => .error (.accountModelEntitlementUnavailable "model entitlement changed before dispatch")
  else .error (.staleFencingToken "snapshot is outside the Execution context")

/-- `INSERT INTO model_dispatches … ON CONFLICT DO NOTHING RETURNING snapshot_id`. -/
def insertDispatch (account snapshot : Uuid) : BudgetTx Bool := do
  let marked ← Tx.query fun db => Coordinator.dispatched db account snapshot
  if marked then pure false
  else do
    Tx.update fun db => { db with dispatches := db.dispatches.insert (account, snapshot) () }
    pure true

/-- `mark_dispatched`. -/
def markDispatched (caller : Caller) (account id : Uuid) : BudgetTx Unit := do
  let a ← Tx.query Ledgers.authority
  Tx.ofExcept (a.accountEpoch account)
  Tx.ofExcept (a.assertExecutionFence caller.now caller.fence)
  let found ← Tx.query fun db => (db.snapshots.lookup id).filter fun s => s.accountId = account
  let snapshot ← Tx.demand found (.lookupError "snapshot missing")
  Tx.ofExcept (authorizeDispatch a caller account id snapshot)
  let (_, ledger) ← AccountBudget.lockedLedger account snapshot.operationId none
  Tx.check (ledger.state = .reserved)
    (.accountDailyBudgetConflict "model dispatch requires its original reservation")
  let inserted ← insertDispatch account id
  Tx.check (inserted = true)
    (.accountDailyBudgetConflict "model request already dispatched; recover its original Operation")

/-! ### What they did -/

section specs

variable {db db' : Ledgers} {account run : Uuid} {operation : String}

theorem ofOperation_some {id : Uuid} {row : Snapshot} (h : ofOperation db account run operation = some (id, row)) :
    db.snapshots.lookup id = some row ∧ row.accountId = account ∧ row.runId = run ∧
      row.operationId = operation := by
  unfold ofOperation at h
  obtain ⟨e, hfind, hpair⟩ := Option.map_eq_some_iff.mp h
  obtain ⟨rfl, rfl⟩ := Prod.mk.inj hpair
  have hmem := List.mem_of_find?_eq_some hfind
  have hkey := List.find?_some hfind
  simp only [Bool.and_eq_true, decide_eq_true_eq] at hkey
  exact ⟨AList.mem_lookup_iff.mpr hmem, hkey.1.1, hkey.1.2, hkey.2⟩

theorem ofOperation_none (h : ofOperation db account run operation = none) {id : Uuid} {row : Snapshot}
    (hrow : db.snapshots.lookup id = some row) :
    ¬(row.accountId = account ∧ row.runId = run ∧ row.operationId = operation) := by
  unfold ofOperation at h
  rw [Option.map_eq_none_iff] at h
  have hne := List.find?_eq_none.mp h ⟨id, row⟩ (AList.mem_lookup_iff.mp hrow)
  simpa only [Bool.and_eq_true, decide_eq_true_eq, and_assoc] using hne

/-- **What a freeze did.** -/
theorem freeze_ok {caller : Caller} {fresh id : Uuid} {digest version : ℕ}
    (h : (freeze caller fresh account run operation digest version).run db = .ok (id, db')) :
    (db.authority.ownedRun account run).isSome ∧
      ((db' = db ∧ ∃ row, ofOperation db account run operation = some (id, row)) ∨
        (id = fresh ∧ ofOperation db account run operation = none ∧ db.snapshots.lookup fresh = none ∧
          db' =
            { db with
              snapshots := db.snapshots.insert fresh
                ⟨account, run, operation, digest, caller.fence.map Fence.executionId, version⟩ })) := by
  unfold freeze at h
  rw [Tx.bind_query_ok, Tx.bind_check_ok] at h
  obtain ⟨howns, h⟩ := h
  rw [Tx.bind_query_ok, Tx.bind_ofExcept_ok] at h
  obtain ⟨_, _, h⟩ := h
  rw [Tx.bind_query_ok] at h
  refine ⟨howns, ?_⟩
  cases hold : ofOperation db account run operation with
  | some p =>
      obtain ⟨old, row⟩ := p
      rw [hold] at h
      dsimp only at h
      rw [Tx.bind_check_ok] at h
      obtain ⟨rfl, rfl⟩ := Tx.pure_ok.mp h.2
      exact .inl ⟨rfl, row, rfl⟩
  | none =>
      rw [hold] at h
      dsimp only at h
      rw [Tx.bind_query_ok, Tx.bind_check_ok] at h
      obtain ⟨hfresh, h⟩ := h
      rw [Tx.bind_update_ok] at h
      obtain ⟨rfl, rfl⟩ := Tx.pure_ok.mp h
      exact .inr ⟨rfl, rfl, hfresh, rfl⟩

/-- **What a dispatch marker says.** -/
theorem markDispatched_ok {caller : Caller} {id : Uuid} {u : Unit}
    (h : (markDispatched caller account id).run db = .ok (u, db')) :
    ∃ snapshot day row, db.snapshots.lookup id = some snapshot ∧ snapshot.accountId = account ∧
      db.accountUsage.lookup ⟨account, day, snapshot.operationId⟩ = some row ∧ row.state = .reserved ∧
      Coordinator.dispatched db account id = false ∧
      (db.authority.requireActiveRun account snapshot.runId).isOk = true ∧
      db' = { db with dispatches := db.dispatches.insert (account, id) () } := by
  unfold markDispatched at h
  rw [Tx.bind_query_ok, Tx.bind_ofExcept_ok] at h
  obtain ⟨_, _, h⟩ := h
  rw [Tx.bind_ofExcept_ok] at h
  obtain ⟨_, _, h⟩ := h
  rw [Tx.bind_query_ok, Tx.bind_demand_ok] at h
  obtain ⟨snapshot, hfound, h⟩ := h
  obtain ⟨hsnap, haccount⟩ := Option.filter_eq_some_iff.mp hfound
  rw [Tx.bind_ofExcept_ok] at h
  obtain ⟨_, hauth, h⟩ := h
  have hactive : (db.authority.requireActiveRun account snapshot.runId).isOk = true := by
    unfold authorizeDispatch at hauth
    cases hr : db.authority.requireActiveRun account snapshot.runId with
    | ok r => rfl
    | error e => rw [hr] at hauth; cases hauth
  rw [Tx.bind_ok] at h
  obtain ⟨⟨day, row⟩, s, hlock, h⟩ := h
  obtain ⟨rfl, _, hrow, _⟩ := AccountBudget.lockedLedger_ok hlock
  dsimp only at h
  rw [Tx.bind_check_ok, Tx.bind_ok] at h
  obtain ⟨hstate, inserted, s, hins, h⟩ := h
  obtain ⟨rfl, rfl⟩ := Tx.check_ok.mp h
  unfold insertDispatch at hins
  rw [Tx.bind_query_ok] at hins
  split at hins
  · have := (Tx.pure_ok.mp hins).1
    cases this
  · next hmark =>
      rw [Tx.bind_update_ok] at hins
      obtain ⟨_, rfl⟩ := Tx.pure_ok.mp hins
      exact ⟨snapshot, day, row, hsnap, by simpa using haccount, hrow, hstate, by simpa using hmark, hactive, rfl⟩

end specs

end Snapshots

end HpAgent.Budget
