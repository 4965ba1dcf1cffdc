import HpAgent.Budget.RunOutcomes
import HpAgent.Budget.AccountBudget

/-! # The model budget coordinator

`ModelBudgetCoordinator` runs the account mutation and the Run mutation (which meters the Work) of one
model call in a single transaction: reserve, settle, release, and the recovery of the holds a terminal
Run left behind. -/

namespace HpAgent.Budget

open Library

namespace Coordinator

/-- `_require_matching_total`. -/
def requireMatchingTotal (total : Raw) (values : List (String × Raw)) : Except Error Unit :=
  if (values.lookup "model_total_tokens").bind Raw.comparable = total.comparable then .ok ()
  else .error (.valueError "Account tokens must equal the Run model_total_tokens dimension")

/-- The quota dates on which the account has a row for the operation and snapshot. -/
def priorDates (db : Ledgers) (account : Uuid) (operation : String) (snapshot : Uuid) : List Date :=
  (db.accountUsage.entries.filter fun e => e.1.accountId = account ∧ e.1.operationId = operation ∧
    e.2.snapshotId = some snapshot).map fun e => e.1.quotaDate

/-- The day an earlier reservation of the snapshot was made on. -/
def priorDay (account : Uuid) (operation : String) : Option Uuid → BudgetTx (Option Date)
  | none => pure none
  | some snapshot => do
    let prior ← Tx.query fun db => priorDates db account operation snapshot
    match prior with
    | [] => pure none
    | [day] => pure (some day)
    | _ => Tx.raise (.accountDailyBudgetConflict "snapshot reservation has multiple quota dates")

/-- `reserve`. -/
def reserve (caller : Caller) (account run : Uuid) (operation : String) (total : Raw)
    (values : List (String × Raw)) (finalResponse : Bool) (o : AccountBudget.Options) :
    BudgetTx (AccountMutation × Mutation) := do
  Tx.ofExcept (requireMatchingTotal total values)
  let known ← Tx.query fun db => (db.runBudgets.lookup run).isSome && (db.authority.ownedRun account run).isSome
  Tx.check (known = true) (.runBudgetError "Run budget snapshot not found")
  let authorized ← Tx.query fun db => db.authority.requireActiveRun account run
  let _ ← Tx.ofExcept authorized
  let day ← priorDay account operation o.snapshotId
  let a ← AccountBudget.reserveInUow account operation total { o with quotaDate := day } caller.now
  let r ← RunBudget.reserveInUow caller run operation values finalResponse false false
  match r with
  | .inl m => pure (a, m)
  | .inr e => Tx.raise e

/-- The snapshot has a dispatch marker. -/
def dispatched (db : Ledgers) (account snapshot : Uuid) : Bool := (db.dispatches.lookup (account, snapshot)).isSome

/-- Some snapshot of the Run's operation has a dispatch marker. -/
def dispatchedOperation (db : Ledgers) (account run : Uuid) (operation : String) : Bool :=
  db.snapshots.entries.any fun e => e.2.accountId = account && e.2.runId = run && e.2.operationId = operation &&
    dispatched db account e.1

section closing

variable (clamp : ℤ → ℤ)

/-- `settle`. -/
def settle (account run : Uuid) (operation : String) (total : Raw) (values : List (String × Raw))
    (usageSource : String) (date : Option Date) : BudgetTx (AccountMutation × Mutation) := do
  Tx.ofExcept (requireMatchingTotal total values)
  let a ← AccountBudget.settleInUow account operation total usageSource date
  let r ← RunBudget.settleInUow clamp run operation values usageSource
  pure (a, r)

/-- `release`. -/
def release (account run : Uuid) (operation : String) (date : Option Date) :
    BudgetTx (AccountMutation × Mutation) := do
  let _ ← AccountBudget.lockedLedger account operation date
  let sent ← Tx.query fun db => dispatchedOperation db account run operation
  Tx.check (sent = false) (.accountDailyBudgetConflict "a dispatched model reservation cannot be released")
  let a ← AccountBudget.releaseInUow account operation date
  let r ← RunBudget.releaseInUow clamp run operation
  pure (a, r)

/-- A reserved account row joined with its snapshot. -/
structure OpenHold where
  operationId : String
  quotaDate : Date
  reservedTokens : ℕ
  dispatched : Bool
deriving DecidableEq, Repr

/-- The row belongs to a snapshot of this Run. -/
def ofRun (db : Ledgers) (account run : Uuid) (row : AccountUsage) : Bool :=
  row.snapshotId.any fun s => (db.snapshots.lookup s).any fun snapshot =>
    snapshot.accountId = account && snapshot.runId = run

/-- The account rows of a Run's snapshots that are still reserved. -/
def openHolds (db : Ledgers) (account run : Uuid) : List OpenHold :=
  (db.accountUsage.entries.filter fun e => e.1.accountId = account && e.2.state = .reserved &&
    ofRun db account run e.2).map fun e =>
      ⟨e.1.operationId, e.1.quotaDate, e.2.reservedTokens, e.2.snapshotId.any (dispatched db account)⟩

/-- One iteration of the recovery loop: a hold that may have been sent is settled at its bounded estimate,
any other is released. -/
def recoverStep (account run : Uuid) (_ : Unit) (hold : OpenHold) : BudgetTx Unit := do
  let (_, ledger) ← AccountBudget.lockedLedger account hold.operationId (some hold.quotaDate)
  if ledger.state = .reserved then
    if hold.dispatched then do
      let amounts ← Tx.query fun db => RunBudget.reservedAmounts (RunBudget.rows db run hold.operationId)
      Tx.ofExcept (requireMatchingTotal (.int hold.reservedTokens) (rawItems amounts))
      let _ ← AccountBudget.settleInUow account hold.operationId (.int hold.reservedTokens) "estimated"
        (some hold.quotaDate)
      let _ ← RunBudget.settleInUow clamp run hold.operationId (rawItems amounts) "estimated"
      pure ()
    else do
      let _ ← AccountBudget.releaseInUow account hold.operationId (some hold.quotaDate)
      let _ ← RunBudget.releaseInUow clamp run hold.operationId
      pure ()
  else pure ()

/-- `recover_terminal_in_uow`, on the row of the Run the caller holds. -/
def recoverTerminalInUow (run : Uuid) : BudgetTx Unit := do
  let found ← Tx.query fun db => db.authority.runs run
  let r ← Tx.demand (found.filter fun r => r.status.terminal)
    (.valueError "model hold recovery requires a terminal Run")
  let holds ← Tx.query fun db => openHolds db r.accountId run
  holds.foldlM (recoverStep clamp r.accountId run) ()

end closing

end Coordinator

end HpAgent.Budget
