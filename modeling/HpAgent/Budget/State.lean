import HpAgent.Budget.Amounts
import HpAgent.Library.Ledger

/-! # The budget tables

The rows of the three budget ledgers and the store `Ledgers` the budget services run on, with the
statements they share.

* `run_budgets` / `run_usage_ledger`: one budget per Run, one row per operation and dimension;
* `work_budgets` / `work_usage_ledger`: one budget per Work, over the rows of all its Runs;
* `account_daily_model_budgets` / `account_model_usage_ledger`: one budget per account and UTC day, one
  row per operation.

`Conserved` states that the counters of every budget are the sums of its ledger rows. -/

namespace HpAgent.Budget

open Library

/-! ### Rows -/

/-- The states of a ledger row. -/
abbrev UsageState := HoldState

namespace UsageState

def name : UsageState → String
  | .reserved => "reserved"
  | .settled => "settled"
  | .released => "released"

end UsageState

/-- `run_budgets.mode`. -/
inductive BudgetMode where
  | off | observe | enforce
deriving DecidableEq, Repr

/-- `run_budgets.status`. -/
inductive BudgetStatus where
  | ok | exhausted | closed
deriving DecidableEq, Repr

structure RunBudget where
  mode : BudgetMode
  status : BudgetStatus
  limits : Dict ℤ
  used : Dict ℤ
  reserved : Dict ℤ
  finalResponseReserveTokens : ℕ

structure RunUsageKey where
  runId : Uuid
  operationId : String
  dimension : Dimension
deriving DecidableEq, Repr

structure RunUsage where
  state : UsageState
  reservedAmount : ℕ
  actualAmount : Option ℕ
  usageSource : Option UsageSource
  executionId : Option Uuid
deriving DecidableEq, Repr

/-- The row after its hold is settled. -/
def RunUsage.settled (actual : Option ℕ) (source : UsageSource) (r : RunUsage) : RunUsage :=
  { r with state := .settled, actualAmount := actual, usageSource := some source }

/-- The row after its hold is released. -/
def RunUsage.released (r : RunUsage) : RunUsage := { r with state := .released }

structure WorkBudget where
  limits : Dict ℤ
  used : Dict ℤ
  reserved : Dict ℤ
  version : ℕ

structure WorkUsageKey where
  accountId : Uuid
  workId : Uuid
  runId : Uuid
  operationId : String
  dimension : Dimension
deriving DecidableEq, Repr

structure WorkUsage where
  state : UsageState
  reservedAmount : ℕ
  actualAmount : Option ℕ
  usageSource : Option UsageSource
deriving DecidableEq, Repr

/-- The row after its hold is closed. -/
def WorkUsage.closed (state : UsageState) (actual : Option ℕ) (source : Option UsageSource) (r : WorkUsage) :
    WorkUsage :=
  { r with state := state, actualAmount := actual, usageSource := source }

structure DailyBudget where
  usedTokens : ℤ
  reservedTokens : ℤ
deriving DecidableEq, Repr

structure AccountUsageKey where
  accountId : Uuid
  quotaDate : Date
  operationId : String
deriving DecidableEq, Repr

structure AccountUsage where
  snapshotId : Option Uuid
  state : UsageState
  reservedTokens : ℕ
  actualTokens : Option ℕ
  usageSource : Option UsageSource
deriving DecidableEq, Repr

/-- The columns of `model_input_snapshots` that are compared; the request body is known by its
`content_hash`. -/
structure Snapshot where
  accountId : Uuid
  runId : Uuid
  operationId : String
  contentHash : ℕ
  executionId : Option Uuid
  entitlementVersion : ℕ
deriving DecidableEq, Repr

/-- The columns of `capability_invocations` the usage trigger reads, by child Execution. -/
structure Invocation where
  runId : Uuid
  maxModelCalls : Option ℕ
  maxToolCalls : Option ℕ
deriving DecidableEq, Repr

/-- The store of the budget services. -/
structure Ledgers where
  authority : Authority
  invocations : Uuid → Option Invocation
  snapshots : Table Uuid Snapshot
  dispatches : Table (Uuid × Uuid) Unit
  runBudgets : Table Uuid RunBudget
  runUsage : Table RunUsageKey RunUsage
  workBudgets : Table (Uuid × Uuid) WorkBudget
  workUsage : Table WorkUsageKey WorkUsage
  dailyBudgets : Table (Uuid × Date) DailyBudget
  accountUsage : Table AccountUsageKey AccountUsage

/-- Budget commands. -/
abbrev BudgetTx := Tx Error Ledgers

/-- The largest value of a `bigint` column. -/
def bigintMax : ℕ := 9223372036854775807

/-- The check on an `operation_id` argument. -/
def checkOperation (operation : String) : BudgetTx Unit :=
  Tx.check (operation ≠ "" ∧ operation.length ≤ 200)
    (.valueError "operation_id must contain 1 to 200 characters")

/-! ### The ledgers as hold ledgers -/

def RunUsage.hold (r : RunUsage) : Hold := ⟨r.state, r.reservedAmount, r.actualAmount.getD 0⟩

def WorkUsage.hold (r : WorkUsage) : Hold := ⟨r.state, r.reservedAmount, r.actualAmount.getD 0⟩

def AccountUsage.hold (r : AccountUsage) : Hold := ⟨r.state, r.reservedTokens, r.actualTokens.getD 0⟩

/-- The budget cell a Run ledger row counts in. -/
def RunUsageKey.cell (k : RunUsageKey) : Uuid × Dimension := (k.runId, k.dimension)

/-- The budget cell a Work ledger row counts in: the Run is forgotten. -/
def WorkUsageKey.cell (k : WorkUsageKey) : (Uuid × Uuid) × Dimension := ((k.accountId, k.workId), k.dimension)

/-- The budget an account ledger row counts in. -/
def AccountUsageKey.cell (k : AccountUsageKey) : Uuid × Date := (k.accountId, k.quotaDate)

namespace Ledgers

variable (db : Ledgers)

def runReserved (c : Uuid × Dimension) : ℤ := (db.runBudgets.lookup c.1).elim 0 fun b => b.reserved.get c.2

def runUsed (c : Uuid × Dimension) : ℤ := (db.runBudgets.lookup c.1).elim 0 fun b => b.used.get c.2

def workReserved (c : (Uuid × Uuid) × Dimension) : ℤ :=
  (db.workBudgets.lookup c.1).elim 0 fun b => b.reserved.get c.2

def workUsed (c : (Uuid × Uuid) × Dimension) : ℤ :=
  (db.workBudgets.lookup c.1).elim 0 fun b => b.used.get c.2

def dailyReserved (c : Uuid × Date) : ℤ := (db.dailyBudgets.lookup c).elim 0 DailyBudget.reservedTokens

def dailyUsed (c : Uuid × Date) : ℤ := (db.dailyBudgets.lookup c).elim 0 DailyBudget.usedTokens

end Ledgers

/-- The Run budget counters are the sums of the Run's ledger rows. -/
def RunConserved (db : Ledgers) : Prop :=
  Ledger.Balanced RunUsageKey.cell RunUsage.hold db.runUsage db.runReserved db.runUsed

/-- The Work budget counters are the sums of the ledger rows of all Runs of the Work. -/
def WorkConserved (db : Ledgers) : Prop :=
  Ledger.Balanced WorkUsageKey.cell WorkUsage.hold db.workUsage db.workReserved db.workUsed

/-- The account/day counters are the sums of that day's ledger rows. -/
def AccountConserved (db : Ledgers) : Prop :=
  Ledger.Balanced AccountUsageKey.cell AccountUsage.hold db.accountUsage db.dailyReserved db.dailyUsed

/-- **Budget ledger conservation.** -/
structure Conserved (db : Ledgers) : Prop where
  run : RunConserved db
  work : WorkConserved db
  account : AccountConserved db

end HpAgent.Budget
