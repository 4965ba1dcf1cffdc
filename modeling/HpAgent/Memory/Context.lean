import HpAgent.Domain.Authority
import HpAgent.Library.Table
import HpAgent.Library.Transaction
import Mathlib.Data.List.Sort

/-! # Memory contexts

An Execution carries the scopes of the memory it has seen and the epoch of its account it was last checked at
(`Manifest`).  A revocation advances the epoch by one and records the scopes it affects; a check compares the manifest
with the revocations since, and refuses it when one of them meets its scopes.

* `recordRevocation`, `command`, `reconcileScope`: the transactions that revoke.
* `checkManifest`, `checkExecution`, `bindContext`: the checks, which advance the epoch of a manifest that passes.
* `insertSnapshot`, `markDispatched`: a model input keeps the manifest of its Execution, and is checked again before it
  is dispatched.

Every transaction locks the account row first, so transactions of one account do not overlap. -/

namespace HpAgent.Memory

open Library

/-! ### Rows -/

/-- The tags of a memory scope. -/
abbrev Scope := List String

/-- `affected_scopes`: the whole account, or some scopes. -/
inductive Affected where
  | account
  | scopes (scopes : List Scope)
deriving DecidableEq, Repr

/-- `memory_context`; unknown scopes are `none`. -/
structure Manifest where
  epoch : ℕ
  scopes : Option (List Scope)
  documents : List String
deriving DecidableEq, Repr

/-- The columns of `memory_actions` that revocations use. -/
structure MemoryAction where
  accountId : Uuid
  invalidationEpoch : Option ℕ
  affectedScopes : Option Affected
deriving DecidableEq, Repr

/-- `run_executions`; `executable` says that the status is queued or running. -/
structure ExecutionRow where
  accountId : Uuid
  runId : Uuid
  root : Bool
  executable : Bool
  memoryContext : Option Manifest
deriving DecidableEq, Repr

/-- `model_input_snapshots`. -/
structure Snapshot where
  accountId : Uuid
  runId : Uuid
  operationId : String
  executionId : Option Uuid
  contentHash : String
  memoryContext : Option Manifest
deriving DecidableEq, Repr

/-- `memory_epoch` of the accounts, the accounts of the Runs, and the rows. -/
structure ContextStore where
  epochs : Uuid → Option ℕ
  runs : Uuid → Option Uuid
  actions : Table Uuid MemoryAction
  executions : Table Uuid ExecutionRow
  snapshots : Table Uuid Snapshot
  dispatches : Table (Uuid × Uuid) Unit

abbrev ContextTx := Tx Error ContextStore

/-! ### Checks -/

/-- `account_epoch`. -/
def accountEpoch (account : Uuid) : ContextTx ℕ := do
  let epoch ← Tx.query fun db => db.epochs account
  Tx.demand epoch .resourceNotFound

/-- `intersects`. -/
def intersects (scopes : Option (List Scope)) (affected : Option Affected) : Bool :=
  match scopes, affected with
  | none, _ | _, none | _, some .account => true
  | some own, some (.scopes hit) => own.any fun scope => hit.contains scope

/-- The revocations of the account after the epoch, in their order. -/
def revocationsAfter (db : ContextStore) (account : Uuid) (checked : ℕ) : List (ℕ × Option Affected) :=
  (db.actions.entries.filterMap fun e =>
    if e.2.accountId = account then
      (e.2.invalidationEpoch.filter fun k => checked < k).map fun k => (k, e.2.affectedScopes)
    else none).mergeSort fun a b => a.1 ≤ b.1

/-- `check_manifest`, at the epoch of the account. -/
def checkManifest (db : ContextStore) (account : Uuid) (manifest : Option Manifest) (epoch : ℕ) :
    Except Error (Option Manifest) :=
  match manifest with
  | none => if epoch ≠ 0 then .error .memoryContextRevoked else .ok none
  | some m =>
      if epoch < m.epoch then .error .memoryContextRevoked
      else if m.scopes = some [] then .ok (some { m with epoch := epoch })
      else
        let rows := revocationsAfter db account m.epoch
        if rows.length ≠ epoch - m.epoch ∨ rows.zipIdx.any (fun r => r.1.1 ≠ m.epoch + r.2 + 1) = true then
          .error .memoryContextRevoked
        else if rows.any (fun r => intersects m.scopes r.2) = true then .error .memoryContextRevoked
        else .ok (some { m with epoch := epoch })

/-- The Execution that is asked for, or the root of the Run. -/
def findExecution (db : ContextStore) (account run : Uuid) (execution : Option Uuid) : Option (Uuid × ExecutionRow) :=
  match execution with
  | some id => ((db.executions.lookup id).filter fun x => x.accountId = account ∧ x.runId = run).map (id, ·)
  | none => (db.executions.entries.find? fun e => e.2.accountId = account && e.2.runId = run && e.2.root).map
      fun e => (e.1, e.2)

/-- Write the memory context of an Execution. -/
def setContext (id : Uuid) (manifest : Option Manifest) (db : ContextStore) : ContextStore :=
  { db with executions := Table.modify id (fun x => { x with memoryContext := manifest }) db.executions }

/-- `check_execution`. -/
def checkExecution (account run : Uuid) (execution : Option Uuid) (advance : Bool) : ContextTx (Option Manifest) := do
  let epoch ← accountEpoch account
  let found ← Tx.query fun db => findExecution db account run execution
  match found with
  | none => pure none
  | some (id, x) => do
      let passed ← Tx.query fun db => checkManifest db account x.memoryContext epoch
      let manifest ← Tx.ofExcept passed
      if advance = true ∧ manifest ≠ x.memoryContext ∧ x.executable = true then Tx.update (setContext id manifest)
      else pure ()
      pure manifest

/-- `bind_context`. -/
def bindContext (account execution : Uuid) (scopes : Option (List Scope)) (documents : List String) (epoch : ℕ) :
    ContextTx Unit := do
  let manifest : Manifest := ⟨epoch, scopes, documents.mergeSort fun a b => a ≤ b⟩
  let current ← accountEpoch account
  let passed ← Tx.query fun db => checkManifest db account (some manifest) current
  let _ ← Tx.ofExcept passed
  Tx.update fun db =>
    if (db.executions.lookup execution).any (fun x => x.accountId = account) then setContext execution (some manifest) db
    else db

/-! ### Revocations -/

/-- A row of `memory_actions` under a new key. -/
def insertAction (id : Uuid) (a : MemoryAction) : ContextTx Unit := do
  let taken ← Tx.query fun db => (db.actions.lookup id).isSome
  Tx.check (taken = false) .integrityError
  Tx.update fun db => { db with actions := db.actions.insert id a }

/-- `UPDATE accounts SET memory_epoch`. -/
def setEpoch (account : Uuid) (epoch : ℕ) (db : ContextStore) : ContextStore :=
  { db with epochs := Function.update db.epochs account (some epoch) }

/-- `record_revocation` for a source in the given state. -/
def recordRevocation (id account : Uuid) (forgotten : Bool) (affected : Affected) : ContextTx Unit :=
  if forgotten then pure ()
  else do
    let epoch ← accountEpoch account
    Tx.update (setEpoch account (epoch + 1))
    insertAction id ⟨account, some (epoch + 1), some affected⟩

/-- `invalidate`. -/
def invalidate (account id : Uuid) (affected : Affected) : ContextTx Unit := do
  let found ← Tx.query fun db => db.epochs account
  let epoch ← Tx.demand found .typeError
  Tx.update (setEpoch account (epoch + 1))
  Tx.update fun db => { db with
    actions := db.actions.updateWhere (fun k a => k = id && a.accountId = account)
      fun a => { a with invalidationEpoch := some (epoch + 1), affectedScopes := some affected } }

/-- `MemoryGovernanceService.command`: the action of the source, those of its descendants, and the invalidation that
every kind but a restore makes. -/
def command (account id : Uuid) (scope : Scope) (children : List (Uuid × Scope)) (invalidation : Option Affected) :
    ContextTx Unit := do
  let _ ← accountEpoch account
  insertAction id ⟨account, none, some (.scopes [scope])⟩
  children.forM fun c => insertAction c.1 ⟨account, none, some (.scopes [c.2])⟩
  match invalidation with
  | none => pure ()
  | some affected => invalidate account id affected

/-- `MemoryGovernanceService.reconcile_scope`. -/
def reconcileScope (account id : Uuid) (affected : Affected) : ContextTx Unit := do
  let _ ← accountEpoch account
  insertAction id ⟨account, none, none⟩
  invalidate account id affected

/-! ### Executions and model inputs -/

/-- The default of `run_executions.memory_context`. -/
def emptyManifest : Manifest := ⟨0, some [], []⟩

/-- A new Execution; `inherit_memory_context` copies the manifest of its parent. -/
def createExecution (id account run : Uuid) (root : Bool) (parent : Option Uuid) : ContextTx Unit := do
  let taken ← Tx.query fun db => (db.executions.lookup id).isSome
  Tx.check (taken = false) .integrityError
  Tx.update fun db => { db with
    executions := db.executions.insert id ⟨account, run, root, true,
      match parent with
      | none => some emptyManifest
      | some p => ((db.executions.lookup p).filter fun x => x.accountId = account).bind ExecutionRow.memoryContext⟩ }

/-- `SnapshotRepository._insert`; `execution` is that of the caller's fence. -/
def insertSnapshot (id account run : Uuid) (operation : String) (execution : Option Uuid) (contentHash : String) :
    ContextTx Uuid := do
  let owner ← Tx.query fun db => db.runs run
  Tx.check (owner = some account) (.lookupError "Run does not belong to model-call Account")
  let manifest ← checkExecution account run execution true
  let prior ← Tx.query fun db => db.snapshots.entries.find? fun e =>
    e.2.accountId = account && e.2.runId = run && e.2.operationId = operation
  match prior with
  | some e => do
      Tx.check (e.2.contentHash = contentHash) (.snapshotConflict "snapshot operation replay changed semantic request")
      pure e.1
  | none => do
      let taken ← Tx.query fun db => (db.snapshots.lookup id).isSome
      Tx.check (taken = false) .integrityError
      Tx.update fun db => { db with
        snapshots := db.snapshots.insert id ⟨account, run, operation, execution, contentHash, manifest⟩ }
      pure id

/-- `assert_execution_fence` as far as memory goes; `others` is the verdict of its other checks. -/
def assertFence (account : Uuid) (fence : Option (Uuid × Uuid)) (others : Except Error Unit) : ContextTx Unit :=
  match fence with
  | none => pure ()
  | some (run, execution) => do
      let _ ← checkExecution account run (some execution) true
      Tx.ofExcept others

/-- `mark_dispatched`; `fenced` and `admitted` are the verdicts of the checks of other subsystems: the fence, and the
Run, the entitlement and the reservation. -/
def markDispatched (account id : Uuid) (fence : Option (Uuid × Uuid)) (fenced admitted : Except Error Unit) : ContextTx Unit := do
  let _ ← accountEpoch account
  assertFence account fence fenced
  let found ← Tx.query fun db => (db.snapshots.lookup id).filter fun s => s.accountId = account
  let s ← Tx.demand found (.lookupError "snapshot missing")
  let root ← Tx.query fun db => findExecution db account s.runId none
  let execution ← Tx.demand (s.executionId.orElse fun _ => root.map Prod.fst) .typeError
  Tx.check (∀ f ∈ fence, f = (s.runId, execution)) (.staleFencingToken "snapshot is outside the Execution context")
  let _ ← checkExecution account s.runId s.executionId true
  let epoch ← accountEpoch account
  let passed ← Tx.query fun db => checkManifest db account s.memoryContext epoch
  let _ ← Tx.ofExcept passed
  Tx.ofExcept admitted
  let dispatched ← Tx.query fun db => (db.dispatches.lookup (account, id)).isSome
  Tx.check (dispatched = false) (.accountDailyBudgetConflict "model request already dispatched; recover its original Operation")
  Tx.update fun db => { db with dispatches := db.dispatches.insert (account, id) () }

end HpAgent.Memory
