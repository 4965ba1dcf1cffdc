import Mathlib.Data.Nat.Notation
import Mathlib.Data.Int.Notation

/-! # Identifiers, rows and the authority checks

The rows every subsystem reads before it may write: accounts, Runs, Works, Executions and their
attempt leases (`Authority`), with the checks the code makes on them.

* `requireActiveRun`: the Run exists, its account is active, a Work Run still owns its Work, and the
  Run is queued or running.
* `assertExecutionFence`: the caller's execution identity still holds a live lease under its fencing
  token.
* `entitlementOf`: the account's model-access entitlement at an instant.

The checks only read, so they are plain functions into `Except Error`.  Identifiers are compared and
never computed with; an instant is a number of microseconds since the epoch and a calendar date the
number of its UTC day. -/

namespace HpAgent

/-- Identifiers (`uuid` columns). -/
abbrev Uuid := ℕ

/-- A point in time (`timestamptz`), in microseconds since the epoch. -/
abbrev Instant := ℤ

/-- A calendar date, as the number of its UTC day. -/
abbrev Date := ℤ

/-- A `datetime` argument; only an aware one denotes an instant. -/
structure DateTime where
  instant : Instant
  aware : Bool
deriving DecidableEq, Repr

/-- Microseconds in a day. -/
def microsPerDay : ℤ := 86400000000

/-- The UTC day an instant falls on. -/
def Instant.utcDate (t : Instant) : Date := t / microsPerDay

/-- The exceptions the modelled code raises, with the texts it raises them with. -/
inductive Error where
  | valueError (message : String)
  | typeError
  | runtimeError (message : String)
  | resourceNotFound
  | conversationBusy
  | runNotExecutable (message : String)
  | staleFencingToken (message : String)
  | memoryContextRevoked
  | runBudgetError (message : String)
  | runBudgetExhausted (message : String)
  | workBudgetExhausted (message : String)
  | capabilityBudgetExhausted (message : String)
  | runBudgetConflict (message : String)
  | accountModelEntitlementUnavailable (message : String)
  | modelAccessTierDenied (message : String)
  | accountDailyBudgetExhausted (message : String)
  | accountDailyBudgetConflict (message : String)
  | lookupError (message : String)
  | snapshotConflict (message : String)
  | leaseConflict (message : String)
  | segmentClosed (message : String)
  | operationUncertain (message : String)
  | transcriptVersionConflict (message : String)
  | applicationError (kind : String)
  | capacityUnavailable (message : String)
  /-- `RAISE EXCEPTION` in a trigger. -/
  | raiseException (message : String)
  /-- A unique, foreign key or check constraint rejected the row. -/
  | integrityError
  | numericValueOutOfRange
deriving DecidableEq, Repr

/-- The subclasses of `DomainError`. -/
def Error.isDomain : Error → Bool
  | .resourceNotFound | .conversationBusy => true
  | _ => false

/-! ### Rows -/

inductive RunStatus where
  | queued | running | cancelling | succeeded | failed | cancelled
deriving DecidableEq, Repr

/-- The statuses no Run leaves. -/
def RunStatus.terminal : RunStatus → Bool
  | .succeeded | .failed | .cancelled => true
  | _ => false

/-- The statuses in which a Run may execute. -/
def RunStatus.executable : RunStatus → Bool
  | .queued | .running => true
  | _ => false

/-- `source_kind` with the columns its owner-shape constraint requires. -/
inductive RunSource where
  | chat (conversationId : Uuid)
  | work (workId : Uuid) (requirementRevision workControlEpoch : ℕ)
deriving DecidableEq, Repr

structure Run where
  accountId : Uuid
  source : RunSource
  status : RunStatus
deriving DecidableEq, Repr

/-- The Work a Run belongs to (`work_id`). -/
def Run.workId (r : Run) : Option Uuid :=
  match r.source with
  | .chat _ => none
  | .work workId _ _ => some workId

inductive WorkStatus where
  | active | pausing | paused | stopping | stopped | completed
deriving DecidableEq, Repr

/-- The columns of `works` that decide who may act for a Work. -/
structure WorkAuthority where
  accountId : Uuid
  status : WorkStatus
  activeCoordinatorRunId : Option Uuid
  currentRequirementRevision : ℕ
  controlEpoch : ℕ
deriving DecidableEq, Repr

/-- `account_entitlements`. -/
structure Entitlement where
  modelAccessTier : String
  dailyTokenLimit : Option ℕ
  expiresAt : Option Instant
  version : ℕ
deriving DecidableEq, Repr

structure Account where
  active : Bool
  entitlement : Option Entitlement
deriving DecidableEq, Repr

/-- `run_executions`; `memoryRevoked` is the verdict of the memory-manifest check on the row. -/
structure Execution where
  accountId : Uuid
  runId : Uuid
  status : RunStatus
  memoryRevoked : Bool
deriving DecidableEq, Repr

/-- The columns of `execution_attempt_leases` the fence check reads. -/
structure FenceLease where
  accountId : Uuid
  runId : Uuid
  fencingToken : ℕ
  leaseExpiresAt : Instant
deriving DecidableEq, Repr

/-- The execution identity of the caller (`execution_fence`). -/
structure Fence where
  accountId : Uuid
  runId : Uuid
  executionId : Uuid
  token : ℕ
deriving DecidableEq, Repr

/-- The rows the authority checks read; `rootExecution` is the Execution of a Run with role `root`, and
`snapshotRevoked` the verdict of the memory-manifest check on a frozen model input. -/
structure Authority where
  accounts : Uuid → Option Account
  conversations : Uuid → Uuid → Bool
  runs : Uuid → Option Run
  works : Uuid → Option WorkAuthority
  executions : Uuid → Option Execution
  rootExecution : Uuid → Option Uuid
  leases : Uuid → Option FenceLease
  snapshotRevoked : Uuid → Bool

namespace Authority

variable (a : Authority)

/-! ### Checks -/

/-- The Run of this account, if there is one. -/
def ownedRun (account run : Uuid) : Option Run :=
  (a.runs run).filter fun r => r.accountId = account

/-- The Work of this account, if there is one. -/
def ownedWork (account work : Uuid) : Option WorkAuthority :=
  (a.works work).filter fun w => w.accountId = account

/-- `AccountRepository.require_active`. -/
def accountActive (account : Uuid) : Bool := (a.accounts account).any Account.active

/-- `RunLifecycleService.lock`: the Run with the Work or conversation that owns it. -/
def lock (account run : Uuid) : Except Error Run :=
  match a.accounts account, a.ownedRun account run with
  | some _, some r =>
    match r.source with
    | .work work _ _ => if (a.ownedWork account work).isSome then .ok r else .error .resourceNotFound
    | .chat conversation => if a.conversations account conversation then .ok r else .error .resourceNotFound
  | _, _ => .error .resourceNotFound

/-- The Work still names this Run as its coordinator, at the Run's revision and control epoch. -/
def ownsProgression (run : Uuid) (revision epoch : ℕ) (w : WorkAuthority) : Bool :=
  w.status = .active && w.activeCoordinatorRunId = some run && w.currentRequirementRevision = revision &&
    w.controlEpoch = epoch

/-- `RunLifecycleService.check_work`. -/
def checkWork (account run work : Uuid) (revision epoch : ℕ) : Except Error Unit :=
  if a.accountActive account then
    match a.ownedWork account work with
    | none => .error .resourceNotFound
    | some w => if ownsProgression run revision epoch w then .ok () else .error .conversationBusy
  else .error .resourceNotFound

/-- `require_active_run`. -/
def requireActiveRun (account run : Uuid) : Except Error Run :=
  let owned : Except Error Run := do
    let r ← a.lock account run
    if a.accountActive account then
      match r.source with
      | .work work revision epoch => a.checkWork account run work revision epoch
      | .chat _ => .ok ()
      if r.status.executable then .ok r else .error (.runNotExecutable "Run cannot execute")
    else .error (.runNotExecutable "Account is disabled")
  match owned with
  | .ok r => .ok r
  | .error e =>
    .error (if e.isDomain then .runNotExecutable "Run no longer owns progression" else e)

/-- The Execution of this Run that is named, or its root, with its identifier. -/
def executionOf (account run : Uuid) (execution : Option Uuid) : Option (Uuid × Execution) :=
  (execution.orElse fun _ => a.rootExecution run).bind fun id =>
    ((a.executions id).filter fun e => e.accountId = account ∧ e.runId = run).map (id, ·)

/-- `lock_execution`. -/
def lockExecution (account run : Uuid) (execution : Option Uuid) : Except Error (Uuid × Execution) :=
  match a.executionOf account run execution with
  | some e => .ok e
  | none => .error (.runNotExecutable "Execution does not belong to the Run and Account")

/-- The text of the fence's rejection. -/
def lateExecution : Error := .staleFencingToken "late execution cannot read or commit durable state"

/-- `account_epoch`: raises when there is no such account. -/
def accountEpoch (account : Uuid) : Except Error Unit :=
  if (a.accounts account).isSome then .ok () else .error .resourceNotFound

/-- `check_execution`: raises when the Execution's memory context has been revoked. -/
def checkExecution (account run : Uuid) (execution : Option Uuid) : Except Error Unit := do
  a.accountEpoch account
  if (a.executionOf account run execution).any fun e => e.2.memoryRevoked then .error .memoryContextRevoked
  else .ok ()

/-- `assert_execution_fence` under the caller's fence, at the instant `now`. -/
def assertExecutionFence (now : Instant) : Option Fence → Except Error Unit
  | none => .ok ()
  | some f =>
    let executable : Except Error Unit := do
      let _ ← a.requireActiveRun f.accountId f.runId
      a.checkExecution f.accountId f.runId (some f.executionId)
      let e ← a.lockExecution f.accountId f.runId (some f.executionId)
      if e.2.status.executable then .ok () else .error (.runNotExecutable "Execution is terminal or fenced")
    match executable with
    | .error (.runNotExecutable _) => .error lateExecution
    | .error e => .error e
    | .ok () =>
      if (a.leases f.executionId).any fun l => l.accountId = f.accountId ∧ l.runId = f.runId ∧
          l.fencingToken = f.token ∧ now < l.leaseExpiresAt then .ok ()
      else .error lateExecution

/-- `EntitlementState`. -/
inductive EntitlementState where
  | accountUnavailable | missing | expired | valid
deriving DecidableEq, Repr

/-- The value of the enumeration member. -/
def EntitlementState.value : EntitlementState → String
  | .accountUnavailable => "account_unavailable"
  | .missing => "missing"
  | .expired => "expired"
  | .valid => "valid"

/-- `EntitlementService.get_in_uow`; `at` is the caller's clock argument and `now` the wall clock. -/
def entitlementOf (account : Uuid) (at? : Option DateTime) (now : Instant) :
    Except Error (EntitlementState × Option Entitlement) :=
  match a.accounts account with
  | none => .ok (.accountUnavailable, none)
  | some acc =>
    if acc.active then
      match acc.entitlement with
      | none => .ok (.missing, none)
      | some e =>
        match e.expiresAt with
        | none => .ok (.valid, some e)
        | some expiry =>
          match at?.getD ⟨now, true⟩ with
          | ⟨instant, true⟩ => .ok (if expiry ≤ instant then .expired else .valid, some e)
          | ⟨_, false⟩ => .error .typeError
    else .ok (.accountUnavailable, none)

/-! ### What the checks found -/

section found

variable {a} {account run : Uuid} {now : Instant}

theorem checkWork_ok {work : Uuid} {revision epoch : ℕ} (h : a.checkWork account run work revision epoch = .ok ()) :
    a.accountActive account = true ∧ (a.works work).any (ownsProgression run revision epoch) = true := by
  unfold checkWork at h
  split at h
  · next hactive =>
      refine ⟨hactive, ?_⟩
      split at h
      · cases h
      · next w hw =>
          split at h
          · next howns =>
              rw [(Option.filter_eq_some_iff.mp hw).1]
              exact howns
          · cases h
  · cases h

/-- The locked Run is the account's. -/
theorem lock_ok {r : Run} (h : a.lock account run = .ok r) : a.runs run = some r ∧ r.accountId = account := by
  unfold lock at h
  split at h
  · next r' _ hr' =>
      have hsame : r' = r := by
        split at h <;> split at h <;> cases h <;> rfl
      subst hsame
      obtain ⟨hrow, haccount⟩ := Option.filter_eq_some_iff.mp hr'
      exact ⟨hrow, of_decide_eq_true haccount⟩
  · cases h

/-- The Run is there, its account is active, it may execute, and its Work still names it. -/
theorem requireActiveRun_ok {r : Run} (h : a.requireActiveRun account run = .ok r) :
    a.runs run = some r ∧ r.accountId = account ∧ a.accountActive account = true ∧ r.status.executable = true ∧
      ∀ work revision epoch, r.source = .work work revision epoch →
        (a.works work).any (ownsProgression run revision epoch) = true := by
  unfold requireActiveRun at h
  dsimp only at h
  split at h
  · next r' hr' =>
      obtain rfl := Except.ok.inj h
      cases hlock : a.lock account run with
      | error e =>
          rw [hlock] at hr'
          cases hr'
      | ok r₀ =>
          rw [hlock] at hr'
          have hfound := lock_ok hlock
          by_cases hactive : a.accountActive account = true
          · simp only [bind, Except.bind, if_pos hactive] at hr'
            cases hsource : r₀.source with
            | chat conversation =>
                rw [hsource] at hr'
                dsimp only at hr'
                split at hr'
                · next hexecutable =>
                    obtain rfl := Except.ok.inj hr'
                    refine ⟨hfound.1, hfound.2, hactive, hexecutable, fun work revision epoch hwork => ?_⟩
                    rw [hsource] at hwork
                    cases hwork
                · cases hr'
            | work work revision epoch =>
                rw [hsource] at hr'
                dsimp only at hr'
                cases hcheck : a.checkWork account run work revision epoch with
                | error e =>
                    rw [hcheck] at hr'
                    cases hr'
                | ok u =>
                    rw [hcheck] at hr'
                    dsimp only at hr'
                    split at hr'
                    · next hexecutable =>
                        obtain rfl := Except.ok.inj hr'
                        refine ⟨hfound.1, hfound.2, hactive, hexecutable, fun work' revision' epoch' hwork => ?_⟩
                        rw [hsource] at hwork
                        obtain ⟨rfl, rfl, rfl⟩ := RunSource.work.inj hwork
                        exact (checkWork_ok hcheck).2
                    · cases hr'
          · simp only [bind, Except.bind, if_neg hactive] at hr'
            cases hr'
  · cases h

theorem lockExecution_ok {execution : Uuid} {e : Uuid × Execution}
    (h : a.lockExecution account run (some execution) = .ok e) :
    e.1 = execution ∧ a.executions execution = some e.2 ∧ e.2.accountId = account ∧ e.2.runId = run := by
  unfold lockExecution at h
  split at h
  · next e' he' =>
      obtain rfl := Except.ok.inj h
      unfold executionOf at he'
      rw [Option.orElse_some, Option.bind_some, Option.map_eq_some_iff] at he'
      obtain ⟨x, hx, rfl⟩ := he'
      obtain ⟨hrow, howner⟩ := Option.filter_eq_some_iff.mp hx
      obtain ⟨haccount, hrun⟩ := of_decide_eq_true howner
      exact ⟨rfl, hrow, haccount, hrun⟩
  · cases h

/-- A fence that passes: the Run and the Execution may execute and the lease is held. -/
theorem assertExecutionFence_found {f : Fence} (h : a.assertExecutionFence now (some f) = .ok ()) :
    (∃ r, a.requireActiveRun f.accountId f.runId = .ok r) ∧
      (∃ x, a.executions f.executionId = some x ∧ x.accountId = f.accountId ∧ x.runId = f.runId ∧
        x.status.executable = true) ∧
      ∃ l, a.leases f.executionId = some l ∧ l.fencingToken = f.token ∧ now < l.leaseExpiresAt := by
  unfold assertExecutionFence at h
  dsimp only at h
  split at h
  · cases h
  · cases h
  · next u hpassed =>
      split at h
      · next hany =>
          refine ⟨?_, ?_, ?_⟩
          · cases hrun : a.requireActiveRun f.accountId f.runId with
            | error e =>
                rw [hrun] at hpassed
                cases hpassed
            | ok r => exact ⟨r, rfl⟩
          · cases hrun : a.requireActiveRun f.accountId f.runId with
            | error e =>
                rw [hrun] at hpassed
                cases hpassed
            | ok r =>
                rw [hrun] at hpassed
                cases hcheck : a.checkExecution f.accountId f.runId (some f.executionId) with
                | error e =>
                    simp only [bind, Except.bind, hcheck] at hpassed
                    cases hpassed
                | ok u' =>
                    cases hlock : a.lockExecution f.accountId f.runId (some f.executionId) with
                    | error e =>
                        simp only [bind, Except.bind, hcheck, hlock] at hpassed
                        cases hpassed
                    | ok e =>
                        simp only [bind, Except.bind, hcheck, hlock] at hpassed
                        split at hpassed
                        · next hexecutable =>
                            obtain ⟨_, hrow, haccount, hrun'⟩ := lockExecution_ok hlock
                            exact ⟨e.2, hrow, haccount, hrun', hexecutable⟩
                        · cases hpassed
          · cases hl : a.leases f.executionId with
            | none =>
                rw [hl] at hany
                cases hany
            | some l =>
                rw [hl, Option.any_some] at hany
                obtain ⟨_, _, htoken, hnow⟩ := of_decide_eq_true hany
                exact ⟨l, rfl, htoken, hnow⟩
      · cases h

end found

end Authority

end HpAgent
