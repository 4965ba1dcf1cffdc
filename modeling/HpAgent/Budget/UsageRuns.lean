import HpAgent.Budget.Mirror
import HpAgent.Budget.CoordinatorRuns

/-! # Histories of a Run's usage

Everything that happens to the ledgers of a Run: the coordinator's calls for its model requests, the plain
calls for tools and stages, the terminal transaction of `RunLifecycleService`, and what goes on around them.

* `UsageCall.command_keeps`: a relation the services keep is kept by every call.
* `Recorded`, `UsageReachable.recorded`: every history keeps the ledgers conserved and mirrored. -/

namespace HpAgent.Budget

open Library
open WorkBudget (meteredOn)

/-! ### The terminal transaction -/

/-- The Runs after the status of one of them is written. -/
def withStatus (run : Uuid) (status : RunStatus) (runs : Uuid → Option Run) : Uuid → Option Run := fun r =>
  if r = run then (runs r).map fun row => { row with status := status } else runs r

/-- `set_result_terminal`, on the status column. -/
def setTerminal (run : Uuid) (status : RunStatus) : BudgetTx Unit :=
  Tx.update fun db =>
    { db with authority := { db.authority with runs := withStatus run status db.authority.runs } }

section closing

variable (clamp : ℤ → ℤ)

/-- The two recoveries of the terminal transaction. -/
def recoverUsage (run : Uuid) : BudgetTx Unit := do
  Coordinator.recoverTerminalInUow clamp run
  RunBudget.recoverTerminalInUow clamp run

/-- `finish_in_uow`, as far as it concerns the Run's status and its usage; what it leaves out reads no ledger and
can only roll the whole transaction back. -/
def finishInUow (run : Uuid) (status : RunStatus) : BudgetTx Bool := do
  let found ← Tx.query fun db => db.authority.runs run
  let r ← Tx.demand found .resourceNotFound
  Tx.check (status.terminal = true) (.valueError "invalid terminal status")
  if r.status.terminal then do
    recoverUsage clamp run
    pure (decide (r.status = status))
  else do
    Tx.check (¬(status = .succeeded ∧ r.status ≠ .running)) .conversationBusy
    if status = .failed ∧ r.status = .cancelling then pure false
    else do
      Tx.check (¬(status = .cancelled ∧ r.status = .running)) .conversationBusy
      setTerminal run status
      recoverUsage clamp run
      pure true

end closing

/-! ### Work budget adjustments -/

/-- The limits a budget adjustment asks for, if it only increases limits the budget has. -/
def WorkBudget.increases (b : WorkBudget) (limits : Dict ℕ) : Bool :=
  decide (∀ d, ∀ n ∈ limits d, ∃ old ∈ b.limits d, old ≤ (n : ℤ))

/-- `{**budget["limits"], **limits}`. -/
def WorkBudget.merged (b : WorkBudget) (limits : Dict ℕ) : Dict ℤ :=
  fun d => match limits d with
    | some n => some (n : ℤ)
    | none => b.limits d

/-- The `budget` action of `integration_command`. -/
def WorkBudget.adjust (account work : Uuid) (budgetVersion : ℕ) (values : List (String × Raw)) : BudgetTx Unit := do
  let limits ← Tx.ofExcept (amounts values)
  let found ← Tx.query fun db => db.workBudgets.lookup (account, work)
  let b ← Tx.demand found .typeError
  Tx.check (budgetVersion = b.version) (.applicationError "budget_version_conflict")
  Tx.check (b.increases limits = true) (.valueError "budget adjustment can only explicitly increase limits")
  Tx.update fun db =>
    { db with workBudgets := db.workBudgets.insert (account, work)
                ⟨b.merged limits, b.used, b.reserved, b.version + 1⟩ }

/-! ### Histories -/

/-- The calls that charge, settle or recover usage. -/
inductive UsageCall where
  | model (c : Coordinator.Call)
  | reserve (caller : Caller) (run : Uuid) (operation : String) (values : Values)
      (finalResponse enforceLimits deferExhaustion : Bool)
  | settle (run : Uuid) (operation : String) (values : Values) (source : String)
  | release (run : Uuid) (operation : String)
  | finish (run : Uuid) (status : RunStatus)

/-- The call inside its transaction. -/
def UsageCall.command : UsageCall → BudgetTx Unit
  | .model c => c.command
  | .reserve caller run operation values finalResponse enforceLimits deferExhaustion => do
    let _ ← RunBudget.reserveInUow caller run operation values.items finalResponse enforceLimits deferExhaustion
    pure ()
  | .settle run operation values source => do
    let _ ← RunBudget.settleInUow (max 0) run operation values.items source
    pure ()
  | .release run operation => do
    let _ ← RunBudget.releaseInUow (max 0) run operation
    pure ()
  | .finish run status => do
    let _ ← finishInUow (max 0) run status
    pure ()

/-- A model reservation carries the snapshot frozen for its operation. -/
def UsageCall.Carries (db : Ledgers) : UsageCall → Prop
  | .model c => c.Carries db
  | _ => True

/-- What the creators of budgets provide: no negative limit, and room for the final response. -/
structure Provisioned (limits : Dict ℤ) (finalResponseReserveTokens : ℕ) : Prop where
  nonneg : ∀ d l, limits d = some l → 0 ≤ l
  output : ∀ l, limits .modelOutputTokens = some l → (finalResponseReserveTokens : ℤ) ≤ l
  total : ∀ l, limits .modelTotalTokens = some l → (finalResponseReserveTokens : ℤ) ≤ l

/-- One transaction of a history whose calls all satisfy `allowed`. -/
inductive UsageStep (allowed : UsageCall → Ledgers → Prop) (db : Ledgers) : Ledgers → Prop
  | call (c : UsageCall) (hcarries : c.Carries db) (hallowed : allowed c db) : UsageStep allowed db (c.command.commit db)
  | freeze (caller : Caller) (fresh account run : Uuid) (operation : String) (digest version : ℕ)
      (hown : ∀ id s, db.snapshots.lookup id = some s → s.operationId = operation → s.runId = run) :
      UsageStep allowed db ((Snapshots.freeze caller fresh account run operation digest version).commit db)
  | markDispatched (caller : Caller) (account id : Uuid) :
      UsageStep allowed db ((Snapshots.markDispatched caller account id).commit db)
  | createRunBudget (run : Uuid) (mode : BudgetMode) (limits : Dict ℤ) (finalResponseReserveTokens : ℕ)
      (hrun : (db.authority.runs run).isSome = true) (hprovisioned : Provisioned limits finalResponseReserveTokens) :
      UsageStep allowed db ((RunBudget.createSnapshot run mode limits finalResponseReserveTokens).commit db)
  | createWorkBudget (account work : Uuid) (limits : Dict ℤ) (hprovisioned : Provisioned limits 0) :
      UsageStep allowed db ((WorkBudget.create account work limits).commit db)
  | adjustWorkBudget (account work : Uuid) (budgetVersion : ℕ) (values : List (String × Raw)) :
      UsageStep allowed db ((WorkBudget.adjust account work budgetVersion values).commit db)
  | surroundings (authority : Authority) (invocations : Uuid → Option Invocation)
      (hruns : KeepsRuns db.authority authority) :
      UsageStep allowed db { db with authority := authority, invocations := invocations }

/-- The stores a history reaches. -/
def UsageReachable (allowed : UsageCall → Ledgers → Prop) (authority : Authority) (db : Ledgers) : Prop :=
  Relation.ReflTransGen (UsageStep allowed) (Ledgers.start authority) db

/-- A history whose calls are not restricted. -/
def anyCall : UsageCall → Ledgers → Prop := fun _ _ => True

/-! ### Relations every call keeps -/

/-- The services that close operations, and the terminal status, keep `R`. -/
structure KeptByClosing (clamp : ℤ → ℤ) (R : Ledgers → Ledgers → Prop) : Prop where
  accountSettle : ∀ account operation value source date,
    Tx.Keeps R (AccountBudget.settleInUow account operation value source date)
  accountRelease : ∀ account operation date, Tx.Keeps R (AccountBudget.releaseInUow account operation date)
  runSettle : ∀ run operation values source, Tx.Keeps R (RunBudget.settleInUow clamp run operation values source)
  runRelease : ∀ run operation, Tx.Keeps R (RunBudget.releaseInUow clamp run operation)
  setTerminal : ∀ run status, Tx.Keeps R (setTerminal run status)

/-- The services the calls are made of keep `R`. -/
structure KeptByServices (clamp : ℤ → ℤ) (R : Ledgers → Ledgers → Prop) : Prop extends KeptByClosing clamp R where
  accountReserve : ∀ account operation value o now, Tx.Keeps R (AccountBudget.reserveInUow account operation value o now)
  runReserve : ∀ caller run operation values finalResponse enforceLimits deferExhaustion,
    Tx.Keeps R (RunBudget.reserveInUow caller run operation values finalResponse enforceLimits deferExhaustion)

namespace KeptByClosing

variable {clamp : ℤ → ℤ} {R : Ledgers → Ledgers → Prop} [IsPreorder Ledgers R] (h : KeptByClosing clamp R)
  {account run : Uuid} {operation : String}

include h

theorem settle (total : Raw) (values : List (String × Raw)) (source : String) (date : Option Date) :
    Tx.Keeps R (Coordinator.settle clamp account run operation total values source date) :=
  (Tx.Keeps.ofExcept _).bind fun _ => (h.accountSettle _ _ _ _ _).bind fun _ =>
    (h.runSettle _ _ _ _).bind fun _ => Tx.Keeps.pure _

omit h in
theorem lockedLedger (date : Option Date) : Tx.Keeps R (AccountBudget.lockedLedger account operation date) :=
  Tx.Keeps.of_read fun _ _ _ h => (AccountBudget.lockedLedger_ok h).1

theorem release (date : Option Date) : Tx.Keeps R (Coordinator.release clamp account run operation date) :=
  (lockedLedger _).bind fun _ => (Tx.Keeps.query _).bind fun _ => (Tx.Keeps.check _ _).bind fun _ =>
    (h.accountRelease _ _ _).bind fun _ => (h.runRelease _ _).bind fun _ => Tx.Keeps.pure _

theorem recoverStep (u : Unit) (hold : Coordinator.OpenHold) :
    Tx.Keeps R (Coordinator.recoverStep clamp account run u hold) := by
  refine (lockedLedger _).bind fun locked => ?_
  obtain ⟨_, ledger⟩ := locked
  dsimp only
  split
  · split
    · exact (Tx.Keeps.query _).bind fun _ => (Tx.Keeps.ofExcept _).bind fun _ => (h.accountSettle _ _ _ _ _).bind fun _ =>
        (h.runSettle _ _ _ _).bind fun _ => Tx.Keeps.pure _
    · exact (h.accountRelease _ _ _).bind fun _ => (h.runRelease _ _).bind fun _ => Tx.Keeps.pure _
  · exact Tx.Keeps.pure _

theorem recoverModel : Tx.Keeps R (Coordinator.recoverTerminalInUow clamp run) :=
  (Tx.Keeps.query _).bind fun _ => (Tx.Keeps.demand _ _).bind fun _ => (Tx.Keeps.query _).bind fun _ =>
    Tx.Keeps.foldlM h.recoverStep _ _

theorem recoverRun : Tx.Keeps R (RunBudget.recoverTerminalInUow clamp run) :=
  (Tx.Keeps.query _).bind fun _ => (Tx.Keeps.check _ _).bind fun _ => (Tx.Keeps.query _).bind fun _ =>
    Tx.Keeps.foldlM (fun _ _ => (h.runSettle _ _ _ _).bind fun _ => Tx.Keeps.pure _) _ _

theorem recoverUsage : Tx.Keeps R (recoverUsage clamp run) := h.recoverModel.bind fun _ => h.recoverRun

theorem finish (status : RunStatus) : Tx.Keeps R (finishInUow clamp run status) := by
  refine (Tx.Keeps.query _).bind fun found => (Tx.Keeps.demand _ _).bind fun r => (Tx.Keeps.check _ _).bind fun _ => ?_
  split
  · exact h.recoverUsage.bind fun _ => Tx.Keeps.pure _
  · refine (Tx.Keeps.check _ _).bind fun _ => ?_
    split
    · exact Tx.Keeps.pure _
    · exact (Tx.Keeps.check _ _).bind fun _ => (h.setTerminal run status).bind fun _ =>
        h.recoverUsage.bind fun _ => Tx.Keeps.pure _

end KeptByClosing

namespace KeptByServices

variable {clamp : ℤ → ℤ} {R : Ledgers → Ledgers → Prop} [IsPreorder Ledgers R] (h : KeptByServices clamp R)
  {account run : Uuid} {operation : String}

include h

theorem reserve (caller : Caller) (total : Raw) (values : List (String × Raw)) (finalResponse : Bool)
    (o : AccountBudget.Options) :
    Tx.Keeps R (Coordinator.reserve caller account run operation total values finalResponse o) := by
  refine (Tx.Keeps.ofExcept _).bind fun _ => (Tx.Keeps.query _).bind fun _ => (Tx.Keeps.check _ _).bind fun _ =>
    (Tx.Keeps.query _).bind fun _ => (Tx.Keeps.ofExcept _).bind fun _ => Tx.Keeps.bind ?_ fun _ =>
      (h.accountReserve _ _ _ _ _).bind fun _ => (h.runReserve _ _ _ _ _ _ _).bind fun r => ?_
  · unfold Coordinator.priorDay
    cases o.snapshotId with
    | none => exact Tx.Keeps.pure _
    | some s =>
        refine (Tx.Keeps.query _).bind fun prior => ?_
        split
        · exact Tx.Keeps.pure _
        · exact Tx.Keeps.pure _
        · exact Tx.Keeps.raise _
  · cases r with
    | inl m => exact Tx.Keeps.pure _
    | inr e => exact Tx.Keeps.raise _

end KeptByServices

/-- **What the services keep every call keeps.** -/
theorem UsageCall.command_keeps {R : Ledgers → Ledgers → Prop} [IsPreorder Ledgers R]
    (h : KeptByServices (max 0) R) (c : UsageCall) : Tx.Keeps R c.command := by
  cases c with
  | model c =>
      cases c with
      | reserve caller account run operation total values finalResponse o =>
          exact (h.reserve _ _ _ _ _).bind fun _ => Tx.Keeps.pure _
      | settle account run operation total values source date =>
          exact (h.settle _ _ _ _).bind fun _ => Tx.Keeps.pure _
      | release account run operation date => exact (h.release _).bind fun _ => Tx.Keeps.pure _
      | recover run => exact h.recoverModel
  | reserve caller run operation values finalResponse enforceLimits deferExhaustion =>
      exact (h.runReserve _ _ _ _ _ _ _).bind fun _ => Tx.Keeps.pure _
  | settle run operation values source => exact (h.runSettle _ _ _ _).bind fun _ => Tx.Keeps.pure _
  | release run operation => exact (h.runRelease _ _).bind fun _ => Tx.Keeps.pure _
  | finish run status => exact (h.finish status).bind fun _ => Tx.Keeps.pure _

/-! ### Recorded stores -/

/-- The ledgers are conserved, and the Work ledger mirrors the Run ledgers. -/
structure Recorded (db : Ledgers) : Prop where
  conserved : Conserved db
  mirrored : Mirrored db

/-- The store stays recorded. -/
def KeepsRecorded (db db' : Ledgers) : Prop := Recorded db → Recorded db'

instance : IsPreorder Ledgers KeepsRecorded where
  refl _ := id
  trans _ _ _ h₁ h₂ := h₂ ∘ h₁

section services

variable {run : Uuid} {operation : String} {db db' : Ledgers}

/-- A change outside the Run and Work ledgers. -/
theorem KeepsRecorded.of_account (hconserves : Conserves db db')
    (honly : db' = { db with accountUsage := db'.accountUsage, dailyBudgets := db'.dailyBudgets }) :
    KeepsRecorded db db' := by
  intro h
  refine ⟨hconserves h.conserved, h.mirrored.of_same ?_ ?_ ?_ fun run => ?_⟩
  all_goals rw [honly]

theorem AccountBudget.Rewrote.recorded {key : AccountUsageKey} {row : AccountUsage}
    (h : AccountBudget.Rewrote key row db db') : KeepsRecorded db db' := by
  have honly := h.only
  refine .of_account h.conserves ?_
  rw [honly]

theorem AccountBudget.reserveInUow_recorded (account : Uuid) (value : Raw) (o : AccountBudget.Options)
    (now : Instant) : Tx.Keeps KeepsRecorded (AccountBudget.reserveInUow account operation value o now) := by
  intro db m db' h
  obtain ⟨_, _, _, _, hdone⟩ := AccountBudget.reserveInUow_ok h
  cases hdone with
  | opened _ hdone => exact hdone.recorded
  | replayed _ _ _ hquiet =>
      have honly := hquiet.only
      refine .of_account hquiet.conserves ?_
      rw [honly]

theorem AccountBudget.settleInUow_recorded (account : Uuid) (value : Raw) (source : String)
    (date : Option Date) :
    Tx.Keeps KeepsRecorded (AccountBudget.settleInUow account operation value source date) := by
  intro db m db' h
  obtain ⟨_, _, _, _, _, _, hdone⟩ := AccountBudget.settleInUow_ok h
  cases hdone with
  | settled _ _ hdone => exact hdone.recorded
  | replayed => exact refl_of KeepsRecorded _

theorem AccountBudget.releaseInUow_recorded (account : Uuid) (date : Option Date) :
    Tx.Keeps KeepsRecorded (AccountBudget.releaseInUow account operation date) := by
  intro db m db' h
  obtain ⟨_, _, hdone⟩ := AccountBudget.releaseInUow_ok h
  cases hdone with
  | released _ _ hdone => exact hdone.recorded
  | replayed => exact refl_of KeepsRecorded _

/-- **What a reservation did** to recorded ledgers: it was deferred with its rows rolled back, it opened the rows
of its operation, or it was a replay. -/
theorem RunBudget.reserveInUow_effect {caller : Caller} {values : List (String × Raw)}
    {finalResponse enforceLimits deferExhaustion : Bool} {r : Mutation ⊕ Error} (hs : Recorded db)
    (h : (RunBudget.reserveInUow caller run operation values finalResponse enforceLimits deferExhaustion).run db
      = .ok (r, db')) :
    Recorded db' ∧
      ((∃ m requested, r = .inl m ∧ amounts values = .ok requested ∧
          ReserveEffect caller run operation requested db m db') ∨
        (deferExhaustion = true ∧ (∃ e, r = .inr e) ∧
          db' = { db with runBudgets := Table.modify run (fun b => { b with status := .exhausted }) db.runBudgets })) := by
  have hconserved := RunBudget.reserveInUow_conserves _ _ _ _ _ _ _ _ h hs.conserved
  rcases RunBudget.reserveInUow_ok h with ⟨m, rfl, hbody⟩ | ⟨hdefer, hr, rfl⟩
  · obtain ⟨requested, db₁, hvalues, hwork, hdone⟩ := RunBudget.reserveBody_ok hbody
    obtain ⟨hm, heffect⟩ := hs.mirrored.reserve hwork hdone
    exact ⟨⟨hconserved, hm⟩, .inl ⟨m, requested, rfl, hvalues, heffect⟩⟩
  · refine ⟨⟨hconserved, hs.mirrored.of_same rfl rfl rfl fun c => ?_⟩, .inr ⟨hdefer, hr, rfl⟩⟩
    rw [Table.lookup_modify]
    split
    · next hc => rw [hc, Option.isSome_map]
    · rfl

theorem RunBudget.reserveInUow_recorded (caller : Caller) (values : List (String × Raw))
    (finalResponse enforceLimits deferExhaustion : Bool) :
    Tx.Keeps KeepsRecorded
      (RunBudget.reserveInUow caller run operation values finalResponse enforceLimits deferExhaustion) :=
  fun _ _ _ h hs => (RunBudget.reserveInUow_effect hs h).1

section closing

variable {clamp : ℤ → ℤ} (hclamp : RunBudget.ClampsNegative clamp)

include hclamp

/-- **What a settlement did** to recorded ledgers. -/
theorem RunBudget.settleInUow_effect {values : List (String × Raw)} {usageSource : String} {m : Mutation}
    (hs : Recorded db) (h : (RunBudget.settleInUow clamp run operation values usageSource).run db = .ok (m, db')) :
    Recorded db' ∧ ∃ source actual, UsageSource.parse usageSource = .ok source ∧ amounts values = .ok actual ∧
      SettleEffect run operation actual source db m db' := by
  have hconserved := RunBudget.settleInUow_conserves hclamp _ _ _ _ _ h hs.conserved
  obtain ⟨source, actual, db₁, hsource, hvalues, hwork, hdone⟩ :=
    RunBudget.settleInUow_ok hclamp hs.conserved.run h
  obtain ⟨hm, heffect⟩ := hs.mirrored.settle hwork hdone
  exact ⟨⟨hconserved, hm⟩, source, actual, hsource, hvalues, heffect⟩

/-- **What a release did** to recorded ledgers. -/
theorem RunBudget.releaseInUow_effect {m : Mutation} (hs : Recorded db)
    (h : (RunBudget.releaseInUow clamp run operation).run db = .ok (m, db')) :
    Recorded db' ∧ ReleaseEffect run operation db m db' := by
  have hconserved := RunBudget.releaseInUow_conserves hclamp _ _ _ h hs.conserved
  obtain ⟨db₁, hwork, hdone⟩ := RunBudget.releaseInUow_ok hclamp hs.conserved.run h
  obtain ⟨hm, heffect⟩ := hs.mirrored.release hwork hdone
  exact ⟨⟨hconserved, hm⟩, heffect⟩

theorem RunBudget.settleInUow_recorded (values : List (String × Raw)) (source : String) :
    Tx.Keeps KeepsRecorded (RunBudget.settleInUow clamp run operation values source) :=
  fun _ _ _ h hs => (RunBudget.settleInUow_effect hclamp hs h).1

theorem RunBudget.releaseInUow_recorded :
    Tx.Keeps KeepsRecorded (RunBudget.releaseInUow clamp run operation) :=
  fun _ _ _ h hs => (RunBudget.releaseInUow_effect hclamp hs h).1

end closing

/-! ### The Runs around the ledgers -/

/-- A Run that is known keeps its account and its Work. -/
theorem KeepsRuns.meteredOn {a a' : Authority} (h : KeepsRuns a a') (hrun : (a.runs run).isSome = true) :
    meteredOn a' run = meteredOn a run := by
  obtain ⟨r, hr⟩ := Option.isSome_iff_exists.mp hrun
  obtain ⟨r', hr', haccount, hwork⟩ := h run r hr
  unfold WorkBudget.meteredOn
  rw [hr, hr', Option.bind_some, Option.bind_some, haccount, hwork]

theorem Mirrored.surroundings (hm : Mirrored db) {authority : Authority} {invocations : Uuid → Option Invocation}
    (hruns : KeepsRuns db.authority authority) :
    Mirrored { db with authority := authority, invocations := invocations } := by
  refine ⟨fun account work run operation => ?_, fun run b hb => ?_, hm.backed, hm.fresh⟩
  · refine (hm.work account work run operation).trans ?_
    by_cases hne : RunBudget.rows db run operation = Dict.empty
    · have hrows : RunBudget.rows { db with authority := authority, invocations := invocations } run operation
          = Dict.empty := hne
      rw [hne, hrows, mirror_empty, ite_self, ite_self]
    · obtain ⟨b, hb⟩ := hm.backed run operation hne
      rw [← hruns.meteredOn (hm.known run b hb)]
      rfl
  · obtain ⟨r, hr⟩ := Option.isSome_iff_exists.mp (hm.known run b hb)
    obtain ⟨r', hr', _⟩ := hruns run r hr
    show (authority.runs run).isSome = true
    rw [hr']
    rfl

/-- A new status keeps every Run with its account and Work. -/
theorem keepsRuns_withStatus (status : RunStatus) (a : Authority) :
    KeepsRuns a { a with runs := withStatus run status a.runs } := by
  intro run' r hr
  unfold withStatus
  dsimp only
  split
  · exact ⟨{ r with status := status }, by rw [hr]; rfl, rfl, rfl⟩
  · exact ⟨r, hr, rfl, rfl⟩

theorem setTerminal_recorded (status : RunStatus) : Tx.Keeps KeepsRecorded (setTerminal run status) := by
  refine Tx.Keeps.update fun db hs => ⟨⟨hs.conserved.run, hs.conserved.work, hs.conserved.account⟩, ?_⟩
  exact hs.mirrored.surroundings (keepsRuns_withStatus status db.authority)

theorem keptByServices_recorded {clamp : ℤ → ℤ} (hclamp : RunBudget.ClampsNegative clamp) :
    KeptByServices clamp KeepsRecorded where
  accountReserve _ _ := AccountBudget.reserveInUow_recorded _
  accountSettle _ _ := AccountBudget.settleInUow_recorded _
  accountRelease _ _ := AccountBudget.releaseInUow_recorded _
  runReserve caller _ _ := RunBudget.reserveInUow_recorded caller
  runSettle _ _ := RunBudget.settleInUow_recorded hclamp
  runRelease _ _ := RunBudget.releaseInUow_recorded hclamp
  setTerminal _ := setTerminal_recorded

/-! ### Runs -/

/-- What an adjustment did: only limits of one budget changed, and none was lowered. -/
theorem WorkBudget.adjust_ok {account work : Uuid} {budgetVersion : ℕ} {values : List (String × Raw)} {u : Unit}
    (h : (WorkBudget.adjust account work budgetVersion values).run db = .ok (u, db')) :
    ∃ b limits, db.workBudgets.lookup (account, work) = some b ∧ b.increases limits = true ∧
      db' = { db with workBudgets := db.workBudgets.insert (account, work)
                        ⟨b.merged limits, b.used, b.reserved, b.version + 1⟩ } := by
  unfold WorkBudget.adjust at h
  rw [Tx.bind_ofExcept_ok] at h
  obtain ⟨limits, _, h⟩ := h
  rw [Tx.bind_query_ok, Tx.bind_demand_ok] at h
  obtain ⟨b, hb, h⟩ := h
  rw [Tx.bind_check_ok, Tx.bind_check_ok] at h
  exact ⟨b, limits, hb, h.2.1, (Tx.update_ok.mp h.2.2).symm⟩

theorem Recorded.of_budgets (hs : Recorded db) (hconserves : Conserves db db') {workBudgets : Table (Uuid × Uuid) WorkBudget}
    (h : db' = { db with workBudgets := workBudgets }) : Recorded db' := by
  refine ⟨hconserves hs.conserved, hs.mirrored.of_same ?_ ?_ ?_ fun run => ?_⟩
  all_goals rw [h]

theorem recorded_start (authority : Authority) : Recorded (Ledgers.start authority) := by
  refine ⟨conserved_start authority, ⟨fun account work run operation => ?_, fun run b hb => ?_,
    fun run operation hne => ?_, fun run operation d r hr => ?_⟩⟩
  · have hrows : RunBudget.rows (Ledgers.start authority) run operation = Dict.empty := rfl
    rw [hrows, mirror_empty, ite_self]
    rfl
  · cases hb
  · exact absurd rfl hne
  · cases hr

/-- **One step keeps the ledgers recorded.** -/
theorem UsageStep.recorded {allowed : UsageCall → Ledgers → Prop} (h : UsageStep allowed db db') (hs : Recorded db) :
    Recorded db' := by
  cases h with
  | call c _ _ => exact (c.command_keeps (keptByServices_recorded RunBudget.clampsNegative_max)).commit db hs
  | freeze caller fresh account run operation digest version hown =>
      refine Tx.commit_rule Recorded hs fun _ _ h => ?_
      obtain ⟨_, ⟨rfl, _⟩ | ⟨_, _, _, rfl⟩⟩ := Snapshots.freeze_ok h
      · exact hs
      · exact ⟨⟨hs.conserved.run, hs.conserved.work, hs.conserved.account⟩,
          hs.mirrored.of_same rfl rfl rfl fun _ => rfl⟩
  | markDispatched caller account id =>
      refine Tx.commit_rule Recorded hs fun _ _ h => ?_
      obtain ⟨_, _, _, _, _, _, _, _, _, rfl⟩ := Snapshots.markDispatched_ok h
      exact ⟨⟨hs.conserved.run, hs.conserved.work, hs.conserved.account⟩,
        hs.mirrored.of_same rfl rfl rfl fun _ => rfl⟩
  | createRunBudget run mode limits reserve hrun _ =>
      refine Tx.commit_rule Recorded hs fun _ _ h => ?_
      have hconserved := RunBudget.createSnapshot_conserves _ _ _ _ _ _ _ h hs.conserved
      unfold RunBudget.createSnapshot at h
      rw [Tx.bind_query_ok, Tx.bind_check_ok] at h
      obtain rfl := Tx.update_ok.mp h.2
      refine ⟨hconserved, ⟨hs.mirrored.work, fun run' b hb => ?_, fun run' operation hne => ?_, hs.mirrored.fresh⟩⟩
      · rw [Table.lookup_insert_ite] at hb
        split at hb
        · next he =>
            rw [he]
            exact hrun
        · exact hs.mirrored.known run' b hb
      · rw [Table.lookup_insert_ite]
        split
        · exact ⟨_, rfl⟩
        · exact hs.mirrored.backed run' operation hne
  | createWorkBudget account work limits _ =>
      refine Tx.commit_rule Recorded hs fun _ _ h => ?_
      have hconserves := WorkBudget.create_conserves _ _ _ _ _ _ h
      unfold WorkBudget.create at h
      rw [Tx.bind_query_ok, Tx.bind_check_ok] at h
      obtain rfl := Tx.update_ok.mp h.2
      exact hs.of_budgets hconserves rfl
  | adjustWorkBudget account work budgetVersion values =>
      refine Tx.commit_rule Recorded hs fun _ _ h => ?_
      obtain ⟨b, limits, hb, _, rfl⟩ := WorkBudget.adjust_ok h
      refine hs.of_budgets (conserves_of_workCounters fun c d => ?_) rfl
      rw [Table.lookup_insert_ite]
      split
      · next hc => rw [hc, hb]; exact ⟨rfl, rfl⟩
      · exact ⟨rfl, rfl⟩
  | surroundings authority invocations hruns =>
      exact ⟨⟨hs.conserved.run, hs.conserved.work, hs.conserved.account⟩, hs.mirrored.surroundings hruns⟩

/-- **Every history keeps the ledgers recorded.** -/
theorem UsageReachable.recorded {allowed : UsageCall → Ledgers → Prop} {authority : Authority}
    (h : UsageReachable allowed authority db) : Recorded db := by
  induction h with
  | refl => exact recorded_start authority
  | tail _ hstep ih => exact hstep.recorded ih

end services

/-- The history of one frozen request. -/
theorem usageReachable_soloFrozen : UsageReachable anyCall soloAuthority soloFrozen := by
  have hbudget : UsageReachable anyCall soloAuthority soloBudget := by
    refine Relation.ReflTransGen.refl.tail (.createRunBudget 7 .enforce (fun _ => some 100) 0 rfl ⟨?_, ?_, ?_⟩)
    · rintro d l ⟨⟩
      decide
    · rintro l ⟨⟩
      decide
    · rintro l ⟨⟩
      decide
  exact hbudget.tail (.freeze ⟨none, 0⟩ 9 1 7 "model:1" 5 1 fun _ _ h => by cases h)

end HpAgent.Budget
