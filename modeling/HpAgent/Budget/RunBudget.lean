import HpAgent.Budget.WorkBudget

/-! # Run budgets

`RunBudgetService`: reserve, settle, release and the recovery of a terminal Run's remaining holds.
Every call meters the Work first (`WorkBudget.mutate`) and then the Run.

The code computes a reserved counter as `max(0, counter - held)`.  The closing calls take that clamp as
a parameter, so that the loop with the clamp (`max 0`, what the code runs) can be compared with the loop
without it. -/

namespace HpAgent.Budget

open Library

/-- `BudgetMutation`. -/
structure Mutation where
  runId : Uuid
  operationId : String
  values : Dict ℕ
  state : UsageState
  replayed : Bool

/-- The context variables of a call: the caller's fence and the clock its fence check reads. -/
structure Caller where
  fence : Option Fence
  now : Instant
deriving DecidableEq, Repr

namespace RunBudget

/-- The rows of one operation. -/
def rows (db : Ledgers) (run : Uuid) (operation : String) : Dict RunUsage :=
  fun d => db.runUsage.lookup ⟨run, operation, d⟩

/-- `{row.dimension: row.reserved_amount}`. -/
def reservedAmounts (rs : Dict RunUsage) : Dict ℕ := fun d => (rs d).map RunUsage.reservedAmount

/-- Every row satisfies `p`. -/
def allRows (rs : Dict RunUsage) (p : RunUsage → Bool) : Bool := decide (∀ d, ∀ r ∈ rs d, p r = true)

/-- There is no row. -/
def noRows (rs : Dict RunUsage) : Bool := decide (∀ d, rs d = none)

/-- `rows[0].state`. -/
def firstState (rs : Dict RunUsage) : UsageState := (rs.items.head?.map fun p => p.2.state).getD .reserved

/-! ### Statements -/

/-- What an Execution has consumed of a dimension: settled amounts and open holds. -/
def consumed (db : Ledgers) (execution : Uuid) (d : Dimension) : ℕ :=
  Table.total (fun (k : RunUsageKey) (r : RunUsage) =>
    if r.executionId = some execution ∧ k.dimension = d then
      match r.state with
      | .settled => r.actualAmount.getD 0
      | .reserved => r.reservedAmount
      | .released => 0
    else 0) db.runUsage

/-- The call cap of a capability invocation in a dimension; only calls are capped. -/
def Invocation.cap (i : Invocation) : Dimension → Option ℕ
  | .modelCalls => i.maxModelCalls
  | .toolCalls => i.maxToolCalls
  | _ => none

/-- The trigger `enforce_capability_usage_limit`. -/
def enforceCapabilityUsageLimit (db : Ledgers) (key : RunUsageKey) (amount : ℕ) :
    Option Uuid → Except Error Unit
  | none => .ok ()
  | some execution =>
    if key.dimension = .modelCalls ∨ key.dimension = .toolCalls then
      match db.invocations execution with
      | none => .ok ()
      | some i =>
        if i.runId ≠ key.runId then .error (.raiseException "capability usage Run mismatch")
        else
          match Invocation.cap i key.dimension with
          | none => .ok ()
          | some cap =>
            if cap < consumed db execution key.dimension + amount then
              .error (.raiseException "capability invocation call limit exceeded")
            else .ok ()
    else .ok ()

/-- `INSERT INTO run_usage_ledger … 'reserved'`, with its trigger. -/
def insertRow (key : RunUsageKey) (amount : ℕ) (execution : Option Uuid) : BudgetTx Unit := do
  let verdict ← Tx.query fun db => enforceCapabilityUsageLimit db key amount execution
  Tx.ofExcept verdict
  let old ← Tx.query fun db => db.runUsage.lookup key
  Tx.check (old = none) .integrityError
  Tx.check (amount ≤ bigintMax) .numericValueOutOfRange
  Tx.update fun db =>
    { db with runUsage := db.runUsage.insert key ⟨.reserved, amount, none, none, execution⟩ }

/-- `UPDATE run_usage_ledger SET state='settled', actual_amount, usage_source` of one row. -/
def settleRow (key : RunUsageKey) (actual : ℕ) (source : UsageSource) : BudgetTx Unit := do
  Tx.check (actual ≤ bigintMax) .numericValueOutOfRange
  Tx.update fun db =>
    { db with runUsage := Table.modify key (RunUsage.settled (some actual) source) db.runUsage }

/-- Mark the rows of one operation in the given dimensions as released. -/
def releaseKeys (run : Uuid) (operation : String) (ds : List Dimension) (t : Table RunUsageKey RunUsage) :
    Table RunUsageKey RunUsage :=
  ds.foldl (fun t d => Table.modify ⟨run, operation, d⟩ RunUsage.released t) t

/-- `UPDATE run_usage_ledger SET state='released'` of the rows of one operation. -/
def releaseRows (run : Uuid) (operation : String) : BudgetTx Unit :=
  Tx.update fun db => { db with runUsage := releaseKeys run operation Dimension.all db.runUsage }

/-- `UPDATE run_budgets` of one row. -/
def writeBudget (run : Uuid) (b : RunBudget) : BudgetTx Unit :=
  Tx.update fun db => { db with runBudgets := db.runBudgets.insert run b }

/-- `SELECT … FROM run_budgets … FOR UPDATE`, raising when there is none. -/
def lockBudget (run : Uuid) : BudgetTx RunBudget := do
  let found ← Tx.query fun db => db.runBudgets.lookup run
  Tx.demand found (.runBudgetError "Run budget snapshot not found")

/-! ### Reserve -/

/-- The reservation is inside the Execution of the caller. -/
def checkFence (caller : Caller) (run : Uuid) : BudgetTx Unit :=
  match caller.fence with
  | none => pure ()
  | some f => do
    let a ← Tx.query Ledgers.authority
    Tx.ofExcept (a.assertExecutionFence caller.now (some f))
    Tx.check (run = f.runId) (.staleFencingToken "budget reservation is outside the Execution Run")

/-- The tokens kept back for the final response. -/
def protectedTokens (b : RunBudget) (finalResponse : Bool) (d : Dimension) : ℤ :=
  if !finalResponse && (d = .modelOutputTokens || d = .modelTotalTokens) then b.finalResponseReserveTokens
  else 0

/-- One iteration of the limit loop: append the dimension when the amount does not fit. -/
def exceedStep (b : RunBudget) (finalResponse : Bool) (exceeded : List Dimension) (p : Dimension × ℕ) :
    Except Error (List Dimension) :=
  match b.limits p.1 with
  | none => .error (.runBudgetError ("budget snapshot misses dimension: " ++ p.1.name))
  | some limit =>
    .ok (if max 0 (limit - protectedTokens b finalResponse p.1) < b.used.get p.1 + b.reserved.get p.1 + p.2
      then exceeded ++ [p.1] else exceeded)

/-- The dimensions a request would exceed. -/
def exceededDimensions (b : RunBudget) (finalResponse : Bool) (requested : Dict ℕ) :
    Except Error (List Dimension) :=
  requested.items.foldlM (exceedStep b finalResponse) []

/-- The text of an exhausted Run budget. -/
def exhaustedText (exceeded : List Dimension) : String :=
  "Run budget exhausted for: " ++
    ", ".intercalate ((exceeded.map Dimension.name).mergeSort fun a b => decide (a ≤ b))

/-- One iteration of the insert loop. -/
def reserveStep (run : Uuid) (operation : String) (execution : Option Uuid) (reserved : Dict ℤ)
    (p : Dimension × ℕ) : BudgetTx (Dict ℤ) := do
  insertRow ⟨run, operation, p.1⟩ p.2 execution
  pure (reserved.set p.1 (reserved.get p.1 + p.2))

/-- The Run half of a reservation without earlier rows. -/
def openHolds (caller : Caller) (run : Uuid) (operation : String) (b : RunBudget) (requested : Dict ℕ)
    (finalResponse enforceLimits : Bool) : BudgetTx Mutation := do
  let exceeded ← Tx.ofExcept (exceededDimensions b finalResponse requested)
  Tx.check (¬ (exceeded ≠ [] ∧ (b.mode = .enforce ∨ enforceLimits = true)))
    (.runBudgetExhausted (exhaustedText exceeded))
  let reserved ← requested.items.foldlM
    (reserveStep run operation (caller.fence.map Fence.executionId)) b.reserved
  writeBudget run { b with reserved := reserved, status := if exceeded ≠ [] then .exhausted else b.status }
  pure ⟨run, operation, requested, .reserved, false⟩

/-- `_reserve_in_uow`. -/
def reserveBody (caller : Caller) (run : Uuid) (operation : String) (values : List (String × Raw))
    (finalResponse enforceLimits : Bool) : BudgetTx Mutation := do
  checkFence caller run
  let requested ← Tx.ofExcept (amounts values)
  checkOperation operation
  WorkBudget.mutate run operation (.reserve requested)
  let b ← lockBudget run
  let rs ← Tx.query fun db => rows db run operation
  if noRows rs then openHolds caller run operation b requested finalResponse enforceLimits
  else do
    Tx.check (reservedAmounts rs = requested)
      (.runBudgetConflict "operation_id was already reserved with different dimensions")
    pure ⟨run, operation, requested, firstState rs, true⟩

/-- `UPDATE run_budgets SET status='exhausted'`. -/
def markExhausted (run : Uuid) : BudgetTx Unit :=
  Tx.update fun db =>
    { db with runBudgets := Table.modify run (fun b => { b with status := .exhausted }) db.runBudgets }

/-- The `except` clauses of `reserve_in_uow`: a Run rejection is recorded after the savepoint has been
rolled back, and deferred to the caller when it asks for that. -/
def onReserveError (run : Uuid) (deferExhaustion : Bool) : Error → BudgetTx (Mutation ⊕ Error)
  | .raiseException message =>
    Tx.raise (if message = "capability invocation call limit exceeded" then
      .capabilityBudgetExhausted "Capability invocation call limit exceeded" else .raiseException message)
  | .runBudgetExhausted message => do
    markExhausted run
    if deferExhaustion then pure (.inr (.runBudgetExhausted message))
    else Tx.raise (.runBudgetExhausted message)
  | e => Tx.raise e

/-- `reserve_in_uow`. -/
def reserveInUow (caller : Caller) (run : Uuid) (operation : String) (values : List (String × Raw))
    (finalResponse enforceLimits deferExhaustion : Bool) : BudgetTx (Mutation ⊕ Error) :=
  Tx.savepoint
    (do
      let m ← reserveBody caller run operation values finalResponse enforceLimits
      pure (.inl m))
    (onReserveError run deferExhaustion)

/-- `RunBudgetService.reserve`: an exhaustion is raised after the transaction has committed. -/
def reserve (caller : Caller) (run : Uuid) (operation : String) (values : List (String × Raw))
    (finalResponse enforceLimits : Bool) : BudgetTx (Mutation ⊕ Error) :=
  reserveInUow caller run operation values finalResponse enforceLimits true

section closing

variable (clamp : ℤ → ℤ)

/-! ### Settle -/

/-- One iteration of the settle loop, on the `used` and `reserved` objects. -/
def settleStep (run : Uuid) (operation : String) (rs : Dict RunUsage) (source : UsageSource)
    (c : Dict ℤ × Dict ℤ) (p : Dimension × ℕ) : BudgetTx (Dict ℤ × Dict ℤ) := do
  let held := ((reservedAmounts rs p.1).getD 0 : ℤ)
  settleRow ⟨run, operation, p.1⟩ p.2 source
  pure (c.1.set p.1 (c.1.get p.1 + p.2), c.2.set p.1 (clamp (c.2.get p.1 - held)))

/-- Some limit is exceeded by what is used and reserved. -/
def overLimit (limits used reserved : Dict ℤ) : Bool :=
  limits.items.any fun p => decide (p.2 < used.get p.1 + reserved.get p.1)

/-- The Run half of a settlement. -/
def settleRows (run : Uuid) (operation : String) (b : RunBudget) (rs : Dict RunUsage) (actual : Dict ℕ)
    (source : UsageSource) : BudgetTx Mutation := do
  let c ← actual.items.foldlM (settleStep clamp run operation rs source) (b.used, b.reserved)
  writeBudget run
    { b with used := c.1, reserved := c.2,
             status := if overLimit b.limits c.1 c.2 then .exhausted else b.status }
  pure ⟨run, operation, actual, .settled, false⟩

/-- `settle_in_uow`. -/
def settleInUow (run : Uuid) (operation : String) (values : List (String × Raw)) (usageSource : String) :
    BudgetTx Mutation := do
  let source ← Tx.ofExcept (UsageSource.parse usageSource)
  let actual ← Tx.ofExcept (amounts values)
  WorkBudget.mutate run operation (.settle actual source)
  let b ← lockBudget run
  let rs ← Tx.query fun db => rows db run operation
  Tx.check (∀ d, (rs d).isSome = (actual d).isSome)
    (.runBudgetConflict "settlement dimensions differ from reservation")
  if noRows rs = false ∧ allRows rs (fun r => r.state = .settled) = true then do
    Tx.check ((∀ d, (rs d).map RunUsage.actualAmount = (actual d).map some) ∧
      allRows rs fun r => r.usageSource = some source)
      (.runBudgetConflict "operation_id was already settled differently")
    pure ⟨run, operation, actual, .settled, true⟩
  else do
    Tx.check (noRows rs = false ∧ allRows rs fun r => r.state = .reserved)
      (.runBudgetConflict "operation is not reserved")
    settleRows clamp run operation b rs actual source

/-! ### Release -/

/-- The Run half of a release. -/
def releaseHolds (run : Uuid) (operation : String) (b : RunBudget) (rs : Dict RunUsage) :
    BudgetTx Mutation := do
  let values := reservedAmounts rs
  let reserved := values.items.foldl
    (fun (c : Dict ℤ) p => c.set p.1 (clamp (c.get p.1 - p.2))) b.reserved
  releaseRows run operation
  writeBudget run { b with reserved := reserved }
  pure ⟨run, operation, values, .released, false⟩

/-- `release_in_uow`. -/
def releaseInUow (run : Uuid) (operation : String) : BudgetTx Mutation := do
  WorkBudget.mutate run operation .release
  let b ← lockBudget run
  let rs ← Tx.query fun db => rows db run operation
  Tx.check (noRows rs = false) (.runBudgetConflict "operation is not reserved")
  if allRows rs (fun r => r.state = .released) then
    pure ⟨run, operation, reservedAmounts rs, .released, true⟩
  else do
    Tx.check (allRows rs fun r => r.state = .reserved)
      (.runBudgetConflict "settled usage cannot be released")
    releaseHolds clamp run operation b rs

/-! ### Recovery of a terminal Run -/

/-- The operations of the Run that still hold a reservation. -/
def openOperations (db : Ledgers) (run : Uuid) : List String :=
  ((db.runUsage.entries.filter fun e => e.1.runId = run ∧ e.2.state = .reserved).map
    fun e => e.1.operationId).dedup.mergeSort fun a b => decide (a ≤ b)

/-- What an operation still holds in each dimension. -/
def openAmounts (db : Ledgers) (run : Uuid) (operation : String) : Dict ℕ :=
  fun d => ((rows db run operation d).filter fun r => r.state = .reserved).map RunUsage.reservedAmount

/-- One iteration of the recovery loop. -/
def recoverStep (run : Uuid) (_ : Unit) (p : String × Dict ℕ) : BudgetTx Unit := do
  let _ ← settleInUow clamp run p.1 (rawItems p.2) "estimated"
  pure ()

/-- `recover_terminal_in_uow`: the holds are read once and then settled at their bounded estimate. -/
def recoverTerminalInUow (run : Uuid) : BudgetTx Unit := do
  let found ← Tx.query fun db => db.authority.runs run
  Tx.check (found.any fun r => r.status.terminal) (.valueError "usage recovery requires a terminal Run")
  let operations ← Tx.query fun db =>
    (openOperations db run).map fun operation => (operation, openAmounts db run operation)
  operations.foldlM (recoverStep clamp run) ()

end closing

/-! ### What a statement changes -/

/-- The two stores differ in the ledger rows of one operation only. -/
def RowsOnly (run : Uuid) (operation : String) (db db' : Ledgers) : Prop :=
  db' = { db with runUsage := db'.runUsage } ∧
    ∀ k : RunUsageKey, k ≠ ⟨run, operation, k.dimension⟩ → db'.runUsage.lookup k = db.runUsage.lookup k

instance (run : Uuid) (operation : String) : IsPreorder Ledgers (RowsOnly run operation) where
  refl _ := ⟨rfl, fun _ _ => rfl⟩
  trans _ _ _ h₁ h₂ := by
    refine ⟨?_, fun k hk => (h₂.2 k hk).trans (h₁.2 k hk)⟩
    rw [h₂.1, h₁.1]

theorem RowsOnly.of_table {run : Uuid} {operation : String} {db : Ledgers} {t : Table RunUsageKey RunUsage}
    (h : ∀ k : RunUsageKey, k ≠ ⟨run, operation, k.dimension⟩ → t.lookup k = db.runUsage.lookup k) :
    RowsOnly run operation db { db with runUsage := t } :=
  ⟨rfl, h⟩

section statements

variable {run : Uuid} {operation : String} {db db' : Ledgers} {u : Unit}

theorem insertRow_ok {key : RunUsageKey} {n : ℕ} {execution : Option Uuid}
    (h : (insertRow key n execution).run db = .ok (u, db')) :
    db.runUsage.lookup key = none ∧
      { db with runUsage := db.runUsage.insert key ⟨.reserved, n, none, none, execution⟩ } = db' := by
  unfold insertRow at h
  simp only [Tx.bind_query_ok, Tx.bind_ofExcept_ok, Tx.bind_check_ok, Tx.update_ok] at h
  obtain ⟨_, _, hnone, _, hdb⟩ := h
  exact ⟨hnone, hdb⟩

theorem settleRow_ok {key : RunUsageKey} {n : ℕ} {source : UsageSource} :
    (settleRow key n source).run db = .ok (u, db') ↔ n ≤ bigintMax ∧
      { db with runUsage := Table.modify key (RunUsage.settled (some n) source) db.runUsage } = db' := by
  unfold settleRow
  simp only [Tx.bind_check_ok, Tx.update_ok]

theorem insertRow_rowsOnly (d : Dimension) (n : ℕ) (execution : Option Uuid) :
    Tx.Keeps (RowsOnly run operation) (insertRow ⟨run, operation, d⟩ n execution) := by
  intro s _ s' h
  obtain ⟨_, rfl⟩ := insertRow_ok h
  refine RowsOnly.of_table fun k hk => ?_
  rw [Table.lookup_insert_ite, if_neg]
  rintro rfl
  exact hk rfl

theorem settleRow_rowsOnly (d : Dimension) (n : ℕ) (source : UsageSource) :
    Tx.Keeps (RowsOnly run operation) (settleRow ⟨run, operation, d⟩ n source) := by
  intro s _ s' h
  obtain ⟨_, rfl⟩ := settleRow_ok.mp h
  refine RowsOnly.of_table fun k hk => ?_
  rw [Table.lookup_modify, if_neg]
  rintro rfl
  exact hk rfl

/-- The insert loop: one new row and one increment for each dimension. -/
theorem reserve_loop {execution : Option Uuid} {values : Dict ℕ} {c c' : Dict ℤ}
    (h : (values.items.foldlM (reserveStep run operation execution) c).run db = .ok (c', db')) :
    RowsOnly run operation db db' ∧
      ∀ d, (c'.get d, rows db' run operation d)
        = (values d).elim (c.get d, rows db run operation d)
            fun (n : ℕ) => (c.get d + n, some ⟨.reserved, n, none, none, execution⟩) := by
  refine ⟨?_, fun d => ?_⟩
  · refine Tx.Keeps.foldlM (fun reserved p => ?_) values.items c db c' db' h
    exact (insertRow_rowsOnly p.1 p.2 execution).bind fun _ => Tx.Keeps.pure _
  · rw [foldlM_pointwise (fun (s : Dict ℤ × Ledgers) d => (s.1.get d, rows s.2 run operation d))
      (fun _ (n : ℕ) x => (x.1 + n, some ⟨.reserved, n, none, none, execution⟩)) ?_ values.nodup_items h d,
      Dict.itemAt_items]
    intro b p s b' s' hstep e
    simp only [reserveStep, Tx.bind_ok, Tx.pure_ok] at hstep
    obtain ⟨_, _, hins, rfl, rfl⟩ := hstep
    obtain ⟨_, rfl⟩ := insertRow_ok hins
    simp only [Dict.get_set, rows, Table.lookup_insert_ite, RunUsageKey.mk.injEq, true_and]
    split
    · next he => rw [he]
    · rfl

/-- The settle loop: every row is settled, its hold leaves the reserved counter and its actual amount
enters the used counter. -/
theorem settle_loop {clamp : ℤ → ℤ} {rs : Dict RunUsage} {actual : Dict ℕ} {source : UsageSource}
    {c c' : Dict ℤ × Dict ℤ}
    (h : (actual.items.foldlM (settleStep clamp run operation rs source) c).run db = .ok (c', db')) :
    RowsOnly run operation db db' ∧
      ∀ d, (c'.1.get d, c'.2.get d, rows db' run operation d)
        = (actual d).elim (c.1.get d, c.2.get d, rows db run operation d)
            fun (n : ℕ) => (c.1.get d + n, clamp (c.2.get d - ((reservedAmounts rs d).getD 0 : ℕ)),
              (rows db run operation d).map (RunUsage.settled (some n) source)) := by
  refine ⟨?_, fun d => ?_⟩
  · refine Tx.Keeps.foldlM (fun c p => ?_) actual.items c db c' db' h
    exact (settleRow_rowsOnly p.1 p.2 source).bind fun _ => Tx.Keeps.pure _
  · rw [foldlM_pointwise
      (fun (s : (Dict ℤ × Dict ℤ) × Ledgers) d => (s.1.1.get d, s.1.2.get d, rows s.2 run operation d))
      (fun d (n : ℕ) x => (x.1 + n, clamp (x.2.1 - ((reservedAmounts rs d).getD 0 : ℕ)),
        x.2.2.map (RunUsage.settled (some n) source))) ?_ actual.nodup_items h d,
      Dict.itemAt_items]
    intro b p s b' s' hstep e
    simp only [settleStep, Tx.bind_ok, settleRow_ok, Tx.pure_ok] at hstep
    obtain ⟨_, _, ⟨_, rfl⟩, rfl, rfl⟩ := hstep
    simp only [rows, Table.lookup_modify, RunUsageKey.mk.injEq, true_and, Dict.get_set]
    split
    · next he => rw [he]
    · rfl

/-- The counter loop of a release. -/
theorem release_loop (clamp : ℤ → ℤ) (values : Dict ℕ) (c : Dict ℤ) (d : Dimension) :
    (values.items.foldl (fun (c : Dict ℤ) p => c.set p.1 (clamp (c.get p.1 - p.2))) c).get d
      = (values d).elim (c.get d) fun (n : ℕ) => clamp (c.get d - n) := by
  rw [foldl_pointwise Dict.get (fun _ (n : ℕ) x => clamp (x - n)) ?_ values.nodup_items c d,
    Dict.itemAt_items]
  intro c p e
  rw [Dict.get_set]
  split
  · next he => rw [he]
  · rfl

/-- Releasing the rows of an operation, one key at a time. -/
theorem lookup_releaseKeys (t : Table RunUsageKey RunUsage) {ds : List Dimension} (hds : ds.Nodup)
    (k : RunUsageKey) :
    (releaseKeys run operation ds t).lookup k
      = if k = ⟨run, operation, k.dimension⟩ ∧ k.dimension ∈ ds then (t.lookup k).map RunUsage.released
        else t.lookup k := by
  unfold releaseKeys
  induction ds generalizing t with
  | nil => simp
  | cons d rest ih =>
      rw [List.nodup_cons] at hds
      rw [List.foldl_cons, ih _ hds.2, Table.lookup_modify]
      by_cases hk : k = ⟨run, operation, d⟩
      · subst hk
        simp [hds.1]
      · have hkd : k = ⟨run, operation, k.dimension⟩ → k.dimension ≠ d := by
          rintro h rfl
          exact hk h
        simp only [if_neg hk, List.mem_cons]
        by_cases hown : k = ⟨run, operation, k.dimension⟩
        · simp [hkd hown]
        · simp [hown]

theorem releaseRows_ok (h : (releaseRows run operation).run db = .ok (u, db')) :
    RowsOnly run operation db db' ∧
      ∀ d, rows db' run operation d = (rows db run operation d).map RunUsage.released := by
  unfold releaseRows at h
  rw [Tx.update_ok] at h
  subst h
  refine ⟨RowsOnly.of_table fun k hk => ?_, fun d => ?_⟩
  · rw [lookup_releaseKeys _ Dimension.nodup_all, if_neg fun h => hk h.1]
  · unfold rows
    rw [lookup_releaseKeys _ Dimension.nodup_all, if_pos ⟨rfl, Dimension.mem_all d⟩]

end statements

end RunBudget

end HpAgent.Budget
