import HpAgent.Budget.State

/-! # Cumulative Work budgets

`mutate` embeds `WorkBudgetService.mutate`: the Work half of every reserve, settle and release on a Run
of a Work.  `mutate_conserved` says that it keeps the Work budget counters equal to the sums of the
ledger rows, and `mutate_ok` what it did to the rows of the operation. -/

namespace HpAgent.Budget

open Library

namespace WorkBudget

/-- The `action` argument with the arguments it comes with. -/
inductive Action where
  | reserve (amounts : Dict ℕ)
  | settle (actual : Dict ℕ) (source : UsageSource)
  | release
deriving DecidableEq

/-- The rows of one operation. -/
def rows (db : Ledgers) (account work run : Uuid) (operation : String) : Dict WorkUsage :=
  fun d => db.workUsage.lookup ⟨account, work, run, operation, d⟩

/-- `{row.dimension: row.reserved_amount}`. -/
def reservedAmounts (rs : Dict WorkUsage) : Dict ℕ := fun d => (rs d).map WorkUsage.reservedAmount

/-- Every row satisfies `p`. -/
def allRows (rs : Dict WorkUsage) (p : WorkUsage → Bool) : Bool := decide (∀ d, ∀ r ∈ rs d, p r = true)

/-- There is no row. -/
def noRows (rs : Dict WorkUsage) : Bool := decide (∀ d, rs d = none)

/-! ### Statements -/

/-- `INSERT INTO work_usage_ledger … 'reserved'`. -/
def insertRow (key : WorkUsageKey) (amount : ℕ) : BudgetTx Unit := do
  let old ← Tx.query fun db => db.workUsage.lookup key
  Tx.check (old = none) .integrityError
  Tx.check (amount ≤ bigintMax) .numericValueOutOfRange
  Tx.update fun db =>
    { db with workUsage := db.workUsage.insert key ⟨.reserved, amount, none, none⟩ }

/-- `UPDATE work_usage_ledger SET state, actual_amount, usage_source` of one row. -/
def closeRow (key : WorkUsageKey) (state : UsageState) (actual : Option ℕ) (source : Option UsageSource) :
    BudgetTx Unit := do
  Tx.check (actual.getD 0 ≤ bigintMax) .numericValueOutOfRange
  Tx.update fun db =>
    { db with workUsage := Table.modify key (WorkUsage.closed state actual source) db.workUsage }

/-- `UPDATE work_budgets SET used, reserved, version=version+1`. -/
def writeBudget (account work : Uuid) (b : WorkBudget) (used reserved : Dict ℤ) : BudgetTx Unit :=
  Tx.update fun db =>
    { db with workBudgets := db.workBudgets.insert (account, work)
                ⟨b.limits, used, reserved, b.version + 1⟩ }

/-! ### The service -/

/-- The Work still lets this Run open new holds. -/
def permitsReservation (a : Authority) (account work run : Uuid) (revision epoch : ℕ) (status : RunStatus) :
    Bool :=
  a.accountActive account && (a.ownedWork account work).any (Authority.ownsProgression run revision epoch) &&
    status.executable

/-- The first dimension test that fails exhausts the Work. -/
def exhausted (b : WorkBudget) (values : Dict ℕ) : Bool :=
  values.items.any fun p =>
    match b.limits p.1 with
    | none => true
    | some limit => decide (limit < b.used.get p.1 + b.reserved.get p.1 + p.2)

/-- One iteration of the loop over the requested dimensions. -/
def reserveStep (account work run : Uuid) (operation : String) (reserved : Dict ℤ) (p : Dimension × ℕ) :
    BudgetTx (Dict ℤ) := do
  insertRow ⟨account, work, run, operation, p.1⟩ p.2
  pure (reserved.set p.1 (reserved.get p.1 + p.2))

/-- The `reserve` branch for an operation without rows. -/
def reserve (account work run : Uuid) (operation : String) (b : WorkBudget) (revision epoch : ℕ)
    (status : RunStatus) (values : Dict ℕ) : BudgetTx Unit := do
  let a ← Tx.query Ledgers.authority
  Tx.check (permitsReservation a account work run revision epoch status)
    (.runBudgetConflict "Work no longer permits new reservations")
  Tx.check (exhausted b values = false) (.workBudgetExhausted "Work cumulative budget exhausted")
  let reserved ← values.items.foldlM (reserveStep account work run operation) b.reserved
  writeBudget account work b b.used reserved

/-- One iteration of the loop over the rows, on the `used` and `reserved` objects. -/
def closeStep (account work run : Uuid) (operation : String) (state : UsageState) (actual : Dict ℕ)
    (source : Option UsageSource) (c : Dict ℤ × Dict ℤ) (p : Dimension × WorkUsage) :
    BudgetTx (Dict ℤ × Dict ℤ) := do
  closeRow ⟨account, work, run, operation, p.1⟩ state (actual p.1) source
  let used := match actual p.1 with
    | some n => c.1.set p.1 (c.1.get p.1 + n)
    | none => c.1
  pure (used, c.2.set p.1 (c.2.get p.1 - p.2.reservedAmount))

/-- The closing branch: every row leaves `reserved` for `state`; `actual` is empty on release. -/
def close (account work run : Uuid) (operation : String) (b : WorkBudget) (rs : Dict WorkUsage)
    (state : UsageState) (actual : Dict ℕ) (source : Option UsageSource) : BudgetTx Unit := do
  let counters ← rs.items.foldlM (closeStep account work run operation state actual source)
    (b.used, b.reserved)
  writeBudget account work b counters.1 counters.2

/-- `mutate` for a Run of the Work. -/
def mutateWork (account work run : Uuid) (operation : String) (revision epoch : ℕ) (status : RunStatus)
    (action : Action) : BudgetTx Unit := do
  let found ← Tx.query fun db => db.workBudgets.lookup (account, work)
  let b ← Tx.demand found (.runtimeError "Work budget missing")
  let rs ← Tx.query fun db => rows db account work run operation
  match action with
  | .reserve values =>
    if noRows rs then reserve account work run operation b revision epoch status values
    else Tx.check (reservedAmounts rs = values) (.runBudgetConflict "Work operation changed")
  | .settle actual source =>
    if noRows rs then Tx.raise (.runBudgetConflict "Work operation is not reserved")
    else if allRows rs fun r => r.state = .settled then
      Tx.check ((∀ d, (rs d).map WorkUsage.actualAmount = (actual d).map some) ∧
        allRows rs fun r => r.usageSource = some source) (.runBudgetConflict "Work operation changed")
    else do
      Tx.check ((allRows rs fun r => r.state = .reserved) ∧ ∀ d, (rs d).isSome = (actual d).isSome)
        (.runBudgetConflict "Work settlement does not match reservation")
      close account work run operation b rs .settled actual (some source)
  | .release =>
    if noRows rs then Tx.raise (.runBudgetConflict "Work operation is not reserved")
    else if allRows rs fun r => r.state = .released then pure ()
    else do
      Tx.check (allRows rs fun r => r.state = .reserved)
        (.runBudgetConflict "Work settlement does not match reservation")
      close account work run operation b rs .released Dict.empty none

/-- `WorkBudgetService.mutate`; a Run outside any Work is not metered here. -/
def mutate (run : Uuid) (operation : String) (action : Action) : BudgetTx Unit := do
  let found ← Tx.query fun db => db.authority.runs run
  match found with
  | none => pure ()
  | some r =>
    match r.source with
    | .chat _ => pure ()
    | .work work revision epoch => mutateWork r.accountId work run operation revision epoch r.status action

/-! ### What a statement changes -/

/-- The two stores differ in the ledger rows of one operation only. -/
def RowsOnly (account work run : Uuid) (operation : String) (db db' : Ledgers) : Prop :=
  db' = { db with workUsage := db'.workUsage } ∧
    ∀ k : WorkUsageKey, k ≠ ⟨account, work, run, operation, k.dimension⟩ →
      db'.workUsage.lookup k = db.workUsage.lookup k

instance (account work run : Uuid) (operation : String) :
    IsPreorder Ledgers (RowsOnly account work run operation) where
  refl _ := ⟨rfl, fun _ _ => rfl⟩
  trans _ _ _ h₁ h₂ := by
    refine ⟨?_, fun k hk => (h₂.2 k hk).trans (h₁.2 k hk)⟩
    rw [h₂.1, h₁.1]

section statements

variable {account work run : Uuid} {operation : String} {db db' : Ledgers} {u : Unit}

theorem insertRow_ok {key : WorkUsageKey} {n : ℕ} :
    (insertRow key n).run db = .ok (u, db') ↔ db.workUsage.lookup key = none ∧ n ≤ bigintMax ∧
      { db with workUsage := db.workUsage.insert key ⟨.reserved, n, none, none⟩ } = db' := by
  unfold insertRow
  simp only [Tx.bind_query_ok, Tx.bind_check_ok, Tx.update_ok]

theorem closeRow_ok {key : WorkUsageKey} {state : UsageState} {actual : Option ℕ}
    {source : Option UsageSource} :
    (closeRow key state actual source).run db = .ok (u, db') ↔ actual.getD 0 ≤ bigintMax ∧
      { db with workUsage := Table.modify key (WorkUsage.closed state actual source) db.workUsage } = db' := by
  unfold closeRow
  simp only [Tx.bind_check_ok, Tx.update_ok]

theorem insertRow_rowsOnly (d : Dimension) (n : ℕ) :
    Tx.Keeps (RowsOnly account work run operation) (insertRow ⟨account, work, run, operation, d⟩ n) := by
  intro s _ s' h
  obtain ⟨_, _, rfl⟩ := insertRow_ok.mp h
  refine ⟨rfl, fun k hk => ?_⟩
  rw [Table.lookup_insert_ite, if_neg]
  rintro rfl
  exact hk rfl

theorem closeRow_rowsOnly (d : Dimension) (state : UsageState) (actual : Option ℕ)
    (source : Option UsageSource) :
    Tx.Keeps (RowsOnly account work run operation)
      (closeRow ⟨account, work, run, operation, d⟩ state actual source) := by
  intro s _ s' h
  obtain ⟨_, rfl⟩ := closeRow_ok.mp h
  refine ⟨rfl, fun k hk => ?_⟩
  rw [Table.lookup_modify, if_neg]
  rintro rfl
  exact hk rfl

/-- The loop of the `reserve` branch: one new row and one increment for each dimension. -/
theorem reserve_loop {values : Dict ℕ} {c c' : Dict ℤ}
    (h : (values.items.foldlM (reserveStep account work run operation) c).run db = .ok (c', db')) :
    RowsOnly account work run operation db db' ∧
      ∀ d, (c'.get d, rows db' account work run operation d)
        = (values d).elim (c.get d, rows db account work run operation d)
            fun (n : ℕ) => (c.get d + n, some ⟨.reserved, n, none, none⟩) := by
  refine ⟨?_, fun d => ?_⟩
  · refine Tx.Keeps.foldlM (fun reserved p => ?_) values.items c db c' db' h
    exact (insertRow_rowsOnly p.1 p.2).bind fun _ => Tx.Keeps.pure _
  · rw [foldlM_pointwise
      (fun (s : Dict ℤ × Ledgers) d => (s.1.get d, rows s.2 account work run operation d))
      (fun _ (n : ℕ) x => (x.1 + n, some ⟨.reserved, n, none, none⟩)) ?_ values.nodup_items h d,
      Dict.itemAt_items]
    intro b p s b' s' hstep e
    simp only [reserveStep, Tx.bind_ok, insertRow_ok, Tx.pure_ok] at hstep
    obtain ⟨_, _, ⟨_, _, rfl⟩, rfl, rfl⟩ := hstep
    simp only [Dict.get_set, rows, Table.lookup_insert_ite, WorkUsageKey.mk.injEq, true_and]
    split
    · next he => rw [he]
    · rfl

/-- The loop of the closing branches: every row is closed and its hold leaves the reserved counter. -/
theorem close_loop {rs : Dict WorkUsage} {state : UsageState} {actual : Dict ℕ}
    {source : Option UsageSource} {c c' : Dict ℤ × Dict ℤ}
    (h : (rs.items.foldlM (closeStep account work run operation state actual source) c).run db
      = .ok (c', db')) :
    RowsOnly account work run operation db db' ∧
      ∀ d, (c'.1.get d, c'.2.get d, rows db' account work run operation d)
        = (rs d).elim (c.1.get d, c.2.get d, rows db account work run operation d)
            fun r => (c.1.get d + ((actual d).getD 0 : ℕ), c.2.get d - r.reservedAmount,
              (rows db account work run operation d).map (WorkUsage.closed state (actual d) source)) := by
  refine ⟨?_, fun d => ?_⟩
  · refine Tx.Keeps.foldlM (fun c p => ?_) rs.items c db c' db' h
    exact (closeRow_rowsOnly p.1 state (actual p.1) source).bind fun _ => Tx.Keeps.pure _
  · rw [foldlM_pointwise
      (fun (s : (Dict ℤ × Dict ℤ) × Ledgers) d =>
        (s.1.1.get d, s.1.2.get d, rows s.2 account work run operation d))
      (fun d r x => (x.1 + ((actual d).getD 0 : ℕ), x.2.1 - (r.reservedAmount : ℤ),
        x.2.2.map (WorkUsage.closed state (actual d) source))) ?_ rs.nodup_items h d,
      Dict.itemAt_items]
    intro b p s b' s' hstep e
    simp only [closeStep, Tx.bind_ok, closeRow_ok, Tx.pure_ok] at hstep
    obtain ⟨_, _, ⟨_, rfl⟩, rfl, rfl⟩ := hstep
    simp only [rows, Table.lookup_modify, WorkUsageKey.mk.injEq, true_and, Dict.get_set]
    by_cases he : e = p.1
    · subst he
      cases hn : actual p.1 <;> simp [Dict.get_set]
    · cases hn : actual p.1 <;> simp [Dict.get_set, he]

end statements

/-! ### What a call did -/

/-- What an optional row contributes to the reserved counter. -/
def heldOf (r : Option WorkUsage) : ℤ := r.elim 0 fun r => r.hold.reservedAmount

/-- What an optional row contributes to the used counter. -/
def usedOf (r : Option WorkUsage) : ℤ := r.elim 0 fun r => r.hold.usedAmount

/-- The rows of the operation became `rs`, and the counters of its Work moved along. -/
structure Rewrote (account work run : Uuid) (operation : String) (rs : Dict WorkUsage) (db db' : Ledgers) :
    Prop where
  budget : ∃ b b' : WorkBudget, db.workBudgets.lookup (account, work) = some b ∧
    db' = { db with workUsage := db'.workUsage,
                    workBudgets := db.workBudgets.insert (account, work) b' } ∧
    ∀ d, b'.reserved.get d - b.reserved.get d
        = heldOf (rs d) - heldOf (rows db account work run operation d) ∧
      b'.used.get d - b.used.get d = usedOf (rs d) - usedOf (rows db account work run operation d)
  frame : ∀ k : WorkUsageKey, k ≠ ⟨account, work, run, operation, k.dimension⟩ →
    db'.workUsage.lookup k = db.workUsage.lookup k
  rows_eq : rows db' account work run operation = rs

section service

variable {account work run : Uuid} {operation : String} {db db' : Ledgers} {rs : Dict WorkUsage}

/-- Every rewriting of an operation's rows conserves the Work ledger. -/
theorem Rewrote.conserved (h : Rewrote account work run operation rs db db') (hc : WorkConserved db) :
    WorkConserved db' := by
  obtain ⟨b, b', hb, hdb, hmoved⟩ := h.budget
  have hrows : ∀ d, db'.workUsage.lookup ⟨account, work, run, operation, d⟩ = rs d :=
    fun d => congrFun h.rows_eq d
  have hbudget : ∀ c, db'.workBudgets.lookup c
      = if c = (account, work) then some b' else db.workBudgets.lookup c := by
    intro c
    rw [hdb]
    exact Table.lookup_insert_ite _ _ _ _
  refine Ledger.Balanced.move_operation hc (fun c d => ⟨c.1, c.2, run, operation, d⟩) (fun _ _ => rfl)
    (account, work) (fun k hk => h.frame k hk) (fun c hne d => ?_) (fun d => ?_) (fun d => ?_)
  · simp only [Ledgers.workReserved, Ledgers.workUsed, hbudget, if_neg hne, and_self]
  · simp only [Ledgers.workReserved, hbudget, if_true, hb, Option.elim_some, Ledger.reservedAt, hrows]
    exact (hmoved d).1
  · simp only [Ledgers.workUsed, hbudget, if_true, hb, Option.elim_some, Ledger.usedAt, hrows]
    exact (hmoved d).2

/-- The rows a reservation opens. -/
def opened (values : Dict ℕ) : Dict WorkUsage := fun d => (values d).map fun n => ⟨.reserved, n, none, none⟩

/-- The rows a closing call leaves. -/
def closedRows (rs : Dict WorkUsage) (state : UsageState) (actual : Dict ℕ) (source : Option UsageSource) :
    Dict WorkUsage :=
  fun d => (rs d).map (WorkUsage.closed state (actual d) source)

theorem noRows_iff : noRows rs = true ↔ rs = Dict.empty := by
  unfold noRows
  rw [decide_eq_true_iff, funext_iff]
  rfl

theorem allRows_iff {p : WorkUsage → Bool} : allRows rs p = true ↔ ∀ d r, rs d = some r → p r = true := by
  unfold allRows
  rw [decide_eq_true_iff]
  simp only [Option.mem_def]

theorem reserve_rewrote {b : WorkBudget} {revision epoch : ℕ} {status : RunStatus} {values : Dict ℕ}
    {u : Unit} (hb : db.workBudgets.lookup (account, work) = some b)
    (hrs : rows db account work run operation = Dict.empty)
    (h : (reserve account work run operation b revision epoch status values).run db = .ok (u, db')) :
    Rewrote account work run operation (opened values) db db' := by
  unfold reserve at h
  rw [Tx.bind_query_ok, Tx.bind_check_ok, Tx.bind_check_ok, Tx.bind_ok] at h
  obtain ⟨_, _, reserved, db₁, hloop, hwrite⟩ := h
  obtain ⟨honly, hpoint⟩ := reserve_loop hloop
  obtain rfl := Tx.update_ok.mp hwrite
  have hget : ∀ d, reserved.get d = b.reserved.get d + (values d).getD 0
      ∧ rows db₁ account work run operation d = opened values d := by
    intro d
    have hd := hpoint d
    rw [hrs] at hd
    unfold opened
    cases hv : values d with
    | none => simpa [hv, Dict.empty] using hd
    | some n => simpa [hv] using hd
  refine ⟨⟨b, ⟨b.limits, b.used, reserved, b.version + 1⟩, hb, ?_, fun d => ?_⟩, honly.2, funext fun d => (hget d).2⟩
  · rw [honly.1]
  · rw [hrs]
    have hd := (hget d).1
    unfold opened Dict.empty
    cases hv : values d with
    | none => simp [hv] at hd; simp [hd, heldOf, usedOf]
    | some n =>
        simp [hv] at hd
        simp [hd, heldOf, usedOf, WorkUsage.hold, Hold.reservedAmount, Hold.usedAmount]

theorem close_rewrote {b : WorkBudget} {state : UsageState} {actual : Dict ℕ} {source : Option UsageSource}
    {u : Unit} (hb : db.workBudgets.lookup (account, work) = some b)
    (hrs : rows db account work run operation = rs)
    (hreserved : allRows rs (fun r => r.state = .reserved) = true)
    (hstate : state = .settled ∨ state = .released ∧ actual = Dict.empty)
    (h : (close account work run operation b rs state actual source).run db = .ok (u, db')) :
    Rewrote account work run operation (closedRows rs state actual source) db db' := by
  unfold close at h
  rw [Tx.bind_ok] at h
  obtain ⟨c, db₁, hloop, hwrite⟩ := h
  obtain ⟨honly, hpoint⟩ := close_loop hloop
  obtain rfl := Tx.update_ok.mp hwrite
  have hget : ∀ d, c.1.get d = b.used.get d + (rs d).elim 0 (fun _ => ((actual d).getD 0 : ℤ))
      ∧ c.2.get d = b.reserved.get d - (rs d).elim 0 (fun r => (r.reservedAmount : ℤ))
      ∧ rows db₁ account work run operation d = closedRows rs state actual source d := by
    intro d
    have hd := hpoint d
    rw [hrs] at hd
    unfold closedRows
    cases hr : rs d with
    | none => simpa [hr] using hd
    | some r => simpa [hr] using hd
  refine ⟨⟨b, ⟨b.limits, c.1, c.2, b.version + 1⟩, hb, ?_, fun d => ?_⟩, honly.2,
    funext fun d => (hget d).2.2⟩
  · rw [honly.1]
  · obtain ⟨hused, hres, _⟩ := hget d
    rw [hrs]
    unfold closedRows
    cases hr : rs d with
    | none => simp [hused, hres, hr, heldOf, usedOf]
    | some r =>
        have hheld : r.state = .reserved := by simpa using allRows_iff.mp hreserved d r hr
        rcases hstate with rfl | ⟨rfl, rfl⟩ <;>
          simp [hused, hres, hr, heldOf, usedOf, WorkUsage.hold, WorkUsage.closed, Hold.reservedAmount,
            Hold.usedAmount, hheld, Dict.empty]

/-- The outcomes of `mutate` for a Run of the Work: the rows are rewritten, or the call repeats one
that has already been recorded and changes nothing. -/
inductive Done (account work run : Uuid) (operation : String) (db : Ledgers) : Action → Ledgers → Prop
  | opened {values : Dict ℕ} {db' : Ledgers} (hrows : rows db account work run operation = Dict.empty)
      (hdone : Rewrote account work run operation (opened values) db db') :
      Done account work run operation db (.reserve values) db'
  | reserveReplayed {values : Dict ℕ} (hrows : rows db account work run operation ≠ Dict.empty)
      (hamounts : reservedAmounts (rows db account work run operation) = values) :
      Done account work run operation db (.reserve values) db
  | settled {actual : Dict ℕ} {source : UsageSource} {rs : Dict WorkUsage} {db' : Ledgers}
      (hrows : rows db account work run operation = rs) (hne : rs ≠ Dict.empty)
      (hreserved : ∀ d r, rs d = some r → r.state = .reserved)
      (hkeys : ∀ d, (rs d).isSome = (actual d).isSome)
      (hdone : Rewrote account work run operation (closedRows rs .settled actual (some source)) db db') :
      Done account work run operation db (.settle actual source) db'
  | settleReplayed {actual : Dict ℕ} {source : UsageSource} {rs : Dict WorkUsage}
      (hrows : rows db account work run operation = rs) (hne : rs ≠ Dict.empty)
      (hsettled : ∀ d r, rs d = some r → r.state = .settled ∧ r.usageSource = some source)
      (hactual : ∀ d, (rs d).map WorkUsage.actualAmount = (actual d).map some) :
      Done account work run operation db (.settle actual source) db
  | released {rs : Dict WorkUsage} {db' : Ledgers}
      (hrows : rows db account work run operation = rs) (hne : rs ≠ Dict.empty)
      (hreserved : ∀ d r, rs d = some r → r.state = .reserved)
      (hdone : Rewrote account work run operation (closedRows rs .released Dict.empty none) db db') :
      Done account work run operation db .release db'
  | releaseReplayed {rs : Dict WorkUsage}
      (hrows : rows db account work run operation = rs) (hne : rs ≠ Dict.empty)
      (hreleased : ∀ d r, rs d = some r → r.state = .released) :
      Done account work run operation db .release db

theorem mutateWork_ok {revision epoch : ℕ} {status : RunStatus} {action : Action} {u : Unit}
    (h : (mutateWork account work run operation revision epoch status action).run db = .ok (u, db')) :
    Done account work run operation db action db' := by
  unfold mutateWork at h
  rw [Tx.bind_query_ok, Tx.bind_demand_ok] at h
  obtain ⟨b, hb, h⟩ := h
  rw [Tx.bind_query_ok] at h
  have hempty : ¬ noRows (rows db account work run operation) = true →
      rows db account work run operation ≠ Dict.empty := fun hn he => hn (noRows_iff.mpr he)
  cases action with
  | reserve values =>
      dsimp only at h
      split at h
      · next hn => exact .opened (noRows_iff.mp hn) (reserve_rewrote hb (noRows_iff.mp hn) h)
      · next hn =>
          obtain ⟨hamounts, rfl⟩ := Tx.check_ok.mp h
          exact .reserveReplayed (hempty hn) hamounts
  | settle actual source =>
      dsimp only at h
      split at h
      · exact (Tx.raise_ok.mp h).elim
      next hn =>
      split at h
      · next hall =>
          obtain ⟨⟨hactual, hsource⟩, rfl⟩ := Tx.check_ok.mp h
          refine .settleReplayed rfl (hempty hn) (fun d r hr => ⟨?_, ?_⟩) hactual
          · simpa using allRows_iff.mp hall d r hr
          · simpa using allRows_iff.mp hsource d r hr
      · rw [Tx.bind_check_ok] at h
        obtain ⟨⟨hall, hkeys⟩, h⟩ := h
        refine .settled rfl (hempty hn) (fun d r hr => ?_) hkeys (close_rewrote hb rfl hall (.inl rfl) h)
        simpa using allRows_iff.mp hall d r hr
  | release =>
      dsimp only at h
      split at h
      · exact (Tx.raise_ok.mp h).elim
      next hn =>
      split at h
      · next hall =>
          obtain ⟨_, rfl⟩ := Tx.pure_ok.mp h
          exact .releaseReplayed rfl (hempty hn) fun d r hr => by simpa using allRows_iff.mp hall d r hr
      · rw [Tx.bind_check_ok] at h
        obtain ⟨hall, h⟩ := h
        refine .released rfl (hempty hn) (fun d r hr => ?_) (close_rewrote hb rfl hall (.inr ⟨rfl, rfl⟩) h)
        simpa using allRows_iff.mp hall d r hr

/-- The Work a Run is metered on, with its account. -/
def meteredOn (a : Authority) (run : Uuid) : Option (Uuid × Uuid) :=
  (a.runs run).bind fun r => r.workId.map (r.accountId, ·)

/-- **What `mutate` did.** -/
theorem mutate_ok {action : Action} {u : Unit} (h : (mutate run operation action).run db = .ok (u, db')) :
    (meteredOn db.authority run = none ∧ db' = db) ∨
      ∃ account work, meteredOn db.authority run = some (account, work) ∧
        Done account work run operation db action db' := by
  unfold mutate at h
  rw [Tx.bind_query_ok] at h
  unfold meteredOn
  cases hr : db.authority.runs run with
  | none =>
      rw [hr] at h
      exact .inl ⟨rfl, (Tx.pure_ok.mp h).2.symm⟩
  | some r =>
      rw [hr] at h
      dsimp only at h
      unfold Run.workId
      cases hs : r.source with
      | chat conversation =>
          rw [hs] at h
          exact .inl ⟨by simp [hs], (Tx.pure_ok.mp h).2.symm⟩
      | work work revision epoch =>
          rw [hs] at h
          exact .inr ⟨r.accountId, work, by simp [hs], mutateWork_ok h⟩

theorem Done.changed {action : Action} (h : Done account work run operation db action db') :
    db' = db ∨ ∃ rs, Rewrote account work run operation rs db db' := by
  cases h with
  | opened _ hdone => exact .inr ⟨_, hdone⟩
  | reserveReplayed => exact .inl rfl
  | settled _ _ _ _ hdone => exact .inr ⟨_, hdone⟩
  | settleReplayed => exact .inl rfl
  | released _ _ _ hdone => exact .inr ⟨_, hdone⟩
  | releaseReplayed => exact .inl rfl

/-- Only the two Work budget tables change. -/
theorem mutate_frame {action : Action} {u : Unit} (h : (mutate run operation action).run db = .ok (u, db')) :
    db' = { db with workUsage := db'.workUsage, workBudgets := db'.workBudgets } := by
  rcases mutate_ok h with ⟨_, rfl⟩ | ⟨account, work, _, hdone⟩
  · rfl
  · rcases hdone.changed with rfl | ⟨rs, hrs⟩
    · rfl
    · obtain ⟨b, b', _, hdb, _⟩ := hrs.budget
      rw [hdb]

/-- **Work ledger conservation** through one call. -/
theorem mutate_conserved {action : Action} {u : Unit}
    (h : (mutate run operation action).run db = .ok (u, db')) (hc : WorkConserved db) : WorkConserved db' := by
  rcases mutate_ok h with ⟨_, rfl⟩ | ⟨account, work, _, hdone⟩
  · exact hc
  · rcases hdone.changed with rfl | ⟨rs, hrs⟩
    · exact hc
    · exact hrs.conserved hc

end service

end WorkBudget

end HpAgent.Budget
