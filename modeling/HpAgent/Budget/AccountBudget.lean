import HpAgent.Budget.State

/-! # Account/day token budgets

`AccountDailyBudgetService`: one budget per account and UTC day, one ledger row per operation.  A settle
or release that does not name the quota date finds the operation's only row over all dates
(`lockedLedger`), so a reservation is closed on the day it was opened.

`reserveInUow_ok`, `settleInUow_ok` and `releaseInUow_ok` give the outcomes of a successful call, and
`reserve_conserved` and its siblings the conservation of the account ledger. -/

namespace HpAgent.Budget

open Library

/-- `AccountBudgetMutation`. -/
structure AccountMutation where
  accountId : Uuid
  quotaDate : Date
  operationId : String
  tokens : ℕ
  state : UsageState
  replayed : Bool
deriving DecidableEq, Repr

namespace AccountBudget

/-- `_tokens`. -/
def tokens (value : Raw) : Except Error ℕ :=
  match value.amount with
  | some n => .ok n
  | none => .error (.valueError "tokens must be a non-negative integer")

/-- `quota_date`. -/
def quotaDate (at? : Option DateTime) (now : Instant) : Except Error Date :=
  match at?.getD ⟨now, true⟩ with
  | ⟨instant, true⟩ => .ok instant.utcDate
  | ⟨_, false⟩ => .error (.valueError "quota clock must be timezone-aware")

/-- The keyword arguments of a reservation. -/
structure Options where
  at? : Option DateTime := none
  snapshotId : Option Uuid := none
  expectedEntitlementVersion : Option ℕ := none
  endpointAccessTier : Option String := none
  quotaDate : Option Date := none

/-! ### Statements -/

/-- `INSERT INTO account_daily_model_budgets … ON CONFLICT DO NOTHING`. -/
def ensureDaily (account : Uuid) (day : Date) : BudgetTx Unit :=
  Tx.update fun db =>
    { db with dailyBudgets :=
                match db.dailyBudgets.lookup (account, day) with
                | some _ => db.dailyBudgets
                | none => db.dailyBudgets.insert (account, day) ⟨0, 0⟩ }

/-- `UPDATE account_daily_model_budgets`, under its check constraint. -/
def addDaily (account : Uuid) (day : Date) (used reserved : ℤ) : BudgetTx Unit := do
  let found ← Tx.query fun db => db.dailyBudgets.lookup (account, day)
  match found with
  | none => pure ()
  | some b => do
    Tx.check (b.usedTokens + used ≤ bigintMax ∧ b.reservedTokens + reserved ≤ bigintMax) .numericValueOutOfRange
    Tx.check (0 ≤ b.usedTokens + used ∧ 0 ≤ b.reservedTokens + reserved) .integrityError
    Tx.update fun db =>
      { db with dailyBudgets := db.dailyBudgets.insert (account, day)
                  ⟨b.usedTokens + used, b.reservedTokens + reserved⟩ }

/-- `INSERT INTO account_model_usage_ledger … 'reserved'`. -/
def insertRow (key : AccountUsageKey) (snapshot : Option Uuid) (amount : ℕ) : BudgetTx Unit := do
  let old ← Tx.query fun db => db.accountUsage.lookup key
  Tx.check (old = none) .integrityError
  Tx.check (amount ≤ bigintMax) .numericValueOutOfRange
  Tx.update fun db =>
    { db with accountUsage := db.accountUsage.insert key ⟨snapshot, .reserved, amount, none, none⟩ }

/-- `UPDATE account_model_usage_ledger` of one row. -/
def writeRow (key : AccountUsageKey) (row : AccountUsage) : BudgetTx Unit := do
  Tx.check (row.actualTokens.getD 0 ≤ bigintMax) .numericValueOutOfRange
  Tx.update fun db => { db with accountUsage := db.accountUsage.insert key row }

/-- The quota dates on which the account has a row for the operation. -/
def datesOf (db : Ledgers) (account : Uuid) (operation : String) : List Date :=
  (db.accountUsage.keys.filter fun k => k.accountId = account ∧ k.operationId = operation).map
    AccountUsageKey.quotaDate

/-! ### The service -/

/-- The day of the row a closing call acts on. -/
def ledgerDay (account : Uuid) (operation : String) : Option Date → BudgetTx Date
  | some day => pure day
  | none => do
    let dates ← Tx.query fun db => datesOf db account operation
    match dates with
    | [day] => pure day
    | _ => Tx.raise (.accountDailyBudgetConflict "operation is not uniquely reserved")

/-- `_locked_ledger`. -/
def lockedLedger (account : Uuid) (operation : String) (quotaDate : Option Date) :
    BudgetTx (Date × AccountUsage) := do
  let day ← ledgerDay account operation quotaDate
  let summary ← Tx.query fun db => db.dailyBudgets.lookup (account, day)
  let found ← Tx.query fun db => db.accountUsage.lookup ⟨account, day, operation⟩
  Tx.check (summary.isSome) (.accountDailyBudgetConflict "operation is not reserved")
  let row ← Tx.demand found (.accountDailyBudgetConflict "operation is not reserved")
  pure (day, row)

/-- The entitlement checks of a reservation. -/
def checkEntitlement (account : Uuid) (o : Options) (now : Instant) : BudgetTx Entitlement := do
  let lookup ← Tx.query fun db => db.authority.entitlementOf account o.at? now
  let (state, found) ← Tx.ofExcept lookup
  let e ← Tx.demand (if state = .valid then found else none)
    (.accountModelEntitlementUnavailable ("model entitlement is " ++ state.value))
  Tx.check (∀ v ∈ o.expectedEntitlementVersion, e.version = v)
    (.accountModelEntitlementUnavailable "model entitlement version changed")
  Tx.check (∀ tier ∈ o.endpointAccessTier, e.modelAccessTier = "owner" ∨ e.modelAccessTier = tier)
    (.modelAccessTierDenied "model endpoint access tier denied")
  pure e

/-- The branch of a reservation without an earlier row. -/
def openHold (account : Uuid) (day : Date) (operation : String) (requested : ℕ) (snapshot : Option Uuid)
    (limit : Option ℕ) : BudgetTx AccountMutation := do
  let found ← Tx.query fun db => db.dailyBudgets.lookup (account, day)
  let summary ← Tx.demand found .typeError
  Tx.check (∀ l ∈ limit, summary.usedTokens + summary.reservedTokens + requested ≤ l)
    (.accountDailyBudgetExhausted "Account daily model token budget exhausted")
  insertRow ⟨account, day, operation⟩ snapshot requested
  addDaily account day 0 requested
  pure ⟨account, day, operation, requested, .reserved, false⟩

/-- `reserve_in_uow`. -/
def reserveInUow (account : Uuid) (operation : String) (value : Raw) (o : Options) (now : Instant) :
    BudgetTx AccountMutation := do
  let requested ← Tx.ofExcept (tokens value)
  checkOperation operation
  let e ← checkEntitlement account o now
  let day ← Tx.ofExcept (match o.quotaDate with
    | some day => .ok day
    | none => quotaDate o.at? now)
  ensureDaily account day
  let existing ← Tx.query fun db => db.accountUsage.lookup ⟨account, day, operation⟩
  match existing with
  | some row => do
    Tx.check (row.reservedTokens = requested ∧ row.snapshotId = o.snapshotId)
      (.accountDailyBudgetConflict "operation_id was reserved with different tokens")
    pure ⟨account, day, operation, requested, row.state, true⟩
  | none => openHold account day operation requested o.snapshotId e.dailyTokenLimit

/-- `settle_in_uow`. -/
def settleInUow (account : Uuid) (operation : String) (value : Raw) (usageSource : String)
    (date : Option Date) : BudgetTx AccountMutation := do
  let actual ← Tx.ofExcept (tokens value)
  checkOperation operation
  let source ← Tx.ofExcept (UsageSource.parse usageSource)
  let (day, row) ← lockedLedger account operation date
  match row.state with
  | .settled => do
    Tx.check (row.actualTokens = some actual ∧ row.usageSource = some source)
      (.accountDailyBudgetConflict "operation_id was already settled differently")
    pure ⟨account, day, operation, actual, .settled, true⟩
  | .released => Tx.raise (.accountDailyBudgetConflict "operation is not reserved")
  | .reserved => do
    writeRow ⟨account, day, operation⟩
      { row with state := .settled, actualTokens := some actual, usageSource := some source }
    addDaily account day actual (-row.reservedTokens)
    pure ⟨account, day, operation, actual, .settled, false⟩

/-- `release_in_uow`. -/
def releaseInUow (account : Uuid) (operation : String) (date : Option Date) : BudgetTx AccountMutation := do
  checkOperation operation
  let (day, row) ← lockedLedger account operation date
  match row.state with
  | .released => pure ⟨account, day, operation, row.reservedTokens, .released, true⟩
  | .settled => Tx.raise (.accountDailyBudgetConflict "settled usage cannot be released")
  | .reserved => do
    writeRow ⟨account, day, operation⟩ { row with state := .released }
    addDaily account day 0 (-row.reservedTokens)
    pure ⟨account, day, operation, row.reservedTokens, .released, false⟩

/-! ### What a call did -/

/-- What an optional row contributes to the reserved counter. -/
def heldOf (r : Option AccountUsage) : ℤ := r.elim 0 fun r => r.hold.reservedAmount

/-- What an optional row contributes to the used counter. -/
def usedOf (r : Option AccountUsage) : ℤ := r.elim 0 fun r => r.hold.usedAmount

/-- The row under `key` became `row`, and the counters of its day moved along. -/
structure Rewrote (key : AccountUsageKey) (row : AccountUsage) (db db' : Ledgers) : Prop where
  only : db' = { db with accountUsage := db.accountUsage.insert key row, dailyBudgets := db'.dailyBudgets }
  other : ∀ c, c ≠ key.cell → db'.dailyBudgets.lookup c = db.dailyBudgets.lookup c
  reserved : db'.dailyReserved key.cell - db.dailyReserved key.cell
    = heldOf (some row) - heldOf (db.accountUsage.lookup key)
  used : db'.dailyUsed key.cell - db.dailyUsed key.cell
    = usedOf (some row) - usedOf (db.accountUsage.lookup key)

section specs

variable {account : Uuid} {operation : String} {db db' : Ledgers} {m : AccountMutation}

theorem Rewrote.conserved {key : AccountUsageKey} {row : AccountUsage} (h : Rewrote key row db db')
    (hc : AccountConserved db) : AccountConserved db' := by
  have hlookup : ∀ k, db'.accountUsage.lookup k = if k = key then some row else db.accountUsage.lookup k := by
    intro k
    rw [h.only]
    exact Table.lookup_insert_ite _ _ _ _
  refine Ledger.Balanced.move hc (fun c => ⟨c.1, c.2, key.operationId⟩) (fun _ => rfl) (fun k hk => ?_)
    (fun c => ?_) (fun c => ?_)
  · have hne : k ≠ key := by
      rintro rfl
      exact hk rfl
    rw [hlookup, if_neg hne]
  · by_cases hcell : c = key.cell
    · have hkey : (⟨c.1, c.2, key.operationId⟩ : AccountUsageKey) = key := by rw [hcell]; rfl
      rw [hkey, Ledger.reservedAt, Ledger.reservedAt, hlookup, if_pos rfl, hcell]
      exact h.reserved
    · have hkey : (⟨c.1, c.2, key.operationId⟩ : AccountUsageKey) ≠ key := by
        rintro he
        exact hcell (congrArg AccountUsageKey.cell he)
      rw [Ledger.reservedAt, Ledger.reservedAt, hlookup, if_neg hkey, sub_self]
      unfold Ledgers.dailyReserved
      rw [h.other c hcell, sub_self]
  · by_cases hcell : c = key.cell
    · have hkey : (⟨c.1, c.2, key.operationId⟩ : AccountUsageKey) = key := by rw [hcell]; rfl
      rw [hkey, Ledger.usedAt, Ledger.usedAt, hlookup, if_pos rfl, hcell]
      exact h.used
    · have hkey : (⟨c.1, c.2, key.operationId⟩ : AccountUsageKey) ≠ key := by
        rintro he
        exact hcell (congrArg AccountUsageKey.cell he)
      rw [Ledger.usedAt, Ledger.usedAt, hlookup, if_neg hkey, sub_self]
      unfold Ledgers.dailyUsed
      rw [h.other c hcell, sub_self]

/-- The stores agree on everything but rows of zeros for new days. -/
structure Quiet (db db' : Ledgers) : Prop where
  only : db' = { db with dailyBudgets := db'.dailyBudgets }
  reserved : db'.dailyReserved = db.dailyReserved
  used : db'.dailyUsed = db.dailyUsed

theorem Quiet.conserved (h : Quiet db db') (hc : AccountConserved db) : AccountConserved db' := by
  unfold AccountConserved
  rw [h.reserved, h.used, h.only]
  exact hc

theorem addDaily_ok {day : Date} {used reserved : ℤ} {u : Unit} {b : DailyBudget}
    (h : (addDaily account day used reserved).run db = .ok (u, db'))
    (hb : db.dailyBudgets.lookup (account, day) = some b) :
    db' = { db with dailyBudgets := db.dailyBudgets.insert (account, day)
                      ⟨b.usedTokens + used, b.reservedTokens + reserved⟩ } := by
  unfold addDaily at h
  rw [Tx.bind_query_ok, hb] at h
  dsimp only at h
  rw [Tx.bind_check_ok, Tx.bind_check_ok] at h
  exact (Tx.update_ok.mp h.2.2).symm

/-- A row is written and the summary of its day is moved by what the row's contribution changes. -/
theorem rewrote_of_write {key : AccountUsageKey} {row : AccountUsage} {b : DailyBudget} {used reserved : ℤ}
    (hb : db.dailyBudgets.lookup key.cell = some b)
    (hreserved : reserved = heldOf (some row) - heldOf (db.accountUsage.lookup key))
    (hused : used = usedOf (some row) - usedOf (db.accountUsage.lookup key)) :
    Rewrote key row db
      { db with accountUsage := db.accountUsage.insert key row,
                dailyBudgets := db.dailyBudgets.insert key.cell
                  ⟨b.usedTokens + used, b.reservedTokens + reserved⟩ } := by
  refine ⟨rfl, fun c hc => ?_, ?_, ?_⟩
  · exact (Table.lookup_insert_ite _ _ _ _).trans (if_neg hc)
  · simp only [Ledgers.dailyReserved, AList.lookup_insert, hb, Option.elim_some]
    omega
  · simp only [Ledgers.dailyUsed, AList.lookup_insert, hb, Option.elim_some]
    omega

theorem ensureDaily_ok {day : Date} {u : Unit} (h : (ensureDaily account day).run db = .ok (u, db')) :
    Quiet db db' ∧ ∀ c, c ≠ (account, day) → db'.dailyBudgets.lookup c = db.dailyBudgets.lookup c := by
  unfold ensureDaily at h
  obtain rfl := Tx.update_ok.mp h
  cases hb : db.dailyBudgets.lookup (account, day) with
  | some b => exact ⟨⟨rfl, rfl, rfl⟩, fun _ _ => rfl⟩
  | none =>
      have hlookup : ∀ c, (db.dailyBudgets.insert (account, day) ⟨0, 0⟩).lookup c
          = if c = (account, day) then some ⟨0, 0⟩ else db.dailyBudgets.lookup c :=
        fun c => Table.lookup_insert_ite _ _ _ _
      refine ⟨⟨rfl, funext fun c => ?_, funext fun c => ?_⟩, fun c hc => ?_⟩
      · unfold Ledgers.dailyReserved
        dsimp only
        rw [hlookup]
        split
        · next hc => rw [hc, hb]; rfl
        · rfl
      · unfold Ledgers.dailyUsed
        dsimp only
        rw [hlookup]
        split
        · next hc => rw [hc, hb]; rfl
        · rfl
      · exact (hlookup c).trans (if_neg hc)

theorem openHold_ok {day : Date} {requested : ℕ} {snapshot : Option Uuid} {limit : Option ℕ}
    (h : (openHold account day operation requested snapshot limit).run db = .ok (m, db')) :
    m = ⟨account, day, operation, requested, .reserved, false⟩ ∧
      db.accountUsage.lookup ⟨account, day, operation⟩ = none ∧
      Rewrote ⟨account, day, operation⟩ ⟨snapshot, .reserved, requested, none, none⟩ db db' := by
  unfold openHold at h
  rw [Tx.bind_query_ok, Tx.bind_demand_ok] at h
  obtain ⟨b, hb, h⟩ := h
  rw [Tx.bind_check_ok, Tx.bind_ok] at h
  obtain ⟨_, _, s, hins, h⟩ := h
  unfold insertRow at hins
  rw [Tx.bind_query_ok, Tx.bind_check_ok, Tx.bind_check_ok] at hins
  obtain ⟨hnone, _, hins⟩ := hins
  obtain rfl := Tx.update_ok.mp hins
  rw [Tx.bind_ok] at h
  obtain ⟨_, s, hadd, h⟩ := h
  obtain ⟨rfl, rfl⟩ := Tx.pure_ok.mp h
  obtain rfl := addDaily_ok hadd hb
  refine ⟨rfl, hnone, rewrote_of_write hb ?_ ?_⟩
  · rw [hnone]
    simp [heldOf, AccountUsage.hold, Hold.reservedAmount]
  · rw [hnone]
    simp [usedOf, AccountUsage.hold, Hold.usedAmount]

theorem checkEntitlement_ok {o : Options} {now : Instant} {e : Entitlement}
    (h : (checkEntitlement account o now).run db = .ok (e, db')) : db = db' := by
  unfold checkEntitlement at h
  rw [Tx.bind_query_ok, Tx.bind_ofExcept_ok] at h
  obtain ⟨⟨state, found⟩, _, h⟩ := h
  rw [Tx.bind_demand_ok] at h
  obtain ⟨_, _, h⟩ := h
  rw [Tx.bind_check_ok, Tx.bind_check_ok] at h
  exact (Tx.pure_ok.mp h.2.2).2

theorem bind_checkOperation_ok {α : Type} {f : Unit → BudgetTx α} {r : α × Ledgers} :
    (checkOperation operation >>= f).run db = .ok r ↔
      (operation ≠ "" ∧ operation.length ≤ 200) ∧ (f ()).run db = .ok r :=
  Tx.bind_check_ok

/-- The outcomes of a reservation of `requested` tokens on `day`. -/
inductive Reserved (account : Uuid) (day : Date) (operation : String) (requested : ℕ)
    (snapshot : Option Uuid) (db : Ledgers) : AccountMutation → Ledgers → Prop
  | opened {db' : Ledgers} (hnone : db.accountUsage.lookup ⟨account, day, operation⟩ = none)
      (hdone : Rewrote ⟨account, day, operation⟩ ⟨snapshot, .reserved, requested, none, none⟩ db db') :
      Reserved account day operation requested snapshot db
        ⟨account, day, operation, requested, .reserved, false⟩ db'
  | replayed {row : AccountUsage} {db' : Ledgers}
      (hrow : db.accountUsage.lookup ⟨account, day, operation⟩ = some row)
      (htokens : row.reservedTokens = requested) (hsnapshot : row.snapshotId = snapshot)
      (hquiet : Quiet db db') :
      Reserved account day operation requested snapshot db
        ⟨account, day, operation, requested, row.state, true⟩ db'

/-- **What a reservation did.** -/
theorem reserveInUow_ok {value : Raw} {o : Options} {now : Instant}
    (h : (reserveInUow account operation value o now).run db = .ok (m, db')) :
    ∃ requested day, tokens value = .ok requested ∧ (∀ d ∈ o.quotaDate, day = d) ∧
      Reserved account day operation requested o.snapshotId db m db' := by
  unfold reserveInUow at h
  rw [Tx.bind_ofExcept_ok] at h
  obtain ⟨requested, htokens, h⟩ := h
  rw [bind_checkOperation_ok, Tx.bind_ok] at h
  obtain ⟨_, e, s, hent, h⟩ := h
  obtain rfl := checkEntitlement_ok hent
  rw [Tx.bind_ofExcept_ok] at h
  obtain ⟨day, hday, h⟩ := h
  rw [Tx.bind_ok] at h
  obtain ⟨_, s, hens, h⟩ := h
  obtain ⟨hquiet, hother⟩ := ensureDaily_ok hens
  rw [Tx.bind_query_ok] at h
  have husage : s.accountUsage = db.accountUsage := by rw [hquiet.only]
  refine ⟨requested, day, htokens, fun d hd => ?_, ?_⟩
  · rw [Option.mem_def] at hd
    rw [hd] at hday
    exact (Except.ok.inj hday).symm
  · cases hrow : s.accountUsage.lookup ⟨account, day, operation⟩ with
    | some row =>
        rw [hrow] at h
        dsimp only at h
        rw [Tx.bind_check_ok] at h
        obtain ⟨⟨hreq, hsnap⟩, h⟩ := h
        obtain ⟨rfl, rfl⟩ := Tx.pure_ok.mp h
        exact .replayed (by rw [← husage, hrow]) hreq hsnap hquiet
    | none =>
        rw [hrow] at h
        obtain ⟨rfl, _, hdone⟩ := openHold_ok h
        refine .opened (by rw [← husage, hrow]) ⟨?_, fun c hc => ?_, ?_, ?_⟩
        · rw [hdone.only, hquiet.only]
        · rw [hdone.other c hc, hother c hc]
        · rw [← hquiet.reserved, ← husage]
          exact hdone.reserved
        · rw [← hquiet.used, ← husage]
          exact hdone.used

/-- A closing call acts on the named day, or on the only day that has a row. -/
def ActsOn (db : Ledgers) (account : Uuid) (operation : String) (date : Option Date) (day : Date) : Prop :=
  match date with
  | some d => day = d
  | none => datesOf db account operation = [day]

theorem lockedLedger_ok {date : Option Date} {day : Date} {row : AccountUsage}
    (h : (lockedLedger account operation date).run db = .ok ((day, row), db')) :
    db = db' ∧ ActsOn db account operation date day ∧
      db.accountUsage.lookup ⟨account, day, operation⟩ = some row ∧
      ∃ b, db.dailyBudgets.lookup (account, day) = some b := by
  unfold lockedLedger at h
  rw [Tx.bind_ok] at h
  obtain ⟨day', s, hday, h⟩ := h
  have hacts : db = s ∧ ActsOn db account operation date day' := by
    unfold ledgerDay at hday
    cases date with
    | some d =>
        obtain ⟨rfl, rfl⟩ := Tx.pure_ok.mp hday
        exact ⟨rfl, rfl⟩
    | none =>
        dsimp only at hday
        rw [Tx.bind_query_ok] at hday
        unfold ActsOn
        split at hday
        · next d hd =>
            obtain ⟨rfl, rfl⟩ := Tx.pure_ok.mp hday
            exact ⟨rfl, hd⟩
        · exact (Tx.raise_ok.mp hday).elim
  obtain ⟨rfl, hacts⟩ := hacts
  rw [Tx.bind_query_ok, Tx.bind_query_ok, Tx.bind_check_ok, Tx.bind_demand_ok] at h
  obtain ⟨hsummary, row', hrow, h⟩ := h
  obtain ⟨hpair, rfl⟩ := Tx.pure_ok.mp h
  obtain ⟨rfl, rfl⟩ := Prod.mk.inj hpair
  exact ⟨rfl, hacts, hrow, Option.isSome_iff_exists.mp hsummary⟩

theorem writeRow_ok {key : AccountUsageKey} {row : AccountUsage} {u : Unit}
    (h : (writeRow key row).run db = .ok (u, db')) :
    db' = { db with accountUsage := db.accountUsage.insert key row } := by
  unfold writeRow at h
  rw [Tx.bind_check_ok] at h
  exact (Tx.update_ok.mp h.2).symm

/-- The outcomes of a settlement at `actual` tokens. -/
inductive Settled (account : Uuid) (day : Date) (operation : String) (actual : ℕ) (source : UsageSource)
    (db : Ledgers) : AccountMutation → Ledgers → Prop
  | settled {row : AccountUsage} {db' : Ledgers}
      (hrow : db.accountUsage.lookup ⟨account, day, operation⟩ = some row) (hstate : row.state = .reserved)
      (hdone : Rewrote ⟨account, day, operation⟩
        { row with state := .settled, actualTokens := some actual, usageSource := some source } db db') :
      Settled account day operation actual source db ⟨account, day, operation, actual, .settled, false⟩ db'
  | replayed {row : AccountUsage}
      (hrow : db.accountUsage.lookup ⟨account, day, operation⟩ = some row) (hstate : row.state = .settled)
      (hactual : row.actualTokens = some actual) (hsource : row.usageSource = some source) :
      Settled account day operation actual source db ⟨account, day, operation, actual, .settled, true⟩ db

/-- **What a settlement did.** -/
theorem settleInUow_ok {value : Raw} {usageSource : String} {date : Option Date}
    (h : (settleInUow account operation value usageSource date).run db = .ok (m, db')) :
    ∃ actual source day, tokens value = .ok actual ∧ UsageSource.parse usageSource = .ok source ∧
      ActsOn db account operation date day ∧ Settled account day operation actual source db m db' := by
  unfold settleInUow at h
  rw [Tx.bind_ofExcept_ok] at h
  obtain ⟨actual, htokens, h⟩ := h
  rw [bind_checkOperation_ok, Tx.bind_ofExcept_ok] at h
  obtain ⟨_, source, hsource, h⟩ := h
  rw [Tx.bind_ok] at h
  obtain ⟨⟨day, row⟩, s, hlock, h⟩ := h
  obtain ⟨rfl, hacts, hrow, b, hb⟩ := lockedLedger_ok hlock
  refine ⟨actual, source, day, htokens, hsource, hacts, ?_⟩
  dsimp only at h
  cases hstate : row.state with
  | settled =>
      rw [hstate] at h
      dsimp only at h
      rw [Tx.bind_check_ok] at h
      obtain ⟨⟨hactual, hsrc⟩, h⟩ := h
      obtain ⟨rfl, rfl⟩ := Tx.pure_ok.mp h
      exact .replayed hrow hstate hactual hsrc
  | released =>
      rw [hstate] at h
      exact (Tx.raise_ok.mp h).elim
  | reserved =>
      rw [hstate] at h
      dsimp only at h
      rw [Tx.bind_ok] at h
      obtain ⟨_, s, hwrite, h⟩ := h
      obtain rfl := writeRow_ok hwrite
      rw [Tx.bind_ok] at h
      obtain ⟨_, s, hadd, h⟩ := h
      obtain ⟨rfl, rfl⟩ := Tx.pure_ok.mp h
      obtain rfl := addDaily_ok hadd hb
      refine .settled hrow hstate (rewrote_of_write hb ?_ ?_)
      · rw [hrow]
        simp [heldOf, AccountUsage.hold, Hold.reservedAmount, hstate]
      · rw [hrow]
        simp [usedOf, AccountUsage.hold, Hold.usedAmount, hstate]

/-- The outcomes of a release. -/
inductive Released (account : Uuid) (day : Date) (operation : String) (db : Ledgers) :
    AccountMutation → Ledgers → Prop
  | released {row : AccountUsage} {db' : Ledgers}
      (hrow : db.accountUsage.lookup ⟨account, day, operation⟩ = some row) (hstate : row.state = .reserved)
      (hdone : Rewrote ⟨account, day, operation⟩ { row with state := .released } db db') :
      Released account day operation db ⟨account, day, operation, row.reservedTokens, .released, false⟩ db'
  | replayed {row : AccountUsage}
      (hrow : db.accountUsage.lookup ⟨account, day, operation⟩ = some row) (hstate : row.state = .released) :
      Released account day operation db ⟨account, day, operation, row.reservedTokens, .released, true⟩ db

/-- **What a release did.** -/
theorem releaseInUow_ok {date : Option Date}
    (h : (releaseInUow account operation date).run db = .ok (m, db')) :
    ∃ day, ActsOn db account operation date day ∧ Released account day operation db m db' := by
  unfold releaseInUow at h
  rw [bind_checkOperation_ok, Tx.bind_ok] at h
  obtain ⟨_, ⟨day, row⟩, s, hlock, h⟩ := h
  obtain ⟨rfl, hacts, hrow, b, hb⟩ := lockedLedger_ok hlock
  refine ⟨day, hacts, ?_⟩
  dsimp only at h
  cases hstate : row.state with
  | released =>
      rw [hstate] at h
      obtain ⟨rfl, rfl⟩ := Tx.pure_ok.mp h
      exact .replayed hrow hstate
  | settled =>
      rw [hstate] at h
      exact (Tx.raise_ok.mp h).elim
  | reserved =>
      rw [hstate] at h
      dsimp only at h
      rw [Tx.bind_ok] at h
      obtain ⟨_, s, hwrite, h⟩ := h
      obtain rfl := writeRow_ok hwrite
      rw [Tx.bind_ok] at h
      obtain ⟨_, s, hadd, h⟩ := h
      obtain ⟨rfl, rfl⟩ := Tx.pure_ok.mp h
      obtain rfl := addDaily_ok hadd hb
      refine .released hrow hstate (rewrote_of_write hb ?_ ?_)
      · rw [hrow]
        simp [heldOf, AccountUsage.hold, Hold.reservedAmount, hstate]
      · rw [hrow]
        simp [usedOf, AccountUsage.hold, Hold.usedAmount, hstate]

end specs

end AccountBudget

end HpAgent.Budget
