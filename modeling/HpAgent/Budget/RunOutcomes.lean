import HpAgent.Budget.RunBudget

/-! # What the Run budget calls do

Each call is described by what it did to the rows of its operation: `Rewrote` when they changed (with the
counters of the Run's budget moving along), a repetition that changed nothing otherwise.  The Work half
of the call is described by `WorkBudget.Done`.

* `reserveInUow_ok`, `settleInUow_ok`, `releaseInUow_ok`: the outcomes of a successful call.
* `settleInUow_conserved` and its siblings: a call keeps the Run and Work counters equal to the sums of
  their ledger rows.
* `settleInUow_clamp` and its siblings: on conserved ledgers the clamp makes no difference. -/

namespace HpAgent.Budget

open Library

variable {caller : Caller} {enforceLimits finalResponse : Bool}

namespace RunBudget

/-- What an optional row contributes to the reserved counter. -/
def heldOf (r : Option RunUsage) : ℤ := r.elim 0 fun r => r.hold.reservedAmount

/-- What an optional row contributes to the used counter. -/
def usedOf (r : Option RunUsage) : ℤ := r.elim 0 fun r => r.hold.usedAmount

/-- The rows of the operation became `rs`, and the counters of its Run moved along. -/
structure Rewrote (run : Uuid) (operation : String) (rs : Dict RunUsage) (db db' : Ledgers) : Prop where
  budget : ∃ b b' : RunBudget, db.runBudgets.lookup run = some b ∧
    db' = { db with runUsage := db'.runUsage, runBudgets := db.runBudgets.insert run b' } ∧
    ∀ d, b'.reserved.get d - b.reserved.get d = heldOf (rs d) - heldOf (rows db run operation d) ∧
      b'.used.get d - b.used.get d = usedOf (rs d) - usedOf (rows db run operation d)
  frame : ∀ k : RunUsageKey, k ≠ ⟨run, operation, k.dimension⟩ →
    db'.runUsage.lookup k = db.runUsage.lookup k
  rows_eq : rows db' run operation = rs

/-- The rows a reservation opens. -/
def opened (values : Dict ℕ) (execution : Option Uuid) : Dict RunUsage :=
  fun d => (values d).map fun n => ⟨.reserved, n, none, none, execution⟩

/-- The rows a settlement leaves. -/
def settledRows (rs : Dict RunUsage) (actual : Dict ℕ) (source : UsageSource) : Dict RunUsage :=
  fun d => (rs d).map (RunUsage.settled (actual d) source)

/-- The rows a release leaves. -/
def releasedRows (rs : Dict RunUsage) : Dict RunUsage := fun d => (rs d).map RunUsage.released

section rows

variable {run : Uuid} {operation : String} {db db' : Ledgers} {rs : Dict RunUsage}

theorem noRows_iff : noRows rs = true ↔ rs = Dict.empty := by
  unfold noRows
  rw [decide_eq_true_iff, funext_iff]
  rfl

theorem noRows_eq_false_iff : noRows rs = false ↔ rs ≠ Dict.empty := by
  rw [Ne, ← noRows_iff, Bool.not_eq_true]

theorem allRows_iff {p : RunUsage → Bool} : allRows rs p = true ↔ ∀ d r, rs d = some r → p r = true := by
  unfold allRows
  rw [decide_eq_true_iff]
  simp only [Option.mem_def]

/-- Every rewriting of an operation's rows conserves the Run ledger. -/
theorem Rewrote.conserved (h : Rewrote run operation rs db db') (hc : RunConserved db) : RunConserved db' := by
  obtain ⟨b, b', hb, hdb, hmoved⟩ := h.budget
  have hrows : ∀ d, db'.runUsage.lookup ⟨run, operation, d⟩ = rs d := fun d => congrFun h.rows_eq d
  have hbudget : ∀ c, db'.runBudgets.lookup c = if c = run then some b' else db.runBudgets.lookup c := by
    intro c
    rw [hdb]
    exact Table.lookup_insert_ite _ _ _ _
  refine Ledger.Balanced.move_operation hc (fun c d => ⟨c, operation, d⟩) (fun _ _ => rfl) run
    (fun k hk => h.frame k hk) (fun c hne d => ?_) (fun d => ?_) (fun d => ?_)
  · simp only [Ledgers.runReserved, Ledgers.runUsed, hbudget, if_neg hne, and_self]
  · simp only [Ledgers.runReserved, hbudget, if_true, hb, Option.elim_some, Ledger.reservedAt, hrows]
    exact (hmoved d).1
  · simp only [Ledgers.runUsed, hbudget, if_true, hb, Option.elim_some, Ledger.usedAt, hrows]
    exact (hmoved d).2

/-- A row that is still reserved fits under the counter it is subtracted from. -/
theorem held_le_reserved (hc : RunConserved db) {b : RunBudget} (hb : db.runBudgets.lookup run = some b)
    {d : Dimension} {r : RunUsage} (hr : rows db run operation d = some r) (hs : r.state = .reserved) :
    (r.reservedAmount : ℤ) ≤ b.reserved.get d := by
  have hle := Ledger.Balanced.held_le hc (show db.runUsage.lookup ⟨run, operation, d⟩ = some r from hr) hs
  simpa [Ledgers.runReserved, RunUsageKey.cell, RunUsage.hold, hb] using hle

end rows

/-- The clamp does nothing to a counter that is not negative. -/
def ClampsNegative (clamp : ℤ → ℤ) : Prop := ∀ x, 0 ≤ x → clamp x = x

theorem clampsNegative_max : ClampsNegative (max 0) := fun _ h => max_eq_right h

section halves

variable {run : Uuid} {operation : String} {db db' : Ledgers} {b : RunBudget} {rs : Dict RunUsage}
  {m : Mutation}

theorem openHolds_ok {requested : Dict ℕ}
    (hb : db.runBudgets.lookup run = some b) (hrs : rows db run operation = Dict.empty)
    (h : (openHolds caller run operation b requested finalResponse enforceLimits).run db = .ok (m, db')) :
    m = ⟨run, operation, requested, .reserved, false⟩ ∧
      Rewrote run operation (opened requested (caller.fence.map Fence.executionId)) db db' := by
  unfold openHolds at h
  rw [Tx.bind_ofExcept_ok] at h
  obtain ⟨exceeded, _, h⟩ := h
  rw [Tx.bind_check_ok, Tx.bind_ok] at h
  obtain ⟨_, reserved, db₁, hloop, h⟩ := h
  rw [Tx.bind_ok] at h
  obtain ⟨_, _, hwrite, hpure⟩ := h
  obtain ⟨rfl, rfl⟩ := Tx.pure_ok.mp hpure
  obtain ⟨honly, hpoint⟩ := reserve_loop hloop
  obtain rfl := Tx.update_ok.mp hwrite
  have hget : ∀ d, reserved.get d = b.reserved.get d + (requested d).getD 0
      ∧ rows db₁ run operation d = opened requested (caller.fence.map Fence.executionId) d := by
    intro d
    have hd := hpoint d
    rw [hrs] at hd
    unfold opened
    cases hv : requested d with
    | none => simpa [hv, Dict.empty] using hd
    | some n => simpa [hv] using hd
  refine ⟨rfl, ⟨b, { b with reserved := reserved, status := if exceeded ≠ [] then .exhausted else b.status },
    hb, ?_, fun d => ?_⟩, honly.2, funext fun d => (hget d).2⟩
  · rw [honly.1]
  · have hd := (hget d).1
    rw [hrs]
    unfold opened Dict.empty
    cases hv : requested d with
    | none => simp [hv] at hd; simp [hd, heldOf, usedOf]
    | some n =>
        simp [hv] at hd
        simp [hd, heldOf, usedOf, RunUsage.hold, Hold.reservedAmount, Hold.usedAmount]

section closing

variable {clamp : ℤ → ℤ} (hclamp : ClampsNegative clamp) (hc : RunConserved db)
  (hb : db.runBudgets.lookup run = some b) (hrs : rows db run operation = rs)
  (hreserved : allRows rs (fun r => r.state = .reserved) = true)

include hclamp hc hb hrs hreserved

/-- Subtracting a hold from the counter never reaches the clamp. -/
theorem clamp_reserved {d : Dimension} {r : RunUsage} (hr : rs d = some r) :
    clamp (b.reserved.get d - r.reservedAmount) = b.reserved.get d - r.reservedAmount := by
  have hs : r.state = .reserved := by simpa using allRows_iff.mp hreserved d r hr
  have hle := held_le_reserved hc hb (show rows db run operation d = some r by rw [hrs, hr]) hs
  exact hclamp _ (by omega)

theorem settleRows_ok {actual : Dict ℕ} {source : UsageSource}
    (hkeys : ∀ d, (rs d).isSome = (actual d).isSome)
    (h : (settleRows clamp run operation b rs actual source).run db = .ok (m, db')) :
    m = ⟨run, operation, actual, .settled, false⟩ ∧
      Rewrote run operation (settledRows rs actual source) db db' := by
  unfold settleRows at h
  rw [Tx.bind_ok] at h
  obtain ⟨c, db₁, hloop, h⟩ := h
  rw [Tx.bind_ok] at h
  obtain ⟨_, _, hwrite, hpure⟩ := h
  obtain ⟨rfl, rfl⟩ := Tx.pure_ok.mp hpure
  obtain ⟨honly, hpoint⟩ := settle_loop hloop
  obtain rfl := Tx.update_ok.mp hwrite
  have hget : ∀ d, c.1.get d = b.used.get d + ((actual d).getD 0 : ℕ)
      ∧ c.2.get d = b.reserved.get d - (rs d).elim 0 (fun r => (r.reservedAmount : ℤ))
      ∧ rows db₁ run operation d = settledRows rs actual source d := by
    intro d
    have hd := hpoint d
    rw [hrs] at hd
    have hk := hkeys d
    unfold settledRows
    cases hr : rs d with
    | none =>
        have ha : actual d = none := by simpa [hr] using hk
        simpa [hr, ha] using hd
    | some r =>
        obtain ⟨n, ha⟩ := Option.isSome_iff_exists.mp (show (actual d).isSome = true by rw [← hk, hr]; rfl)
        have hcl := clamp_reserved hclamp hc hb hrs hreserved hr
        simpa [hr, ha, reservedAmounts, hcl] using hd
  refine ⟨rfl, ⟨b, ⟨b.mode, if overLimit b.limits c.1 c.2 then .exhausted else b.status, b.limits, c.1, c.2,
    b.finalResponseReserveTokens⟩, hb, ?_, fun d => ?_⟩, honly.2, funext fun d => (hget d).2.2⟩
  · rw [honly.1]
  · obtain ⟨hused, hres, _⟩ := hget d
    have hk := hkeys d
    rw [hrs]
    unfold settledRows
    cases hr : rs d with
    | none =>
        have ha : actual d = none := by simpa [hr] using hk
        simp [hused, hres, hr, ha, heldOf, usedOf]
    | some r =>
        have hs : r.state = .reserved := by simpa using allRows_iff.mp hreserved d r hr
        simp [hused, hres, hr, heldOf, usedOf, RunUsage.hold, RunUsage.settled, Hold.reservedAmount,
          Hold.usedAmount, hs]

theorem releaseHolds_ok (h : (releaseHolds clamp run operation b rs).run db = .ok (m, db')) :
    m = ⟨run, operation, reservedAmounts rs, .released, false⟩ ∧
      Rewrote run operation (releasedRows rs) db db' := by
  unfold releaseHolds at h
  rw [Tx.bind_ok] at h
  obtain ⟨_, db₁, hrel, h⟩ := h
  rw [Tx.bind_ok] at h
  obtain ⟨_, _, hwrite, hpure⟩ := h
  obtain ⟨rfl, rfl⟩ := Tx.pure_ok.mp hpure
  obtain ⟨honly, hpoint⟩ := releaseRows_ok hrel
  obtain rfl := Tx.update_ok.mp hwrite
  refine ⟨rfl, ⟨b, _, hb, by rw [honly.1], fun d => ?_⟩, honly.2, funext fun d => ?_⟩
  · rw [hrs, release_loop]
    unfold releasedRows reservedAmounts
    cases hr : rs d with
    | none => simp [heldOf, usedOf]
    | some r =>
        have hs : r.state = .reserved := by simpa using allRows_iff.mp hreserved d r hr
        have hcl := clamp_reserved hclamp hc hb hrs hreserved hr
        simp [hcl, heldOf, usedOf, RunUsage.hold, RunUsage.released, Hold.reservedAmount, Hold.usedAmount, hs]
  · have hd := hpoint d
    rw [hrs] at hd
    exact hd

end closing

end halves

/-! ### Outcomes of the calls -/

section calls

variable {run : Uuid} {operation : String} {db db' : Ledgers} {m : Mutation}

/-- The Run half of a reservation, after the Work half. -/
inductive Reserved (caller : Caller) (run : Uuid) (operation : String) (requested : Dict ℕ) (db : Ledgers) :
    Mutation → Ledgers → Prop
  | opened {db' : Ledgers} (hrows : rows db run operation = Dict.empty)
      (hdone : Rewrote run operation (opened requested (caller.fence.map Fence.executionId)) db db') :
      Reserved caller run operation requested db ⟨run, operation, requested, .reserved, false⟩ db'
  | replayed (hrows : rows db run operation ≠ Dict.empty)
      (hamounts : reservedAmounts (rows db run operation) = requested) :
      Reserved caller run operation requested db
        ⟨run, operation, requested, firstState (rows db run operation), true⟩ db

/-- The Run half of a settlement, after the Work half. -/
inductive Settled (run : Uuid) (operation : String) (actual : Dict ℕ) (source : UsageSource) (db : Ledgers) :
    Mutation → Ledgers → Prop
  | settled {rs : Dict RunUsage} {db' : Ledgers} (hrows : rows db run operation = rs) (hne : rs ≠ Dict.empty)
      (hreserved : ∀ d r, rs d = some r → r.state = .reserved)
      (hkeys : ∀ d, (rs d).isSome = (actual d).isSome)
      (hdone : Rewrote run operation (settledRows rs actual source) db db') :
      Settled run operation actual source db ⟨run, operation, actual, .settled, false⟩ db'
  | replayed {rs : Dict RunUsage} (hrows : rows db run operation = rs) (hne : rs ≠ Dict.empty)
      (hsettled : ∀ d r, rs d = some r → r.state = .settled ∧ r.usageSource = some source)
      (hactual : ∀ d, (rs d).map RunUsage.actualAmount = (actual d).map some) :
      Settled run operation actual source db ⟨run, operation, actual, .settled, true⟩ db

/-- The Run half of a release, after the Work half. -/
inductive Released (run : Uuid) (operation : String) (db : Ledgers) : Mutation → Ledgers → Prop
  | released {rs : Dict RunUsage} {db' : Ledgers} (hrows : rows db run operation = rs) (hne : rs ≠ Dict.empty)
      (hreserved : ∀ d r, rs d = some r → r.state = .reserved)
      (hdone : Rewrote run operation (releasedRows rs) db db') :
      Released run operation db ⟨run, operation, reservedAmounts rs, .released, false⟩ db'
  | replayed {rs : Dict RunUsage} (hrows : rows db run operation = rs) (hne : rs ≠ Dict.empty)
      (hreleased : ∀ d r, rs d = some r → r.state = .released) :
      Released run operation db ⟨run, operation, reservedAmounts rs, .released, true⟩ db

theorem checkFence_ok {u : Unit} (h : (checkFence caller run).run db = .ok (u, db')) :
    db = db' := by
  unfold checkFence at h
  split at h
  · exact (Tx.pure_ok.mp h).2
  · rw [Tx.bind_query_ok, Tx.bind_ofExcept_ok] at h
    obtain ⟨_, _, h⟩ := h
    exact (Tx.check_ok.mp h).2

theorem bind_lockBudget_ok {α : Type} {f : RunBudget → BudgetTx α} {r : α × Ledgers} :
    (lockBudget run >>= f).run db = .ok r ↔ ∃ b, db.runBudgets.lookup run = some b ∧ (f b).run db = .ok r := by
  obtain ⟨a, s⟩ := r
  unfold lockBudget
  rw [bind_assoc, Tx.bind_query_ok, Tx.bind_demand_ok]

theorem lockBudget_ok {b : RunBudget} :
    (lockBudget run).run db = .ok (b, db') ↔ db.runBudgets.lookup run = some b ∧ db = db' := by
  unfold lockBudget
  rw [Tx.bind_query_ok, Tx.demand_ok]

theorem bind_checkOperation_ok {α : Type} {f : Unit → BudgetTx α} {r : α × Ledgers} :
    (checkOperation operation >>= f).run db = .ok r ↔
      (operation ≠ "" ∧ operation.length ≤ 200) ∧ (f ()).run db = .ok r :=
  Tx.bind_check_ok

/-- **What a reservation did.** -/
theorem reserveBody_ok {values : List (String × Raw)}
    (h : (reserveBody caller run operation values finalResponse enforceLimits).run db = .ok (m, db')) :
    ∃ requested db₁, amounts values = .ok requested ∧
      (WorkBudget.mutate run operation (.reserve requested)).run db = .ok ((), db₁) ∧
      Reserved caller run operation requested db₁ m db' := by
  unfold reserveBody at h
  rw [Tx.bind_ok] at h
  obtain ⟨_, s, hfence, h⟩ := h
  obtain rfl := checkFence_ok hfence
  rw [Tx.bind_ofExcept_ok] at h
  obtain ⟨requested, hvalues, h⟩ := h
  rw [bind_checkOperation_ok, Tx.bind_ok] at h
  obtain ⟨_, _, db₁, hwork, h⟩ := h
  rw [bind_lockBudget_ok] at h
  obtain ⟨b, hb, h⟩ := h
  rw [Tx.bind_query_ok] at h
  refine ⟨requested, db₁, hvalues, hwork, ?_⟩
  split at h
  · next hn =>
      obtain ⟨rfl, hdone⟩ := openHolds_ok hb (noRows_iff.mp hn) h
      exact .opened (noRows_iff.mp hn) hdone
  · next hn =>
      rw [Tx.bind_check_ok] at h
      obtain ⟨hamounts, h⟩ := h
      obtain ⟨rfl, rfl⟩ := Tx.pure_ok.mp h
      exact .replayed (fun he => hn (noRows_iff.mpr he)) hamounts

/-- Only a Run rejection is recovered from, and only when the caller defers it. -/
theorem onReserveError_ok {deferExhaustion : Bool} {e : Error} {r : Mutation ⊕ Error}
    (h : (onReserveError run deferExhaustion e).run db = .ok (r, db')) :
    deferExhaustion = true ∧ r = .inr e ∧
      db' = { db with runBudgets := Table.modify run (fun b => { b with status := .exhausted }) db.runBudgets } := by
  cases e <;> try exact (Tx.raise_ok.mp h).elim
  next message =>
    unfold onReserveError at h
    dsimp only at h
    rw [Tx.bind_ok] at h
    obtain ⟨_, s, hmark, h⟩ := h
    obtain rfl := Tx.update_ok.mp hmark
    split at h
    · next hd =>
        obtain ⟨rfl, rfl⟩ := Tx.pure_ok.mp h
        exact ⟨hd, rfl, rfl⟩
    · exact (Tx.raise_ok.mp h).elim

theorem reserveInUow_ok {values : List (String × Raw)}
    {deferExhaustion : Bool} {r : Mutation ⊕ Error}
    (h : (reserveInUow caller run operation values finalResponse enforceLimits deferExhaustion).run db
      = .ok (r, db')) :
    (∃ m, r = .inl m ∧
        (reserveBody caller run operation values finalResponse enforceLimits).run db = .ok (m, db')) ∨
      (deferExhaustion = true ∧ (∃ e, r = .inr e) ∧
        db' = { db with runBudgets := Table.modify run (fun b => { b with status := .exhausted }) db.runBudgets }) := by
  unfold reserveInUow at h
  rcases Tx.savepoint_ok.mp h with h | ⟨e, _, h⟩
  · rw [Tx.bind_ok] at h
    obtain ⟨m, s, hbody, h⟩ := h
    obtain ⟨rfl, rfl⟩ := Tx.pure_ok.mp h
    exact .inl ⟨m, rfl, hbody⟩
  · obtain ⟨hd, hr, hdb⟩ := onReserveError_ok h
    exact .inr ⟨hd, ⟨e, hr⟩, hdb⟩

section closing

variable {clamp : ℤ → ℤ}

/-- **What a settlement did.** -/
theorem settleInUow_ok (hclamp : ClampsNegative clamp) (hc : RunConserved db)
    {values : List (String × Raw)} {usageSource : String}
    (h : (settleInUow clamp run operation values usageSource).run db = .ok (m, db')) :
    ∃ source actual db₁, UsageSource.parse usageSource = .ok source ∧ amounts values = .ok actual ∧
      (WorkBudget.mutate run operation (.settle actual source)).run db = .ok ((), db₁) ∧
      Settled run operation actual source db₁ m db' := by
  unfold settleInUow at h
  rw [Tx.bind_ofExcept_ok] at h
  obtain ⟨source, hsource, h⟩ := h
  rw [Tx.bind_ofExcept_ok] at h
  obtain ⟨actual, hvalues, h⟩ := h
  rw [Tx.bind_ok] at h
  obtain ⟨_, db₁, hwork, h⟩ := h
  have hc₁ : RunConserved db₁ := by
    have hframe := WorkBudget.mutate_frame hwork
    rw [hframe]
    exact hc
  rw [bind_lockBudget_ok] at h
  obtain ⟨b, hb, h⟩ := h
  rw [Tx.bind_query_ok, Tx.bind_check_ok] at h
  obtain ⟨hkeys, h⟩ := h
  refine ⟨source, actual, db₁, hsource, hvalues, hwork, ?_⟩
  split at h
  · next hall =>
      rw [Tx.bind_check_ok] at h
      obtain ⟨⟨hactual, hsrc⟩, h⟩ := h
      obtain ⟨rfl, rfl⟩ := Tx.pure_ok.mp h
      refine .replayed rfl (noRows_eq_false_iff.mp hall.1) (fun d r hr => ⟨?_, ?_⟩) hactual
      · simpa using allRows_iff.mp hall.2 d r hr
      · simpa using allRows_iff.mp hsrc d r hr
  · rw [Tx.bind_check_ok] at h
    obtain ⟨⟨hne, hall⟩, h⟩ := h
    obtain ⟨rfl, hdone⟩ := settleRows_ok hclamp hc₁ hb rfl hall hkeys h
    refine .settled rfl (noRows_eq_false_iff.mp hne) (fun d r hr => ?_) hkeys hdone
    simpa using allRows_iff.mp hall d r hr

/-- **What a release did.** -/
theorem releaseInUow_ok (hclamp : ClampsNegative clamp) (hc : RunConserved db)
    (h : (releaseInUow clamp run operation).run db = .ok (m, db')) :
    ∃ db₁, (WorkBudget.mutate run operation .release).run db = .ok ((), db₁) ∧
      Released run operation db₁ m db' := by
  unfold releaseInUow at h
  rw [Tx.bind_ok] at h
  obtain ⟨_, db₁, hwork, h⟩ := h
  have hc₁ : RunConserved db₁ := by
    have hframe := WorkBudget.mutate_frame hwork
    rw [hframe]
    exact hc
  rw [bind_lockBudget_ok] at h
  obtain ⟨b, hb, h⟩ := h
  rw [Tx.bind_query_ok, Tx.bind_check_ok] at h
  obtain ⟨hne, h⟩ := h
  refine ⟨db₁, hwork, ?_⟩
  split at h
  · next hall =>
      obtain ⟨rfl, rfl⟩ := Tx.pure_ok.mp h
      exact .replayed rfl (noRows_eq_false_iff.mp hne) fun d r hr => by
        simpa using allRows_iff.mp hall d r hr
  · rw [Tx.bind_check_ok] at h
    obtain ⟨hall, h⟩ := h
    obtain ⟨rfl, hdone⟩ := releaseHolds_ok hclamp hc₁ hb rfl hall h
    refine .released rfl (noRows_eq_false_iff.mp hne) (fun d r hr => ?_) hdone
    simpa using allRows_iff.mp hall d r hr

end closing

end calls

end RunBudget

end HpAgent.Budget
