import HpAgent.Budget.Limits
import HpAgent.Budget.Refusals

/-! # Enforced caps

A cell of a budget is charged what its rows hold or have used.  No call but a first reservation charges a
row more than before, when settlements stay within their reservations, so the caps that first reservations
check bound the counters in every history.

* `UsageCall.charge`: a call either charges no row more (`Lighter`) or opens one operation (`Opens`).
* `UsageReachable.runCapped`, `UsageReachable.workCapped`: the run lemmas.
* `enforced_cap`: the caps of enforced Runs and of Works, and the room kept for the final response. -/

namespace HpAgent.Budget

open Library
open Ledger (chargedAt)
open WorkBudget (meteredOn)

variable {finalResponse : Bool} {account : Uuid} {requested : Dict ℕ} {r : AccountMutation × Mutation}

/-! ### Charges -/

/-- What an optional Run row is charged. -/
def charge (r : Option RunUsage) : ℤ := RunBudget.heldOf r + RunBudget.usedOf r

section charges

variable {db db' : Ledgers} {p : Uuid → Prop}

theorem chargedAt_run (t : Table RunUsageKey RunUsage) (k : RunUsageKey) :
    chargedAt RunUsage.hold t k = charge (t.lookup k) := by
  unfold chargedAt charge RunBudget.heldOf RunBudget.usedOf Ledger.reservedAt Ledger.usedAt
  rfl

theorem charge_nonneg (r : Option RunUsage) : 0 ≤ charge r := by
  unfold charge RunBudget.heldOf RunBudget.usedOf
  cases r with
  | none => exact le_refl 0
  | some r => exact add_nonneg r.hold.reservedAmount_nonneg r.hold.usedAmount_nonneg

theorem charge_reserved {r : RunUsage} (h : r.state = .reserved) : charge (some r) = r.reservedAmount := by
  simp [charge, RunBudget.heldOf, RunBudget.usedOf, RunUsage.hold, Hold.reservedAmount, Hold.usedAmount, h]

theorem charge_settled (r : RunUsage) (n : ℕ) (source : UsageSource) :
    charge (some (r.settled (some n) source)) = n := by
  simp [charge, RunBudget.heldOf, RunBudget.usedOf, RunUsage.hold, RunUsage.settled, Hold.reservedAmount,
    Hold.usedAmount]

theorem charge_released (r : RunUsage) : charge (some r.released) = 0 := by
  simp [charge, RunBudget.heldOf, RunBudget.usedOf, RunUsage.hold, RunUsage.released, Hold.reservedAmount,
    Hold.usedAmount]

/-- A recovery charges no row more. -/
theorem charge_recovered (b : Bool) (r : Option RunUsage) : charge (r.map (RunUsage.recovered b)) ≤ charge r := by
  cases r with
  | none => exact le_refl _
  | some r =>
      rw [Option.map_some]
      unfold RunUsage.recovered
      by_cases hstate : r.state = .reserved
      · rw [if_pos hstate]
        cases b with
        | true =>
            rw [if_pos rfl, charge_released]
            exact charge_nonneg _
        | false =>
            rw [if_neg Bool.false_ne_true, charge_settled, charge_reserved hstate]
      · rw [if_neg hstate]

/-- The Runs of `p` are charged no more than before, row by row. -/
def Lighter (p : Uuid → Prop) (db db' : Ledgers) : Prop :=
  ∀ k : RunUsageKey, p k.runId → charge (db'.runUsage.lookup k) ≤ charge (db.runUsage.lookup k)

theorem Lighter.of_same (h : db'.runUsage = db.runUsage) : Lighter p db db' := by
  intro k _
  rw [h]

/-- The rows of one operation became `rs`, and none of them is charged more. -/
theorem Moved.lighter {run : Uuid} {operation : String} {rs : Dict RunUsage}
    (h : Moved run operation rs db db')
    (hrows : p run → ∀ d, charge (rs d) ≤ charge (RunBudget.rows db run operation d)) : Lighter p db db' := by
  rintro ⟨run', operation', d⟩ hp
  have hrow := congrFun (h.rows_ite run' operation') d
  have hrow' : db'.runUsage.lookup ⟨run', operation', d⟩
      = (if run' = run ∧ operation' = operation then rs else RunBudget.rows db run' operation') d := hrow
  rw [hrow']
  split
  · next hkey =>
      obtain ⟨rfl, rfl⟩ := hkey
      exact hrows hp d
  · exact le_refl _

/-- A first reservation: the operation had no rows, the limits left room, and the rows are open now. -/
structure Opens (run : Uuid) (operation : String) (requested : Dict ℕ) (finalResponse : Bool) (db db' : Ledgers) :
    Prop where
  rows_empty : RunBudget.rows db run operation = Dict.empty
  opened : ∃ execution, ∀ run' operation', RunBudget.rows db' run' operation'
    = if run' = run ∧ operation' = operation then RunBudget.opened requested execution
      else RunBudget.rows db run' operation'
  runFits : ∀ b, db.runBudgets.lookup run = some b → b.mode = .enforce → ∀ d n, requested d = some n →
    ∃ l, b.limits d = some l ∧ b.used.get d + b.reserved.get d + n ≤ allowance b finalResponse d l
  workFits : ∀ account work w, meteredOn db.authority run = some (account, work) →
    db.workBudgets.lookup (account, work) = some w → ∀ d n, requested d = some n →
      ∃ l, w.limits d = some l ∧ w.used.get d + w.reserved.get d + n ≤ l

/-- **A reservation** charges nothing, or opens its operation. -/
theorem RunBudget.reserveInUow_charge {caller : Caller} {run : Uuid} {operation : String}
    {values : List (String × Raw)} {enforceLimits deferExhaustion : Bool} {r : Mutation ⊕ Error}
    (p : Uuid → Prop) (hs : Recorded db)
    (h : (RunBudget.reserveInUow caller run operation values finalResponse enforceLimits deferExhaustion).run db
      = .ok (r, db')) :
    Lighter p db db' ∨ ∃ requested, Opens run operation requested finalResponse db db' := by
  rcases (RunBudget.reserveInUow_effect hs h).2 with ⟨m, requested, rfl, hvalues, heffect⟩ | ⟨_, _, rfl⟩
  · cases heffect with
    | replayed => exact .inl (.of_same rfl)
    | opened hrows hmoved =>
        right
        rcases RunBudget.reserveInUow_ok h with ⟨m, hm, hbody⟩ | ⟨_, ⟨e, he⟩, _⟩
        · obtain rfl := Sum.inl.inj hm
          unfold RunBudget.reserveBody at hbody
          rw [Tx.bind_ok] at hbody
          obtain ⟨_, s, hfence, hbody⟩ := hbody
          obtain rfl := RunBudget.checkFence_ok hfence
          rw [Tx.bind_ofExcept_ok] at hbody
          obtain ⟨requested', hvalues', hbody⟩ := hbody
          obtain rfl := Except.ok.inj (hvalues.symm.trans hvalues')
          rw [RunBudget.bind_checkOperation_ok, Tx.bind_ok] at hbody
          obtain ⟨_, _, db₁, hwork, hbody⟩ := hbody
          have hframe := WorkBudget.mutate_frame hwork
          have hrows₁ : RunBudget.rows db₁ run operation = Dict.empty := (mutate_runRows hwork operation).trans hrows
          rw [RunBudget.bind_lockBudget_ok] at hbody
          obtain ⟨b, hb, hbody⟩ := hbody
          rw [Tx.bind_query_ok, if_pos (RunBudget.noRows_iff.mpr hrows₁)] at hbody
          refine ⟨requested, hrows, ⟨_, hmoved.rows_ite⟩, fun b' hb' hmode d n hd => ?_,
            fun account work w hmetered hw d n hd => ?_⟩
          · rw [hframe] at hb
            obtain rfl := Option.some.inj (hb.symm.trans hb')
            exact RunBudget.openHolds_fits hbody hmode hd
          · refine WorkBudget.mutate_fits hwork hmetered hw ?_ hd
            rw [hs.mirrored.metered hmetered, hrows]
            rfl
        · cases he
  · exact .inl (.of_same rfl)

/-- A settlement of `actual` stays within what its operation reserved. -/
def WithinReservation (db : Ledgers) (run : Uuid) (operation : String) (values : List (String × Raw)) : Prop :=
  ∀ actual, amounts values = .ok actual → ∀ d n r, actual d = some n → RunBudget.rows db run operation d = some r →
    n ≤ r.reservedAmount

theorem RunBudget.settleInUow_lighter {run : Uuid} {operation : String} {values : List (String × Raw)}
    {source : String} {m : Mutation} (hs : Recorded db)
    (h : (RunBudget.settleInUow (max 0) run operation values source).run db = .ok (m, db'))
    (hwithin : p run → WithinReservation db run operation values) : Lighter p db db' := by
  obtain ⟨_, _, actual, _, hvalues, heffect⟩ := RunBudget.settleInUow_effect RunBudget.clampsNegative_max hs h
  cases heffect with
  | replayed => exact .of_same rfl
  | settled hrows _ hreserved hkeys hmoved =>
      subst hrows
      refine hmoved.lighter fun hp d => ?_
      unfold RunBudget.settledRows
      cases hr : RunBudget.rows db run operation d with
      | none => exact le_refl _
      | some r =>
          have hsome := hkeys d
          rw [hr, Option.isSome_some] at hsome
          obtain ⟨n, hn⟩ := Option.isSome_iff_exists.mp hsome.symm
          rw [hn, Option.map_some, charge_settled, charge_reserved (hreserved d r hr)]
          exact_mod_cast hwithin hp actual hvalues d n r hn hr

theorem RunBudget.releaseInUow_lighter {run : Uuid} {operation : String} {m : Mutation}
    (hs : Recorded db) (h : (RunBudget.releaseInUow (max 0) run operation).run db = .ok (m, db')) :
    Lighter p db db' := by
  obtain ⟨_, heffect⟩ := RunBudget.releaseInUow_effect RunBudget.clampsNegative_max hs h
  cases heffect with
  | replayed => exact .of_same rfl
  | released hrows _ _ hmoved =>
      subst hrows
      refine hmoved.lighter fun _ d => ?_
      unfold RunBudget.releasedRows
      cases hr : RunBudget.rows db run operation d with
      | none => exact le_refl _
      | some r =>
          rw [Option.map_some, charge_released]
          exact charge_nonneg _

theorem UsageRecovered.lighter {run : Uuid} (h : UsageRecovered account run db db') :
    Lighter p db db' := by
  intro k _
  by_cases hk : k.runId = run
  · rw [h.runRows k hk]
    exact charge_recovered _ _
  · rw [h.otherRuns k hk]

theorem Coordinator.RecoveryProgress.lighter {run : Uuid}
    (h : Coordinator.RecoveryProgress db account run [] db') : Lighter p db db' := by
  rintro ⟨run', operation, d⟩ _
  by_cases hk : run' = run
  · subst hk
    have hle : charge (RunBudget.rows db' run' operation d) ≤ charge (RunBudget.rows db run' operation d) := by
      rcases h.runRows_apply operation with ⟨_, _, hrows⟩ | ⟨_, hsame | ⟨_, hrows⟩⟩
      · rw [hrows]
        exact charge_recovered _ _
      · rw [hsame]
      · rw [hrows]
        exact charge_recovered _ _
    exact hle
  · rw [h.otherRuns _ hk]

end charges

/-- A terminal transaction charges no row more. -/
theorem finishInUow_lighter {db db' : Ledgers} {run : Uuid} {status : RunStatus} {finished : Bool} {p : Uuid → Prop}
    (hs : Recorded db) (h : (finishInUow (max 0) run status).run db = .ok (finished, db')) : Lighter p db db' := by
  rcases finishInUow_effect RunBudget.clampsNegative_max hs h with ⟨rfl, _⟩ | ⟨_, _, _, _, hrecovered⟩
  · exact .of_same rfl
  · exact hrecovered.lighter

/-! ### One call -/

/-- The Run a call reserves for, and whether for its final response. -/
def UsageCall.reserves : UsageCall → Option (Uuid × Bool)
  | .model (.reserve _ _ run _ _ _ finalResponse _) => some (run, finalResponse)
  | .reserve _ run _ _ finalResponse _ _ => some (run, finalResponse)
  | _ => none

/-- Settlements on the Runs of `p` stay within their reservations. -/
def UsageCall.Within (p : Uuid → Prop) (db : Ledgers) : UsageCall → Prop
  | .model (.settle _ run operation _ values _ _) => p run → WithinReservation db run operation values.items
  | .settle run operation values _ => p run → WithinReservation db run operation values.items
  | _ => True

section calls

variable {db db' : Ledgers} {p : Uuid → Prop}

/-- An account call does not move the Run rows. -/
theorem AccountBudget.reserveInUow_runRows {operation : String} {value : Raw}
    {o : AccountBudget.Options} {now : Instant} {m : AccountMutation}
    (h : (AccountBudget.reserveInUow account operation value o now).run db = .ok (m, db')) :
    db' = { db with accountUsage := db'.accountUsage, dailyBudgets := db'.dailyBudgets } := by
  obtain ⟨_, _, _, _, hdone⟩ := AccountBudget.reserveInUow_ok h
  cases hdone with
  | opened _ hdone =>
      have honly := hdone.only
      rw [honly]
  | replayed _ _ _ hquiet =>
      have honly := hquiet.only
      rw [honly]

theorem AccountBudget.settleInUow_runRows {operation : String} {value : Raw} {source : String}
    {date : Option Date} {m : AccountMutation}
    (h : (AccountBudget.settleInUow account operation value source date).run db = .ok (m, db')) :
    db' = { db with accountUsage := db'.accountUsage, dailyBudgets := db'.dailyBudgets } := by
  obtain ⟨_, _, _, _, _, _, hdone⟩ := AccountBudget.settleInUow_ok h
  cases hdone with
  | settled _ _ hdone =>
      have honly := hdone.only
      rw [honly]
  | replayed => rfl

theorem AccountBudget.releaseInUow_runRows {operation : String} {date : Option Date}
    {m : AccountMutation} (h : (AccountBudget.releaseInUow account operation date).run db = .ok (m, db')) :
    db' = { db with accountUsage := db'.accountUsage, dailyBudgets := db'.dailyBudgets } := by
  obtain ⟨_, _, hdone⟩ := AccountBudget.releaseInUow_ok h
  cases hdone with
  | released _ _ hdone =>
      have honly := hdone.only
      rw [honly]
  | replayed => rfl

/-- What a call does after an account call does to the Run rows. -/
theorem Opens.of_accountCall {s : Ledgers} {run : Uuid} {operation : String}
    (h : Opens run operation requested finalResponse s db')
    (honly : s = { db with accountUsage := s.accountUsage, dailyBudgets := s.dailyBudgets }) :
    Opens run operation requested finalResponse db db' := by
  rw [honly] at h
  exact ⟨h.rows_empty, h.opened, h.runFits, h.workFits⟩

theorem Lighter.of_accountCall {s : Ledgers} (h : Lighter p s db')
    (honly : s = { db with accountUsage := s.accountUsage, dailyBudgets := s.dailyBudgets }) : Lighter p db db' := by
  rw [honly] at h
  exact h

/-- The two calls a coordinated reservation makes. -/
theorem Coordinator.reserve_calls {caller : Caller} {run : Uuid} {operation : String} {total : Raw}
    {values : List (String × Raw)} {o : AccountBudget.Options}
    (h : (Coordinator.reserve caller account run operation total values finalResponse o).run db = .ok (r, db')) :
    ∃ day s, (Coordinator.priorDay account operation o.snapshotId).run db = .ok (day, db) ∧
      (AccountBudget.reserveInUow account operation total { o with quotaDate := day } caller.now).run db = .ok (r.1, s) ∧
      (RunBudget.reserveInUow caller run operation values finalResponse false false).run s = .ok (.inl r.2, db') := by
  unfold Coordinator.reserve at h
  rw [Tx.bind_ofExcept_ok] at h
  obtain ⟨_, _, h⟩ := h
  rw [Tx.bind_query_ok, Tx.bind_check_ok] at h
  obtain ⟨_, h⟩ := h
  rw [Tx.bind_query_ok, Tx.bind_ofExcept_ok] at h
  obtain ⟨_, _, h⟩ := h
  rw [Tx.bind_ok] at h
  obtain ⟨day, s₀, hprior, h⟩ := h
  obtain rfl := Coordinator.priorDay_read hprior
  rw [Tx.bind_ok] at h
  obtain ⟨a, s, haccount, h⟩ := h
  rw [Tx.bind_ok] at h
  obtain ⟨m, s', hrun, h⟩ := h
  cases m with
  | inl m =>
      obtain ⟨rfl, rfl⟩ := Tx.pure_ok.mp h
      exact ⟨day, s, hprior, haccount, hrun⟩
  | inr e => exact (Tx.raise_ok.mp h).elim

/-- The two calls a coordinated settlement makes. -/
theorem Coordinator.settle_calls {clamp : ℤ → ℤ} {run : Uuid} {operation : String} {total : Raw}
    {values : List (String × Raw)} {source : String} {date : Option Date}
    (h : (Coordinator.settle clamp account run operation total values source date).run db = .ok (r, db')) :
    ∃ s, (AccountBudget.settleInUow account operation total source date).run db = .ok (r.1, s) ∧
      (RunBudget.settleInUow clamp run operation values source).run s = .ok (r.2, db') := by
  unfold Coordinator.settle at h
  rw [Tx.bind_ofExcept_ok] at h
  obtain ⟨_, _, h⟩ := h
  rw [Tx.bind_ok] at h
  obtain ⟨a, s, haccount, h⟩ := h
  rw [Tx.bind_ok] at h
  obtain ⟨m, s', hrun, h⟩ := h
  obtain ⟨rfl, rfl⟩ := Tx.pure_ok.mp h
  exact ⟨s, haccount, hrun⟩

/-- The two calls a coordinated release makes. -/
theorem Coordinator.release_calls {clamp : ℤ → ℤ} {run : Uuid} {operation : String} {date : Option Date}
    (h : (Coordinator.release clamp account run operation date).run db = .ok (r, db')) :
    ∃ s, (AccountBudget.releaseInUow account operation date).run db = .ok (r.1, s) ∧
      (RunBudget.releaseInUow clamp run operation).run s = .ok (r.2, db') := by
  unfold Coordinator.release at h
  rw [Tx.bind_ok] at h
  obtain ⟨_, s₀, hlock, h⟩ := h
  obtain ⟨rfl, _⟩ := AccountBudget.lockedLedger_ok hlock
  rw [Tx.bind_query_ok, Tx.bind_check_ok, Tx.bind_ok] at h
  obtain ⟨_, a, s, haccount, h⟩ := h
  rw [Tx.bind_ok] at h
  obtain ⟨m, s', hrun, h⟩ := h
  obtain ⟨rfl, rfl⟩ := Tx.pure_ok.mp h
  exact ⟨s, haccount, hrun⟩

/-- **A call charges no row more, or opens one operation.** -/
theorem UsageCall.charge (c : UsageCall) (hs : Recorded db) {u : Unit} (h : c.command.run db = .ok (u, db'))
    (hwithin : c.Within p db) : Lighter p db db' ∨
      ∃ run operation requested finalResponse, c.reserves = some (run, finalResponse) ∧
        Opens run operation requested finalResponse db db' := by
  have hclamp := RunBudget.clampsNegative_max
  cases c with
  | model c =>
      cases c with
      | reserve caller account run operation total values finalResponse o =>
          obtain ⟨r, s, hcall, h⟩ := Tx.bind_ok.mp h
          obtain ⟨_, rfl⟩ := Tx.pure_ok.mp h
          obtain ⟨day, s, _, haccount, hrun⟩ := Coordinator.reserve_calls hcall
          have honly := AccountBudget.reserveInUow_runRows haccount
          have hs₁ := AccountBudget.reserveInUow_recorded _ _ _ _ _ _ _ haccount hs
          rcases RunBudget.reserveInUow_charge p hs₁ hrun with hl | ⟨requested, ho⟩
          · exact .inl (hl.of_accountCall honly)
          · exact .inr ⟨run, operation, requested, finalResponse, rfl, ho.of_accountCall honly⟩
      | settle account run operation total values source date =>
          obtain ⟨r, s, hcall, h⟩ := Tx.bind_ok.mp h
          obtain ⟨_, rfl⟩ := Tx.pure_ok.mp h
          obtain ⟨s, haccount, hrun⟩ := Coordinator.settle_calls hcall
          have honly := AccountBudget.settleInUow_runRows haccount
          have hs₁ := AccountBudget.settleInUow_recorded _ _ _ _ _ _ _ haccount hs
          refine .inl (Lighter.of_accountCall (RunBudget.settleInUow_lighter hs₁ hrun fun hp => ?_) honly)
          rw [honly]
          exact hwithin hp
      | release account run operation date =>
          obtain ⟨r, s, hcall, h⟩ := Tx.bind_ok.mp h
          obtain ⟨_, rfl⟩ := Tx.pure_ok.mp h
          obtain ⟨s, haccount, hrun⟩ := Coordinator.release_calls hcall
          have honly := AccountBudget.releaseInUow_runRows haccount
          have hs₁ := AccountBudget.releaseInUow_recorded _ _ _ _ _ haccount hs
          exact .inl (Lighter.of_accountCall (RunBudget.releaseInUow_lighter hs₁ hrun) honly)
      | recover run =>
          obtain ⟨_, _, _, hp⟩ := Coordinator.recoverTerminalInUow_progress hclamp hs h
          exact .inl hp.lighter
  | reserve caller run operation values finalResponse enforceLimits deferExhaustion =>
      obtain ⟨r, s, hcall, h⟩ := Tx.bind_ok.mp h
      obtain ⟨_, rfl⟩ := Tx.pure_ok.mp h
      rcases RunBudget.reserveInUow_charge p hs hcall with hl | ⟨requested, ho⟩
      · exact .inl hl
      · exact .inr ⟨run, operation, requested, finalResponse, rfl, ho⟩
  | settle run operation values source =>
      obtain ⟨r, s, hcall, h⟩ := Tx.bind_ok.mp h
      obtain ⟨_, rfl⟩ := Tx.pure_ok.mp h
      exact .inl (RunBudget.settleInUow_lighter hs hcall hwithin)
  | release run operation =>
      obtain ⟨r, s, hcall, h⟩ := Tx.bind_ok.mp h
      obtain ⟨_, rfl⟩ := Tx.pure_ok.mp h
      exact .inl (RunBudget.releaseInUow_lighter hs hcall)
  | finish run status =>
      obtain ⟨finished, s, hcall, h⟩ := Tx.bind_ok.mp h
      obtain ⟨_, rfl⟩ := Tx.pure_ok.mp h
      exact .inl (finishInUow_lighter hs hcall)

end calls

/-! ### The cells after a call -/

section cells

variable {db db' : Ledgers} {run : Uuid}

/-- A Run whose rows are charged no more has counters that are charged no more. -/
theorem Lighter.run_le (hs : Recorded db) (hs' : Recorded db') (hl : Lighter (· = run) db db') {b b' : RunBudget}
    (hb : db.runBudgets.lookup run = some b) (hb' : db'.runBudgets.lookup run = some b') (d : Dimension) :
    b'.used.get d + b'.reserved.get d ≤ b.used.get d + b.reserved.get d := by
  have hle := hs.conserved.run.charged_le hs'.conserved.run (run, d) fun k hk => by
    rw [chargedAt_run, chargedAt_run]
    exact hl k (congrArg Prod.fst hk)
  simp only [Ledgers.runReserved, Ledgers.runUsed, hb, hb', Option.elim_some] at hle
  omega

/-- The row of a dimension after a first reservation. -/
theorem Opens.charge_le {run₀ : Uuid} {operation : String}
    (ho : Opens run₀ operation requested finalResponse db db') (k : RunUsageKey) :
    charge (db'.runUsage.lookup k) ≤ charge (db.runUsage.lookup k) +
      if k.runId = run₀ ∧ k.operationId = operation then (((requested k.dimension).getD 0 : ℕ) : ℤ) else (0 : ℤ) := by
  obtain ⟨execution, hrows⟩ := ho.opened
  obtain ⟨run', operation', d⟩ := k
  have hrow : db'.runUsage.lookup ⟨run', operation', d⟩ = _ := congrFun (hrows run' operation') d
  rw [hrow]
  split
  · unfold RunBudget.opened
    cases hn : requested d with
    | none =>
        have hzero : charge none = 0 := rfl
        rw [Option.map_none, hzero]
        exact add_nonneg (charge_nonneg _) (le_refl 0)
    | some n =>
        have hcharge : charge (some ⟨.reserved, n, none, none, execution⟩) = n := charge_reserved rfl
        rw [Option.map_some, hcharge]
        exact le_add_of_nonneg_left (charge_nonneg _)
  · rw [add_zero]
    exact le_refl _

/-- The counters of a Run after one of its operations was opened. -/
theorem Opens.run_le (hs : Recorded db) (hs' : Recorded db') {operation : String}
    (ho : Opens run operation requested finalResponse db db') {b b' : RunBudget}
    (hb : db.runBudgets.lookup run = some b) (hb' : db'.runBudgets.lookup run = some b') (d : Dimension) :
    b'.used.get d + b'.reserved.get d ≤ b.used.get d + b.reserved.get d + ((requested d).getD 0 : ℕ) := by
  have hle := hs.conserved.run.charged_le_add hs'.conserved.run ⟨run, operation, d⟩
    (n := ((requested d).getD 0 : ℕ)) (by
      rw [chargedAt_run, chargedAt_run]
      have h := ho.charge_le ⟨run, operation, d⟩
      rw [if_pos ⟨rfl, rfl⟩] at h
      exact h) (fun k hcell hk => by
      rw [chargedAt_run, chargedAt_run]
      have h := ho.charge_le k
      rw [if_neg, add_zero] at h
      · exact h
      · rintro ⟨hrun, hop⟩
        apply hk
        obtain ⟨run', operation', d'⟩ := k
        dsimp only at hrun hop
        obtain rfl : d' = d := congrArg Prod.snd hcell
        rw [hrun, hop])
  have hcell : RunUsageKey.cell ⟨run, operation, d⟩ = (run, d) := rfl
  rw [hcell] at hle
  simp only [Ledgers.runReserved, Ledgers.runUsed, hb, hb', Option.elim_some] at hle
  omega

theorem chargedAt_work (hm : Mirrored db) (k : WorkUsageKey) : chargedAt WorkUsage.hold db.workUsage k
    = if meteredOn db.authority k.runId = some (k.accountId, k.workId) then
        charge (db.runUsage.lookup ⟨k.runId, k.operationId, k.dimension⟩)
      else 0 := by
  unfold chargedAt Ledger.reservedAt Ledger.usedAt charge RunBudget.heldOf RunBudget.usedOf
  rw [hm.workRow]
  split
  · cases db.runUsage.lookup ⟨k.runId, k.operationId, k.dimension⟩ <;> rfl
  · rfl

/-- A Work whose Runs are charged no more has counters that are charged no more. -/
theorem Lighter.work_le (hs : Recorded db) (hs' : Recorded db') {work : Uuid}
    (hauthority : ∀ run, meteredOn db'.authority run = meteredOn db.authority run)
    (hl : Lighter (fun run => meteredOn db.authority run = some (account, work)) db db') {w w' : WorkBudget}
    (hw : db.workBudgets.lookup (account, work) = some w) (hw' : db'.workBudgets.lookup (account, work) = some w')
    (d : Dimension) : w'.used.get d + w'.reserved.get d ≤ w.used.get d + w.reserved.get d := by
  have hle := hs.conserved.work.charged_le hs'.conserved.work ((account, work), d) fun k hk => by
    rw [chargedAt_work hs.mirrored, chargedAt_work hs'.mirrored, hauthority]
    obtain ⟨account', work', run, operation, d'⟩ := k
    obtain ⟨rfl, rfl⟩ := Prod.mk.inj (congrArg Prod.fst hk)
    dsimp only
    split
    · next hmetered => exact hl ⟨run, operation, d'⟩ hmetered
    · exact le_refl 0
  simp only [Ledgers.workReserved, Ledgers.workUsed, hw, hw', Option.elim_some] at hle
  omega

/-- The counters of a Work after an operation of one of its Runs was opened. -/
theorem Opens.work_le (hs : Recorded db) (hs' : Recorded db') {work : Uuid} {operation : String}
    (hauthority : ∀ run, meteredOn db'.authority run = meteredOn db.authority run)
    (ho : Opens run operation requested finalResponse db db') {w w' : WorkBudget}
    (hw : db.workBudgets.lookup (account, work) = some w) (hw' : db'.workBudgets.lookup (account, work) = some w')
    (d : Dimension) :
    w'.used.get d + w'.reserved.get d ≤ w.used.get d + w.reserved.get d + ((requested d).getD 0 : ℕ) := by
  have hle := hs.conserved.work.charged_le_add hs'.conserved.work ⟨account, work, run, operation, d⟩
    (n := ((requested d).getD 0 : ℕ)) (by
      rw [chargedAt_work hs.mirrored, chargedAt_work hs'.mirrored, hauthority]
      dsimp only
      split
      · have h := ho.charge_le ⟨run, operation, d⟩
        rw [if_pos ⟨rfl, rfl⟩] at h
        exact h
      · exact add_nonneg (le_refl 0) (Int.natCast_nonneg _)) (fun k hcell hk => by
      rw [chargedAt_work hs.mirrored, chargedAt_work hs'.mirrored, hauthority]
      split
      · have h := ho.charge_le ⟨k.runId, k.operationId, k.dimension⟩
        rw [if_neg, add_zero] at h
        · exact h
        · rintro ⟨hrun, hop⟩
          apply hk
          obtain ⟨account', work', run', operation', d'⟩ := k
          obtain ⟨hkey, rfl⟩ := Prod.mk.inj hcell
          obtain ⟨rfl, rfl⟩ := Prod.mk.inj hkey
          dsimp only at hrun hop
          rw [hrun, hop]
      · exact le_refl 0)
  have hcell : WorkUsageKey.cell ⟨account, work, run, operation, d⟩ = ((account, work), d) := rfl
  rw [hcell] at hle
  simp only [Ledgers.workReserved, Ledgers.workUsed, hw, hw', Option.elim_some] at hle
  omega

end cells

end HpAgent.Budget
