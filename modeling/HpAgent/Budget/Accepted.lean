import HpAgent.Budget.Replays

/-! # Accepted calls

A call that was accepted once stands in the ledgers for ever.

* `UsageCall.report`: a call with the replay flag it returns.
* `UsageCall.Stands`: what an accepted call leaves in the ledgers.
* `UsageCall.stands`, `UsageCall.Stands.steps`: an accepted call stands, and keeps standing. -/

namespace HpAgent.Budget

open Library

/-! ### Accepted calls -/

/-- The call and whether it reports a replay; nothing for a call that is no mutation of an operation, or whose
exhaustion is deferred. -/
def UsageCall.report : UsageCall → BudgetTx (Option Bool)
  | .model (.reserve caller account run operation total values finalResponse o) => do
    let r ← Coordinator.reserve caller account run operation total values.items finalResponse o
    pure (some (r.1.replayed && r.2.replayed))
  | .model (.settle account run operation total values source date) => do
    let r ← Coordinator.settle (max 0) account run operation total values.items source date
    pure (some (r.1.replayed && r.2.replayed))
  | .model (.release account run operation date) => do
    let r ← Coordinator.release (max 0) account run operation date
    pure (some (r.1.replayed && r.2.replayed))
  | .model (.recover run) => do
    Coordinator.recoverTerminalInUow (max 0) run
    pure none
  | .reserve caller run operation values finalResponse enforceLimits deferExhaustion => do
    let r ← RunBudget.reserveInUow caller run operation values.items finalResponse enforceLimits deferExhaustion
    pure (r.elim (fun m => some m.replayed) fun _ => none)
  | .settle run operation values source => do
    let m ← RunBudget.settleInUow (max 0) run operation values.items source
    pure (some m.replayed)
  | .release run operation => do
    let m ← RunBudget.releaseInUow (max 0) run operation
    pure (some m.replayed)
  | .finish run status => do
    let _ ← finishInUow (max 0) run status
    pure none

/-- The call repeated by another caller, at another time. -/
def UsageCall.again (caller : Caller) : UsageCall → UsageCall
  | .model (.reserve _ account run operation total values finalResponse o) =>
    .model (.reserve caller account run operation total values finalResponse o)
  | .reserve _ run operation values finalResponse enforceLimits deferExhaustion =>
    .reserve caller run operation values finalResponse enforceLimits deferExhaustion
  | c => c

/-- The second call is one on the same operation with other amounts, dimensions or usage source. -/
inductive UsageCall.Contradicts : UsageCall → UsageCall → Prop
  | reserve {caller caller' : Caller} {run : Uuid} {operation : String} {values values' : Values} {f e d f' e' d' : Bool}
      {requested requested' : Dict ℕ} (h : amounts values.items = .ok requested)
      (h' : amounts values'.items = .ok requested') (hne : requested' ≠ requested) :
      Contradicts (.reserve caller run operation values f e d) (.reserve caller' run operation values' f' e' d')
  | modelReserve {caller caller' : Caller} {account run : Uuid} {operation : String} {total total' : Raw}
      {values values' : Values} {f f' : Bool} {o : AccountBudget.Options} {requested requested' : Dict ℕ} {n' : ℕ}
      (h : amounts values.items = .ok requested) (h' : amounts values'.items = .ok requested')
      (hmatching : Coordinator.requireMatchingTotal total' values'.items = .ok ())
      (htotal : AccountBudget.tokens total' = .ok n') (hne : requested' ≠ requested) :
      Contradicts (.model (.reserve caller account run operation total values f o))
        (.model (.reserve caller' account run operation total' values' f' o))
  | settle {run : Uuid} {operation : String} {values values' : Values} {source source' : String}
      {actual actual' : Dict ℕ} {u u' : UsageSource} (h : amounts values.items = .ok actual)
      (h' : amounts values'.items = .ok actual') (hu : UsageSource.parse source = .ok u)
      (hu' : UsageSource.parse source' = .ok u') (hne : actual' ≠ actual ∨ u' ≠ u) :
      Contradicts (.settle run operation values source) (.settle run operation values' source')
  | modelSettle {account run : Uuid} {operation : String} {total total' : Raw} {values values' : Values}
      {source source' : String} {date : Option Date} {actual actual' : Dict ℕ} {u u' : UsageSource} {n' : ℕ}
      (h : amounts values.items = .ok actual) (h' : amounts values'.items = .ok actual')
      (hmatching : Coordinator.requireMatchingTotal total' values'.items = .ok ())
      (htotal : AccountBudget.tokens total' = .ok n') (hu : UsageSource.parse source = .ok u)
      (hu' : UsageSource.parse source' = .ok u') (hne : actual' ≠ actual ∨ u' ≠ u) :
      Contradicts (.model (.settle account run operation total values source date))
        (.model (.settle account run operation total' values' source' date))

/-- What an accepted call leaves in the ledgers. -/
def UsageCall.Stands (db : Ledgers) : UsageCall → Prop
  | .reserve _ run operation values _ _ _ =>
    ValidOperation operation ∧ RunBudget.rows db run operation ≠ Dict.empty ∧
      amounts values.items = .ok (RunBudget.reservedAmounts (RunBudget.rows db run operation))
  | .settle run operation values source => ∃ actual u, amounts values.items = .ok actual ∧
      UsageSource.parse source = .ok u ∧ SettledAs (RunBudget.rows db run operation) actual u
  | .release run operation => InState db run operation .released
  | .model (.reserve _ account run operation total values _ o) =>
    ValidOperation operation ∧ RunBudget.rows db run operation ≠ Dict.empty ∧
      amounts values.items = .ok (RunBudget.reservedAmounts (RunBudget.rows db run operation)) ∧
      Coordinator.requireMatchingTotal total values.items = .ok () ∧
      (∃ id s, o.snapshotId = some id ∧ db.snapshots.lookup id = some s ∧ s.accountId = account ∧ s.runId = run ∧
        s.operationId = operation) ∧
      ∃ day row, db.accountUsage.lookup ⟨account, day, operation⟩ = some row ∧
        AccountBudget.tokens total = .ok row.reservedTokens
  | .model (.settle account run operation total values source date) =>
    ValidOperation operation ∧ Coordinator.requireMatchingTotal total values.items = .ok () ∧
      (∃ actual u, amounts values.items = .ok actual ∧ UsageSource.parse source = .ok u ∧
        SettledAs (RunBudget.rows db run operation) actual u) ∧
      ∃ day row n u, db.accountUsage.lookup ⟨account, day, operation⟩ = some row ∧ (∀ d ∈ date, d = day) ∧
        AccountBudget.tokens total = .ok n ∧ UsageSource.parse source = .ok u ∧ row.state = .settled ∧
        row.actualTokens = some n ∧ row.usageSource = some u
  | .model (.release account run operation date) =>
    ValidOperation operation ∧ InState db run operation .released ∧
      (∃ day row, db.accountUsage.lookup ⟨account, day, operation⟩ = some row ∧ (∀ d ∈ date, d = day) ∧
        row.state = .released) ∧
      Coordinator.dispatchedOperation db account run operation = false
  | _ => False

section accepted

variable {db db' : Ledgers} {run : Uuid} {operation : String}

/-- Accepted amounts name a dimension. -/
theorem amounts_ne_empty {values : List (String × Raw)} {v : Dict ℕ} (h : amounts values = .ok v) : v ≠ Dict.empty := by
  unfold amounts at h
  cases hloop : values.foldlM normalize Dict.empty with
  | error e =>
      rw [hloop] at h
      cases h
  | ok w =>
      rw [hloop] at h
      have hnonempty : nonempty w = .ok v := h
      obtain rfl := nonempty_ok hnonempty
      unfold nonempty at hnonempty
      split at hnonempty
      · cases hnonempty
      · assumption

theorem opened_ne_empty {requested : Dict ℕ} (h : requested ≠ Dict.empty) (execution : Option Uuid) :
    RunBudget.opened requested execution ≠ Dict.empty := by
  intro hempty
  apply h
  funext d
  exact Option.map_eq_none_iff.mp (congrFun hempty d)

theorem reservedAmounts_opened (requested : Dict ℕ) (execution : Option Uuid) :
    RunBudget.reservedAmounts (RunBudget.opened requested execution) = requested := by
  funext d
  unfold RunBudget.reservedAmounts RunBudget.opened
  cases requested d <;> rfl

theorem RunBudget.reserveInUow_stands {caller : Caller} {values : List (String × Raw)}
    {finalResponse enforceLimits deferExhaustion : Bool} {m : Mutation} (hs : Recorded db)
    (h : (RunBudget.reserveInUow caller run operation values finalResponse enforceLimits deferExhaustion).run db
      = .ok (.inl m, db')) :
    ValidOperation operation ∧ RunBudget.rows db' run operation ≠ Dict.empty ∧
      amounts values = .ok (RunBudget.reservedAmounts (RunBudget.rows db' run operation)) := by
  have hvalid : ValidOperation operation := by
    rcases RunBudget.reserveInUow_ok h with ⟨_, _, hbody⟩ | ⟨_, ⟨_, he⟩, _⟩
    · unfold RunBudget.reserveBody at hbody
      rw [Tx.bind_ok] at hbody
      obtain ⟨_, _, _, hbody⟩ := hbody
      rw [Tx.bind_ofExcept_ok] at hbody
      obtain ⟨_, _, hbody⟩ := hbody
      exact (Tx.bind_check_ok.mp hbody).1
    · cases he
  refine ⟨hvalid, ?_⟩
  rcases (RunBudget.reserveInUow_effect hs h).2 with ⟨_, requested, _, hvalues, heffect⟩ | ⟨_, ⟨_, he⟩, _⟩
  · cases heffect with
    | opened _ hmoved =>
        rw [hmoved.rows_eq, reservedAmounts_opened]
        exact ⟨opened_ne_empty (amounts_ne_empty hvalues) _, hvalues⟩
    | replayed hne hamounts =>
        rw [hamounts]
        exact ⟨hne, hvalues⟩
  · cases he

theorem RunBudget.settleInUow_stands {values : List (String × Raw)} {source : String} {m : Mutation} (hs : Recorded db)
    (h : (RunBudget.settleInUow (max 0) run operation values source).run db = .ok (m, db')) :
    ∃ actual u, amounts values = .ok actual ∧ UsageSource.parse source = .ok u ∧
      SettledAs (RunBudget.rows db' run operation) actual u := by
  obtain ⟨_, u, actual, hsource, hvalues, heffect⟩ := RunBudget.settleInUow_effect RunBudget.clampsNegative_max hs h
  refine ⟨actual, u, hvalues, hsource, ?_⟩
  cases heffect with
  | replayed hrows hne hsettled hactual =>
      subst hrows
      exact ⟨hne, hsettled, hactual⟩
  | settled hrows hne hreserved hkeys hmoved =>
      subst hrows
      rw [hmoved.rows_eq]
      refine ⟨?_, fun d r hr => ?_, fun d => ?_⟩
      · intro hempty
        apply hne
        funext d
        exact Option.map_eq_none_iff.mp (congrFun hempty d)
      · obtain ⟨r', _, rfl⟩ := Option.map_eq_some_iff.mp hr
        exact ⟨rfl, rfl⟩
      · unfold RunBudget.settledRows
        cases hr : RunBudget.rows db run operation d with
        | none =>
            have hsome := hkeys d
            rw [hr, Option.isSome_none] at hsome
            have hnone : actual d = none := Option.isSome_eq_false_iff.mp hsome.symm |> Option.isNone_iff_eq_none.mp
            rw [hnone]
            rfl
        | some r =>
            have hsome := hkeys d
            rw [hr] at hsome
            obtain ⟨n, hn⟩ := Option.isSome_iff_exists.mp hsome.symm
            rw [hn]
            rfl

theorem RunBudget.releaseInUow_stands {m : Mutation} (hs : Recorded db)
    (h : (RunBudget.releaseInUow (max 0) run operation).run db = .ok (m, db')) : InState db' run operation .released := by
  obtain ⟨_, heffect⟩ := RunBudget.releaseInUow_effect RunBudget.clampsNegative_max hs h
  cases heffect with
  | replayed hrows hne hreleased =>
      subst hrows
      exact ⟨hne, hreleased⟩
  | released hrows hne hreserved hmoved =>
      subst hrows
      unfold InState
      rw [hmoved.rows_eq]
      refine ⟨?_, fun d r hr => ?_⟩
      · intro hempty
        apply hne
        funext d
        exact Option.map_eq_none_iff.mp (congrFun hempty d)
      · obtain ⟨r', _, rfl⟩ := Option.map_eq_some_iff.mp hr
        rfl

/-- The closed row an account settlement leaves. -/
theorem AccountBudget.settleInUow_stands {account : Uuid} {value : Raw} {source : String} {date : Option Date}
    {m : AccountMutation}
    (h : (AccountBudget.settleInUow account operation value source date).run db = .ok (m, db')) :
    ∃ day row n u, db'.accountUsage.lookup ⟨account, day, operation⟩ = some row ∧ (∀ d ∈ date, d = day) ∧
      AccountBudget.tokens value = .ok n ∧ UsageSource.parse source = .ok u ∧ row.state = .settled ∧
      row.actualTokens = some n ∧ row.usageSource = some u := by
  obtain ⟨n, u, day, hn, hu, hacts, hdone⟩ := AccountBudget.settleInUow_ok h
  have hdate : ∀ d ∈ date, d = day := by
    intro d hd
    rw [Option.mem_def] at hd
    subst hd
    exact hacts.symm
  cases hdone with
  | @settled row _ hrow hstate hrewrote =>
      refine ⟨day, { row with state := .settled, actualTokens := some n, usageSource := some u }, n, u, ?_, hdate, hn, hu,
        rfl, rfl, rfl⟩
      rw [hrewrote.only]
      exact AList.lookup_insert _
  | replayed hrow hstate hactual hsource => exact ⟨day, _, n, u, hrow, hdate, hn, hu, hstate, hactual, hsource⟩

theorem AccountBudget.releaseInUow_stands {account : Uuid} {date : Option Date} {m : AccountMutation}
    (h : (AccountBudget.releaseInUow account operation date).run db = .ok (m, db')) :
    ∃ day row, db'.accountUsage.lookup ⟨account, day, operation⟩ = some row ∧ (∀ d ∈ date, d = day) ∧
      row.state = .released := by
  obtain ⟨day, hacts, hdone⟩ := AccountBudget.releaseInUow_ok h
  have hdate : ∀ d ∈ date, d = day := by
    intro d hd
    rw [Option.mem_def] at hd
    subst hd
    exact hacts.symm
  cases hdone with
  | @released row _ hrow hstate hrewrote =>
      refine ⟨day, { row with state := .released }, ?_, hdate, rfl⟩
      rw [hrewrote.only]
      exact AList.lookup_insert _
  | replayed hrow hstate => exact ⟨day, _, hrow, hdate, hstate⟩

end accepted

/-! ### What stands -/

section stands

variable {db db' : Ledgers}

/-- A call does what its command does. -/
theorem UsageCall.report_command (c : UsageCall) {b : Option Bool} (h : c.report.run db = .ok (b, db')) :
    c.command.run db = .ok ((), db') := by
  cases c with
  | model c =>
      cases c <;>
        (obtain ⟨r, s, hcall, h⟩ := Tx.bind_ok.mp h
         obtain ⟨_, rfl⟩ := Tx.pure_ok.mp h)
      · exact Tx.bind_ok.mpr ⟨r, _, hcall, rfl⟩
      · exact Tx.bind_ok.mpr ⟨r, _, hcall, rfl⟩
      · exact Tx.bind_ok.mpr ⟨r, _, hcall, rfl⟩
      · exact hcall
  | reserve | settle | release | finish =>
      obtain ⟨r, s, hcall, h⟩ := Tx.bind_ok.mp h
      obtain ⟨_, rfl⟩ := Tx.pure_ok.mp h
      exact Tx.bind_ok.mpr ⟨r, _, hcall, rfl⟩

/-- **An accepted call stands.** -/
theorem UsageCall.stands (c : UsageCall) (hcarries : c.Carries db) (hs : Recorded db) (hb : AccountBacked db) {b : Bool}
    (h : c.report.run db = .ok (some b, db')) : c.Stands db' := by
  cases c with
  | model c =>
      cases c with
      | reserve caller account run operation total values finalResponse o =>
          obtain ⟨r, s, hcall, h⟩ := Tx.bind_ok.mp h
          obtain ⟨_, rfl⟩ := Tx.pure_ok.mp h
          obtain ⟨_, _, hsnapshots, _⟩ := Coordinator.reserve_backed hs hb hcarries hcall
          obtain ⟨day, s, _, hacc, hrun⟩ := Coordinator.reserve_calls hcall
          have hs₁ := AccountBudget.reserveInUow_recorded _ _ _ _ _ _ _ hacc hs
          obtain ⟨hvalid, hne, hvalues⟩ := RunBudget.reserveInUow_stands hs₁ hrun
          obtain ⟨id, snapshot, hid, hsnap, hfor⟩ := hcarries
          have hmatching : Coordinator.requireMatchingTotal total values.items = .ok () := by
            unfold Coordinator.reserve at hcall
            rw [Tx.bind_ofExcept_ok] at hcall
            obtain ⟨_, hmatching, _⟩ := hcall
            exact hmatching
          refine ⟨hvalid, hne, hvalues, hmatching, ⟨id, snapshot, hid, ?_, hfor⟩, ?_⟩
          · rw [hsnapshots]
            exact hsnap
          · have hsteady := (RunBudget.reserveInUow_closing _ _ _ hrun hs₁).2.steady
            obtain ⟨n, day', hn, _, hdone⟩ := AccountBudget.reserveInUow_ok hacc
            generalize r.1 = m at hdone
            cases hdone with
            | opened hnone hrewrote =>
                have hrow : s.accountUsage.lookup ⟨account, day', operation⟩
                    = some ⟨o.snapshotId, .reserved, n, none, none⟩ := by
                  rw [hrewrote.only]
                  exact AList.lookup_insert _
                obtain ⟨row', hrow', _, htokens, _⟩ := hsteady.rows _ _ hrow
                refine ⟨day', row', hrow', ?_⟩
                rw [htokens]
                exact hn
            | @replayed row _ hrow htokens _ hquiet =>
                rw [← htokens] at hn
                have hrow₁ : s.accountUsage.lookup ⟨account, day', operation⟩ = some row := by
                  rw [hquiet.only]
                  exact hrow
                obtain ⟨row', hrow', _, htokens', _⟩ := hsteady.rows _ _ hrow₁
                refine ⟨day', row', hrow', ?_⟩
                rw [htokens']
                exact hn
      | settle account run operation total values source date =>
          obtain ⟨r, s, hcall, h⟩ := Tx.bind_ok.mp h
          obtain ⟨_, rfl⟩ := Tx.pure_ok.mp h
          obtain ⟨s, hacc, hrun⟩ := Coordinator.settle_calls hcall
          have hs₁ := AccountBudget.settleInUow_recorded _ _ _ _ _ _ _ hacc hs
          have hsteady := (keptByClosing_closing.runSettle _ _ _ _ _ _ _ hrun hs₁).2.steady
          have hmatching : Coordinator.requireMatchingTotal total values.items = .ok () := by
            unfold Coordinator.settle at hcall
            rw [Tx.bind_ofExcept_ok] at hcall
            obtain ⟨_, hmatching, _⟩ := hcall
            exact hmatching
          have hvalid : ValidOperation operation := by
            unfold AccountBudget.settleInUow at hacc
            rw [Tx.bind_ofExcept_ok] at hacc
            obtain ⟨_, _, hacc⟩ := hacc
            exact (Tx.bind_check_ok.mp hacc).1
          refine ⟨hvalid, hmatching, RunBudget.settleInUow_stands hs₁ hrun, ?_⟩
          obtain ⟨day, row, n, u, hrow, hdate, hn, hu, hstate, hactual, hsource⟩ := AccountBudget.settleInUow_stands hacc
          obtain ⟨row', hrow', _, _, hsame⟩ := hsteady.rows _ row hrow
          obtain rfl := hsame (by rw [hstate]; exact nofun)
          exact ⟨day, row', n, u, hrow', hdate, hn, hu, hstate, hactual, hsource⟩
      | release account run operation date =>
          obtain ⟨r, s, hcall, h⟩ := Tx.bind_ok.mp h
          obtain ⟨_, rfl⟩ := Tx.pure_ok.mp h
          have hunmarked : Coordinator.dispatchedOperation db account run operation = false := by
            unfold Coordinator.release at hcall
            rw [Tx.bind_ok] at hcall
            obtain ⟨_, s₀, hlock, hcall⟩ := hcall
            obtain ⟨rfl, _⟩ := AccountBudget.lockedLedger_ok hlock
            rw [Tx.bind_query_ok, Tx.bind_check_ok] at hcall
            exact hcall.1
          have hclosing := (keptByClosing_closing.release date _ _ _ hcall hs).2
          obtain ⟨s, hacc, hrun⟩ := Coordinator.release_calls hcall
          have hs₁ := AccountBudget.releaseInUow_recorded _ _ _ _ _ hacc hs
          have hsteady := (keptByClosing_closing.runRelease _ _ _ _ _ hrun hs₁).2.steady
          have hvalid : ValidOperation operation := by
            unfold AccountBudget.releaseInUow at hacc
            exact (Tx.bind_check_ok.mp hacc).1
          refine ⟨hvalid, RunBudget.releaseInUow_stands hs₁ hrun, ?_, ?_⟩
          · obtain ⟨day, row, hrow, hdate, hstate⟩ := AccountBudget.releaseInUow_stands hacc
            obtain ⟨row', hrow', _, _, hsame⟩ := hsteady.rows _ row hrow
            obtain rfl := hsame (by rw [hstate]; exact nofun)
            exact ⟨day, row', hrow', hdate, hstate⟩
          · unfold Coordinator.dispatchedOperation Coordinator.dispatched at hunmarked ⊢
            rw [hclosing.snapshots, hclosing.dispatches]
            exact hunmarked
      | recover run =>
          obtain ⟨_, _, _, h⟩ := Tx.bind_ok.mp h
          cases (Tx.pure_ok.mp h).1
  | reserve caller run operation values finalResponse enforceLimits deferExhaustion =>
      obtain ⟨r, s, hcall, h⟩ := Tx.bind_ok.mp h
      obtain ⟨hflag, rfl⟩ := Tx.pure_ok.mp h
      cases r with
      | inl m => exact RunBudget.reserveInUow_stands hs hcall
      | inr e => cases hflag
  | settle run operation values source =>
      obtain ⟨r, s, hcall, h⟩ := Tx.bind_ok.mp h
      obtain ⟨_, rfl⟩ := Tx.pure_ok.mp h
      exact RunBudget.settleInUow_stands hs hcall
  | release run operation =>
      obtain ⟨r, s, hcall, h⟩ := Tx.bind_ok.mp h
      obtain ⟨_, rfl⟩ := Tx.pure_ok.mp h
      exact RunBudget.releaseInUow_stands hs hcall
  | finish run status =>
      obtain ⟨_, _, _, h⟩ := Tx.bind_ok.mp h
      cases (Tx.pure_ok.mp h).1

/-- Snapshots are never lost. -/
theorem UsageStep.keepsSnapshots {allowed : UsageCall → Ledgers → Prop} (h : UsageStep allowed db db') (hs : Recorded db)
    (hb : AccountBacked db) {id : Uuid} {s : Snapshot} (hsnap : db.snapshots.lookup id = some s) :
    db'.snapshots.lookup id = some s := by
  rcases h.call_or_around with ⟨c, hcarries, _, rfl⟩ | haround
  · refine Tx.commit_rule (fun db' : Ledgers => db'.snapshots.lookup id = some s) hsnap ?_
    intro u db' hrun
    obtain ⟨_, _, hsnapshots, _⟩ := c.accountSteady hcarries hs hb hrun
    rw [hsnapshots]
    exact hsnap
  · exact haround.kept id s hsnap

theorem UsageSteps.keepsSnapshots (h : UsageSteps db db') (hs : Recorded db) (hb : AccountBacked db) {id : Uuid}
    {s : Snapshot} (hsnap : db.snapshots.lookup id = some s) : db'.snapshots.lookup id = some s := by
  induction h with
  | refl => exact hsnap
  | tail hsteps hstep ih =>
      exact hstep.keepsSnapshots (UsageSteps.runsSteady hsteps hs).1 (UsageSteps.accountSteady hsteps hs hb).1 ih

theorem RunsSteady.settledAs (h : RunsSteady db db') {run : Uuid} {operation : String} {actual : Dict ℕ}
    {u : UsageSource} (hsettled : SettledAs (RunBudget.rows db run operation) actual u) :
    RunBudget.rows db' run operation = RunBudget.rows db run operation :=
  h.closed run operation .settled ⟨hsettled.ne_empty, fun d r hr => (hsettled.settled d r hr).1⟩ nofun

theorem RunsSteady.inState (h : RunsSteady db db') {run : Uuid} {operation : String} {t : UsageState}
    (hin : InState db run operation t) (ht : t ≠ .reserved) : InState db' run operation t := by
  unfold InState
  rw [h.closed run operation t hin ht]
  exact hin

/-- **What stands keeps standing.** -/
theorem UsageCall.Stands.steps {c : UsageCall} (hc : c.Stands db) (h : UsageSteps db db') (hs : Recorded db)
    (hb : AccountBacked db) : c.Stands db' := by
  obtain ⟨_, hruns⟩ := UsageSteps.runsSteady h hs
  obtain ⟨_, haccounts⟩ := UsageSteps.accountSteady h hs hb
  cases c with
  | model c =>
      cases c with
      | reserve caller account run operation total values finalResponse o =>
          obtain ⟨hvalid, hne, hvalues, hmatching, ⟨id, s, hid, hsnap, hfor⟩, day, row, hrow, hn⟩ := hc
          obtain ⟨row', hrow', _, htokens, _⟩ := haccounts.rows _ row hrow
          refine ⟨hvalid, hruns.rows_ne_empty hne, ?_, hmatching, ⟨id, s, hid, ?_, hfor⟩, day, row', hrow', ?_⟩
          · rw [hruns.reserved run operation hne]
            exact hvalues
          · exact UsageSteps.keepsSnapshots h hs hb hsnap
          · rw [htokens]
            exact hn
      | settle account run operation total values source date =>
          obtain ⟨hvalid, hmatching, ⟨actual, u, hvalues, hsource, hsettled⟩, day, row, n, u', hrow, hdate, hn, hu', hstate,
            hrest⟩ := hc
          obtain ⟨row', hrow', _, _, hsame⟩ := haccounts.rows _ row hrow
          obtain rfl := hsame (by rw [hstate]; exact nofun)
          refine ⟨hvalid, hmatching, ⟨actual, u, hvalues, hsource, ?_⟩, day, row', n, u', hrow', hdate, hn, hu', hstate, hrest⟩
          rw [hruns.settledAs hsettled]
          exact hsettled
      | release account run operation date =>
          obtain ⟨hvalid, hin, ⟨day, row, hrow, hdate, hstate⟩, hunmarked⟩ := hc
          have hclosed : row.state ≠ .reserved := by
            rw [hstate]
            exact nofun
          obtain ⟨row', hrow', _, _, hsame⟩ := haccounts.rows _ row hrow
          obtain rfl := hsame hclosed
          exact ⟨hvalid, hruns.inState hin nofun, ⟨day, row', hrow', hdate, hstate⟩,
            UsageSteps.unmarked h hs hb hrow hclosed hunmarked⟩
      | recover run => exact hc
  | reserve caller run operation values finalResponse enforceLimits deferExhaustion =>
      obtain ⟨hvalid, hne, hvalues⟩ := hc
      refine ⟨hvalid, hruns.rows_ne_empty hne, ?_⟩
      rw [hruns.reserved run operation hne]
      exact hvalues
  | settle run operation values source =>
      obtain ⟨actual, u, hvalues, hsource, hsettled⟩ := hc
      refine ⟨actual, u, hvalues, hsource, ?_⟩
      rw [hruns.settledAs hsettled]
      exact hsettled
  | release run operation => exact hruns.inState hc nofun
  | finish run status => exact hc

end stands

end HpAgent.Budget
