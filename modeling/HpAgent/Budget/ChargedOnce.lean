import HpAgent.Budget.Accepted

/-! # Exactly-once charging

Repeating an accepted call is a replay, contradicting it is a conflict, and once an operation is closed in a
ledger no call on it changes that ledger.

* `UsageCall.Stands.again`, `UsageCall.Stands.contradicted`: the calls after the first.
* `UsageCall.runsQuiet`, `UsageCall.accountQuiet`: the calls on closed operations.
* `charged_once`: the laws over every history. -/

namespace HpAgent.Budget

open Library
open WorkBudget (meteredOn)

/-! ### The calls after the first -/

/-- A reservation, which passes the admission checks before it finds the rows of its operation. -/
def UsageCall.isReservation : UsageCall → Bool
  | .model (.reserve ..) | .reserve .. => true
  | _ => false

/-- Settled rows record one amount for each dimension, and one source. -/
theorem SettledAs.unique {rs : Dict RunUsage} {actual actual' : Dict ℕ} {u u' : UsageSource} (h : SettledAs rs actual u)
    (h' : SettledAs rs actual' u') : actual' = actual ∧ u' = u := by
  constructor
  · funext d
    have hd := (h.actual d).symm.trans (h'.actual d)
    exact Option.map_injective (Option.some_injective _) hd.symm
  · obtain ⟨d, r, hr⟩ : ∃ d r, rs d = some r := by
      by_contra hnone
      apply h.ne_empty
      funext d
      by_contra hd
      exact hnone ⟨d, Option.ne_none_iff_exists'.mp hd⟩
    exact Option.some.inj ((h'.settled d r hr).2.symm.trans (h.settled d r hr).2)

section again

variable {db : Ledgers} {c c' : UsageCall}

/-- **A repeated call is a replay**, or a reservation that its admission checks refuse. -/
theorem UsageCall.Stands.again (hc : c.Stands db) (hs : Recorded db) (hw : WorkBacked db) (hb : AccountBacked db)
    (caller : Caller) : (c.again caller).report.run db = .ok (some true, db) ∨
      c.isReservation = true ∧ ∃ e, (c.again caller).report.run db = .error e ∧ Refusal e := by
  cases c with
  | model c =>
      cases c with
      | reserve caller₀ account run operation total values finalResponse o =>
          obtain ⟨hvalid, hne, hvalues, hmatching, hcarries, day, row, hrow, hn⟩ := hc
          rcases Coordinator.reserve_again caller finalResponse hs hw hb hvalid hcarries hne hrow hmatching
            hn hvalues with ⟨r, hrun, hreplayed, hreplayed', _⟩ | ⟨e, hrun, hrefused | ⟨_, hdiffers⟩⟩
          · left
            refine Tx.bind_ok.mpr ⟨r, db, hrun, ?_⟩
            rw [hreplayed, hreplayed']
            rfl
          · exact .inr ⟨rfl, e, Tx.bind_error.mpr (.inl hrun), hrefused⟩
          · exact absurd ⟨rfl, rfl⟩ hdiffers
      | settle account run operation total values source date =>
          obtain ⟨hvalid, hmatching, ⟨actual, u, hvalues, hsource, hsettled⟩, day, row, n, u', hrow, hdate, hn, hu', hstate,
            htokens, hrowsource⟩ := hc
          obtain rfl := Except.ok.inj (hu'.symm.trans hsource)
          have hclosed : row.state ≠ .reserved := by
            rw [hstate]
            exact nofun
          left
          rcases Coordinator.settle_again hs hw hb hvalid ⟨hsettled.ne_empty, fun d r hr => (hsettled.settled d r hr).1⟩
            nofun hrow hclosed hdate hmatching hn hvalues hsource with
            ⟨r, hrun, hreplayed, hreplayed', _⟩ | ⟨_, _, _, hdiffers⟩
          · refine Tx.bind_ok.mpr ⟨r, db, hrun, ?_⟩
            rw [hreplayed, hreplayed']
            rfl
          · exact absurd ⟨⟨hstate, htokens, hrowsource⟩, hsettled⟩ hdiffers
      | release account run operation date =>
          obtain ⟨hvalid, hin, ⟨day, row, hrow, hdate, hstate⟩, hunmarked⟩ := hc
          obtain ⟨r, hrun, hreplayed, hreplayed'⟩ :=
            Coordinator.release_again hs hw hb hvalid hin hrow hstate hdate hunmarked
          left
          refine Tx.bind_ok.mpr ⟨r, db, hrun, ?_⟩
          rw [hreplayed, hreplayed']
          rfl
      | recover run => exact hc.elim
  | reserve caller₀ run operation values finalResponse enforceLimits deferExhaustion =>
      obtain ⟨hvalid, hne, hvalues⟩ := hc
      rcases RunBudget.reserveInUow_again caller finalResponse enforceLimits deferExhaustion hs hw hne with
        ⟨m, hrun, hreplayed, _⟩ | ⟨e, hrun, hwhy⟩
      · left
        refine Tx.bind_ok.mpr ⟨.inl m, db, hrun, ?_⟩
        show (pure (some m.replayed) : BudgetTx _).run db = _
        rw [hreplayed]
        rfl
      · rcases hwhy _ hvalues hvalid with hadmission | ⟨_, hdiffers⟩
        · exact .inr ⟨rfl, e, Tx.bind_error.mpr (.inl hrun), refusal_of_admission hadmission⟩
        · exact absurd rfl hdiffers
  | settle run operation values source =>
      obtain ⟨actual, u, hvalues, hsource, hsettled⟩ := hc
      left
      rcases RunBudget.settleInUow_again hs hw ⟨hsettled.ne_empty, fun d r hr => (hsettled.settled d r hr).1⟩ nofun with
        ⟨m, hrun, hreplayed, _⟩ | ⟨_, _, hwhy⟩
      · refine Tx.bind_ok.mpr ⟨m, db, hrun, ?_⟩
        rw [hreplayed]
        rfl
      · exact absurd hsettled (hwhy actual u hvalues hsource).2
  | release run operation =>
      left
      rcases RunBudget.releaseInUow_again hs hw hc nofun with ⟨m, hrun, hreplayed, _⟩ | ⟨_, _, _, hne⟩
      · refine Tx.bind_ok.mpr ⟨m, db, hrun, ?_⟩
        rw [hreplayed]
        rfl
      · exact absurd rfl hne
  | finish run status => exact hc.elim

/-- **A call that contradicts an accepted one is a conflict.** -/
theorem UsageCall.Stands.contradicted (hc : c.Stands db) (hs : Recorded db) (hw : WorkBacked db) (hb : AccountBacked db)
    (h : c.Contradicts c') :
    ∃ e, c'.report.run db = .error e ∧ (Conflict e ∨ c.isReservation = true ∧ Refusal e) := by
  cases h with
  | reserve hrequested hrequested' hne' =>
      obtain ⟨hvalid, hne, hvalues⟩ := hc
      obtain rfl := Except.ok.inj (hrequested.symm.trans hvalues)
      rcases RunBudget.reserveInUow_again _ _ _ _ hs hw hne with ⟨_, _, _, hsame⟩ | ⟨e, hrun, hwhy⟩
      · exact absurd (Except.ok.inj (hrequested'.symm.trans hsame)) hne'
      · refine ⟨e, Tx.bind_error.mpr (.inl hrun), ?_⟩
        rcases hwhy _ hrequested' hvalid with hadmission | ⟨hconflict, _⟩
        · exact .inr ⟨rfl, refusal_of_admission hadmission⟩
        · exact .inl hconflict
  | modelReserve hrequested hrequested' hmatching' htotal' hne' =>
      obtain ⟨hvalid, hne, hvalues, _, hcarries, day, row, hrow, _⟩ := hc
      obtain rfl := Except.ok.inj (hrequested.symm.trans hvalues)
      rcases Coordinator.reserve_again _ _ hs hw hb hvalid hcarries hne hrow hmatching' htotal' hrequested' with
        ⟨_, _, _, _, _, hsame⟩ | ⟨e, hrun, hrefused | ⟨hconflict, _⟩⟩
      · exact absurd hsame hne'
      · exact ⟨e, Tx.bind_error.mpr (.inl hrun), .inr ⟨rfl, hrefused⟩⟩
      · exact ⟨e, Tx.bind_error.mpr (.inl hrun), .inl hconflict⟩
  | settle hactual hactual' hsource hsource' hne' =>
      obtain ⟨actual, u, hvalues, hu, hsettled⟩ := hc
      obtain rfl := Except.ok.inj (hactual.symm.trans hvalues)
      obtain rfl := Except.ok.inj (hsource.symm.trans hu)
      rcases RunBudget.settleInUow_again hs hw ⟨hsettled.ne_empty, fun d r hr => (hsettled.settled d r hr).1⟩ nofun with
        ⟨_, _, _, actual, u, hvalues', hu', hsettled'⟩ | ⟨e, hrun, hwhy⟩
      · obtain rfl := Except.ok.inj (hactual'.symm.trans hvalues')
        obtain rfl := Except.ok.inj (hsource'.symm.trans hu')
        obtain ⟨rfl, rfl⟩ := hsettled.unique hsettled'
        exact absurd rfl (hne'.elim id fun h => absurd rfl h)
      · exact ⟨e, Tx.bind_error.mpr (.inl hrun), .inl (hwhy _ _ hactual' hsource').1⟩
  | modelSettle hactual hactual' hmatching' htotal' hsource hsource' hne' =>
      obtain ⟨hvalid, _, ⟨actual, u, hvalues, hu, hsettled⟩, day, row, _, _, hrow, hdate, _, _, hstate, _⟩ := hc
      obtain rfl := Except.ok.inj (hactual.symm.trans hvalues)
      obtain rfl := Except.ok.inj (hsource.symm.trans hu)
      have hclosed : row.state ≠ .reserved := by
        rw [hstate]
        exact nofun
      rcases Coordinator.settle_again hs hw hb hvalid ⟨hsettled.ne_empty, fun d r hr => (hsettled.settled d r hr).1⟩ nofun
        hrow hclosed hdate hmatching' htotal' hactual' hsource' with
        ⟨_, _, _, _, _, hsettled'⟩ | ⟨e, hrun, hconflict, _⟩
      · obtain ⟨rfl, rfl⟩ := hsettled.unique hsettled'
        exact absurd rfl (hne'.elim id fun h => absurd rfl h)
      · exact ⟨e, Tx.bind_error.mpr (.inl hrun), .inl hconflict⟩

end again

/-! ### Closed operations -/

/-- A call on this operation of the Run. -/
def UsageCall.On (run : Uuid) (operation : String) : UsageCall → Prop
  | .model (.reserve _ _ r o _ _ _ _) | .model (.settle _ r o _ _ _ _) | .model (.release _ r o _)
  | .reserve _ r o _ _ _ _ | .settle r o _ _ | .release r o => r = run ∧ o = operation
  | _ => False

/-- A coordinated call on this operation of the account. -/
def UsageCall.OnAccount (account : Uuid) (operation : String) : UsageCall → Prop
  | .model (.reserve _ a _ o _ _ _ _) | .model (.settle a _ o _ _ _ _) | .model (.release a _ o _) =>
    a = account ∧ o = operation
  | _ => False

/-- Nothing but the account ledger differs. -/
def RunsQuiet (db db' : Ledgers) : Prop :=
  db' = { db with accountUsage := db'.accountUsage, dailyBudgets := db'.dailyBudgets }

/-- The account ledger does not differ. -/
def AccountQuiet (db db' : Ledgers) : Prop :=
  db'.accountUsage = db.accountUsage ∧ db'.dailyBudgets = db.dailyBudgets

section closed

variable {db s db' : Ledgers} {account run : Uuid} {operation : String} {t : UsageState}

theorem RunsQuiet.inState (h : RunsQuiet db s) (hin : InState db run operation t) : InState s run operation t := by
  have husage : s.runUsage = db.runUsage := by rw [h]
  unfold InState RunBudget.rows
  rw [husage]
  exact hin

theorem RunsQuiet.workBacked (h : RunsQuiet db s) (hw : WorkBacked db) : WorkBacked s := by
  refine hw.of_same ?_ fun c hc => ?_
  · rw [h]
  · rw [h]
    exact hc

theorem RunBudget.reserveInUow_closed {caller : Caller} {values : List (String × Raw)}
    {finalResponse enforceLimits deferExhaustion : Bool} {r : Mutation ⊕ Error} (hs : Recorded db) (hw : WorkBacked db)
    (hin : InState db run operation t)
    (h : (RunBudget.reserveInUow caller run operation values finalResponse enforceLimits deferExhaustion).run db
      = .ok (r, db')) : db' = db := by
  rcases RunBudget.reserveInUow_again _ _ _ _ hs hw hin.1 with ⟨m, hagain, _⟩ | ⟨e, hagain, _⟩
  · rw [hagain] at h
    exact (Prod.mk.inj (Except.ok.inj h)).2.symm
  · rw [hagain] at h
    cases h

/-- **A call on an operation that is closed in the Run ledger** changes neither that ledger nor the Work's. -/
theorem UsageCall.runsQuiet (c : UsageCall) (hon : c.On run operation) (hs : Recorded db) (hw : WorkBacked db)
    (hin : InState db run operation t) (ht : t ≠ .reserved) : RunsQuiet db (c.command.commit db) := by
  refine Tx.commit_rule (RunsQuiet db) rfl fun u db' h => ?_
  cases c with
  | model c =>
      cases c with
      | reserve caller account run' operation' total values finalResponse o =>
          obtain ⟨rfl, rfl⟩ := hon
          obtain ⟨r, _, hcall, h⟩ := Tx.bind_ok.mp h
          obtain ⟨_, rfl⟩ := Tx.pure_ok.mp h
          obtain ⟨_, s, _, hacc, hrun⟩ := Coordinator.reserve_calls hcall
          have hquiet : RunsQuiet db s := AccountBudget.reserveInUow_runRows hacc
          have hs₁ := AccountBudget.reserveInUow_recorded _ _ _ _ _ _ _ hacc hs
          obtain rfl := RunBudget.reserveInUow_closed hs₁ (hquiet.workBacked hw) (hquiet.inState hin) hrun
          exact hquiet
      | settle account run' operation' total values source date =>
          obtain ⟨rfl, rfl⟩ := hon
          obtain ⟨r, _, hcall, h⟩ := Tx.bind_ok.mp h
          obtain ⟨_, rfl⟩ := Tx.pure_ok.mp h
          obtain ⟨s, hacc, hrun⟩ := Coordinator.settle_calls hcall
          have hquiet : RunsQuiet db s := AccountBudget.settleInUow_runRows hacc
          have hs₁ := AccountBudget.settleInUow_recorded _ _ _ _ _ _ _ hacc hs
          obtain ⟨_, _, _, _, _, heffect⟩ := RunBudget.settleInUow_effect RunBudget.clampsNegative_max hs₁ hrun
          obtain ⟨rfl, _⟩ := heffect.of_closed (hquiet.inState hin) ht
          exact hquiet
      | release account run' operation' date =>
          obtain ⟨rfl, rfl⟩ := hon
          obtain ⟨r, _, hcall, h⟩ := Tx.bind_ok.mp h
          obtain ⟨_, rfl⟩ := Tx.pure_ok.mp h
          obtain ⟨s, hacc, hrun⟩ := Coordinator.release_calls hcall
          have hquiet : RunsQuiet db s := AccountBudget.releaseInUow_runRows hacc
          have hs₁ := AccountBudget.releaseInUow_recorded _ _ _ _ _ hacc hs
          obtain ⟨_, heffect⟩ := RunBudget.releaseInUow_effect RunBudget.clampsNegative_max hs₁ hrun
          obtain ⟨rfl, _⟩ := heffect.of_closed (hquiet.inState hin) ht
          exact hquiet
      | recover run' => exact hon.elim
  | reserve caller run' operation' values finalResponse enforceLimits deferExhaustion =>
      obtain ⟨rfl, rfl⟩ := hon
      obtain ⟨r, _, hcall, h⟩ := Tx.bind_ok.mp h
      obtain ⟨_, rfl⟩ := Tx.pure_ok.mp h
      obtain rfl := RunBudget.reserveInUow_closed hs hw hin hcall
      rfl
  | settle run' operation' values source =>
      obtain ⟨rfl, rfl⟩ := hon
      obtain ⟨m, _, hcall, h⟩ := Tx.bind_ok.mp h
      obtain ⟨_, rfl⟩ := Tx.pure_ok.mp h
      obtain ⟨_, _, _, _, _, heffect⟩ := RunBudget.settleInUow_effect RunBudget.clampsNegative_max hs hcall
      obtain ⟨rfl, _⟩ := heffect.of_closed hin ht
      rfl
  | release run' operation' =>
      obtain ⟨rfl, rfl⟩ := hon
      obtain ⟨m, _, hcall, h⟩ := Tx.bind_ok.mp h
      obtain ⟨_, rfl⟩ := Tx.pure_ok.mp h
      obtain ⟨_, heffect⟩ := RunBudget.releaseInUow_effect RunBudget.clampsNegative_max hs hcall
      obtain ⟨rfl, _⟩ := heffect.of_closed hin ht
      rfl
  | finish run' status => exact hon.elim

theorem AccountQuiet.of_runSide
    (honly : db' = { s with runUsage := db'.runUsage, runBudgets := db'.runBudgets,
                            workUsage := db'.workUsage, workBudgets := db'.workBudgets }) : AccountQuiet s db' := by
  constructor
  · rw [honly]
  · rw [honly]

/-- The Run half of a coordinated call leaves the account ledger alone. -/
theorem RunBudget.reserveInUow_accountQuiet {caller : Caller} {values : List (String × Raw)}
    {finalResponse enforceLimits deferExhaustion : Bool} {r : Mutation ⊕ Error} (hs : Recorded s)
    (h : (RunBudget.reserveInUow caller run operation values finalResponse enforceLimits deferExhaustion).run s
      = .ok (r, db')) : AccountQuiet s db' := by
  rcases (RunBudget.reserveInUow_effect hs h).2 with ⟨_, _, _, _, heffect⟩ | ⟨_, _, rfl⟩
  · cases heffect with
    | opened _ hmoved => exact .of_runSide hmoved.only
    | replayed => exact ⟨rfl, rfl⟩
  · exact ⟨rfl, rfl⟩

theorem RunBudget.settleInUow_accountQuiet {values : List (String × Raw)} {source : String} {m : Mutation}
    (hs : Recorded s) (h : (RunBudget.settleInUow (max 0) run operation values source).run s = .ok (m, db')) :
    AccountQuiet s db' := by
  obtain ⟨_, _, _, _, _, heffect⟩ := RunBudget.settleInUow_effect RunBudget.clampsNegative_max hs h
  cases heffect with
  | settled _ _ _ _ hmoved => exact .of_runSide hmoved.only
  | replayed => exact ⟨rfl, rfl⟩

theorem RunBudget.releaseInUow_accountQuiet {m : Mutation} (hs : Recorded s)
    (h : (RunBudget.releaseInUow (max 0) run operation).run s = .ok (m, db')) : AccountQuiet s db' := by
  obtain ⟨_, heffect⟩ := RunBudget.releaseInUow_effect RunBudget.clampsNegative_max hs h
  cases heffect with
  | released _ _ _ hmoved => exact .of_runSide hmoved.only
  | replayed => exact ⟨rfl, rfl⟩

variable {day : Date} {row : AccountUsage}

/-- The account half of a call finds the closed row: there is no row of the operation on another day. -/
theorem AccountBacked.closedRow (hb : AccountBacked db)
    (hrow : db.accountUsage.lookup ⟨account, day, operation⟩ = some row) (hclosed : row.state ≠ .reserved) {day' : Date}
    {row' : AccountUsage} (hrow' : db.accountUsage.lookup ⟨account, day', operation⟩ = some row') :
    row'.state ≠ .reserved := by
  obtain rfl := hb.day account operation day' day (by rw [hrow']; rfl) (by rw [hrow]; rfl)
  obtain rfl := Option.some.inj (hrow.symm.trans hrow')
  exact hclosed

/-- **A call on an operation that is closed in the account ledger** does not change that ledger. -/
theorem UsageCall.accountQuiet (c : UsageCall) (hon : c.OnAccount account operation) (hcarries : c.Carries db)
    (hs : Recorded db) (hb : AccountBacked db) (hrow : db.accountUsage.lookup ⟨account, day, operation⟩ = some row)
    (hclosed : row.state ≠ .reserved) : AccountQuiet db (c.command.commit db) := by
  refine Tx.commit_rule (AccountQuiet db) ⟨rfl, rfl⟩ fun u db' h => ?_
  cases c with
  | model c =>
      cases c with
      | reserve caller account' run' operation' total values finalResponse o =>
          obtain ⟨rfl, rfl⟩ := hon
          obtain ⟨r, _, hcall, h⟩ := Tx.bind_ok.mp h
          obtain ⟨_, rfl⟩ := Tx.pure_ok.mp h
          obtain ⟨prior, s, hprior, hacc, hrun⟩ := Coordinator.reserve_calls hcall
          obtain ⟨id, snapshot, hid, hsnap, _, _, hop⟩ := hcarries
          rw [hid] at hprior
          obtain ⟨_, hdates⟩ := priorDay_ok hprior
          obtain ⟨_, hsingle⟩ := hb.prior hsnap hop hrow
          have hday : ({ o with quotaDate := prior } : AccountBudget.Options).quotaDate = some day := by
            rw [hsingle] at hdates
            exact Option.mem_toList.mp (hdates ▸ List.mem_singleton_self day)
          have hsame : s = db := by
            rcases AccountBudget.reserveInUow_again hb hrow hday with ⟨m, hagain, _⟩ | ⟨e, hagain, _⟩
            · rw [hagain] at hacc
              exact (Prod.mk.inj (Except.ok.inj hacc)).2.symm
            · rw [hagain] at hacc
              cases hacc
          subst hsame
          exact RunBudget.reserveInUow_accountQuiet hs hrun
      | settle account' run' operation' total values source date =>
          obtain ⟨rfl, rfl⟩ := hon
          obtain ⟨r, _, hcall, h⟩ := Tx.bind_ok.mp h
          obtain ⟨_, rfl⟩ := Tx.pure_ok.mp h
          obtain ⟨s, hacc, hrun⟩ := Coordinator.settle_calls hcall
          obtain ⟨_, _, _, _, _, _, hdone⟩ := AccountBudget.settleInUow_ok hacc
          generalize r.1 = m at hdone
          cases hdone with
          | settled hrow' hstate _ => exact absurd hstate (hb.closedRow hrow hclosed hrow')
          | replayed => exact RunBudget.settleInUow_accountQuiet hs hrun
      | release account' run' operation' date =>
          obtain ⟨rfl, rfl⟩ := hon
          obtain ⟨r, _, hcall, h⟩ := Tx.bind_ok.mp h
          obtain ⟨_, rfl⟩ := Tx.pure_ok.mp h
          obtain ⟨s, hacc, hrun⟩ := Coordinator.release_calls hcall
          obtain ⟨_, _, hdone⟩ := AccountBudget.releaseInUow_ok hacc
          generalize r.1 = m at hdone
          cases hdone with
          | released hrow' hstate _ => exact absurd hstate (hb.closedRow hrow hclosed hrow')
          | replayed => exact RunBudget.releaseInUow_accountQuiet hs hrun
      | recover run' => exact hon.elim
  | reserve | settle | release | finish => exact hon.elim

end closed

/-! ### Histories -/

section histories

variable {db db' : Ledgers} {run : Uuid} {operation : String}

/-- Recorded ledgers stay recorded, and known Runs keep their account and Work. -/
def KeepsKnown (db db' : Ledgers) : Prop := Recorded db → Recorded db' ∧ KeepsRuns db.authority db'.authority

instance : IsPreorder Ledgers KeepsKnown where
  refl _ hs := ⟨hs, .refl _⟩
  trans _ _ _ h₁ h₂ hs := by
    obtain ⟨hs₁, hruns₁⟩ := h₁ hs
    obtain ⟨hs₂, hruns₂⟩ := h₂ hs₁
    refine ⟨hs₂, fun run r hr => ?_⟩
    obtain ⟨r₁, hr₁, haccount₁, hwork₁⟩ := hruns₁ run r hr
    obtain ⟨r₂, hr₂, haccount₂, hwork₂⟩ := hruns₂ run r₁ hr₁
    exact ⟨r₂, hr₂, haccount₂.trans haccount₁, hwork₂.trans hwork₁⟩

theorem KeepsKnown.of_closing (h : KeepsClosing db db') : KeepsKnown db db' := fun hs => ⟨(h hs).1, (h hs).2.runs⟩

theorem keptByServices_known : KeptByServices (max 0) KeepsKnown where
  accountReserve _ _ _ _ _ _ _ _ h hs := by
    refine ⟨AccountBudget.reserveInUow_recorded _ _ _ _ _ _ _ h hs, ?_⟩
    rw [AccountBudget.reserveInUow_runRows h]
    exact .refl _
  accountSettle _ _ _ _ _ _ _ _ h := .of_closing (keptByClosing_closing.accountSettle _ _ _ _ _ _ _ _ h)
  accountRelease _ _ _ _ _ _ h := .of_closing (keptByClosing_closing.accountRelease _ _ _ _ _ _ h)
  runReserve _ _ _ _ _ _ _ _ _ _ h := .of_closing (RunBudget.reserveInUow_closing _ _ _ h)
  runSettle _ _ _ _ _ _ _ h := .of_closing (keptByClosing_closing.runSettle _ _ _ _ _ _ _ h)
  runRelease _ _ _ _ _ h := .of_closing (keptByClosing_closing.runRelease _ _ _ _ _ h)
  setTerminal _ _ _ _ _ h := .of_closing (keptByClosing_closing.setTerminal _ _ _ _ _ h)

theorem UsageSteps.keepsKnown (h : UsageSteps db db') : KeepsKnown db db' := by
  induction h with
  | refl => exact refl_of KeepsKnown _
  | tail _ hstep ih =>
      refine trans_of KeepsKnown ih fun hs => ⟨hstep.recorded hs, ?_⟩
      rcases hstep.call_or_around with ⟨c, _, _, rfl⟩ | haround
      · exact ((c.command_keeps keptByServices_known).commit _ hs).2
      · exact haround.runs

/-- The Work rows of an operation are the same, when its Run rows are. -/
theorem UsageSteps.workRows (h : UsageSteps db db') (hs : Recorded db) (hne : RunBudget.rows db run operation ≠ Dict.empty)
    (hrows : RunBudget.rows db' run operation = RunBudget.rows db run operation) (account work : Uuid) :
    WorkBudget.rows db' account work run operation = WorkBudget.rows db account work run operation := by
  obtain ⟨hs', hruns⟩ := UsageSteps.keepsKnown h hs
  obtain ⟨b, hb⟩ := hs.backed hne
  rw [hs'.mirrored.work, hs.mirrored.work, hrows, hruns.meteredOn (hs.mirrored.known run b hb)]

theorem UsageSteps.backed (h : UsageSteps db db') (hs : Recorded db) (hw : WorkBacked db) : WorkBacked db' := by
  induction h with
  | refl => exact hw
  | tail hsteps hstep ih => exact hstep.backed (UsageSteps.runsSteady hsteps hs).1 ih

/-- **Exactly-once charging.**  In every history, an accepted call stands: repeated at any later time it is a replay
that changes nothing, or a reservation refused by its admission checks, and contradicted it is a conflict.  The rows
of an operation that is closed in the Run's or in the account's ledger never change again, and no call on the operation
moves a counter of that ledger. -/
theorem charged_once {authority : Authority} (h : UsageReachable anyCall authority db) :
    (∀ (c : UsageCall) (b : Bool) (db₁ db₂ : Ledgers), c.Carries db → c.report.run db = .ok (some b, db₁) →
        UsageSteps db₁ db₂ →
      (∀ caller, (c.again caller).report.run db₂ = .ok (some true, db₂) ∨
        c.isReservation = true ∧ ∃ e, (c.again caller).report.run db₂ = .error e ∧ Refusal e) ∧
      ∀ c', c.Contradicts c' →
        ∃ e, c'.report.run db₂ = .error e ∧ (Conflict e ∨ c.isReservation = true ∧ Refusal e)) ∧
    (∀ (run : Uuid) (operation : String) (t : UsageState), InState db run operation t → t ≠ .reserved →
        ∀ db₂, UsageSteps db db₂ →
      RunBudget.rows db₂ run operation = RunBudget.rows db run operation ∧
      (∀ account work, WorkBudget.rows db₂ account work run operation = WorkBudget.rows db account work run operation) ∧
      ∀ c : UsageCall, c.On run operation → RunsQuiet db₂ (c.command.commit db₂)) ∧
    ∀ (account : Uuid) (day : Date) (operation : String) (row : AccountUsage),
        db.accountUsage.lookup ⟨account, day, operation⟩ = some row → row.state ≠ .reserved →
        ∀ db₂, UsageSteps db db₂ →
      db₂.accountUsage.lookup ⟨account, day, operation⟩ = some row ∧
      ∀ c : UsageCall, c.OnAccount account operation → c.Carries db₂ → AccountQuiet db₂ (c.command.commit db₂) := by
  have hs := UsageReachable.recorded h
  have hw := UsageReachable.backed h
  have hb := UsageReachable.accountBacked h
  refine ⟨fun c b db₁ db₂ hcarries haccepted hsteps => ?_, fun run operation t hin ht db₂ hsteps => ?_,
    fun account day operation row hrow hclosed db₂ hsteps => ?_⟩
  · have hcommit : db₁ = c.command.commit db := by
      unfold Tx.commit
      rw [c.report_command haccepted]
    have hstep : UsageStep anyCall db db₁ := by
      rw [hcommit]
      exact .call c hcarries trivial
    have hs₁ := hstep.recorded hs
    have hb₁ := (hstep.accountSteady hs hb).1
    have hstands := (c.stands hcarries hs hb haccepted).steps hsteps hs₁ hb₁
    have hs₂ := (UsageSteps.runsSteady hsteps hs₁).1
    have hw₂ := UsageSteps.backed hsteps hs₁ (hstep.backed hs hw)
    have hb₂ := (UsageSteps.accountSteady hsteps hs₁ hb₁).1
    exact ⟨fun caller => hstands.again hs₂ hw₂ hb₂ caller, fun c' hc' => hstands.contradicted hs₂ hw₂ hb₂ hc'⟩
  · obtain ⟨hs₂, hsteady⟩ := UsageSteps.runsSteady hsteps hs
    have hrows := hsteady.closed run operation t hin ht
    exact ⟨hrows, fun account work => UsageSteps.workRows hsteps hs hin.1 hrows account work,
      fun c hon => c.runsQuiet hon hs₂ (UsageSteps.backed hsteps hs hw) (hsteady.inState hin ht) ht⟩
  · have hs₂ := (UsageSteps.runsSteady hsteps hs).1
    obtain ⟨hb₂, hsteady⟩ := UsageSteps.accountSteady hsteps hs hb
    obtain ⟨row₂, hrow₂, _, _, hsame⟩ := hsteady.rows _ row hrow
    obtain rfl := hsame hclosed
    exact ⟨hrow₂, fun c hon hcarries => c.accountQuiet hon hcarries hs₂ hb₂ hrow₂ hclosed⟩

end histories

/-! ### One history -/

theorem soloReserve_carries : (UsageCall.model soloReserve).Carries soloFrozen :=
  ⟨9, ⟨1, 7, "model:1", 5, none, 1⟩, rfl, by decide, rfl, rfl, rfl⟩

theorem charged_once_settled :
    (UsageCall.model soloSettle).report.run soloSettled = .ok (some true, soloSettled) := by
  have hreserved : UsageReachable anyCall soloAuthority soloReserved :=
    usageReachable_soloFrozen.tail (.call (.model soloReserve) soloReserve_carries trivial)
  have hsettled : (UsageCall.model soloSettle).report.run soloReserved = .ok (some false, soloSettled) :=
    Tx.run_commit (by decide +kernel)
  rcases ((charged_once hreserved).1 (.model soloSettle) false soloSettled soloSettled trivial hsettled .refl).1 ⟨none, 0⟩
    with h | ⟨h, _⟩
  · exact h
  · cases h

/-- The surroundings once the Run is being cancelled. -/
def cancellingAuthority : Authority :=
  { soloAuthority with runs := fun r => if r = 7 then some ⟨1, .chat 3, .cancelling⟩ else none }

/-- A repeated reservation is no replay once its Run may not call the model any more. -/
theorem repeated_reserve_refused : ¬∀ (authority : Authority) (db db₁ db₂ : Ledgers) (c : UsageCall) (b : Bool),
    UsageReachable anyCall authority db → c.Carries db → c.report.run db = .ok (some b, db₁) → UsageSteps db₁ db₂ →
      c.report.run db₂ = .ok (some true, db₂) := by
  intro h
  have hreserved : (UsageCall.model soloReserve).report.run soloFrozen = .ok (some false, soloReserved) :=
    Tx.run_commit (by decide +kernel)
  have hcancelled : UsageSteps soloReserved
      { soloReserved with authority := cancellingAuthority, invocations := soloReserved.invocations } := by
    refine Relation.ReflTransGen.single (.surroundings cancellingAuthority _ fun run r hr => ?_)
    have hrun : soloReserved.authority.runs run = if run = 7 then some ⟨1, .chat 3, .running⟩ else none := rfl
    rw [hrun] at hr
    split at hr
    · next hseven =>
        obtain rfl := Option.some.inj hr
        exact ⟨⟨1, .chat 3, .cancelling⟩, if_pos hseven, rfl, rfl⟩
    · cases hr
  have hreplayed := h _ _ _ _ _ _ usageReachable_soloFrozen soloReserve_carries hreserved hcancelled
  have hrefused : ((UsageCall.model soloReserve).report.run { soloReserved with
      authority := cancellingAuthority, invocations := soloReserved.invocations }).toOption.isSome = false := by
    decide +kernel
  rw [hreplayed] at hrefused
  cases hrefused

end HpAgent.Budget
