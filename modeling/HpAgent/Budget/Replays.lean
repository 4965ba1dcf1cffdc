import HpAgent.Budget.SteadyRuns

/-! # Repeated calls

What a call on an operation that is already recorded can raise: a conflict when its arguments differ, and for
a reservation what its admission checks raise.  A call that raises neither is a replay and changes nothing.

* `RunBudget.reserveInUow_again`, `RunBudget.settleInUow_again`, `RunBudget.releaseInUow_again`: the Run and its Work.
* `AccountBudget.reserveInUow_again`, `AccountBudget.settleInUow_again`, `AccountBudget.releaseInUow_again`: the
  account. -/

namespace HpAgent.Budget

open Library
open WorkBudget (meteredOn)
open Authority (Admission)

/-- The errors of a call that contradicts what is recorded. -/
def Conflict : Error → Prop
  | .runBudgetConflict _ | .accountDailyBudgetConflict _ => True
  | _ => False

/-- The errors of the checks that guard every reservation: the Run, its Execution, and the account's entitlement. -/
def Refusal (e : Error) : Prop :=
  Admission e ∨
    match e with
    | .accountModelEntitlementUnavailable _ | .modelAccessTierDenied _ | .typeError => True
    | _ => False

/-- The rows are settled with these amounts and this source. -/
structure SettledAs (rs : Dict RunUsage) (actual : Dict ℕ) (source : UsageSource) : Prop where
  ne_empty : rs ≠ Dict.empty
  settled : ∀ d r, rs d = some r → r.state = .settled ∧ r.usageSource = some source
  actual : ∀ d, (rs d).map RunUsage.actualAmount = (actual d).map some

/-! ### The Work half -/

section work

variable {db : Ledgers} {run account work : Uuid} {operation : String} {e : Error}

/-- An error of the Work half is raised for a metered Run, whose Work has a budget and the images of its rows. -/
theorem WorkBudget.mutate_error {action : WorkBudget.Action} (hs : Recorded db) (hb : WorkBacked db)
    (hne : RunBudget.rows db run operation ≠ Dict.empty)
    (h : (WorkBudget.mutate run operation action).run db = .error e) :
    ∃ account work revision epoch status b, db.workBudgets.lookup (account, work) = some b ∧
      WorkBudget.rows db account work run operation = mirror (RunBudget.rows db run operation) ∧
      (WorkBudget.mutateWork account work run operation revision epoch status action).run db = .error e := by
  unfold WorkBudget.mutate at h
  rw [Tx.bind_query_error] at h
  cases hr : db.authority.runs run with
  | none =>
      rw [hr] at h
      exact nomatch h
  | some r =>
      rw [hr] at h
      dsimp only at h
      cases hsource : r.source with
      | chat conversation =>
          rw [hsource] at h
          exact nomatch h
      | work work revision epoch =>
          rw [hsource] at h
          dsimp only at h
          have hmetered : meteredOn db.authority run = some (r.accountId, work) := by
            unfold meteredOn Run.workId
            rw [hr]
            simp [hsource]
          have hrows := hs.mirrored.metered hmetered operation
          obtain ⟨d, row, hrow⟩ : ∃ d row, RunBudget.rows db run operation d = some row := by
            by_contra hnone
            apply hne
            funext d
            by_contra hd
            exact hnone ⟨d, Option.ne_none_iff_exists'.mp hd⟩
          have hwork : db.workUsage.lookup ⟨r.accountId, work, run, operation, d⟩ = some row.onWork := by
            have hd := congrFun hrows d
            unfold mirror at hd
            rw [hrow] at hd
            exact hd
          obtain ⟨b, hbudget⟩ := Option.isSome_iff_exists.mp (hb _ _ hwork)
          exact ⟨r.accountId, work, revision, epoch, r.status, b, hbudget, hrows, h⟩

theorem mirror_reservedAmounts (rs : Dict RunUsage) :
    WorkBudget.reservedAmounts (mirror rs) = RunBudget.reservedAmounts rs := by
  funext d
  unfold WorkBudget.reservedAmounts RunBudget.reservedAmounts mirror
  cases rs d <;> rfl

theorem WorkBudget.noRows_mirror {rs : Dict RunUsage} (hne : rs ≠ Dict.empty) : WorkBudget.noRows (mirror rs) ≠ true := by
  intro h
  exact hne (mirror_eq_empty.mp (WorkBudget.noRows_iff.mp h))

theorem WorkBudget.allRows_mirror {rs : Dict RunUsage} {p : WorkUsage → Bool} :
    WorkBudget.allRows (mirror rs) p = true ↔ ∀ d r, rs d = some r → p r.onWork = true := by
  rw [WorkBudget.allRows_iff]
  constructor
  · intro h d r hr
    refine h d r.onWork ?_
    unfold mirror
    rw [hr]
    rfl
  · intro h d w hw
    obtain ⟨r, hr, rfl⟩ := Option.map_eq_some_iff.mp hw
    exact h d r hr

/-- A repeated reservation is refused by the Work only when its amounts differ. -/
theorem WorkBudget.mutate_reserve_error {values : Dict ℕ} (hs : Recorded db) (hb : WorkBacked db)
    (hne : RunBudget.rows db run operation ≠ Dict.empty)
    (h : (WorkBudget.mutate run operation (.reserve values)).run db = .error e) :
    Conflict e ∧ values ≠ RunBudget.reservedAmounts (RunBudget.rows db run operation) := by
  obtain ⟨account, work, revision, epoch, status, b, hbudget, hrows, h⟩ := WorkBudget.mutate_error hs hb hne h
  unfold WorkBudget.mutateWork at h
  rw [Tx.bind_query_error, Tx.bind_demand_error hbudget, Tx.bind_query_error, hrows] at h
  dsimp only at h
  rw [if_neg (WorkBudget.noRows_mirror hne), Tx.check_error, mirror_reservedAmounts] at h
  obtain ⟨hvalues, rfl⟩ := h
  exact ⟨trivial, fun heq => hvalues heq.symm⟩

/-- A settlement of closed rows is refused by the Work only when it differs. -/
theorem WorkBudget.mutate_settle_error {actual : Dict ℕ} {source : UsageSource} {t : UsageState} (hs : Recorded db)
    (hb : WorkBacked db) (hin : InState db run operation t) (ht : t ≠ .reserved)
    (h : (WorkBudget.mutate run operation (.settle actual source)).run db = .error e) :
    Conflict e ∧ ¬SettledAs (RunBudget.rows db run operation) actual source := by
  obtain ⟨account, work, revision, epoch, status, b, hbudget, hrows, h⟩ := WorkBudget.mutate_error hs hb hin.1 h
  unfold WorkBudget.mutateWork at h
  rw [Tx.bind_query_error, Tx.bind_demand_error hbudget, Tx.bind_query_error, hrows] at h
  dsimp only at h
  rw [if_neg (WorkBudget.noRows_mirror hin.1)] at h
  split at h
  · rw [Tx.check_error] at h
    obtain ⟨hdiffers, rfl⟩ := h
    refine ⟨trivial, fun hsettled => hdiffers ⟨fun d => ?_, WorkBudget.allRows_mirror.mpr fun d r hr => ?_⟩⟩
    · have hd := hsettled.actual d
      unfold mirror
      rw [Option.map_map]
      exact hd
    · exact decide_eq_true (hsettled.settled d r hr).2
  · next hopen =>
      rw [Tx.bind_check_error] at h
      rcases h with ⟨_, rfl⟩ | ⟨⟨hreserved, _⟩, _⟩
      · refine ⟨trivial, fun hsettled => hopen (WorkBudget.allRows_mirror.mpr fun d r hr => ?_)⟩
        exact decide_eq_true (hsettled.settled d r hr).1
      · have hres := WorkBudget.allRows_mirror.mp hreserved
        exact absurd (hin.eq ⟨hin.1, fun d r hr => of_decide_eq_true (hres d r hr)⟩) ht

/-- A release of closed rows is refused by the Work only when they were settled. -/
theorem WorkBudget.mutate_release_error {t : UsageState} (hs : Recorded db) (hb : WorkBacked db)
    (hin : InState db run operation t) (ht : t ≠ .reserved)
    (h : (WorkBudget.mutate run operation .release).run db = .error e) : Conflict e ∧ t ≠ .released := by
  obtain ⟨account, work, revision, epoch, status, b, hbudget, hrows, h⟩ := WorkBudget.mutate_error hs hb hin.1 h
  unfold WorkBudget.mutateWork at h
  rw [Tx.bind_query_error, Tx.bind_demand_error hbudget, Tx.bind_query_error, hrows] at h
  dsimp only at h
  rw [if_neg (WorkBudget.noRows_mirror hin.1)] at h
  split at h
  · cases h
  · next hopen =>
      rw [Tx.bind_check_error] at h
      rcases h with ⟨_, rfl⟩ | ⟨hreserved, _⟩
      · refine ⟨trivial, ?_⟩
        rintro rfl
        exact hopen (WorkBudget.allRows_mirror.mpr fun d r hr => decide_eq_true (hin.2 d r hr))
      · have hres := WorkBudget.allRows_mirror.mp hreserved
        exact absurd (hin.eq ⟨hin.1, fun d r hr => of_decide_eq_true (hres d r hr)⟩) ht

end work

/-! ### The Run half -/

/-- The text of an operation identifier is accepted. -/
def ValidOperation (operation : String) : Prop := operation ≠ "" ∧ operation.length ≤ 200

theorem other_of_conflict {e : Error} (h : Conflict e) : OtherThanExhausted e := by
  rintro message rfl
  exact h

section run

variable {db db' : Ledgers} {run : Uuid} {operation : String} {e : Error}

/-- A budget is there for the rows of a Run. -/
theorem Recorded.backed (hs : Recorded db) (hne : RunBudget.rows db run operation ≠ Dict.empty) :
    ∃ b, db.runBudgets.lookup run = some b := hs.mirrored.backed run operation hne

theorem RunBudget.bind_lockBudget_error {α : Type} {f : RunBudget → BudgetTx α} {b : RunBudget}
    (hb : db.runBudgets.lookup run = some b) :
    (RunBudget.lockBudget run >>= f).run db = .error e ↔ (f b).run db = .error e := by
  unfold RunBudget.lockBudget
  rw [bind_assoc, Tx.bind_query_error, Tx.bind_demand_error hb]

/-- What the body of a reservation of a recorded operation can raise. -/
theorem RunBudget.reserveBody_again {caller : Caller} {values : List (String × Raw)} {finalResponse enforceLimits : Bool}
    (hs : Recorded db) (hb : WorkBacked db) (hne : RunBudget.rows db run operation ≠ Dict.empty)
    (h : (RunBudget.reserveBody caller run operation values finalResponse enforceLimits).run db = .error e) :
    OtherThanExhausted e ∧ ∀ requested, amounts values = .ok requested → ValidOperation operation →
      Admission e ∨
        Conflict e ∧ requested ≠ RunBudget.reservedAmounts (RunBudget.rows db run operation) := by
  have hfound : ∀ {requested : Dict ℕ} {e : Error},
      Admission e ∨ Conflict e ∧ requested ≠ RunBudget.reservedAmounts (RunBudget.rows db run operation) →
      OtherThanExhausted e := by
    rintro requested e (h | ⟨h, _⟩)
    · exact other_of_admission h
    · exact other_of_conflict h
  unfold RunBudget.reserveBody at h
  rcases Tx.bind_error.mp h with h | ⟨_, s, hfence, h⟩
  · have hadmission := RunBudget.checkFence_raises _ _ _ h
    exact ⟨other_of_admission hadmission, fun _ _ _ => .inl hadmission⟩
  obtain rfl := RunBudget.checkFence_ok hfence
  cases hvalues : amounts values with
  | error e' =>
      rw [hvalues] at h
      obtain rfl := Except.error.inj h
      exact ⟨amounts_error hvalues, fun _ h => nomatch h⟩
  | ok requested =>
      rw [Tx.bind_ofExcept_error hvalues] at h
      unfold checkOperation at h
      rw [Tx.bind_check_error] at h
      rcases h with ⟨hinvalid, rfl⟩ | ⟨_, h⟩
      · exact ⟨nofun, fun _ _ hvalid => absurd hvalid hinvalid⟩
      suffices hraised : Admission e ∨
          Conflict e ∧ requested ≠ RunBudget.reservedAmounts (RunBudget.rows db run operation) by
        refine ⟨hfound hraised, fun requested' hvalues' _ => ?_⟩
        obtain rfl := Except.ok.inj hvalues'
        exact hraised
      rcases Tx.bind_error.mp h with h | ⟨_, db₁, hwork, h⟩
      · exact .inr (WorkBudget.mutate_reserve_error hs hb hne h)
      have hrows := mutate_runRows hwork operation
      have hbudgets : db₁.runBudgets = db.runBudgets := by rw [WorkBudget.mutate_frame hwork]
      obtain ⟨b, hbudget⟩ := hs.backed hne
      rw [← hbudgets] at hbudget
      rw [RunBudget.bind_lockBudget_error hbudget, Tx.bind_query_error, hrows, if_neg, Tx.bind_check_error] at h
      · rcases h with ⟨hdiffers, rfl⟩ | ⟨_, h⟩
        · exact .inr ⟨trivial, fun heq => hdiffers heq.symm⟩
        · exact nomatch h
      · intro hnone
        exact hne (RunBudget.noRows_iff.mp hnone)

/-- **A repeated reservation** in the Run and its Work. -/
theorem RunBudget.reserveInUow_again {values : List (String × Raw)} (caller : Caller)
    (finalResponse enforceLimits deferExhaustion : Bool) (hs : Recorded db) (hb : WorkBacked db)
    (hne : RunBudget.rows db run operation ≠ Dict.empty) :
    (∃ m, (RunBudget.reserveInUow caller run operation values finalResponse enforceLimits deferExhaustion).run db
        = .ok (.inl m, db) ∧ m.replayed = true ∧
        amounts values = .ok (RunBudget.reservedAmounts (RunBudget.rows db run operation))) ∨
      ∃ e, (RunBudget.reserveInUow caller run operation values finalResponse enforceLimits deferExhaustion).run db
        = .error e ∧ ∀ requested, amounts values = .ok requested → ValidOperation operation →
          Admission e ∨ Conflict e ∧ requested ≠ RunBudget.reservedAmounts (RunBudget.rows db run operation) := by
  have hbody : ∀ e, (RunBudget.reserveBody caller run operation values finalResponse enforceLimits >>= fun m =>
      (pure (.inl m) : BudgetTx (Mutation ⊕ Error))).run db = .error e →
      (RunBudget.reserveBody caller run operation values finalResponse enforceLimits).run db = .error e := by
    intro e h
    rcases Tx.bind_error.mp h with h | ⟨_, _, _, h⟩
    · exact h
    · exact nomatch h
  cases hrun : (RunBudget.reserveInUow caller run operation values finalResponse enforceLimits deferExhaustion).run db with
  | ok p =>
      obtain ⟨r, db'⟩ := p
      left
      rcases RunBudget.reserveInUow_ok hrun with ⟨m, rfl, hok⟩ | ⟨_, ⟨e, he⟩, _⟩
      · rcases (RunBudget.reserveInUow_effect hs hrun).2 with ⟨m', requested, hm, hvalues, heffect⟩ | ⟨_, ⟨_, he⟩, _⟩
        · obtain rfl := Sum.inl.inj hm
          cases heffect with
          | opened hrows => exact absurd hrows hne
          | replayed _ hamounts =>
              rw [hamounts]
              exact ⟨_, rfl, rfl, hvalues⟩
        · cases he
      · subst he
        rcases Tx.savepoint_ok.mp hrun with h | ⟨e', hraised, hhandler⟩
        · obtain ⟨m, s, _, hpure⟩ := Tx.bind_ok.mp h
          cases (Tx.pure_ok.mp hpure).1
        · have hother := (RunBudget.reserveBody_again hs hb hne (hbody _ hraised)).1
          unfold RunBudget.onReserveError at hhandler
          split at hhandler
          · exact (Tx.raise_ok.mp hhandler).elim
          · next message => exact absurd rfl (hother message)
          · exact (Tx.raise_ok.mp hhandler).elim
  | error e =>
      refine .inr ⟨e, rfl, ?_⟩
      obtain ⟨e', hraised, hhandler⟩ := Tx.savepoint_error.mp hrun
      have hagain := RunBudget.reserveBody_again hs hb hne (hbody _ hraised)
      unfold RunBudget.onReserveError at hhandler
      split at hhandler
      · next message =>
          intro requested hvalues hvalid
          rcases hagain.2 requested hvalues hvalid with h | ⟨h, _⟩
          · exact h.elim
          · exact h.elim
      · next message => exact absurd rfl (hagain.1 message)
      · obtain rfl := Except.error.inj hhandler
        exact hagain.2

/-- **A repeated settlement** of closed rows in the Run and its Work. -/
theorem RunBudget.settleInUow_again {values : List (String × Raw)} {usageSource : String} {t : UsageState}
    (hs : Recorded db) (hb : WorkBacked db) (hin : InState db run operation t) (ht : t ≠ .reserved) :
    (∃ m, (RunBudget.settleInUow (max 0) run operation values usageSource).run db = .ok (m, db) ∧ m.replayed = true ∧
        ∃ actual source, amounts values = .ok actual ∧ UsageSource.parse usageSource = .ok source ∧
          SettledAs (RunBudget.rows db run operation) actual source) ∨
      ∃ e, (RunBudget.settleInUow (max 0) run operation values usageSource).run db = .error e ∧
        ∀ actual source, amounts values = .ok actual → UsageSource.parse usageSource = .ok source →
          Conflict e ∧ ¬SettledAs (RunBudget.rows db run operation) actual source := by
  cases hrun : (RunBudget.settleInUow (max 0) run operation values usageSource).run db with
  | ok p =>
      obtain ⟨m, db'⟩ := p
      obtain ⟨_, source, actual, hsource, hvalues, heffect⟩ :=
        RunBudget.settleInUow_effect RunBudget.clampsNegative_max hs hrun
      left
      obtain ⟨rfl, _⟩ := heffect.of_closed hin ht
      cases heffect with
      | settled hrows hne hreserved =>
          subst hrows
          exact absurd (hin.eq ⟨hne, hreserved⟩) ht
      | replayed hrows hne hsettled hactual =>
          subst hrows
          exact ⟨_, rfl, rfl, actual, source, hvalues, hsource, hne, hsettled, hactual⟩
  | error e =>
      refine .inr ⟨e, rfl, fun actual source hvalues hsource => ?_⟩
      unfold RunBudget.settleInUow at hrun
      rw [Tx.bind_ofExcept_error hsource, Tx.bind_ofExcept_error hvalues] at hrun
      rcases Tx.bind_error.mp hrun with h | ⟨_, db₁, hwork, h⟩
      · exact WorkBudget.mutate_settle_error hs hb hin ht h
      have hrows := mutate_runRows hwork operation
      have hbudgets : db₁.runBudgets = db.runBudgets := by rw [WorkBudget.mutate_frame hwork]
      obtain ⟨b, hbudget⟩ := hs.backed hin.1
      rw [← hbudgets] at hbudget
      rw [RunBudget.bind_lockBudget_error hbudget, Tx.bind_query_error, hrows, Tx.bind_check_error] at h
      have hsome : RunBudget.noRows (RunBudget.rows db run operation) = false := RunBudget.noRows_eq_false_iff.mpr hin.1
      rcases h with ⟨hkeys, rfl⟩ | ⟨_, h⟩
      · refine ⟨trivial, fun hsettled => hkeys fun d => ?_⟩
        have hd := congrArg Option.isSome (hsettled.actual d)
        rwa [Option.isSome_map, Option.isSome_map] at hd
      split at h
      · rw [Tx.bind_check_error] at h
        rcases h with ⟨hdiffers, rfl⟩ | ⟨_, h⟩
        · refine ⟨trivial, fun hsettled => hdiffers ⟨hsettled.actual, RunBudget.allRows_iff.mpr fun d r hr => ?_⟩⟩
          exact decide_eq_true (hsettled.settled d r hr).2
        · cases h
      · next hopen =>
          rw [Tx.bind_check_error] at h
          rcases h with ⟨_, rfl⟩ | ⟨⟨_, hreserved⟩, _⟩
          · refine ⟨trivial, fun hsettled => hopen ⟨hsome, RunBudget.allRows_iff.mpr fun d r hr => ?_⟩⟩
            exact decide_eq_true (hsettled.settled d r hr).1
          · have hres := RunBudget.allRows_iff.mp hreserved
            exact absurd (hin.eq ⟨hin.1, fun d r hr => of_decide_eq_true (hres d r hr)⟩) ht

/-- **A repeated release** of closed rows in the Run and its Work. -/
theorem RunBudget.releaseInUow_again {t : UsageState} (hs : Recorded db) (hb : WorkBacked db)
    (hin : InState db run operation t) (ht : t ≠ .reserved) :
    (∃ m, (RunBudget.releaseInUow (max 0) run operation).run db = .ok (m, db) ∧ m.replayed = true ∧ t = .released) ∨
      ∃ e, (RunBudget.releaseInUow (max 0) run operation).run db = .error e ∧ Conflict e ∧ t ≠ .released := by
  cases hrun : (RunBudget.releaseInUow (max 0) run operation).run db with
  | ok p =>
      obtain ⟨m, db'⟩ := p
      obtain ⟨_, heffect⟩ := RunBudget.releaseInUow_effect RunBudget.clampsNegative_max hs hrun
      left
      obtain ⟨rfl, hreleased⟩ := heffect.of_closed hin ht
      cases heffect with
      | released hrows hne hreserved =>
          subst hrows
          exact absurd (hin.eq ⟨hne, hreserved⟩) ht
      | replayed => exact ⟨_, rfl, rfl, hreleased⟩
  | error e =>
      refine .inr ⟨e, rfl, ?_⟩
      unfold RunBudget.releaseInUow at hrun
      rcases Tx.bind_error.mp hrun with h | ⟨_, db₁, hwork, h⟩
      · exact WorkBudget.mutate_release_error hs hb hin ht h
      have hrows := mutate_runRows hwork operation
      have hbudgets : db₁.runBudgets = db.runBudgets := by rw [WorkBudget.mutate_frame hwork]
      obtain ⟨b, hbudget⟩ := hs.backed hin.1
      rw [← hbudgets] at hbudget
      rw [RunBudget.bind_lockBudget_error hbudget, Tx.bind_query_error, hrows, Tx.bind_check_error] at h
      rcases h with ⟨hnone, _⟩ | ⟨_, h⟩
      · exact absurd (RunBudget.noRows_eq_false_iff.mpr hin.1) hnone
      split at h
      · cases h
      · next hopen =>
          rw [Tx.bind_check_error] at h
          rcases h with ⟨_, rfl⟩ | ⟨hreserved, _⟩
          · refine ⟨trivial, ?_⟩
            rintro rfl
            exact hopen (RunBudget.allRows_iff.mpr fun d r hr => decide_eq_true (hin.2 d r hr))
          · have hres := RunBudget.allRows_iff.mp hreserved
            exact absurd (hin.eq ⟨hin.1, fun d r hr => of_decide_eq_true (hres d r hr)⟩) ht

end run

/-! ### The account half -/

section account

variable {db : Ledgers} {account : Uuid} {operation : String} {day : Date} {row : AccountUsage}

/-- A closing call finds the row of its operation, whether or not it names the day. -/
theorem AccountBacked.lockedLedger (hb : AccountBacked db) (hrow : db.accountUsage.lookup ⟨account, day, operation⟩ = some row)
    {date : Option Date} (hdate : ∀ d ∈ date, d = day) :
    (AccountBudget.lockedLedger account operation date).run db = .ok ((day, row), db) := by
  have hsome : (db.accountUsage.lookup ⟨account, day, operation⟩).isSome = true := by
    rw [hrow]
    rfl
  unfold AccountBudget.lockedLedger
  rw [Tx.bind_ok]
  refine ⟨day, db, ?_, ?_⟩
  · unfold AccountBudget.ledgerDay
    cases date with
    | some d =>
        rw [hdate d rfl]
        rfl
    | none =>
        dsimp only
        rw [Tx.bind_query_ok, hb.actsOn hsome]
        rfl
  · rw [Tx.bind_query_ok, Tx.bind_query_ok, Tx.bind_check_ok, Tx.bind_demand_ok]
    exact ⟨hb.daily _ hsome, row, hrow, rfl⟩

theorem AccountBudget.ensureDaily_same (hdaily : (db.dailyBudgets.lookup (account, day)).isSome = true) :
    (AccountBudget.ensureDaily account day).run db = .ok ((), db) := by
  obtain ⟨b, hb⟩ := Option.isSome_iff_exists.mp hdaily
  unfold AccountBudget.ensureDaily
  rw [Tx.update_ok, hb]

/-- What a first check of an entitlement can raise. -/
theorem AccountBudget.checkEntitlement_refuses (o : AccountBudget.Options) (now : Instant) :
    Tx.RaisesOnly Refusal (AccountBudget.checkEntitlement account o now) := by
  refine .bind_query fun s e h => Tx.RaisesOnly.bind (.ofExcept fun e h => ?_) (fun p => ?_) s e h
  · unfold Authority.entitlementOf at h
    split at h
    · cases h
    · split at h
      · split at h
        · cases h
        · split at h
          · cases h
          · split at h <;> cases h
            exact .inr trivial
      · cases h
  · obtain ⟨state, found⟩ := p
    exact (Tx.RaisesOnly.demand (.inr trivial)).bind fun _ => (Tx.RaisesOnly.check (.inr trivial)).bind fun _ =>
      (Tx.RaisesOnly.check (.inr trivial)).bind fun _ => .pure _

theorem AccountBudget.checkEntitlement_read {o : AccountBudget.Options} {now : Instant} {e : Entitlement} {db' : Ledgers}
    (h : (AccountBudget.checkEntitlement account o now).run db = .ok (e, db')) : db = db' := by
  unfold AccountBudget.checkEntitlement at h
  rw [Tx.bind_query_ok, Tx.bind_ofExcept_ok] at h
  obtain ⟨p, _, h⟩ := h
  rw [Tx.bind_demand_ok] at h
  obtain ⟨_, _, h⟩ := h
  rw [Tx.bind_check_ok, Tx.bind_check_ok] at h
  exact (Tx.pure_ok.mp h.2.2).2

/-- **A repeated reservation** of the account, on the day of its row. -/
theorem AccountBudget.reserveInUow_again {value : Raw} {o : AccountBudget.Options} {now : Instant} (hb : AccountBacked db)
    (hrow : db.accountUsage.lookup ⟨account, day, operation⟩ = some row) (hday : o.quotaDate = some day) :
    (∃ m, (AccountBudget.reserveInUow account operation value o now).run db = .ok (m, db) ∧ m.replayed = true ∧
        AccountBudget.tokens value = .ok row.reservedTokens ∧ row.snapshotId = o.snapshotId) ∨
      ∃ e, (AccountBudget.reserveInUow account operation value o now).run db = .error e ∧
        ∀ n, AccountBudget.tokens value = .ok n → ValidOperation operation →
          Refusal e ∨ Conflict e ∧ ¬(row.reservedTokens = n ∧ row.snapshotId = o.snapshotId) := by
  have hsome : (db.accountUsage.lookup ⟨account, day, operation⟩).isSome = true := by
    rw [hrow]
    rfl
  have hensure := AccountBudget.ensureDaily_same (hb.daily _ hsome)
  cases hrun : (AccountBudget.reserveInUow account operation value o now).run db with
  | ok p =>
      obtain ⟨m, db'⟩ := p
      left
      unfold AccountBudget.reserveInUow at hrun
      rw [Tx.bind_ofExcept_ok] at hrun
      obtain ⟨n, hn, hrun⟩ := hrun
      rw [AccountBudget.bind_checkOperation_ok, Tx.bind_ok] at hrun
      obtain ⟨_, e, s, hent, hrun⟩ := hrun
      obtain rfl := AccountBudget.checkEntitlement_read hent
      rw [hday, Tx.bind_ofExcept_ok] at hrun
      obtain ⟨day', hday', hrun⟩ := hrun
      obtain rfl := Except.ok.inj hday'
      rw [Tx.bind_ok] at hrun
      obtain ⟨_, s, hsame, hrun⟩ := hrun
      rw [hensure] at hsame
      obtain ⟨_, rfl⟩ := Prod.mk.inj (Except.ok.inj hsame)
      rw [Tx.bind_query_ok, hrow] at hrun
      dsimp only at hrun
      rw [Tx.bind_check_ok] at hrun
      obtain ⟨⟨rfl, hsnapshot⟩, hpure⟩ := hrun
      obtain ⟨rfl, rfl⟩ := Tx.pure_ok.mp hpure
      exact ⟨_, rfl, rfl, hn, hsnapshot⟩
  | error e =>
      refine .inr ⟨e, rfl, fun n hn hvalid => ?_⟩
      unfold AccountBudget.reserveInUow checkOperation at hrun
      rw [Tx.bind_ofExcept_error hn, Tx.bind_check_error] at hrun
      rcases hrun with ⟨hinvalid, _⟩ | ⟨_, hrun⟩
      · exact absurd hvalid hinvalid
      rcases Tx.bind_error.mp hrun with h | ⟨_, s, hent, h⟩
      · exact .inl (AccountBudget.checkEntitlement_refuses _ _ _ _ h)
      obtain rfl := AccountBudget.checkEntitlement_read hent
      rw [hday] at h
      rw [Tx.bind_ofExcept_error rfl] at h
      rcases Tx.bind_error.mp h with h | ⟨_, s, hsame, h⟩
      · rw [hensure] at h
        exact nomatch h
      rw [hensure] at hsame
      obtain ⟨_, rfl⟩ := Prod.mk.inj (Except.ok.inj hsame)
      rw [Tx.bind_query_error, hrow] at h
      dsimp only at h
      rw [Tx.bind_check_error] at h
      rcases h with ⟨hdiffers, rfl⟩ | ⟨_, h⟩
      · exact .inr ⟨trivial, hdiffers⟩
      · exact nomatch h

/-- **A repeated settlement** of a closed account row. -/
theorem AccountBudget.settleInUow_again {value : Raw} {usageSource : String} {date : Option Date} (hb : AccountBacked db)
    (hrow : db.accountUsage.lookup ⟨account, day, operation⟩ = some row) (hclosed : row.state ≠ .reserved)
    (hdate : ∀ d ∈ date, d = day) :
    (∃ m, (AccountBudget.settleInUow account operation value usageSource date).run db = .ok (m, db) ∧ m.replayed = true ∧
        ∃ actual source, AccountBudget.tokens value = .ok actual ∧ UsageSource.parse usageSource = .ok source ∧
          row.state = .settled ∧ row.actualTokens = some actual ∧ row.usageSource = some source) ∨
      ∃ e, (AccountBudget.settleInUow account operation value usageSource date).run db = .error e ∧
        ∀ actual source, AccountBudget.tokens value = .ok actual → UsageSource.parse usageSource = .ok source →
          ValidOperation operation → Conflict e ∧
            ¬(row.state = .settled ∧ row.actualTokens = some actual ∧ row.usageSource = some source) := by
  have hlock := hb.lockedLedger hrow hdate
  cases hrun : (AccountBudget.settleInUow account operation value usageSource date).run db with
  | ok p =>
      obtain ⟨m, db'⟩ := p
      left
      unfold AccountBudget.settleInUow at hrun
      rw [Tx.bind_ofExcept_ok] at hrun
      obtain ⟨actual, hactual, hrun⟩ := hrun
      rw [AccountBudget.bind_checkOperation_ok, Tx.bind_ofExcept_ok] at hrun
      obtain ⟨_, source, hsource, hrun⟩ := hrun
      rw [Tx.bind_ok] at hrun
      obtain ⟨_, s, hlocked, hrun⟩ := hrun
      rw [hlock] at hlocked
      obtain ⟨rfl, rfl⟩ := Prod.mk.inj (Except.ok.inj hlocked)
      dsimp only at hrun
      cases hstate : row.state with
      | reserved => exact absurd hstate hclosed
      | settled =>
          rw [hstate] at hrun
          dsimp only at hrun
          rw [Tx.bind_check_ok] at hrun
          obtain ⟨⟨hrowActual, hrowSource⟩, hpure⟩ := hrun
          obtain ⟨rfl, rfl⟩ := Tx.pure_ok.mp hpure
          exact ⟨_, rfl, rfl, actual, source, hactual, hsource, rfl, hrowActual, hrowSource⟩
      | released =>
          rw [hstate] at hrun
          exact (Tx.raise_ok.mp hrun).elim
  | error e =>
      refine .inr ⟨e, rfl, fun actual source hactual hsource hvalid => ?_⟩
      unfold AccountBudget.settleInUow checkOperation at hrun
      rw [Tx.bind_ofExcept_error hactual, Tx.bind_check_error] at hrun
      rcases hrun with ⟨hinvalid, _⟩ | ⟨_, hrun⟩
      · exact absurd hvalid hinvalid
      rw [Tx.bind_ofExcept_error hsource] at hrun
      rcases Tx.bind_error.mp hrun with h | ⟨_, s, hlocked, h⟩
      · rw [hlock] at h
        exact nomatch h
      rw [hlock] at hlocked
      obtain ⟨rfl, rfl⟩ := Prod.mk.inj (Except.ok.inj hlocked)
      dsimp only at h
      cases hstate : row.state with
      | reserved => exact absurd hstate hclosed
      | settled =>
          rw [hstate] at h
          dsimp only at h
          rw [Tx.bind_check_error] at h
          rcases h with ⟨hdiffers, rfl⟩ | ⟨_, h⟩
          · exact ⟨trivial, fun hsame => hdiffers hsame.2⟩
          · exact nomatch h
      | released =>
          rw [hstate] at h
          obtain rfl := Except.error.inj h
          exact ⟨trivial, fun hsame => nomatch hsame.1⟩

/-- **A repeated release** of a closed account row. -/
theorem AccountBudget.releaseInUow_again {date : Option Date} (hb : AccountBacked db)
    (hrow : db.accountUsage.lookup ⟨account, day, operation⟩ = some row) (hclosed : row.state ≠ .reserved)
    (hdate : ∀ d ∈ date, d = day) :
    (∃ m, (AccountBudget.releaseInUow account operation date).run db = .ok (m, db) ∧ m.replayed = true ∧
        row.state = .released) ∨
      ∃ e, (AccountBudget.releaseInUow account operation date).run db = .error e ∧
        (ValidOperation operation → Conflict e ∧ row.state ≠ .released) := by
  have hlock := hb.lockedLedger hrow hdate
  cases hrun : (AccountBudget.releaseInUow account operation date).run db with
  | ok p =>
      obtain ⟨m, db'⟩ := p
      left
      unfold AccountBudget.releaseInUow at hrun
      rw [AccountBudget.bind_checkOperation_ok, Tx.bind_ok] at hrun
      obtain ⟨_, _, s, hlocked, hrun⟩ := hrun
      rw [hlock] at hlocked
      obtain ⟨rfl, rfl⟩ := Prod.mk.inj (Except.ok.inj hlocked)
      dsimp only at hrun
      cases hstate : row.state with
      | reserved => exact absurd hstate hclosed
      | settled =>
          rw [hstate] at hrun
          exact (Tx.raise_ok.mp hrun).elim
      | released =>
          rw [hstate] at hrun
          obtain ⟨rfl, rfl⟩ := Tx.pure_ok.mp hrun
          exact ⟨_, rfl, rfl, rfl⟩
  | error e =>
      refine .inr ⟨e, rfl, fun hvalid => ?_⟩
      unfold AccountBudget.releaseInUow checkOperation at hrun
      rw [Tx.bind_check_error] at hrun
      rcases hrun with ⟨hinvalid, _⟩ | ⟨_, hrun⟩
      · exact absurd hvalid hinvalid
      rcases Tx.bind_error.mp hrun with h | ⟨_, s, hlocked, h⟩
      · rw [hlock] at h
        exact nomatch h
      rw [hlock] at hlocked
      obtain ⟨rfl, rfl⟩ := Prod.mk.inj (Except.ok.inj hlocked)
      dsimp only at h
      cases hstate : row.state with
      | reserved => exact absurd hstate hclosed
      | settled =>
          rw [hstate] at h
          obtain rfl := Except.error.inj h
          exact ⟨trivial, nofun⟩
      | released =>
          rw [hstate] at h
          exact nomatch h

end account

/-! ### Both halves -/

section coordinated

variable {db : Ledgers} {account run : Uuid} {operation : String} {day : Date} {row : AccountUsage}

theorem refusal_of_admission {e : Error} (h : Admission e) : Refusal e := .inl h

/-- **A repeated coordinated reservation.** -/
theorem Coordinator.reserve_again {total : Raw} {values : List (String × Raw)} {o : AccountBudget.Options} {n : ℕ}
    {requested : Dict ℕ} (caller : Caller) (finalResponse : Bool) (hs : Recorded db) (hw : WorkBacked db)
    (hb : AccountBacked db)
    (hvalid : ValidOperation operation)
    (hcarries : ∃ id s, o.snapshotId = some id ∧ db.snapshots.lookup id = some s ∧ s.accountId = account ∧
      s.runId = run ∧ s.operationId = operation)
    (hne : RunBudget.rows db run operation ≠ Dict.empty)
    (hrow : db.accountUsage.lookup ⟨account, day, operation⟩ = some row)
    (hmatching : Coordinator.requireMatchingTotal total values = .ok ()) (hn : AccountBudget.tokens total = .ok n)
    (hvalues : amounts values = .ok requested) :
    (∃ r, (Coordinator.reserve caller account run operation total values finalResponse o).run db = .ok (r, db) ∧
        r.1.replayed = true ∧ r.2.replayed = true ∧ n = row.reservedTokens ∧
        requested = RunBudget.reservedAmounts (RunBudget.rows db run operation)) ∨
      ∃ e, (Coordinator.reserve caller account run operation total values finalResponse o).run db = .error e ∧
        (Refusal e ∨ Conflict e ∧ ¬(n = row.reservedTokens ∧
          requested = RunBudget.reservedAmounts (RunBudget.rows db run operation))) := by
  obtain ⟨id, snapshot, hid, hsnap, haccount, hrun, hop⟩ := hcarries
  obtain ⟨hsnapshot, hprior⟩ := hb.prior hsnap hop hrow
  have hknown : ((db.runBudgets.lookup run).isSome && (db.authority.ownedRun account run).isSome) = true := by
    obtain ⟨b, hbudget⟩ := hs.backed hne
    rw [hbudget, ← haccount, ← hrun, hb.frozen.owned id snapshot hsnap]
    rfl
  have hday : (Coordinator.priorDay account operation o.snapshotId).run db = .ok (some day, db) := by
    rw [hid]
    unfold Coordinator.priorDay
    dsimp only
    rw [Tx.bind_query_ok, hprior]
    rfl
  cases hactive : db.authority.requireActiveRun account run with
  | error e =>
      refine .inr ⟨e, ?_, .inl (refusal_of_admission (Authority.requireActiveRun_error hactive))⟩
      unfold Coordinator.reserve
      rw [Tx.bind_ofExcept_error hmatching, Tx.bind_query_error, Tx.bind_check_error]
      refine .inr ⟨hknown, ?_⟩
      rw [Tx.bind_query_error, hactive]
      rfl
  | ok active =>
      -- what the two halves raise, the coordinated call raises
      have hraise : ∀ e, (AccountBudget.reserveInUow account operation total { o with quotaDate := some day } caller.now).run db
          = .error e ∨ (∃ m, (AccountBudget.reserveInUow account operation total { o with quotaDate := some day }
            caller.now).run db = .ok (m, db)) ∧
            (RunBudget.reserveInUow caller run operation values finalResponse false false).run db = .error e →
          (Coordinator.reserve caller account run operation total values finalResponse o).run db = .error e := by
        intro e h
        unfold Coordinator.reserve
        rw [Tx.bind_ofExcept_error hmatching, Tx.bind_query_error, Tx.bind_check_error]
        refine .inr ⟨hknown, ?_⟩
        rw [Tx.bind_query_error, Tx.bind_ofExcept_error hactive, Tx.bind_error]
        refine .inr ⟨some day, db, hday, ?_⟩
        rw [Tx.bind_error]
        rcases h with h | ⟨⟨m, hm⟩, h⟩
        · exact .inl h
        · refine .inr ⟨m, db, hm, ?_⟩
          rw [Tx.bind_error]
          exact .inl h
      have haccount := @AccountBudget.reserveInUow_again db account operation day row total
        { o with quotaDate := some day } caller.now hb hrow rfl
      rcases haccount with ⟨m, hm, hreplayed, htokens, _⟩ | ⟨e, he, hwhy⟩
      · rcases RunBudget.reserveInUow_again _ _ _ _ hs hw hne with ⟨m', hm', hreplayed', hamounts⟩ | ⟨e, he, hwhy⟩
        · refine .inl ⟨(m, m'), ?_, hreplayed, hreplayed', ?_, ?_⟩
          · unfold Coordinator.reserve
            rw [Tx.bind_ofExcept_ok]
            refine ⟨(), hmatching, ?_⟩
            rw [Tx.bind_query_ok, Tx.bind_check_ok]
            refine ⟨hknown, ?_⟩
            rw [Tx.bind_query_ok, Tx.bind_ofExcept_ok]
            refine ⟨active, hactive, ?_⟩
            rw [Tx.bind_ok]
            refine ⟨some day, db, hday, ?_⟩
            rw [Tx.bind_ok]
            refine ⟨m, db, hm, ?_⟩
            rw [Tx.bind_ok]
            exact ⟨.inl m', db, hm', rfl⟩
          · exact Except.ok.inj (hn.symm.trans htokens)
          · exact Except.ok.inj (hvalues.symm.trans hamounts)
        · refine .inr ⟨e, hraise e (.inr ⟨⟨m, hm⟩, he⟩), ?_⟩
          rcases hwhy requested hvalues hvalid with h | ⟨h, hdiffers⟩
          · exact .inl (refusal_of_admission h)
          · exact .inr ⟨h, fun hsame => hdiffers hsame.2⟩
      · refine .inr ⟨e, hraise e (.inl he), ?_⟩
        rcases hwhy n hn hvalid with h | ⟨h, hdiffers⟩
        · exact .inl h
        · refine .inr ⟨h, fun hsame => hdiffers ⟨hsame.1.symm, ?_⟩⟩
          exact hsnapshot.trans hid.symm

/-- **A repeated coordinated settlement** of an operation that is closed in its ledgers. -/
theorem Coordinator.settle_again {total : Raw} {values : List (String × Raw)} {usageSource : String} {date : Option Date}
    {n : ℕ} {actual : Dict ℕ} {source : UsageSource} {t : UsageState} (hs : Recorded db) (hw : WorkBacked db)
    (hb : AccountBacked db) (hvalid : ValidOperation operation) (hin : InState db run operation t) (ht : t ≠ .reserved)
    (hrow : db.accountUsage.lookup ⟨account, day, operation⟩ = some row) (hclosed : row.state ≠ .reserved)
    (hdate : ∀ d ∈ date, d = day)
    (hmatching : Coordinator.requireMatchingTotal total values = .ok ()) (hn : AccountBudget.tokens total = .ok n)
    (hvalues : amounts values = .ok actual) (hsource : UsageSource.parse usageSource = .ok source) :
    (∃ r, (Coordinator.settle (max 0) account run operation total values usageSource date).run db = .ok (r, db) ∧
        r.1.replayed = true ∧ r.2.replayed = true ∧
        (row.state = .settled ∧ row.actualTokens = some n ∧ row.usageSource = some source) ∧
        SettledAs (RunBudget.rows db run operation) actual source) ∨
      ∃ e, (Coordinator.settle (max 0) account run operation total values usageSource date).run db = .error e ∧
        Conflict e ∧ ¬((row.state = .settled ∧ row.actualTokens = some n ∧ row.usageSource = some source) ∧
          SettledAs (RunBudget.rows db run operation) actual source) := by
  unfold Coordinator.settle
  rcases AccountBudget.settleInUow_again hb hrow hclosed hdate with ⟨m, hm, hreplayed, n', source', hn', hsource', hsame⟩ |
    ⟨e, he, hwhy⟩
  · obtain rfl := Except.ok.inj (hn.symm.trans hn')
    obtain rfl := Except.ok.inj (hsource.symm.trans hsource')
    rcases RunBudget.settleInUow_again hs hw hin ht with ⟨m', hm', hreplayed', actual', source₂, hactual', hsource₂, hsettled⟩ |
      ⟨e, he, hwhy⟩
    · obtain rfl := Except.ok.inj (hvalues.symm.trans hactual')
      obtain rfl := Except.ok.inj (hsource.symm.trans hsource₂)
      refine .inl ⟨(m, m'), ?_, hreplayed, hreplayed', hsame, hsettled⟩
      rw [Tx.bind_ofExcept_ok]
      refine ⟨(), hmatching, ?_⟩
      rw [Tx.bind_ok]
      refine ⟨m, db, hm, ?_⟩
      rw [Tx.bind_ok]
      exact ⟨m', db, hm', rfl⟩
    · obtain ⟨hconflict, hdiffers⟩ := hwhy actual source hvalues hsource
      refine .inr ⟨e, ?_, hconflict, fun h => hdiffers h.2⟩
      rw [Tx.bind_ofExcept_error hmatching, Tx.bind_error]
      refine .inr ⟨m, db, hm, ?_⟩
      rw [Tx.bind_error]
      exact .inl he
  · obtain ⟨hconflict, hdiffers⟩ := hwhy n source hn hsource hvalid
    refine .inr ⟨e, ?_, hconflict, fun h => hdiffers h.1⟩
    rw [Tx.bind_ofExcept_error hmatching, Tx.bind_error]
    exact .inl he

/-- **A repeated coordinated release** of a released operation. -/
theorem Coordinator.release_again {date : Option Date} (hs : Recorded db) (hw : WorkBacked db) (hb : AccountBacked db)
    (hvalid : ValidOperation operation) (hin : InState db run operation .released)
    (hrow : db.accountUsage.lookup ⟨account, day, operation⟩ = some row) (hreleased : row.state = .released)
    (hdate : ∀ d ∈ date, d = day) (hunmarked : Coordinator.dispatchedOperation db account run operation = false) :
    ∃ r, (Coordinator.release (max 0) account run operation date).run db = .ok (r, db) ∧
      r.1.replayed = true ∧ r.2.replayed = true := by
  have hclosed : row.state ≠ .reserved := by
    rw [hreleased]
    exact nofun
  rcases AccountBudget.releaseInUow_again hb hrow hclosed hdate with ⟨m, hm, hreplayed, _⟩ | ⟨e, _, hwhy⟩
  · rcases RunBudget.releaseInUow_again hs hw hin nofun with ⟨m', hm', hreplayed', _⟩ | ⟨e, _, _, hwhy⟩
    · refine ⟨(m, m'), ?_, hreplayed, hreplayed'⟩
      unfold Coordinator.release
      rw [Tx.bind_ok]
      refine ⟨(day, row), db, hb.lockedLedger hrow hdate, ?_⟩
      rw [Tx.bind_query_ok, Tx.bind_check_ok]
      refine ⟨hunmarked, ?_⟩
      rw [Tx.bind_ok]
      refine ⟨m, db, hm, ?_⟩
      rw [Tx.bind_ok]
      exact ⟨m', db, hm', rfl⟩
    · exact absurd rfl hwhy
  · exact absurd hreleased (hwhy hvalid).2

end coordinated

end HpAgent.Budget
