import HpAgent.Budget.Caps

/-! # What a history never takes back

An operation keeps the amounts it reserved, and once it is closed its rows never change.  The account ledger
keeps its rows too, and an operation has them on one day only.

* `RunsSteady`: the Run ledger from one store to a later one.
* `AccountKept`: what closing calls may do to the account ledger.
* `AccountBacked`: every account row belongs to the snapshot of its operation.
* `UsageSteps.runsSteady`, `UsageSteps.accountSteady`: whole histories. -/

namespace HpAgent.Budget

open Library
open WorkBudget (meteredOn)

variable {allowed : UsageCall → Ledgers → Prop}
variable {deferExhaustion enforceLimits finalResponse : Bool} {row' : AccountUsage}

/-- Later stores of a history. -/
def UsageSteps (db db' : Ledgers) : Prop := Relation.ReflTransGen (UsageStep anyCall) db db'

/-! ### What goes on around the calls -/

/-- A step that is not a call leaves the usage rows alone.  A new snapshot is one of an operation that had none, and a
dispatch marker is set for a reserved account row. -/
structure Around (db db' : Ledgers) : Prop where
  runUsage : db'.runUsage = db.runUsage
  workUsage : db'.workUsage = db.workUsage
  accountUsage : db'.accountUsage = db.accountUsage
  dailyBudgets : db'.dailyBudgets = db.dailyBudgets
  workBudgets : ∀ c, (db.workBudgets.lookup c).isSome = true → (db'.workBudgets.lookup c).isSome = true
  runs : KeepsRuns db.authority db'.authority
  frozen : Frozen db → Frozen db'
  kept : ∀ id s, db.snapshots.lookup id = some s → db'.snapshots.lookup id = some s
  fresh : Frozen db → ∀ id s, db'.snapshots.lookup id = some s → db.snapshots.lookup id = some s ∨
    ∀ id' s', db.snapshots.lookup id' = some s' → s'.operationId ≠ s.operationId
  marked : ∀ account id, Coordinator.dispatched db' account id = true → Coordinator.dispatched db account id = true ∨
    ∃ s day row, db.snapshots.lookup id = some s ∧ s.accountId = account ∧
      db.accountUsage.lookup ⟨account, day, s.operationId⟩ = some row ∧ row.state = .reserved

theorem KeepsRuns.refl (a : Authority) : KeepsRuns a a := fun _ r hr => ⟨r, hr, rfl, rfl⟩

section around

variable {db db' : Ledgers}

/-- A change to the budgets only. -/
theorem Around.of_budgets {runBudgets : Table Uuid RunBudget} {workBudgets : Table (Uuid × Uuid) WorkBudget}
    (hbudgets : ∀ c, (db.workBudgets.lookup c).isSome = true → (workBudgets.lookup c).isSome = true) :
    Around db { db with runBudgets := runBudgets, workBudgets := workBudgets } :=
  ⟨rfl, rfl, rfl, rfl, hbudgets, .refl _, fun h => h.of_same rfl rfl, fun _ _ hs => hs, fun _ _ _ hs => .inl hs,
    fun _ _ h => .inl h⟩

theorem Around.same (db : Ledgers) : Around db db := .of_budgets fun _ h => h

/-- The Runs of owners are kept. -/
theorem KeepsRuns.ownedRun {a a' : Authority} (h : KeepsRuns a a') {account run : Uuid}
    (hown : (a.ownedRun account run).isSome = true) : (a'.ownedRun account run).isSome = true := by
  obtain ⟨r, hr⟩ := Option.isSome_iff_exists.mp hown
  obtain ⟨hr, haccount⟩ := Option.filter_eq_some_iff.mp hr
  obtain ⟨r', hr', haccount', _⟩ := h run r hr
  unfold Authority.ownedRun
  rw [hr', Option.filter_some, haccount', if_pos haccount]
  rfl

theorem Frozen.of_keepsRuns (hf : Frozen db) (hruns : KeepsRuns db.authority db'.authority)
    (hsnapshots : db'.snapshots = db.snapshots) : Frozen db' := by
  constructor
  · rw [hsnapshots]
    exact fun id s hs => hruns.ownedRun (hf.owned id s hs)
  · rw [hsnapshots]
    exact hf.unique

/-- **A step is a call, or goes on around the calls.** -/
theorem UsageStep.call_or_around (h : UsageStep allowed db db') :
    (∃ c : UsageCall, c.Carries db ∧ allowed c db ∧ db' = c.command.commit db) ∨ Around db db' := by
  have hrule : ∀ {α : Type} {m : BudgetTx α}, (∀ a s', m.run db = .ok (a, s') → Around db s') → Around db (m.commit db) :=
    fun h => Tx.commit_rule _ (Around.same db) h
  have hinsert : ∀ (key : Uuid × Uuid) (b : WorkBudget) c, (db.workBudgets.lookup c).isSome = true →
      ((db.workBudgets.insert key b).lookup c).isSome = true := by
    intro key b c hc
    rw [Table.lookup_insert_ite]
    split
    · rfl
    · exact hc
  cases h with
  | call c hcarries hallowed => exact .inl ⟨c, hcarries, hallowed, rfl⟩
  | freeze caller fresh account run operation digest version hown =>
      refine .inr (hrule fun id s' h => ?_)
      have hfreeze := fun hf : Frozen db => hf.freeze hown h
      obtain ⟨_, ⟨rfl, _⟩ | ⟨rfl, _, hfresh, rfl⟩⟩ := Snapshots.freeze_ok h
      · exact .same _
      · refine ⟨rfl, rfl, rfl, rfl, fun _ h => h, .refl _, fun hf => (hfreeze hf).1, fun j s hs => ?_,
          fun hf => (hfreeze hf).2.2, fun _ _ h => .inl h⟩
        rw [Table.lookup_insert_ite, if_neg]
        · exact hs
        · rintro rfl
          rw [hs] at hfresh
          cases hfresh
  | markDispatched caller account id =>
      refine .inr (hrule fun _ s' h => ?_)
      obtain ⟨s, day, row, hs, haccount, hrow, hstate, _, _, rfl⟩ := Snapshots.markDispatched_ok h
      refine ⟨rfl, rfl, rfl, rfl, fun _ h => h, .refl _, fun hf => hf.of_same rfl rfl, fun _ _ hs => hs,
        fun _ _ _ hs => .inl hs, fun account' id' hmarked => ?_⟩
      unfold Coordinator.dispatched at hmarked
      rw [Table.lookup_insert_ite] at hmarked
      split at hmarked
      · next hkey =>
          obtain ⟨rfl, rfl⟩ := Prod.mk.inj hkey
          exact .inr ⟨s, day, row, hs, haccount, hrow, hstate⟩
      · exact .inl hmarked
  | createRunBudget run mode limits reserve hrun _ =>
      refine .inr (hrule fun _ s' h => ?_)
      unfold RunBudget.createSnapshot at h
      rw [Tx.bind_query_ok, Tx.bind_check_ok] at h
      obtain rfl := Tx.update_ok.mp h.2
      exact .of_budgets fun _ h => h
  | createWorkBudget account work limits _ =>
      refine .inr (hrule fun _ s' h => ?_)
      unfold WorkBudget.create at h
      rw [Tx.bind_query_ok, Tx.bind_check_ok] at h
      obtain rfl := Tx.update_ok.mp h.2
      exact .of_budgets (hinsert _ _)
  | adjustWorkBudget account work budgetVersion values =>
      refine .inr (hrule fun _ s' h => ?_)
      obtain ⟨_, _, _, _, rfl⟩ := WorkBudget.adjust_ok h
      exact .of_budgets (hinsert _ _)
  | surroundings authority invocations hruns =>
      exact .inr ⟨rfl, rfl, rfl, rfl, fun _ h => h, hruns, fun hf => hf.of_keepsRuns hruns rfl, fun _ _ hs => hs,
        fun _ _ _ hs => .inl hs, fun _ _ h => .inl h⟩

end around

/-! ### The Run ledger -/

/-- Operations keep what they reserved, and closed operations keep their rows. -/
structure RunsSteady (db db' : Ledgers) : Prop where
  reserved : ∀ run operation, RunBudget.rows db run operation ≠ Dict.empty →
    RunBudget.reservedAmounts (RunBudget.rows db' run operation)
      = RunBudget.reservedAmounts (RunBudget.rows db run operation)
  closed : ∀ run operation t, InState db run operation t → t ≠ .reserved →
    RunBudget.rows db' run operation = RunBudget.rows db run operation

theorem reservedAmounts_ne_empty {rs : Dict RunUsage} (h : rs ≠ Dict.empty) :
    RunBudget.reservedAmounts rs ≠ Dict.empty := by
  intro hempty
  apply h
  funext d
  have hd := congrFun hempty d
  unfold RunBudget.reservedAmounts at hd
  exact Option.map_eq_none_iff.mp hd

theorem RunsSteady.rows_ne_empty {db db' : Ledgers} (h : RunsSteady db db') {run : Uuid} {operation : String}
    (hne : RunBudget.rows db run operation ≠ Dict.empty) : RunBudget.rows db' run operation ≠ Dict.empty := by
  intro hempty
  have hreserved := h.reserved run operation hne
  rw [hempty] at hreserved
  exact reservedAmounts_ne_empty hne hreserved.symm

instance : IsPreorder Ledgers RunsSteady where
  refl _ := ⟨fun _ _ _ => rfl, fun _ _ _ _ _ => rfl⟩
  trans _ _ _ h₁ h₂ := by
    refine ⟨fun run operation hne => ?_, fun run operation t hin ht => ?_⟩
    · rw [h₂.reserved run operation (h₁.rows_ne_empty hne), h₁.reserved run operation hne]
    · have hsame := h₁.closed run operation t hin ht
      rw [← hsame]
      refine h₂.closed run operation t ?_ ht
      unfold InState
      rw [hsame]
      exact hin

section runs

variable {run : Uuid} {operation : String} {db db' : Ledgers}

theorem RunsSteady.of_same (h : db'.runUsage = db.runUsage) : RunsSteady db db' := by
  have hrows : ∀ run operation, RunBudget.rows db' run operation = RunBudget.rows db run operation := by
    intro run operation
    unfold RunBudget.rows
    rw [h]
  exact ⟨fun run operation _ => by rw [hrows], fun run operation _ _ _ => hrows run operation⟩

/-- The rows of one operation became `rs`. -/
theorem Moved.runsSteady {rs : Dict RunUsage} (h : Moved run operation rs db db')
    (hreserved : RunBudget.rows db run operation ≠ Dict.empty →
      RunBudget.reservedAmounts rs = RunBudget.reservedAmounts (RunBudget.rows db run operation))
    (hopen : ∀ t, InState db run operation t → t = .reserved) : RunsSteady db db' := by
  refine ⟨fun run' operation' hne => ?_, fun run' operation' t hin ht => ?_⟩
  · rw [h.rows_ite]
    split
    · next hkey =>
        obtain ⟨rfl, rfl⟩ := hkey
        exact hreserved hne
    · rfl
  · rw [h.rows_ite, if_neg]
    rintro ⟨rfl, rfl⟩
    exact ht (hopen t hin)

theorem RunBudget.reserveInUow_steady {caller : Caller} {values : List (String × Raw)}
    {r : Mutation ⊕ Error} (hs : Recorded db)
    (h : (RunBudget.reserveInUow caller run operation values finalResponse enforceLimits deferExhaustion).run db
      = .ok (r, db')) : RunsSteady db db' := by
  rcases (RunBudget.reserveInUow_effect hs h).2 with ⟨m, requested, _, _, heffect⟩ | ⟨_, _, rfl⟩
  · cases heffect with
    | replayed => exact refl_of RunsSteady _
    | opened hrows hmoved => exact hmoved.runsSteady (fun hne => absurd hrows hne) fun t hin => absurd hrows hin.1
  · exact .of_same rfl

theorem RunBudget.settleInUow_steady {values : List (String × Raw)} {source : String} {m : Mutation} (hs : Recorded db)
    (h : (RunBudget.settleInUow (max 0) run operation values source).run db = .ok (m, db')) : RunsSteady db db' := by
  obtain ⟨_, _, actual, _, _, heffect⟩ := RunBudget.settleInUow_effect RunBudget.clampsNegative_max hs h
  cases heffect with
  | replayed => exact refl_of RunsSteady _
  | settled hrows hne hreserved hkeys hmoved =>
      subst hrows
      refine hmoved.runsSteady (fun _ => ?_) fun t hin => hin.eq ⟨hne, hreserved⟩
      funext d
      unfold RunBudget.reservedAmounts RunBudget.settledRows
      cases RunBudget.rows db run operation d <;> rfl

theorem RunBudget.releaseInUow_steady {m : Mutation} (hs : Recorded db)
    (h : (RunBudget.releaseInUow (max 0) run operation).run db = .ok (m, db')) : RunsSteady db db' := by
  obtain ⟨_, heffect⟩ := RunBudget.releaseInUow_effect RunBudget.clampsNegative_max hs h
  cases heffect with
  | replayed => exact refl_of RunsSteady _
  | released hrows hne hreserved hmoved =>
      subst hrows
      refine hmoved.runsSteady (fun _ => ?_) fun t hin => hin.eq ⟨hne, hreserved⟩
      funext d
      unfold RunBudget.reservedAmounts RunBudget.releasedRows
      cases RunBudget.rows db run operation d <;> rfl

/-- Recorded ledgers stay recorded, and their operations steady. -/
def KeepsSteady (db db' : Ledgers) : Prop := Recorded db → Recorded db' ∧ RunsSteady db db'

instance : IsPreorder Ledgers KeepsSteady where
  refl _ hs := ⟨hs, refl_of RunsSteady _⟩
  trans _ _ _ h₁ h₂ hs := by
    obtain ⟨hs₁, hsteady₁⟩ := h₁ hs
    obtain ⟨hs₂, hsteady₂⟩ := h₂ hs₁
    exact ⟨hs₂, trans_of RunsSteady hsteady₁ hsteady₂⟩

theorem KeepsSteady.of_account (hrecorded : KeepsRecorded db db')
    (honly : db' = { db with accountUsage := db'.accountUsage, dailyBudgets := db'.dailyBudgets }) : KeepsSteady db db' := by
  refine fun hs => ⟨hrecorded hs, .of_same ?_⟩
  rw [honly]

theorem keptByServices_steady : KeptByServices (max 0) KeepsSteady where
  accountReserve _ _ _ _ _ _ _ _ h :=
    .of_account (AccountBudget.reserveInUow_recorded _ _ _ _ _ _ _ h) (AccountBudget.reserveInUow_runRows h)
  accountSettle _ _ _ _ _ _ _ _ h :=
    .of_account (AccountBudget.settleInUow_recorded _ _ _ _ _ _ _ h) (AccountBudget.settleInUow_runRows h)
  accountRelease _ _ _ _ _ _ h :=
    .of_account (AccountBudget.releaseInUow_recorded _ _ _ _ _ h) (AccountBudget.releaseInUow_runRows h)
  runReserve _ _ _ _ _ _ _ _ _ _ h hs := ⟨(RunBudget.reserveInUow_effect hs h).1, RunBudget.reserveInUow_steady hs h⟩
  runSettle _ _ _ _ _ _ _ h hs :=
    ⟨(RunBudget.settleInUow_effect RunBudget.clampsNegative_max hs h).1, RunBudget.settleInUow_steady hs h⟩
  runRelease _ _ _ _ _ h hs :=
    ⟨(RunBudget.releaseInUow_effect RunBudget.clampsNegative_max hs h).1, RunBudget.releaseInUow_steady hs h⟩
  setTerminal run status := by
    refine Tx.Keeps.update fun db hs => ⟨?_, .of_same rfl⟩
    have hkeeps : Tx.Keeps KeepsRecorded (setTerminal run status) := setTerminal_recorded status
    exact hkeeps db () _ rfl hs

/-- **One step keeps the Run ledger steady.** -/
theorem UsageStep.runsSteady (h : UsageStep allowed db db') (hs : Recorded db) :
    RunsSteady db db' := by
  rcases h.call_or_around with ⟨c, _, _, rfl⟩ | haround
  · exact ((c.command_keeps keptByServices_steady).commit db hs).2
  · exact .of_same haround.runUsage

theorem UsageSteps.runsSteady (h : UsageSteps db db') (hs : Recorded db) : Recorded db' ∧ RunsSteady db db' := by
  induction h with
  | refl => exact ⟨hs, refl_of RunsSteady _⟩
  | tail _ hstep ih => exact ⟨hstep.recorded ih.1, trans_of RunsSteady ih.2 (hstep.runsSteady ih.1)⟩

end runs

/-! ### The budgets of metered Works -/

/-- A Work with usage rows has a budget. -/
def WorkBacked (db : Ledgers) : Prop :=
  ∀ k r, db.workUsage.lookup k = some r → (db.workBudgets.lookup (k.accountId, k.workId)).isSome = true

section backed

variable {run : Uuid} {operation : String} {db db' : Ledgers}

theorem WorkBacked.of_same (hb : WorkBacked db) (husage : db'.workUsage = db.workUsage)
    (hbudgets : ∀ c, (db.workBudgets.lookup c).isSome = true → (db'.workBudgets.lookup c).isSome = true) :
    WorkBacked db' := by
  intro k r hr
  rw [husage] at hr
  exact hbudgets _ (hb k r hr)

theorem WorkBudget.mutate_backed {action : WorkBudget.Action} {u : Unit}
    (h : (WorkBudget.mutate run operation action).run db = .ok (u, db')) (hb : WorkBacked db) : WorkBacked db' := by
  rcases WorkBudget.mutate_ok h with ⟨_, rfl⟩ | ⟨account, work, _, hdone⟩
  · exact hb
  · rcases hdone.changed with rfl | ⟨rs, hrewrote⟩
    · exact hb
    · obtain ⟨b, b', _, honly, _⟩ := hrewrote.budget
      intro k r hr
      have hbudgets : db'.workBudgets = db.workBudgets.insert (account, work) b' := by rw [honly]
      rw [hbudgets, Table.lookup_insert_ite]
      split
      · rfl
      · next hne =>
          apply hb k r
          rw [← hrewrote.frame k]
          · exact hr
          · intro hk
            apply hne
            rw [hk]

theorem RunBudget.Rewrote.backed {rs : Dict RunUsage} (h : RunBudget.Rewrote run operation rs db db')
    (hb : WorkBacked db) : WorkBacked db' := by
  obtain ⟨_, _, _, honly, _⟩ := h.budget
  refine hb.of_same ?_ fun c hc => ?_
  · rw [honly]
  · rw [honly]
    exact hc

/-- Recorded ledgers stay recorded, and their Works backed. -/
def KeepsBacked (db db' : Ledgers) : Prop := Recorded db → Recorded db' ∧ (WorkBacked db → WorkBacked db')

instance : IsPreorder Ledgers KeepsBacked where
  refl _ hs := ⟨hs, id⟩
  trans _ _ _ h₁ h₂ hs := by
    obtain ⟨hs₁, hb₁⟩ := h₁ hs
    obtain ⟨hs₂, hb₂⟩ := h₂ hs₁
    exact ⟨hs₂, hb₂ ∘ hb₁⟩

theorem KeepsBacked.of_account (hrecorded : KeepsRecorded db db')
    (honly : db' = { db with accountUsage := db'.accountUsage, dailyBudgets := db'.dailyBudgets }) : KeepsBacked db db' := by
  refine fun hs => ⟨hrecorded hs, fun hb => hb.of_same ?_ fun c hc => ?_⟩
  · rw [honly]
  · rw [honly]
    exact hc

theorem keptByServices_backed : KeptByServices (max 0) KeepsBacked where
  accountReserve _ _ _ _ _ _ _ _ h :=
    .of_account (AccountBudget.reserveInUow_recorded _ _ _ _ _ _ _ h) (AccountBudget.reserveInUow_runRows h)
  accountSettle _ _ _ _ _ _ _ _ h :=
    .of_account (AccountBudget.settleInUow_recorded _ _ _ _ _ _ _ h) (AccountBudget.settleInUow_runRows h)
  accountRelease _ _ _ _ _ _ h :=
    .of_account (AccountBudget.releaseInUow_recorded _ _ _ _ _ h) (AccountBudget.releaseInUow_runRows h)
  runReserve _ _ _ _ _ _ _ _ _ _ h hs := by
    refine ⟨(RunBudget.reserveInUow_effect hs h).1, fun hb => ?_⟩
    rcases RunBudget.reserveInUow_ok h with ⟨_, _, hbody⟩ | ⟨_, _, rfl⟩
    · obtain ⟨_, _, _, hwork, hdone⟩ := RunBudget.reserveBody_ok hbody
      have hb₁ := WorkBudget.mutate_backed hwork hb
      cases hdone with
      | opened _ hrewrote => exact hrewrote.backed hb₁
      | replayed => exact hb₁
    · exact hb
  runSettle _ _ _ _ _ _ _ h hs := by
    have hclamp := RunBudget.clampsNegative_max
    refine ⟨(RunBudget.settleInUow_effect hclamp hs h).1, fun hb => ?_⟩
    obtain ⟨_, _, _, _, _, hwork, hdone⟩ := RunBudget.settleInUow_ok hclamp hs.conserved.run h
    have hb₁ := WorkBudget.mutate_backed hwork hb
    cases hdone with
    | settled _ _ _ _ hrewrote => exact hrewrote.backed hb₁
    | replayed => exact hb₁
  runRelease _ _ _ _ _ h hs := by
    have hclamp := RunBudget.clampsNegative_max
    refine ⟨(RunBudget.releaseInUow_effect hclamp hs h).1, fun hb => ?_⟩
    obtain ⟨_, hwork, hdone⟩ := RunBudget.releaseInUow_ok hclamp hs.conserved.run h
    have hb₁ := WorkBudget.mutate_backed hwork hb
    cases hdone with
    | released _ _ _ hrewrote => exact hrewrote.backed hb₁
    | replayed => exact hb₁
  setTerminal run status := by
    refine Tx.Keeps.update fun db hs => ⟨?_, fun hb => hb.of_same rfl fun _ hc => hc⟩
    have hkeeps : Tx.Keeps KeepsRecorded (setTerminal run status) := setTerminal_recorded status
    exact hkeeps db () _ rfl hs

theorem UsageStep.backed (h : UsageStep allowed db db') (hs : Recorded db)
    (hb : WorkBacked db) : WorkBacked db' := by
  rcases h.call_or_around with ⟨c, _, _, rfl⟩ | haround
  · exact ((c.command_keeps keptByServices_backed).commit db hs).2 hb
  · exact hb.of_same haround.workUsage haround.workBudgets

theorem UsageReachable.backed {authority : Authority}
    (h : UsageReachable allowed authority db) : WorkBacked db := by
  induction h with
  | refl => exact fun _ _ hr => nomatch hr
  | tail hreach hstep ih => exact hstep.backed (UsageReachable.recorded hreach) ih

end backed

/-! ### The account ledger -/

/-- No day of an account is lost. -/
def KeepsDays (db db' : Ledgers) : Prop :=
  ∀ c, (db.dailyBudgets.lookup c).isSome = true → (db'.dailyBudgets.lookup c).isSome = true

instance : IsPreorder Ledgers KeepsDays where
  refl _ _ h := h
  trans _ _ _ h₁ h₂ c h := h₂ c (h₁ c h)

/-- Account rows keep their tokens and snapshots, and closed rows never change. -/
structure AccountSteady (db db' : Ledgers) : Prop where
  rows : ∀ key row, db.accountUsage.lookup key = some row → ∃ row', db'.accountUsage.lookup key = some row' ∧
    row'.snapshotId = row.snapshotId ∧ row'.reservedTokens = row.reservedTokens ∧ (row.state ≠ .reserved → row' = row)
  days : KeepsDays db db'

instance : IsPreorder Ledgers AccountSteady where
  refl _ := ⟨fun _ row hrow => ⟨row, hrow, rfl, rfl, fun _ => rfl⟩, fun _ h => h⟩
  trans _ _ _ h₁ h₂ := by
    refine ⟨fun key row hrow => ?_, fun c h => h₂.days c (h₁.days c h)⟩
    obtain ⟨row₁, hrow₁, hsnapshot₁, htokens₁, hclosed₁⟩ := h₁.rows key row hrow
    obtain ⟨row₂, hrow₂, hsnapshot₂, htokens₂, hclosed₂⟩ := h₂.rows key row₁ hrow₁
    refine ⟨row₂, hrow₂, hsnapshot₂.trans hsnapshot₁, htokens₂.trans htokens₁, fun hclosed => ?_⟩
    obtain rfl := hclosed₁ hclosed
    exact hclosed₂ hclosed

section days

variable {account : Uuid} {operation : String}

theorem AccountBudget.addDaily_days (day : Date) (used reserved : ℤ) :
    Tx.Keeps KeepsDays (AccountBudget.addDaily account day used reserved) := by
  refine (Tx.Keeps.query _).bind fun found => ?_
  cases found with
  | none => exact Tx.Keeps.pure _
  | some b =>
      refine (Tx.Keeps.check _ _).bind fun _ => (Tx.Keeps.check _ _).bind fun _ => Tx.Keeps.update fun db c hc => ?_
      dsimp only
      rw [Table.lookup_insert_ite]
      split
      · rfl
      · exact hc

theorem AccountBudget.ensureDaily_days (day : Date) : Tx.Keeps KeepsDays (AccountBudget.ensureDaily account day) := by
  refine Tx.Keeps.update fun db c hc => ?_
  dsimp only
  split
  · exact hc
  · rw [Table.lookup_insert_ite]
    split
    · rfl
    · exact hc

theorem AccountBudget.lockedLedger_days (date : Option Date) :
    Tx.Keeps KeepsDays (AccountBudget.lockedLedger account operation date) :=
  Tx.Keeps.of_read fun _ _ _ h => (AccountBudget.lockedLedger_ok h).1

theorem AccountBudget.writeRow_days (key : AccountUsageKey) (row : AccountUsage) :
    Tx.Keeps KeepsDays (AccountBudget.writeRow key row) :=
  (Tx.Keeps.check _ _).bind fun _ => Tx.Keeps.update fun _ _ hc => hc

theorem AccountBudget.openHold_days (day : Date) (requested : ℕ) (snapshot : Option Uuid) (limit : Option ℕ) :
    Tx.Keeps KeepsDays (AccountBudget.openHold account day operation requested snapshot limit) := by
  refine (Tx.Keeps.query _).bind fun _ => (Tx.Keeps.demand _ _).bind fun _ => (Tx.Keeps.check _ _).bind fun _ =>
    Tx.Keeps.bind ?_ fun _ => (AccountBudget.addDaily_days _ _ _).bind fun _ => Tx.Keeps.pure _
  exact (Tx.Keeps.query _).bind fun _ => (Tx.Keeps.check _ _).bind fun _ => (Tx.Keeps.check _ _).bind fun _ =>
    Tx.Keeps.update fun _ _ hc => hc

theorem AccountBudget.reserveInUow_days (value : Raw) (o : AccountBudget.Options) (now : Instant) :
    Tx.Keeps KeepsDays (AccountBudget.reserveInUow account operation value o now) := by
  refine (Tx.Keeps.ofExcept _).bind fun _ => (Tx.Keeps.check _ _).bind fun _ => Tx.Keeps.bind ?_ fun e =>
    (Tx.Keeps.ofExcept _).bind fun _ => (AccountBudget.ensureDaily_days _).bind fun _ =>
      (Tx.Keeps.query _).bind fun existing => ?_
  · refine (Tx.Keeps.query _).bind fun lookup => (Tx.Keeps.ofExcept _).bind fun p => ?_
    exact (Tx.Keeps.demand _ _).bind fun _ => (Tx.Keeps.check _ _).bind fun _ => (Tx.Keeps.check _ _).bind fun _ =>
      Tx.Keeps.pure _
  · cases existing with
    | some row => exact (Tx.Keeps.check _ _).bind fun _ => Tx.Keeps.pure _
    | none => exact AccountBudget.openHold_days _ _ _ _

theorem AccountBudget.settleInUow_days (value : Raw) (source : String) (date : Option Date) :
    Tx.Keeps KeepsDays (AccountBudget.settleInUow account operation value source date) := by
  refine (Tx.Keeps.ofExcept _).bind fun _ => (Tx.Keeps.check _ _).bind fun _ => (Tx.Keeps.ofExcept _).bind fun _ =>
    (AccountBudget.lockedLedger_days _).bind fun p => ?_
  obtain ⟨day, row⟩ := p
  dsimp only
  split
  · exact (Tx.Keeps.check _ _).bind fun _ => Tx.Keeps.pure _
  · exact Tx.Keeps.raise _
  · exact (AccountBudget.writeRow_days _ _).bind fun _ => (AccountBudget.addDaily_days _ _ _).bind fun _ =>
      Tx.Keeps.pure _

theorem AccountBudget.releaseInUow_days (date : Option Date) :
    Tx.Keeps KeepsDays (AccountBudget.releaseInUow account operation date) := by
  refine (Tx.Keeps.check _ _).bind fun _ => (AccountBudget.lockedLedger_days _).bind fun p => ?_
  obtain ⟨day, row⟩ := p
  dsimp only
  split
  · exact Tx.Keeps.pure _
  · exact Tx.Keeps.raise _
  · exact (AccountBudget.writeRow_days _ _).bind fun _ => (AccountBudget.addDaily_days _ _ _).bind fun _ =>
      Tx.Keeps.pure _

end days

section account

variable {db db' : Ledgers}

theorem AccountSteady.of_same (haccount : db'.accountUsage = db.accountUsage) (hdaily : db'.dailyBudgets = db.dailyBudgets) :
    AccountSteady db db' := by
  refine ⟨fun key row hrow => ⟨row, ?_, rfl, rfl, fun _ => rfl⟩, fun c hc => ?_⟩
  · rw [haccount]
    exact hrow
  · rw [hdaily]
    exact hc

/-- One row was written over none, or over an open one. -/
theorem AccountBudget.Rewrote.steady {key : AccountUsageKey}
    (h : AccountBudget.Rewrote key row' db db') (hdays : KeepsDays db db')
    (hopen : ∀ row, db.accountUsage.lookup key = some row → row.state = .reserved ∧ row'.snapshotId = row.snapshotId ∧
      row'.reservedTokens = row.reservedTokens) : AccountSteady db db' := by
  refine ⟨fun k row hrow => ?_, hdays⟩
  have haccount : db'.accountUsage = db.accountUsage.insert key row' := by rw [h.only]
  rw [haccount, Table.lookup_insert_ite]
  by_cases hk : k = key
  · subst hk
    obtain ⟨hstate, hsnapshot, htokens⟩ := hopen row hrow
    exact ⟨row', if_pos rfl, hsnapshot, htokens, fun hclosed => absurd hstate hclosed⟩
  · exact ⟨row, (if_neg hk).trans hrow, rfl, rfl, fun _ => rfl⟩

/-- What a closing call may do to the account ledger and to what it reads. -/
structure AccountClosing (db db' : Ledgers) : Prop where
  steady : AccountSteady db db'
  keys : ∀ key, (db'.accountUsage.lookup key).isSome = true → (db.accountUsage.lookup key).isSome = true
  snapshots : db'.snapshots = db.snapshots
  dispatches : db'.dispatches = db.dispatches
  runs : KeepsRuns db.authority db'.authority

instance : IsPreorder Ledgers AccountClosing where
  refl _ := ⟨refl_of AccountSteady _, fun _ h => h, rfl, rfl, .refl _⟩
  trans _ _ _ h₁ h₂ := by
    refine ⟨trans_of AccountSteady h₁.steady h₂.steady, fun key h => h₁.keys key (h₂.keys key h),
      h₂.snapshots.trans h₁.snapshots, h₂.dispatches.trans h₁.dispatches, fun run r hr => ?_⟩
    obtain ⟨r₁, hr₁, haccount₁, hwork₁⟩ := h₁.runs run r hr
    obtain ⟨r₂, hr₂, haccount₂, hwork₂⟩ := h₂.runs run r₁ hr₁
    exact ⟨r₂, hr₂, haccount₂.trans haccount₁, hwork₂.trans hwork₁⟩

theorem AccountBudget.Rewrote.closing {key : AccountUsageKey} {row : AccountUsage}
    (h : AccountBudget.Rewrote key row' db db') (hdays : KeepsDays db db') (hrow : db.accountUsage.lookup key = some row)
    (hstate : row.state = .reserved) (hsnapshot : row'.snapshotId = row.snapshotId)
    (htokens : row'.reservedTokens = row.reservedTokens) : AccountClosing db db' := by
  refine ⟨h.steady hdays fun row₀ hrow₀ => ?_, fun k hk => ?_, ?_, ?_, ?_⟩
  · obtain rfl := Option.some.inj (hrow.symm.trans hrow₀)
    exact ⟨hstate, hsnapshot, htokens⟩
  · have haccount : db'.accountUsage = db.accountUsage.insert key row' := by rw [h.only]
    rw [haccount, Table.lookup_insert_ite] at hk
    split at hk
    · next heq =>
        rw [heq, hrow]
        rfl
    · exact hk
  · rw [h.only]
  · rw [h.only]
  · rw [h.only]
    exact .refl _

/-- A call that leaves the account ledger alone. -/
theorem AccountClosing.of_runSide
    (honly : db' = { db with runUsage := db'.runUsage, runBudgets := db'.runBudgets,
                             workUsage := db'.workUsage, workBudgets := db'.workBudgets }) : AccountClosing db db' := by
  refine ⟨.of_same ?_ ?_, fun key h => ?_, ?_, ?_, ?_⟩
  · rw [honly]
  · rw [honly]
  · rw [honly] at h
    exact h
  · rw [honly]
  · rw [honly]
  · rw [honly]
    exact .refl _

/-- Recorded ledgers stay recorded, and no account row is opened. -/
def KeepsClosing (db db' : Ledgers) : Prop := Recorded db → Recorded db' ∧ AccountClosing db db'

instance : IsPreorder Ledgers KeepsClosing where
  refl _ hs := ⟨hs, refl_of AccountClosing _⟩
  trans _ _ _ h₁ h₂ hs := by
    obtain ⟨hs₁, hclosing₁⟩ := h₁ hs
    obtain ⟨hs₂, hclosing₂⟩ := h₂ hs₁
    exact ⟨hs₂, trans_of AccountClosing hclosing₁ hclosing₂⟩

theorem RunBudget.reserveInUow_closing {caller : Caller} {run : Uuid} {operation : String}
    {values : List (String × Raw)} :
    Tx.Keeps KeepsClosing
      (RunBudget.reserveInUow caller run operation values finalResponse enforceLimits deferExhaustion) := by
  intro db r db' h hs
  obtain ⟨hs', heffect⟩ := RunBudget.reserveInUow_effect hs h
  refine ⟨hs', ?_⟩
  rcases heffect with ⟨_, _, _, _, heffect⟩ | ⟨_, _, rfl⟩
  · cases heffect with
    | opened _ hmoved => exact .of_runSide hmoved.only
    | replayed => exact refl_of AccountClosing _
  · exact .of_runSide rfl

theorem keptByClosing_closing : KeptByClosing (max 0) KeepsClosing where
  accountSettle account operation value source date db m db' h hs := by
    refine ⟨AccountBudget.settleInUow_recorded _ _ _ _ _ _ _ h hs, ?_⟩
    have hdays := AccountBudget.settleInUow_days _ _ _ _ _ _ h
    obtain ⟨_, _, _, _, _, _, hdone⟩ := AccountBudget.settleInUow_ok h
    cases hdone with
    | settled hrow hstate hdone => exact hdone.closing hdays hrow hstate rfl rfl
    | replayed => exact refl_of AccountClosing _
  accountRelease account operation date db m db' h hs := by
    refine ⟨AccountBudget.releaseInUow_recorded _ _ _ _ _ h hs, ?_⟩
    have hdays := AccountBudget.releaseInUow_days _ _ _ _ h
    obtain ⟨_, _, hdone⟩ := AccountBudget.releaseInUow_ok h
    cases hdone with
    | released hrow hstate hdone => exact hdone.closing hdays hrow hstate rfl rfl
    | replayed => exact refl_of AccountClosing _
  runSettle run operation values source db m db' h hs := by
    obtain ⟨hs', _, _, _, _, heffect⟩ := RunBudget.settleInUow_effect RunBudget.clampsNegative_max hs h
    refine ⟨hs', ?_⟩
    cases heffect with
    | settled _ _ _ _ hmoved => exact .of_runSide hmoved.only
    | replayed => exact refl_of AccountClosing _
  runRelease run operation db m db' h hs := by
    obtain ⟨hs', heffect⟩ := RunBudget.releaseInUow_effect RunBudget.clampsNegative_max hs h
    refine ⟨hs', ?_⟩
    cases heffect with
    | released _ _ _ hmoved => exact .of_runSide hmoved.only
    | replayed => exact refl_of AccountClosing _
  setTerminal run status := by
    refine Tx.Keeps.update fun db hs => ⟨?_, .of_same rfl rfl, fun _ h => h, rfl, rfl, ?_⟩
    · have hkeeps : Tx.Keeps KeepsRecorded (setTerminal run status) := setTerminal_recorded status
      exact hkeeps db () _ rfl hs
    · exact keepsRuns_withStatus status db.authority

end account

end HpAgent.Budget
