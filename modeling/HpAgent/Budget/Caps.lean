import HpAgent.Budget.LimitRuns
import HpAgent.Budget.Refusals

/-! # The caps of enforced budgets

The cells of the last module, over whole histories: a budget starts empty below every cap, a first reservation
checks the cap before it charges, and nothing else charges more.

* `chatLimits_provisioned`, `workRunLimits_provisioned`, `defaultLimits_provisioned`: what the creators of budgets
  provide.
* `UsageStep.runCapped`, `UsageReachable.runCapped`: the counters of an enforced Run.
* `UsageStep.workCapped`, `UsageReachable.workCapped`: the counters of a Work.
* `enforced_cap`: the caps, and the room kept for the final response. -/

namespace HpAgent.Budget

open Library
open WorkBudget (meteredOn)

/-! ### The creators of budgets -/

/-- The limits `ChatService` gives a Run; its reserve is 1024. -/
def chatLimits : Dict ℤ
  | .modelInputTokens => some 80000
  | .modelOutputTokens => some 20000
  | .modelTotalTokens => some 100000
  | .modelCalls => some 20
  | .toolCalls => some 20
  | .bytesScanned => some (512 * 1024 * 1024)
  | .bytesReturnedToModel => some (2 * 1024 * 1024)
  | .bytesWritten => some (512 * 1024 * 1024)
  | .outputFileBytes => some (128 * 1024 * 1024)
  | .wallTimeMs => some 600000
  | .sourcesDiscovered => some 30
  | .sourceFetches => some 20
  | .researchIterations => some 3

/-- `build_work_budget_limits`: the limits of a Work Run; its reserve is 0. -/
def workRunLimits (strategy executor : String) : Dict ℤ :=
  let research := executor = "research_report"
  let model := strategy = "generic_agent" ∨ strategy = "fixed_workflow"
  fun
  | .modelInputTokens => if research ∨ model then some 80000 else none
  | .modelOutputTokens => if research ∨ model then some 20000 else none
  | .modelTotalTokens => if research ∨ model then some 100000 else none
  | .modelCalls => if research then some 20 else if model then some 40 else none
  | .toolCalls => some 40
  | .bytesScanned => if model then some (1024 * 1024 * 1024) else none
  | .bytesReturnedToModel => if model then some (2 * 1024 * 1024) else none
  | .bytesWritten => if model then some (256 * 1024 * 1024) else none
  | .outputFileBytes => if model then some (256 * 1024 * 1024) else none
  | .wallTimeMs => if research then some 1800000 else some 600000
  | .sourcesDiscovered => some 30
  | .sourceFetches => some 20
  | .researchIterations => some 3

/-- `DEFAULT_LIMITS` of a Work. -/
def defaultLimits : Dict ℤ
  | .modelInputTokens => some 800000
  | .modelOutputTokens => some 200000
  | .modelTotalTokens => some 1000000
  | .modelCalls => some 400
  | .toolCalls => some 400
  | .sourcesDiscovered => some 300
  | .sourceFetches => some 200
  | .researchIterations => some 30
  | .bytesScanned => some 1000000000
  | .bytesReturnedToModel => some 10000000
  | .bytesWritten => some (512 * 1024 * 1024)
  | .outputFileBytes => some (512 * 1024 * 1024)
  | .wallTimeMs => some 18000000

theorem chatLimits_provisioned : Provisioned chatLimits 1024 := by
  refine ⟨fun d l hl => ?_, fun l hl => ?_, fun l hl => ?_⟩
  · cases d <;> (obtain rfl := Option.some.inj hl; decide)
  · obtain rfl := Option.some.inj hl
    decide
  · obtain rfl := Option.some.inj hl
    decide

theorem workRunLimits_provisioned (strategy executor : String) : Provisioned (workRunLimits strategy executor) 0 := by
  have hnonneg : ∀ d l, workRunLimits strategy executor d = some l → 0 ≤ l := by
    intro d l hl
    unfold workRunLimits at hl
    cases d <;> dsimp only at hl <;> (try split_ifs at hl) <;> (obtain rfl := Option.some.inj hl; decide)
  exact ⟨hnonneg, hnonneg _, hnonneg _⟩

theorem defaultLimits_provisioned : Provisioned defaultLimits 0 := by
  have hnonneg : ∀ d l, defaultLimits d = some l → 0 ≤ l := by
    intro d l hl
    cases d <;> (obtain rfl := Option.some.inj hl; decide)
  exact ⟨hnonneg, hnonneg _, hnonneg _⟩

/-! ### Budgets from step to step -/

section steps

variable {allowed : UsageCall → Ledgers → Prop} {db db' : Ledgers} {run account work : Uuid}

/-- What a step does to the budgets and their rows. -/
inductive BudgetsMoved (allowed : UsageCall → Ledgers → Prop) (db db' : Ledgers) : Prop
  | called (c : UsageCall) (hallowed : allowed c db) (hterms : SameTerms db db') (u : Unit)
      (hrun : c.command.run db = .ok (u, db'))
  | same (hrun : db'.runBudgets = db.runBudgets) (hwork : db'.workBudgets = db.workBudgets)
  | createdRun (run : Uuid) (mode : BudgetMode) (limits : Dict ℤ) (reserve : ℕ) (hprovisioned : Provisioned limits reserve)
      (hrun : db'.runBudgets = db.runBudgets.insert run ⟨mode, .ok, limits, Dict.empty, Dict.empty, reserve⟩)
      (hwork : db'.workBudgets = db.workBudgets)
  | createdWork (account work : Uuid) (limits : Dict ℤ) (hprovisioned : Provisioned limits 0)
      (hrun : db'.runBudgets = db.runBudgets)
      (hwork : db'.workBudgets = db.workBudgets.insert (account, work) ⟨limits, Dict.empty, Dict.empty, 1⟩)
  | adjusted (account work : Uuid) (b : WorkBudget) (limits : Dict ℕ)
      (hb : db.workBudgets.lookup (account, work) = some b) (hincreases : b.increases limits = true)
      (hrun : db'.runBudgets = db.runBudgets)
      (hwork : db'.workBudgets
        = db.workBudgets.insert (account, work) ⟨b.merged limits, b.used, b.reserved, b.version + 1⟩)

theorem UsageStep.budgetsMoved (h : UsageStep allowed db db') : BudgetsMoved allowed db db' := by
  have hrule : ∀ {α : Type} {m : BudgetTx α},
      (∀ a s', m.run db = .ok (a, s') → BudgetsMoved allowed db s') → BudgetsMoved allowed db (m.commit db) :=
    fun h => Tx.commit_rule _ (.same rfl rfl) h
  cases h with
  | call c _ hallowed =>
      exact hrule fun u s' h => .called c hallowed (c.command_keeps (keptByServices_terms _) db u s' h) u h
  | freeze caller fresh account run operation digest version hown =>
      refine hrule fun _ s' h => ?_
      obtain ⟨_, ⟨rfl, _⟩ | ⟨_, _, _, rfl⟩⟩ := Snapshots.freeze_ok h
      · exact .same rfl rfl
      · exact .same rfl rfl
  | markDispatched caller account id =>
      refine hrule fun _ s' h => ?_
      obtain ⟨_, _, _, _, _, _, _, _, _, rfl⟩ := Snapshots.markDispatched_ok h
      exact .same rfl rfl
  | createRunBudget run mode limits reserve hrun hprovisioned =>
      refine hrule fun _ s' h => ?_
      unfold RunBudget.createSnapshot at h
      rw [Tx.bind_query_ok, Tx.bind_check_ok] at h
      obtain rfl := Tx.update_ok.mp h.2
      exact .createdRun run mode limits reserve hprovisioned rfl rfl
  | createWorkBudget account work limits hprovisioned =>
      refine hrule fun _ s' h => ?_
      unfold WorkBudget.create at h
      rw [Tx.bind_query_ok, Tx.bind_check_ok] at h
      obtain rfl := Tx.update_ok.mp h.2
      exact .createdWork account work limits hprovisioned rfl rfl
  | adjustWorkBudget account work budgetVersion values =>
      refine hrule fun _ s' h => ?_
      obtain ⟨b, limits, hb, hincreases, rfl⟩ := WorkBudget.adjust_ok h
      exact .adjusted account work b limits hb hincreases rfl rfl
  | surroundings authority invocations hruns => exact .same rfl rfl

/-- The budgets have the terms their creators provide. -/
structure BudgetsProvisioned (db : Ledgers) : Prop where
  run : ∀ c b, db.runBudgets.lookup c = some b → Provisioned b.limits b.finalResponseReserveTokens
  work : ∀ c b, db.workBudgets.lookup c = some b → ∀ d l, b.limits d = some l → 0 ≤ l

theorem SameTerms.runTerms (h : SameTerms db db') {b' : RunBudget} (hb' : db'.runBudgets.lookup run = some b') :
    ∃ b, db.runBudgets.lookup run = some b ∧ b.mode = b'.mode ∧ b.limits = b'.limits ∧
      b.finalResponseReserveTokens = b'.finalResponseReserveTokens := by
  have hterms := h.run run
  rw [hb', Option.map_some] at hterms
  obtain ⟨b, hb, hsame⟩ := Option.map_eq_some_iff.mp hterms.symm
  obtain ⟨hmode, hrest⟩ := Prod.mk.inj hsame
  obtain ⟨hlimits, hreserve⟩ := Prod.mk.inj hrest
  exact ⟨b, hb, hmode, hlimits, hreserve⟩

theorem SameTerms.workTerms (h : SameTerms db db') {c : Uuid × Uuid} {w' : WorkBudget}
    (hw' : db'.workBudgets.lookup c = some w') : ∃ w, db.workBudgets.lookup c = some w ∧ w.limits = w'.limits := by
  have hterms := h.work c
  rw [hw', Option.map_some] at hterms
  exact Option.map_eq_some_iff.mp hterms.symm

/-- An adjustment lowers no limit. -/
theorem WorkBudget.merged_increases {b : WorkBudget} {limits : Dict ℕ} (h : b.increases limits = true) {d : Dimension}
    {l : ℤ} (hl : b.merged limits d = some l) : ∃ old, b.limits d = some old ∧ old ≤ l := by
  unfold WorkBudget.merged at hl
  cases hn : limits d with
  | none =>
      rw [hn] at hl
      exact ⟨l, hl, le_refl l⟩
  | some n =>
      rw [hn] at hl
      obtain rfl := Option.some.inj hl
      exact of_decide_eq_true h d n hn

theorem BudgetsMoved.provisioned (h : BudgetsMoved allowed db db') (hp : BudgetsProvisioned db) :
    BudgetsProvisioned db' := by
  cases h with
  | called c _ hterms _ _ =>
      refine ⟨fun run b' hb' => ?_, fun c w' hw' => ?_⟩
      · obtain ⟨b, hb, _, hlimits, hreserve⟩ := hterms.runTerms hb'
        rw [← hlimits, ← hreserve]
        exact hp.run run b hb
      · obtain ⟨w, hw, hlimits⟩ := hterms.workTerms hw'
        rw [← hlimits]
        exact hp.work c w hw
  | same hrun hwork =>
      refine ⟨?_, ?_⟩
      · rw [hrun]
        exact hp.run
      · rw [hwork]
        exact hp.work
  | createdRun run mode limits reserve hprovisioned hrun hwork =>
      refine ⟨fun c b hb => ?_, ?_⟩
      · rw [hrun, Table.lookup_insert_ite] at hb
        split at hb
        · obtain rfl := Option.some.inj hb
          exact hprovisioned
        · exact hp.run c b hb
      · rw [hwork]
        exact hp.work
  | createdWork account work limits hprovisioned hrun hwork =>
      refine ⟨?_, fun c w hw => ?_⟩
      · rw [hrun]
        exact hp.run
      · rw [hwork, Table.lookup_insert_ite] at hw
        split at hw
        · obtain rfl := Option.some.inj hw
          exact hprovisioned.nonneg
        · exact hp.work c w hw
  | adjusted account work b limits hb hincreases hrun hwork =>
      refine ⟨?_, fun c w hw d l hl => ?_⟩
      · rw [hrun]
        exact hp.run
      · rw [hwork, Table.lookup_insert_ite] at hw
        split at hw
        · obtain rfl := Option.some.inj hw
          obtain ⟨old, hold, hle⟩ := WorkBudget.merged_increases hincreases hl
          exact le_trans (hp.work _ b hb d old hold) hle
        · exact hp.work c w hw d l hl

theorem provisioned_start (authority : Authority) : BudgetsProvisioned (Ledgers.start authority) := by
  refine ⟨fun c b hb => ?_, fun c b hb => ?_⟩
  · cases hb
  · cases hb

theorem UsageReachable.provisioned {authority : Authority} (h : UsageReachable allowed authority db) :
    BudgetsProvisioned db := by
  induction h with
  | refl => exact provisioned_start authority
  | tail _ hstep ih => exact hstep.budgetsMoved.provisioned ih

end steps

/-! ### The Works of the Runs -/

section works

variable {db db' : Ledgers} {run : Uuid} {operation : String}

/-- Recorded ledgers stay recorded, and every Run stays on its Work. -/
def KeepsWorks (db db' : Ledgers) : Prop :=
  Recorded db → Recorded db' ∧ ∀ run, meteredOn db'.authority run = meteredOn db.authority run

instance : IsPreorder Ledgers KeepsWorks where
  refl _ hs := ⟨hs, fun _ => rfl⟩
  trans _ _ _ h₁ h₂ hs := by
    obtain ⟨hs₁, hsame₁⟩ := h₁ hs
    obtain ⟨hs₂, hsame₂⟩ := h₂ hs₁
    exact ⟨hs₂, fun run => (hsame₂ run).trans (hsame₁ run)⟩

/-- A command that keeps the Runs as they are. -/
theorem KeepsWorks.of_authority (hrecorded : KeepsRecorded db db')
    (hauthority : Recorded db → db'.authority = db.authority) : KeepsWorks db db' := by
  intro hs
  refine ⟨hrecorded hs, fun run => ?_⟩
  rw [hauthority hs]

theorem keptByServices_works : KeptByServices (max 0) KeepsWorks where
  accountReserve account operation value o now db m db' h := by
    refine .of_authority (AccountBudget.reserveInUow_recorded _ _ _ _ _ _ _ h) fun _ => ?_
    rw [AccountBudget.reserveInUow_runRows h]
  accountSettle account operation value source date db m db' h := by
    refine .of_authority (AccountBudget.settleInUow_recorded _ _ _ _ _ _ _ h) fun _ => ?_
    rw [AccountBudget.settleInUow_runRows h]
  accountRelease account operation date db m db' h := by
    refine .of_authority (AccountBudget.releaseInUow_recorded _ _ _ _ _ h) fun _ => ?_
    rw [AccountBudget.releaseInUow_runRows h]
  runReserve caller run operation values finalResponse enforceLimits deferExhaustion db r db' h := by
    refine .of_authority (RunBudget.reserveInUow_recorded _ _ _ _ _ _ _ _ h) fun hs => ?_
    rcases (RunBudget.reserveInUow_effect hs h).2 with ⟨m, requested, _, _, heffect⟩ | ⟨_, _, rfl⟩
    · cases heffect with
      | opened _ hmoved => rw [hmoved.only]
      | replayed => rfl
    · rfl
  runSettle run operation values source db m db' h := by
    have hclamp := RunBudget.clampsNegative_max
    refine .of_authority (RunBudget.settleInUow_recorded hclamp _ _ _ _ _ h) fun hs => ?_
    obtain ⟨_, _, _, _, _, heffect⟩ := RunBudget.settleInUow_effect hclamp hs h
    cases heffect with
    | replayed => rfl
    | settled _ _ _ _ hmoved => rw [hmoved.only]
  runRelease run operation db m db' h := by
    have hclamp := RunBudget.clampsNegative_max
    refine .of_authority (RunBudget.releaseInUow_recorded hclamp _ _ _ h) fun hs => ?_
    obtain ⟨_, heffect⟩ := RunBudget.releaseInUow_effect hclamp hs h
    cases heffect with
    | replayed => rfl
    | released _ _ _ hmoved => rw [hmoved.only]
  setTerminal run status := by
    refine Tx.Keeps.update fun db hs => ⟨?_, fun run' => ?_⟩
    · have hkeeps : Tx.Keeps KeepsRecorded (setTerminal run status) := setTerminal_recorded status
      exact hkeeps db () _ rfl hs
    · show meteredOn { db.authority with runs := withStatus run status db.authority.runs } run' = _
      unfold meteredOn withStatus
      dsimp only
      split
      · cases db.authority.runs run' <;> rfl
      · rfl

end works

/-! ### Caps -/

section caps

variable {db db' : Ledgers} {run account work : Uuid} {finalResponse : Bool}

theorem allowance_nonneg (b : RunBudget) (d : Dimension) (l : ℤ) : 0 ≤ allowance b finalResponse d l := le_max_left _ _

/-- A final response may reach whatever another reservation may. -/
theorem allowance_le_final (b : RunBudget) (d : Dimension) (l : ℤ) :
    allowance b finalResponse d l ≤ allowance b true d l := by
  have hprotected : RunBudget.protectedTokens b true d ≤ RunBudget.protectedTokens b finalResponse d := by
    unfold RunBudget.protectedTokens
    simp only [Bool.not_true, Bool.false_and, Bool.false_eq_true, if_false]
    split
    · exact Int.natCast_nonneg _
    · exact le_refl 0
  exact max_le_max (le_refl 0) (Int.sub_le_sub_left hprotected l)

/-- A final response may reach the limit. -/
theorem allowance_final {b : RunBudget} {l : ℤ} (hl : 0 ≤ l) (d : Dimension) : allowance b true d l = l := by
  have hzero : RunBudget.protectedTokens b true d = 0 := rfl
  unfold allowance
  rw [hzero, Int.sub_zero]
  exact max_eq_right hl

/-- The counters of an enforced Run are within what its reservations may reach. -/
def RunCapped (finalResponse : Bool) (run : Uuid) (db : Ledgers) : Prop :=
  ∀ b, db.runBudgets.lookup run = some b → b.mode = .enforce → ∀ d,
    b.used.get d + b.reserved.get d ≤ allowance b finalResponse d ((b.limits d).getD 0)

/-- The counters of a Work are within its limits. -/
def WorkCapped (account work : Uuid) (db : Ledgers) : Prop :=
  ∀ w, db.workBudgets.lookup (account, work) = some w → ∀ d, w.used.get d + w.reserved.get d ≤ (w.limits d).getD 0

/-- Settlements on the Run stay within their reservations, and if `finalResponse` is false no call reserves for its
final response. -/
def Restrained (finalResponse : Bool) (run : Uuid) (c : UsageCall) (db : Ledgers) : Prop :=
  c.Within (· = run) db ∧ (finalResponse = false → c.reserves ≠ some (run, true))

/-- Settlements on the Runs of the Work stay within their reservations. -/
def WorkRestrained (account work : Uuid) (c : UsageCall) (db : Ledgers) : Prop :=
  c.Within (fun run => meteredOn db.authority run = some (account, work)) db

/-- An operation of another Run was opened. -/
theorem Opens.lighter_of_ne {run₀ : Uuid} {operation : String} {requested : Dict ℕ} {p : Uuid → Prop}
    (ho : Opens run₀ operation requested finalResponse db db') (hp : ¬p run₀) : Lighter p db db' := by
  intro k hk
  have hle := ho.charge_le k
  rw [if_neg, add_zero] at hle
  · exact hle
  · rintro ⟨hrun, _⟩
    rw [hrun] at hk
    exact hp hk

/-- **A call keeps the cap of an enforced Run.** -/
theorem UsageCall.runCapped (c : UsageCall) (hs : Recorded db) (hs' : Recorded db') (hterms : SameTerms db db')
    {u : Unit} (h : c.command.run db = .ok (u, db')) (hrestrained : Restrained finalResponse run c db)
    (hc : RunCapped finalResponse run db) : RunCapped finalResponse run db' := by
  intro b' hb' hmode d
  obtain ⟨b, hb, hmode', hlimits, hreserve⟩ := hterms.runTerms hb'
  have hallowance : ∀ f l, allowance b' f d l = allowance b f d l := by
    intro f l
    unfold allowance RunBudget.protectedTokens
    rw [hreserve]
  rw [hallowance, ← hlimits]
  have hcap := hc b hb (hmode'.trans hmode) d
  have hlighter : Lighter (· = run) db db' → b'.used.get d + b'.reserved.get d
      ≤ allowance b finalResponse d ((b.limits d).getD 0) :=
    fun hl => le_trans (hl.run_le hs hs' hb hb' d) hcap
  rcases c.charge hs h hrestrained.1 with hl | ⟨run₀, operation, requested, f, hreserves, ho⟩
  · exact hlighter hl
  · by_cases hrun : run₀ = run
    · subst hrun
      have hle := ho.run_le hs hs' hb hb' d
      cases hn : requested d with
      | none =>
          rw [hn] at hle
          simp only [Option.getD_none, Nat.cast_zero, add_zero] at hle
          exact le_trans hle hcap
      | some n =>
          rw [hn, Option.getD_some] at hle
          obtain ⟨l, hl, hfits⟩ := ho.runFits b hb (hmode'.trans hmode) d n hn
          rw [hl, Option.getD_some]
          refine le_trans hle (le_trans hfits ?_)
          cases finalResponse with
          | true => exact allowance_le_final b d l
          | false =>
              cases f with
              | true => exact absurd hreserves (hrestrained.2 rfl)
              | false => exact le_refl _
    · exact hlighter (ho.lighter_of_ne hrun)

/-- **One step keeps the cap of an enforced Run.** -/
theorem UsageStep.runCapped (h : UsageStep (Restrained finalResponse run) db db') (hs : Recorded db)
    (hc : RunCapped finalResponse run db) : RunCapped finalResponse run db' := by
  have hs' := h.recorded hs
  cases h.budgetsMoved with
  | called c hrestrained hterms u hrun => exact c.runCapped hs hs' hterms hrun hrestrained hc
  | same hrun _ =>
      intro b hb
      rw [hrun] at hb
      exact hc b hb
  | createdRun run' mode limits reserve _ hrun _ =>
      intro b hb hmode d
      rw [hrun, Table.lookup_insert_ite] at hb
      split at hb
      · obtain rfl := Option.some.inj hb
        exact allowance_nonneg _ _ _
      · exact hc b hb hmode d
  | createdWork account work limits _ hrun _ =>
      intro b hb
      rw [hrun] at hb
      exact hc b hb
  | adjusted account work w limits _ _ hrun _ =>
      intro b hb
      rw [hrun] at hb
      exact hc b hb

/-- **Every history keeps the cap of an enforced Run.** -/
theorem UsageReachable.runCapped {authority : Authority}
    (h : UsageReachable (Restrained finalResponse run) authority db) : RunCapped finalResponse run db := by
  induction h with
  | refl => exact fun _ hb => nomatch hb
  | tail hreach hstep ih => exact hstep.runCapped (UsageReachable.recorded hreach) ih

/-- **A call keeps the limits of a Work.** -/
theorem UsageCall.workCapped (c : UsageCall) (hs : Recorded db) (hterms : SameTerms db db') {u : Unit}
    (h : c.command.run db = .ok (u, db')) (hrestrained : WorkRestrained account work c db)
    (hc : WorkCapped account work db) : WorkCapped account work db' := by
  intro w' hw' d
  obtain ⟨hs', hauthority⟩ := c.command_keeps keptByServices_works db u db' h hs
  obtain ⟨w, hw, hlimits⟩ := hterms.workTerms hw'
  rw [← hlimits]
  have hcap := hc w hw d
  rcases c.charge hs h hrestrained with hl | ⟨run, operation, requested, f, _, ho⟩
  · exact le_trans (hl.work_le hs hs' hauthority hw hw' d) hcap
  · by_cases hmetered : meteredOn db.authority run = some (account, work)
    · have hle := ho.work_le hs hs' hauthority hw hw' d
      cases hn : requested d with
      | none =>
          rw [hn] at hle
          simp only [Option.getD_none, Nat.cast_zero, add_zero] at hle
          exact le_trans hle hcap
      | some n =>
          rw [hn, Option.getD_some] at hle
          obtain ⟨l, hl, hfits⟩ := ho.workFits account work w hmetered hw d n hn
          rw [hl, Option.getD_some]
          exact le_trans hle hfits
    · exact le_trans ((ho.lighter_of_ne hmetered).work_le hs hs' hauthority hw hw' d) hcap

/-- **One step keeps the limits of a Work.** -/
theorem UsageStep.workCapped (h : UsageStep (WorkRestrained account work) db db') (hs : Recorded db)
    (hc : WorkCapped account work db) : WorkCapped account work db' := by
  cases h.budgetsMoved with
  | called c hrestrained hterms u hrun => exact c.workCapped hs hterms hrun hrestrained hc
  | same _ hwork =>
      intro w hw
      rw [hwork] at hw
      exact hc w hw
  | createdRun run mode limits reserve _ _ hwork =>
      intro w hw
      rw [hwork] at hw
      exact hc w hw
  | createdWork account' work' limits hprovisioned _ hwork =>
      intro w hw d
      rw [hwork, Table.lookup_insert_ite] at hw
      split at hw
      · obtain rfl := Option.some.inj hw
        show 0 ≤ (limits d).getD 0
        cases hl : limits d with
        | none => exact le_refl 0
        | some l => exact hprovisioned.nonneg d l hl
      · exact hc w hw d
  | adjusted account' work' b limits hb hincreases _ hwork =>
      intro w hw d
      rw [hwork, Table.lookup_insert_ite] at hw
      split at hw
      · next hkey =>
          obtain rfl := Option.some.inj hw
          rw [← hkey] at hb
          refine le_trans (hc b hb d) ?_
          cases hl : b.merged limits d with
          | none =>
              have hnone : b.limits d = none := by
                unfold WorkBudget.merged at hl
                cases hn : limits d with
                | none =>
                    rw [hn] at hl
                    exact hl
                | some n =>
                    rw [hn] at hl
                    cases hl
              dsimp only
              rw [hl, hnone]
          | some l =>
              obtain ⟨old, hold, hle⟩ := WorkBudget.merged_increases hincreases hl
              dsimp only
              rw [hl, hold]
              exact hle
      · exact hc w hw d

/-- **Every history keeps the limits of a Work.** -/
theorem UsageReachable.workCapped {authority : Authority}
    (h : UsageReachable (WorkRestrained account work) authority db) : WorkCapped account work db := by
  induction h with
  | refl => exact fun _ hw => nomatch hw
  | tail hreach hstep ih => exact hstep.workCapped (UsageReachable.recorded hreach) ih

end caps

/-! ### Refused reservations -/

/-- What a reservation asks for. -/
def UsageCall.values : UsageCall → List (String × Raw)
  | .model (.reserve _ _ _ _ _ values _ _) => values.items
  | .reserve _ _ _ values _ _ _ => values.items
  | _ => []

/-- The reservation is refused because its Run is exhausted, at once or after the transaction. -/
def UsageCall.Exhausted (db : Ledgers) (message : String) : UsageCall → Prop
  | .model (.reserve caller account run operation total values finalResponse o) =>
    (Coordinator.reserve caller account run operation total values.items finalResponse o).run db
      = .error (.runBudgetExhausted message)
  | .reserve caller run operation values finalResponse enforceLimits deferExhaustion =>
    (RunBudget.reserveInUow caller run operation values.items finalResponse enforceLimits deferExhaustion).run db
        = .error (.runBudgetExhausted message) ∨
      ∃ db', (RunBudget.reserveInUow caller run operation values.items finalResponse enforceLimits deferExhaustion).run db
        = .ok (.inr (.runBudgetExhausted message), db')
  | _ => False

section refused

variable {db : Ledgers} {run : Uuid} {b : RunBudget}

/-- A refusal names exactly the dimensions that do not fit the allowance. -/
theorem UsageCall.exhausted_names {c : UsageCall} {finalResponse : Bool} {message : String} {requested : Dict ℕ}
    (hc : c.reserves = some (run, finalResponse)) (hvalues : amounts c.values = .ok requested)
    (hb : db.runBudgets.lookup run = some b) (h : c.Exhausted db message) :
    ∃ exceeded, message = RunBudget.exhaustedText exceeded ∧
      ∀ d, d ∈ exceeded ↔ ∃ n l, requested d = some n ∧ b.limits d = some l ∧
        allowance b finalResponse d l < b.used.get d + b.reserved.get d + n := by
  have hnames : ∀ {exceeded}, RunBudget.exceededDimensions b finalResponse requested = .ok exceeded →
      message = RunBudget.exhaustedText exceeded → ∃ exceeded, message = RunBudget.exhaustedText exceeded ∧
        ∀ d, d ∈ exceeded ↔ ∃ n l, requested d = some n ∧ b.limits d = some l ∧
          allowance b finalResponse d l < b.used.get d + b.reserved.get d + n :=
    fun hexceeded hmessage => ⟨_, hmessage, (exceededDimensions_ok hexceeded).2⟩
  cases c with
  | model c =>
      cases c with
      | reserve caller account run' operation total values f o =>
          obtain ⟨rfl, rfl⟩ := Prod.mk.inj (Option.some.inj hc)
          rcases Coordinator.reserve_exhausted h with hother | ⟨day, m, s, haccount, hrun⟩
          · exact absurd rfl (hother message)
          · have hvalues' : amounts values.items = .ok requested := hvalues
            have hb₁ : s.runBudgets.lookup run' = some b := by
              rw [AccountBudget.reserveInUow_runRows haccount]
              exact hb
            obtain ⟨exceeded, hexceeded, hmessage⟩ := RunBudget.reserveInUow_exhausted hvalues' hb₁ hrun
            exact hnames hexceeded hmessage
      | settle => cases hc
      | release => cases hc
      | recover => cases hc
  | reserve caller run' operation values f enforceLimits deferExhaustion =>
      obtain ⟨rfl, rfl⟩ := Prod.mk.inj (Option.some.inj hc)
      obtain ⟨exceeded, hexceeded, hmessage⟩ := RunBudget.reserveInUow_exhausted hvalues hb h
      exact hnames hexceeded hmessage
  | settle => cases hc
  | release => cases hc
  | finish => cases hc

theorem UsageCall.within_of_reserves {c : UsageCall} {r : Uuid × Bool} (hc : c.reserves = some r) (p : Uuid → Prop) :
    c.Within p db := by
  cases c with
  | model c =>
      cases c with
      | settle => cases hc
      | reserve => trivial
      | release => trivial
      | recover => trivial
  | settle => cases hc
  | reserve => trivial
  | release => trivial
  | finish => trivial

/-- A reservation takes the counters of an enforced Run no higher than they were or than it may reach. -/
theorem UsageCall.reserve_le {c : UsageCall} {finalResponse : Bool} (hs : Recorded db)
    (hc : c.reserves = some (run, finalResponse)) (hb : db.runBudgets.lookup run = some b) (hmode : b.mode = .enforce)
    {b' : RunBudget} (hb' : (c.command.commit db).runBudgets.lookup run = some b') (d : Dimension) {l : ℤ}
    (hl : b.limits d = some l) :
    b'.used.get d + b'.reserved.get d ≤ max (b.used.get d + b.reserved.get d) (allowance b finalResponse d l) := by
  have hsame : b'.used.get d + b'.reserved.get d ≤ b.used.get d + b.reserved.get d →
      b'.used.get d + b'.reserved.get d ≤ max (b.used.get d + b.reserved.get d) (allowance b finalResponse d l) :=
    fun h => le_trans h (le_max_left _ _)
  refine Tx.commit_rule (fun db' : Ledgers => db'.runBudgets.lookup run = some b' → b'.used.get d + b'.reserved.get d
    ≤ max (b.used.get d + b.reserved.get d) (allowance b finalResponse d l)) (fun hb' => ?_) (fun u db' h hb' => ?_) hb'
  · obtain rfl := Option.some.inj (hb.symm.trans hb')
    exact hsame (le_refl _)
  · have hs' := (c.command_keeps (keptByServices_recorded RunBudget.clampsNegative_max)) db u db' h hs
    rcases c.charge hs h (UsageCall.within_of_reserves hc (· = run)) with hl' | ⟨run₀, operation, requested, f, hreserves, ho⟩
    · exact hsame (hl'.run_le hs hs' hb hb' d)
    · obtain ⟨rfl, rfl⟩ := Prod.mk.inj (Option.some.inj (hreserves.symm.trans hc))
      have hle := ho.run_le hs hs' hb hb' d
      cases hn : requested d with
      | none =>
          rw [hn] at hle
          simp only [Option.getD_none, Nat.cast_zero, add_zero] at hle
          exact hsame hle
      | some n =>
          rw [hn, Option.getD_some] at hle
          obtain ⟨l', hl', hfits⟩ := ho.runFits b hb hmode d n hn
          obtain rfl := Option.some.inj (hl.symm.trans hl')
          exact le_trans (le_trans hle hfits) (le_max_right _ _)

end refused

/-- The dimensions that keep room for the final response. -/
def ProtectedDimension (d : Dimension) : Prop := d = .modelOutputTokens ∨ d = .modelTotalTokens

theorem allowance_protected {b : RunBudget} {d : Dimension} (hd : ProtectedDimension d) (l : ℤ) :
    allowance b false d l = max 0 (l - b.finalResponseReserveTokens) := by
  rcases hd with rfl | rfl <;> rfl

/-- **Enforced caps.** In every history whose settlements stay within their reservations, an enforced Run and every
Work stay within their limits; a reservation that is not final takes no protected dimension above what the reserve
leaves; and as long as no reservation was final, a final one that fits in the reserve is not refused because of
them. -/
theorem enforced_cap (authority : Authority) :
    (∀ db run b, UsageReachable (Restrained true run) authority db → db.runBudgets.lookup run = some b →
      b.mode = .enforce → ∀ d l, b.limits d = some l → b.used.get d + b.reserved.get d ≤ l) ∧
    (∀ db run b, UsageReachable (Restrained true run) authority db → db.runBudgets.lookup run = some b →
      b.mode = .enforce → ∀ c : UsageCall, c.reserves = some (run, false) →
      ∀ b', (c.command.commit db).runBudgets.lookup run = some b' → ∀ d, ProtectedDimension d → ∀ l, b.limits d = some l →
        b'.used.get d + b'.reserved.get d
          ≤ max (b.used.get d + b.reserved.get d) (max 0 (l - b.finalResponseReserveTokens))) ∧
    (∀ db run b, UsageReachable (Restrained false run) authority db → db.runBudgets.lookup run = some b →
      b.mode = .enforce → ∀ c : UsageCall, c.reserves = some (run, true) → ∀ requested, amounts c.values = .ok requested →
      (∀ d, ProtectedDimension d → (requested d).getD 0 ≤ b.finalResponseReserveTokens) →
      ∀ message, c.Exhausted db message → ∃ exceeded, message = RunBudget.exhaustedText exceeded ∧
        ∀ d ∈ exceeded, ¬ProtectedDimension d) ∧
    (∀ db account work w, UsageReachable (WorkRestrained account work) authority db →
      db.workBudgets.lookup (account, work) = some w → ∀ d l, w.limits d = some l → w.used.get d + w.reserved.get d ≤ l) := by
  refine ⟨fun db run b hreach hb hmode d l hl => ?_, fun db run b hreach hb hmode c hc b' hb' d hd l hl => ?_,
    fun db run b hreach hb hmode c hc requested hvalues hfits message h => ?_, fun db account work w hreach hw d l hl => ?_⟩
  · have hcap := hreach.runCapped b hb hmode d
    rw [hl, Option.getD_some, allowance_final ((hreach.provisioned.run run b hb).nonneg d l hl)] at hcap
    exact hcap
  · rw [← allowance_protected hd]
    exact UsageCall.reserve_le hreach.recorded hc hb hmode hb' d hl
  · obtain ⟨exceeded, hmessage, hmem⟩ := UsageCall.exhausted_names hc hvalues hb h
    refine ⟨exceeded, hmessage, fun d hd hprotected => ?_⟩
    obtain ⟨n, l, hn, hl, hover⟩ := (hmem d).mp hd
    have hprovisioned := hreach.provisioned.run run b hb
    have hcap := hreach.runCapped b hb hmode d
    have hrequest := hfits d hprotected
    have hroom : (b.finalResponseReserveTokens : ℤ) ≤ l := by
      rcases hprotected with rfl | rfl
      · exact hprovisioned.output l hl
      · exact hprovisioned.total l hl
    rw [hl, Option.getD_some, allowance_protected hprotected, max_eq_right (by omega)] at hcap
    rw [allowance_final (hprovisioned.nonneg d l hl)] at hover
    rw [hn, Option.getD_some] at hrequest
    omega
  · have hcap := hreach.workCapped w hw d
    rw [hl, Option.getD_some] at hcap
    exact hcap

/-! ### A Run at its cap -/

/-- A chat Run whose draft has used all the output and total tokens the reserve leaves. -/
def draftCall : UsageCall :=
  .reserve ⟨none, 0⟩ 7 "model:1" ⟨[("model_output_tokens", .int 18976), ("model_total_tokens", .int 98976)], by simp⟩
    false false true

def chatBudget : Ledgers := (RunBudget.createSnapshot 7 .enforce chatLimits 1024).commit (Ledgers.start soloAuthority)

def drafted : Ledgers := draftCall.command.commit chatBudget

def answerCall : UsageCall :=
  .reserve ⟨none, 0⟩ 7 "model:2" ⟨[("model_output_tokens", .int 1024), ("model_total_tokens", .int 1024)], by simp⟩
    true false true

theorem reachable_drafted : UsageReachable (Restrained false 7) soloAuthority drafted := by
  have hbudget : UsageReachable (Restrained false 7) soloAuthority chatBudget :=
    Relation.ReflTransGen.refl.tail (.createRunBudget 7 .enforce chatLimits 1024 rfl chatLimits_provisioned)
  exact hbudget.tail (.call draftCall trivial ⟨trivial, fun _ => by decide⟩)

/-- No room is left for a draft, and the final answer is not refused. -/
theorem enforced_cap_drafted :
    (drafted.runBudgets.lookup 7).map (fun b => b.used.get .modelOutputTokens + b.reserved.get .modelOutputTokens)
        = some 18976 ∧
      ∀ message, answerCall.Exhausted drafted message → ∃ exceeded, message = RunBudget.exhaustedText exceeded ∧
        ∀ d ∈ exceeded, ¬ProtectedDimension d := by
  refine ⟨by decide +kernel, fun message h => ?_⟩
  have hb : ∃ b, drafted.runBudgets.lookup 7 = some b ∧ b.mode = .enforce ∧ b.finalResponseReserveTokens = 1024 := by
    refine ⟨(drafted.runBudgets.lookup 7).get (by decide +kernel), (Option.some_get _).symm, ?_, ?_⟩ <;> decide +kernel
  obtain ⟨b, hb, hmode, hreserve⟩ := hb
  have hvalues : amounts answerCall.values
      = .ok ((Dict.empty.set .modelOutputTokens 1024).set .modelTotalTokens 1024) := rfl
  refine (enforced_cap soloAuthority).2.2.1 drafted 7 b reachable_drafted hb hmode answerCall rfl _ hvalues
    (fun d hd => ?_) message h
  rw [hreserve]
  rcases hd with rfl | rfl <;> decide

end HpAgent.Budget
