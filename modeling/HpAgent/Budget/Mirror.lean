import HpAgent.Budget.ModelHolds

/-! # The Work ledger as a mirror of the Run ledgers

Every Run call meters the Work first and the Run second, each half with its own replay detection.
`Mirrored db` says that the Work rows of an operation are the images of its Run rows; under it the two
halves of a call always agree on whether they replay:

* `Mirrored.reserve`, `Mirrored.settle`, `Mirrored.release`: a successful call either rewrote the rows of
  its operation in both ledgers (`Moved`), or it was a replay and changed nothing at all. -/

namespace HpAgent.Budget

open Library
open WorkBudget (meteredOn)

/-! ### Images of Run rows -/

/-- The Work row that goes with a Run row. -/
def RunUsage.onWork (r : RunUsage) : WorkUsage := ⟨r.state, r.reservedAmount, r.actualAmount, r.usageSource⟩

/-- The Work rows that go with the Run rows of an operation. -/
def mirror (rs : Dict RunUsage) : Dict WorkUsage := fun d => (rs d).map RunUsage.onWork

section mirror

variable {rs : Dict RunUsage} {s : UsageState}

theorem mirror_empty : mirror Dict.empty = Dict.empty := rfl

theorem mirror_eq_empty : mirror rs = Dict.empty ↔ rs = Dict.empty := by
  constructor
  · intro h
    funext d
    have hd := congrFun h d
    cases hr : rs d with
    | none => rfl
    | some r =>
        unfold mirror at hd
        rw [hr] at hd
        cases hd
  · rintro rfl
    rfl

theorem mirror_opened (values : Dict ℕ) (execution : Option Uuid) :
    mirror (RunBudget.opened values execution) = WorkBudget.opened values := by
  funext d
  unfold mirror RunBudget.opened WorkBudget.opened
  cases values d <;> rfl

theorem mirror_settledRows (actual : Dict ℕ) (source : UsageSource) :
    mirror (RunBudget.settledRows rs actual source)
      = WorkBudget.closedRows (mirror rs) .settled actual (some source) := by
  funext d
  unfold mirror RunBudget.settledRows WorkBudget.closedRows
  dsimp only
  cases rs d <;> rfl

/-- A row that was never settled carries no measurement. -/
def Unmeasured (rs : Dict RunUsage) : Prop :=
  ∀ d r, rs d = some r → r.state ≠ .settled → r.actualAmount = none ∧ r.usageSource = none

theorem mirror_releasedRows (hfresh : Unmeasured rs) (hreserved : ∀ d r, rs d = some r → r.state = .reserved) :
    mirror (RunBudget.releasedRows rs) = WorkBudget.closedRows (mirror rs) .released Dict.empty none := by
  funext d
  unfold mirror RunBudget.releasedRows WorkBudget.closedRows
  dsimp only
  cases hr : rs d with
  | none => rfl
  | some r =>
      have hstate : r.state ≠ .settled := by simp [hreserved d r hr]
      obtain ⟨hactual, hsource⟩ := hfresh d r hr hstate
      simp [RunUsage.onWork, RunUsage.released, WorkUsage.closed, hactual, hsource, Dict.empty]

/-- The images are in a state exactly when the rows are. -/
theorem mirror_state (h : ∀ d r, mirror rs d = some r → r.state = s) : ∀ d r, rs d = some r → r.state = s := by
  intro d r hr
  exact h d r.onWork (by rw [mirror, hr]; rfl)

/-- Rows cannot all be in two states. -/
theorem not_two_states {t : UsageState} (hne : rs ≠ Dict.empty) (hs : ∀ d r, rs d = some r → r.state = s)
    (ht : ∀ d r, rs d = some r → r.state = t) : s = t := by
  by_contra hst
  apply hne
  funext d
  cases hr : rs d with
  | none => rfl
  | some r => exact absurd ((hs d r hr).symm.trans (ht d r hr)) hst

end mirror

/-! ### Mirrored stores -/

/-- The Work rows are the images of the Run rows, and only known Runs have budgets and rows. -/
structure Mirrored (db : Ledgers) : Prop where
  work : ∀ account work run operation, WorkBudget.rows db account work run operation
    = if meteredOn db.authority run = some (account, work) then mirror (RunBudget.rows db run operation)
      else Dict.empty
  known : ∀ run b, db.runBudgets.lookup run = some b → (db.authority.runs run).isSome = true
  backed : ∀ run operation, RunBudget.rows db run operation ≠ Dict.empty → ∃ b, db.runBudgets.lookup run = some b
  fresh : ∀ run operation, Unmeasured (RunBudget.rows db run operation)

/-- The rows of one operation became `rs` in the Run ledger, and nothing but the Run and Work ledgers changed. -/
structure Moved (run : Uuid) (operation : String) (rs : Dict RunUsage) (db db' : Ledgers) : Prop where
  only : db' = { db with runUsage := db'.runUsage, runBudgets := db'.runBudgets,
                         workUsage := db'.workUsage, workBudgets := db'.workBudgets }
  rows_eq : RunBudget.rows db' run operation = rs
  frame : ∀ k : RunUsageKey, k ≠ ⟨run, operation, k.dimension⟩ →
    db'.runUsage.lookup k = db.runUsage.lookup k

section stores

variable {run : Uuid} {operation : String} {rs : Dict RunUsage} {db db₁ db' : Ledgers}

/-- The rows of every operation after the call. -/
theorem Moved.rows_ite (h : Moved run operation rs db db') (run' : Uuid) (operation' : String) :
    RunBudget.rows db' run' operation'
      = if run' = run ∧ operation' = operation then rs else RunBudget.rows db run' operation' := by
  split
  · next hkey => rw [hkey.1, hkey.2, h.rows_eq]
  · next hkey =>
      funext d
      refine h.frame ⟨run', operation', d⟩ fun hk => hkey ?_
      obtain ⟨hr, ho, _⟩ := RunUsageKey.mk.inj hk
      exact ⟨hr, ho⟩

theorem Moved.sameInputs (h : Moved run operation rs db db') : SameInputs db db' := by
  constructor <;> rw [h.only]

theorem Moved.accountUsage (h : Moved run operation rs db db') : db'.accountUsage = db.accountUsage := by
  rw [h.only]

/-- The Work half of a call: nothing for a Run outside any Work, the images of the new rows for the others. -/
def MeteredAs (run : Uuid) (operation : String) (ws : Dict WorkUsage) (db db₁ : Ledgers) : Prop :=
  (meteredOn db.authority run = none ∧ db₁ = db) ∨
    ∃ account work, meteredOn db.authority run = some (account, work) ∧
      WorkBudget.Rewrote account work run operation ws db db₁

theorem MeteredAs.frame {ws : Dict WorkUsage} (h : MeteredAs run operation ws db db₁) :
    db₁ = { db with workUsage := db₁.workUsage, workBudgets := db₁.workBudgets } := by
  rcases h with ⟨_, rfl⟩ | ⟨_, _, _, hrewrote⟩
  · rfl
  · obtain ⟨_, _, _, hdb, _⟩ := hrewrote.budget
    rw [hdb]

/-- The Work rows after the Work half. -/
theorem MeteredAs.rows {ws : Dict WorkUsage} (h : MeteredAs run operation ws db db₁)
    (account work run' : Uuid) (operation' : String) :
    WorkBudget.rows db₁ account work run' operation'
      = if meteredOn db.authority run = some (account, work) ∧ run' = run ∧ operation' = operation then ws
        else WorkBudget.rows db account work run' operation' := by
  rcases h with ⟨hnone, rfl⟩ | ⟨account', work', hm, hrewrote⟩
  · rw [if_neg]
    rintro ⟨hm, _⟩
    rw [hnone] at hm
    cases hm
  · split
    · next hkey =>
        obtain ⟨hm', rfl, rfl⟩ := hkey
        obtain ⟨rfl, rfl⟩ := Prod.mk.inj (Option.some.inj (hm.symm.trans hm'))
        exact hrewrote.rows_eq
    · next hkey =>
        funext d
        refine hrewrote.frame ⟨account, work, run', operation', d⟩ fun hk => hkey ?_
        obtain ⟨ha, hw, hr, ho, _⟩ := WorkUsageKey.mk.inj hk
        exact ⟨by rw [hm, ha, hw], hr, ho⟩

/-- **Rewriting an operation in both ledgers keeps them mirrored.** -/
theorem Mirrored.moved (hm : Mirrored db) (hwork : MeteredAs run operation (mirror rs) db db₁)
    (hrun : RunBudget.Rewrote run operation rs db₁ db') (hfresh : Unmeasured rs) :
    Mirrored db' ∧ Moved run operation rs db db' := by
  obtain ⟨b, b', hb, hdb, _⟩ := hrun.budget
  have hframe := hwork.frame
  have hmoved : Moved run operation rs db db' := by
    refine ⟨?_, hrun.rows_eq, fun k hk => ?_⟩
    · rw [hdb, hframe]
    · rw [hrun.frame k hk, hframe]
  have hauthority : db'.authority = db.authority := by rw [hmoved.only]
  have hbudgets : db₁.runBudgets = db.runBudgets := by rw [hframe]
  have hlookup : ∀ c, db'.runBudgets.lookup c = if c = run then some b' else db.runBudgets.lookup c := by
    intro c
    rw [hdb, ← hbudgets]
    exact Table.lookup_insert_ite _ _ _ _
  rw [hbudgets] at hb
  refine ⟨⟨fun account work run' operation' => ?_, fun run' b'' hb'' => ?_, fun run' operation' hne => ?_,
    fun run' operation' => ?_⟩, hmoved⟩
  · have hrows : WorkBudget.rows db' account work run' operation'
        = WorkBudget.rows db₁ account work run' operation' := by
      rw [hdb]
      rfl
    rw [hrows, hwork.rows, hmoved.rows_ite, hauthority, hm.work account work run' operation']
    by_cases hkey : run' = run ∧ operation' = operation
    · obtain ⟨rfl, rfl⟩ := hkey
      by_cases hmetered : meteredOn db.authority run' = some (account, work)
      · simp [hmetered]
      · simp [hmetered]
    · rw [if_neg fun h => hkey h.2, if_neg hkey]
  · rw [hauthority]
    rw [hlookup] at hb''
    split at hb''
    · next he =>
        rw [he]
        exact hm.known run b hb
    · exact hm.known run' b'' hb''
  · rw [hlookup]
    split
    · exact ⟨b', rfl⟩
    · next hrun' =>
        rw [hmoved.rows_ite, if_neg fun h => hrun' h.1] at hne
        exact hm.backed run' operation' hne
  · rw [hmoved.rows_ite]
    split
    · exact hfresh
    · exact hm.fresh run' operation'

/-- A store with the same rows, known Runs and budgets for them. -/
theorem Mirrored.of_same (hm : Mirrored db) (hrun : db'.runUsage = db.runUsage) (hwork : db'.workUsage = db.workUsage)
    (hauthority : db'.authority = db.authority)
    (hbudgets : ∀ run, (db'.runBudgets.lookup run).isSome = (db.runBudgets.lookup run).isSome) : Mirrored db' := by
  have hrows : ∀ run operation, RunBudget.rows db' run operation = RunBudget.rows db run operation := by
    intro run operation
    unfold RunBudget.rows
    rw [hrun]
  have hworkRows : ∀ account work run operation, WorkBudget.rows db' account work run operation
      = WorkBudget.rows db account work run operation := by
    intro account work run operation
    unfold WorkBudget.rows
    rw [hwork]
  refine ⟨fun account work run operation => ?_, fun run b hb => ?_, fun run operation hne => ?_,
    fun run operation => ?_⟩
  · rw [hworkRows, hrows, hauthority]
    exact hm.work account work run operation
  · rw [hauthority]
    have hsome : (db.runBudgets.lookup run).isSome = true := by rw [← hbudgets, hb]; rfl
    obtain ⟨b', hb'⟩ := Option.isSome_iff_exists.mp hsome
    exact hm.known run b' hb'
  · rw [hrows] at hne
    obtain ⟨b, hb⟩ := hm.backed run operation hne
    refine Option.isSome_iff_exists.mp ?_
    rw [hbudgets, hb]
    rfl
  · rw [hrows]
    exact hm.fresh run operation

end stores

/-! ### The two halves of a call agree -/

section calls

variable {run : Uuid} {operation : String} {db db₁ db' : Ledgers} {m : Mutation} {u : Unit}

/-- The Work half does not touch the Run rows. -/
theorem mutate_runRows {action : WorkBudget.Action} (h : (WorkBudget.mutate run operation action).run db = .ok (u, db₁))
    (operation' : String) : RunBudget.rows db₁ run operation' = RunBudget.rows db run operation' := by
  have hframe := WorkBudget.mutate_frame h
  rw [hframe]
  rfl

/-- The rows of the operation, in the Work the Run is metered on. -/
theorem Mirrored.metered (hm : Mirrored db) {account work : Uuid}
    (hmetered : meteredOn db.authority run = some (account, work)) (operation : String) :
    WorkBudget.rows db account work run operation = mirror (RunBudget.rows db run operation) := by
  rw [hm.work, if_pos hmetered]

/-- What a reservation leaves: a replay changed nothing, a first call opened the rows in both ledgers. -/
inductive ReserveEffect (caller : Caller) (run : Uuid) (operation : String) (requested : Dict ℕ) (db : Ledgers) :
    Mutation → Ledgers → Prop
  | opened {db' : Ledgers} (hrows : RunBudget.rows db run operation = Dict.empty)
      (hmoved : Moved run operation (RunBudget.opened requested (caller.fence.map Fence.executionId)) db db') :
      ReserveEffect caller run operation requested db ⟨run, operation, requested, .reserved, false⟩ db'
  | replayed (hrows : RunBudget.rows db run operation ≠ Dict.empty)
      (hamounts : RunBudget.reservedAmounts (RunBudget.rows db run operation) = requested) :
      ReserveEffect caller run operation requested db
        ⟨run, operation, requested, RunBudget.firstState (RunBudget.rows db run operation), true⟩ db

theorem Mirrored.reserve (hm : Mirrored db) {caller : Caller} {requested : Dict ℕ}
    (hwork : (WorkBudget.mutate run operation (.reserve requested)).run db = .ok (u, db₁))
    (hrun : RunBudget.Reserved caller run operation requested db₁ m db') :
    Mirrored db' ∧ ReserveEffect caller run operation requested db m db' := by
  have hrows := mutate_runRows hwork operation
  cases hrun with
  | opened hempty hdone =>
      rw [hrows] at hempty
      have hmetered : MeteredAs run operation
          (mirror (RunBudget.opened requested (caller.fence.map Fence.executionId))) db db₁ := by
        rw [mirror_opened]
        rcases WorkBudget.mutate_ok hwork with hnone | ⟨account, work, hon, hdone'⟩
        · exact .inl hnone
        · have hsame := hm.metered hon operation
          cases hdone' with
          | opened _ hrewrote => exact .inr ⟨account, work, hon, hrewrote⟩
          | reserveReplayed hne _ =>
              rw [hsame, hempty] at hne
              exact absurd rfl hne
      have hfresh : Unmeasured (RunBudget.opened requested (caller.fence.map Fence.executionId)) := by
        intro d r hr _
        obtain ⟨n, _, rfl⟩ := Option.map_eq_some_iff.mp hr
        exact ⟨rfl, rfl⟩
      obtain ⟨hm', hmoved⟩ := hm.moved hmetered hdone hfresh
      exact ⟨hm', .opened hempty hmoved⟩
  | replayed hne hamounts =>
      rw [hrows] at hne hamounts ⊢
      have hsame : db₁ = db := by
        rcases WorkBudget.mutate_ok hwork with ⟨_, hdb⟩ | ⟨account, work, hon, hdone'⟩
        · exact hdb
        · cases hdone' with
          | opened hempty _ =>
              rw [hm.metered hon, mirror_eq_empty] at hempty
              exact absurd hempty hne
          | reserveReplayed => rfl
      rw [hsame]
      exact ⟨hm, .replayed hne hamounts⟩

/-- What a settlement leaves. -/
inductive SettleEffect (run : Uuid) (operation : String) (actual : Dict ℕ) (source : UsageSource) (db : Ledgers) :
    Mutation → Ledgers → Prop
  | settled {rs : Dict RunUsage} {db' : Ledgers} (hrows : RunBudget.rows db run operation = rs) (hne : rs ≠ Dict.empty)
      (hreserved : ∀ d r, rs d = some r → r.state = .reserved) (hkeys : ∀ d, (rs d).isSome = (actual d).isSome)
      (hmoved : Moved run operation (RunBudget.settledRows rs actual source) db db') :
      SettleEffect run operation actual source db ⟨run, operation, actual, .settled, false⟩ db'
  | replayed {rs : Dict RunUsage} (hrows : RunBudget.rows db run operation = rs) (hne : rs ≠ Dict.empty)
      (hsettled : ∀ d r, rs d = some r → r.state = .settled ∧ r.usageSource = some source)
      (hactual : ∀ d, (rs d).map RunUsage.actualAmount = (actual d).map some) :
      SettleEffect run operation actual source db ⟨run, operation, actual, .settled, true⟩ db

theorem Mirrored.settle (hm : Mirrored db) {actual : Dict ℕ} {source : UsageSource}
    (hwork : (WorkBudget.mutate run operation (.settle actual source)).run db = .ok (u, db₁))
    (hrun : RunBudget.Settled run operation actual source db₁ m db') :
    Mirrored db' ∧ SettleEffect run operation actual source db m db' := by
  have hrows := mutate_runRows hwork operation
  cases hrun with
  | @settled rs db' hrs hne hreserved hkeys hdone =>
      rw [hrows] at hrs
      have hmetered : MeteredAs run operation (mirror (RunBudget.settledRows rs actual source)) db db₁ := by
        rw [mirror_settledRows]
        rcases WorkBudget.mutate_ok hwork with hnone | ⟨account, work, hon, hdone'⟩
        · exact .inl hnone
        · have hsame := hm.metered hon operation
          rw [hrs] at hsame
          cases hdone' with
          | settled hws _ _ _ hrewrote =>
              rw [hsame] at hws
              subst hws
              exact .inr ⟨account, work, hon, hrewrote⟩
          | settleReplayed hws _ hsettled _ =>
              rw [hsame] at hws
              subst hws
              have h := not_two_states hne hreserved (mirror_state fun d r hr => (hsettled d r hr).1)
              cases h
      have hfresh : Unmeasured (RunBudget.settledRows rs actual source) := by
        intro d r hr hstate
        obtain ⟨r', _, rfl⟩ := Option.map_eq_some_iff.mp hr
        exact absurd rfl hstate
      obtain ⟨hm', hmoved⟩ := hm.moved hmetered hdone hfresh
      exact ⟨hm', .settled hrs hne hreserved hkeys hmoved⟩
  | @replayed rs hrs hne hsettled hactual =>
      rw [hrows] at hrs
      have hsame : db₁ = db := by
        rcases WorkBudget.mutate_ok hwork with ⟨_, hdb⟩ | ⟨account, work, hon, hdone'⟩
        · exact hdb
        · have hworkRows := hm.metered hon operation
          rw [hrs] at hworkRows
          cases hdone' with
          | settled hws _ hreserved _ _ =>
              rw [hworkRows] at hws
              subst hws
              have h := not_two_states hne (mirror_state hreserved) fun d r hr => (hsettled d r hr).1
              cases h
          | settleReplayed => rfl
      rw [hsame]
      exact ⟨hm, .replayed hrs hne hsettled hactual⟩

/-- What a release leaves. -/
inductive ReleaseEffect (run : Uuid) (operation : String) (db : Ledgers) : Mutation → Ledgers → Prop
  | released {rs : Dict RunUsage} {db' : Ledgers} (hrows : RunBudget.rows db run operation = rs) (hne : rs ≠ Dict.empty)
      (hreserved : ∀ d r, rs d = some r → r.state = .reserved)
      (hmoved : Moved run operation (RunBudget.releasedRows rs) db db') :
      ReleaseEffect run operation db ⟨run, operation, RunBudget.reservedAmounts rs, .released, false⟩ db'
  | replayed {rs : Dict RunUsage} (hrows : RunBudget.rows db run operation = rs) (hne : rs ≠ Dict.empty)
      (hreleased : ∀ d r, rs d = some r → r.state = .released) :
      ReleaseEffect run operation db ⟨run, operation, RunBudget.reservedAmounts rs, .released, true⟩ db

theorem Mirrored.release (hm : Mirrored db)
    (hwork : (WorkBudget.mutate run operation .release).run db = .ok (u, db₁))
    (hrun : RunBudget.Released run operation db₁ m db') :
    Mirrored db' ∧ ReleaseEffect run operation db m db' := by
  have hrows := mutate_runRows hwork operation
  cases hrun with
  | @released rs db' hrs hne hreserved hdone =>
      rw [hrows] at hrs
      have hunmeasured : Unmeasured rs := hrs ▸ hm.fresh run operation
      have hmetered : MeteredAs run operation (mirror (RunBudget.releasedRows rs)) db db₁ := by
        rw [mirror_releasedRows hunmeasured hreserved]
        rcases WorkBudget.mutate_ok hwork with hnone | ⟨account, work, hon, hdone'⟩
        · exact .inl hnone
        · have hsame := hm.metered hon operation
          rw [hrs] at hsame
          cases hdone' with
          | released hws _ _ hrewrote =>
              rw [hsame] at hws
              subst hws
              exact .inr ⟨account, work, hon, hrewrote⟩
          | releaseReplayed hws _ hreleased =>
              rw [hsame] at hws
              subst hws
              have h := not_two_states hne hreserved (mirror_state hreleased)
              cases h
      have hfresh : Unmeasured (RunBudget.releasedRows rs) := by
        intro d r hr _
        obtain ⟨r', hr', rfl⟩ := Option.map_eq_some_iff.mp hr
        have hstate : r'.state ≠ .settled := by simp [hreserved d r' hr']
        exact hunmeasured d r' hr' hstate
      obtain ⟨hm', hmoved⟩ := hm.moved hmetered hdone hfresh
      exact ⟨hm', .released hrs hne hreserved hmoved⟩
  | @replayed rs hrs hne hreleased =>
      rw [hrows] at hrs
      have hsame : db₁ = db := by
        rcases WorkBudget.mutate_ok hwork with ⟨_, hdb⟩ | ⟨account, work, hon, hdone'⟩
        · exact hdb
        · have hworkRows := hm.metered hon operation
          rw [hrs] at hworkRows
          cases hdone' with
          | released hws _ hreserved _ =>
              rw [hworkRows] at hws
              subst hws
              have h := not_two_states hne (mirror_state hreserved) hreleased
              cases h
          | releaseReplayed => rfl
      rw [hsame]
      exact ⟨hm, .replayed hrs hne hreleased⟩

end calls

end HpAgent.Budget
