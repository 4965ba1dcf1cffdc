import HpAgent.Budget.Snapshots
import HpAgent.Budget.Conservation

/-! # The ledger of model calls

The abstract view of the three budget ledgers: one hold for each model call (`ModelHold`), with the day,
snapshot and Run it was opened for, its amounts and its outcome.  `Represents db e` says that the account
row, the Run rows and the Work rows of every operation are the images of its hold in `e`.

`Represents.record` is the refinement step: writing the images of one hold in the three ledgers writes
the hold. -/

namespace HpAgent.Budget

open Library

/-! ### Holds -/

/-- How a model call ended, if it did. -/
inductive Outcome where
  | reserved
  | settled (actual : Dict ℕ) (source : UsageSource)
  | released

namespace Outcome

def state : Outcome → UsageState
  | reserved => .reserved
  | settled _ _ => .settled
  | released => .released

def actual : Outcome → Dict ℕ
  | settled actual _ => actual
  | _ => Dict.empty

def source : Outcome → Option UsageSource
  | settled _ source => some source
  | _ => none

theorem eq_reserved {o : Outcome} (h : o.state = .reserved) : o = reserved := by
  cases o with
  | reserved => rfl
  | settled actual source => cases h
  | released => cases h

end Outcome

/-- One model call: what was reserved for it, where, and how it ended. -/
structure ModelHold where
  account : Uuid
  run : Uuid
  snapshot : Uuid
  day : Date
  execution : Option Uuid
  reserved : Dict ℕ
  total : ℕ
  total_eq : reserved .modelTotalTokens = some total
  outcome : Outcome

namespace ModelHold

variable (h : ModelHold)

def accountRow : AccountUsage :=
  ⟨some h.snapshot, h.outcome.state, h.total, h.outcome.actual .modelTotalTokens, h.outcome.source⟩

def runRows : Dict RunUsage := fun d =>
  (h.reserved d).map fun n => ⟨h.outcome.state, n, h.outcome.actual d, h.outcome.source, h.execution⟩

def workRows : Dict WorkUsage := fun d =>
  (h.reserved d).map fun n => ⟨h.outcome.state, n, h.outcome.actual d, h.outcome.source⟩

/-- The hold after its call has ended. -/
def ended (o : Outcome) : ModelHold := { h with outcome := o }

variable {h}

theorem state_of_runRows {d : Dimension} {r : RunUsage} (hr : h.runRows d = some r) :
    r.state = h.outcome.state := by
  obtain ⟨n, _, rfl⟩ := Option.map_eq_some_iff.mp hr
  rfl

theorem state_of_workRows {d : Dimension} {r : WorkUsage} (hr : h.workRows d = some r) :
    r.state = h.outcome.state := by
  obtain ⟨n, _, rfl⟩ := Option.map_eq_some_iff.mp hr
  rfl

theorem runRows_total : ∃ r, h.runRows .modelTotalTokens = some r ∧ r.reservedAmount = h.total ∧
    r.actualAmount = h.outcome.actual .modelTotalTokens :=
  ⟨_, by rw [runRows, h.total_eq]; rfl, rfl, rfl⟩

theorem runRows_ne_empty : h.runRows ≠ Dict.empty := by
  intro he
  obtain ⟨r, hr, _⟩ := h.runRows_total
  rw [he] at hr
  cases hr

theorem workRows_ne_empty : h.workRows ≠ Dict.empty := by
  intro he
  have hr := congrFun he .modelTotalTokens
  rw [workRows, h.total_eq] at hr
  cases hr

/-- The Run rows of a hold know its state. -/
theorem state_of_all_runRows {s : UsageState} (hall : ∀ d r, h.runRows d = some r → r.state = s) :
    h.outcome.state = s := by
  obtain ⟨r, hr, _⟩ := h.runRows_total
  rw [← hall _ r hr, state_of_runRows hr]

/-- The Work rows of a hold know its state. -/
theorem state_of_all_workRows {s : UsageState} (hall : ∀ d r, h.workRows d = some r → r.state = s) :
    h.outcome.state = s := by
  cases hr : h.workRows .modelTotalTokens with
  | none =>
      rw [workRows, h.total_eq] at hr
      cases hr
  | some r => rw [← hall _ r hr, state_of_workRows hr]

/-- The rows a settlement leaves are the images of the settled hold. -/
theorem settledRows_runRows (actual : Dict ℕ) (source : UsageSource) :
    RunBudget.settledRows h.runRows actual source = (h.ended (.settled actual source)).runRows := by
  funext d
  unfold RunBudget.settledRows runRows ended
  cases h.reserved d <;> rfl

theorem closedRows_workRows (actual : Dict ℕ) (source : UsageSource) :
    WorkBudget.closedRows h.workRows .settled actual (some source)
      = (h.ended (.settled actual source)).workRows := by
  funext d
  unfold WorkBudget.closedRows workRows ended
  cases h.reserved d <;> rfl

/-- The rows a release leaves are the images of the released hold. -/
theorem releasedRows_runRows (ho : h.outcome = .reserved) :
    RunBudget.releasedRows h.runRows = (h.ended .released).runRows := by
  funext d
  unfold RunBudget.releasedRows runRows ended
  rw [ho]
  cases h.reserved d <;> rfl

theorem releasedRows_workRows :
    WorkBudget.closedRows h.workRows .released Dict.empty none = (h.ended .released).workRows := by
  funext d
  unfold WorkBudget.closedRows workRows ended
  cases h.reserved d <;> rfl

end ModelHold

/-! ### The three ledgers as images of one -/

open WorkBudget (meteredOn)

/-- The rows of every operation are the images of its hold. -/
structure Represents (db : Ledgers) (e : String → Option ModelHold) : Prop where
  account : ∀ account day operation, db.accountUsage.lookup ⟨account, day, operation⟩
    = (e operation).bind fun h => if h.account = account ∧ h.day = day then some h.accountRow else none
  run : ∀ run operation, RunBudget.rows db run operation
    = (e operation).elim Dict.empty fun h => if h.run = run then h.runRows else Dict.empty
  work : ∀ account work run operation, WorkBudget.rows db account work run operation
    = (e operation).elim Dict.empty fun h =>
        if h.run = run ∧ meteredOn db.authority run = some (account, work) then h.workRows else Dict.empty
  frozen : ∀ operation h, e operation = some h → ∃ s, db.snapshots.lookup h.snapshot = some s ∧
    s.accountId = h.account ∧ s.runId = h.run ∧ s.operationId = operation

/-- The snapshots belong to their Runs' accounts, and an operation id names one of them. -/
structure Frozen (db : Ledgers) : Prop where
  owned : ∀ id s, db.snapshots.lookup id = some s → (db.authority.ownedRun s.accountId s.runId).isSome = true
  unique : ∀ id id' s s', db.snapshots.lookup id = some s → db.snapshots.lookup id' = some s' →
    s.operationId = s'.operationId → id = id'

/-- The tables the budget calls only read. -/
structure SameInputs (db db' : Ledgers) : Prop where
  authority : db'.authority = db.authority
  snapshots : db'.snapshots = db.snapshots
  dispatches : db'.dispatches = db.dispatches

instance : IsPreorder Ledgers SameInputs where
  refl _ := ⟨rfl, rfl, rfl⟩
  trans _ _ _ h₁ h₂ :=
    ⟨h₂.authority.trans h₁.authority, h₂.snapshots.trans h₁.snapshots, h₂.dispatches.trans h₁.dispatches⟩

theorem Frozen.of_same {db db' : Ledgers} (hf : Frozen db) (hauthority : db'.authority = db.authority)
    (hsnapshots : db'.snapshots = db.snapshots) : Frozen db' := by
  constructor
  · rw [hsnapshots, hauthority]
    exact hf.owned
  · rw [hsnapshots]
    exact hf.unique

namespace Represents

variable {db : Ledgers} {e : String → Option ModelHold}

theorem of_accountRow (hrep : Represents db e) {account : Uuid} {day : Date} {operation : String}
    {row : AccountUsage} (hrow : db.accountUsage.lookup ⟨account, day, operation⟩ = some row) :
    ∃ h, e operation = some h ∧ h.account = account ∧ h.day = day ∧ h.accountRow = row := by
  rw [hrep.account, Option.bind_eq_some_iff] at hrow
  obtain ⟨h, he, hrow⟩ := hrow
  split at hrow
  · next hkey => exact ⟨h, he, hkey.1, hkey.2, Option.some.inj hrow⟩
  · cases hrow

theorem accountRow_of (hrep : Represents db e) {operation : String} {h : ModelHold} (he : e operation = some h) :
    db.accountUsage.lookup ⟨h.account, h.day, operation⟩ = some h.accountRow := by
  rw [hrep.account, he]
  simp

theorem of_runRows (hrep : Represents db e) {run : Uuid} {operation : String}
    (hne : RunBudget.rows db run operation ≠ Dict.empty) :
    ∃ h, e operation = some h ∧ h.run = run ∧ RunBudget.rows db run operation = h.runRows := by
  rw [hrep.run] at hne ⊢
  cases he : e operation with
  | none =>
      rw [he] at hne
      exact absurd rfl hne
  | some h =>
      rw [he, Option.elim_some] at hne
      split at hne
      · next hrun => exact ⟨h, rfl, hrun, by rw [Option.elim_some, if_pos hrun]⟩
      · exact absurd rfl hne

theorem runRows_of (hrep : Represents db e) {operation : String} {h : ModelHold} (he : e operation = some h) :
    RunBudget.rows db h.run operation = h.runRows := by
  rw [hrep.run, he, Option.elim_some, if_pos rfl]

theorem of_workRows (hrep : Represents db e) {account work run : Uuid} {operation : String}
    (hne : WorkBudget.rows db account work run operation ≠ Dict.empty) :
    ∃ h, e operation = some h ∧ h.run = run ∧ meteredOn db.authority run = some (account, work) ∧
      WorkBudget.rows db account work run operation = h.workRows := by
  rw [hrep.work] at hne ⊢
  cases he : e operation with
  | none =>
      rw [he] at hne
      exact absurd rfl hne
  | some h =>
      rw [he, Option.elim_some] at hne
      split at hne
      · next hkey => exact ⟨h, rfl, hkey.1, hkey.2, by rw [Option.elim_some, if_pos hkey]⟩
      · exact absurd rfl hne

theorem workRows_of (hrep : Represents db e) {operation : String} {h : ModelHold} (he : e operation = some h)
    {account work : Uuid} (hm : meteredOn db.authority h.run = some (account, work)) :
    WorkBudget.rows db account work h.run operation = h.workRows := by
  rw [hrep.work, he, Option.elim_some, if_pos ⟨rfl, hm⟩]

/-- Only the usage tables, the snapshots and who is metered on what matter. -/
theorem of_sameRows (hrep : Represents db e) {db' : Ledgers} (haccount : db'.accountUsage = db.accountUsage)
    (hrun : db'.runUsage = db.runUsage) (hwork : db'.workUsage = db.workUsage)
    (hauthority : db'.authority = db.authority) (hsnapshots : db'.snapshots = db.snapshots) : Represents db' e := by
  refine ⟨fun account day operation => ?_, fun run operation => ?_, fun account work run operation => ?_,
    fun operation h he => ?_⟩
  · rw [haccount]
    exact hrep.account account day operation
  · rw [← hrep.run]
    unfold RunBudget.rows
    rw [hrun]
  · rw [hauthority, ← hrep.work]
    unfold WorkBudget.rows
    rw [hwork]
  · rw [hsnapshots]
    exact hrep.frozen operation h he

end Represents

/-! ### Frames of the halves -/

section frames

variable {db db' : Ledgers} {run : Uuid} {operation : String}

theorem AccountBudget.Rewrote.sameInputs {key : AccountUsageKey} {row : AccountUsage}
    (h : AccountBudget.Rewrote key row db db') : SameInputs db db' := by
  have honly := h.only
  constructor <;> rw [honly]

theorem AccountBudget.Quiet.sameInputs (h : AccountBudget.Quiet db db') : SameInputs db db' := by
  have honly := h.only
  constructor <;> rw [honly]

theorem WorkBudget.mutate_sameInputs {action : WorkBudget.Action} {u : Unit}
    (h : (WorkBudget.mutate run operation action).run db = .ok (u, db')) : SameInputs db db' := by
  have honly := WorkBudget.mutate_frame h
  constructor <;> rw [honly]

theorem RunBudget.Rewrote.sameInputs {rs : Dict RunUsage} (h : RunBudget.Rewrote run operation rs db db') :
    SameInputs db db' := by
  obtain ⟨_, _, _, honly, _⟩ := h.budget
  constructor <;> rw [honly]

/-- The account half leaves the rows of the other two ledgers alone. -/
theorem AccountBudget.Rewrote.otherRows {key : AccountUsageKey} {row : AccountUsage}
    (h : AccountBudget.Rewrote key row db db') :
    (∀ run operation, RunBudget.rows db' run operation = RunBudget.rows db run operation) ∧
      ∀ account work run operation,
        WorkBudget.rows db' account work run operation = WorkBudget.rows db account work run operation := by
  have honly := h.only
  constructor
  · intro run operation
    unfold RunBudget.rows
    rw [honly]
  · intro account work run operation
    unfold WorkBudget.rows
    rw [honly]

theorem WorkBudget.mutate_otherRows {action : WorkBudget.Action} {u : Unit}
    (h : (WorkBudget.mutate run operation action).run db = .ok (u, db')) :
    db'.accountUsage = db.accountUsage ∧
      ∀ run operation, RunBudget.rows db' run operation = RunBudget.rows db run operation := by
  have honly := WorkBudget.mutate_frame h
  constructor
  · rw [honly]
  · intro run operation
    unfold RunBudget.rows
    rw [honly]

theorem RunBudget.Rewrote.otherRows {rs : Dict RunUsage} (h : RunBudget.Rewrote run operation rs db db') :
    db'.accountUsage = db.accountUsage ∧ db'.workUsage = db.workUsage := by
  obtain ⟨_, _, _, honly, _⟩ := h.budget
  constructor <;> rw [honly]

theorem RunBudget.Rewrote.lookup_rows {rs : Dict RunUsage} (h : RunBudget.Rewrote run operation rs db db')
    (run' : Uuid) (operation' : String) :
    RunBudget.rows db' run' operation'
      = if run' = run ∧ operation' = operation then rs else RunBudget.rows db run' operation' := by
  split
  · next hkey =>
      obtain ⟨rfl, rfl⟩ := hkey
      exact h.rows_eq
  · next hkey =>
      funext d
      refine h.frame ⟨run', operation', d⟩ fun he => hkey ?_
      exact ⟨congrArg RunUsageKey.runId he, congrArg RunUsageKey.operationId he⟩

theorem WorkBudget.Rewrote.lookup_rows {account work : Uuid} {rs : Dict WorkUsage}
    (h : WorkBudget.Rewrote account work run operation rs db db') (account' work' run' : Uuid)
    (operation' : String) :
    WorkBudget.rows db' account' work' run' operation'
      = if account' = account ∧ work' = work ∧ run' = run ∧ operation' = operation then rs
        else WorkBudget.rows db account' work' run' operation' := by
  split
  · next hkey =>
      obtain ⟨rfl, rfl, rfl, rfl⟩ := hkey
      exact h.rows_eq
  · next hkey =>
      funext d
      refine h.frame ⟨account', work', run', operation', d⟩ fun he => hkey ?_
      exact ⟨congrArg WorkUsageKey.accountId he, congrArg WorkUsageKey.workId he,
        congrArg WorkUsageKey.runId he, congrArg WorkUsageKey.operationId he⟩

end frames

/-! ### Recording a hold -/

/-- The Work half of recording `h`: nothing for a Run outside any Work. -/
inductive WorkRecorded (h : ModelHold) (operation : String) (db : Ledgers) : Ledgers → Prop
  | unmetered (hm : meteredOn db.authority h.run = none) : WorkRecorded h operation db db
  | metered {account work : Uuid} {db' : Ledgers} (hm : meteredOn db.authority h.run = some (account, work))
      (hdone : WorkBudget.Rewrote account work h.run operation h.workRows db db') :
      WorkRecorded h operation db db'

namespace WorkRecorded

variable {h : ModelHold} {operation : String} {db db' : Ledgers}

theorem sameInputs (hw : WorkRecorded h operation db db') : SameInputs db db' := by
  cases hw with
  | unmetered => exact refl_of SameInputs _
  | metered _ hdone =>
      obtain ⟨_, _, _, honly, _⟩ := hdone.budget
      constructor <;> rw [honly]

theorem otherRows (hw : WorkRecorded h operation db db') : db'.accountUsage = db.accountUsage ∧
    ∀ run operation, RunBudget.rows db' run operation = RunBudget.rows db run operation := by
  cases hw with
  | unmetered => exact ⟨rfl, fun _ _ => rfl⟩
  | metered _ hdone =>
      obtain ⟨_, _, _, honly, _⟩ := hdone.budget
      constructor
      · rw [honly]
      · intro run operation
        unfold RunBudget.rows
        rw [honly]

theorem lookup_rows (hw : WorkRecorded h operation db db') (account work run : Uuid) (operation' : String) :
    WorkBudget.rows db' account work run operation'
      = if run = h.run ∧ operation' = operation ∧ meteredOn db.authority h.run = some (account, work)
          then h.workRows
        else WorkBudget.rows db account work run operation' := by
  cases hw with
  | unmetered hm =>
      rw [if_neg]
      rintro ⟨_, _, hsome⟩
      rw [hm] at hsome
      cases hsome
  | @metered account' work' _ hm hdone =>
      rw [hdone.lookup_rows, hm]
      have hiff : (account = account' ∧ work = work' ∧ run = h.run ∧ operation' = operation) ↔
          (run = h.run ∧ operation' = operation ∧ some (account', work') = some (account, work)) := by
        constructor
        · rintro ⟨rfl, rfl, hrun, hop⟩
          exact ⟨hrun, hop, rfl⟩
        · rintro ⟨hrun, hop, hpair⟩
          obtain ⟨rfl, rfl⟩ := Prod.mk.inj (Option.some.inj hpair)
          exact ⟨rfl, rfl, hrun, hop⟩
      simp only [hiff]

end WorkRecorded

/-- **Recording one hold.** When each ledger writes its image of `h`, in turn, the three together have
written `h`; a hold that was there before keeps its account, day and Run. -/
theorem Represents.record {db dbA dbW db' : Ledgers} {e : String → Option ModelHold} {operation : String}
    {h : ModelHold} (hrep : Represents db e)
    (hsame : ∀ h₀, e operation = some h₀ → h₀.account = h.account ∧ h₀.day = h.day ∧ h₀.run = h.run)
    (hfrozen : ∃ s, db.snapshots.lookup h.snapshot = some s ∧ s.accountId = h.account ∧ s.runId = h.run ∧
      s.operationId = operation)
    (hA : AccountBudget.Rewrote ⟨h.account, h.day, operation⟩ h.accountRow db dbA)
    (hW : WorkRecorded h operation dbA dbW) (hR : RunBudget.Rewrote h.run operation h.runRows dbW db') :
    Represents db' (Function.update e operation (some h)) := by
  have hinputs : SameInputs db db' :=
    trans_of SameInputs (trans_of SameInputs hA.sameInputs hW.sameInputs) hR.sameInputs
  refine ⟨fun account day operation' => ?_, fun run operation' => ?_, fun account work run operation' => ?_,
    fun operation' h' he => ?_⟩
  · have haccount : db'.accountUsage = db.accountUsage.insert ⟨h.account, h.day, operation⟩ h.accountRow := by
      rw [hR.otherRows.1, hW.otherRows.1, hA.only]
    rw [haccount, Table.lookup_insert_ite, Function.update_apply]
    by_cases hop : operation' = operation
    · subst hop
      rw [if_pos rfl, Option.bind_some]
      simp only [AccountUsageKey.mk.injEq]
      by_cases hkey : h.account = account ∧ h.day = day
      · rw [if_pos ⟨hkey.1.symm, hkey.2.symm, trivial⟩, if_pos hkey]
      · rw [if_neg fun hk => hkey ⟨hk.1.symm, hk.2.1.symm⟩, if_neg hkey, hrep.account]
        -- a hold of the operation that was there before sits on the same account and day
        cases he : e operation' with
        | none => rfl
        | some h₀ =>
            obtain ⟨hacc, hday, _⟩ := hsame h₀ he
            rw [Option.bind_some, hacc, hday, if_neg hkey]
    · rw [if_neg hop, if_neg fun hk => hop (congrArg AccountUsageKey.operationId hk)]
      exact hrep.account account day operation'
  · rw [hR.lookup_rows, hW.otherRows.2, hA.otherRows.1, hrep.run, Function.update_apply]
    by_cases hop : operation' = operation
    · subst hop
      rw [if_pos rfl, Option.elim_some]
      by_cases hrun : run = h.run
      · rw [if_pos ⟨hrun, rfl⟩, if_pos hrun.symm]
      · rw [if_neg fun hk => hrun hk.1, if_neg fun hk => hrun hk.symm]
        cases he : e operation' with
        | none => rfl
        | some h₀ => rw [Option.elim_some, (hsame h₀ he).2.2, if_neg fun hk => hrun hk.symm]
    · rw [if_neg fun hk => hop hk.2, if_neg hop]
  · have hwork : WorkBudget.rows db' account work run operation'
        = WorkBudget.rows dbW account work run operation' := by
      unfold WorkBudget.rows
      rw [hR.otherRows.2]
    rw [hwork, hW.lookup_rows, hA.otherRows.2, hA.sameInputs.authority, hinputs.authority, hrep.work,
      Function.update_apply]
    by_cases hop : operation' = operation
    · subst hop
      rw [if_pos rfl, Option.elim_some]
      by_cases hrun : h.run = run
      · subst hrun
        by_cases hm : meteredOn db.authority h.run = some (account, work)
        · rw [if_pos ⟨rfl, rfl, hm⟩, if_pos ⟨rfl, hm⟩]
        · rw [if_neg fun hk => hm hk.2.2, if_neg fun hk => hm hk.2]
          cases he : e operation' with
          | none => rfl
          | some h₀ => rw [Option.elim_some, if_neg fun hk => hm hk.2]
      · rw [if_neg fun hk => hrun hk.1.symm, if_neg fun hk => hrun hk.1]
        cases he : e operation' with
        | none => rfl
        | some h₀ => rw [Option.elim_some, (hsame h₀ he).2.2, if_neg fun hk => hrun hk.1]
    · rw [if_neg fun hk => hop hk.2.1, if_neg hop]
  · rw [hinputs.snapshots]
    rw [Function.update_apply] at he
    split at he
    · next hop =>
        obtain rfl := Option.some.inj he
        rw [hop]
        exact hfrozen
    · exact hrep.frozen operation' h' he

end HpAgent.Budget
