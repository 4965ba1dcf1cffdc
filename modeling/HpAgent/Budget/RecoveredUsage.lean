import HpAgent.Budget.TerminalRecovery

/-! # Terminal usage recovery

Every ledger row after a terminal transaction as a function of the row before (`UsageRecovered`): a row
that is still reserved is released when a model hold of its operation was not dispatched, and settled at
its reserved amount otherwise; any other row stays.

* `recoverUsage_ok`: the two recovery loops together.
* `terminal_usage_recovered`: the same for every Run state a history of calls reaches, with the
  repetition of the recovery. -/

namespace HpAgent.Budget

open Library
open WorkBudget (meteredOn)

/-! ### Recovered rows -/

/-- A model hold of the operation has no dispatch marker. -/
def unsent (db : Ledgers) (account run : Uuid) (operation : String) : Bool :=
  (Coordinator.openHolds db account run).any fun h => h.operationId = operation && !h.dispatched

/-- The Run row after the recovery. -/
def RunUsage.recovered (unsent : Bool) (r : RunUsage) : RunUsage :=
  if r.state = .reserved then
    if unsent then r.released else r.settled (some r.reservedAmount) .estimated
  else r

/-- The Work row after the recovery. -/
def WorkUsage.recovered (unsent : Bool) (r : WorkUsage) : WorkUsage :=
  if r.state = .reserved then
    if unsent then r.closed .released none none else r.closed .settled (some r.reservedAmount) (some .estimated)
  else r

/-- The account row after the recovery. -/
def AccountUsage.recovered (unsent : Bool) (row : AccountUsage) : AccountUsage :=
  if row.state = .reserved then
    if unsent then { row with state := .released }
    else { row with state := .settled, actualTokens := some row.reservedTokens, usageSource := some .estimated }
  else row

/-- The ledgers after the recovery of a Run. -/
structure UsageRecovered (account run : Uuid) (db db' : Ledgers) : Prop where
  runRows : ∀ k : RunUsageKey, k.runId = run → db'.runUsage.lookup k
    = (db.runUsage.lookup k).map (RunUsage.recovered (unsent db account run k.operationId))
  otherRuns : ∀ k : RunUsageKey, k.runId ≠ run → db'.runUsage.lookup k = db.runUsage.lookup k
  workRows : ∀ k : WorkUsageKey, k.runId = run → db'.workUsage.lookup k
    = (db.workUsage.lookup k).map (WorkUsage.recovered (unsent db account run k.operationId))
  otherWorks : ∀ k : WorkUsageKey, k.runId ≠ run → db'.workUsage.lookup k = db.workUsage.lookup k
  accountRows : ∀ k row, db.accountUsage.lookup k = some row → k.accountId = account →
    Coordinator.ofRun db account run row = true → db'.accountUsage.lookup k
      = some (row.recovered (!row.snapshotId.any (Coordinator.dispatched db account)))
  otherAccounts : ∀ k, (∀ row, db.accountUsage.lookup k = some row → k.accountId = account →
    Coordinator.ofRun db account run row = false) → db'.accountUsage.lookup k = db.accountUsage.lookup k

section rows

variable {u : Bool}

theorem RunUsage.recovered_state (r : RunUsage) : (r.recovered u).state ≠ .reserved := by
  unfold recovered
  by_cases hstate : r.state = .reserved
  · rw [if_pos hstate]
    cases u <;> simp [released, settled]
  · rw [if_neg hstate]
    exact hstate

theorem WorkUsage.recovered_state (r : WorkUsage) : (r.recovered u).state ≠ .reserved := by
  unfold recovered
  by_cases hstate : r.state = .reserved
  · rw [if_pos hstate]
    cases u <;> simp [closed]
  · rw [if_neg hstate]
    exact hstate

theorem AccountUsage.recovered_state (row : AccountUsage) : (row.recovered u).state ≠ .reserved := by
  unfold recovered
  by_cases hstate : row.state = .reserved
  · rw [if_pos hstate]
    cases u <;> simp
  · rw [if_neg hstate]
    exact hstate

/-- Recovering a Run row recovers its image. -/
theorem RunUsage.recovered_onWork {r : RunUsage}
    (hfresh : r.state ≠ .settled → r.actualAmount = none ∧ r.usageSource = none) :
    (r.recovered u).onWork = r.onWork.recovered u := by
  unfold recovered WorkUsage.recovered
  by_cases hstate : r.state = .reserved
  · have hwork : r.onWork.state = .reserved := hstate
    obtain ⟨hactual, hsource⟩ := hfresh (by simp [hstate])
    rw [if_pos hstate, if_pos hwork]
    cases u <;> simp [released, settled, onWork, WorkUsage.closed, hactual, hsource]
  · have hwork : r.onWork.state ≠ .reserved := hstate
    rw [if_neg hstate, if_neg hwork]

end rows

/-! ### Both loops -/

section loops

variable {clamp : ℤ → ℤ} (hclamp : RunBudget.ClampsNegative clamp) {account run : Uuid} {db s db' : Ledgers}

theorem unsent_iff {operation : String} : unsent db account run operation = true ↔
    ∃ h ∈ Coordinator.openHolds db account run, h.operationId = operation ∧ h.dispatched = false := by
  unfold unsent
  simp only [List.any_eq_true, Bool.and_eq_true, decide_eq_true_eq, Bool.not_eq_true']

/-- Closing a reserved row as its hold says recovers it. -/
theorem closedRow_eq {row : AccountUsage} {sent : Bool} (operation : String) (day : Date)
    (hstate : row.state = .reserved) :
    (⟨operation, day, row.reservedTokens, sent⟩ : Coordinator.OpenHold).closedRow row = row.recovered (!sent) := by
  unfold Coordinator.OpenHold.closedRow AccountUsage.recovered
  rw [if_pos hstate]
  cases sent <;> rfl

/-- Rows that are all reserved and settled at their estimate. -/
theorem estimatedRows_apply {operation : String} (hin : InState db run operation .reserved) (d : Dimension) :
    RunBudget.estimatedRows (RunBudget.rows db run operation) d
      = (RunBudget.rows db run operation d).map (RunUsage.recovered false) := by
  unfold RunBudget.estimatedRows RunBudget.settledRows RunBudget.reservedAmounts
  cases hr : RunBudget.rows db run operation d with
  | none => rfl
  | some r => simp [RunUsage.recovered, hin.2 d r hr]

/-- Rows that are all reserved and released. -/
theorem releasedRows_apply {operation : String} (hin : InState db run operation .reserved) (d : Dimension) :
    RunBudget.releasedRows (RunBudget.rows db run operation) d
      = (RunBudget.rows db run operation d).map (RunUsage.recovered true) := by
  unfold RunBudget.releasedRows
  cases hr : RunBudget.rows db run operation d with
  | none => rfl
  | some r => simp [RunUsage.recovered, hin.2 d r hr]

/-- Recovery does not touch rows of which none is reserved. -/
theorem recovered_of_closed {operation : String} {b : Bool}
    (h : ∀ d r, RunBudget.rows db run operation d = some r → r.state ≠ .reserved) (d : Dimension) :
    (RunBudget.rows db run operation d).map (RunUsage.recovered b) = RunBudget.rows db run operation d := by
  cases hr : RunBudget.rows db run operation d with
  | none => rfl
  | some r =>
      rw [Option.map_some, RunUsage.recovered, if_neg (h d r hr)]

/-- What the first loop leaves of an operation's rows. -/
theorem Coordinator.RecoveryProgress.runRows_apply (hp : Coordinator.RecoveryProgress db account run [] s)
    (operation : String) :
    (unsent db account run operation = true ∧ (∀ d r, RunBudget.rows s run operation d = some r → r.state ≠ .reserved) ∧
        ∀ d, RunBudget.rows s run operation d = (RunBudget.rows db run operation d).map (RunUsage.recovered true)) ∨
      (unsent db account run operation = false ∧ (RunBudget.rows s run operation = RunBudget.rows db run operation ∨
        ((∀ d r, RunBudget.rows s run operation d = some r → r.state ≠ .reserved) ∧
          ∀ d, RunBudget.rows s run operation d = (RunBudget.rows db run operation d).map (RunUsage.recovered false)))) := by
  by_cases hu : unsent db account run operation = true
  · left
    obtain ⟨h, hmem, rfl, hsent⟩ := unsent_iff.mp hu
    have hdone : h.Done db account run s := by
      rcases hp.passed h hmem with hrest | hdone
      · cases hrest
      · exact hdone
    have hreleased : InState s run h.operationId .released := by
      have hstate := hdone.2
      unfold Coordinator.OpenHold.state at hstate
      rw [hsent] at hstate
      exact hstate
    have hne : ∀ d r, RunBudget.rows s run h.operationId d = some r → r.state ≠ .reserved := by
      intro d r hr
      simp [hreleased.2 d r hr]
    refine ⟨hu, hne, fun d => ?_⟩
    rcases hp.runRows h.operationId with hsame | ⟨hin, h', _, _, hclosed⟩
    · rw [hsame] at hne
      rw [hsame, recovered_of_closed hne]
    · -- the hold that closed the rows released them
      have hsent' : h'.dispatched = false := by
        by_contra hd
        rw [Bool.not_eq_false] at hd
        have hsettled : InState s run h.operationId .settled := by
          refine ⟨hreleased.1, fun d r hr => ?_⟩
          rw [hclosed] at hr
          rw [h'.closes_state hr, Coordinator.OpenHold.state, if_pos hd]
        have hclash := hreleased.eq hsettled
        cases hclash
      rw [hclosed, ← releasedRows_apply hin]
      unfold Coordinator.OpenHold.closes
      rw [hsent']
      rfl
  · right
    rw [Bool.not_eq_true] at hu
    refine ⟨hu, ?_⟩
    rcases hp.runRows operation with hsame | ⟨hin, h, hmem, hop, hclosed⟩
    · exact .inl hsame
    · right
      have hsent : h.dispatched = true := by
        by_contra hd
        rw [Bool.not_eq_true] at hd
        have htrue := unsent_iff.mpr ⟨h, hmem, hop, hd⟩
        rw [hu] at htrue
        cases htrue
      refine ⟨fun d r hr => ?_, fun d => ?_⟩
      · rw [hclosed] at hr
        rw [h.closes_state hr]
        exact h.state_ne
      · rw [hclosed, ← estimatedRows_apply hin]
        unfold Coordinator.OpenHold.closes
        rw [if_pos hsent]
        rfl

/-- **Every Run row after both loops.** -/
theorem runRows_recovered (hp : Coordinator.RecoveryProgress db account run [] s)
    (he : RunBudget.EstimateProgress s run [] db') (operation : String) (d : Dimension) :
    RunBudget.rows db' run operation d
      = (RunBudget.rows db run operation d).map (RunUsage.recovered (unsent db account run operation)) := by
  -- the second loop leaves rows alone that the first one closed
  have hkeep : (∀ d r, RunBudget.rows s run operation d = some r → r.state ≠ .reserved) →
      RunBudget.rows db' run operation = RunBudget.rows s run operation := by
    intro hclosed
    rcases he.kept operation with hsame | ⟨hin, _⟩
    · exact hsame
    · exfalso
      apply hin.1
      funext e
      cases hr : RunBudget.rows s run operation e with
      | none => rfl
      | some r => exact absurd (hin.2 e r hr) (hclosed e r hr)
  rcases hp.runRows_apply operation with ⟨hu, hclosed, hrows⟩ | ⟨hu, hsame | ⟨hclosed, hrows⟩⟩
  · rw [hu, hkeep hclosed, hrows]
  · rw [hu]
    by_cases hopen : operation ∈ RunBudget.openOperations s run
    · rcases he.passed operation hopen with hrest | ⟨hin, hrows⟩
      · cases hrest
      · rw [hrows, estimatedRows_apply hin, hsame]
    · have hclosed : ∀ d r, RunBudget.rows s run operation d = some r → r.state ≠ .reserved :=
        fun e r hr hstate => hopen (RunBudget.mem_openOperations.mpr ⟨e, r, hr, hstate⟩)
      rw [hkeep hclosed, hsame, recovered_of_closed]
      rw [← hsame]
      exact hclosed
  · rw [hu, hkeep hclosed, hrows]

/-- A Work row is the image of the Run row, when the Run is metered on its Work. -/
theorem Mirrored.workRow (hm : Mirrored db) (k : WorkUsageKey) : db.workUsage.lookup k
    = if meteredOn db.authority k.runId = some (k.accountId, k.workId) then
        (db.runUsage.lookup ⟨k.runId, k.operationId, k.dimension⟩).map RunUsage.onWork
      else none := by
  have hrow := congrFun (hm.work k.accountId k.workId k.runId k.operationId) k.dimension
  refine hrow.trans ?_
  split <;> rfl

/-- Mirrored stores with the same authority: the Work rows follow the Run rows. -/
theorem workRows_of_runRows (hm : Mirrored db) (hm' : Mirrored db') (hauthority : db'.authority = db.authority)
    (k : WorkUsageKey) {b : Bool}
    (hrow : db'.runUsage.lookup ⟨k.runId, k.operationId, k.dimension⟩
      = (db.runUsage.lookup ⟨k.runId, k.operationId, k.dimension⟩).map (RunUsage.recovered b)) :
    db'.workUsage.lookup k = (db.workUsage.lookup k).map (WorkUsage.recovered b) := by
  rw [hm'.workRow, hm.workRow, hauthority, hrow]
  split
  · cases hr : db.runUsage.lookup ⟨k.runId, k.operationId, k.dimension⟩ with
    | none => rfl
    | some r =>
        have hfresh := hm.fresh k.runId k.operationId k.dimension r hr
        rw [Option.map_some, Option.map_some, Option.map_some, Option.map_some, RunUsage.recovered_onWork hfresh]
  · rfl

include hclamp

/-- **Both recovery loops.** -/
theorem recoverUsage_ok {u : Unit} (hs : Recorded db) (h : (recoverUsage clamp run).run db = .ok (u, db')) :
    Recorded db' ∧ SameInputs db db' ∧
      ∃ r, db.authority.runs run = some r ∧ r.status.terminal = true ∧ UsageRecovered r.accountId run db db' := by
  have hs' := (keptByServices_recorded hclamp).recoverUsage _ _ _ h hs
  unfold recoverUsage at h
  rw [Tx.bind_ok] at h
  obtain ⟨_, s, hfirst, hsecond⟩ := h
  obtain ⟨r, hr, hterminal, hp⟩ := Coordinator.recoverTerminalInUow_progress hclamp hs hfirst
  have he := RunBudget.recoverTerminalInUow_progress hclamp hp.recorded hsecond
  have hsame := trans_of SameInputs hp.same he.same
  have hrunRows : ∀ k : RunUsageKey, k.runId = run → db'.runUsage.lookup k
      = (db.runUsage.lookup k).map (RunUsage.recovered (unsent db r.accountId run k.operationId)) := by
    rintro ⟨_, operation, d⟩ rfl
    exact runRows_recovered hp he operation d
  have hotherRuns : ∀ k : RunUsageKey, k.runId ≠ run → db'.runUsage.lookup k = db.runUsage.lookup k :=
    fun k hk => (he.otherRuns k hk).trans (hp.otherRuns k hk)
  refine ⟨hs', hsame, r, hr, hterminal, hrunRows, hotherRuns, fun k hk => ?_, fun k hk => ?_,
    fun k row hrow haccount hrun => ?_, fun k hk => ?_⟩
  · exact workRows_of_runRows hs.mirrored hs'.mirrored hsame.authority k (hrunRows _ hk)
  · rw [hs'.mirrored.workRow, hs.mirrored.workRow, hsame.authority, hotherRuns _ hk]
  · rw [he.account]
    obtain ⟨account, day, operation⟩ := k
    dsimp only at haccount
    subst haccount
    by_cases hstate : row.state = .reserved
    · -- the row was read as a hold, and the hold has been closed
      have hmem : (⟨operation, day, row.reservedTokens, row.snapshotId.any (Coordinator.dispatched db r.accountId)⟩ :
          Coordinator.OpenHold) ∈ Coordinator.openHolds db r.accountId run :=
        Coordinator.mem_openHolds_iff.mpr ⟨row, hrow, hstate, hrun, rfl, rfl⟩
      rcases hp.passed _ hmem with hrest | hdone
      · cases hrest
      · exact (hdone.1 row hrow).trans (congrArg some (closedRow_eq operation day hstate))
    · rw [AccountUsage.recovered, if_neg hstate, ← hrow]
      refine hp.otherAccountRows _ fun h hmem hkey => hstate ?_
      obtain ⟨row', hrow', hstate', _⟩ := Coordinator.mem_openHolds_iff.mp hmem
      rw [hkey] at hrow'
      obtain rfl := Option.some.inj (hrow'.symm.trans hrow)
      exact hstate'
  · rw [he.account]
    refine hp.otherAccountRows k fun h hmem hkey => ?_
    obtain ⟨row, hrow, _, hrun, _⟩ := Coordinator.mem_openHolds_iff.mp hmem
    have hoff := hk row (by rw [← hkey]; exact hrow) (by rw [← hkey]; rfl)
    rw [hrun] at hoff
    cases hoff

end loops

/-! ### Repeating the recovery -/

section repeated

variable {account run : Uuid} {db db' : Ledgers}

/-- After a recovery no account row of the Run is reserved. -/
theorem UsageRecovered.no_accountRow (h : UsageRecovered account run db db') (hsnapshots : db'.snapshots = db.snapshots)
    {k : AccountUsageKey} {row : AccountUsage} (hrow : db'.accountUsage.lookup k = some row)
    (haccount : k.accountId = account) (hrun : Coordinator.ofRun db' account run row = true) :
    row.state ≠ .reserved := by
  have hsame : ∀ row : AccountUsage, Coordinator.ofRun db' account run row = Coordinator.ofRun db account run row := by
    intro row
    unfold Coordinator.ofRun
    rw [hsnapshots]
  rw [hsame] at hrun
  cases hold : db.accountUsage.lookup k with
  | none =>
      have hoff := h.otherAccounts k fun row' hrow' => by rw [hold] at hrow'; cases hrow'
      rw [hoff, hold] at hrow
      cases hrow
  | some row₀ =>
      by_cases hrun₀ : Coordinator.ofRun db account run row₀ = true
      · rw [h.accountRows k row₀ hold haccount hrun₀] at hrow
        obtain rfl := Option.some.inj hrow
        exact row₀.recovered_state
      · have hoff := h.otherAccounts k fun row' hrow' _ => by
          obtain rfl := Option.some.inj (hold.symm.trans hrow')
          rwa [Bool.not_eq_true] at hrun₀
        rw [hoff, hold] at hrow
        obtain rfl := Option.some.inj hrow
        exact absurd hrun hrun₀

/-- After a recovery no Run row of the Run is reserved. -/
theorem UsageRecovered.no_runRow (h : UsageRecovered account run db db') {operation : String} {d : Dimension}
    {row : RunUsage} (hrow : RunBudget.rows db' run operation d = some row) : row.state ≠ .reserved := by
  have hrec := h.runRows ⟨run, operation, d⟩ rfl
  obtain ⟨r, _, rfl⟩ := Option.map_eq_some_iff.mp (hrec.symm.trans hrow)
  exact r.recovered_state

/-- After a recovery no Work row of the Run is reserved. -/
theorem UsageRecovered.no_workRow (h : UsageRecovered account run db db') {k : WorkUsageKey} (hk : k.runId = run)
    {row : WorkUsage} (hrow : db'.workUsage.lookup k = some row) : row.state ≠ .reserved := by
  obtain ⟨r, _, rfl⟩ := Option.map_eq_some_iff.mp ((h.workRows k hk).symm.trans hrow)
  exact r.recovered_state

/-- With nothing left to recover the two loops do nothing. -/
theorem recoverUsage_again (clamp : ℤ → ℤ) {r : Run} (hr : db.authority.runs run = some r)
    (hterminal : r.status.terminal = true) (hholds : Coordinator.openHolds db r.accountId run = [])
    (hopen : RunBudget.openOperations db run = []) : (recoverUsage clamp run).run db = .ok ((), db) := by
  unfold recoverUsage
  rw [Tx.bind_ok]
  refine ⟨(), db, ?_, ?_⟩
  · unfold Coordinator.recoverTerminalInUow
    rw [Tx.bind_query_ok, Tx.bind_demand_ok]
    refine ⟨r, Option.filter_eq_some_iff.mpr ⟨hr, hterminal⟩, ?_⟩
    rw [Tx.bind_query_ok, hholds]
    rfl
  · unfold RunBudget.recoverTerminalInUow
    rw [Tx.bind_query_ok, Tx.bind_check_ok, hr, Tx.bind_query_ok, hopen]
    exact ⟨hterminal, rfl⟩

theorem UsageRecovered.again (h : UsageRecovered account run db db') (hsnapshots : db'.snapshots = db.snapshots)
    (clamp : ℤ → ℤ) {r : Run} (hr : db'.authority.runs run = some r) (haccount : r.accountId = account)
    (hterminal : r.status.terminal = true) : (recoverUsage clamp run).run db' = .ok ((), db') := by
  subst haccount
  refine recoverUsage_again clamp hr hterminal ?_ ?_
  · refine List.eq_nil_iff_forall_not_mem.mpr fun hold hmem => ?_
    obtain ⟨row, hrow, hstate, hrun, _⟩ := Coordinator.mem_openHolds_iff.mp hmem
    exact h.no_accountRow hsnapshots hrow rfl hrun hstate
  · refine List.eq_nil_iff_forall_not_mem.mpr fun operation hmem => ?_
    obtain ⟨d, row, hrow, hstate⟩ := RunBudget.mem_openOperations.mp hmem
    exact h.no_runRow hrow hstate

end repeated

/-! ### The terminal transaction -/

/-- The transaction leaves everything as it was, when a failure meets a cancellation, or recovers the usage. -/
theorem finishInUow_effect {clamp : ℤ → ℤ} (hclamp : RunBudget.ClampsNegative clamp) {run : Uuid} {status : RunStatus}
    {finished : Bool} {db db' : Ledgers} (hs : Recorded db)
    (h : (finishInUow clamp run status).run db = .ok (finished, db')) :
    (db' = db ∧ ∃ r, db.authority.runs run = some r ∧ r.status.terminal = false) ∨
      (Recorded db' ∧ db'.snapshots = db.snapshots ∧
        ∃ r, db'.authority.runs run = some r ∧ UsageRecovered r.accountId run db db') := by
  unfold finishInUow at h
  rw [Tx.bind_query_ok, Tx.bind_demand_ok] at h
  obtain ⟨r₀, hr₀, h⟩ := h
  rw [Tx.bind_check_ok] at h
  obtain ⟨_, h⟩ := h
  split at h
  · right
    rw [Tx.bind_ok] at h
    obtain ⟨_, s, hrecover, h⟩ := h
    obtain ⟨_, rfl⟩ := Tx.pure_ok.mp h
    obtain ⟨hs', hsame, r, hr, _, hrecovered⟩ := recoverUsage_ok hclamp hs hrecover
    exact ⟨hs', hsame.snapshots, r, by rw [hsame.authority, hr], hrecovered⟩
  next hrunning =>
    rw [Tx.bind_check_ok] at h
    obtain ⟨_, h⟩ := h
    split at h
    · obtain ⟨_, rfl⟩ := Tx.pure_ok.mp h
      rw [Bool.not_eq_true] at hrunning
      exact .inl ⟨rfl, r₀, hr₀, hrunning⟩
    · right
      rw [Tx.bind_check_ok, Tx.bind_ok] at h
      obtain ⟨_, _, s, hset, h⟩ := h
      rw [Tx.bind_ok] at h
      obtain ⟨_, s', hrecover, h⟩ := h
      obtain ⟨_, rfl⟩ := Tx.pure_ok.mp h
      have hs₁ := setTerminal_recorded status _ _ _ hset hs
      obtain rfl := Tx.update_ok.mp hset
      obtain ⟨hs', hsame, r, hr, _, hrecovered⟩ := recoverUsage_ok hclamp hs₁ hrecover
      exact ⟨hs', hsame.snapshots, r, by rw [hsame.authority, hr], hrecovered.runRows, hrecovered.otherRuns,
        hrecovered.workRows, hrecovered.otherWorks, hrecovered.accountRows, hrecovered.otherAccounts⟩

/-- The Run is terminal after the transaction only if its usage was recovered in it. -/
theorem finishInUow_ok {clamp : ℤ → ℤ} (hclamp : RunBudget.ClampsNegative clamp) {run : Uuid} {status : RunStatus}
    {finished : Bool} {db db' : Ledgers} (hs : Recorded db)
    (h : (finishInUow clamp run status).run db = .ok (finished, db')) {r : Run} (hr : db'.authority.runs run = some r)
    (hterminal : r.status.terminal = true) :
    db'.snapshots = db.snapshots ∧ UsageRecovered r.accountId run db db' := by
  rcases finishInUow_effect hclamp hs h with ⟨rfl, r', hr', hopen⟩ | ⟨_, hsnapshots, r', hr', hrecovered⟩
  · obtain rfl := Option.some.inj (hr.symm.trans hr')
    rw [hterminal] at hopen
    cases hopen
  · obtain rfl := Option.some.inj (hr.symm.trans hr')
    exact ⟨hsnapshots, hrecovered⟩

/-- **Terminal usage recovery.** After a transaction that leaves a Run terminal no Run, Work or snapshot-bound account
row of the Run is reserved; every row is the recovery of the row before; and repeating the recovery, alone or in
another terminal transaction, succeeds and changes nothing. -/
theorem terminal_usage_recovered {authority : Authority} {db db' : Ledgers}
    (hreach : UsageReachable anyCall authority db) {run : Uuid} {status : RunStatus} {finished : Bool}
    (h : (finishInUow (max 0) run status).run db = .ok (finished, db')) {r : Run}
    (hr : db'.authority.runs run = some r) (hterminal : r.status.terminal = true) :
    (∀ operation d row, RunBudget.rows db' run operation d = some row → row.state ≠ .reserved) ∧
    (∀ account work operation d row, WorkBudget.rows db' account work run operation d = some row →
      row.state ≠ .reserved) ∧
    (∀ k row, db'.accountUsage.lookup k = some row → k.accountId = r.accountId →
      Coordinator.ofRun db' r.accountId run row = true → row.state ≠ .reserved) ∧
    UsageRecovered r.accountId run db db' ∧
    (recoverUsage (max 0) run).run db' = .ok ((), db') ∧
    ∀ again : RunStatus, again.terminal = true →
      (finishInUow (max 0) run again).run db' = .ok (decide (r.status = again), db') := by
  obtain ⟨hsnapshots, hrecovered⟩ := finishInUow_ok RunBudget.clampsNegative_max hreach.recorded h hr hterminal
  have hagain := hrecovered.again hsnapshots (max 0) hr rfl hterminal
  refine ⟨fun operation d row hrow => hrecovered.no_runRow hrow, fun account work operation d row hrow => ?_,
    fun k row hrow haccount hrun => hrecovered.no_accountRow hsnapshots hrow haccount hrun, hrecovered, hagain,
    fun again hagainTerminal => ?_⟩
  · exact hrecovered.no_workRow (k := ⟨account, work, run, operation, d⟩) rfl hrow
  · unfold finishInUow
    rw [Tx.bind_query_ok, Tx.bind_demand_ok]
    refine ⟨r, hr, ?_⟩
    rw [Tx.bind_check_ok, if_pos hterminal, Tx.bind_ok]
    exact ⟨hagainTerminal, (), db', hagain, rfl⟩

/-! ### One terminal Run -/

/-- A budget of 100 in every dimension, with a tool call and an undispatched model request open. -/
def openUsage : Ledgers :=
  (UsageCall.reserve ⟨none, 0⟩ 7 "tool:1" ⟨[("tool_calls", .int 2)], by simp⟩ false false true).command.commit
    soloReserved

theorem reachable_openUsage : UsageReachable anyCall soloAuthority openUsage := by
  have hreserved : UsageReachable anyCall soloAuthority soloReserved :=
    usageReachable_soloFrozen.tail
      (.call (.model soloReserve) ⟨9, ⟨1, 7, "model:1", 5, none, 1⟩, rfl, by decide, rfl, rfl, rfl⟩ trivial)
  exact hreserved.tail (.call (.reserve ⟨none, 0⟩ 7 "tool:1" ⟨[("tool_calls", .int 2)], by simp⟩ false false true)
    trivial trivial)

def closedUsage : Ledgers := (finishInUow (max 0) 7 .failed).commit openUsage

/-- The model request is released and the tool call settled at its reserved amount. -/
theorem terminal_usage_recovered_failed :
    closedUsage.accountUsage.lookup ⟨1, 0, "model:1"⟩ = some ⟨some 9, .released, 10, none, none⟩ ∧
      closedUsage.runUsage.lookup ⟨7, "tool:1", .toolCalls⟩ = some ⟨.settled, 2, some 2, some .estimated, none⟩ ∧
      UsageRecovered 1 7 openUsage closedUsage := by
  refine ⟨by decide +kernel, by decide +kernel, ?_⟩
  have hrun : (finishInUow (max 0) 7 .failed).run openUsage = .ok (true, closedUsage) :=
    Tx.run_commit (by decide +kernel)
  exact (terminal_usage_recovered reachable_openUsage hrun (r := ⟨1, .chat 3, .failed⟩) (by decide +kernel) rfl).2.2.2.1

end HpAgent.Budget
