import HpAgent.Budget.Agreement

/-! # Runs of the model budget coordinator

The coordinator's calls as a transition system (`ModelStep`), together with the freezing of snapshots, the
dispatch markers, the creation of budgets and any change of the other tables that keeps every Run with its
account and Work.

`Reachable.coordinated` is the run lemma; `model_ledgers_agree` reads off what it says about the rows of
every operation. -/

namespace HpAgent.Budget

open Library
open WorkBudget (meteredOn)

/-- The calls of `ModelBudgetCoordinator`. -/
inductive Coordinator.Call where
  | reserve (caller : Caller) (account run : Uuid) (operation : String) (total : Raw) (values : Values)
      (finalResponse : Bool) (o : AccountBudget.Options)
  | settle (account run : Uuid) (operation : String) (total : Raw) (values : Values) (source : String)
      (date : Option Date)
  | release (account run : Uuid) (operation : String) (date : Option Date)
  | recover (run : Uuid)

/-- The call inside its transaction. -/
def Coordinator.Call.command : Coordinator.Call → BudgetTx Unit
  | .reserve caller account run operation total values finalResponse o => do
    let _ ← Coordinator.reserve caller account run operation total values.items finalResponse o
    pure ()
  | .settle account run operation total values source date => do
    let _ ← Coordinator.settle (max 0) account run operation total values.items source date
    pure ()
  | .release account run operation date => do
    let _ ← Coordinator.release (max 0) account run operation date
    pure ()
  | .recover run => Coordinator.recoverTerminalInUow (max 0) run

/-- A reservation carries the snapshot frozen for its operation. -/
def Coordinator.Call.Carries (db : Ledgers) : Coordinator.Call → Prop
  | .reserve _ account run operation _ _ _ o =>
    ∃ id s, o.snapshotId = some id ∧ db.snapshots.lookup id = some s ∧ s.accountId = account ∧ s.runId = run ∧
      s.operationId = operation
  | _ => True

/-- No Run changes its account or its Work. -/
def KeepsRuns (a a' : Authority) : Prop :=
  ∀ run r, a.runs run = some r → ∃ r', a'.runs run = some r' ∧ r'.accountId = r.accountId ∧ r'.workId = r.workId

/-- One committed or rolled-back transaction. -/
inductive ModelStep (db : Ledgers) : Ledgers → Prop
  | call (c : Coordinator.Call) (hcarries : c.Carries db) : ModelStep db (c.command.commit db)
  | freeze (caller : Caller) (fresh account run : Uuid) (operation : String) (digest version : ℕ)
      (hown : ∀ id s, db.snapshots.lookup id = some s → s.operationId = operation → s.runId = run) :
      ModelStep db ((Snapshots.freeze caller fresh account run operation digest version).commit db)
  | markDispatched (caller : Caller) (account id : Uuid) :
      ModelStep db ((Snapshots.markDispatched caller account id).commit db)
  | createRunBudget (run : Uuid) (mode : BudgetMode) (limits : Dict ℤ) (finalResponseReserveTokens : ℕ) :
      ModelStep db ((RunBudget.createSnapshot run mode limits finalResponseReserveTokens).commit db)
  | createWorkBudget (account work : Uuid) (limits : Dict ℤ) :
      ModelStep db ((WorkBudget.create account work limits).commit db)
  | changeWorkLimits (account work : Uuid) (limits : Dict ℤ) :
      ModelStep db ((WorkBudget.changeLimits account work limits).commit db)
  | surroundings (authority : Authority) (invocations : Uuid → Option Invocation)
      (hruns : KeepsRuns db.authority authority) :
      ModelStep db { db with authority := authority, invocations := invocations }

/-- The stores a sequence of steps can reach. -/
def Reachable (authority : Authority) (db : Ledgers) : Prop :=
  Relation.ReflTransGen ModelStep (Ledgers.start authority) db

/-! ### One step -/

section steps

variable {db db' : Ledgers}

theorem coordinated_start (authority : Authority) : Coordinated (Ledgers.start authority) := by
  refine ⟨conserved_start authority, ⟨fun id s h => ?_, fun id id' s s' h => ?_⟩, fun _ => none, ?_⟩
  · cases h
  · cases h
  · exact ⟨fun _ _ _ => rfl, fun _ _ => rfl, fun _ _ _ _ => rfl, fun _ _ h => by cases h⟩

/-- A transaction keeps what its successful runs keep. -/
theorem commit_coordinated {α : Type} {m : BudgetTx α} (hc : Coordinated db)
    (hm : ∀ a db', m.run db = .ok (a, db') → Coordinated db') : Coordinated (m.commit db) := by
  unfold Tx.commit
  cases h : m.run db with
  | ok p => exact hm p.1 p.2 h
  | error e => exact hc

theorem Coordinator.Call.command_coordinated (c : Coordinator.Call) (hcarries : c.Carries db) (hc : Coordinated db)
    {u : Unit} (h : c.command.run db = .ok (u, db')) : Coordinated db' := by
  cases c with
  | reserve caller account run operation total values finalResponse o =>
      obtain ⟨r, s, hcall, h⟩ := Tx.bind_ok.mp h
      obtain ⟨_, rfl⟩ := Tx.pure_ok.mp h
      obtain ⟨id, snapshot, hid, hsnap, hfor⟩ := hcarries
      exact Coordinator.reserve_coordinated hid hsnap hfor hc hcall
  | settle account run operation total values source date =>
      obtain ⟨r, s, hcall, h⟩ := Tx.bind_ok.mp h
      obtain ⟨_, rfl⟩ := Tx.pure_ok.mp h
      exact (Coordinator.settle_coordinated RunBudget.clampsNegative_max hc hcall).2
  | release account run operation date =>
      obtain ⟨r, s, hcall, h⟩ := Tx.bind_ok.mp h
      obtain ⟨_, rfl⟩ := Tx.pure_ok.mp h
      exact (Coordinator.release_coordinated RunBudget.clampsNegative_max hc hcall).2
  | recover run => exact (Coordinator.recoverTerminalInUow_coordinated RunBudget.clampsNegative_max hc h).2

/-- A store with the same usage rows, snapshots and authority, still conserved. -/
theorem Coordinated.of_sameRows (hc : Coordinated db) (hconserved : Conserved db')
    (haccount : db'.accountUsage = db.accountUsage) (hrun : db'.runUsage = db.runUsage)
    (hwork : db'.workUsage = db.workUsage) (hauthority : db'.authority = db.authority)
    (hsnapshots : db'.snapshots = db.snapshots) : Coordinated db' := by
  obtain ⟨e, hrep⟩ := hc.represented
  exact ⟨hconserved, hc.frozen.of_same hauthority hsnapshots, e,
    hrep.of_sameRows haccount hrun hwork hauthority hsnapshots⟩

/-- A new snapshot is one of an operation that had none. -/
theorem Frozen.freeze {caller : Caller} {fresh account run id : Uuid} {operation : String} {digest version : ℕ}
    (hf : Frozen db) (hown : ∀ id s, db.snapshots.lookup id = some s → s.operationId = operation → s.runId = run)
    (h : (Snapshots.freeze caller fresh account run operation digest version).run db = .ok (id, db')) :
    Frozen db' ∧ (∀ j s, db.snapshots.lookup j = some s → db'.snapshots.lookup j = some s) ∧
      ∀ j s, db'.snapshots.lookup j = some s → db.snapshots.lookup j = some s ∨
        ∀ j' s', db.snapshots.lookup j' = some s' → s'.operationId ≠ s.operationId := by
  obtain ⟨howned, ⟨rfl, _⟩ | ⟨rfl, hnone, hfresh, rfl⟩⟩ := Snapshots.freeze_ok h
  · exact ⟨hf, fun _ _ hs => hs, fun _ _ hs => .inl hs⟩
  have hlookup : ∀ j s, (db.snapshots.insert id
      ⟨account, run, operation, digest, caller.fence.map Fence.executionId, version⟩).lookup j = some s →
      (j = id ∧ s = ⟨account, run, operation, digest, caller.fence.map Fence.executionId, version⟩) ∨
        (j ≠ id ∧ db.snapshots.lookup j = some s) := by
    intro j s hj
    rw [Table.lookup_insert_ite] at hj
    split at hj
    · next hjid => exact .inl ⟨hjid, (Option.some.inj hj).symm⟩
    · next hjid => exact .inr ⟨hjid, hj⟩
  -- another snapshot of the operation would be one of the same Run, hence of the same account
  have hclash : ∀ j s, db.snapshots.lookup j = some s → s.operationId ≠ operation := by
    intro j s hs hop
    have hrun := hown j s hs hop
    refine Snapshots.ofOperation_none hnone hs ⟨?_, hrun, hop⟩
    obtain ⟨r, hr⟩ := Option.isSome_iff_exists.mp (hf.owned j s hs)
    obtain ⟨r', hr'⟩ := Option.isSome_iff_exists.mp howned
    obtain ⟨hr, haccount⟩ := Option.filter_eq_some_iff.mp hr
    obtain ⟨hr', haccount'⟩ := Option.filter_eq_some_iff.mp hr'
    rw [hrun, hr'] at hr
    obtain rfl := Option.some.inj hr
    simp only [decide_eq_true_eq] at haccount haccount'
    rw [← haccount, haccount']
  refine ⟨⟨fun j s hs => ?_, fun j j' s s' hs hs' hop => ?_⟩, fun j s hs => ?_, fun j s hs => ?_⟩
  · rcases hlookup j s hs with ⟨_, rfl⟩ | ⟨_, hs⟩
    · exact howned
    · exact hf.owned j s hs
  · rcases hlookup j s hs with ⟨rfl, rfl⟩ | ⟨_, hold⟩
    · rcases hlookup j' s' hs' with ⟨rfl, rfl⟩ | ⟨_, hold'⟩
      · rfl
      · exact absurd hop.symm (hclash j' s' hold')
    · rcases hlookup j' s' hs' with ⟨rfl, rfl⟩ | ⟨_, hold'⟩
      · exact absurd hop (hclash j s hold)
      · exact hf.unique j j' s s' hold hold' hop
  · rw [Table.lookup_insert_ite, if_neg]
    · exact hs
    · rintro rfl
      rw [hs] at hfresh
      cases hfresh
  · rcases hlookup j s hs with ⟨_, rfl⟩ | ⟨_, hold⟩
    · exact .inr hclash
    · exact .inl hold

theorem Coordinated.freeze {caller : Caller} {fresh account run id : Uuid} {operation : String} {digest version : ℕ}
    (hc : Coordinated db)
    (hown : ∀ id s, db.snapshots.lookup id = some s → s.operationId = operation → s.runId = run)
    (h : (Snapshots.freeze caller fresh account run operation digest version).run db = .ok (id, db')) :
    Coordinated db' := by
  obtain ⟨hfrozen, hkept, _⟩ := hc.frozen.freeze hown h
  obtain ⟨e, hrep⟩ := hc.represented
  obtain ⟨_, ⟨rfl, _⟩ | ⟨rfl, hnone, hfresh, rfl⟩⟩ := Snapshots.freeze_ok h
  · exact hc
  refine ⟨⟨hc.conserved.run, hc.conserved.work, hc.conserved.account⟩, hfrozen, e, hrep.account, hrep.run, hrep.work,
    fun op h he => ?_⟩
  obtain ⟨s, hs, hfor⟩ := hrep.frozen op h he
  exact ⟨s, hkept _ s hs, hfor⟩

theorem Coordinated.surroundings {authority : Authority} {invocations : Uuid → Option Invocation}
    (hc : Coordinated db) (hruns : KeepsRuns db.authority authority) :
    Coordinated { db with authority := authority, invocations := invocations } := by
  obtain ⟨e, hrep⟩ := hc.represented
  have howned : ∀ account run, (db.authority.ownedRun account run).isSome = true →
      (authority.ownedRun account run).isSome = true ∧ meteredOn authority run = meteredOn db.authority run := by
    intro account run howns
    obtain ⟨r, hr⟩ := Option.isSome_iff_exists.mp howns
    obtain ⟨hr, haccount⟩ := Option.filter_eq_some_iff.mp hr
    obtain ⟨r', hr', haccount', hwork⟩ := hruns run r hr
    constructor
    · unfold Authority.ownedRun
      rw [hr', Option.filter_some, haccount', if_pos haccount]
      rfl
    · unfold WorkBudget.meteredOn
      rw [hr, hr', Option.bind_some, Option.bind_some, haccount', hwork]
  refine ⟨⟨hc.conserved.run, hc.conserved.work, hc.conserved.account⟩,
    ⟨fun id s hs => (howned _ _ (hc.frozen.owned id s hs)).1, hc.frozen.unique⟩, e, hrep.account, hrep.run,
    fun account work run operation => ?_, hrep.frozen⟩
  refine (hrep.work account work run operation).trans ?_
  cases he : e operation with
  | none => rfl
  | some h =>
      obtain ⟨s, hs, haccount, hrun, _⟩ := hrep.frozen operation h he
      have hsame := (howned _ _ (hc.frozen.owned _ s hs)).2
      rw [hrun] at hsame
      rw [Option.elim_some, Option.elim_some]
      by_cases hkey : h.run = run
      · subst hkey
        rw [hsame]
      · rw [if_neg fun hk => hkey hk.1, if_neg fun hk => hkey hk.1]

/-- **One step keeps the three ledgers images of one.** -/
theorem ModelStep.coordinated (h : ModelStep db db') (hc : Coordinated db) : Coordinated db' := by
  cases h with
  | call c hcarries => exact commit_coordinated hc fun _ _ h => c.command_coordinated hcarries hc h
  | freeze caller fresh account run operation digest version hown =>
      exact commit_coordinated hc fun _ _ h => hc.freeze hown h
  | markDispatched caller account id =>
      refine commit_coordinated hc fun _ _ h => ?_
      obtain ⟨_, _, _, _, _, _, _, _, _, rfl⟩ := Snapshots.markDispatched_ok h
      exact hc.of_sameRows ⟨hc.conserved.run, hc.conserved.work, hc.conserved.account⟩ rfl rfl rfl rfl rfl
  | createRunBudget run mode limits reserve =>
      refine commit_coordinated hc fun _ _ h => ?_
      have hconserved := RunBudget.createSnapshot_conserves _ _ _ _ _ _ _ h hc.conserved
      unfold RunBudget.createSnapshot at h
      rw [Tx.bind_query_ok, Tx.bind_check_ok] at h
      obtain rfl := Tx.update_ok.mp h.2
      exact hc.of_sameRows hconserved rfl rfl rfl rfl rfl
  | createWorkBudget account work limits =>
      refine commit_coordinated hc fun _ _ h => ?_
      have hconserved := WorkBudget.create_conserves _ _ _ _ _ _ h hc.conserved
      unfold WorkBudget.create at h
      rw [Tx.bind_query_ok, Tx.bind_check_ok] at h
      obtain rfl := Tx.update_ok.mp h.2
      exact hc.of_sameRows hconserved rfl rfl rfl rfl rfl
  | changeWorkLimits account work limits =>
      refine commit_coordinated hc fun _ _ h => ?_
      have hconserved := WorkBudget.changeLimits_conserves _ _ _ _ _ _ h hc.conserved
      obtain rfl := Tx.update_ok.mp h
      exact hc.of_sameRows hconserved rfl rfl rfl rfl rfl
  | surroundings authority invocations hruns => exact hc.surroundings hruns

end steps

/-- **Every reachable store is coordinated.** -/
theorem Reachable.coordinated {authority : Authority} {db : Ledgers} (h : Reachable authority db) :
    Coordinated db := by
  induction h with
  | refl => exact coordinated_start authority
  | tail _ hstep ih => exact hstep.coordinated ih

/-! ### What it says about the rows -/

/-- The three ledgers agree on an operation of a Run. -/
structure OperationAgrees (db : Ledgers) (account run : Uuid) (operation : String) : Prop where
  oneDay : ∀ day day' row row', db.accountUsage.lookup ⟨account, day, operation⟩ = some row →
    db.accountUsage.lookup ⟨account, day', operation⟩ = some row' → day = day'
  runRows : (∃ day row, db.accountUsage.lookup ⟨account, day, operation⟩ = some row) ↔
    RunBudget.rows db run operation ≠ Dict.empty
  workRows : ∀ work, meteredOn db.authority run = some (account, work) →
    ((∃ day row, db.accountUsage.lookup ⟨account, day, operation⟩ = some row) ↔
      WorkBudget.rows db account work run operation ≠ Dict.empty)
  states : ∀ day row, db.accountUsage.lookup ⟨account, day, operation⟩ = some row →
    (∀ d r, RunBudget.rows db run operation d = some r → r.state = row.state) ∧
    ∀ work d r, WorkBudget.rows db account work run operation d = some r → r.state = row.state
  tokens : ∀ day row, db.accountUsage.lookup ⟨account, day, operation⟩ = some row →
    ∃ r, RunBudget.rows db run operation .modelTotalTokens = some r ∧ r.reservedAmount = row.reservedTokens ∧
      r.actualAmount = row.actualTokens

/-- Images of one ledger agree on every operation a snapshot was frozen for. -/
theorem Represents.operationAgrees {db : Ledgers} {e : String → Option ModelHold} (hrep : Represents db e)
    (hfrozen : Frozen db) {id : Uuid} {s : Snapshot} (hs : db.snapshots.lookup id = some s) :
    OperationAgrees db s.accountId s.runId s.operationId := by
  -- a hold of the operation is the one of this snapshot
  have hhold : ∀ h, e s.operationId = some h → h.account = s.accountId ∧ h.run = s.runId := by
    intro h he
    obtain ⟨s', hs', haccount, hrun, hop⟩ := hrep.frozen _ h he
    obtain rfl := hfrozen.unique _ _ _ _ hs' hs hop
    obtain rfl := Option.some.inj (hs'.symm.trans hs)
    exact ⟨haccount.symm, hrun.symm⟩
  have hexists : (∃ day row, db.accountUsage.lookup ⟨s.accountId, day, s.operationId⟩ = some row) ↔
      ∃ h, e s.operationId = some h := by
    constructor
    · rintro ⟨day, row, hrow⟩
      obtain ⟨h, he, _⟩ := hrep.of_accountRow hrow
      exact ⟨h, he⟩
    · rintro ⟨h, he⟩
      have hrow := hrep.accountRow_of he
      rw [(hhold h he).1] at hrow
      exact ⟨h.day, _, hrow⟩
  refine ⟨fun day day' row row' hrow hrow' => ?_, ?_, fun work hm => ?_, fun day row hrow => ?_, fun day row hrow => ?_⟩
  · obtain ⟨h, he, _, rfl, _⟩ := hrep.of_accountRow hrow
    obtain ⟨h', he', _, rfl, _⟩ := hrep.of_accountRow hrow'
    obtain rfl := Option.some.inj (he.symm.trans he')
    rfl
  · rw [hexists]
    constructor
    · rintro ⟨h, he⟩
      rw [← (hhold h he).2, hrep.runRows_of he]
      exact ModelHold.runRows_ne_empty
    · intro hne
      obtain ⟨h, he, _⟩ := hrep.of_runRows hne
      exact ⟨h, he⟩
  · rw [hexists]
    constructor
    · rintro ⟨h, he⟩
      have hrun := (hhold h he).2
      rw [← hrun] at hm ⊢
      rw [hrep.workRows_of he hm]
      exact ModelHold.workRows_ne_empty
    · intro hne
      obtain ⟨h, he, _⟩ := hrep.of_workRows hne
      exact ⟨h, he⟩
  · obtain ⟨h, he, _, _, rfl⟩ := hrep.of_accountRow hrow
    constructor
    · intro d r hr
      rw [← (hhold h he).2, hrep.runRows_of he] at hr
      exact ModelHold.state_of_runRows hr
    · intro work d r hr
      have hne : WorkBudget.rows db s.accountId work s.runId s.operationId ≠ Dict.empty := by
        intro hempty
        rw [hempty] at hr
        cases hr
      obtain ⟨h', he', _, _, hrows⟩ := hrep.of_workRows hne
      obtain rfl := Option.some.inj (he.symm.trans he')
      rw [hrows] at hr
      exact ModelHold.state_of_workRows hr
  · obtain ⟨h, he, _, _, rfl⟩ := hrep.of_accountRow hrow
    obtain ⟨r, hr, hreserved, hactual⟩ := h.runRows_total
    refine ⟨r, ?_, hreserved, hactual⟩
    rw [← (hhold h he).2, hrep.runRows_of he]
    exact hr

/-- **Cross-ledger agreement and atomicity.** In every reachable store the three ledgers agree on every
operation, every row of each ledger belongs to an operation a snapshot was frozen for, and a call that
raises leaves the store as it was. -/
theorem model_ledgers_agree {authority : Authority} {db : Ledgers} (hreach : Reachable authority db) :
    (∀ id s, db.snapshots.lookup id = some s → OperationAgrees db s.accountId s.runId s.operationId) ∧
    (∀ account day operation row, db.accountUsage.lookup ⟨account, day, operation⟩ = some row →
      ∃ id s, db.snapshots.lookup id = some s ∧ s.accountId = account ∧ s.operationId = operation) ∧
    (∀ run operation, RunBudget.rows db run operation ≠ Dict.empty →
      ∃ id s, db.snapshots.lookup id = some s ∧ s.runId = run ∧ s.operationId = operation) ∧
    (∀ account work run operation, WorkBudget.rows db account work run operation ≠ Dict.empty →
      meteredOn db.authority run = some (account, work) ∧
        ∃ id s, db.snapshots.lookup id = some s ∧ s.runId = run ∧ s.operationId = operation) ∧
    ∀ (c : Coordinator.Call) e, c.command.run db = .error e → c.command.commit db = db := by
  have hc := hreach.coordinated
  obtain ⟨e, hrep⟩ := hc.represented
  refine ⟨fun id s hs => hrep.operationAgrees hc.frozen hs, fun account day operation row hrow => ?_,
    fun run operation hne => ?_, fun account work run operation hne => ?_, fun c e he => ?_⟩
  · obtain ⟨h, he, rfl, _, _⟩ := hrep.of_accountRow hrow
    obtain ⟨s, hs, haccount, _, hop⟩ := hrep.frozen operation h he
    exact ⟨h.snapshot, s, hs, haccount, hop⟩
  · obtain ⟨h, he, rfl, _⟩ := hrep.of_runRows hne
    obtain ⟨s, hs, _, hrun, hop⟩ := hrep.frozen operation h he
    exact ⟨h.snapshot, s, hs, hrun, hop⟩
  · obtain ⟨h, he, rfl, hm, _⟩ := hrep.of_workRows hne
    obtain ⟨s, hs, _, hrun, hop⟩ := hrep.frozen operation h he
    exact ⟨hm, h.snapshot, s, hs, hrun, hop⟩
  · unfold Tx.commit
    rw [he]

/-! ### One settled call -/

/-- One account with one running conversation Run. -/
def soloAuthority : Authority where
  accounts a := if a = 1 then some ⟨true, some ⟨"standard", none, none, 1⟩⟩ else none
  conversations _ _ := true
  runs r := if r = 7 then some ⟨1, .chat 3, .running⟩ else none
  works _ := none
  executions e := if e = 5 then some ⟨1, 7, .running, false⟩ else none
  rootExecution r := if r = 7 then some 5 else none
  leases _ := none
  snapshotRevoked _ := false

def soloValues (tokens : ℤ) : Values := ⟨[("model_total_tokens", .int tokens), ("model_calls", .int 1)], by simp⟩

/-- A budget of 100 in every dimension. -/
def soloBudget : Ledgers :=
  (RunBudget.createSnapshot 7 .enforce (fun _ => some 100) 0).commit (Ledgers.start soloAuthority)

def soloFrozen : Ledgers := (Snapshots.freeze ⟨none, 0⟩ 9 1 7 "model:1" 5 1).commit soloBudget

def soloReserve : Coordinator.Call :=
  .reserve ⟨none, 0⟩ 1 7 "model:1" (.int 10) (soloValues 10) false { snapshotId := some 9 }

def soloReserved : Ledgers := soloReserve.command.commit soloFrozen

def soloSettle : Coordinator.Call := .settle 1 7 "model:1" (.int 8) (soloValues 8) "provider" none

def soloSettled : Ledgers := soloSettle.command.commit soloReserved

theorem reachable_soloReserved : Reachable soloAuthority soloReserved := by
  have hbudget : Reachable soloAuthority soloBudget :=
    Relation.ReflTransGen.refl.tail (.createRunBudget 7 .enforce (fun _ => some 100) 0)
  have hfrozen : Reachable soloAuthority soloFrozen :=
    hbudget.tail (.freeze ⟨none, 0⟩ 9 1 7 "model:1" 5 1 fun _ _ h => by cases h)
  exact hfrozen.tail (.call soloReserve ⟨9, ⟨1, 7, "model:1", 5, none, 1⟩, rfl, by decide, rfl, rfl, rfl⟩)

theorem model_ledgers_agree_settled :
    soloSettled.accountUsage.lookup ⟨1, 0, "model:1"⟩ = some ⟨some 9, .settled, 10, some 8, some .provider⟩ ∧
      OperationAgrees soloSettled 1 7 "model:1" :=
  ⟨by decide, (model_ledgers_agree (reachable_soloReserved.tail (.call soloSettle trivial))).1 9
    ⟨1, 7, "model:1", 5, none, 1⟩ (by decide)⟩

end HpAgent.Budget
