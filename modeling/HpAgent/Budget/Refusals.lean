import HpAgent.Budget.Coordinator

/-! # What the calls can raise

A call that raises leaves every ledger as it was.  The lemmas of this module say which errors each part of a
reservation can raise, so that a refusal can be traced back to the check that made it.

* `Admission`: the errors of the checks on Runs, Executions and leases.
* `RunBudget.reserveInUow_exhausted`: a Run is reported exhausted only by its own limit test, which names the
  dimensions that do not fit. -/

namespace HpAgent

open Library

variable {caller : Caller} {finalResponse : Bool} {db : Ledgers}

namespace Authority

/-- The errors of the checks on Runs, Executions and leases. -/
def Admission : Error → Prop
  | .resourceNotFound | .conversationBusy | .runNotExecutable _ | .staleFencingToken _ | .memoryContextRevoked => True
  | _ => False

section admission

variable {a : Authority} {account run work : Uuid} {execution : Option Uuid} {e : Error}

theorem lock_error (h : a.lock account run = .error e) : Admission e := by
  unfold lock at h
  split at h
  · split at h <;> split at h <;> cases h <;> trivial
  · cases h
    trivial

theorem checkWork_error {revision epoch : ℕ} (h : a.checkWork account run work revision epoch = .error e) :
    Admission e := by
  unfold checkWork at h
  split at h
  · split at h
    · cases h
      trivial
    · split at h <;> cases h
      trivial
  · cases h
    trivial

theorem requireActiveRun_error (h : a.requireActiveRun account run = .error e) : Admission e := by
  unfold requireActiveRun at h
  dsimp only at h
  split at h
  · cases h
  · next e' he =>
    obtain rfl := Except.error.inj h
    split
    · trivial
    · refine Tx.RaisesOnly.of_bind he (fun _ => lock_error) fun r e h => ?_
      split at h
      · split at h
        · refine Tx.RaisesOnly.of_bind h (fun _ => checkWork_error) fun _ e h => ?_
          split at h <;> cases h
          trivial
        · refine Tx.RaisesOnly.of_bind h (fun e he => nomatch he) fun _ e h => ?_
          split at h <;> cases h
          trivial
      · cases h
        trivial

theorem checkExecution_error (h : a.checkExecution account run execution = .error e) : Admission e := by
  refine Tx.RaisesOnly.of_bind h (fun e h => ?_) fun _ e h => ?_
  · unfold accountEpoch at h
    split at h <;> cases h
    trivial
  · split at h <;> cases h
    trivial

theorem assertExecutionFence_error {now : Instant} {f : Option Fence} (h : a.assertExecutionFence now f = .error e) :
    Admission e := by
  unfold assertExecutionFence at h
  cases f with
  | none => cases h
  | some f =>
      dsimp only at h
      split at h
      · cases h
        trivial
      · next he =>
        obtain rfl := Except.error.inj h
        refine Tx.RaisesOnly.of_bind he (fun _ => requireActiveRun_error) fun _ e h => ?_
        refine Tx.RaisesOnly.of_bind h (fun _ => checkExecution_error) fun _ e h => ?_
        refine Tx.RaisesOnly.of_bind h (fun e h => ?_) fun _ e h => ?_
        · unfold lockExecution at h
          split at h <;> cases h
          trivial
        · split at h <;> cases h
          trivial
      · split at h <;> cases h
        trivial

end admission

end Authority

namespace Budget

open Authority (Admission)

/-- Any error but a Run's own exhaustion. -/
def OtherThanExhausted (e : Error) : Prop := ∀ message, e ≠ .runBudgetExhausted message

theorem other_of_admission {e : Error} (h : Admission e) : OtherThanExhausted e := by
  rintro message rfl
  exact h

section amounts

variable {e : Error}

theorem amounts_error {values : List (String × Raw)} (h : amounts values = .error e) : OtherThanExhausted e := by
  refine Tx.RaisesOnly.of_bind h (fun e h => Tx.RaisesOnly.of_foldlM (fun acc p e h => ?_) h) fun v e h => ?_
  · obtain ⟨dimension, raw⟩ := p
    unfold normalize at h
    dsimp only at h
    split at h
    · cases h
      exact nofun
    · split at h <;> cases h
      exact nofun
  · unfold nonempty at h
    split at h <;> cases h
    exact nofun

end amounts

section reserve

variable {run : Uuid} {operation : String}

theorem RunBudget.checkFence_raises (caller : Caller) : Tx.RaisesOnly Admission (RunBudget.checkFence caller run) := by
  unfold RunBudget.checkFence
  cases caller.fence with
  | none => exact .pure _
  | some f =>
      refine (Tx.RaisesOnly.query _).bind fun a => (Tx.RaisesOnly.ofExcept ?_).bind fun _ => .check trivial
      exact fun _ => Authority.assertExecutionFence_error

theorem WorkBudget.reserve_raises {account work : Uuid} {b : WorkBudget} {revision epoch : ℕ} {status : RunStatus}
    {values : Dict ℕ} :
    Tx.RaisesOnly OtherThanExhausted (WorkBudget.reserve account work run operation b revision epoch status values) := by
  refine (Tx.RaisesOnly.query _).bind fun a => (Tx.RaisesOnly.check nofun).bind fun _ =>
    (Tx.RaisesOnly.check nofun).bind fun _ => Tx.RaisesOnly.bind ?_ fun _ => .update _
  refine .foldlM (fun reserved p => Tx.RaisesOnly.bind ?_ fun _ => .pure _) _ _
  exact (Tx.RaisesOnly.query _).bind fun _ => (Tx.RaisesOnly.check nofun).bind fun _ =>
    (Tx.RaisesOnly.check nofun).bind fun _ => .update _

theorem WorkBudget.mutate_reserve_raises (values : Dict ℕ) :
    Tx.RaisesOnly OtherThanExhausted (WorkBudget.mutate run operation (.reserve values)) := by
  refine (Tx.RaisesOnly.query _).bind fun found => ?_
  cases found with
  | none => exact .pure _
  | some r =>
      dsimp only
      cases r.source with
      | chat conversation => exact .pure _
      | work work revision epoch =>
          refine (Tx.RaisesOnly.query _).bind fun found => (Tx.RaisesOnly.demand (by intro message h; cases h)).bind fun b =>
            (Tx.RaisesOnly.query _).bind fun rs => ?_
          dsimp only
          split
          · exact WorkBudget.reserve_raises
          · exact .check (by intro message h; cases h)

/-- The row of a capability invocation over its call limit is refused by the trigger, not by the Run. -/
theorem RunBudget.insertRow_raises (key : RunUsageKey) (amount : ℕ) (execution : Option Uuid) :
    Tx.RaisesOnly OtherThanExhausted (RunBudget.insertRow key amount execution) := by
  refine .bind_query fun s e h => Tx.RaisesOnly.bind_ofExcept (fun e he => ?_) (fun _ _ => ?_) s e h
  · unfold RunBudget.enforceCapabilityUsageLimit at he
    split at he
    · cases he
    · split at he
      · split at he
        · cases he
        · split at he
          · cases he
            exact nofun
          · split at he
            · cases he
            · split at he <;> cases he
              exact nofun
      · cases he
  · exact (Tx.RaisesOnly.query _).bind fun _ => (Tx.RaisesOnly.check nofun).bind fun _ =>
      (Tx.RaisesOnly.check nofun).bind fun _ => .update _

/-- An exhaustion of the Run names the dimensions that its limit test found exceeded. -/
def NamesExceeded (b : RunBudget) (finalResponse : Bool) (requested : Dict ℕ) (e : Error) : Prop :=
  ∀ message, e = .runBudgetExhausted message → ∃ exceeded,
    RunBudget.exceededDimensions b finalResponse requested = .ok exceeded ∧ message = RunBudget.exhaustedText exceeded

theorem OtherThanExhausted.names {e : Error} (h : OtherThanExhausted e) (b : RunBudget) (finalResponse : Bool)
    (requested : Dict ℕ) : NamesExceeded b finalResponse requested e :=
  fun message he => absurd he (h message)

theorem RunBudget.openHolds_raises (caller : Caller) (b : RunBudget) (requested : Dict ℕ)
    (finalResponse enforceLimits : Bool) :
    Tx.RaisesOnly (NamesExceeded b finalResponse requested)
      (RunBudget.openHolds caller run operation b requested finalResponse enforceLimits) := by
  refine .bind_ofExcept (fun e h => ?_) fun exceeded hexceeded => (Tx.RaisesOnly.check ?_).bind fun _ =>
    Tx.RaisesOnly.bind ?_ fun _ => (Tx.RaisesOnly.update _).bind fun _ => .pure _
  · refine OtherThanExhausted.names (Tx.RaisesOnly.of_foldlM (fun acc p e h => ?_) h) _ _ _
    unfold RunBudget.exceedStep at h
    split at h <;> cases h
    exact nofun
  · intro message he
    obtain rfl := Error.runBudgetExhausted.inj he
    exact ⟨exceeded, hexceeded, rfl⟩
  · refine .foldlM (fun _ p => Tx.RaisesOnly.bind ?_ fun _ => .pure _) _ _
    exact (RunBudget.insertRow_raises _ _ _).mono fun e h => h.names _ _ _

/-- The test that raises an exhaustion is that of the Run's budget. -/
theorem RunBudget.reserveBody_exhausted {values : List (String × Raw)} {requested : Dict ℕ}
    {enforceLimits : Bool} {b : RunBudget} {e : Error}
    (hvalues : amounts values = .ok requested) (hb : db.runBudgets.lookup run = some b)
    (h : (RunBudget.reserveBody caller run operation values finalResponse enforceLimits).run db = .error e) :
    NamesExceeded b finalResponse requested e := by
  have hother : ∀ {e : Error}, OtherThanExhausted e → NamesExceeded b finalResponse requested e := fun h => h.names _ _ _
  unfold RunBudget.reserveBody at h
  rcases Tx.bind_error.mp h with h | ⟨_, s, hs, h⟩
  · exact hother (other_of_admission (RunBudget.checkFence_raises _ _ _ h))
  obtain rfl := RunBudget.checkFence_ok hs
  rcases Tx.bind_error.mp h with h | ⟨requested', s, hs, h⟩
  · exact hother (Tx.RaisesOnly.ofExcept (fun _ => amounts_error) _ _ h)
  obtain ⟨hok, rfl⟩ := Tx.ofExcept_ok.mp hs
  obtain rfl := Except.ok.inj (hvalues.symm.trans hok)
  rcases Tx.bind_error.mp h with h | ⟨_, s, hs, h⟩
  · exact hother (Tx.RaisesOnly.check (by intro message h; cases h) _ _ h)
  obtain ⟨_, rfl⟩ := Tx.check_ok.mp hs
  rcases Tx.bind_error.mp h with h | ⟨_, db₁, hs, h⟩
  · exact hother (WorkBudget.mutate_reserve_raises _ _ _ h)
  have hframe := WorkBudget.mutate_frame hs
  rcases Tx.bind_error.mp h with h | ⟨b', s, hs, h⟩
  · exact hother ((Tx.RaisesOnly.query _).bind (fun _ => .demand (by intro message h; cases h)) _ _ h)
  obtain ⟨hb', rfl⟩ := RunBudget.lockBudget_ok.mp hs
  rw [hframe] at hb'
  obtain rfl := Option.some.inj (hb.symm.trans hb')
  refine Tx.RaisesOnly.bind_query (fun s e h => ?_) _ e h
  split at h
  · exact RunBudget.openHolds_raises _ _ _ _ _ _ _ h
  · exact hother ((Tx.RaisesOnly.check (by intro message h; cases h)).bind (fun _ => .pure _) _ _ h)

/-- **An exhaustion of the Run** is raised, or deferred, only by its limit test. -/
theorem RunBudget.reserveInUow_exhausted {values : List (String × Raw)} {requested : Dict ℕ}
    {enforceLimits deferExhaustion : Bool} {message : String} {b : RunBudget}
    (hvalues : amounts values = .ok requested) (hb : db.runBudgets.lookup run = some b)
    (h : (RunBudget.reserveInUow caller run operation values finalResponse enforceLimits deferExhaustion).run db
        = .error (.runBudgetExhausted message) ∨
      ∃ db', (RunBudget.reserveInUow caller run operation values finalResponse enforceLimits deferExhaustion).run db
        = .ok (.inr (.runBudgetExhausted message), db')) :
    ∃ exceeded, RunBudget.exceededDimensions b finalResponse requested = .ok exceeded ∧
      message = RunBudget.exhaustedText exceeded := by
  have hnames : ∀ e, (RunBudget.reserveBody caller run operation values finalResponse enforceLimits >>= fun m =>
      (pure (.inl m) : BudgetTx (Mutation ⊕ Error))).run db = .error e → NamesExceeded b finalResponse requested e := by
    intro e he
    rw [StateT.run_bind] at he
    cases hrun : (RunBudget.reserveBody caller run operation values finalResponse enforceLimits).run db with
    | ok p =>
        rw [hrun] at he
        exact nomatch he
    | error e' =>
        rw [hrun] at he
        obtain rfl := Except.error.inj he
        exact RunBudget.reserveBody_exhausted hvalues hb hrun
  rcases h with h | ⟨db', h⟩
  · obtain ⟨e, he, hhandler⟩ := Tx.savepoint_error.mp h
    unfold RunBudget.onReserveError at hhandler
    split at hhandler
    · split at hhandler <;> cases hhandler
    · cases deferExhaustion with
      | true => cases hhandler
      | false => exact hnames _ he _ (Except.error.inj hhandler)
    · obtain rfl := Except.error.inj hhandler
      exact hnames _ he _ rfl
  · rcases Tx.savepoint_ok.mp h with h | ⟨e, he, hhandler⟩
    · obtain ⟨m, s, _, hpure⟩ := Tx.bind_ok.mp h
      cases (Tx.pure_ok.mp hpure).1
    · unfold RunBudget.onReserveError at hhandler
      split at hhandler
      · exact (Tx.raise_ok.mp hhandler).elim
      · obtain ⟨_, _, _, hpure⟩ := Tx.bind_ok.mp hhandler
        cases deferExhaustion with
        | true =>
            obtain rfl := Error.runBudgetExhausted.inj (Sum.inr.inj (Tx.pure_ok.mp hpure).1)
            exact hnames _ he _ rfl
        | false => exact (Tx.raise_ok.mp hpure).elim
      · exact (Tx.raise_ok.mp hhandler).elim

end reserve

section coordinated

variable {account run : Uuid} {operation : String}

theorem AccountBudget.checkEntitlement_raises (o : AccountBudget.Options) (now : Instant) :
    Tx.RaisesOnly OtherThanExhausted (AccountBudget.checkEntitlement account o now) := by
  refine .bind_query fun s e h => Tx.RaisesOnly.bind (.ofExcept fun e h => ?_) (fun p => ?_) s e h
  · unfold Authority.entitlementOf at h
    split at h
    · cases h
    · split at h
      · split at h
        · cases h
        · split at h
          · cases h
          · split at h <;> cases h
            exact nofun
      · cases h
  · obtain ⟨state, found⟩ := p
    exact (Tx.RaisesOnly.demand nofun).bind fun _ => (Tx.RaisesOnly.check nofun).bind fun _ =>
      (Tx.RaisesOnly.check nofun).bind fun _ => .pure _

theorem AccountBudget.addDaily_raises (day : Date) (used reserved : ℤ) :
    Tx.RaisesOnly OtherThanExhausted (AccountBudget.addDaily account day used reserved) := by
  refine (Tx.RaisesOnly.query _).bind fun found => ?_
  cases found with
  | none => exact .pure _
  | some b => exact (Tx.RaisesOnly.check nofun).bind fun _ => (Tx.RaisesOnly.check nofun).bind fun _ => .update _

theorem AccountBudget.openHold_raises (day : Date) (requested : ℕ) (snapshot : Option Uuid) (limit : Option ℕ) :
    Tx.RaisesOnly OtherThanExhausted (AccountBudget.openHold account day operation requested snapshot limit) := by
  refine (Tx.RaisesOnly.query _).bind fun _ => (Tx.RaisesOnly.demand nofun).bind fun _ =>
    (Tx.RaisesOnly.check nofun).bind fun _ => Tx.RaisesOnly.bind ?_ fun _ =>
      (AccountBudget.addDaily_raises _ _ _).bind fun _ => .pure _
  exact (Tx.RaisesOnly.query _).bind fun _ => (Tx.RaisesOnly.check nofun).bind fun _ =>
    (Tx.RaisesOnly.check nofun).bind fun _ => .update _

theorem AccountBudget.reserveInUow_raises (value : Raw) (o : AccountBudget.Options) (now : Instant) :
    Tx.RaisesOnly OtherThanExhausted (AccountBudget.reserveInUow account operation value o now) := by
  refine (Tx.RaisesOnly.ofExcept fun e h => ?_).bind fun _ => (Tx.RaisesOnly.check nofun).bind fun _ =>
    (AccountBudget.checkEntitlement_raises _ _).bind fun _ => (Tx.RaisesOnly.ofExcept fun e h => ?_).bind fun _ =>
      (Tx.RaisesOnly.update _).bind fun _ => (Tx.RaisesOnly.query _).bind fun existing => ?_
  · unfold AccountBudget.tokens at h
    split at h <;> cases h
    exact nofun
  · split at h
    · cases h
    · unfold AccountBudget.quotaDate at h
      split at h <;> cases h
      exact nofun
  · cases existing with
    | none => exact AccountBudget.openHold_raises _ _ _ _
    | some row => exact (Tx.RaisesOnly.check nofun).bind fun _ => .pure _

theorem Coordinator.priorDay_raises (snapshot : Option Uuid) :
    Tx.RaisesOnly OtherThanExhausted (Coordinator.priorDay account operation snapshot) := by
  cases snapshot with
  | none => exact .pure _
  | some s =>
      refine (Tx.RaisesOnly.query _).bind fun prior => ?_
      split
      · exact .pure _
      · exact .pure _
      · exact .raise nofun

theorem Coordinator.priorDay_read {snapshot : Option Uuid} {day : Option Date} {db' : Ledgers}
    (h : (Coordinator.priorDay account operation snapshot).run db = .ok (day, db')) : db = db' := by
  unfold Coordinator.priorDay at h
  cases snapshot with
  | none => exact (Tx.pure_ok.mp h).2
  | some s =>
      dsimp only at h
      rw [Tx.bind_query_ok] at h
      split at h
      · exact (Tx.pure_ok.mp h).2
      · exact (Tx.pure_ok.mp h).2
      · exact (Tx.raise_ok.mp h).elim

/-- An exhaustion of the Run that a coordinated reservation raises is one of its Run reservation. -/
theorem Coordinator.reserve_exhausted {total : Raw} {values : List (String × Raw)}
    {o : AccountBudget.Options} {e : Error}
    (h : (Coordinator.reserve caller account run operation total values finalResponse o).run db = .error e) :
    OtherThanExhausted e ∨ ∃ day m s,
      (AccountBudget.reserveInUow account operation total { o with quotaDate := day } caller.now).run db = .ok (m, s) ∧
      ((RunBudget.reserveInUow caller run operation values finalResponse false false).run s = .error e ∨
        ∃ s', (RunBudget.reserveInUow caller run operation values finalResponse false false).run s
          = .ok (.inr e, s')) := by
  unfold Coordinator.reserve at h
  have hmatching : Tx.RaisesOnly OtherThanExhausted
      (Tx.ofExcept (Coordinator.requireMatchingTotal total values) : BudgetTx Unit) := by
    refine .ofExcept fun e h => ?_
    unfold Coordinator.requireMatchingTotal at h
    split at h <;> cases h
    exact nofun
  rcases Tx.bind_error.mp h with h | ⟨_, s, hs, h⟩
  · exact .inl (hmatching _ _ h)
  obtain ⟨_, rfl⟩ := Tx.ofExcept_ok.mp hs
  rcases Tx.bind_error.mp h with h | ⟨_, s, hs, h⟩
  · exact nomatch h
  obtain ⟨_, rfl⟩ := Tx.query_ok.mp hs
  rcases Tx.bind_error.mp h with h | ⟨_, s, hs, h⟩
  · exact .inl (Tx.RaisesOnly.check nofun _ _ h)
  obtain ⟨_, rfl⟩ := Tx.check_ok.mp hs
  rcases Tx.bind_error.mp h with h | ⟨authorized, s, hs, h⟩
  · exact nomatch h
  obtain ⟨rfl, rfl⟩ := Tx.query_ok.mp hs
  rcases Tx.bind_error.mp h with h | ⟨_, s, hs, h⟩
  · exact .inl (Tx.RaisesOnly.ofExcept (fun _ h => other_of_admission (Authority.requireActiveRun_error h)) _ _ h)
  obtain ⟨_, rfl⟩ := Tx.ofExcept_ok.mp hs
  rcases Tx.bind_error.mp h with h | ⟨day, s, hs, h⟩
  · exact .inl (Coordinator.priorDay_raises _ _ _ h)
  obtain rfl := Coordinator.priorDay_read hs
  rcases Tx.bind_error.mp h with h | ⟨m, s, haccount, h⟩
  · exact .inl (AccountBudget.reserveInUow_raises _ _ _ _ _ h)
  rcases Tx.bind_error.mp h with h | ⟨r, s', hrun, h⟩
  · exact .inr ⟨day, m, s, haccount, .inl h⟩
  cases r with
  | inl m => exact nomatch h
  | inr e' =>
      obtain rfl := Except.error.inj h
      exact .inr ⟨day, m, s, haccount, .inr ⟨s', hrun⟩⟩

end coordinated

end Budget

end HpAgent
