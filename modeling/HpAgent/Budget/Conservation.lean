import HpAgent.Budget.Coordinator

/-! # Budget ledger conservation

The budget calls as a transition system: `Call.step` runs one call as a transaction of its own, and
`runCalls` a sequence of calls from an empty set of ledgers.

* `Conserves` is the relation every command of the budget services keeps; `runCalls_conserved` carries
  it over any sequence of calls, those that raise and are rolled back included.
* `runCalls_clamp`: every run is the same with and without the `max(0, …)` clamps.
* `ledgers_conserved` is the main result, with the column sums written out. -/

namespace HpAgent.Budget

open Library

/-- The ledgers stay conserved. -/
def Conserves (db db' : Ledgers) : Prop := Conserved db → Conserved db'

instance : IsPreorder Ledgers Conserves where
  refl _ := id
  trans _ _ _ h₁ h₂ := h₂ ∘ h₁

/-! ### The services conserve the ledgers -/

section services

variable {run : Uuid} {operation : String} {db db' : Ledgers}

theorem WorkBudget.mutate_conserves (action : WorkBudget.Action) :
    Tx.Keeps Conserves (WorkBudget.mutate run operation action) := by
  intro db _ db' h hc
  have hframe := WorkBudget.mutate_frame h
  refine ⟨?_, WorkBudget.mutate_conserved h hc.work, ?_⟩
  · rw [hframe]
    exact hc.run
  · rw [hframe]
    exact hc.account

theorem RunBudget.Rewrote.conserves {rs : Dict RunUsage} (h : RunBudget.Rewrote run operation rs db db') :
    Conserves db db' := by
  intro hc
  obtain ⟨b, b', _, hdb, _⟩ := h.budget
  refine ⟨h.conserved hc.run, ?_, ?_⟩
  · rw [hdb]
    exact hc.work
  · rw [hdb]
    exact hc.account

theorem RunBudget.reserveInUow_conserves (caller : Caller) (values : List (String × Raw))
    (finalResponse enforceLimits deferExhaustion : Bool) :
    Tx.Keeps Conserves
      (RunBudget.reserveInUow caller run operation values finalResponse enforceLimits deferExhaustion) := by
  intro db r db' h
  rcases RunBudget.reserveInUow_ok h with ⟨m, _, hbody⟩ | ⟨_, _, rfl⟩
  · obtain ⟨requested, db₁, _, hwork, hdone⟩ := RunBudget.reserveBody_ok hbody
    have hfirst := WorkBudget.mutate_conserves _ _ _ _ hwork
    cases hdone with
    | opened _ hdone => exact trans_of Conserves hfirst hdone.conserves
    | replayed => exact hfirst
  · -- the rolled-back reservation leaves only the new status behind
    intro hc
    have hbudget : ∀ c, (Table.modify run (fun b => { b with status := .exhausted }) db.runBudgets).lookup c
        = if c = run then (db.runBudgets.lookup run).map fun b => { b with status := .exhausted }
          else db.runBudgets.lookup c := fun c => Table.lookup_modify _ _ _ _
    refine ⟨⟨fun c => ?_, fun c => ?_⟩, hc.work, hc.account⟩
    · rw [← hc.run.reserved_eq c]
      unfold Ledgers.runReserved
      dsimp only
      rw [hbudget]
      split
      · next hcr => rw [hcr]; cases db.runBudgets.lookup run <;> rfl
      · rfl
    · rw [← hc.run.used_eq c]
      unfold Ledgers.runUsed
      dsimp only
      rw [hbudget]
      split
      · next hcr => rw [hcr]; cases db.runBudgets.lookup run <;> rfl
      · rfl

theorem AccountBudget.Rewrote.conserves {key : AccountUsageKey} {row : AccountUsage}
    (h : AccountBudget.Rewrote key row db db') : Conserves db db' := by
  intro hc
  have honly := h.only
  refine ⟨?_, ?_, h.conserved hc.account⟩
  · rw [honly]
    exact hc.run
  · rw [honly]
    exact hc.work

theorem AccountBudget.Quiet.conserves (h : AccountBudget.Quiet db db') : Conserves db db' := by
  intro hc
  have honly := h.only
  refine ⟨?_, ?_, h.conserved hc.account⟩
  · rw [honly]
    exact hc.run
  · rw [honly]
    exact hc.work

theorem AccountBudget.reserveInUow_conserves (account : Uuid) (value : Raw) (o : AccountBudget.Options)
    (now : Instant) : Tx.Keeps Conserves (AccountBudget.reserveInUow account operation value o now) := by
  intro db m db' h
  obtain ⟨_, _, _, _, hdone⟩ := AccountBudget.reserveInUow_ok h
  cases hdone with
  | opened _ hdone => exact hdone.conserves
  | replayed _ _ _ hquiet => exact hquiet.conserves

theorem AccountBudget.settleInUow_conserves (account : Uuid) (value : Raw) (source : String)
    (date : Option Date) : Tx.Keeps Conserves (AccountBudget.settleInUow account operation value source date) := by
  intro db m db' h
  obtain ⟨_, _, _, _, _, _, hdone⟩ := AccountBudget.settleInUow_ok h
  cases hdone with
  | settled _ _ hdone => exact hdone.conserves
  | replayed => exact refl_of Conserves _

theorem AccountBudget.releaseInUow_conserves (account : Uuid) (date : Option Date) :
    Tx.Keeps Conserves (AccountBudget.releaseInUow account operation date) := by
  intro db m db' h
  obtain ⟨_, _, hdone⟩ := AccountBudget.releaseInUow_ok h
  cases hdone with
  | released _ _ hdone => exact hdone.conserves
  | replayed => exact refl_of Conserves _

theorem AccountBudget.lockedLedger_conserves (account : Uuid) (date : Option Date) :
    Tx.Keeps Conserves (AccountBudget.lockedLedger account operation date) :=
  Tx.Keeps.of_read fun _ _ _ h => (AccountBudget.lockedLedger_ok h).1

section closing

variable {clamp : ℤ → ℤ} (hclamp : RunBudget.ClampsNegative clamp)

include hclamp

theorem RunBudget.settleInUow_conserves (values : List (String × Raw)) (source : String) :
    Tx.Keeps Conserves (RunBudget.settleInUow clamp run operation values source) := by
  intro db m db' h hc
  obtain ⟨_, _, db₁, _, _, hwork, hdone⟩ := RunBudget.settleInUow_ok hclamp hc.run h
  have hc₁ := WorkBudget.mutate_conserves _ _ _ _ hwork hc
  cases hdone with
  | settled _ _ _ _ hdone => exact hdone.conserves hc₁
  | replayed => exact hc₁

theorem RunBudget.releaseInUow_conserves :
    Tx.Keeps Conserves (RunBudget.releaseInUow clamp run operation) := by
  intro db m db' h hc
  obtain ⟨db₁, hwork, hdone⟩ := RunBudget.releaseInUow_ok hclamp hc.run h
  have hc₁ := WorkBudget.mutate_conserves _ _ _ _ hwork hc
  cases hdone with
  | released _ _ _ hdone => exact hdone.conserves hc₁
  | replayed => exact hc₁

theorem RunBudget.recoverStep_conserves (u : Unit) (p : String × Dict ℕ) :
    Tx.Keeps Conserves (RunBudget.recoverStep clamp run u p) :=
  (RunBudget.settleInUow_conserves hclamp _ _).bind fun _ => Tx.Keeps.pure _

theorem RunBudget.recoverTerminalInUow_conserves :
    Tx.Keeps Conserves (RunBudget.recoverTerminalInUow clamp run) :=
  (Tx.Keeps.query _).bind fun _ => (Tx.Keeps.check _ _).bind fun _ => (Tx.Keeps.query _).bind fun _ =>
    Tx.Keeps.foldlM (RunBudget.recoverStep_conserves hclamp) _ _

theorem Coordinator.settle_conserves (account : Uuid) (total : Raw) (values : List (String × Raw))
    (source : String) (date : Option Date) :
    Tx.Keeps Conserves (Coordinator.settle clamp account run operation total values source date) :=
  (Tx.Keeps.ofExcept _).bind fun _ => (AccountBudget.settleInUow_conserves _ _ _ _).bind fun _ =>
    (RunBudget.settleInUow_conserves hclamp _ _).bind fun _ => Tx.Keeps.pure _

theorem Coordinator.release_conserves (account : Uuid) (date : Option Date) :
    Tx.Keeps Conserves (Coordinator.release clamp account run operation date) :=
  (AccountBudget.lockedLedger_conserves _ _).bind fun _ => (Tx.Keeps.query _).bind fun _ =>
    (Tx.Keeps.check _ _).bind fun _ => (AccountBudget.releaseInUow_conserves _ _).bind fun _ =>
      (RunBudget.releaseInUow_conserves hclamp).bind fun _ => Tx.Keeps.pure _

theorem Coordinator.recoverStep_conserves (account : Uuid) (u : Unit) (hold : Coordinator.OpenHold) :
    Tx.Keeps Conserves (Coordinator.recoverStep clamp account run u hold) := by
  refine (AccountBudget.lockedLedger_conserves _ _).bind fun locked => ?_
  obtain ⟨_, ledger⟩ := locked
  dsimp only
  split
  · split
    · exact (Tx.Keeps.query _).bind fun _ => (Tx.Keeps.ofExcept _).bind fun _ =>
        (AccountBudget.settleInUow_conserves _ _ _ _).bind fun _ =>
          (RunBudget.settleInUow_conserves hclamp _ _).bind fun _ => Tx.Keeps.pure _
    · exact (AccountBudget.releaseInUow_conserves _ _).bind fun _ =>
        (RunBudget.releaseInUow_conserves hclamp).bind fun _ => Tx.Keeps.pure _
  · exact Tx.Keeps.pure _

theorem Coordinator.recoverTerminalInUow_conserves :
    Tx.Keeps Conserves (Coordinator.recoverTerminalInUow clamp run) :=
  (Tx.Keeps.query _).bind fun _ => (Tx.Keeps.demand _ _).bind fun _ => (Tx.Keeps.query _).bind fun _ =>
    Tx.Keeps.foldlM (Coordinator.recoverStep_conserves hclamp _) _ _

end closing

theorem Coordinator.priorDay_conserves (account : Uuid) (snapshot : Option Uuid) :
    Tx.Keeps Conserves (Coordinator.priorDay account operation snapshot) := by
  unfold Coordinator.priorDay
  cases snapshot with
  | none => exact Tx.Keeps.pure _
  | some s =>
      refine (Tx.Keeps.query _).bind fun prior => ?_
      split
      · exact Tx.Keeps.pure _
      · exact Tx.Keeps.pure _
      · exact Tx.Keeps.raise _

theorem Coordinator.reserve_conserves (caller : Caller) (account : Uuid) (total : Raw)
    (values : List (String × Raw)) (finalResponse : Bool) (o : AccountBudget.Options) :
    Tx.Keeps Conserves (Coordinator.reserve caller account run operation total values finalResponse o) := by
  refine (Tx.Keeps.ofExcept _).bind fun _ => (Tx.Keeps.query _).bind fun _ => (Tx.Keeps.check _ _).bind fun _ =>
    (Tx.Keeps.query _).bind fun _ => (Tx.Keeps.ofExcept _).bind fun _ =>
      (Coordinator.priorDay_conserves _ _).bind fun _ =>
        (AccountBudget.reserveInUow_conserves _ _ _ _).bind fun _ =>
          (RunBudget.reserveInUow_conserves _ _ _ _ _).bind fun r => ?_
  cases r with
  | inl m => exact Tx.Keeps.pure _
  | inr e => exact Tx.Keeps.raise _

end services

/-! ### The clamps do nothing on conserved ledgers -/

section clamps

variable {clamp : ℤ → ℤ} (hclamp : RunBudget.ClampsNegative clamp) {run : Uuid} {operation : String}
  {db : Ledgers}

include hclamp

/-- The settle loop, while every hold still to be subtracted fits under its counter. -/
theorem RunBudget.settleLoop_clamp {rs : Dict RunUsage} {source : UsageSource} {items : List (Dimension × ℕ)}
    (hnodup : (items.map Prod.fst).Nodup) (c : Dict ℤ × Dict ℤ) (db : Ledgers)
    (hfits : ∀ p ∈ items, ((RunBudget.reservedAmounts rs p.1).getD 0 : ℤ) ≤ c.2.get p.1) :
    (items.foldlM (RunBudget.settleStep clamp run operation rs source) c).run db
      = (items.foldlM (RunBudget.settleStep id run operation rs source) c).run db := by
  induction items generalizing c db with
  | nil => rfl
  | cons p rest ih =>
      rw [List.map_cons, List.nodup_cons] at hnodup
      have hstep : RunBudget.settleStep clamp run operation rs source c p
          = RunBudget.settleStep id run operation rs source c p := by
        have hfit := hfits p List.mem_cons_self
        unfold RunBudget.settleStep
        dsimp only
        rw [hclamp _ (by omega), id_eq]
      rw [List.foldlM_cons, List.foldlM_cons, hstep]
      refine Tx.bind_congr_run fun c' s' hrun => ih hnodup.2 c' s' fun q hq => ?_
      simp only [RunBudget.settleStep, Tx.bind_ok, Tx.pure_ok] at hrun
      obtain ⟨_, _, _, rfl, _⟩ := hrun
      have hne : q.1 ≠ p.1 := fun h => hnodup.1 (h ▸ List.mem_map_of_mem hq)
      dsimp only
      rw [Dict.get_set, if_neg hne]
      exact hfits q (List.mem_cons_of_mem _ hq)

/-- The counter loop of a release, under the same condition. -/
theorem RunBudget.releaseLoop_clamp {items : List (Dimension × ℕ)} (hnodup : (items.map Prod.fst).Nodup)
    (c : Dict ℤ) (hfits : ∀ p ∈ items, (p.2 : ℤ) ≤ c.get p.1) :
    items.foldl (fun (c : Dict ℤ) p => c.set p.1 (clamp (c.get p.1 - p.2))) c
      = items.foldl (fun (c : Dict ℤ) p => c.set p.1 (id (c.get p.1 - p.2))) c := by
  induction items generalizing c with
  | nil => rfl
  | cons p rest ih =>
      rw [List.map_cons, List.nodup_cons] at hnodup
      have hfit := hfits p List.mem_cons_self
      rw [List.foldl_cons, List.foldl_cons, hclamp _ (by omega), id_eq]
      refine ih hnodup.2 _ fun q hq => ?_
      have hne : q.1 ≠ p.1 := fun h => hnodup.1 (h ▸ List.mem_map_of_mem hq)
      rw [Dict.get_set, if_neg hne]
      exact hfits q (List.mem_cons_of_mem _ hq)

omit hclamp in
/-- A successful Work half leaves the Run ledger conserved. -/
theorem RunBudget.runConserved_of_mutate {action : WorkBudget.Action} {u : Unit} {db' : Ledgers}
    (h : (WorkBudget.mutate run operation action).run db = .ok (u, db')) (hc : RunConserved db) :
    RunConserved db' := by
  rw [WorkBudget.mutate_frame h]
  exact hc

theorem RunBudget.settleInUow_clamp (hc : RunConserved db) (values : List (String × Raw)) (source : String) :
    (RunBudget.settleInUow clamp run operation values source).run db
      = (RunBudget.settleInUow id run operation values source).run db := by
  unfold RunBudget.settleInUow
  refine Tx.bind_congr_run fun source s hs => Tx.bind_congr_run fun actual s' hs' => ?_
  obtain ⟨_, rfl⟩ := Tx.ofExcept_ok.mp hs
  obtain ⟨_, rfl⟩ := Tx.ofExcept_ok.mp hs'
  refine Tx.bind_congr_run fun _ db₁ hwork => ?_
  have hc₁ : RunConserved db₁ := RunBudget.runConserved_of_mutate hwork hc
  refine Tx.bind_congr_run fun b s hb => ?_
  obtain ⟨hbudget, rfl⟩ := RunBudget.lockBudget_ok.mp hb
  refine Tx.bind_congr_run fun rs s hrs => ?_
  obtain ⟨hrows, rfl⟩ := Tx.query_ok.mp hrs
  refine Tx.bind_congr_run fun _ s hkeys => ?_
  obtain ⟨_, rfl⟩ := Tx.check_ok.mp hkeys
  split
  · rfl
  · refine Tx.bind_congr_run fun _ s hall => ?_
    obtain ⟨⟨_, hreserved⟩, rfl⟩ := Tx.check_ok.mp hall
    unfold RunBudget.settleRows
    rw [StateT.run_bind, StateT.run_bind, RunBudget.settleLoop_clamp hclamp actual.nodup_items]
    intro p _
    unfold RunBudget.reservedAmounts
    cases hr : rs p.1 with
    | none => exact (Ledger.Balanced.reserved_nonneg hc₁ (run, p.1)).trans_eq (by
        simp [Ledgers.runReserved, hbudget])
    | some r =>
        have hs : r.state = .reserved := by simpa using RunBudget.allRows_iff.mp hreserved p.1 r hr
        exact RunBudget.held_le_reserved hc₁ hbudget
          (show RunBudget.rows db₁ run operation p.1 = some r by rw [hrows, hr]) hs

theorem RunBudget.releaseInUow_clamp (hc : RunConserved db) :
    (RunBudget.releaseInUow clamp run operation).run db
      = (RunBudget.releaseInUow id run operation).run db := by
  unfold RunBudget.releaseInUow
  refine Tx.bind_congr_run fun _ db₁ hwork => ?_
  have hc₁ : RunConserved db₁ := RunBudget.runConserved_of_mutate hwork hc
  refine Tx.bind_congr_run fun b s hb => ?_
  obtain ⟨hbudget, rfl⟩ := RunBudget.lockBudget_ok.mp hb
  refine Tx.bind_congr_run fun rs s hrs => ?_
  obtain ⟨hrows, rfl⟩ := Tx.query_ok.mp hrs
  refine Tx.bind_congr_run fun _ s hne => ?_
  obtain ⟨_, rfl⟩ := Tx.check_ok.mp hne
  split
  · rfl
  · refine Tx.bind_congr_run fun _ s hall => ?_
    obtain ⟨hreserved, rfl⟩ := Tx.check_ok.mp hall
    unfold RunBudget.releaseHolds
    dsimp only
    rw [RunBudget.releaseLoop_clamp hclamp (RunBudget.reservedAmounts rs).nodup_items]
    intro p hp
    have hp' := Dict.mem_items.mp hp
    obtain ⟨r, hr, hamount⟩ := Option.map_eq_some_iff.mp hp'
    have hs : r.state = .reserved := by simpa using RunBudget.allRows_iff.mp hreserved p.1 r hr
    rw [← hamount]
    exact RunBudget.held_le_reserved hc₁ hbudget
      (show RunBudget.rows db₁ run operation p.1 = some r by rw [hrows, hr]) hs

theorem RunBudget.recoverStep_clamp (hc : RunConserved db) (u : Unit) (p : String × Dict ℕ) :
    (RunBudget.recoverStep clamp run u p).run db = (RunBudget.recoverStep id run u p).run db := by
  unfold RunBudget.recoverStep
  rw [StateT.run_bind, StateT.run_bind, RunBudget.settleInUow_clamp hclamp hc]

theorem RunBudget.recoverTerminalInUow_clamp (hc : Conserved db) :
    (RunBudget.recoverTerminalInUow clamp run).run db = (RunBudget.recoverTerminalInUow id run).run db := by
  unfold RunBudget.recoverTerminalInUow
  refine Tx.bind_congr_run fun _ s hs => ?_
  obtain ⟨_, rfl⟩ := Tx.query_ok.mp hs
  refine Tx.bind_congr_run fun _ s hs => ?_
  obtain ⟨_, rfl⟩ := Tx.check_ok.mp hs
  refine Tx.bind_congr_run fun operations s hs => ?_
  obtain ⟨_, rfl⟩ := Tx.query_ok.mp hs
  exact Tx.foldlM_congr_run Conserved (fun u p s hP => RunBudget.recoverStep_clamp hclamp hP.run u p)
    (fun u p s u' s' hP h => RunBudget.recoverStep_conserves hclamp u p s u' s' h hP) operations () hc

theorem Coordinator.settle_clamp (hc : Conserved db) (account : Uuid) (total : Raw)
    (values : List (String × Raw)) (source : String) (date : Option Date) :
    (Coordinator.settle clamp account run operation total values source date).run db
      = (Coordinator.settle id account run operation total values source date).run db := by
  unfold Coordinator.settle
  refine Tx.bind_congr_run fun _ s hs => ?_
  obtain ⟨_, rfl⟩ := Tx.ofExcept_ok.mp hs
  refine Tx.bind_congr_run fun a s hs => ?_
  have hc₁ := AccountBudget.settleInUow_conserves _ _ _ _ _ _ _ hs hc
  rw [StateT.run_bind, StateT.run_bind, RunBudget.settleInUow_clamp hclamp hc₁.run]

theorem Coordinator.release_clamp (hc : Conserved db) (account : Uuid) (date : Option Date) :
    (Coordinator.release clamp account run operation date).run db
      = (Coordinator.release id account run operation date).run db := by
  unfold Coordinator.release
  refine Tx.bind_congr_run fun _ s hs => ?_
  obtain ⟨rfl, _⟩ := AccountBudget.lockedLedger_ok hs
  refine Tx.bind_congr_run fun _ s hs => ?_
  obtain ⟨_, rfl⟩ := Tx.query_ok.mp hs
  refine Tx.bind_congr_run fun _ s hs => ?_
  obtain ⟨_, rfl⟩ := Tx.check_ok.mp hs
  refine Tx.bind_congr_run fun a s hs => ?_
  have hc₁ := AccountBudget.releaseInUow_conserves _ _ _ _ _ hs hc
  rw [StateT.run_bind, StateT.run_bind, RunBudget.releaseInUow_clamp hclamp hc₁.run]

theorem Coordinator.recoverStep_clamp (hc : Conserved db) (account : Uuid) (u : Unit)
    (hold : Coordinator.OpenHold) :
    (Coordinator.recoverStep clamp account run u hold).run db
      = (Coordinator.recoverStep id account run u hold).run db := by
  unfold Coordinator.recoverStep
  refine Tx.bind_congr_run fun locked s hs => ?_
  obtain ⟨day, ledger⟩ := locked
  obtain ⟨rfl, _⟩ := AccountBudget.lockedLedger_ok hs
  dsimp only
  split
  · split
    · refine Tx.bind_congr_run fun amounts s hs => ?_
      obtain ⟨_, rfl⟩ := Tx.query_ok.mp hs
      refine Tx.bind_congr_run fun _ s hs => ?_
      obtain ⟨_, rfl⟩ := Tx.ofExcept_ok.mp hs
      refine Tx.bind_congr_run fun a s hs => ?_
      have hc₁ := AccountBudget.settleInUow_conserves _ _ _ _ _ _ _ hs hc
      rw [StateT.run_bind, StateT.run_bind, RunBudget.settleInUow_clamp hclamp hc₁.run]
    · refine Tx.bind_congr_run fun a s hs => ?_
      have hc₁ := AccountBudget.releaseInUow_conserves _ _ _ _ _ hs hc
      rw [StateT.run_bind, StateT.run_bind, RunBudget.releaseInUow_clamp hclamp hc₁.run]
  · rfl

theorem Coordinator.recoverTerminalInUow_clamp (hc : Conserved db) :
    (Coordinator.recoverTerminalInUow clamp run).run db = (Coordinator.recoverTerminalInUow id run).run db := by
  unfold Coordinator.recoverTerminalInUow
  refine Tx.bind_congr_run fun _ s hs => ?_
  obtain ⟨_, rfl⟩ := Tx.query_ok.mp hs
  refine Tx.bind_congr_run fun r s hs => ?_
  obtain ⟨_, rfl⟩ := Tx.demand_ok.mp hs
  refine Tx.bind_congr_run fun holds s hs => ?_
  obtain ⟨_, rfl⟩ := Tx.query_ok.mp hs
  exact Tx.foldlM_congr_run Conserved (fun u p s hP => Coordinator.recoverStep_clamp hclamp hP r.accountId u p)
    (fun u p s u' s' hP h => Coordinator.recoverStep_conserves hclamp r.accountId u p s u' s' h hP) holds () hc

end clamps

/-! ### Runs -/

/-- Everything that changes the budget tables or what their code reads: the calls of the services, the
creation of budgets, a change of a Work's limits, and any change of the other tables. -/
inductive Call where
  | runReserve (caller : Caller) (run : Uuid) (operation : String) (values : List (String × Raw))
      (finalResponse enforceLimits : Bool)
  | runSettle (run : Uuid) (operation : String) (values : List (String × Raw)) (source : String)
  | runRelease (run : Uuid) (operation : String)
  | runRecover (run : Uuid)
  | accountReserve (account : Uuid) (operation : String) (value : Raw) (o : AccountBudget.Options)
      (now : Instant)
  | accountSettle (account : Uuid) (operation : String) (value : Raw) (source : String) (date : Option Date)
  | accountRelease (account : Uuid) (operation : String) (date : Option Date)
  | reserve (caller : Caller) (account run : Uuid) (operation : String) (total : Raw)
      (values : List (String × Raw)) (finalResponse : Bool) (o : AccountBudget.Options)
  | settle (account run : Uuid) (operation : String) (total : Raw) (values : List (String × Raw))
      (source : String) (date : Option Date)
  | release (account run : Uuid) (operation : String) (date : Option Date)
  | recover (run : Uuid)
  | createRunBudget (run : Uuid) (mode : BudgetMode) (limits : Dict ℤ) (finalResponseReserveTokens : ℕ)
  | createWorkBudget (account work : Uuid) (limits : Dict ℤ)
  | changeWorkLimits (account work : Uuid) (limits : Dict ℤ)
  | environment (authority : Authority) (invocations : Uuid → Option Invocation)
      (snapshots : Table Uuid Snapshot) (dispatches : Table (Uuid × Uuid) Unit)

/-- `RunBudgetRepository.create_snapshot`. -/
def RunBudget.createSnapshot (run : Uuid) (mode : BudgetMode) (limits : Dict ℤ) (finalResponseReserveTokens : ℕ) :
    BudgetTx Unit := do
  let old ← Tx.query fun db => db.runBudgets.lookup run
  Tx.check (old.isNone) .integrityError
  Tx.update fun db =>
    { db with runBudgets := db.runBudgets.insert run
                ⟨mode, .ok, limits, Dict.empty, Dict.empty, finalResponseReserveTokens⟩ }

/-- `WorkBudgetService.create`. -/
def WorkBudget.create (account work : Uuid) (limits : Dict ℤ) : BudgetTx Unit := do
  let old ← Tx.query fun db => db.workBudgets.lookup (account, work)
  Tx.check (old.isNone) .integrityError
  Tx.update fun db =>
    { db with workBudgets := db.workBudgets.insert (account, work) ⟨limits, Dict.empty, Dict.empty, 1⟩ }

/-- `UPDATE work_budgets SET limits, version=version+1`. -/
def WorkBudget.changeLimits (account work : Uuid) (limits : Dict ℤ) : BudgetTx Unit :=
  Tx.update fun db =>
    { db with workBudgets := Table.modify (account, work)
                (fun b => ⟨limits, b.used, b.reserved, b.version + 1⟩) db.workBudgets }

/-- The store after one call, a transaction of its own. -/
def Call.step (clamp : ℤ → ℤ) (db : Ledgers) : Call → Ledgers
  | .runReserve caller run operation values finalResponse enforceLimits =>
    (RunBudget.reserve caller run operation values finalResponse enforceLimits).commit db
  | .runSettle run operation values source => (RunBudget.settleInUow clamp run operation values source).commit db
  | .runRelease run operation => (RunBudget.releaseInUow clamp run operation).commit db
  | .runRecover run => (RunBudget.recoverTerminalInUow clamp run).commit db
  | .accountReserve account operation value o now =>
    (AccountBudget.reserveInUow account operation value o now).commit db
  | .accountSettle account operation value source date =>
    (AccountBudget.settleInUow account operation value source date).commit db
  | .accountRelease account operation date => (AccountBudget.releaseInUow account operation date).commit db
  | .reserve caller account run operation total values finalResponse o =>
    (Coordinator.reserve caller account run operation total values finalResponse o).commit db
  | .settle account run operation total values source date =>
    (Coordinator.settle clamp account run operation total values source date).commit db
  | .release account run operation date => (Coordinator.release clamp account run operation date).commit db
  | .recover run => (Coordinator.recoverTerminalInUow clamp run).commit db
  | .createRunBudget run mode limits finalResponseReserveTokens =>
    (RunBudget.createSnapshot run mode limits finalResponseReserveTokens).commit db
  | .createWorkBudget account work limits => (WorkBudget.create account work limits).commit db
  | .changeWorkLimits account work limits => (WorkBudget.changeLimits account work limits).commit db
  | .environment authority invocations snapshots dispatches =>
    { db with authority := authority, invocations := invocations, snapshots := snapshots,
              dispatches := dispatches }

/-- The ledgers before any budget exists. -/
def Ledgers.start (authority : Authority) : Ledgers where
  authority := authority
  invocations _ := none
  snapshots := ∅
  dispatches := ∅
  runBudgets := ∅
  runUsage := ∅
  workBudgets := ∅
  workUsage := ∅
  dailyBudgets := ∅
  accountUsage := ∅

/-- The store after a sequence of calls. -/
def runCalls (clamp : ℤ → ℤ) (authority : Authority) (calls : List Call) : Ledgers :=
  calls.foldl (Call.step clamp) (Ledgers.start authority)

theorem conserved_start (authority : Authority) : Conserved (Ledgers.start authority) :=
  ⟨Ledger.Balanced.empty _ _, Ledger.Balanced.empty _ _, Ledger.Balanced.empty _ _⟩

theorem RunBudget.createSnapshot_conserves (run : Uuid) (mode : BudgetMode) (limits : Dict ℤ)
    (finalResponseReserveTokens : ℕ) :
    Tx.Keeps Conserves (RunBudget.createSnapshot run mode limits finalResponseReserveTokens) := by
  intro db _ db' h hc
  unfold RunBudget.createSnapshot at h
  rw [Tx.bind_query_ok, Tx.bind_check_ok] at h
  obtain ⟨hnone, h⟩ := h
  have hold : db.runBudgets.lookup run = none := Option.isNone_iff_eq_none.mp hnone
  obtain rfl := Tx.update_ok.mp h
  have hbudget : ∀ c, (db.runBudgets.insert run
      ⟨mode, .ok, limits, Dict.empty, Dict.empty, finalResponseReserveTokens⟩).lookup c
      = if c = run then some ⟨mode, .ok, limits, Dict.empty, Dict.empty, finalResponseReserveTokens⟩
        else db.runBudgets.lookup c := fun c => Table.lookup_insert_ite _ _ _ _
  refine ⟨⟨fun c => ?_, fun c => ?_⟩, hc.work, hc.account⟩
  · rw [← hc.run.reserved_eq c]
    unfold Ledgers.runReserved
    dsimp only
    rw [hbudget]
    split
    · next hcr => rw [hcr, hold]; rfl
    · rfl
  · rw [← hc.run.used_eq c]
    unfold Ledgers.runUsed
    dsimp only
    rw [hbudget]
    split
    · next hcr => rw [hcr, hold]; rfl
    · rfl

/-- Writing a Work budget with the same counters conserves the ledgers. -/
theorem conserves_of_workCounters {db : Ledgers} {t : Table (Uuid × Uuid) WorkBudget}
    (h : ∀ c d, (t.lookup c).elim 0 (fun b => b.reserved.get d)
        = (db.workBudgets.lookup c).elim 0 (fun b => b.reserved.get d) ∧
      (t.lookup c).elim 0 (fun b => b.used.get d) = (db.workBudgets.lookup c).elim 0 (fun b => b.used.get d)) :
    Conserves db { db with workBudgets := t } := by
  intro hc
  refine ⟨hc.run, ⟨fun c => ?_, fun c => ?_⟩, hc.account⟩
  · rw [← hc.work.reserved_eq c]
    exact (h c.1 c.2).1
  · rw [← hc.work.used_eq c]
    exact (h c.1 c.2).2

theorem WorkBudget.create_conserves (account work : Uuid) (limits : Dict ℤ) :
    Tx.Keeps Conserves (WorkBudget.create account work limits) := by
  intro db _ db' h
  unfold WorkBudget.create at h
  rw [Tx.bind_query_ok, Tx.bind_check_ok] at h
  obtain ⟨hnone, h⟩ := h
  have hold : db.workBudgets.lookup (account, work) = none := Option.isNone_iff_eq_none.mp hnone
  obtain rfl := Tx.update_ok.mp h
  refine conserves_of_workCounters fun c d => ?_
  rw [Table.lookup_insert_ite]
  split
  · next hcw => rw [hcw, hold]; exact ⟨rfl, rfl⟩
  · exact ⟨rfl, rfl⟩

theorem WorkBudget.changeLimits_conserves (account work : Uuid) (limits : Dict ℤ) :
    Tx.Keeps Conserves (WorkBudget.changeLimits account work limits) := by
  refine Tx.Keeps.update fun db => conserves_of_workCounters fun c d => ?_
  rw [Table.lookup_modify]
  split
  · next hcw => rw [hcw]; cases db.workBudgets.lookup (account, work) <;> exact ⟨rfl, rfl⟩
  · exact ⟨rfl, rfl⟩

section runs

variable {clamp : ℤ → ℤ} (hclamp : RunBudget.ClampsNegative clamp)

include hclamp

/-- **One call conserves the ledgers**, whether it succeeds or is rolled back. -/
theorem Call.step_conserved (call : Call) {db : Ledgers} (hc : Conserved db) : Conserved (call.step clamp db) := by
  cases call with
  | runReserve caller run operation values fr el =>
      exact (RunBudget.reserveInUow_conserves caller values fr el true).commit db hc
  | runSettle run operation values source =>
      exact (RunBudget.settleInUow_conserves hclamp values source).commit db hc
  | runRelease run operation => exact (RunBudget.releaseInUow_conserves hclamp).commit db hc
  | runRecover run => exact (RunBudget.recoverTerminalInUow_conserves hclamp).commit db hc
  | accountReserve account operation value o now =>
      exact (AccountBudget.reserveInUow_conserves account value o now).commit db hc
  | accountSettle account operation value source date =>
      exact (AccountBudget.settleInUow_conserves account value source date).commit db hc
  | accountRelease account operation date =>
      exact (AccountBudget.releaseInUow_conserves account date).commit db hc
  | reserve caller account run operation total values fr o =>
      exact (Coordinator.reserve_conserves caller account total values fr o).commit db hc
  | settle account run operation total values source date =>
      exact (Coordinator.settle_conserves hclamp account total values source date).commit db hc
  | release account run operation date =>
      exact (Coordinator.release_conserves hclamp account date).commit db hc
  | recover run => exact (Coordinator.recoverTerminalInUow_conserves hclamp).commit db hc
  | createRunBudget run mode limits reserve =>
      exact (RunBudget.createSnapshot_conserves run mode limits reserve).commit db hc
  | createWorkBudget account work limits => exact (WorkBudget.create_conserves account work limits).commit db hc
  | changeWorkLimits account work limits => exact (WorkBudget.changeLimits_conserves account work limits).commit db hc
  | environment a i s d => exact ⟨hc.run, hc.work, hc.account⟩

/-- **Every reachable state is conserved.** -/
theorem runCalls_conserved (authority : Authority) (calls : List Call) :
    Conserved (runCalls clamp authority calls) :=
  List.foldlRecOn calls (Call.step clamp) (conserved_start authority) fun _ hc call _ =>
    call.step_conserved hclamp hc

/-- On conserved ledgers a call does the same without the clamp. -/
theorem Call.step_clamp (call : Call) {db : Ledgers} (hc : Conserved db) :
    call.step clamp db = call.step id db := by
  cases call with
  | runSettle run operation values source =>
      exact Tx.commit_congr (RunBudget.settleInUow_clamp hclamp hc.run values source)
  | runRelease run operation => exact Tx.commit_congr (RunBudget.releaseInUow_clamp hclamp hc.run)
  | runRecover run => exact Tx.commit_congr (RunBudget.recoverTerminalInUow_clamp hclamp hc)
  | settle account run operation total values source date =>
      exact Tx.commit_congr (Coordinator.settle_clamp hclamp hc account total values source date)
  | release account run operation date =>
      exact Tx.commit_congr (Coordinator.release_clamp hclamp hc account date)
  | recover run => exact Tx.commit_congr (Coordinator.recoverTerminalInUow_clamp hclamp hc)
  | _ => rfl

theorem foldl_step_clamp (calls : List Call) {db : Ledgers} (hc : Conserved db) :
    calls.foldl (Call.step clamp) db = calls.foldl (Call.step id) db := by
  induction calls generalizing db with
  | nil => simp only [List.foldl_nil]
  | cons call rest ih =>
      have hstep := call.step_clamp hclamp hc
      have hrest := ih (call.step_conserved hclamp hc)
      rw [hstep] at hrest
      simp only [List.foldl_cons, hstep, hrest]

/-- **The clamps never change a value**: every run is the same without them. -/
theorem runCalls_clamp (authority : Authority) (calls : List Call) :
    runCalls clamp authority calls = runCalls id authority calls :=
  foldl_step_clamp hclamp calls (conserved_start authority)

end runs

/-! ### The column sums written out -/

section sums

variable {db : Ledgers}

theorem RunConserved.sums (hc : RunConserved db) {run : Uuid} {b : RunBudget}
    (hb : db.runBudgets.lookup run = some b) (d : Dimension) :
    b.reserved.get d = Table.sumWhere
      (fun k r => k.runId = run ∧ k.dimension = d ∧ r.state = .reserved) RunUsage.reservedAmount db.runUsage ∧
    b.used.get d = Table.sumWhere (fun k r => k.runId = run ∧ k.dimension = d ∧ r.state = .settled)
      (fun r => r.actualAmount.getD 0) db.runUsage := by
  have hr := hc.reserved_sumWhere (run, d)
  have hu := hc.used_sumWhere (run, d)
  rw [Ledgers.runReserved, hb, Option.elim_some] at hr
  rw [Ledgers.runUsed, hb, Option.elim_some] at hu
  rw [hr, hu]
  refine ⟨congrArg _ (Table.sumWhere_congr (fun k r => ?_) _ _),
    congrArg _ (Table.sumWhere_congr (fun k r => ?_) _ _)⟩ <;>
  simp [RunUsageKey.cell, RunUsage.hold, and_assoc]

theorem WorkConserved.sums (hc : WorkConserved db) {account work : Uuid} {b : WorkBudget}
    (hb : db.workBudgets.lookup (account, work) = some b) (d : Dimension) :
    b.reserved.get d = Table.sumWhere
      (fun k r => k.accountId = account ∧ k.workId = work ∧ k.dimension = d ∧ r.state = .reserved)
      WorkUsage.reservedAmount db.workUsage ∧
    b.used.get d = Table.sumWhere
      (fun k r => k.accountId = account ∧ k.workId = work ∧ k.dimension = d ∧ r.state = .settled)
      (fun r => r.actualAmount.getD 0) db.workUsage := by
  have hr := hc.reserved_sumWhere ((account, work), d)
  have hu := hc.used_sumWhere ((account, work), d)
  rw [Ledgers.workReserved, hb, Option.elim_some] at hr
  rw [Ledgers.workUsed, hb, Option.elim_some] at hu
  rw [hr, hu]
  refine ⟨congrArg _ (Table.sumWhere_congr (fun k r => ?_) _ _),
    congrArg _ (Table.sumWhere_congr (fun k r => ?_) _ _)⟩ <;>
  simp [WorkUsageKey.cell, WorkUsage.hold, and_assoc]

theorem AccountConserved.sums (hc : AccountConserved db) {account : Uuid} {day : Date} {b : DailyBudget}
    (hb : db.dailyBudgets.lookup (account, day) = some b) :
    b.reservedTokens = Table.sumWhere
      (fun k r => k.accountId = account ∧ k.quotaDate = day ∧ r.state = .reserved)
      AccountUsage.reservedTokens db.accountUsage ∧
    b.usedTokens = Table.sumWhere (fun k r => k.accountId = account ∧ k.quotaDate = day ∧ r.state = .settled)
      (fun r => r.actualTokens.getD 0) db.accountUsage := by
  have hr := hc.reserved_sumWhere (account, day)
  have hu := hc.used_sumWhere (account, day)
  rw [Ledgers.dailyReserved, hb, Option.elim_some] at hr
  rw [Ledgers.dailyUsed, hb, Option.elim_some] at hu
  rw [hr, hu]
  refine ⟨congrArg _ (Table.sumWhere_congr (fun k r => ?_) _ _),
    congrArg _ (Table.sumWhere_congr (fun k r => ?_) _ _)⟩ <;>
  simp [AccountUsageKey.cell, AccountUsage.hold, and_assoc]

end sums

/-- **Budget ledger conservation.** After any sequence of calls every reserved counter is the sum of the
reserved amounts of its ledger rows still in state `reserved`, every used counter the sum of the actual
amounts of the settled ones, no counter is negative, and no clamp has ever changed a value. -/
theorem ledgers_conserved (authority : Authority) (calls : List Call) :
    let db := runCalls (max 0) authority calls
    (∀ run b, db.runBudgets.lookup run = some b → ∀ d,
      b.reserved.get d = Table.sumWhere
        (fun k r => k.runId = run ∧ k.dimension = d ∧ r.state = .reserved) RunUsage.reservedAmount db.runUsage ∧
      b.used.get d = Table.sumWhere (fun k r => k.runId = run ∧ k.dimension = d ∧ r.state = .settled)
        (fun r => r.actualAmount.getD 0) db.runUsage ∧
      0 ≤ b.reserved.get d ∧ 0 ≤ b.used.get d) ∧
    (∀ account work b, db.workBudgets.lookup (account, work) = some b → ∀ d,
      b.reserved.get d = Table.sumWhere
        (fun k r => k.accountId = account ∧ k.workId = work ∧ k.dimension = d ∧ r.state = .reserved)
        WorkUsage.reservedAmount db.workUsage ∧
      b.used.get d = Table.sumWhere
        (fun k r => k.accountId = account ∧ k.workId = work ∧ k.dimension = d ∧ r.state = .settled)
        (fun r => r.actualAmount.getD 0) db.workUsage ∧
      0 ≤ b.reserved.get d ∧ 0 ≤ b.used.get d) ∧
    (∀ account day b, db.dailyBudgets.lookup (account, day) = some b →
      b.reservedTokens = Table.sumWhere
        (fun k r => k.accountId = account ∧ k.quotaDate = day ∧ r.state = .reserved)
        AccountUsage.reservedTokens db.accountUsage ∧
      b.usedTokens = Table.sumWhere (fun k r => k.accountId = account ∧ k.quotaDate = day ∧ r.state = .settled)
        (fun r => r.actualTokens.getD 0) db.accountUsage ∧
      0 ≤ b.reservedTokens ∧ 0 ≤ b.usedTokens) ∧
    db = runCalls id authority calls := by
  intro db
  have hc : Conserved db := runCalls_conserved RunBudget.clampsNegative_max authority calls
  refine ⟨fun run b hb d => ?_, fun account work b hb d => ?_, fun account day b hb => ?_,
    runCalls_clamp RunBudget.clampsNegative_max authority calls⟩
  · obtain ⟨hr, hu⟩ := hc.run.sums hb d
    exact ⟨hr, hu, hr ▸ Int.natCast_nonneg _, hu ▸ Int.natCast_nonneg _⟩
  · obtain ⟨hr, hu⟩ := hc.work.sums hb d
    exact ⟨hr, hu, hr ▸ Int.natCast_nonneg _, hu ▸ Int.natCast_nonneg _⟩
  · obtain ⟨hr, hu⟩ := hc.account.sums hb
    exact ⟨hr, hu, hr ▸ Int.natCast_nonneg _, hu ▸ Int.natCast_nonneg _⟩

end HpAgent.Budget
