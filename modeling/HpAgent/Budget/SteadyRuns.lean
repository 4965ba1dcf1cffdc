import HpAgent.Budget.Steady

/-! # The account ledger over histories

Account rows are opened by coordinated reservations only, each for the snapshot frozen for its operation.

* `AccountBacked`: the invariant, with one day for each operation.
* `UsageSteps.accountSteady`: rows keep their tokens, and closed rows never change.
* `UsageSteps.unmarked`: a released operation is never dispatched. -/

namespace HpAgent.Budget

open Library

variable {allowed : UsageCall → Ledgers → Prop} {day : Date}

/-- Every account row belongs to the snapshot of its operation, and an operation has rows on one day. -/
structure AccountBacked (db : Ledgers) : Prop where
  frozen : Frozen db
  bound : ∀ k row, db.accountUsage.lookup k = some row → ∃ id s, row.snapshotId = some id ∧
    db.snapshots.lookup id = some s ∧ s.accountId = k.accountId ∧ s.operationId = k.operationId
  day : ∀ account operation day day', (db.accountUsage.lookup ⟨account, day, operation⟩).isSome = true →
    (db.accountUsage.lookup ⟨account, day', operation⟩).isSome = true → day = day'
  daily : ∀ k, (db.accountUsage.lookup k).isSome = true → (db.dailyBudgets.lookup k.cell).isSome = true

section calls

variable {db db' : Ledgers} {account run : Uuid} {operation : String}

theorem AccountClosing.backed (h : AccountClosing db db') (hb : AccountBacked db) : AccountBacked db' := by
  refine ⟨hb.frozen.of_keepsRuns h.runs h.snapshots, fun k row' hrow' => ?_, fun account operation day day' hd hd' => ?_,
    fun k hk => h.steady.days _ (hb.daily k (h.keys k hk))⟩
  · obtain ⟨row, hrow⟩ := Option.isSome_iff_exists.mp (h.keys k (by rw [hrow']; rfl))
    obtain ⟨row'', hrow'', hsnapshot, _⟩ := h.steady.rows k row hrow
    obtain rfl := Option.some.inj (hrow'.symm.trans hrow'')
    obtain ⟨id, s, hid, hs, hfor⟩ := hb.bound k row hrow
    refine ⟨id, s, hsnapshot.trans hid, ?_, hfor⟩
    rw [h.snapshots]
    exact hs
  · exact hb.day account operation day day' (h.keys _ hd) (h.keys _ hd')

/-- A row of an operation is the one its snapshot's reservation finds. -/
theorem AccountBacked.prior (hb : AccountBacked db) {id : Uuid} {s : Snapshot} (hs : db.snapshots.lookup id = some s)
    (hop : s.operationId = operation) {row : AccountUsage}
    (hrow : db.accountUsage.lookup ⟨account, day, operation⟩ = some row) :
    row.snapshotId = some id ∧ Coordinator.priorDates db account operation id = [day] := by
  obtain ⟨id', s', hid', hs', _, hop'⟩ := hb.bound _ row hrow
  obtain rfl := hb.frozen.unique id' id s' s hs' hs (hop'.trans hop.symm)
  refine ⟨hid', ?_⟩
  unfold Coordinator.priorDates
  rw [Table.filter_entries_singleton hrow (by simp [hid'])]
  · rfl
  · rintro ⟨account', day', operation'⟩ row' hrow' hkey
    simp only [decide_eq_true_eq] at hkey
    obtain ⟨rfl, rfl, _⟩ := hkey
    rw [hb.day account' operation' day' day (by rw [hrow']; rfl) (by rw [hrow]; rfl)]

/-- The closing calls of an operation act on the day of its row. -/
theorem AccountBacked.actsOn (hb : AccountBacked db)
    (hrow : (db.accountUsage.lookup ⟨account, day, operation⟩).isSome = true) :
    AccountBudget.datesOf db account operation = [day] := by
  unfold AccountBudget.datesOf
  have hmem : (⟨account, day, operation⟩ : AccountUsageKey) ∈ db.accountUsage.keys := by
    rw [← AList.mem_keys, ← AList.lookup_isSome]
    exact hrow
  rw [Table.eq_singleton_of_nodup (a := (⟨account, day, operation⟩ : AccountUsageKey)) (db.accountUsage.keys_nodup.filter _)
    (List.mem_filter.mpr ⟨hmem, by simp⟩)]
  · rfl
  · rintro ⟨account', day', operation'⟩ hk
    obtain ⟨hin, hkey⟩ := List.mem_filter.mp hk
    simp only [decide_eq_true_eq] at hkey
    obtain ⟨rfl, rfl⟩ := hkey
    have hsome : (db.accountUsage.lookup ⟨account', day', operation'⟩).isSome = true := by
      rw [AList.lookup_isSome, AList.mem_keys]
      exact hin
    rw [hb.day account' operation' day' day hsome hrow]

/-- The day has a row afterwards. -/
theorem AccountBudget.ensureDaily_daily {u : Unit} {s s₁ : Ledgers}
    (h : (AccountBudget.ensureDaily account day).run s = .ok (u, s₁)) :
    (s₁.dailyBudgets.lookup (account, day)).isSome = true := by
  unfold AccountBudget.ensureDaily at h
  rw [Tx.update_ok] at h
  subst h
  dsimp only
  split
  · next hsome =>
      rw [hsome]
      rfl
  · rw [AList.lookup_insert]
    rfl

/-- The day of a reservation exists after it. -/
theorem AccountBudget.reserveInUow_daily {value : Raw} {o : AccountBudget.Options} {now : Instant} {m : AccountMutation}
    (h : (AccountBudget.reserveInUow account operation value o now).run db = .ok (m, db')) :
    (db'.dailyBudgets.lookup (account, m.quotaDate)).isSome = true := by
  unfold AccountBudget.reserveInUow at h
  rw [Tx.bind_ofExcept_ok] at h
  obtain ⟨requested, _, h⟩ := h
  rw [AccountBudget.bind_checkOperation_ok, Tx.bind_ok] at h
  obtain ⟨_, e, s, _, h⟩ := h
  rw [Tx.bind_ofExcept_ok] at h
  obtain ⟨day, _, h⟩ := h
  rw [Tx.bind_ok] at h
  obtain ⟨_, s₁, hensure, h⟩ := h
  have hday := AccountBudget.ensureDaily_daily hensure
  rw [Tx.bind_query_ok] at h
  split at h
  · rw [Tx.bind_check_ok] at h
    obtain ⟨rfl, rfl⟩ := Tx.pure_ok.mp h.2
    exact hday
  · have hkept := AccountBudget.openHold_days _ _ _ _ _ _ _ h
    unfold AccountBudget.openHold at h
    rw [Tx.bind_query_ok, Tx.bind_demand_ok] at h
    obtain ⟨_, _, h⟩ := h
    rw [Tx.bind_check_ok, Tx.bind_ok] at h
    obtain ⟨_, _, _, _, h⟩ := h
    rw [Tx.bind_ok] at h
    obtain ⟨_, _, _, h⟩ := h
    obtain ⟨rfl, rfl⟩ := Tx.pure_ok.mp h
    exact hkept _ hday

/-- **A coordinated reservation** for the snapshot of its operation. -/
theorem Coordinator.reserve_backed {caller : Caller} {total : Raw} {values : List (String × Raw)} {finalResponse : Bool}
    {o : AccountBudget.Options} {r : AccountMutation × Mutation} (hs : Recorded db) (hb : AccountBacked db)
    (hcarries : ∃ id s, o.snapshotId = some id ∧ db.snapshots.lookup id = some s ∧ s.accountId = account ∧
      s.runId = run ∧ s.operationId = operation)
    (h : (Coordinator.reserve caller account run operation total values finalResponse o).run db = .ok (r, db')) :
    AccountBacked db' ∧ AccountSteady db db' ∧ db'.snapshots = db.snapshots ∧ db'.dispatches = db.dispatches := by
  obtain ⟨id, snapshot, hid, hsnap, haccount, _, hop⟩ := hcarries
  obtain ⟨day, s, hprior, hacc, hrun⟩ := Coordinator.reserve_calls h
  have hs₁ := AccountBudget.reserveInUow_recorded _ _ _ _ _ _ _ hacc hs
  have hclosing := (RunBudget.reserveInUow_closing _ _ _ hrun hs₁).2
  have hdays := AccountBudget.reserveInUow_days _ _ _ _ _ _ hacc
  have hdaily := AccountBudget.reserveInUow_daily hacc
  rw [hid] at hprior
  obtain ⟨_, hdates⟩ := priorDay_ok hprior
  obtain ⟨tokens, day', _, hday, hdone⟩ := AccountBudget.reserveInUow_ok hacc
  dsimp only at hday hdone
  have haccountSide : AccountBacked s ∧ AccountSteady db s ∧ s.snapshots = db.snapshots ∧ s.dispatches = db.dispatches := by
    generalize r.1 = m at hdone hdaily
    cases hdone with
    | opened hnone hrewrote =>
        have honly := hrewrote.only
        have hbefore : ∀ d row, db.accountUsage.lookup ⟨account, d, operation⟩ = some row → False := by
          intro d row hrow
          obtain ⟨_, hsingle⟩ := hb.prior hsnap hop hrow
          rw [hsingle] at hdates
          have hmem : d ∈ day.toList := by
            rw [← hdates]
            exact List.mem_singleton_self d
          rw [← hday d (Option.mem_toList.mp hmem), hnone] at hrow
          cases hrow
        have hlookup : ∀ k row, s.accountUsage.lookup k = some row →
            (k = ⟨account, day', operation⟩ ∧ row = ⟨o.snapshotId, .reserved, tokens, none, none⟩) ∨
              (k ≠ ⟨account, day', operation⟩ ∧ db.accountUsage.lookup k = some row) := by
          intro k row hrow
          rw [honly, Table.lookup_insert_ite] at hrow
          split at hrow
          · next hk => exact .inl ⟨hk, (Option.some.inj hrow).symm⟩
          · next hk => exact .inr ⟨hk, hrow⟩
        refine ⟨⟨hb.frozen.of_same ?_ ?_, fun k row hrow => ?_, fun account₁ operation₁ d d' hd hd' => ?_, fun k hk => ?_⟩,
          hrewrote.steady hdays fun row hrow => (hbefore day' row hrow).elim, ?_, ?_⟩
        · rw [honly]
        · rw [honly]
        · have hsnapshots : s.snapshots = db.snapshots := by rw [honly]
          rw [hsnapshots]
          rcases hlookup k row hrow with ⟨rfl, rfl⟩ | ⟨_, hrow⟩
          · exact ⟨id, snapshot, hid, hsnap, haccount, hop⟩
          · exact hb.bound k row hrow
        · obtain ⟨row, hrow⟩ := Option.isSome_iff_exists.mp hd
          obtain ⟨row', hrow'⟩ := Option.isSome_iff_exists.mp hd'
          rcases hlookup _ row hrow with ⟨hk, _⟩ | ⟨_, hrow⟩
          · rcases hlookup _ row' hrow' with ⟨hk', _⟩ | ⟨_, hrow'⟩
            · rw [(AccountUsageKey.mk.inj hk).2.1, (AccountUsageKey.mk.inj hk').2.1]
            · obtain ⟨rfl, _, rfl⟩ := AccountUsageKey.mk.inj hk
              exact (hbefore d' row' hrow').elim
          · rcases hlookup _ row' hrow' with ⟨hk', _⟩ | ⟨_, hrow'⟩
            · obtain ⟨rfl, _, rfl⟩ := AccountUsageKey.mk.inj hk'
              exact (hbefore d row hrow).elim
            · exact hb.day account₁ operation₁ d d' (by rw [hrow]; rfl) (by rw [hrow']; rfl)
        · obtain ⟨row, hrow⟩ := Option.isSome_iff_exists.mp hk
          rcases hlookup _ row hrow with ⟨rfl, _⟩ | ⟨_, hrow⟩
          · exact hdaily
          · exact hdays _ (hb.daily k (by rw [hrow]; rfl))
        · rw [honly]
        · rw [honly]
    | replayed _ _ _ hquiet =>
        have honly := hquiet.only
        have hclosing : AccountClosing db s := by
          refine ⟨⟨fun k row hrow => ⟨row, ?_, rfl, rfl, fun _ => rfl⟩, hdays⟩, fun k hk => ?_, ?_, ?_, ?_⟩
          · rw [honly]
            exact hrow
          · rw [honly] at hk
            exact hk
          · rw [honly]
          · rw [honly]
          · rw [honly]
            exact .refl _
        exact ⟨hclosing.backed hb, hclosing.steady, hclosing.snapshots, hclosing.dispatches⟩
  obtain ⟨hb₁, hsteady₁, hsnapshots₁, hdispatches₁⟩ := haccountSide
  exact ⟨hclosing.backed hb₁, trans_of AccountSteady hsteady₁ hclosing.steady, hclosing.snapshots.trans hsnapshots₁,
    hclosing.dispatches.trans hdispatches₁⟩

/-- **A call** keeps the account ledger backed and steady, and what it reads. -/
theorem UsageCall.accountSteady (c : UsageCall) (hcarries : c.Carries db) (hs : Recorded db) (hb : AccountBacked db)
    {u : Unit} (h : c.command.run db = .ok (u, db')) :
    AccountBacked db' ∧ AccountSteady db db' ∧ db'.snapshots = db.snapshots ∧ db'.dispatches = db.dispatches := by
  have hclosed : ∀ {α : Type} {m : BudgetTx α} {a : α}, Tx.Keeps KeepsClosing m → m.run db = .ok (a, db') →
      AccountBacked db' ∧ AccountSteady db db' ∧ db'.snapshots = db.snapshots ∧ db'.dispatches = db.dispatches := by
    intro α m a hm hrun
    obtain ⟨_, hclosing⟩ := hm db a db' hrun hs
    exact ⟨hclosing.backed hb, hclosing.steady, hclosing.snapshots, hclosing.dispatches⟩
  have hservices := keptByClosing_closing
  cases c with
  | model c =>
      cases c with
      | reserve caller account run operation total values finalResponse o =>
          obtain ⟨r, s, hcall, h⟩ := Tx.bind_ok.mp h
          obtain ⟨_, rfl⟩ := Tx.pure_ok.mp h
          exact Coordinator.reserve_backed hs hb hcarries hcall
      | settle account run operation total values source date =>
          exact hclosed ((hservices.settle _ _ _ _).bind fun _ => Tx.Keeps.pure _) h
      | release account run operation date => exact hclosed ((hservices.release _).bind fun _ => Tx.Keeps.pure _) h
      | recover run => exact hclosed hservices.recoverModel h
  | reserve caller run operation values finalResponse enforceLimits deferExhaustion =>
      exact hclosed (RunBudget.reserveInUow_closing.bind fun _ => Tx.Keeps.pure _) h
  | settle run operation values source => exact hclosed ((hservices.runSettle _ _ _ _).bind fun _ => Tx.Keeps.pure _) h
  | release run operation => exact hclosed ((hservices.runRelease _ _).bind fun _ => Tx.Keeps.pure _) h
  | finish run status => exact hclosed ((hservices.finish _).bind fun _ => Tx.Keeps.pure _) h

end calls

/-! ### Steps and histories -/

section steps

variable {db db' : Ledgers} {account run : Uuid} {operation : String}

theorem Around.accountBacked (h : Around db db') (hb : AccountBacked db) : AccountBacked db' := by
  refine ⟨h.frozen hb.frozen, ?_, ?_, ?_⟩
  · rw [h.accountUsage]
    intro k row hrow
    obtain ⟨id, s, hid, hs, hfor⟩ := hb.bound k row hrow
    exact ⟨id, s, hid, h.kept id s hs, hfor⟩
  · rw [h.accountUsage]
    exact hb.day
  · rw [h.accountUsage, h.dailyBudgets]
    exact hb.daily

/-- **One step keeps the account ledger backed and steady.** -/
theorem UsageStep.accountSteady (h : UsageStep allowed db db')
    (hs : Recorded db) (hb : AccountBacked db) : AccountBacked db' ∧ AccountSteady db db' := by
  rcases h.call_or_around with ⟨c, hcarries, _, rfl⟩ | haround
  · refine Tx.commit_rule (fun db' => AccountBacked db' ∧ AccountSteady db db') ⟨hb, refl_of AccountSteady _⟩ ?_
    intro u db' hrun
    obtain ⟨hb', hsteady, _⟩ := c.accountSteady hcarries hs hb hrun
    exact ⟨hb', hsteady⟩
  · exact ⟨haround.accountBacked hb, .of_same haround.accountUsage haround.dailyBudgets⟩

theorem accountBacked_start (authority : Authority) : AccountBacked (Ledgers.start authority) := by
  refine ⟨⟨fun id s hs => ?_, fun id id' s s' hs => ?_⟩, fun k row hrow => ?_, fun account operation day day' hd => ?_,
    fun k hk => ?_⟩
  · cases hs
  · cases hs
  · cases hrow
  · cases hd
  · cases hk

theorem UsageReachable.accountBacked {authority : Authority}
    (h : UsageReachable allowed authority db) : AccountBacked db := by
  induction h with
  | refl => exact accountBacked_start authority
  | tail hreach hstep ih => exact (hstep.accountSteady (UsageReachable.recorded hreach) ih).1

/-- **Histories keep the account ledger steady.** -/
theorem UsageSteps.accountSteady (h : UsageSteps db db') (hs : Recorded db) (hb : AccountBacked db) :
    AccountBacked db' ∧ AccountSteady db db' := by
  induction h with
  | refl => exact ⟨hb, refl_of AccountSteady _⟩
  | tail hsteps hstep ih =>
      obtain ⟨hb₁, hsteady₁⟩ := ih
      obtain ⟨hb₂, hsteady₂⟩ := hstep.accountSteady (UsageSteps.runsSteady hsteps hs).1 hb₁
      exact ⟨hb₂, trans_of AccountSteady hsteady₁ hsteady₂⟩

theorem dispatchedOperation_eq_true {db : Ledgers} : Coordinator.dispatchedOperation db account run operation = true ↔
    ∃ id s, db.snapshots.lookup id = some s ∧ s.accountId = account ∧ s.runId = run ∧ s.operationId = operation ∧
      Coordinator.dispatched db account id = true := by
  unfold Coordinator.dispatchedOperation
  rw [List.any_eq_true]
  constructor
  · rintro ⟨⟨id, s⟩, hmem, hkey⟩
    simp only [Bool.and_eq_true, decide_eq_true_eq] at hkey
    obtain ⟨⟨⟨haccount, hrun⟩, hop⟩, hdispatched⟩ := hkey
    exact ⟨id, s, AList.mem_lookup_iff.mpr hmem, haccount, hrun, hop, hdispatched⟩
  · rintro ⟨id, s, hs, haccount, hrun, hop, hdispatched⟩
    refine ⟨⟨id, s⟩, AList.mem_lookup_iff.mp hs, ?_⟩
    simp [haccount, hrun, hop, hdispatched]

/-- A step sets no dispatch marker for an operation that is released. -/
theorem UsageStep.unmarked (h : UsageStep allowed db db') (hs : Recorded db)
    (hb : AccountBacked db) {row : AccountUsage}
    (hrow : db.accountUsage.lookup ⟨account, day, operation⟩ = some row) (hclosed : row.state ≠ .reserved)
    (hunmarked : Coordinator.dispatchedOperation db account run operation = false) :
    Coordinator.dispatchedOperation db' account run operation = false := by
  rcases h.call_or_around with ⟨c, hcarries, _, rfl⟩ | haround
  · refine Tx.commit_rule (fun db' => Coordinator.dispatchedOperation db' account run operation = false) hunmarked ?_
    intro u db' hrun
    obtain ⟨_, _, hsnapshots, hdispatches⟩ := c.accountSteady hcarries hs hb hrun
    unfold Coordinator.dispatchedOperation Coordinator.dispatched at hunmarked ⊢
    rw [hsnapshots, hdispatches]
    exact hunmarked
  · rw [Bool.eq_false_iff] at hunmarked ⊢
    intro hmarked
    apply hunmarked
    obtain ⟨id, s, hs', haccount, hrun, hop, hdispatched⟩ := dispatchedOperation_eq_true.mp hmarked
    obtain ⟨id₀, s₀, _, hs₀, _, hop₀⟩ := hb.bound _ row hrow
    have hold : db.snapshots.lookup id = some s := by
      rcases haround.fresh hb.frozen id s hs' with hold | hnew
      · exact hold
      · exact absurd (hop₀.trans hop.symm) (hnew id₀ s₀ hs₀)
    rcases haround.marked account id hdispatched with hbefore | ⟨s₁, day₁, row₁, hs₁, _, hrow₁, hstate₁⟩
    · exact dispatchedOperation_eq_true.mpr ⟨id, s, hold, haccount, hrun, hop, hbefore⟩
    · obtain rfl := Option.some.inj (hold.symm.trans hs₁)
      rw [hop] at hrow₁
      obtain rfl := hb.day account operation day₁ day (by rw [hrow₁]; rfl) (by rw [hrow]; rfl)
      obtain rfl := Option.some.inj (hrow.symm.trans hrow₁)
      exact absurd hstate₁ hclosed

/-- **A released operation is never dispatched.** -/
theorem UsageSteps.unmarked (h : UsageSteps db db') (hs : Recorded db) (hb : AccountBacked db)
    {row : AccountUsage} (hrow : db.accountUsage.lookup ⟨account, day, operation⟩ = some row)
    (hclosed : row.state ≠ .reserved) (hunmarked : Coordinator.dispatchedOperation db account run operation = false) :
    Coordinator.dispatchedOperation db' account run operation = false := by
  induction h with
  | refl => exact hunmarked
  | tail hsteps hstep ih =>
      obtain ⟨hb₁, hsteady₁⟩ := UsageSteps.accountSteady hsteps hs hb
      obtain ⟨row₁, hrow₁, _, _, hsame⟩ := hsteady₁.rows _ row hrow
      obtain rfl := hsame hclosed
      exact hstep.unmarked (UsageSteps.runsSteady hsteps hs).1 hb₁ hrow₁ hclosed ih

end steps

end HpAgent.Budget
