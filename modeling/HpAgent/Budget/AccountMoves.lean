import HpAgent.Budget.Agreement

/-! # How a call may move an account row

`AccountMoves closes db db'` bounds what happened to the account ledger: rows are only added, a row that is
no longer `reserved` never changes again, and a row that is closed is closed as `closes` allows.  It is a
preorder, so the `Tx.Keeps` rules carry it through the services:

* `Coordinator.reserve_moves`: a reservation closes nothing.
* `Coordinator.settle_moves`, `Coordinator.release_moves`: a closing call closes rows of its operation.
* `Coordinator.recoverTerminalInUow_moves`: recovery settles what was dispatched, at its estimate, and
  releases the rest. -/

namespace HpAgent.Budget

open Library

/-- How a closing call may leave a row. -/
abbrev Closing := AccountUsageKey → AccountUsage → AccountUsage → Prop

/-- A row is closed as `closes` allows. -/
structure ClosedAs (closes : Closing) (key : AccountUsageKey) (row row' : AccountUsage) : Prop where
  was : row.state = .reserved
  ended : row'.state ≠ .reserved
  snapshot : row'.snapshotId = row.snapshotId
  tokens : row'.reservedTokens = row.reservedTokens
  allowed : closes key row row'

/-- Account rows are added and closed, and dispatch markers are left alone. -/
structure AccountMoves (closes : Closing) (db db' : Ledgers) : Prop where
  rows : ∀ key row, db.accountUsage.lookup key = some row →
    db'.accountUsage.lookup key = some row ∨
      ∃ row', db'.accountUsage.lookup key = some row' ∧ ClosedAs closes key row row'
  same : SameInputs db db'

instance (closes : Closing) : IsPreorder Ledgers (AccountMoves closes) where
  refl _ := ⟨fun _ _ h => .inl h, refl_of SameInputs _⟩
  trans _ db₂ _ h₁ h₂ := by
    refine ⟨fun key row hrow => ?_, trans_of SameInputs h₁.same h₂.same⟩
    rcases h₁.rows key row hrow with hkept | ⟨row₁, hrow₁, hclosed⟩
    · exact h₂.rows key row hkept
    · rcases h₂.rows key row₁ hrow₁ with hkept | ⟨_, _, hagain⟩
      · exact .inr ⟨row₁, hkept, hclosed⟩
      · exact absurd hagain.was hclosed.ended

/-- Nothing is closed. -/
def closesNothing : Closing := fun _ _ _ => False

/-- The rows of one operation are closed in one state. -/
def closesOperation (account : Uuid) (operation : String) (state : UsageState) : Closing := fun key _ row' =>
  key.accountId = account ∧ key.operationId = operation ∧ row'.state = state

/-- Dispatched rows are settled at their estimate, the others released. -/
def closesRecovered (db : Ledgers) : Closing := fun key row row' =>
  if row.snapshotId.any (Coordinator.dispatched db key.accountId) then
    row'.state = .settled ∧ row'.actualTokens = some row.reservedTokens ∧ row'.usageSource = some .estimated
  else row'.state = .released

section moves

variable {db db' : Ledgers} {closes : Closing} {run : Uuid} {operation : String}

theorem AccountMoves.of_unchanged (haccount : db'.accountUsage = db.accountUsage) (hsame : SameInputs db db') :
    AccountMoves closes db db' :=
  ⟨fun key row hrow => .inl (by rw [haccount, hrow]), hsame⟩

theorem AccountMoves.mono {closes' : Closing} (h : AccountMoves closes db db')
    (himp : ∀ key row row', db.accountUsage.lookup key = some row → closes key row row' → closes' key row row') :
    AccountMoves closes' db db' := by
  refine ⟨fun key row hrow => ?_, h.same⟩
  rcases h.rows key row hrow with hkept | ⟨row', hrow', hc⟩
  · exact .inl hkept
  · exact .inr ⟨row', hrow', hc.was, hc.ended, hc.snapshot, hc.tokens, himp key row row' hrow hc.allowed⟩

/-! ### The account half -/

/-- Writing a row over none, or over one it closes. -/
theorem AccountBudget.Rewrote.moves {key : AccountUsageKey} {row' : AccountUsage}
    (h : AccountBudget.Rewrote key row' db db')
    (hclosed : ∀ row, db.accountUsage.lookup key = some row → ClosedAs closes key row row') :
    AccountMoves closes db db' := by
  refine ⟨fun k row hrow => ?_, h.sameInputs⟩
  rw [h.only, Table.lookup_insert_ite]
  by_cases hk : k = key
  · subst hk
    rw [if_pos rfl]
    exact .inr ⟨row', rfl, hclosed row hrow⟩
  · rw [if_neg hk]
    exact .inl hrow

theorem AccountBudget.reserveInUow_moves (account : Uuid) (value : Raw) (o : AccountBudget.Options) (now : Instant) :
    Tx.Keeps (AccountMoves closes) (AccountBudget.reserveInUow account operation value o now) := by
  intro db m db' h
  obtain ⟨_, day, _, _, hdone⟩ := AccountBudget.reserveInUow_ok h
  cases hdone with
  | opened hnone hdone =>
      refine hdone.moves fun row hrow => ?_
      rw [hnone] at hrow
      cases hrow
  | replayed _ _ _ hquiet =>
      have honly := hquiet.only
      exact .of_unchanged (by rw [honly]) hquiet.sameInputs

theorem AccountBudget.settleInUow_moves (account : Uuid) (value : Raw) (source : String) (date : Option Date)
    (hcloses : ∀ day row, ∀ actual u, AccountBudget.tokens value = .ok actual → UsageSource.parse source = .ok u →
      (∀ d ∈ date, day = d) →
      closes ⟨account, day, operation⟩ row
        { row with state := .settled, actualTokens := some actual, usageSource := some u }) :
    Tx.Keeps (AccountMoves closes) (AccountBudget.settleInUow account operation value source date) := by
  intro db m db' h
  obtain ⟨actual, u, day, hactual, hu, hacts, hdone⟩ := AccountBudget.settleInUow_ok h
  have hday : ∀ d ∈ date, day = d := by
    rintro d hd
    rw [Option.mem_def] at hd
    subst hd
    exact hacts
  cases hdone with
  | replayed => exact refl_of (AccountMoves closes) _
  | @settled row _ hrow hstate hdone =>
      refine hdone.moves fun row' hrow' => ?_
      obtain rfl := Option.some.inj (hrow.symm.trans hrow')
      exact ⟨hstate, nofun, rfl, rfl, hcloses day row actual u hactual hu hday⟩

theorem AccountBudget.releaseInUow_moves (account : Uuid) (date : Option Date)
    (hcloses : ∀ day row, (∀ d ∈ date, day = d) →
      closes ⟨account, day, operation⟩ row { row with state := .released }) :
    Tx.Keeps (AccountMoves closes) (AccountBudget.releaseInUow account operation date) := by
  intro db m db' h
  obtain ⟨day, hacts, hdone⟩ := AccountBudget.releaseInUow_ok h
  have hday : ∀ d ∈ date, day = d := by
    rintro d hd
    rw [Option.mem_def] at hd
    subst hd
    exact hacts
  cases hdone with
  | replayed => exact refl_of (AccountMoves closes) _
  | @released row _ hrow hstate hdone =>
      refine hdone.moves fun row' hrow' => ?_
      obtain rfl := Option.some.inj (hrow.symm.trans hrow')
      exact ⟨hstate, nofun, rfl, rfl, hcloses day row hday⟩

/-! ### The Work and Run halves -/

theorem AccountMoves.of_runSide
    (h : db' = { db with runUsage := db'.runUsage, runBudgets := db'.runBudgets }) : AccountMoves closes db db' := by
  refine .of_unchanged ?_ ⟨?_, ?_, ?_⟩ <;> rw [h]

theorem WorkBudget.mutate_moves (action : WorkBudget.Action) :
    Tx.Keeps (AccountMoves closes) (WorkBudget.mutate run operation action) :=
  fun _ _ _ h => .of_unchanged (WorkBudget.mutate_otherRows h).1 (WorkBudget.mutate_sameInputs h)

theorem RunBudget.writeBudget_moves (b : RunBudget) :
    Tx.Keeps (AccountMoves closes) (RunBudget.writeBudget run b) :=
  Tx.Keeps.update fun _ => .of_runSide rfl

theorem RunBudget.lockBudget_moves : Tx.Keeps (AccountMoves closes) (RunBudget.lockBudget run) :=
  (Tx.Keeps.query _).bind fun _ => Tx.Keeps.demand _ _

theorem RunBudget.settleInUow_moves (clamp : ℤ → ℤ) (values : List (String × Raw)) (source : String) :
    Tx.Keeps (AccountMoves closes) (RunBudget.settleInUow clamp run operation values source) := by
  refine (Tx.Keeps.ofExcept _).bind fun u => (Tx.Keeps.ofExcept _).bind fun actual =>
    (WorkBudget.mutate_moves _).bind fun _ => RunBudget.lockBudget_moves.bind fun b =>
      (Tx.Keeps.query _).bind fun rs => (Tx.Keeps.check _ _).bind fun _ => ?_
  split
  · exact (Tx.Keeps.check _ _).bind fun _ => Tx.Keeps.pure _
  · refine (Tx.Keeps.check _ _).bind fun _ => ?_
    refine (Tx.Keeps.foldlM (fun c p => ?_) _ _).bind fun c =>
      (RunBudget.writeBudget_moves _).bind fun _ => Tx.Keeps.pure _
    refine Tx.Keeps.bind (m := RunBudget.settleRow ⟨run, operation, p.1⟩ p.2 u) ?_ fun _ => Tx.Keeps.pure _
    exact (Tx.Keeps.check _ _).bind fun _ => Tx.Keeps.update fun _ => .of_runSide rfl

theorem RunBudget.releaseRows_moves : Tx.Keeps (AccountMoves closes) (RunBudget.releaseRows run operation) :=
  fun _ _ _ h => by
    have honly := (RunBudget.releaseRows_ok h).1.1
    exact .of_unchanged (by rw [honly]) (by constructor <;> rw [honly])

theorem RunBudget.releaseInUow_moves (clamp : ℤ → ℤ) :
    Tx.Keeps (AccountMoves closes) (RunBudget.releaseInUow clamp run operation) := by
  refine (WorkBudget.mutate_moves _).bind fun _ => RunBudget.lockBudget_moves.bind fun b =>
    (Tx.Keeps.query _).bind fun rs => (Tx.Keeps.check _ _).bind fun _ => ?_
  split
  · exact Tx.Keeps.pure _
  · exact (Tx.Keeps.check _ _).bind fun _ => RunBudget.releaseRows_moves.bind fun _ =>
      (RunBudget.writeBudget_moves _).bind fun _ => Tx.Keeps.pure _

theorem RunBudget.reserveInUow_moves (caller : Caller) (values : List (String × Raw))
    (finalResponse enforceLimits deferExhaustion : Bool) :
    Tx.Keeps (AccountMoves closes)
      (RunBudget.reserveInUow caller run operation values finalResponse enforceLimits deferExhaustion) := by
  intro db r db' h
  rcases RunBudget.reserveInUow_ok h with ⟨m, _, hbody⟩ | ⟨_, _, rfl⟩
  · obtain ⟨requested, db₁, _, hwork, hdone⟩ := RunBudget.reserveBody_ok hbody
    have hfirst : AccountMoves closes db db₁ := WorkBudget.mutate_moves _ _ _ _ hwork
    cases hdone with
    | replayed => exact hfirst
    | opened _ hdone =>
        exact trans_of (AccountMoves closes) hfirst (.of_unchanged hdone.otherRows.1 hdone.sameInputs)
  · exact .of_runSide rfl

/-! ### The coordinator's calls -/

theorem Coordinator.reserve_moves (caller : Caller) (account : Uuid) (total : Raw) (values : List (String × Raw))
    (finalResponse : Bool) (o : AccountBudget.Options) :
    Tx.Keeps (AccountMoves closes)
      (Coordinator.reserve caller account run operation total values finalResponse o) := by
  refine (Tx.Keeps.ofExcept _).bind fun _ => (Tx.Keeps.query _).bind fun _ => (Tx.Keeps.check _ _).bind fun _ =>
    (Tx.Keeps.query _).bind fun _ => (Tx.Keeps.ofExcept _).bind fun _ => Tx.Keeps.bind ?_ fun _ =>
      (AccountBudget.reserveInUow_moves _ _ _ _).bind fun _ =>
        (RunBudget.reserveInUow_moves _ _ _ _ _).bind fun r => ?_
  · unfold Coordinator.priorDay
    cases o.snapshotId with
    | none => exact Tx.Keeps.pure _
    | some s =>
        refine (Tx.Keeps.query _).bind fun prior => ?_
        split
        · exact Tx.Keeps.pure _
        · exact Tx.Keeps.pure _
        · exact Tx.Keeps.raise _
  · cases r with
    | inl m => exact Tx.Keeps.pure _
    | inr e => exact Tx.Keeps.raise _

variable (clamp : ℤ → ℤ)

theorem Coordinator.settle_moves (account : Uuid) (total : Raw) (values : List (String × Raw)) (source : String)
    (date : Option Date) :
    Tx.Keeps (AccountMoves (closesOperation account operation .settled))
      (Coordinator.settle clamp account run operation total values source date) :=
  (Tx.Keeps.ofExcept _).bind fun _ =>
    (AccountBudget.settleInUow_moves _ _ _ _ fun _ _ _ _ _ _ _ => ⟨rfl, rfl, rfl⟩).bind fun _ =>
      (RunBudget.settleInUow_moves _ _ _).bind fun _ => Tx.Keeps.pure _

theorem Coordinator.release_moves (account : Uuid) (date : Option Date) :
    Tx.Keeps (AccountMoves (closesOperation account operation .released))
      (Coordinator.release clamp account run operation date) :=
  (Tx.Keeps.of_read fun _ _ _ h => (AccountBudget.lockedLedger_ok h).1).bind fun _ => (Tx.Keeps.query _).bind fun _ =>
    (Tx.Keeps.check _ _).bind fun _ =>
      (AccountBudget.releaseInUow_moves _ _ fun _ _ _ => ⟨rfl, rfl, rfl⟩).bind fun _ =>
        (RunBudget.releaseInUow_moves _).bind fun _ => Tx.Keeps.pure _

/-- A release that went through found no dispatch marker for its operation. -/
theorem Coordinator.release_undispatched {account : Uuid} {date : Option Date} {r : AccountMutation × Mutation}
    (h : (Coordinator.release clamp account run operation date).run db = .ok (r, db')) :
    Coordinator.dispatchedOperation db account run operation = false := by
  unfold Coordinator.release at h
  rw [Tx.bind_ok] at h
  obtain ⟨_, s, hlock, h⟩ := h
  obtain ⟨rfl, _⟩ := AccountBudget.lockedLedger_ok hlock
  rw [Tx.bind_query_ok, Tx.bind_check_ok] at h
  exact h.1

/-! ### Recovery -/

theorem mem_openHolds {account : Uuid} {hold : Coordinator.OpenHold}
    (h : hold ∈ Coordinator.openHolds db account run) :
    ∃ row, db.accountUsage.lookup ⟨account, hold.quotaDate, hold.operationId⟩ = some row ∧
      hold.reservedTokens = row.reservedTokens ∧
      hold.dispatched = row.snapshotId.any (Coordinator.dispatched db account) := by
  obtain ⟨⟨⟨a, d, o⟩, row⟩, hmem, rfl⟩ := List.mem_map.mp h
  obtain ⟨hentry, hkey⟩ := List.mem_filter.mp hmem
  simp only [Bool.and_eq_true, decide_eq_true_eq] at hkey
  obtain ⟨⟨rfl, _⟩, _⟩ := hkey
  exact ⟨row, AList.mem_lookup_iff.mpr hentry, rfl, rfl⟩

/-- One iteration of the recovery loop closes the row of its hold as the hold says. -/
theorem Coordinator.recoverStep_moves (account : Uuid) (u : Unit) (hold : Coordinator.OpenHold) :
    Tx.Keeps (AccountMoves fun key _ row' => key = ⟨account, hold.quotaDate, hold.operationId⟩ ∧
        if hold.dispatched then row'.state = .settled ∧ row'.actualTokens = some hold.reservedTokens ∧
          row'.usageSource = some .estimated
        else row'.state = .released)
      (Coordinator.recoverStep clamp account run u hold) := by
  refine (Tx.Keeps.of_read fun _ _ _ h => ?_).bind fun locked => ?_
  · exact (AccountBudget.lockedLedger_ok h).1
  obtain ⟨_, ledger⟩ := locked
  dsimp only
  by_cases hstate : ledger.state = .reserved
  · rw [if_pos hstate]
    by_cases hd : hold.dispatched = true
    · simp only [if_pos hd]
      refine (Tx.Keeps.query _).bind fun _ => (Tx.Keeps.ofExcept _).bind fun _ =>
        (AccountBudget.settleInUow_moves _ _ _ _ fun day row actual u hactual hu hday => ?_).bind fun _ =>
          (RunBudget.settleInUow_moves _ _ _).bind fun _ => Tx.Keeps.pure _
      obtain rfl := hday hold.quotaDate rfl
      obtain rfl := Except.ok.inj hactual
      obtain rfl := Except.ok.inj hu
      exact ⟨rfl, rfl, rfl, rfl⟩
    · simp only [if_neg hd]
      refine (AccountBudget.releaseInUow_moves _ _ fun day row hday => ?_).bind fun _ =>
        (RunBudget.releaseInUow_moves _).bind fun _ => Tx.Keeps.pure _
      obtain rfl := hday hold.quotaDate rfl
      exact ⟨rfl, rfl⟩
  · rw [if_neg hstate]
    exact Tx.Keeps.pure _

/-- **Terminal recovery** settles what was dispatched, at its estimate, and releases the rest. -/
theorem Coordinator.recoverTerminalInUow_moves {u : Unit}
    (h : (Coordinator.recoverTerminalInUow clamp run).run db = .ok (u, db')) :
    AccountMoves (closesRecovered db) db db' := by
  unfold Coordinator.recoverTerminalInUow at h
  rw [Tx.bind_query_ok, Tx.bind_demand_ok] at h
  obtain ⟨r, _, h⟩ := h
  rw [Tx.bind_query_ok] at h
  -- the holds were read from the store the loop started on
  refine (Tx.foldlM_rule (fun rest _ s => AccountMoves (closesRecovered db) db s ∧
    ∀ hold ∈ rest, hold ∈ Coordinator.openHolds db r.accountId run) ?_
    ⟨refl_of (AccountMoves (closesRecovered db)) db, fun _ hold => hold⟩ h).1
  rintro hold rest u s u' s' ⟨hmoves, hrest⟩ hstep
  refine ⟨?_, fun hold' hmem => hrest hold' (List.mem_cons_of_mem _ hmem)⟩
  obtain ⟨row₀, hrow₀, htokens, hdispatched⟩ := mem_openHolds (hrest hold List.mem_cons_self)
  refine trans_of (AccountMoves (closesRecovered db)) hmoves
    ((Coordinator.recoverStep_moves clamp r.accountId u hold s u' s' hstep).mono ?_)
  rintro key row row' hrow ⟨rfl, hclosed⟩
  -- the row still has the snapshot and the tokens the hold was read with
  have hsame : row.snapshotId = row₀.snapshotId ∧ row.reservedTokens = row₀.reservedTokens := by
    rcases hmoves.rows _ row₀ hrow₀ with hkept | ⟨row₁, hrow₁, hc⟩
    · obtain rfl := Option.some.inj (hkept.symm.trans hrow)
      exact ⟨rfl, rfl⟩
    · obtain rfl := Option.some.inj (hrow₁.symm.trans hrow)
      exact ⟨hc.snapshot, hc.tokens⟩
  unfold closesRecovered
  rw [hsame.1, hsame.2, ← hdispatched, ← htokens]
  exact hclosed

end moves

end HpAgent.Budget
