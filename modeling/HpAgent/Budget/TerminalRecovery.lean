import HpAgent.Budget.UsageRuns

/-! # Recovery of a terminal Run

What the two recovery loops of the terminal transaction do to the ledgers.  The coordinator's loop closes
the account row of every open model hold, releasing what was not dispatched and settling the rest at its
reserved amount; the Run's loop settles whatever is still reserved after it.

* `RecoveryProgress`, `EstimateProgress`: the invariants of the two loops.
* `recoverUsage_ok`: every row after both loops, as a function of the row before.
* `terminal_usage_recovered`: what a terminal transaction leaves behind. -/

namespace HpAgent.Budget

open Library

namespace Coordinator

/-! ### Holds -/

/-- The account row a hold was read from. -/
def OpenHold.key (account : Uuid) (h : OpenHold) : AccountUsageKey := ⟨account, h.quotaDate, h.operationId⟩

/-- The state recovery closes a hold in. -/
def OpenHold.state (h : OpenHold) : UsageState := if h.dispatched then .settled else .released

/-- The account row after its recovery. -/
def OpenHold.closedRow (h : OpenHold) (row : AccountUsage) : AccountUsage :=
  if h.dispatched then
    { row with state := .settled, actualTokens := some h.reservedTokens, usageSource := some .estimated }
  else { row with state := .released }

/-- The Run rows after the recovery of their hold. -/
def OpenHold.closes (h : OpenHold) (rs : Dict RunUsage) : Dict RunUsage :=
  if h.dispatched then RunBudget.settledRows rs (RunBudget.reservedAmounts rs) .estimated
  else RunBudget.releasedRows rs

section holds

variable {db : Ledgers} {account run : Uuid}

theorem mem_openHolds_iff {h : OpenHold} : h ∈ openHolds db account run ↔
    ∃ row, db.accountUsage.lookup (h.key account) = some row ∧ row.state = .reserved ∧
      ofRun db account run row = true ∧ h.reservedTokens = row.reservedTokens ∧
      h.dispatched = row.snapshotId.any (dispatched db account) := by
  unfold openHolds
  rw [List.mem_map]
  constructor
  · rintro ⟨⟨⟨a, day, op⟩, row⟩, hmem, rfl⟩
    obtain ⟨hentry, hkey⟩ := List.mem_filter.mp hmem
    simp only [Bool.and_eq_true, decide_eq_true_eq] at hkey
    obtain ⟨⟨rfl, hstate⟩, hrun⟩ := hkey
    exact ⟨row, AList.mem_lookup_iff.mpr hentry, hstate, hrun, rfl, rfl⟩
  · rintro ⟨row, hrow, hstate, hrun, htokens, hdispatched⟩
    refine ⟨⟨h.key account, row⟩, List.mem_filter.mpr ⟨AList.mem_lookup_iff.mp hrow, ?_⟩, ?_⟩
    · simp [OpenHold.key, hstate, hrun]
    · obtain ⟨operation, day, tokens, sent⟩ := h
      subst htokens hdispatched
      rfl

/-- A row is read as one hold. -/
theorem openHolds_eq {h h' : OpenHold} (hmem : h ∈ openHolds db account run) (hmem' : h' ∈ openHolds db account run)
    (hkey : h.key account = h'.key account) : h = h' := by
  obtain ⟨row, hrow, _, _, htokens, hdispatched⟩ := mem_openHolds_iff.mp hmem
  obtain ⟨row', hrow', _, _, htokens', hdispatched'⟩ := mem_openHolds_iff.mp hmem'
  rw [hkey, hrow'] at hrow
  obtain rfl := Option.some.inj hrow
  obtain ⟨operation, day, tokens, sent⟩ := h
  obtain ⟨operation', day', tokens', sent'⟩ := h'
  obtain ⟨_, rfl, rfl⟩ := AccountUsageKey.mk.inj hkey
  subst htokens hdispatched htokens' hdispatched'
  rfl

theorem OpenHold.closedRow_state (h : OpenHold) (row : AccountUsage) : (h.closedRow row).state = h.state := by
  unfold closedRow state
  split <;> rfl

theorem OpenHold.state_ne (h : OpenHold) : h.state ≠ .reserved := by
  unfold state
  split <;> simp

theorem OpenHold.closes_state (h : OpenHold) {rs : Dict RunUsage} {d : Dimension} {r : RunUsage}
    (hr : h.closes rs d = some r) : r.state = h.state := by
  unfold closes at hr
  unfold state
  by_cases hd : h.dispatched = true
  · rw [if_pos hd] at hr ⊢
    obtain ⟨r', _, rfl⟩ := Option.map_eq_some_iff.mp hr
    rfl
  · rw [if_neg hd] at hr ⊢
    obtain ⟨r', _, rfl⟩ := Option.map_eq_some_iff.mp hr
    rfl

theorem OpenHold.closes_ne_empty (h : OpenHold) {rs : Dict RunUsage} (hne : rs ≠ Dict.empty) :
    h.closes rs ≠ Dict.empty := by
  intro he
  apply hne
  funext d
  have hd := congrFun he d
  unfold closes at hd
  split at hd
  · exact Option.map_eq_none_iff.mp hd
  · exact Option.map_eq_none_iff.mp hd

end holds

end Coordinator

/-! ### Closed rows stay -/

section closed

variable {run : Uuid} {operation : String} {db db' : Ledgers} {m : Mutation} {t : UsageState}

/-- The rows of the operation are all in one state, and there are some. -/
def InState (db : Ledgers) (run : Uuid) (operation : String) (t : UsageState) : Prop :=
  RunBudget.rows db run operation ≠ Dict.empty ∧ ∀ d r, RunBudget.rows db run operation d = some r → r.state = t

theorem InState.eq {t' : UsageState} (h : InState db run operation t) (h' : InState db run operation t') : t = t' :=
  not_two_states h.1 h.2 h'.2

theorem SettleEffect.of_closed {actual : Dict ℕ} {source : UsageSource}
    (h : SettleEffect run operation actual source db m db') (hin : InState db run operation t) (ht : t ≠ .reserved) :
    db' = db ∧ t = .settled := by
  cases h with
  | settled hrows hne hreserved =>
      subst hrows
      exact absurd (hin.eq ⟨hne, hreserved⟩) ht
  | replayed hrows hne hsettled =>
      subst hrows
      exact ⟨rfl, hin.eq ⟨hne, fun d r hr => (hsettled d r hr).1⟩⟩

theorem ReleaseEffect.of_closed (h : ReleaseEffect run operation db m db') (hin : InState db run operation t)
    (ht : t ≠ .reserved) : db' = db ∧ t = .released := by
  cases h with
  | released hrows hne hreserved =>
      subst hrows
      exact absurd (hin.eq ⟨hne, hreserved⟩) ht
  | replayed hrows hne hreleased =>
      subst hrows
      exact ⟨rfl, hin.eq ⟨hne, hreleased⟩⟩

end closed

namespace Coordinator

section steps

variable {clamp : ℤ → ℤ} (hclamp : RunBudget.ClampsNegative clamp) {account run : Uuid}

/-- What one iteration of the coordinator's loop does. -/
inductive RecoverEffect (account run : Uuid) (hold : OpenHold) (s : Ledgers) : Ledgers → Prop
  | skipped {row : AccountUsage} (hrow : s.accountUsage.lookup (hold.key account) = some row)
      (hclosed : row.state ≠ .reserved) : RecoverEffect account run hold s s
  | closed {row : AccountUsage} {s₁ s' : Ledgers} (hrow : s.accountUsage.lookup (hold.key account) = some row)
      (hreserved : row.state = .reserved)
      (haccount : AccountBudget.Rewrote (hold.key account) (hold.closedRow row) s s₁)
      (hrows : InState s run hold.operationId .reserved)
      (hmoved : Moved run hold.operationId (hold.closes (RunBudget.rows s run hold.operationId)) s₁ s') :
      RecoverEffect account run hold s s'
  | alone {row : AccountUsage} {s₁ : Ledgers} (hrow : s.accountUsage.lookup (hold.key account) = some row)
      (hreserved : row.state = .reserved)
      (haccount : AccountBudget.Rewrote (hold.key account) (hold.closedRow row) s s₁)
      (hrows : InState s run hold.operationId hold.state) : RecoverEffect account run hold s s₁

/-- An account row is written and the Run rows stay. -/
theorem rows_of_rewrote {key : AccountUsageKey} {row : AccountUsage} {s s₁ : Ledgers}
    (h : AccountBudget.Rewrote key row s s₁) (run : Uuid) (operation : String) :
    RunBudget.rows s₁ run operation = RunBudget.rows s run operation := by
  rw [h.only]
  rfl

include hclamp

theorem recoverStep_effect {u u' : Unit} {hold : OpenHold} {s s' : Ledgers} (hs : Recorded s)
    (h : (recoverStep clamp account run u hold).run s = .ok (u', s')) : RecoverEffect account run hold s s' := by
  unfold recoverStep at h
  rw [Tx.bind_ok] at h
  obtain ⟨⟨day, row⟩, s₀, hlock, h⟩ := h
  obtain ⟨rfl, hday, hrow, _⟩ := AccountBudget.lockedLedger_ok hlock
  obtain rfl : day = hold.quotaDate := hday
  dsimp only at h
  split at h
  next hreserved =>
    by_cases hd : hold.dispatched = true
    · rw [if_pos hd, Tx.bind_query_ok, Tx.bind_ofExcept_ok] at h
      obtain ⟨_, _, h⟩ := h
      rw [Tx.bind_ok] at h
      obtain ⟨a, s₁, hsettle, h⟩ := h
      rw [Tx.bind_ok] at h
      obtain ⟨m, s₂, hrun, h⟩ := h
      obtain ⟨_, rfl⟩ := Tx.pure_ok.mp h
      have hs₁ := AccountBudget.settleInUow_recorded _ _ _ _ _ _ _ hsettle hs
      obtain ⟨tokens, source, day', htokens, hsource, hday', hdone⟩ := AccountBudget.settleInUow_ok hsettle
      obtain rfl := Except.ok.inj htokens
      obtain rfl := Except.ok.inj hsource
      obtain rfl : day' = hold.quotaDate := hday'
      obtain ⟨_, source, actual, hsource, hvalues, heffect⟩ := RunBudget.settleInUow_effect hclamp hs₁ hrun
      obtain rfl := Except.ok.inj hsource
      rw [amounts_rawItems] at hvalues
      have hactual := nonempty_ok hvalues
      subst hactual
      cases hdone with
      | replayed hrow' hstate =>
          obtain rfl := Option.some.inj (hrow.symm.trans hrow')
          rw [hreserved] at hstate
          cases hstate
      | settled hrow' _ haccount =>
          obtain rfl := Option.some.inj (hrow.symm.trans hrow')
          have hrows := rows_of_rewrote haccount run hold.operationId
          have hclosed : AccountBudget.Rewrote (hold.key account) (hold.closedRow row) s s₁ := by
            unfold OpenHold.closedRow
            rw [if_pos hd]
            exact haccount
          cases heffect with
          | settled hrs hne hall _ hmoved =>
              rw [hrows] at hrs
              subst hrs
              refine .closed hrow hreserved hclosed ⟨hne, hall⟩ ?_
              unfold OpenHold.closes
              rw [if_pos hd]
              exact hmoved
          | replayed hrs hne hsettled _ =>
              rw [hrows] at hrs
              subst hrs
              refine .alone hrow hreserved hclosed ⟨hne, fun d r hr => ?_⟩
              unfold OpenHold.state
              rw [if_pos hd]
              exact (hsettled d r hr).1
    · rw [if_neg hd, Tx.bind_ok] at h
      obtain ⟨a, s₁, hrelease, h⟩ := h
      rw [Tx.bind_ok] at h
      obtain ⟨m, s₂, hrun, h⟩ := h
      obtain ⟨_, rfl⟩ := Tx.pure_ok.mp h
      have hs₁ := AccountBudget.releaseInUow_recorded _ _ _ _ _ hrelease hs
      obtain ⟨day', hday', hdone⟩ := AccountBudget.releaseInUow_ok hrelease
      obtain rfl : day' = hold.quotaDate := hday'
      obtain ⟨_, heffect⟩ := RunBudget.releaseInUow_effect hclamp hs₁ hrun
      cases hdone with
      | replayed hrow' hstate =>
          obtain rfl := Option.some.inj (hrow.symm.trans hrow')
          rw [hreserved] at hstate
          cases hstate
      | released hrow' _ haccount =>
          obtain rfl := Option.some.inj (hrow.symm.trans hrow')
          have hrows := rows_of_rewrote haccount run hold.operationId
          have hclosed : AccountBudget.Rewrote (hold.key account) (hold.closedRow row) s s₁ := by
            unfold OpenHold.closedRow
            rw [if_neg hd]
            exact haccount
          cases heffect with
          | released hrs hne hall hmoved =>
              rw [hrows] at hrs
              subst hrs
              refine .closed hrow hreserved hclosed ⟨hne, hall⟩ ?_
              unfold OpenHold.closes
              rw [if_neg hd]
              exact hmoved
          | replayed hrs hne hreleased =>
              rw [hrows] at hrs
              subst hrs
              refine .alone hrow hreserved hclosed ⟨hne, fun d r hr => ?_⟩
              unfold OpenHold.state
              rw [if_neg hd]
              exact hreleased d r hr
  next hclosed =>
    obtain ⟨_, rfl⟩ := Tx.pure_ok.mp h
    exact .skipped hrow hclosed

end steps

/-! ### The coordinator's loop -/

/-- A hold of the list has been closed: its account row as the hold says, and with it the Run rows. -/
def OpenHold.Done (db : Ledgers) (account run : Uuid) (s : Ledgers) (h : OpenHold) : Prop :=
  (∀ row, db.accountUsage.lookup (h.key account) = some row →
    s.accountUsage.lookup (h.key account) = some (h.closedRow row)) ∧ InState s run h.operationId h.state

/-- The invariant of the loop over the holds read from `db`, with `rest` still to come. -/
structure RecoveryProgress (db : Ledgers) (account run : Uuid) (rest : List OpenHold) (s : Ledgers) : Prop where
  recorded : Recorded s
  same : SameInputs db s
  passed : ∀ h ∈ openHolds db account run, h ∈ rest ∨ h.Done db account run s
  pending : ∀ h ∈ openHolds db account run,
    s.accountUsage.lookup (h.key account) = db.accountUsage.lookup (h.key account) ∨ h.Done db account run s
  otherAccountRows : ∀ k, (∀ h ∈ openHolds db account run, h.key account ≠ k) →
    s.accountUsage.lookup k = db.accountUsage.lookup k
  runRows : ∀ operation, RunBudget.rows s run operation = RunBudget.rows db run operation ∨
    (InState db run operation .reserved ∧ ∃ h ∈ openHolds db account run, h.operationId = operation ∧
      RunBudget.rows s run operation = h.closes (RunBudget.rows db run operation))
  otherRuns : ∀ k : RunUsageKey, k.runId ≠ run → s.runUsage.lookup k = db.runUsage.lookup k

section loop

variable {db : Ledgers} {account run : Uuid} {rest : List OpenHold} {s s' : Ledgers} {hold : OpenHold}

theorem RecoveryProgress.start (hs : Recorded db) : RecoveryProgress db account run (openHolds db account run) db where
  recorded := hs
  same := refl_of SameInputs db
  passed _ h := .inl h
  pending _ _ := .inl rfl
  otherAccountRows _ _ := rfl
  runRows _ := .inl rfl
  otherRuns _ _ := rfl

/-- The account row of the current hold is written; the Run ledger may have moved for its operation. -/
theorem RecoveryProgress.write (hp : RecoveryProgress db account run (hold :: rest) s)
    (hmem : hold ∈ openHolds db account run) (hs' : Recorded s') (hsame : SameInputs s s')
    (hpending : s.accountUsage.lookup (hold.key account) = db.accountUsage.lookup (hold.key account))
    (hrow : ∀ row, s.accountUsage.lookup (hold.key account) = some row →
      s'.accountUsage.lookup (hold.key account) = some (hold.closedRow row))
    (hother : ∀ k, k ≠ hold.key account → s'.accountUsage.lookup k = s.accountUsage.lookup k)
    (hstate : InState s' run hold.operationId hold.state)
    (hmoved : (∀ operation, RunBudget.rows s' run operation = RunBudget.rows s run operation) ∨
      (InState s run hold.operationId .reserved ∧ ∀ operation, RunBudget.rows s' run operation
        = if operation = hold.operationId then hold.closes (RunBudget.rows s run operation)
          else RunBudget.rows s run operation))
    (hruns : ∀ k : RunUsageKey, k.runId ≠ run → s'.runUsage.lookup k = s.runUsage.lookup k) :
    RecoveryProgress db account run rest s' := by
  have hdone : hold.Done db account run s' := ⟨fun row h => hrow row (hpending.trans h), hstate⟩
  -- what was closed before stays closed
  have hkeep : ∀ h ∈ openHolds db account run, h.key account ≠ hold.key account → h.Done db account run s →
      h.Done db account run s' := by
    intro h _ hne hd
    refine ⟨fun row hr => (hother _ hne).trans (hd.1 row hr), ?_⟩
    rcases hmoved with hrows | ⟨hreserved, hrows⟩
    · unfold InState
      rw [hrows]
      exact hd.2
    · by_cases hop : h.operationId = hold.operationId
      · have hin := hd.2
        rw [hop] at hin
        exact absurd (hin.eq hreserved) h.state_ne
      · unfold InState
        rw [hrows, if_neg hop]
        exact hd.2
  have hcases : ∀ h ∈ openHolds db account run, h = hold ∨ h.key account ≠ hold.key account := by
    intro h hh
    by_cases he : h.key account = hold.key account
    · exact .inl (openHolds_eq hh hmem he)
    · exact .inr he
  refine ⟨hs', trans_of SameInputs hp.same hsame, fun h hh => ?_, fun h hh => ?_, fun k hk => ?_, fun operation => ?_,
    fun k hk => (hruns k hk).trans (hp.otherRuns k hk)⟩
  · rcases hcases h hh with rfl | hne
    · exact .inr hdone
    · rcases hp.passed h hh with hrest | hd
      · rcases List.mem_cons.mp hrest with rfl | hrest
        · exact absurd rfl hne
        · exact .inl hrest
      · exact .inr (hkeep h hh hne hd)
  · rcases hcases h hh with rfl | hne
    · exact .inr hdone
    · rcases hp.pending h hh with hsame' | hd
      · exact .inl ((hother _ hne).trans hsame')
      · exact .inr (hkeep h hh hne hd)
  · exact (hother k fun he => hk hold hmem he.symm).trans (hp.otherAccountRows k hk)
  · rcases hmoved with hrows | ⟨hreserved, hrows⟩
    · rw [hrows]
      exact hp.runRows operation
    · rw [hrows]
      split
      · next hop =>
          subst hop
          rcases hp.runRows hold.operationId with hold' | ⟨_, h, _, _, hclosed⟩
          · right
            unfold InState at hreserved ⊢
            rw [hold'] at hreserved ⊢
            exact ⟨hreserved, hold, hmem, rfl, rfl⟩
          · -- rows that another hold has closed are not reserved
            exfalso
            refine hreserved.1 ?_
            funext d
            cases hr : RunBudget.rows s run hold.operationId d with
            | none => rfl
            | some r =>
                have hstate' := hreserved.2 d r hr
                rw [hclosed] at hr
                rw [h.closes_state hr] at hstate'
                exact absurd hstate' h.state_ne
      · exact hp.runRows operation

/-- **One iteration** of the loop. -/
theorem RecoveryProgress.step (hp : RecoveryProgress db account run (hold :: rest) s)
    (hmem : hold ∈ openHolds db account run) (hs' : Recorded s') (h : RecoverEffect account run hold s s') :
    RecoveryProgress db account run rest s' := by
  have hopen := mem_openHolds_iff.mp hmem
  obtain ⟨row₀, hrow₀, hreserved₀, _⟩ := hopen
  cases h with
  | @skipped row hrow hclosed =>
      -- the row was reserved when it was read, so its hold has been closed already
      have hdone : hold.Done db account run s := by
        rcases hp.pending hold hmem with hsame | hd
        · rw [hrow, hrow₀] at hsame
          obtain rfl := Option.some.inj hsame
          exact absurd hreserved₀ hclosed
        · exact hd
      refine ⟨hp.recorded, hp.same, fun h hh => ?_, hp.pending, hp.otherAccountRows, hp.runRows, hp.otherRuns⟩
      rcases hp.passed h hh with hrest | hd
      · rcases List.mem_cons.mp hrest with rfl | hrest
        · exact .inr hdone
        · exact .inl hrest
      · exact .inr hd
  | @closed row s₁ _ hrow hreserved haccount hrows hmoved =>
      have hlookup : ∀ k, s'.accountUsage.lookup k
          = if k = hold.key account then some (hold.closedRow row) else s.accountUsage.lookup k := by
        intro k
        rw [hmoved.accountUsage, haccount.only]
        exact Table.lookup_insert_ite _ _ _ _
      have hrunRows : ∀ operation, RunBudget.rows s' run operation
          = if operation = hold.operationId then hold.closes (RunBudget.rows s run operation)
            else RunBudget.rows s run operation := by
        intro operation
        rw [hmoved.rows_ite, rows_of_rewrote haccount]
        by_cases hop : operation = hold.operationId
        · subst hop
          simp
        · simp [hop]
      refine hp.write hmem hs' (trans_of SameInputs haccount.sameInputs hmoved.sameInputs) ?_ (fun row' hrow' => ?_)
        (fun k hk => ?_) ?_ (.inr ⟨hrows, hrunRows⟩) (fun k hk => ?_)
      · rcases hp.pending hold hmem with hsame | hd
        · exact hsame
        · rw [hd.1 row₀ hrow₀] at hrow
          obtain rfl := Option.some.inj hrow
          rw [hold.closedRow_state] at hreserved
          exact absurd hreserved hold.state_ne
      · rw [hrow] at hrow'
        obtain rfl := Option.some.inj hrow'
        rw [hlookup, if_pos rfl]
      · rw [hlookup, if_neg hk]
      · unfold InState
        rw [hrunRows, if_pos rfl]
        exact ⟨hold.closes_ne_empty hrows.1, fun d r hr => hold.closes_state hr⟩
      · have hne : k ≠ ⟨run, hold.operationId, k.dimension⟩ := by
          intro he
          rw [he] at hk
          exact hk rfl
        rw [hmoved.frame k hne, haccount.only]
  | @alone row _ hrow hreserved haccount hrows =>
      have hlookup : ∀ k, s'.accountUsage.lookup k
          = if k = hold.key account then some (hold.closedRow row) else s.accountUsage.lookup k := by
        intro k
        rw [haccount.only]
        exact Table.lookup_insert_ite _ _ _ _
      refine hp.write hmem hs' haccount.sameInputs ?_ (fun row' hrow' => ?_) (fun k hk => ?_) ?_
        (.inl fun operation => rows_of_rewrote haccount _ _) (fun k _ => by rw [haccount.only])
      · rcases hp.pending hold hmem with hsame | hd
        · exact hsame
        · rw [hd.1 row₀ hrow₀] at hrow
          obtain rfl := Option.some.inj hrow
          rw [hold.closedRow_state] at hreserved
          exact absurd hreserved hold.state_ne
      · rw [hrow] at hrow'
        obtain rfl := Option.some.inj hrow'
        rw [hlookup, if_pos rfl]
      · rw [hlookup, if_neg hk]
      · unfold InState
        rw [rows_of_rewrote haccount]
        exact hrows

/-- **The coordinator's recovery.** -/
theorem recoverTerminalInUow_progress {clamp : ℤ → ℤ} (hclamp : RunBudget.ClampsNegative clamp) {u : Unit}
    (hs : Recorded db) (h : (recoverTerminalInUow clamp run).run db = .ok (u, s')) :
    ∃ r, db.authority.runs run = some r ∧ r.status.terminal = true ∧ RecoveryProgress db r.accountId run [] s' := by
  unfold recoverTerminalInUow at h
  rw [Tx.bind_query_ok, Tx.bind_demand_ok] at h
  obtain ⟨r, hr, h⟩ := h
  obtain ⟨hr, hterminal⟩ := Option.filter_eq_some_iff.mp hr
  rw [Tx.bind_query_ok] at h
  refine ⟨r, hr, hterminal, ?_⟩
  refine (Tx.foldlM_rule (fun rest _ s => RecoveryProgress db r.accountId run rest s ∧
    ∀ hold ∈ rest, hold ∈ openHolds db r.accountId run) ?_ ⟨.start hs, fun _ hold => hold⟩ h).1
  rintro hold rest u s u' s' ⟨hp, hrest⟩ hstep
  have hmem := hrest hold List.mem_cons_self
  have hs' := (keptByServices_recorded hclamp).recoverStep _ _ _ _ _ hstep hp.recorded
  exact ⟨hp.step hmem hs' (recoverStep_effect hclamp hp.recorded hstep),
    fun hold' hmem' => hrest hold' (List.mem_cons_of_mem _ hmem')⟩

end loop

end Coordinator

/-! ### The Run's loop -/

namespace RunBudget

section loop

variable {db : Ledgers} {run : Uuid} {operation : String}

theorem mem_openOperations : operation ∈ openOperations db run ↔
    ∃ d r, rows db run operation d = some r ∧ r.state = .reserved := by
  unfold openOperations
  rw [List.mem_mergeSort, List.mem_dedup, List.mem_map]
  constructor
  · rintro ⟨⟨⟨run', operation', d⟩, r⟩, hmem, rfl⟩
    obtain ⟨hentry, hkey⟩ := List.mem_filter.mp hmem
    simp only [decide_eq_true_eq] at hkey
    obtain ⟨rfl, hstate⟩ := hkey
    exact ⟨d, r, AList.mem_lookup_iff.mpr hentry, hstate⟩
  · rintro ⟨d, r, hr, hstate⟩
    refine ⟨⟨⟨run, operation, d⟩, r⟩, List.mem_filter.mpr ⟨AList.mem_lookup_iff.mp hr, ?_⟩, rfl⟩
    simp [hstate]

/-- The open amounts of an operation all of whose rows are reserved. -/
theorem openAmounts_eq (h : ∀ d r, rows db run operation d = some r → r.state = .reserved) :
    openAmounts db run operation = reservedAmounts (rows db run operation) := by
  funext d
  unfold openAmounts reservedAmounts
  cases hr : rows db run operation d with
  | none => rfl
  | some r => simp [h d r hr]

/-- What an estimated settlement makes of the rows of an operation. -/
def estimatedRows (rs : Dict RunUsage) : Dict RunUsage := settledRows rs (reservedAmounts rs) .estimated

theorem estimatedRows_inState {s : Ledgers} (h : InState db run operation .reserved)
    (hrows : rows s run operation = estimatedRows (rows db run operation)) : InState s run operation .settled := by
  unfold InState
  rw [hrows]
  constructor
  · intro he
    apply h.1
    funext d
    exact Option.map_eq_none_iff.mp (congrFun he d)
  · intro d r hr
    obtain ⟨r', _, rfl⟩ := Option.map_eq_some_iff.mp hr
    rfl

/-- The invariant of the loop over the operations read from `db`. -/
structure EstimateProgress (db : Ledgers) (run : Uuid) (rest : List (String × Dict ℕ)) (s : Ledgers) : Prop where
  recorded : Recorded s
  same : SameInputs db s
  account : s.accountUsage = db.accountUsage
  passed : ∀ operation ∈ openOperations db run, operation ∈ rest.map Prod.fst ∨
    (InState db run operation .reserved ∧ rows s run operation = estimatedRows (rows db run operation))
  kept : ∀ operation, rows s run operation = rows db run operation ∨
    (InState db run operation .reserved ∧ rows s run operation = estimatedRows (rows db run operation))
  otherRuns : ∀ k : RunUsageKey, k.runId ≠ run → s.runUsage.lookup k = db.runUsage.lookup k

theorem EstimateProgress.start (hs : Recorded db) (rest : List (String × Dict ℕ))
    (hrest : ∀ operation ∈ openOperations db run, operation ∈ rest.map Prod.fst) : EstimateProgress db run rest db where
  recorded := hs
  same := refl_of SameInputs db
  account := rfl
  passed operation h := .inl (hrest operation h)
  kept _ := .inl rfl
  otherRuns _ _ := rfl

/-- **One iteration** of the loop. -/
theorem EstimateProgress.step {clamp : ℤ → ℤ} (hclamp : ClampsNegative clamp) {rest : List (String × Dict ℕ)}
    {s s' : Ledgers} {u u' : Unit}
    (hp : EstimateProgress db run ((operation, openAmounts db run operation) :: rest) s)
    (hmem : operation ∈ openOperations db run)
    (h : (recoverStep clamp run u (operation, openAmounts db run operation)).run s = .ok (u', s')) :
    EstimateProgress db run rest s' := by
  unfold recoverStep at h
  rw [Tx.bind_ok] at h
  obtain ⟨m, s₁, hsettle, h⟩ := h
  obtain ⟨_, rfl⟩ := Tx.pure_ok.mp h
  obtain ⟨hs₁, source, actual, hsource, hvalues, heffect⟩ := settleInUow_effect hclamp hp.recorded hsettle
  obtain rfl := Except.ok.inj hsource
  rw [amounts_rawItems] at hvalues
  have hactual := nonempty_ok hvalues
  subst hactual
  cases heffect with
  | @settled rs _ hrs hne hreserved hkeys hmoved =>
      subst hrs
      -- nothing has closed these rows since they were read
      have hsame : rows s run operation = rows db run operation := by
        rcases hp.kept operation with hsame | ⟨hin, hclosed⟩
        · exact hsame
        · have hstate := InState.eq ⟨hne, hreserved⟩ (estimatedRows_inState hin hclosed)
          cases hstate
      have hin : InState db run operation .reserved := by
        unfold InState
        rw [← hsame]
        exact ⟨hne, hreserved⟩
      have hrows : ∀ operation', rows s₁ run operation'
          = if operation' = operation then estimatedRows (rows db run operation) else rows s run operation' := by
        intro operation'
        rw [hmoved.rows_ite, hsame, openAmounts_eq hin.2]
        by_cases hop : operation' = operation
        · simp [hop, estimatedRows]
        · simp [hop]
      refine ⟨hs₁, trans_of SameInputs hp.same hmoved.sameInputs, hmoved.accountUsage.trans hp.account,
        fun operation' hmem' => ?_, fun operation' => ?_, fun k hk => ?_⟩
      · rw [hrows]
        split
        · next hop =>
            subst hop
            exact .inr ⟨hin, rfl⟩
        · next hop =>
            rcases hp.passed operation' hmem' with hrest | hdone
            · rcases List.mem_cons.mp hrest with he | hrest
              · exact absurd he hop
              · exact .inl hrest
            · exact .inr hdone
      · rw [hrows]
        split
        · next hop =>
            subst hop
            exact .inr ⟨hin, rfl⟩
        · exact hp.kept operation'
      · have hne' : k ≠ ⟨run, operation, k.dimension⟩ := by
          intro he
          rw [he] at hk
          exact hk rfl
        rw [hmoved.frame k hne']
        exact hp.otherRuns k hk
  | @replayed rs hrs hne hsettled _ =>
      subst hrs
      -- the operation held something when it was read, so it has been settled in this loop
      have hclosed : InState db run operation .reserved ∧ rows s run operation = estimatedRows (rows db run operation) := by
        rcases hp.kept operation with hsame | hdone
        · obtain ⟨d, r, hr, hstate⟩ := mem_openOperations.mp hmem
          rw [← hsame] at hr
          have hset := (hsettled d r hr).1
          rw [hstate] at hset
          cases hset
        · exact hdone
      refine ⟨hs₁, hp.same, hp.account, fun operation' hmem' => ?_, hp.kept, hp.otherRuns⟩
      rcases hp.passed operation' hmem' with hrest | hdone
      · rcases List.mem_cons.mp hrest with he | hrest
        · dsimp only at he
          subst he
          exact .inr hclosed
        · exact .inl hrest
      · exact .inr hdone

/-- **The Run's recovery.** -/
theorem recoverTerminalInUow_progress {clamp : ℤ → ℤ} (hclamp : ClampsNegative clamp) {u : Unit} {s' : Ledgers}
    (hs : Recorded db) (h : (recoverTerminalInUow clamp run).run db = .ok (u, s')) :
    EstimateProgress db run [] s' := by
  unfold recoverTerminalInUow at h
  rw [Tx.bind_query_ok, Tx.bind_check_ok, Tx.bind_query_ok] at h
  refine (Tx.foldlM_rule (fun rest _ s => EstimateProgress db run rest s ∧
    ∀ p ∈ rest, p.1 ∈ openOperations db run ∧ p.2 = openAmounts db run p.1) ?_
    ⟨.start hs _ fun operation hmem => ?_, fun p hp => ?_⟩ h.2).1
  · rintro ⟨operation, values⟩ rest u s u' s' ⟨hp, hrest⟩ hstep
    obtain ⟨hmem, hvalues⟩ := hrest (operation, values) List.mem_cons_self
    dsimp only at hmem hvalues
    subst hvalues
    exact ⟨hp.step hclamp hmem hstep, fun p hp' => hrest p (List.mem_cons_of_mem _ hp')⟩
  · rw [List.map_map]
    exact List.mem_map.mpr ⟨operation, hmem, rfl⟩
  · obtain ⟨operation, hmem, rfl⟩ := List.mem_map.mp hp
    exact ⟨hmem, rfl⟩

end loop

end RunBudget

end HpAgent.Budget
