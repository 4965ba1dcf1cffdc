import HpAgent.Budget.ModelHolds

/-! # Cross-ledger agreement

Every coordinator call keeps the three ledgers images of one (`Coordinated`).

* `close_halves`: the account, Work and Run halves of a closing call all rewrite their images of one hold,
  or all repeat.  `reserve_halves`, `settle_halves` and `release_halves` say so for each call.
* `Coordinator.reserve_coordinated`, `Coordinator.settle_coordinated`, `Coordinator.release_coordinated` and
  `Coordinator.recoverTerminalInUow_coordinated` carry this to the calls. -/

namespace HpAgent.Budget

open Library
open WorkBudget (meteredOn)

variable {r : AccountMutation × Mutation} {caller : Caller} {finalResponse : Bool}

/-- The three ledgers are conserved and are images of one. -/
structure Coordinated (db : Ledgers) : Prop where
  conserved : Conserved db
  frozen : Frozen db
  represented : ∃ e, Represents db e

/-! ### The token totals -/

theorem Raw.comparable_of_amount {raw : Raw} {n : ℕ} (h : raw.amount = some n) : raw.comparable = some (n : ℤ) := by
  unfold Raw.amount at h
  split at h
  · obtain rfl := Option.some.inj h
    rfl
  · cases h

/-- The account tokens of an accepted call are the Run's `model_total_tokens`. -/
theorem total_of_matching {total : Raw} {values : Values} {n : ℕ} {v : Dict ℕ}
    (hmatch : Coordinator.requireMatchingTotal total values.items = .ok ()) (htotal : AccountBudget.tokens total = .ok n)
    (hvalues : amounts values.items = .ok v) : v .modelTotalTokens = some n := by
  have hamount : total.amount = some n := by
    unfold AccountBudget.tokens at htotal
    split at htotal
    · next m hm =>
        rw [hm]
        exact congrArg some (Except.ok.inj htotal)
    · cases htotal
  unfold Coordinator.requireMatchingTotal at hmatch
  split at hmatch
  · next heq =>
      rw [Raw.comparable_of_amount hamount, Option.bind_eq_some_iff] at heq
      obtain ⟨raw, hraw, hcomparable⟩ := heq
      obtain ⟨m, hm, hv⟩ := amounts_lookup values.nodup hvalues (d := .modelTotalTokens) hraw
      rw [Raw.comparable_of_amount hm] at hcomparable
      have hmn : m = n := by exact_mod_cast Option.some.inj hcomparable
      rw [hv, hmn]
  · cases hmatch

/-- A validated mapping as an argument. -/
def Values.ofDict (v : Dict ℕ) : Values where
  items := rawItems v
  nodup := by
    have hnames : (rawItems v).map Prod.fst = (v.items.map Prod.fst).map Dimension.name := by
      unfold rawItems
      rw [List.map_map, List.map_map]
      rfl
    rw [hnames]
    exact v.nodup_items.map Dimension.name_injective

/-! ### Closing a hold -/

section closing

variable {db dbA dbW db' : Ledgers} {e : String → Option ModelHold} {account run : Uuid} {day : Date}
  {operation : String}

/-- A closing call has done its part: the hold was open and its image is rewritten, or the hold had ended
in this way before and nothing is changed. -/
def Closed (h : ModelHold) (o : Outcome) (rewrote : Prop) (db db' : Ledgers) : Prop :=
  (h.outcome.state = .reserved ∧ rewrote) ∨ (h.outcome.state = o.state ∧ db' = db)

/-- **The halves of a closing call agree**: they all rewrite their images of the hold, or all repeat. -/
theorem close_halves {h : ModelHold} {o : Outcome} {action : WorkBudget.Action} {u : Unit}
    (hrep : Represents db e) (he : e operation = some h) (ho : o.state ≠ .reserved)
    (hA : Closed h o (AccountBudget.Rewrote ⟨h.account, h.day, operation⟩ (h.ended o).accountRow db dbA) db dbA)
    (hwork : (WorkBudget.mutate run operation action).run dbA = .ok (u, dbW))
    (hW : ∀ account work, WorkBudget.Done account work h.run operation dbA action dbW →
      WorkBudget.rows dbA account work h.run operation = h.workRows →
      Closed h o (WorkBudget.Rewrote account work h.run operation (h.ended o).workRows dbA dbW) dbA dbW)
    (hne : RunBudget.rows dbW run operation ≠ Dict.empty)
    (hR : RunBudget.rows dbW run operation = h.runRows →
      Closed h o (RunBudget.Rewrote run operation (h.ended o).runRows dbW db') dbW db') :
    SameInputs db db' ∧ ∃ e', Represents db' e' := by
  have hrepA : SameInputs db dbA ∧ (∀ run operation, RunBudget.rows dbA run operation = RunBudget.rows db run operation) ∧
      ∀ account work run operation,
        WorkBudget.rows dbA account work run operation = WorkBudget.rows db account work run operation := by
    rcases hA with ⟨_, hdone⟩ | ⟨_, rfl⟩
    · exact ⟨hdone.sameInputs, hdone.otherRows⟩
    · exact ⟨refl_of SameInputs _, fun _ _ => rfl, fun _ _ _ _ => rfl⟩
  -- the Run rows of the operation are those of its hold, so the call is about the hold's Run
  have hrun : h.run = run ∧ RunBudget.rows dbW run operation = h.runRows := by
    rw [(WorkBudget.mutate_otherRows hwork).2, hrepA.2.1] at hne ⊢
    obtain ⟨h', he', hrun, hrows⟩ := hrep.of_runRows hne
    obtain rfl := Option.some.inj (he.symm.trans he')
    exact ⟨hrun, hrows⟩
  obtain ⟨rfl, hrows⟩ := hrun
  have hclosed : ∀ account work, meteredOn dbA.authority h.run = some (account, work) →
      WorkBudget.Done account work h.run operation dbA action dbW →
      Closed h o (WorkBudget.Rewrote account work h.run operation (h.ended o).workRows dbA dbW) dbA dbW := by
    intro account work hm hdone
    refine hW account work hdone ?_
    rw [hrepA.1.authority] at hm
    rw [hrepA.2.2]
    exact hrep.workRows_of he hm
  rcases hA with ⟨hopen, hdoneA⟩ | ⟨hended, rfl⟩
  · -- the hold was open: no half can have repeated an earlier close
    have hstate : h.outcome.state ≠ o.state := by
      rw [hopen]
      exact ho.symm
    have hdoneR : RunBudget.Rewrote h.run operation (h.ended o).runRows dbW db' := by
      rcases hR hrows with ⟨_, hdone⟩ | ⟨hbad, _⟩
      · exact hdone
      · exact absurd hbad hstate
    have hdoneW : WorkRecorded (h.ended o) operation dbA dbW := by
      rcases WorkBudget.mutate_ok hwork with ⟨hm, rfl⟩ | ⟨account, work, hm, hdone⟩
      · exact .unmetered hm
      · rcases hclosed account work hm hdone with ⟨_, hdone⟩ | ⟨hbad, _⟩
        · exact .metered hm hdone
        · exact absurd hbad hstate
    refine ⟨trans_of SameInputs (trans_of SameInputs hdoneA.sameInputs hdoneW.sameInputs) hdoneR.sameInputs,
      _, Represents.record (h := h.ended o) hrep (fun h₀ he₀ => ?_) (hrep.frozen operation h he) hdoneA hdoneW
        hdoneR⟩
    obtain rfl := Option.some.inj (he.symm.trans he₀)
    exact ⟨rfl, rfl, rfl⟩
  · -- it had ended before: every half repeats
    have hstate : h.outcome.state ≠ .reserved := by
      rw [hended]
      exact ho
    have hsameW : dbW = dbA := by
      rcases WorkBudget.mutate_ok hwork with ⟨_, hsame⟩ | ⟨account, work, hm, hdone⟩
      · exact hsame
      · rcases hclosed account work hm hdone with ⟨hbad, _⟩ | ⟨_, hsame⟩
        · exact absurd hbad hstate
        · exact hsame
    rcases hR hrows with ⟨hbad, _⟩ | ⟨_, hsameR⟩
    · exact absurd hbad hstate
    · rw [hsameR, hsameW]
      exact ⟨refl_of SameInputs _, e, hrep⟩

/-- **A settlement in all three ledgers.** -/
theorem settle_halves {actual : ℕ} {values : Dict ℕ} {source : UsageSource} {m : AccountMutation} {m' : Mutation}
    {u : Unit} (hrep : Represents db e) (htotal : values .modelTotalTokens = some actual)
    (hA : AccountBudget.Settled account day operation actual source db m dbA)
    (hwork : (WorkBudget.mutate run operation (.settle values source)).run dbA = .ok (u, dbW))
    (hR : RunBudget.Settled run operation values source dbW m' db') :
    SameInputs db db' ∧ ∃ e', Represents db' e' := by
  have hrow : ∃ row, db.accountUsage.lookup ⟨account, day, operation⟩ = some row := by
    cases hA with
    | settled hrow => exact ⟨_, hrow⟩
    | replayed hrow => exact ⟨_, hrow⟩
  obtain ⟨row, hrow⟩ := hrow
  obtain ⟨h, he, rfl, rfl, rfl⟩ := hrep.of_accountRow hrow
  refine close_halves (o := .settled values source) hrep he nofun ?_ hwork (fun account work hdone hrows => ?_)
    ?_ (fun hrows => ?_)
  · cases hA with
    | settled hrow' hstate hdone =>
        obtain rfl := Option.some.inj (hrow.symm.trans hrow')
        have himage : (h.ended (.settled values source)).accountRow
            = { h.accountRow with state := .settled, actualTokens := some actual, usageSource := some source } := by
          rw [← htotal]
          rfl
        rw [himage]
        exact .inl ⟨hstate, hdone⟩
    | replayed hrow' hstate =>
        obtain rfl := Option.some.inj (hrow.symm.trans hrow')
        exact .inr ⟨hstate, rfl⟩
  · cases hdone with
    | settled hrs _ hreserved _ hdone =>
        rw [hrows] at hrs
        subst hrs
        rw [ModelHold.closedRows_workRows] at hdone
        exact .inl ⟨ModelHold.state_of_all_workRows hreserved, hdone⟩
    | settleReplayed hrs _ hsettled =>
        rw [hrows] at hrs
        subst hrs
        exact .inr ⟨ModelHold.state_of_all_workRows fun d r hr => (hsettled d r hr).1, rfl⟩
  · cases hR with
    | settled hrs hne => exact hrs ▸ hne
    | replayed hrs hne => exact hrs ▸ hne
  · cases hR with
    | settled hrs _ hreserved _ hdone =>
        rw [hrows] at hrs
        subst hrs
        rw [ModelHold.settledRows_runRows] at hdone
        exact .inl ⟨ModelHold.state_of_all_runRows hreserved, hdone⟩
    | replayed hrs _ hsettled =>
        rw [hrows] at hrs
        subst hrs
        exact .inr ⟨ModelHold.state_of_all_runRows fun d r hr => (hsettled d r hr).1, rfl⟩

/-- **A release in all three ledgers.** -/
theorem release_halves {m : AccountMutation} {m' : Mutation} {u : Unit} (hrep : Represents db e)
    (hA : AccountBudget.Released account day operation db m dbA)
    (hwork : (WorkBudget.mutate run operation .release).run dbA = .ok (u, dbW))
    (hR : RunBudget.Released run operation dbW m' db') : SameInputs db db' ∧ ∃ e', Represents db' e' := by
  have hrow : ∃ row, db.accountUsage.lookup ⟨account, day, operation⟩ = some row := by
    cases hA with
    | released hrow => exact ⟨_, hrow⟩
    | replayed hrow => exact ⟨_, hrow⟩
  obtain ⟨row, hrow⟩ := hrow
  obtain ⟨h, he, rfl, rfl, rfl⟩ := hrep.of_accountRow hrow
  refine close_halves (o := .released) hrep he nofun ?_ hwork (fun account work hdone hrows => ?_) ?_
    (fun hrows => ?_)
  · cases hA with
    | released hrow' hstate hdone =>
        obtain rfl := Option.some.inj (hrow.symm.trans hrow')
        have himage : (h.ended .released).accountRow = { h.accountRow with state := .released } := by
          unfold ModelHold.accountRow ModelHold.ended
          rw [Outcome.eq_reserved hstate]
          rfl
        rw [himage]
        exact .inl ⟨hstate, hdone⟩
    | replayed hrow' hstate =>
        obtain rfl := Option.some.inj (hrow.symm.trans hrow')
        exact .inr ⟨hstate, rfl⟩
  · cases hdone with
    | released hrs _ hreserved hdone =>
        rw [hrows] at hrs
        subst hrs
        rw [ModelHold.releasedRows_workRows] at hdone
        exact .inl ⟨ModelHold.state_of_all_workRows hreserved, hdone⟩
    | releaseReplayed hrs _ hreleased =>
        rw [hrows] at hrs
        subst hrs
        exact .inr ⟨ModelHold.state_of_all_workRows hreleased, rfl⟩
  · cases hR with
    | released hrs hne => exact hrs ▸ hne
    | replayed hrs hne => exact hrs ▸ hne
  · cases hR with
    | released hrs _ hreserved hdone =>
        rw [hrows] at hrs
        subst hrs
        have hstate := ModelHold.state_of_all_runRows hreserved
        rw [ModelHold.releasedRows_runRows (Outcome.eq_reserved hstate)] at hdone
        exact .inl ⟨hstate, hdone⟩
    | replayed hrs _ hreleased =>
        rw [hrows] at hrs
        subst hrs
        exact .inr ⟨ModelHold.state_of_all_runRows hreleased, rfl⟩

end closing

/-! ### Opening a hold -/

section opening

variable {db db' : Ledgers} {account run : Uuid} {operation : String} {snapshot : Uuid}

theorem mem_priorDates {day : Date} : day ∈ Coordinator.priorDates db account operation snapshot ↔
    ∃ row, db.accountUsage.lookup ⟨account, day, operation⟩ = some row ∧ row.snapshotId = some snapshot := by
  unfold Coordinator.priorDates
  rw [List.mem_map]
  constructor
  · rintro ⟨⟨⟨a, d, o⟩, row⟩, hmem, rfl⟩
    obtain ⟨hentry, hkey⟩ := List.mem_filter.mp hmem
    simp only [decide_eq_true_eq] at hkey
    obtain ⟨rfl, rfl, hsnap⟩ := hkey
    exact ⟨row, AList.mem_lookup_iff.mpr hentry, hsnap⟩
  · rintro ⟨row, hrow, hsnap⟩
    refine ⟨⟨⟨account, day, operation⟩, row⟩, List.mem_filter.mpr ⟨AList.mem_lookup_iff.mp hrow, ?_⟩, rfl⟩
    simp [hsnap]

theorem priorDay_ok {day : Option Date} {s : Ledgers}
    (h : (Coordinator.priorDay account operation (some snapshot)).run db = .ok (day, s)) :
    s = db ∧ Coordinator.priorDates db account operation snapshot = day.toList := by
  unfold Coordinator.priorDay at h
  dsimp only at h
  rw [Tx.bind_query_ok] at h
  split at h
  · next hnil =>
      obtain ⟨rfl, rfl⟩ := Tx.pure_ok.mp h
      exact ⟨rfl, hnil⟩
  · next d hd =>
      obtain ⟨rfl, rfl⟩ := Tx.pure_ok.mp h
      exact ⟨rfl, hd⟩
  · exact (Tx.raise_ok.mp h).elim

/-- **What a coordinated reservation did**: its two halves, on the day of an earlier one. -/
theorem Coordinator.reserve_ok {total : Raw} {values : List (String × Raw)}
    {o : AccountBudget.Options} (hsnap : o.snapshotId = some snapshot)
    (h : (Coordinator.reserve caller account run operation total values finalResponse o).run db = .ok (r, db')) :
    ∃ tokens requested day dbA dbW, Coordinator.requireMatchingTotal total values = .ok () ∧
      AccountBudget.tokens total = .ok tokens ∧ amounts values = .ok requested ∧
      (∀ d ∈ Coordinator.priorDates db account operation snapshot, day = d) ∧
      AccountBudget.Reserved account day operation tokens (some snapshot) db r.1 dbA ∧
      (WorkBudget.mutate run operation (.reserve requested)).run dbA = .ok ((), dbW) ∧
      RunBudget.Reserved caller run operation requested dbW r.2 db' := by
  unfold Coordinator.reserve at h
  rw [Tx.bind_ofExcept_ok] at h
  obtain ⟨_, hmatch, h⟩ := h
  rw [Tx.bind_query_ok, Tx.bind_check_ok] at h
  obtain ⟨_, h⟩ := h
  rw [Tx.bind_query_ok, Tx.bind_ofExcept_ok] at h
  obtain ⟨_, _, h⟩ := h
  rw [Tx.bind_ok] at h
  obtain ⟨prior, s, hprior, h⟩ := h
  rw [hsnap] at hprior
  obtain ⟨rfl, hdates⟩ := priorDay_ok hprior
  rw [Tx.bind_ok] at h
  obtain ⟨a, dbA, haccount, h⟩ := h
  rw [Tx.bind_ok] at h
  obtain ⟨m, s, hrun, h⟩ := h
  obtain ⟨tokens, day, htokens, hday, hA⟩ := AccountBudget.reserveInUow_ok haccount
  dsimp only at hday hA
  rw [hsnap] at hA
  rcases RunBudget.reserveInUow_ok hrun with ⟨m', rfl, hbody⟩ | ⟨hdefer, _⟩
  · obtain ⟨rfl, rfl⟩ := Tx.pure_ok.mp h
    obtain ⟨requested, dbW, hvalues, hwork, hR⟩ := RunBudget.reserveBody_ok hbody
    refine ⟨tokens, requested, day, dbA, dbW, hmatch, htokens, hvalues, fun d hd => ?_, hA, hwork, hR⟩
    rw [hdates] at hd
    exact hday d (Option.mem_toList.mp hd)
  · cases hdefer

/-- **A reservation in all three ledgers**, for the snapshot frozen for its operation. -/
theorem reserve_halves {tokens : ℕ} {requested : Dict ℕ} {day : Date} {dbA dbW : Ledgers}
    {m : AccountMutation} {m' : Mutation} {u : Unit} {e : String → Option ModelHold} (hrep : Represents db e)
    (hunique : Frozen db) {s : Snapshot} (hs : db.snapshots.lookup snapshot = some s)
    (hfor : s.accountId = account ∧ s.runId = run ∧ s.operationId = operation)
    (htotal : requested .modelTotalTokens = some tokens)
    (hday : ∀ d ∈ Coordinator.priorDates db account operation snapshot, day = d)
    (hA : AccountBudget.Reserved account day operation tokens (some snapshot) db m dbA)
    (hwork : (WorkBudget.mutate run operation (.reserve requested)).run dbA = .ok (u, dbW))
    (hR : RunBudget.Reserved caller run operation requested dbW m' db') :
    SameInputs db db' ∧ ∃ e', Represents db' e' := by
  cases he : e operation with
  | none =>
      -- no ledger has rows for the operation: all three open the hold
      let h : ModelHold := ⟨account, run, snapshot, day, caller.fence.map Fence.executionId, requested, tokens, htotal,
        .reserved⟩
      have hruns : RunBudget.rows db run operation = Dict.empty := by rw [hrep.run, he]; rfl
      cases hA with
      | replayed hrow =>
          obtain ⟨h₀, he₀, _⟩ := hrep.of_accountRow hrow
          rw [he] at he₀
          cases he₀
      | opened hnone hdone =>
          have hR' : RunBudget.Rewrote run operation h.runRows dbW db' := by
            cases hR with
            | opened _ hdone => exact hdone
            | replayed hrows =>
                rw [(WorkBudget.mutate_otherRows hwork).2, hdone.otherRows.1] at hrows
                exact absurd hruns hrows
          have hW : WorkRecorded h operation dbA dbW := by
            rcases WorkBudget.mutate_ok hwork with ⟨hm, rfl⟩ | ⟨account', work, hm, hdoneW⟩
            · exact .unmetered hm
            · cases hdoneW with
              | opened _ hdoneW => exact .metered hm hdoneW
              | reserveReplayed hrows =>
                  rw [hdone.otherRows.2, hrep.work, he] at hrows
                  exact absurd rfl hrows
          refine ⟨trans_of SameInputs (trans_of SameInputs hdone.sameInputs hW.sameInputs) hR'.sameInputs,
            _, hrep.record (h := h) (fun h₀ he₀ => ?_) ⟨s, hs, hfor⟩ hdone hW hR'⟩
          rw [he] at he₀
          cases he₀
  | some h =>
      -- the hold is there: its snapshot is this one, so the call lands on its day and repeats
      obtain ⟨s', hs', haccount, hrun, hop⟩ := hrep.frozen operation h he
      have hsame : h.snapshot = snapshot := hunique.unique _ _ _ _ hs' hs (hop.trans hfor.2.2.symm)
      rw [hsame, hs] at hs'
      obtain rfl := Option.some.inj hs'
      have haccount' : h.account = account := haccount.symm.trans hfor.1
      have hrun' : h.run = run := hrun.symm.trans hfor.2.1
      subst haccount' hrun'
      have hrow := hrep.accountRow_of he
      have hdate : day = h.day := by
        refine hday h.day (mem_priorDates.mpr ⟨_, hrow, ?_⟩)
        rw [← hsame]
        rfl
      subst hdate
      cases hA with
      | opened hnone =>
          rw [hrow] at hnone
          cases hnone
      | replayed hrow' htokens _ hquiet =>
          have honly := hquiet.only
          have hrepA : Represents dbA e :=
            hrep.of_sameRows (by rw [honly]) (by rw [honly]) (by rw [honly]) (by rw [honly]) (by rw [honly])
          have hsameW : dbW = dbA := by
            rcases WorkBudget.mutate_ok hwork with ⟨_, hsame⟩ | ⟨account', work, hm, hdoneW⟩
            · exact hsame
            · cases hdoneW with
              | reserveReplayed => rfl
              | opened hrows =>
                  rw [hrepA.workRows_of he hm] at hrows
                  exact absurd hrows ModelHold.workRows_ne_empty
          subst hsameW
          cases hR with
          | replayed => exact ⟨hquiet.sameInputs, e, hrepA⟩
          | opened hrows =>
              rw [hrepA.runRows_of he] at hrows
              exact absurd hrows ModelHold.runRows_ne_empty

end opening

/-! ### The calls -/

section calls

variable {account run : Uuid} {operation : String} {db db' : Ledgers}

theorem Coordinator.reserve_coordinated {total : Raw} {values : Values}
    {o : AccountBudget.Options} {snapshot : Uuid} {s : Snapshot}
    (hsnap : o.snapshotId = some snapshot) (hs : db.snapshots.lookup snapshot = some s)
    (hfor : s.accountId = account ∧ s.runId = run ∧ s.operationId = operation) (hc : Coordinated db)
    (h : (Coordinator.reserve caller account run operation total values.items finalResponse o).run db = .ok (r, db')) :
    Coordinated db' := by
  obtain ⟨e, hrep⟩ := hc.represented
  obtain ⟨tokens, requested, day, dbA, dbW, hmatch, htokens, hvalues, hday, hA, hwork, hR⟩ :=
    Coordinator.reserve_ok hsnap h
  have htotal := total_of_matching hmatch htokens hvalues
  obtain ⟨hsame, hrep'⟩ := reserve_halves hrep hc.frozen hs hfor htotal hday hA hwork hR
  exact ⟨Coordinator.reserve_conserves _ _ _ _ _ _ _ _ _ h hc.conserved, hc.frozen.of_same hsame.authority hsame.snapshots, hrep'⟩

variable {clamp : ℤ → ℤ} (hclamp : RunBudget.ClampsNegative clamp)

include hclamp

/-- The account and Run settlement of one call, with matching totals. -/
theorem settleBoth_coordinated {dbA : Ledgers} {total : Raw} (values : Values) {source : String}
    {date : Option Date} {a : AccountMutation} {m : Mutation}
    (hmatch : Coordinator.requireMatchingTotal total values.items = .ok ())
    (hA : (AccountBudget.settleInUow account operation total source date).run db = .ok (a, dbA))
    (hR : (RunBudget.settleInUow clamp run operation values.items source).run dbA = .ok (m, db'))
    (hc : Coordinated db) : SameInputs db db' ∧ Coordinated db' := by
  obtain ⟨e, hrep⟩ := hc.represented
  have hcA := AccountBudget.settleInUow_conserves _ _ _ _ _ _ _ hA hc.conserved
  have hcR := RunBudget.settleInUow_conserves hclamp _ _ _ _ _ hR hcA
  obtain ⟨tokens, source₁, day, htokens, hsource₁, _, hA⟩ := AccountBudget.settleInUow_ok hA
  obtain ⟨source₂, actual, dbW, hsource₂, hvalues, hwork, hR⟩ := RunBudget.settleInUow_ok hclamp hcA.run hR
  obtain rfl := Except.ok.inj (hsource₁.symm.trans hsource₂)
  have htotal := total_of_matching hmatch htokens hvalues
  obtain ⟨hsame, hrep'⟩ := settle_halves hrep htotal hA hwork hR
  exact ⟨hsame, hcR, hc.frozen.of_same hsame.authority hsame.snapshots, hrep'⟩

/-- The account and Run release of one call. -/
theorem releaseBoth_coordinated {dbA : Ledgers} {date : Option Date} {a : AccountMutation} {m : Mutation}
    (hA : (AccountBudget.releaseInUow account operation date).run db = .ok (a, dbA))
    (hR : (RunBudget.releaseInUow clamp run operation).run dbA = .ok (m, db')) (hc : Coordinated db) :
    SameInputs db db' ∧ Coordinated db' := by
  obtain ⟨e, hrep⟩ := hc.represented
  have hcA := AccountBudget.releaseInUow_conserves _ _ _ _ _ hA hc.conserved
  have hcR := RunBudget.releaseInUow_conserves hclamp _ _ _ hR hcA
  obtain ⟨day, _, hA⟩ := AccountBudget.releaseInUow_ok hA
  obtain ⟨dbW, hwork, hR⟩ := RunBudget.releaseInUow_ok hclamp hcA.run hR
  obtain ⟨hsame, hrep'⟩ := release_halves hrep hA hwork hR
  exact ⟨hsame, hcR, hc.frozen.of_same hsame.authority hsame.snapshots, hrep'⟩

theorem Coordinator.settle_coordinated {total : Raw} {values : Values} {source : String}
    {date : Option Date} (hc : Coordinated db)
    (h : (Coordinator.settle clamp account run operation total values.items source date).run db = .ok (r, db')) :
    SameInputs db db' ∧ Coordinated db' := by
  unfold Coordinator.settle at h
  rw [Tx.bind_ofExcept_ok] at h
  obtain ⟨_, hmatch, h⟩ := h
  rw [Tx.bind_ok] at h
  obtain ⟨a, dbA, hA, h⟩ := h
  rw [Tx.bind_ok] at h
  obtain ⟨m, s, hR, h⟩ := h
  obtain ⟨_, rfl⟩ := Tx.pure_ok.mp h
  exact settleBoth_coordinated hclamp values hmatch hA hR hc

theorem Coordinator.release_coordinated {date : Option Date}
    (hc : Coordinated db)
    (h : (Coordinator.release clamp account run operation date).run db = .ok (r, db')) :
    SameInputs db db' ∧ Coordinated db' := by
  unfold Coordinator.release at h
  rw [Tx.bind_ok] at h
  obtain ⟨_, s, hlock, h⟩ := h
  obtain ⟨rfl, _⟩ := AccountBudget.lockedLedger_ok hlock
  rw [Tx.bind_query_ok, Tx.bind_check_ok, Tx.bind_ok] at h
  obtain ⟨_, a, dbA, hA, h⟩ := h
  rw [Tx.bind_ok] at h
  obtain ⟨m, s, hR, h⟩ := h
  obtain ⟨_, rfl⟩ := Tx.pure_ok.mp h
  exact releaseBoth_coordinated hclamp hA hR hc

/-- One iteration of the recovery loop. -/
theorem Coordinator.recoverStep_coordinated {hold : Coordinator.OpenHold} {u u' : Unit}
    (hc : Coordinated db) (h : (Coordinator.recoverStep clamp account run u hold).run db = .ok (u', db')) :
    SameInputs db db' ∧ Coordinated db' := by
  unfold Coordinator.recoverStep at h
  rw [Tx.bind_ok] at h
  obtain ⟨⟨_, ledger⟩, s, hlock, h⟩ := h
  obtain ⟨rfl, _⟩ := AccountBudget.lockedLedger_ok hlock
  dsimp only at h
  split at h
  · split at h
    · rw [Tx.bind_query_ok, Tx.bind_ofExcept_ok] at h
      obtain ⟨_, hmatch, h⟩ := h
      rw [Tx.bind_ok] at h
      obtain ⟨a, dbA, hA, h⟩ := h
      rw [Tx.bind_ok] at h
      obtain ⟨m, s, hR, h⟩ := h
      obtain ⟨_, rfl⟩ := Tx.pure_ok.mp h
      exact settleBoth_coordinated hclamp (Values.ofDict _) hmatch hA hR hc
    · rw [Tx.bind_ok] at h
      obtain ⟨a, dbA, hA, h⟩ := h
      rw [Tx.bind_ok] at h
      obtain ⟨m, s, hR, h⟩ := h
      obtain ⟨_, rfl⟩ := Tx.pure_ok.mp h
      exact releaseBoth_coordinated hclamp hA hR hc
  · obtain ⟨_, rfl⟩ := Tx.pure_ok.mp h
    exact ⟨refl_of SameInputs _, hc⟩

theorem Coordinator.recoverTerminalInUow_coordinated {u : Unit} (hc : Coordinated db)
    (h : (Coordinator.recoverTerminalInUow clamp run).run db = .ok (u, db')) :
    SameInputs db db' ∧ Coordinated db' := by
  unfold Coordinator.recoverTerminalInUow at h
  rw [Tx.bind_query_ok, Tx.bind_demand_ok] at h
  obtain ⟨r, _, h⟩ := h
  rw [Tx.bind_query_ok] at h
  -- the invariant of the loop: same inputs as at its start, and coordinated
  refine Tx.foldlM_rule (fun _ _ s => SameInputs db s ∧ Coordinated s) ?_ ⟨refl_of SameInputs db, hc⟩ h
  intro hold rest u s u' s' hinv hstep
  obtain ⟨hsame, hc'⟩ := Coordinator.recoverStep_coordinated hclamp hinv.2 hstep
  exact ⟨trans_of SameInputs hinv.1 hsame, hc'⟩

end calls

end HpAgent.Budget
