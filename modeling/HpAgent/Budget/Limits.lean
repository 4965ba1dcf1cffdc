import HpAgent.Budget.RecoveredUsage

/-! # What a budget may be charged

The terms a budget is created with, and the checks a first reservation makes against them before it opens
its rows.

* `SameTerms`: the calls never change the mode, the limits or the reserve of a budget.
* `RunBudget.openHolds_fits`, `WorkBudget.mutate_fits`: what a first reservation opened had room in its Run and in
  its Work. -/

namespace HpAgent.Budget

open Library
open WorkBudget (meteredOn)

variable {requested : Dict ℕ} {exceeded : List Dimension}

/-! ### Terms -/

/-- What a Run budget is created with. -/
def RunBudget.terms (b : RunBudget) : BudgetMode × Dict ℤ × ℕ := (b.mode, b.limits, b.finalResponseReserveTokens)

/-- The budgets are the same but for their counters, status and version. -/
structure SameTerms (db db' : Ledgers) : Prop where
  run : ∀ c, (db'.runBudgets.lookup c).map RunBudget.terms = (db.runBudgets.lookup c).map RunBudget.terms
  work : ∀ c, (db'.workBudgets.lookup c).map WorkBudget.limits = (db.workBudgets.lookup c).map WorkBudget.limits

instance : IsPreorder Ledgers SameTerms where
  refl _ := ⟨fun _ => rfl, fun _ => rfl⟩
  trans _ _ _ h₁ h₂ := ⟨fun c => (h₂.run c).trans (h₁.run c), fun c => (h₂.work c).trans (h₁.work c)⟩

section terms

variable {account work run : Uuid} {operation : String} {db db' : Ledgers}

theorem SameTerms.of_same (hrun : db'.runBudgets = db.runBudgets) (hwork : db'.workBudgets = db.workBudgets) :
    SameTerms db db' := by
  refine ⟨fun c => ?_, fun c => ?_⟩
  · rw [hrun]
  · rw [hwork]

/-- One Run budget is written with its own terms. -/
theorem SameTerms.writeRun {db₁ : Ledgers} {b b' : RunBudget} (hb : db.runBudgets.lookup run = some b)
    (honly : db₁ = { db with runUsage := db₁.runUsage }) (hterms : b'.terms = b.terms) :
    SameTerms db { db₁ with runBudgets := db₁.runBudgets.insert run b' } := by
  rw [honly]
  refine ⟨fun c => ?_, fun _ => rfl⟩
  dsimp only
  rw [Table.lookup_insert_ite]
  split
  · next hc => rw [hc, hb, Option.map_some, Option.map_some, hterms]
  · rfl

/-- One Work budget is written with its own limits. -/
theorem SameTerms.writeWork {db₁ : Ledgers} {b b' : WorkBudget} (hb : db.workBudgets.lookup (account, work) = some b)
    (honly : db₁ = { db with workUsage := db₁.workUsage }) (hlimits : b'.limits = b.limits) :
    SameTerms db { db₁ with workBudgets := db₁.workBudgets.insert (account, work) b' } := by
  rw [honly]
  refine ⟨fun _ => rfl, fun c => ?_⟩
  dsimp only
  rw [Table.lookup_insert_ite]
  split
  · next hc => rw [hc, hb, Option.map_some, Option.map_some, hlimits]
  · rfl

theorem WorkBudget.mutateWork_terms {revision epoch : ℕ} {status : RunStatus} {action : WorkBudget.Action} {u : Unit}
    (h : (WorkBudget.mutateWork account work run operation revision epoch status action).run db = .ok (u, db')) :
    SameTerms db db' := by
  unfold WorkBudget.mutateWork at h
  rw [Tx.bind_query_ok, Tx.bind_demand_ok] at h
  obtain ⟨b, hb, h⟩ := h
  rw [Tx.bind_query_ok] at h
  have hclose : ∀ {state : UsageState} {actual : Dict ℕ} {source : Option UsageSource},
      (WorkBudget.close account work run operation b (WorkBudget.rows db account work run operation) state actual
        source).run db = .ok (u, db') → SameTerms db db' := by
    intro state actual source h
    unfold WorkBudget.close at h
    rw [Tx.bind_ok] at h
    obtain ⟨c, db₁, hloop, hwrite⟩ := h
    obtain ⟨honly, _⟩ := WorkBudget.close_loop hloop
    obtain rfl := Tx.update_ok.mp hwrite
    exact SameTerms.writeWork hb honly.1 rfl
  cases action with
  | reserve values =>
      dsimp only at h
      split at h
      · unfold WorkBudget.reserve at h
        rw [Tx.bind_query_ok, Tx.bind_check_ok, Tx.bind_check_ok, Tx.bind_ok] at h
        obtain ⟨_, _, reserved, db₁, hloop, hwrite⟩ := h
        obtain ⟨honly, _⟩ := WorkBudget.reserve_loop hloop
        obtain rfl := Tx.update_ok.mp hwrite
        exact SameTerms.writeWork hb honly.1 rfl
      · obtain ⟨_, rfl⟩ := Tx.check_ok.mp h
        exact refl_of SameTerms _
  | settle actual source =>
      dsimp only at h
      split at h
      · exact (Tx.raise_ok.mp h).elim
      split at h
      · obtain ⟨_, rfl⟩ := Tx.check_ok.mp h
        exact refl_of SameTerms _
      · rw [Tx.bind_check_ok] at h
        exact hclose h.2
  | release =>
      dsimp only at h
      split at h
      · exact (Tx.raise_ok.mp h).elim
      split at h
      · obtain ⟨_, rfl⟩ := Tx.pure_ok.mp h
        exact refl_of SameTerms _
      · rw [Tx.bind_check_ok] at h
        exact hclose h.2

theorem WorkBudget.mutate_terms (action : WorkBudget.Action) :
    Tx.Keeps SameTerms (WorkBudget.mutate run operation action) := by
  refine (Tx.Keeps.query _).bind fun found => ?_
  cases found with
  | none => exact Tx.Keeps.pure _
  | some r =>
      dsimp only
      cases r.source with
      | chat conversation => exact Tx.Keeps.pure _
      | work work revision epoch => exact fun _ _ _ h => WorkBudget.mutateWork_terms h

/-- What follows the lock of a Run budget keeps the terms if it writes that budget with its own terms. -/
theorem RunBudget.bind_lockBudget_terms {α : Type} {f : RunBudget → BudgetTx α}
    (h : ∀ b db a db', db.runBudgets.lookup run = some b → (f b).run db = .ok (a, db') → SameTerms db db') :
    Tx.Keeps SameTerms (RunBudget.lockBudget run >>= f) := by
  intro db a db' hrun
  obtain ⟨b, hb, hf⟩ := RunBudget.bind_lockBudget_ok.mp hrun
  exact h b db a db' hb hf

theorem RunBudget.openHolds_terms {caller : Caller} {b : RunBudget}
    {finalResponse enforceLimits : Bool} {m : Mutation} (hb : db.runBudgets.lookup run = some b)
    (h : (RunBudget.openHolds caller run operation b requested finalResponse enforceLimits).run db = .ok (m, db')) :
    SameTerms db db' := by
  unfold RunBudget.openHolds at h
  rw [Tx.bind_ofExcept_ok] at h
  obtain ⟨exceeded, _, h⟩ := h
  rw [Tx.bind_check_ok, Tx.bind_ok] at h
  obtain ⟨_, reserved, db₁, hloop, h⟩ := h
  rw [Tx.bind_ok] at h
  obtain ⟨_, _, hwrite, hpure⟩ := h
  obtain ⟨_, rfl⟩ := Tx.pure_ok.mp hpure
  obtain ⟨honly, _⟩ := RunBudget.reserve_loop hloop
  obtain rfl := Tx.update_ok.mp hwrite
  exact SameTerms.writeRun hb honly.1 rfl

theorem RunBudget.reserveInUow_terms (caller : Caller) (values : List (String × Raw))
    (finalResponse enforceLimits deferExhaustion : Bool) :
    Tx.Keeps SameTerms
      (RunBudget.reserveInUow caller run operation values finalResponse enforceLimits deferExhaustion) := by
  refine Tx.Keeps.savepoint ?_ fun e => ?_
  · refine Tx.Keeps.bind ?_ fun _ => Tx.Keeps.pure _
    refine (Tx.Keeps.of_read fun _ _ _ h => RunBudget.checkFence_ok h).bind fun _ =>
      (Tx.Keeps.ofExcept _).bind fun requested => (Tx.Keeps.check _ _).bind fun _ =>
        (WorkBudget.mutate_terms _).bind fun _ => RunBudget.bind_lockBudget_terms fun b db m db' hb h => ?_
    rw [Tx.bind_query_ok] at h
    split at h
    · exact RunBudget.openHolds_terms hb h
    · rw [Tx.bind_check_ok] at h
      obtain ⟨_, rfl⟩ := Tx.pure_ok.mp h.2
      exact refl_of SameTerms _
  · intro db r db' h
    obtain ⟨_, _, rfl⟩ := RunBudget.onReserveError_ok h
    refine ⟨fun c => ?_, fun _ => rfl⟩
    dsimp only
    rw [Table.lookup_modify]
    split
    · next hc =>
        rw [hc]
        cases db.runBudgets.lookup run <;> rfl
    · rfl

theorem RunBudget.settleInUow_terms (clamp : ℤ → ℤ) (values : List (String × Raw)) (source : String) :
    Tx.Keeps SameTerms (RunBudget.settleInUow clamp run operation values source) := by
  refine (Tx.Keeps.ofExcept _).bind fun u => (Tx.Keeps.ofExcept _).bind fun actual =>
    (WorkBudget.mutate_terms _).bind fun _ => RunBudget.bind_lockBudget_terms fun b db m db' hb h => ?_
  rw [Tx.bind_query_ok, Tx.bind_check_ok] at h
  obtain ⟨_, h⟩ := h
  split at h
  · rw [Tx.bind_check_ok] at h
    obtain ⟨_, rfl⟩ := Tx.pure_ok.mp h.2
    exact refl_of SameTerms _
  · rw [Tx.bind_check_ok] at h
    obtain ⟨_, h⟩ := h
    unfold RunBudget.settleRows at h
    rw [Tx.bind_ok] at h
    obtain ⟨c, db₁, hloop, h⟩ := h
    rw [Tx.bind_ok] at h
    obtain ⟨_, _, hwrite, hpure⟩ := h
    obtain ⟨_, rfl⟩ := Tx.pure_ok.mp hpure
    obtain ⟨honly, _⟩ := RunBudget.settle_loop hloop
    obtain rfl := Tx.update_ok.mp hwrite
    exact SameTerms.writeRun hb honly.1 rfl

theorem RunBudget.releaseInUow_terms (clamp : ℤ → ℤ) :
    Tx.Keeps SameTerms (RunBudget.releaseInUow clamp run operation) := by
  refine (WorkBudget.mutate_terms _).bind fun _ => RunBudget.bind_lockBudget_terms fun b db m db' hb h => ?_
  rw [Tx.bind_query_ok, Tx.bind_check_ok] at h
  obtain ⟨_, h⟩ := h
  split at h
  · obtain ⟨_, rfl⟩ := Tx.pure_ok.mp h
    exact refl_of SameTerms _
  · rw [Tx.bind_check_ok] at h
    obtain ⟨_, h⟩ := h
    unfold RunBudget.releaseHolds at h
    rw [Tx.bind_ok] at h
    obtain ⟨_, db₁, hrel, h⟩ := h
    rw [Tx.bind_ok] at h
    obtain ⟨_, _, hwrite, hpure⟩ := h
    obtain ⟨_, rfl⟩ := Tx.pure_ok.mp hpure
    obtain ⟨honly, _⟩ := RunBudget.releaseRows_ok hrel
    obtain rfl := Tx.update_ok.mp hwrite
    exact SameTerms.writeRun hb honly.1 rfl

theorem AccountBudget.Rewrote.terms {key : AccountUsageKey} {row : AccountUsage}
    (h : AccountBudget.Rewrote key row db db') : SameTerms db db' := by
  have honly := h.only
  refine .of_same ?_ ?_ <;> rw [honly]

theorem keptByServices_terms (clamp : ℤ → ℤ) : KeptByServices clamp SameTerms where
  accountReserve account operation value o now db m db' h := by
    obtain ⟨_, _, _, _, hdone⟩ := AccountBudget.reserveInUow_ok h
    cases hdone with
    | opened _ hdone => exact hdone.terms
    | replayed _ _ _ hquiet =>
        have honly := hquiet.only
        refine .of_same ?_ ?_ <;> rw [honly]
  accountSettle account operation value source date db m db' h := by
    obtain ⟨_, _, _, _, _, _, hdone⟩ := AccountBudget.settleInUow_ok h
    cases hdone with
    | settled _ _ hdone => exact hdone.terms
    | replayed => exact refl_of SameTerms _
  accountRelease account operation date db m db' h := by
    obtain ⟨_, _, hdone⟩ := AccountBudget.releaseInUow_ok h
    cases hdone with
    | released _ _ hdone => exact hdone.terms
    | replayed => exact refl_of SameTerms _
  runReserve caller _ _ := RunBudget.reserveInUow_terms caller
  runSettle _ _ := RunBudget.settleInUow_terms clamp
  runRelease _ _ := RunBudget.releaseInUow_terms clamp
  setTerminal _ _ := Tx.Keeps.update fun _ => .of_same rfl rfl

end terms

/-! ### The checks of a first reservation -/

section fits

variable {run : Uuid} {operation : String} {db db' : Ledgers} {b : RunBudget} {finalResponse : Bool}

/-- What a Run budget allows a kind of reservation to reach in a dimension it limits at `l`. -/
def allowance (b : RunBudget) (finalResponse : Bool) (d : Dimension) (l : ℤ) : ℤ :=
  max 0 (l - RunBudget.protectedTokens b finalResponse d)

theorem foldlM_exceedStep {items : List (Dimension × ℕ)} {acc : List Dimension}
    (h : items.foldlM (RunBudget.exceedStep b finalResponse) acc = .ok exceeded) :
    (∀ p ∈ items, ∃ l, b.limits p.1 = some l) ∧
      ∀ d, d ∈ exceeded ↔ d ∈ acc ∨ ∃ n l, (d, n) ∈ items ∧ b.limits d = some l ∧
        allowance b finalResponse d l < b.used.get d + b.reserved.get d + n := by
  induction items generalizing acc with
  | nil =>
      obtain rfl := Except.ok.inj h
      simp
  | cons p rest ih =>
      rw [List.foldlM_cons] at h
      unfold RunBudget.exceedStep at h
      cases hl : b.limits p.1 with
      | none =>
          rw [hl] at h
          cases h
      | some l =>
          rw [hl] at h
          obtain ⟨hlimits, hmem⟩ := ih h
          refine ⟨fun q hq => ?_, fun d => ?_⟩
          · rcases List.mem_cons.mp hq with rfl | hq
            · exact ⟨l, hl⟩
            · exact hlimits q hq
          · rw [hmem d]
            obtain ⟨e, n⟩ := p
            dsimp only at hl ⊢
            have hhead : (∃ n' l', (d, n') ∈ (e, n) :: rest ∧ b.limits d = some l' ∧
                allowance b finalResponse d l' < b.used.get d + b.reserved.get d + n') ↔
                (d = e ∧ allowance b finalResponse e l < b.used.get e + b.reserved.get e + n) ∨
                  ∃ n' l', (d, n') ∈ rest ∧ b.limits d = some l' ∧
                    allowance b finalResponse d l' < b.used.get d + b.reserved.get d + n' := by
              constructor
              · rintro ⟨n', l', hin, hl', hover⟩
                rcases List.mem_cons.mp hin with he | hin
                · obtain ⟨rfl, rfl⟩ := Prod.mk.inj he
                  obtain rfl := Option.some.inj (hl.symm.trans hl')
                  exact .inl ⟨rfl, hover⟩
                · exact .inr ⟨n', l', hin, hl', hover⟩
              · rintro (⟨rfl, hover⟩ | ⟨n', l', hin, hl', hover⟩)
                · exact ⟨n, l, List.mem_cons_self, hl, hover⟩
                · exact ⟨n', l', List.mem_cons_of_mem _ hin, hl', hover⟩
            rw [hhead]
            unfold allowance
            split
            · next hover => simp [hover, or_assoc]
            · next hover => simp [hover]

/-- The dimensions that do not fit are those of the request whose amount exceeds the allowance. -/
theorem exceededDimensions_ok
    (h : RunBudget.exceededDimensions b finalResponse requested = .ok exceeded) :
    (∀ d n, requested d = some n → ∃ l, b.limits d = some l) ∧
      ∀ d, d ∈ exceeded ↔ ∃ n l, requested d = some n ∧ b.limits d = some l ∧
        allowance b finalResponse d l < b.used.get d + b.reserved.get d + n := by
  obtain ⟨hlimits, hmem⟩ := foldlM_exceedStep h
  refine ⟨fun d n hd => hlimits (d, n) (Dict.mem_items.mpr hd), fun d => ?_⟩
  rw [hmem d]
  simp only [List.not_mem_nil, false_or, Dict.mem_items]

/-- An enforced budget has room for what a first reservation opened. -/
theorem RunBudget.openHolds_fits {caller : Caller} {enforceLimits : Bool} {m : Mutation}
    (h : (RunBudget.openHolds caller run operation b requested finalResponse enforceLimits).run db = .ok (m, db'))
    (hmode : b.mode = .enforce) {d : Dimension} {n : ℕ} (hd : requested d = some n) :
    ∃ l, b.limits d = some l ∧ b.used.get d + b.reserved.get d + n ≤ allowance b finalResponse d l := by
  unfold RunBudget.openHolds at h
  rw [Tx.bind_ofExcept_ok] at h
  obtain ⟨exceeded, hexceeded, h⟩ := h
  rw [Tx.bind_check_ok] at h
  obtain ⟨hcheck, _⟩ := h
  have hnil : exceeded = [] := by
    by_contra hne
    exact hcheck ⟨hne, .inl hmode⟩
  obtain ⟨hlimits, hmem⟩ := exceededDimensions_ok hexceeded
  obtain ⟨l, hl⟩ := hlimits d n hd
  refine ⟨l, hl, ?_⟩
  by_contra hover
  have hin := (hmem d).mpr ⟨n, l, hd, hl, lt_of_not_ge hover⟩
  rw [hnil] at hin
  cases hin

/-- The Work has room for what a first reservation of one of its Runs opened. -/
theorem WorkBudget.mutate_fits {u : Unit} {account work : Uuid} {w : WorkBudget}
    (h : (WorkBudget.mutate run operation (.reserve requested)).run db = .ok (u, db'))
    (hmetered : meteredOn db.authority run = some (account, work)) (hw : db.workBudgets.lookup (account, work) = some w)
    (hrows : WorkBudget.rows db account work run operation = Dict.empty) {d : Dimension} {n : ℕ}
    (hd : requested d = some n) : ∃ l, w.limits d = some l ∧ w.used.get d + w.reserved.get d + n ≤ l := by
  obtain ⟨r, hr, hmap⟩ := Option.bind_eq_some_iff.mp hmetered
  obtain ⟨work', hwork, hpair⟩ := Option.map_eq_some_iff.mp hmap
  obtain ⟨rfl, rfl⟩ := Prod.mk.inj hpair
  unfold Run.workId at hwork
  unfold WorkBudget.mutate at h
  rw [Tx.bind_query_ok, hr] at h
  dsimp only at h
  cases hs : r.source with
  | chat conversation =>
      rw [hs] at hwork
      cases hwork
  | work work revision epoch =>
      rw [hs] at hwork h
      obtain rfl := Option.some.inj hwork
      dsimp only at h
      unfold WorkBudget.mutateWork at h
      rw [Tx.bind_query_ok, Tx.bind_demand_ok] at h
      obtain ⟨w', hw', h⟩ := h
      obtain rfl := Option.some.inj (hw.symm.trans hw')
      rw [Tx.bind_query_ok, hrows] at h
      dsimp only at h
      rw [if_pos (WorkBudget.noRows_iff.mpr rfl)] at h
      unfold WorkBudget.reserve at h
      rw [Tx.bind_query_ok, Tx.bind_check_ok, Tx.bind_check_ok] at h
      obtain ⟨_, hroom, _⟩ := h
      unfold WorkBudget.exhausted at hroom
      have hitem := List.any_eq_false.mp hroom (d, n) (Dict.mem_items.mpr hd)
      dsimp only at hitem
      cases hl : w.limits d with
      | none =>
          rw [hl] at hitem
          exact absurd rfl hitem
      | some l =>
          rw [hl] at hitem
          refine ⟨l, rfl, ?_⟩
          simpa using hitem

end fits

end HpAgent.Budget
