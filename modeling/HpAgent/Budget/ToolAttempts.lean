import HpAgent.Budget.Accepted

/-! # Attempts of a tool operation

A tool operation holds a reservation while its tool runs.  Every attempt of the operation reserves under the same
identifier, waits for a capacity slot, dispatches the tool and settles what it measured; an attempt that is
interrupted before the dispatch releases the hold, and one whose tool raises settles the estimate.

* `budgetReservation`, `measured`: what an attempt reserves and what it settles.
* `Step`: one step of one attempt, or of what goes on elsewhere.  Attempts may overlap.
* `RunBudget.settleInUow_open`: a settlement of an open hold in its own dimensions is no conflict. -/

namespace HpAgent.Budget

open Library

/-! ### Mappings -/

namespace Values

/-- The keys of the mapping. -/
def keys (v : Values) : List String := v.items.map Prod.fst

/-- One entry after `values[name] = raw` for a key the mapping has. -/
def replaceItem (name : String) (raw : Raw) (p : String × Raw) : String × Raw := if p.1 = name then (name, raw) else p

theorem map_replaceItem (name : String) (raw : Raw) (items : List (String × Raw)) :
    (items.map (replaceItem name raw)).map Prod.fst = items.map Prod.fst := by
  rw [List.map_map]
  refine List.map_congr_left fun p _ => ?_
  show (replaceItem name raw p).1 = p.1
  unfold replaceItem
  split
  · next hp => exact hp.symm
  · rfl

/-- `values[name] = raw`. -/
def setItem (v : Values) (name : String) (raw : Raw) : Values :=
  if h : name ∈ v.keys then ⟨v.items.map (replaceItem name raw), by rw [map_replaceItem]; exact v.nodup⟩
  else
    ⟨v.items ++ [(name, raw)], by
      rw [List.map_append, List.nodup_append]
      refine ⟨v.nodup, List.nodup_singleton _, fun x hx y hy hxy => h ?_⟩
      obtain rfl := List.mem_singleton.mp hy
      exact hxy ▸ hx⟩

/-- The mapping with the same keys and other values. -/
def mapItems (v : Values) (f : String → Raw → Raw) : Values :=
  ⟨v.items.map fun p => (p.1, f p.1 p.2), by rw [List.map_map]; exact v.nodup⟩

/-- The entries whose value is an amount. -/
def amountItems (v : Values) : Values :=
  ⟨v.items.filter fun p => p.2.amount.isSome, v.nodup.sublist (List.filter_sublist.map Prod.fst)⟩

theorem mem_keys_setItem {v : Values} {name x : String} {raw : Raw} :
    x ∈ (v.setItem name raw).keys ↔ x ∈ v.keys ∨ x = name := by
  unfold setItem
  split
  · next h =>
      have hkeys : (⟨v.items.map (replaceItem name raw), by rw [map_replaceItem]; exact v.nodup⟩ : Values).keys
          = v.keys := map_replaceItem name raw v.items
      rw [hkeys]
      constructor
      · exact .inl
      · rintro (hx | rfl)
        · exact hx
        · exact h
  · show x ∈ (v.items ++ [(name, raw)]).map Prod.fst ↔ _
    rw [List.map_append, List.mem_append]
    simp [keys]

theorem keys_mapItems (v : Values) (f : String → Raw → Raw) : (v.mapItems f).keys = v.keys := by
  unfold mapItems keys
  rw [List.map_map]
  rfl

end Values

/-- A dimension has an accepted amount exactly when the mapping names it. -/
theorem amounts_isSome {v : Values} {a : Dict ℕ} (h : amounts v.items = .ok a) (d : Dimension) :
    (a d).isSome = true ↔ d.name ∈ v.keys := by
  unfold amounts at h
  cases hn : v.items.foldlM normalize Dict.empty with
  | error e => rw [hn] at h; cases h
  | ok w =>
      rw [hn] at h
      obtain rfl := nonempty_ok h
      rcases foldlM_normalize_lookup v.nodup hn d with ⟨hnone, hv⟩ | ⟨raw, n, hlook, _, hv⟩
      · rw [hv]
        refine ⟨fun hsome => (nomatch hsome), fun hmem => ?_⟩
        obtain ⟨p, hp, hname⟩ := List.mem_map.mp hmem
        have hcontains : v.items.lookup d.name ≠ none := by
          intro hl
          rw [List.lookup_eq_none_iff] at hl
          have := hl p hp
          simp [hname] at this
        exact absurd hnone hcontains
      · rw [hv]
        exact ⟨fun _ => List.mem_map_of_mem (f := Prod.fst) (mem_of_lookup hlook), fun _ => rfl⟩

namespace Tool

/-! ### Amounts -/

/-- `ActionRuntime.budget_reservation`, on the `budget_reservation` metadata of the tool, if it is a mapping. -/
def budgetReservation : Option Values → Values
  | none => ⟨[("tool_calls", .int 1)], by simp⟩
  | some configured =>
    let values := configured.amountItems
    values.setItem "tool_calls"
      (.int (max 1 (((values.items.lookup "tool_calls").bind Raw.amount).getD 0 : ℕ)))

/-- What one dimension of the tool's `budget_usage` puts in the place of its default. -/
def measuredAmount (usage : List (String × Raw)) (dimension : String) (default : Raw) : Raw :=
  match usage.lookup dimension with
  | some (.int n) => .int (max 0 n)
  | _ => default

/-- The `measured` mapping, from the reservation and the tool's `budget_usage`, if that is a mapping. -/
def measured (reservation : Values) (usage : Option Values) : Values :=
  let counted := (reservation.mapItems fun _ _ => .int 0).setItem "tool_calls" (.int 1)
  match usage with
  | none => counted
  | some u => counted.mapItems (measuredAmount u.items)

theorem toolCalls_mem_reservation (configured : Option Values) :
    "tool_calls" ∈ (budgetReservation configured).keys := by
  cases configured with
  | none => exact List.mem_singleton.mpr rfl
  | some c => exact Values.mem_keys_setItem.mpr (.inr rfl)

/-- What is measured names the dimensions of the reservation. -/
theorem mem_keys_measured {reservation : Values} (hcalls : "tool_calls" ∈ reservation.keys) (usage : Option Values)
    (x : String) : x ∈ (measured reservation usage).keys ↔ x ∈ reservation.keys := by
  have hcounted : x ∈ ((reservation.mapItems fun _ _ => .int 0).setItem "tool_calls" (.int 1)).keys
      ↔ x ∈ reservation.keys := by
    rw [Values.mem_keys_setItem, Values.keys_mapItems]
    constructor
    · rintro (hx | rfl)
      · exact hx
      · exact hcalls
    · exact .inl
  cases usage with
  | none => exact hcounted
  | some u =>
      show x ∈ (Values.mapItems _ (measuredAmount u.items)).keys ↔ _
      rw [Values.keys_mapItems]
      exact hcounted

/-! ### Attempts -/

/-- Where an attempt stands. -/
inductive Stage where
  | ready
  | holding (reservation : Values)
  | dispatched (reservation : Values)
  | measured (reservation : Values) (usage : Option Values)
  | charged
  | completed
  | refused (e : Error)
  | failed

/-- The reservation an attempt in flight counts on. -/
def Stage.reservation : Stage → Option Values
  | .holding v | .dispatched v | .measured v _ => some v
  | _ => none

/-- The store, and the attempts of one operation. -/
structure World where
  db : Ledgers
  attempts : ℕ → Stage

namespace World

def start (authority : Authority) : World := ⟨Ledgers.start authority, fun _ => .ready⟩

/-- An attempt moves on, and the store with it. -/
def move (w : World) (k : ℕ) (stage : Stage) (db : Ledgers) : World :=
  ⟨db, Function.update w.attempts k stage⟩

@[simp] theorem move_same (w : World) (k : ℕ) (stage : Stage) (db : Ledgers) :
    (w.move k stage db).attempts k = stage := Function.update_self ..

theorem move_other {w : World} {j k : ℕ} (h : j ≠ k) (stage : Stage) (db : Ledgers) :
    (w.move k stage db).attempts j = w.attempts j := Function.update_of_ne h ..

/-- Some attempt counts on the hold. -/
def Busy (w : World) : Prop := ∃ k v, (w.attempts k).reservation = some v

/-- Some attempt other than `k` counts on the hold. -/
def OtherBusy (w : World) (k : ℕ) : Prop := ∃ j v, j ≠ k ∧ (w.attempts j).reservation = some v

end World

/-- After the call of `reserve`: a deferred exhaustion is raised too. -/
def afterReserve (reservation : Values) : Except Error ((Mutation ⊕ Error) × Ledgers) → Stage
  | .ok (.inl _, _) => .holding reservation
  | _ => .failed

/-- After the settlement of what was measured. -/
def afterSettle : Except Error (Mutation × Ledgers) → Stage
  | .ok _ => .charged
  | .error e => .refused e

/-- A step of an attempt, or of what goes on elsewhere. -/
inductive Event where
  | reserve (k : ℕ) (caller : Caller) (configured : Option Values)
  | dispatch (k : ℕ)
  | interrupted (k : ℕ)
  | raised (k : ℕ)
  | returned (k : ℕ) (usage : Option Values)
  | settle (k : ℕ)
  | complete (k : ℕ)
  | die (k : ℕ)
  | elsewhere (db : Ledgers)

section steps

variable (run : Uuid) (operation : String)

/-- The transaction of `reserve`. -/
def reserveTx (caller : Caller) (configured : Option Values) : BudgetTx (Mutation ⊕ Error) :=
  RunBudget.reserve caller run operation (budgetReservation configured).items false false

/-- The transaction of `settle`. -/
def settleTx (values : Values) (source : String) : BudgetTx Mutation :=
  RunBudget.settleInUow (max 0) run operation values.items source

/-- The transaction of `release`. -/
def releaseTx : BudgetTx Mutation := RunBudget.releaseInUow (max 0) run operation

/-- One step. -/
inductive Step (w : World) : Event → World → Prop
  /-- An operation that has completed is not executed again. -/
  | reserve {k : ℕ} (caller : Caller) (configured : Option Values) (hat : w.attempts k = .ready)
      (hopen : ∀ j, w.attempts j ≠ .completed) :
      Step w (.reserve k caller configured)
        (w.move k (afterReserve (budgetReservation configured) ((reserveTx run operation caller configured).run w.db))
          ((reserveTx run operation caller configured).commit w.db))
  /-- The attempt has its slot and its lease, and the tool runs. -/
  | dispatch {k : ℕ} {reservation : Values} (hat : w.attempts k = .holding reservation) :
      Step w (.dispatch k) (w.move k (.dispatched reservation) w.db)
  /-- Cancelled or refused while waiting for its slot. -/
  | interrupted {k : ℕ} {reservation : Values} (hat : w.attempts k = .holding reservation) :
      Step w (.interrupted k) (w.move k .failed ((releaseTx run operation).commit w.db))
  /-- The tool raises, or is cancelled, after its dispatch. -/
  | raised {k : ℕ} {reservation : Values} (hat : w.attempts k = .dispatched reservation) :
      Step w (.raised k) (w.move k .failed ((settleTx run operation reservation "estimated").commit w.db))
  /-- The tool returns with its usage. -/
  | returned {k : ℕ} {reservation : Values} (usage : Option Values) (hat : w.attempts k = .dispatched reservation) :
      Step w (.returned k usage) (w.move k (.measured reservation usage) w.db)
  | settle {k : ℕ} {reservation : Values} {usage : Option Values} (hat : w.attempts k = .measured reservation usage) :
      Step w (.settle k)
        (w.move k (afterSettle ((settleTx run operation (measured reservation usage) "measured").run w.db))
          ((settleTx run operation (measured reservation usage) "measured").commit w.db))
  | complete {k : ℕ} (hat : w.attempts k = .charged) : Step w (.complete k) (w.move k .completed w.db)
  /-- The process dies, or the attempt fails without touching its hold. -/
  | die {k : ℕ} (hat : w.attempts k ≠ .completed) : Step w (.die k) (w.move k .failed w.db)
  | elsewhere {db : Ledgers} (hdb : UsageStep anyCall w.db db) : Step w (.elsewhere db) { w with db := db }

/-- No step closes the hold under an attempt that counts on it, and none reserves after it was closed. -/
def Undisturbed (w : World) : Event → Prop
  | .reserve _ _ _ => ∀ d r, RunBudget.rows w.db run operation d = some r → r.state = .reserved
  | .interrupted k | .raised k | .settle k => ¬w.OtherBusy k
  | .elsewhere db => w.Busy → RunBudget.rows db run operation = RunBudget.rows w.db run operation
  | _ => True

/-- The worlds reached by steps that satisfy `allowed`. -/
def Reachable (allowed : World → Event → Prop) (authority : Authority) (w : World) : Prop :=
  Relation.ReflTransGen (fun w w' => ∃ e, allowed w e ∧ Step run operation w e w') (World.start authority) w

end steps

end Tool

/-! ### A settlement of an open hold -/

section open_hold

variable {db : Ledgers} {run : Uuid} {operation : String} {e : Error}

theorem amounts_no_conflict {values : List (String × Raw)} (h : amounts values = .error e) : ¬Conflict e := by
  refine Tx.RaisesOnly.of_bind (E := fun e => ¬Conflict e) h
    (fun e h => Tx.RaisesOnly.of_foldlM (E := fun e => ¬Conflict e) (fun acc p e h => ?_) h) fun v e h => ?_
  · obtain ⟨dimension, raw⟩ := p
    unfold normalize at h
    dsimp only at h
    split at h
    · cases h
      exact id
    · split at h <;> cases h
      exact id
  · unfold nonempty at h
    split at h <;> cases h
    exact id

theorem WorkBudget.close_no_conflict {account work : Uuid} {b : WorkBudget} {rs : Dict WorkUsage} {state : UsageState}
    {actual : Dict ℕ} {source : Option UsageSource} :
    Tx.RaisesOnly (fun e => ¬Conflict e) (WorkBudget.close account work run operation b rs state actual source) := by
  refine Tx.RaisesOnly.bind ?_ fun _ => .update _
  refine .foldlM (fun c p => Tx.RaisesOnly.bind ?_ fun _ => .pure _) _ _
  exact (Tx.RaisesOnly.check id).bind fun _ => .update _

theorem RunBudget.settleRows_no_conflict {clamp : ℤ → ℤ} {b : RunBudget} {rs : Dict RunUsage} {actual : Dict ℕ}
    {source : UsageSource} :
    Tx.RaisesOnly (fun e => ¬Conflict e) (RunBudget.settleRows clamp run operation b rs actual source) := by
  refine Tx.RaisesOnly.bind ?_ fun _ => (Tx.RaisesOnly.update _).bind fun _ => .pure _
  refine .foldlM (fun c p => Tx.RaisesOnly.bind ?_ fun _ => .pure _) _ _
  exact (Tx.RaisesOnly.check id).bind fun _ => .update _

/-- The Work accepts the settlement of an open hold. -/
theorem WorkBudget.mutate_settle_open {actual : Dict ℕ} {source : UsageSource} (hs : Recorded db) (hb : WorkBacked db)
    (hin : InState db run operation .reserved)
    (hkeys : ∀ d, (RunBudget.rows db run operation d).isSome = (actual d).isSome)
    (h : (WorkBudget.mutate run operation (.settle actual source)).run db = .error e) : ¬Conflict e := by
  obtain ⟨account, work, revision, epoch, status, b, hbudget, hrows, h⟩ := WorkBudget.mutate_error hs hb hin.1 h
  have hreserved : WorkBudget.allRows (mirror (RunBudget.rows db run operation)) (fun r => r.state = .reserved) = true :=
    WorkBudget.allRows_mirror.mpr fun d r hr => decide_eq_true (hin.2 d r hr)
  unfold WorkBudget.mutateWork at h
  rw [Tx.bind_query_error, Tx.bind_demand_error hbudget, Tx.bind_query_error, hrows] at h
  dsimp only at h
  rw [if_neg (WorkBudget.noRows_mirror hin.1)] at h
  split at h
  · next hall =>
      have hsettled := WorkBudget.allRows_mirror.mp hall
      exact absurd (hin.eq ⟨hin.1, fun d r hr => of_decide_eq_true (hsettled d r hr)⟩) (by decide)
  · rw [Tx.bind_check_error] at h
    rcases h with ⟨hrefused, _⟩ | ⟨_, h⟩
    · refine absurd ⟨hreserved, fun d => ?_⟩ hrefused
      unfold mirror
      rw [Option.isSome_map]
      exact hkeys d
    · exact WorkBudget.close_no_conflict _ _ h

/-- **A settlement of an open hold** in the dimensions of the hold is no conflict. -/
theorem RunBudget.settleInUow_open {values : List (String × Raw)} {usageSource : String} (hs : Recorded db)
    (hb : WorkBacked db) (hin : InState db run operation .reserved)
    (hkeys : ∀ actual, amounts values = .ok actual →
      ∀ d, (RunBudget.rows db run operation d).isSome = (actual d).isSome)
    (h : (RunBudget.settleInUow (max 0) run operation values usageSource).run db = .error e) : ¬Conflict e := by
  unfold RunBudget.settleInUow at h
  cases hsource : UsageSource.parse usageSource with
  | error e' =>
      rw [hsource] at h
      obtain rfl := Except.error.inj h
      unfold UsageSource.parse at hsource
      split at hsource <;> cases hsource
      exact id
  | ok source =>
  rw [Tx.bind_ofExcept_error hsource] at h
  cases hvalues : amounts values with
  | error e' =>
      rw [hvalues] at h
      obtain rfl := Except.error.inj h
      exact amounts_no_conflict hvalues
  | ok actual =>
  rw [Tx.bind_ofExcept_error hvalues] at h
  rcases Tx.bind_error.mp h with h | ⟨_, db₁, hwork, h⟩
  · exact WorkBudget.mutate_settle_open hs hb hin (hkeys actual hvalues) h
  have hrows := mutate_runRows hwork operation
  have hbudgets : db₁.runBudgets = db.runBudgets := by rw [WorkBudget.mutate_frame hwork]
  obtain ⟨b, hbudget⟩ := hs.backed hin.1
  rw [← hbudgets] at hbudget
  rw [RunBudget.bind_lockBudget_error hbudget, Tx.bind_query_error, hrows, Tx.bind_check_error] at h
  rcases h with ⟨hrefused, _⟩ | ⟨_, h⟩
  · exact absurd (hkeys actual hvalues) hrefused
  split at h
  · next hall =>
      have hsettled := RunBudget.allRows_iff.mp hall.2
      exact absurd (hin.eq ⟨hin.1, fun d r hr => of_decide_eq_true (hsettled d r hr)⟩) (by decide)
  · rw [Tx.bind_check_error] at h
    rcases h with ⟨hrefused, _⟩ | ⟨_, h⟩
    · refine absurd ⟨RunBudget.noRows_eq_false_iff.mpr hin.1, RunBudget.allRows_iff.mpr fun d r hr => ?_⟩ hrefused
      exact decide_eq_true (hin.2 d r hr)
    · exact RunBudget.settleRows_no_conflict _ _ h

end open_hold

end HpAgent.Budget
