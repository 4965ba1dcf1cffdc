import HpAgent.Budget.ToolAttempts

/-! # Runs of a tool operation

A hold that an earlier attempt has released or settled is replayed by the next reservation: the next attempt then
dispatches its tool without a hold, and its settlement is refused.

* `Held`: the invariant of the runs in which no step closes the hold under an attempt that counts on it, and no
  attempt reserves after it was closed.
* `tool_hold_survives`: in these runs the hold is open at every dispatch, and no measured settlement is a conflict.
* `not_tool_hold_survives`: an attempt cancelled while it waits for its slot, and its retry. -/

namespace HpAgent.Budget

open Library

namespace Tool

section invariant

variable {run : Uuid} {operation : String}

/-- The hold is open for these amounts. -/
structure OpenFor (run : Uuid) (operation : String) (db : Ledgers) (v : Values) : Prop where
  reserved : InState db run operation .reserved
  amounts : amounts v.items = .ok (RunBudget.reservedAmounts (RunBudget.rows db run operation))
  toolCalls : "tool_calls" ∈ v.keys

/-- Every attempt in flight has its hold, and no settlement was refused as a conflict. -/
structure Held (run : Uuid) (operation : String) (w : World) : Prop where
  recorded : Recorded w.db
  backed : WorkBacked w.db
  held : ∀ k v, (w.attempts k).reservation = some v → OpenFor run operation w.db v
  accepted : ∀ k e, w.attempts k = .refused e → ¬Conflict e

theorem OpenFor.of_rows {db db' : Ledgers} {v : Values} (h : OpenFor run operation db v)
    (hrows : RunBudget.rows db' run operation = RunBudget.rows db run operation) : OpenFor run operation db' v := by
  obtain ⟨hreserved, hamounts, hcalls⟩ := h
  unfold InState at hreserved
  rw [← hrows] at hreserved hamounts
  exact ⟨hreserved, hamounts, hcalls⟩

theorem held_start (authority : Authority) : Held run operation (World.start authority) where
  recorded := recorded_start authority
  backed _ _ h := nomatch h
  held _ _ h := nomatch h
  accepted _ _ h := nomatch h

variable {w : World} {k : ℕ} {stage : Stage} {db : Ledgers}

/-- One attempt moves on. -/
theorem Held.change (h : Held run operation w) (hs : Recorded db) (hb : WorkBacked db)
    (hothers : ∀ j v, j ≠ k → (w.attempts j).reservation = some v → OpenFor run operation db v)
    (hown : ∀ v, stage.reservation = some v → OpenFor run operation db v)
    (haccepted : ∀ e, stage = .refused e → ¬Conflict e) : Held run operation (w.move k stage db) := by
  refine ⟨hs, hb, fun j v hj => ?_, fun j e hj => ?_⟩
  · by_cases hjk : j = k
    · subst hjk
      rw [World.move_same] at hj
      exact hown v hj
    · rw [World.move_other hjk] at hj
      exact hothers j v hjk hj
  · by_cases hjk : j = k
    · subst hjk
      rw [World.move_same] at hj
      exact haccepted e hj
    · rw [World.move_other hjk] at hj
      exact h.accepted j e hj

/-- One attempt moves on with a transaction. -/
theorem Held.move (h : Held run operation w) (hdb : UsageStep anyCall w.db db)
    (hothers : ∀ j v, j ≠ k → (w.attempts j).reservation = some v → OpenFor run operation db v)
    (hown : ∀ v, stage.reservation = some v → OpenFor run operation db v)
    (haccepted : ∀ e, stage = .refused e → ¬Conflict e) : Held run operation (w.move k stage db) :=
  h.change (hdb.recorded h.recorded) (hdb.backed h.recorded h.backed) hothers hown haccepted

/-- One attempt moves on and the ledgers stay. -/
theorem Held.move_quiet (h : Held run operation w)
    (hown : ∀ v, stage.reservation = some v → OpenFor run operation w.db v)
    (haccepted : ∀ e, stage = .refused e → ¬Conflict e) : Held run operation (w.move k stage w.db) :=
  h.change h.recorded h.backed (fun j v _ hj => h.held j v hj) hown haccepted

/-- What a call leaves does not depend on whether its result is used. -/
theorem commit_discard {α : Type} (m : BudgetTx α) (db : Ledgers) :
    (m >>= fun _ => (pure () : BudgetTx Unit)).commit db = m.commit db := by
  unfold Tx.commit
  cases hm : m.run db with
  | ok p => rw [StateT.run_bind, hm]; rfl
  | error e => rw [StateT.run_bind, hm]; rfl

theorem reserveTx_step (caller : Caller) (configured : Option Values) (db : Ledgers) :
    UsageStep anyCall db ((reserveTx run operation caller configured).commit db) := by
  rw [← commit_discard]
  exact .call (.reserve caller run operation (budgetReservation configured) false false true) trivial trivial

theorem settleTx_step (values : Values) (source : String) (db : Ledgers) :
    UsageStep anyCall db ((settleTx run operation values source).commit db) := by
  rw [← commit_discard]
  exact .call (.settle run operation values source) trivial trivial

theorem releaseTx_step (db : Ledgers) : UsageStep anyCall db ((releaseTx run operation).commit db) := by
  rw [← commit_discard]
  exact .call (.release run operation) trivial trivial

/-- **A reservation** of an operation whose hold is not closed: the attempts in flight keep their hold, and the
new attempt has it too. -/
theorem Held.reserve (h : Held run operation w) (caller : Caller) (configured : Option Values)
    (hopen : ∀ d r, RunBudget.rows w.db run operation d = some r → r.state = .reserved) :
    Held run operation
      (w.move k (afterReserve (budgetReservation configured) ((reserveTx run operation caller configured).run w.db))
        ((reserveTx run operation caller configured).commit w.db)) := by
  have hstep : UsageStep anyCall w.db ((reserveTx run operation caller configured).commit w.db) :=
    reserveTx_step caller configured w.db
  unfold Tx.commit at hstep ⊢
  cases hrun : (reserveTx run operation caller configured).run w.db with
  | error e =>
      rw [hrun] at hstep
      exact h.move hstep (fun j v _ hj => h.held j v hj) nofun nofun
  | ok p =>
      obtain ⟨r, db'⟩ := p
      rw [hrun] at hstep
      rcases (RunBudget.reserveInUow_effect h.recorded hrun).2 with ⟨m, requested, rfl, hvalues, heffect⟩ | ⟨_, ⟨e, rfl⟩, rfl⟩
      · have hown : OpenFor run operation db' (budgetReservation configured) := by
          cases heffect with
          | opened hrows hmoved =>
              refine ⟨⟨?_, ?_⟩, ?_, toolCalls_mem_reservation configured⟩
              · rw [hmoved.rows_eq]
                exact opened_ne_empty (ne_empty_of_amounts hvalues) _
              · intro d r hr
                rw [hmoved.rows_eq] at hr
                obtain ⟨n, _, rfl⟩ := Option.map_eq_some_iff.mp hr
                rfl
              · rw [hmoved.rows_eq, reservedAmounts_opened]
                exact hvalues
          | replayed hrows hamounts =>
              refine ⟨⟨hrows, hopen⟩, ?_, toolCalls_mem_reservation configured⟩
              rw [hamounts]
              exact hvalues
        refine h.move hstep (fun j v _ hj => ?_) (fun v hv => ?_) nofun
        · have hj' := h.held j v hj
          cases heffect with
          | opened hrows _ => exact absurd hrows hj'.reserved.1
          | replayed => exact hj'
        · obtain rfl := Option.some.inj hv
          exact hown
      · exact h.move hstep (fun j v _ hj => (h.held j v hj).of_rows rfl) nofun nofun

/-- **The settlement of what an attempt measured** is no conflict. -/
theorem Held.settle (h : Held run operation w) {reservation : Values} {usage : Option Values}
    (hat : w.attempts k = .measured reservation usage) (hothers : ¬w.OtherBusy k) :
    Held run operation
      (w.move k (afterSettle ((settleTx run operation (measured reservation usage) "measured").run w.db))
        ((settleTx run operation (measured reservation usage) "measured").commit w.db)) := by
  have hheld : OpenFor run operation w.db reservation := h.held k reservation (by rw [hat]; rfl)
  refine h.move (settleTx_step _ _ _) (fun j v hj hv => absurd ⟨j, v, hj, hv⟩ hothers) (fun v hv => ?_) fun e he => ?_
  · unfold afterSettle at hv
    split at hv <;> cases hv
  · unfold afterSettle at he
    split at he
    · cases he
    next e' hrun =>
    obtain rfl := Stage.refused.inj he
    refine RunBudget.settleInUow_open h.recorded h.backed hheld.reserved (fun actual hactual d => ?_) hrun
    rw [Bool.eq_iff_iff, amounts_isSome hactual, mem_keys_measured hheld.toolCalls, ← amounts_isSome hheld.amounts]
    unfold RunBudget.reservedAmounts
    rw [Option.isSome_map]

/-- One step. -/
theorem Held.step (h : Held run operation w) {e : Event} {w' : World} (hstep : Step run operation w e w')
    (hallowed : Undisturbed run operation w e) : Held run operation w' := by
  cases hstep with
  | reserve caller configured _ _ => exact h.reserve caller configured hallowed
  | @dispatch k reservation hat =>
      refine h.move_quiet (fun v hv => ?_) nofun
      exact h.held k v (by rw [hat]; exact hv)
  | @interrupted k reservation hat =>
      exact h.move (releaseTx_step _) (fun j v hj hv => absurd ⟨j, v, hj, hv⟩ hallowed) nofun nofun
  | @raised k reservation hat =>
      exact h.move (settleTx_step _ _ _) (fun j v hj hv => absurd ⟨j, v, hj, hv⟩ hallowed) nofun nofun
  | @returned k reservation usage hat =>
      refine h.move_quiet (fun v hv => ?_) nofun
      exact h.held k v (by rw [hat]; exact hv)
  | settle hat => exact h.settle hat hallowed
  | complete hat => exact h.move_quiet nofun nofun
  | die hat => exact h.move_quiet nofun nofun
  | elsewhere hdb =>
      refine ⟨hdb.recorded h.recorded, hdb.backed h.recorded h.backed, fun j v hj => ?_, h.accepted⟩
      exact (h.held j v hj).of_rows (hallowed ⟨j, v, hj⟩)

theorem Reachable.held {authority : Authority} (h : Reachable run operation (Undisturbed run operation) authority w) :
    Held run operation w := by
  induction h with
  | refl => exact held_start authority
  | tail _ hstep ih =>
      obtain ⟨e, hallowed, hstep⟩ := hstep
      exact ih.step hstep hallowed

/-- **Tool budget holds survive retries**, in the runs in which no step closes the hold under an attempt that counts
on it and no attempt reserves after it was closed. -/
theorem tool_hold_survives (run : Uuid) (operation : String) (authority : Authority) (w : World)
    (h : Reachable run operation (Undisturbed run operation) authority w) :
    (∀ k v, w.attempts k = .holding v → InState w.db run operation .reserved) ∧
      (∀ k v, w.attempts k = .dispatched v → InState w.db run operation .reserved) ∧
      ∀ k e, w.attempts k = .refused e → ¬Conflict e := by
  have hheld := h.held
  refine ⟨fun k v hk => ?_, fun k v hk => ?_, hheld.accepted⟩
  · exact (hheld.held k v (by rw [hk]; rfl)).reserved
  · exact (hheld.held k v (by rw [hk]; rfl)).reserved

end invariant

/-! ### A retry after a cancelled wait -/

/-- One more step of a run. -/
theorem Reachable.step {run : Uuid} {operation : String} {allowed : World → Event → Prop} {authority : Authority}
    {w w' : World} {e : Event} (h : Reachable run operation allowed authority w) (hallowed : allowed w e)
    (hstep : Step run operation w e w') : Reachable run operation allowed authority w' :=
  Relation.ReflTransGen.tail h ⟨e, hallowed, hstep⟩

/-- Nothing is excluded. -/
def anyEvent : World → Event → Prop := fun _ _ => True

/-- A Run with a budget, and no attempt yet. -/
def budgeted : World := { World.start soloAuthority with db := soloBudget }

/-- Attempt `k` after its reservation. -/
def reservedBy (w : World) (k : ℕ) : World :=
  w.move k (afterReserve (budgetReservation none) ((reserveTx 7 "tool:1" ⟨none, 0⟩ none).run w.db))
    ((reserveTx 7 "tool:1" ⟨none, 0⟩ none).commit w.db)

/-- Attempt `k` is cancelled while it waits. -/
def cancelledWait (w : World) (k : ℕ) : World := w.move k .failed ((releaseTx 7 "tool:1").commit w.db)

/-- The tool of attempt `k` runs. -/
def sentBy (w : World) (k : ℕ) : World := w.move k (.dispatched (budgetReservation none)) w.db

/-- The tool of attempt `k` has returned without usage. -/
def returnedTo (w : World) (k : ℕ) : World := w.move k (.measured (budgetReservation none) none) w.db

/-- Attempt `k` settles what it measured. -/
def settledBy (w : World) (k : ℕ) : World :=
  w.move k (afterSettle ((settleTx 7 "tool:1" (measured (budgetReservation none) none) "measured").run w.db))
    ((settleTx 7 "tool:1" (measured (budgetReservation none) none) "measured").commit w.db)

/-- The first attempt is cancelled while it waits, and the second dispatches. -/
def retried : World := sentBy (reservedBy (cancelledWait (reservedBy budgeted 0) 0) 1) 1

theorem reachable_budgeted {allowed : World → Event → Prop} (hallowed : allowed (World.start soloAuthority) (.elsewhere soloBudget)) :
    Reachable 7 "tool:1" allowed soloAuthority budgeted :=
  Reachable.step .refl hallowed (.elsewhere (.createRunBudget 7 .enforce (fun _ => some 100) 0 rfl ⟨by simp, by simp, by simp⟩))

theorem tool_hold_survives_sent :
    Reachable 7 "tool:1" (Undisturbed 7 "tool:1") soloAuthority (sentBy (reservedBy budgeted 0) 0) ∧
      InState (sentBy (reservedBy budgeted 0) 0).db 7 "tool:1" .reserved := by
  have hbudgeted : Reachable 7 "tool:1" (Undisturbed 7 "tool:1") soloAuthority budgeted := by
    refine reachable_budgeted ?_
    rintro ⟨k, v, hk⟩
    cases hk
  have hreserved : Reachable 7 "tool:1" (Undisturbed 7 "tool:1") soloAuthority (reservedBy budgeted 0) := by
    refine hbudgeted.step ?_ (.reserve ⟨none, 0⟩ none rfl fun _ => nofun)
    intro d r hr
    cases hr
  have hsent : Reachable 7 "tool:1" (Undisturbed 7 "tool:1") soloAuthority (sentBy (reservedBy budgeted 0) 0) :=
    hreserved.step (e := .dispatch 0) trivial (.dispatch rfl)
  exact ⟨hsent, (tool_hold_survives 7 "tool:1" soloAuthority _ hsent).2.1 0 (budgetReservation none) rfl⟩

theorem reachable_retried : Reachable 7 "tool:1" anyEvent soloAuthority retried := by
  have hbudgeted : Reachable 7 "tool:1" anyEvent soloAuthority budgeted := reachable_budgeted trivial
  have hreserved : Reachable 7 "tool:1" anyEvent soloAuthority (reservedBy budgeted 0) :=
    hbudgeted.step trivial (.reserve ⟨none, 0⟩ none rfl fun _ => nofun)
  have hcancelled : Reachable 7 "tool:1" anyEvent soloAuthority (cancelledWait (reservedBy budgeted 0) 0) :=
    hreserved.step trivial
      (.interrupted (show (reservedBy budgeted 0).attempts 0 = .holding (budgetReservation none) from rfl))
  have hopen : ∀ j, (cancelledWait (reservedBy budgeted 0) 0).attempts j ≠ .completed := by
    intro j
    by_cases hj : j = 0
    · subst hj
      nofun
    · unfold cancelledWait reservedBy
      rw [World.move_other hj, World.move_other hj]
      nofun
  have hagain : Reachable 7 "tool:1" anyEvent soloAuthority (reservedBy (cancelledWait (reservedBy budgeted 0) 0) 1) :=
    hcancelled.step trivial (.reserve ⟨none, 0⟩ none rfl hopen)
  exact hagain.step trivial (.dispatch rfl)

theorem not_tool_hold_survives :
    (¬∀ run operation authority w, Reachable run operation anyEvent authority w →
      ∀ k v, w.attempts k = .dispatched v → InState w.db run operation .reserved) ∧
    ¬∀ run operation authority w, Reachable run operation anyEvent authority w →
      ∀ k e, w.attempts k = .refused e → ¬Conflict e := by
  constructor
  · intro hall
    have hin := (hall 7 "tool:1" soloAuthority retried reachable_retried 1 _ rfl).2
    have hreleased : (RunBudget.rows retried.db 7 "tool:1" .toolCalls).map RunUsage.state = some .released := by
      decide +kernel
    obtain ⟨r, hr, hstate⟩ := Option.map_eq_some_iff.mp hreleased
    rw [hin _ r hr] at hstate
    cases hstate
  · intro hall
    have hreturned : Reachable 7 "tool:1" anyEvent soloAuthority (returnedTo retried 1) :=
      reachable_retried.step trivial (.returned none rfl)
    have hsettled : Reachable 7 "tool:1" anyEvent soloAuthority (settledBy (returnedTo retried 1) 1) :=
      hreturned.step trivial (.settle rfl)
    exact hall 7 "tool:1" soloAuthority _ hsettled 1 (.runBudgetConflict "operation is not reserved") rfl trivial

end Tool

end HpAgent.Budget
