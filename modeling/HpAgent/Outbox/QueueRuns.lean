import HpAgent.Outbox.Queue

/-! # The outbox over whole histories

Any number of workers claim events and later end their claims, in any order and at any time; the recovery pass and new
events come in between.  A worker keeps every claim it was ever given, so a slow one may act on a claim that has been
returned to the queue and claimed again.

* `Moved`: what one statement can do to a row.
* `Leased`: the claim that holds a row, as an invariant.
* `outbox_lease_ownership`: the laws over every history. -/

namespace HpAgent.Outbox

open Library

variable {f : OutboxEvent → OutboxEvent} {e : OutboxEvent}

/-! ### What one statement does -/

/-- The moves of a row: claimed, returned to the queue, acknowledged or put aside. -/
inductive Moved (e : OutboxEvent) : OutboxEvent → Prop
  | claimed (now : Instant) (worker : String) (h : e.status = .pending) : Moved e (e.claim now worker)
  | recovered (h : e.status = .processing) : Moved e e.recover
  | retried (next : Instant) (code message : Option String) (h : e.status = .processing) : Moved e (e.retry next code message)
  | processed (now : Instant) (h : e.status = .processing) : Moved e (e.process now)
  | buried (code message : String) (h : e.status = .processing) : Moved e (e.bury code message)

/-- Rows stay or move as `M` says, and new rows are pending and unclaimed. -/
structure Touches (M : Uuid → OutboxEvent → OutboxEvent → Prop) (db db' : OutboxStore) : Prop where
  kept : ∀ k e, db.events.lookup k = some e → ∃ e', db'.events.lookup k = some e' ∧ (e' = e ∨ M k e e')
  fresh : ∀ k e', db.events.lookup k = none → db'.events.lookup k = some e' → e'.status = .pending ∧ e'.attemptCount = 0

/-- Nothing happens to the rows that are there. -/
abbrev Enqueues : OutboxStore → OutboxStore → Prop := Touches fun _ _ _ => False

section statements

variable {M M' : Uuid → OutboxEvent → OutboxEvent → Prop} {db db' : OutboxStore}

theorem Touches.of_events (h : db'.events = db.events) : Touches M db db' := by
  refine ⟨fun k e he => ⟨e, ?_, .inl rfl⟩, fun k e' hnone he' => ?_⟩
  · rw [h]
    exact he
  · rw [h, hnone] at he'
    cases he'

theorem Touches.mono (h : Touches M db db') (hM : ∀ k e e', M k e e' → M' k e e') : Touches M' db db' := by
  refine ⟨fun k e he => ?_, h.fresh⟩
  obtain ⟨e', he', hmove⟩ := h.kept k e he
  exact ⟨e', he', hmove.imp_right (hM k e e')⟩

/-- New rows are followed by a statement. -/
theorem Touches.after_enqueues {db₁ : OutboxStore} (h : Enqueues db db₁) (h' : Touches M db₁ db')
    (hM : ∀ k e e', e.status = .pending → M k e e' → False) : Touches M db db' := by
  refine ⟨fun k e he => ?_, fun k e' hnone he' => ?_⟩
  · obtain ⟨e₁, he₁, rfl | hfalse⟩ := h.kept k e he
    · exact h'.kept k e₁ he₁
    · exact hfalse.elim
  · cases hmid : db₁.events.lookup k with
    | none => exact h'.fresh k e' hmid he'
    | some e₁ =>
        obtain ⟨hpending, hcount⟩ := h.fresh k e₁ hnone hmid
        obtain ⟨e₂, he₂, rfl | hmove⟩ := h'.kept k e₁ hmid
        · obtain rfl := Option.some.inj (he'.symm.trans he₂)
          exact ⟨hpending, hcount⟩
        · exact (hM k e₁ e₂ hpending hmove).elim

instance : IsPreorder OutboxStore Enqueues where
  refl _ := .of_events rfl
  trans _ _ _ h h' := h.after_enqueues h' fun _ _ _ _ hfalse => hfalse

theorem enqueue_enqueues (now : Instant) (e : NewEvent) : Tx.Keeps Enqueues (enqueue now e) := by
  intro db u db' h
  unfold enqueue at h
  rw [Tx.bind_query_ok] at h
  split at h
  · obtain ⟨_, rfl⟩ := Tx.pure_ok.mp h
    exact refl_of Enqueues db
  · rw [Tx.bind_query_ok, Tx.bind_check_ok, Tx.update_ok] at h
    obtain ⟨htaken, rfl⟩ := h
    have hnone : db.events.lookup e.id = none := by simpa using htaken
    refine ⟨fun k r hr => ⟨r, ?_, .inl rfl⟩, fun k r hr hr' => ?_⟩
    · have hk : k ≠ e.id := by
        rintro rfl
        rw [hnone] at hr
        cases hr
      exact (AList.lookup_insert_ne hk).trans hr
    · have hr' : (db.events.insert e.id (e.row now)).lookup k = some r := hr'
      rw [Table.lookup_insert_ite] at hr'
      split at hr'
      · obtain rfl := Option.some.inj hr'
        exact ⟨rfl, rfl⟩
      · rw [hr] at hr'
        cases hr'

theorem enqueueAll_enqueues (now : Instant) (l : List NewEvent) : Tx.Keeps Enqueues (l.forM (enqueue now)) := by
  induction l with
  | nil => exact Tx.Keeps.pure _
  | cons e rest ih => exact (enqueue_enqueues now e).bind fun _ => ih

theorem finishFailed_enqueues (now : Instant) (account run : Uuid) (projected : List NewEvent) :
    Tx.Keeps Enqueues (finishFailed now account run projected) := by
  refine Tx.Keeps.bind (Tx.Keeps.update fun _ => ?_) fun _ => enqueueAll_enqueues now projected
  exact Touches.of_events rfl

theorem touches_updateWhere {p : Uuid → OutboxEvent → Bool}
    (h : ∀ k e, db.events.lookup k = some e → p k e = true → M k e (f e)) :
    Touches M db { db with events := db.events.updateWhere p f } := by
  refine ⟨fun k e he => ⟨if p k e then f e else e, ?_, ?_⟩, fun k e' hnone he' => ?_⟩
  · show (db.events.updateWhere p f).lookup k = _
    rw [Table.lookup_updateWhere, he]
    rfl
  · split
    · next hp => exact .inr (h k e he hp)
    · exact .inl rfl
  · have he' : (db.events.updateWhere p f).lookup k = some e' := he'
    rw [Table.lookup_updateWhere, hnone] at he'
    cases he'

/-- The rows of a batch are pending and not locked by another transaction. -/
theorem candidates_spec {now : Instant} {types : List EventType} {limit : ℕ} {skipped : Uuid → Bool} {k : Uuid}
    (hk : k ∈ candidates now types limit skipped db) (he : db.events.lookup k = some e) :
    e.claimable now types = true ∧ skipped k = false := by
  obtain ⟨⟨k', e'⟩, hmem, rfl⟩ := List.mem_map.mp hk
  have hfiltered := List.mem_mergeSort.mp (List.mem_of_mem_take hmem)
  obtain ⟨hentry, hboth⟩ := List.mem_filter.mp hfiltered
  obtain rfl := Option.some.inj (he.symm.trans (AList.mem_lookup_iff.mpr hentry))
  rw [Bool.and_eq_true, Bool.not_eq_true'] at hboth
  exact hboth

end statements

/-! ### Histories -/

/-- How a worker ends a claim; the last four are those of `MemoryStore`. -/
inductive Ending where
  | markProcessed (now : Instant)
  | markRetryableFailure (code message : String) (next : Instant)
  | deadLetter (now : Instant) (code message : String) (projected : List NewEvent)
  | finishEvent (now : Instant)
  | registerEvent (now : Instant) (frozen : Option NewEvent)
  | rejectEvent (code : String)
  | saveEvent (now : Instant) (terminal : Bool) (code : Option String) (delaySeconds : ℤ)

/-- The ending compares the `attempt_count` of the claim. -/
def Ending.fenced : Ending → Bool
  | .markProcessed _ | .markRetryableFailure .. | .deadLetter .. => false
  | _ => true

/-- The store after the transaction of an ending. -/
def Ending.effect (db : OutboxStore) (c : Claim) : Ending → OutboxStore
  | .markProcessed now => (Outbox.markProcessed now c.eventId c.workerId).commit db
  | .markRetryableFailure code message next =>
      (Outbox.markRetryableFailure c.eventId c.workerId (safeError code 100) (safeError message 1000) next).commit db
  | .deadLetter now code message projected => (Outbox.deadLetter now c.eventId c.workerId code message projected).commit db
  | .finishEvent now => (Outbox.finishEvent now c.eventId c.attemptCount c.workerId).commit db
  | .registerEvent now frozen => (Outbox.registerEvent now c.eventId c.attemptCount c.workerId frozen).commit db
  | .rejectEvent code => (Outbox.rejectEvent c.eventId c.attemptCount c.workerId code).commit db
  | .saveEvent now terminal code delay => (Outbox.saveEvent now c.eventId c.attemptCount c.workerId terminal code delay).commit db

/-- One committed transaction: of a producer, a worker, the recovery pass, or one that only changes Runs. -/
inductive Action where
  | enqueue (now : Instant) (e : NewEvent)
  | claim (now : Instant) (worker : String) (types : List EventType) (limit : ℕ) (skipped : Uuid → Bool)
  | recover (now : Instant) (olderThanSeconds : ℕ) (types : List EventType)
  | ending (claim : ℕ) (a : Ending)
  | runs (runs : Uuid → Uuid → Option RunStatus)

/-- The database, and every claim that was ever handed out. -/
structure World where
  db : OutboxStore
  claims : List Claim

/-- The claims of a batch. -/
def claimsOf (worker : String) (rows : List (Uuid × OutboxEvent)) : List Claim :=
  rows.map fun r => ⟨r.1, worker, r.2.attemptCount⟩

def World.after (w : World) : Action → World
  | .enqueue now e => ⟨(enqueue now e).commit w.db, w.claims⟩
  | .claim now worker types limit skipped =>
      match (claim now worker types limit skipped).run w.db with
      | .ok (rows, db) => ⟨db, w.claims ++ claimsOf worker rows⟩
      | .error _ => w
  | .recover now seconds types => ⟨(recover now seconds types).commit w.db, w.claims⟩
  | .ending i a =>
      match w.claims[i]? with
      | some c => ⟨a.effect w.db c, w.claims⟩
      | none => w
  | .runs runs => ⟨{ w.db with runs := runs }, w.claims⟩

/-- A history, from an empty outbox. -/
def World.run (runs : Uuid → Uuid → Option RunStatus) (h : List Action) : World := h.foldl World.after ⟨⟨∅, runs⟩, []⟩

/-- The claim holds its row. -/
def Holding (db : OutboxStore) (c : Claim) : Prop :=
  ∃ e, db.events.lookup c.eventId = some e ∧ e.status = .processing ∧ e.attemptCount = c.attemptCount

/-- The row was claimed again by the same worker. -/
def Reclaimed (db : OutboxStore) (c : Claim) : Prop :=
  ∃ e, db.events.lookup c.eventId = some e ∧ e.status = .processing ∧ e.lockedBy = some c.workerId ∧
    e.attemptCount ≠ c.attemptCount

/-- `dead_letter` finds the Run of the event. -/
def Ending.finds (db : OutboxStore) (c : Claim) : Ending → Prop
  | .deadLetter .. => ∃ e run, db.events.lookup c.eventId = some e ∧ e.runId = some run ∧ (db.runs e.accountId run).isSome
  | _ => True

/-- The action changes nothing unless its claim holds the row. -/
def Owned (w : World) : Action → Prop
  | .ending i a => ∀ c, w.claims[i]? = some c → a.effect w.db c ≠ w.db → Holding w.db c
  | _ => True

/-- The action is an unfenced ending of an earlier claim of a row that the same worker holds again. -/
def Aliased (w : World) : Action → Prop
  | .ending i a => a.fenced = false ∧ ∃ c, w.claims[i]? = some c ∧ Reclaimed w.db c ∧ a.finds w.db c
  | _ => False

/-! ### What an ending does -/

section endings

variable {db db' : OutboxStore} {event : Uuid} {worker : String} {attempt : ℕ}

/-- One statement that ends a claim, on the rows. -/
def Ends (event : Uuid) (worker : String) (k : Uuid) (e e' : OutboxEvent) : Prop :=
  k = event ∧ e.lockedFor worker = true ∧ e'.status ≠ .processing ∧ Moved e e'

theorem lockedFor_iff : e.lockedFor worker = true ↔ e.status = .processing ∧ e.lockedBy = some worker := by
  unfold OutboxEvent.lockedFor
  rw [Bool.and_eq_true, decide_eq_true_eq, decide_eq_true_eq]

theorem changeOwned_ok {changed : Bool}
    (h : (changeOwned event worker f).run db = .ok (changed, db')) :
    changed = (db.events.lookup event).any (OutboxEvent.lockedFor worker) ∧
      db' = { db with events := db.events.updateWhere (fun k e => k = event && e.lockedFor worker) f } := by
  unfold changeOwned at h
  rw [Tx.bind_query_ok, Tx.bind_update_ok] at h
  obtain ⟨rfl, rfl⟩ := Tx.pure_ok.mp h
  exact ⟨rfl, rfl⟩

/-- Without the worker's lock the statement changes nothing. -/
theorem changeOwned_unlocked {changed : Bool}
    (h : (changeOwned event worker f).run db = .ok (changed, db'))
    (hnone : ∀ e, db.events.lookup event = some e → e.lockedFor worker = false) : db' = db := by
  obtain ⟨_, rfl⟩ := changeOwned_ok h
  have hsame : db.events.updateWhere (fun k e => k = event && e.lockedFor worker) f = db.events := by
    apply Table.updateWhere_of_none
    intro k e he
    by_cases hk : k = event
    · subst hk
      rw [hnone e he, Bool.and_false]
    · rw [decide_eq_false hk, Bool.false_and]
  rw [hsame]

/-- With it, the row is changed. -/
theorem changeOwned_row {changed : Bool}
    (h : (changeOwned event worker f).run db = .ok (changed, db')) (he : db.events.lookup event = some e)
    (hlocked : e.lockedFor worker = true) : changed = true ∧ db'.events.lookup event = some (f e) := by
  obtain ⟨rfl, rfl⟩ := changeOwned_ok h
  constructor
  · rw [he]
    exact hlocked
  · show (db.events.updateWhere _ f).lookup event = _
    rw [Table.lookup_updateWhere, he, Option.map_some, decide_eq_true rfl, hlocked]
    rfl

theorem changeOwned_touches (hf : ∀ e, e.status = .processing → (f e).status ≠ .processing ∧ Moved e (f e)) :
    Tx.Keeps (Touches (Ends event worker)) (changeOwned event worker f) := by
  intro db changed db' h
  obtain ⟨_, rfl⟩ := changeOwned_ok h
  refine touches_updateWhere fun k e _ hp => ?_
  rw [Bool.and_eq_true, decide_eq_true_eq] at hp
  obtain ⟨hleft, hmoved⟩ := hf e (lockedFor_iff.mp hp.2).1
  exact ⟨hp.1, hp.2, hleft, hmoved⟩

theorem markProcessed_touches (now : Instant) : Tx.Keeps (Touches (Ends event worker)) (markProcessed now event worker) :=
  changeOwned_touches fun _ h => ⟨nofun, .processed now h⟩

theorem markRetryableFailure_touches (code message : String) (next : Instant) :
    Tx.Keeps (Touches (Ends event worker)) (markRetryableFailure event worker code message next) :=
  changeOwned_touches fun _ h => ⟨nofun, .retried next _ _ h⟩

theorem markDeadLetter_touches (code message : String) :
    Tx.Keeps (Touches (Ends event worker)) (markDeadLetter event worker code message) :=
  changeOwned_touches fun _ h => ⟨nofun, .buried code message h⟩

theorem Touches.ends_after (h : Enqueues db db') {db₂ : OutboxStore} (h' : Touches (Ends event worker) db' db₂) :
    Touches (Ends event worker) db db₂ := by
  refine h.after_enqueues h' fun k e e' hpending hends => ?_
  have hprocessing := (lockedFor_iff.mp hends.2.1).1
  rw [hpending] at hprocessing
  cases hprocessing

theorem owned_ok {row : OutboxEvent} (h : (owned event attempt worker).run db = .ok (row, db')) :
    db = db' ∧ db.events.lookup event = some row ∧ row.lockedFor worker = true ∧ row.attemptCount = attempt := by
  unfold owned at h
  rw [Tx.bind_query_ok, Tx.bind_demand_ok] at h
  obtain ⟨e, he, h⟩ := h
  rw [Tx.bind_check_ok] at h
  obtain ⟨hattempt, h⟩ := h
  obtain ⟨rfl, rfl⟩ := Tx.pure_ok.mp h
  obtain ⟨hrow, hlocked⟩ := Option.filter_eq_some_iff.mp he
  exact ⟨rfl, hrow, hlocked, hattempt⟩

/-- What a successful `dead_letter` found and did. -/
theorem deadLetter_ok {now : Instant} {code message : String} {projected : List NewEvent} {b : Bool}
    (h : (deadLetter now event worker code message projected).run db = .ok (b, db')) :
    ∃ e run, db.events.lookup event = some e ∧ e.lockedFor worker = true ∧ e.runId = some run ∧
      (db.runs e.accountId run).isSome ∧ ∃ db₁ changed, Enqueues db db₁ ∧
        (markDeadLetter event worker (safeError code 100) (safeError message 1000)).run db₁ = .ok (changed, db') := by
  unfold deadLetter at h
  rw [Tx.bind_query_ok, Tx.bind_demand_ok] at h
  obtain ⟨context, hcontext, h⟩ := h
  rw [Tx.bind_demand_ok] at h
  obtain ⟨run, hrun, h⟩ := h
  rw [Tx.bind_query_ok, Tx.bind_demand_ok] at h
  obtain ⟨status, hstatus, h⟩ := h
  rw [Tx.bind_query_ok, Tx.bind_demand_ok] at h
  obtain ⟨e, he, h⟩ := h
  obtain ⟨hrow, hlocked⟩ := Option.filter_eq_some_iff.mp he
  obtain rfl := Option.some.inj (hcontext.symm.trans hrow)
  rw [Tx.bind_check_ok] at h
  obtain ⟨_, h⟩ := h
  refine ⟨context, run, hcontext, hlocked, hrun, by rw [hstatus]; rfl, ?_⟩
  dsimp only at h
  split at h
  · obtain ⟨_, db₁, hfinish, h⟩ := Tx.bind_ok.mp h
    obtain ⟨changed, db₂, hmark, h⟩ := Tx.bind_ok.mp h
    rw [Tx.bind_check_ok] at h
    obtain ⟨_, h⟩ := h
    obtain ⟨_, rfl⟩ := Tx.pure_ok.mp h
    exact ⟨db₁, changed, finishFailed_enqueues _ _ _ _ _ _ _ hfinish, hmark⟩
  · obtain ⟨changed, db₂, hmark, h⟩ := Tx.bind_ok.mp h
    rw [Tx.bind_check_ok] at h
    obtain ⟨_, h⟩ := h
    obtain ⟨_, rfl⟩ := Tx.pure_ok.mp h
    exact ⟨db, changed, refl_of Enqueues db, hmark⟩

end endings

section effects

variable {db db' : OutboxStore} {c : Claim}

/-- What an ending needs to change anything: the worker's lock on the row, and the claim's own count if it looks at it. -/
def Ending.Locks (db : OutboxStore) (c : Claim) (a : Ending) : Prop :=
  ∃ e, db.events.lookup c.eventId = some e ∧ e.lockedFor c.workerId = true ∧
    (a.fenced = true → e.attemptCount = c.attemptCount)

theorem changeOwned_effect (a : Ending) (hfenced : a.fenced = false)
    (h : (changeOwned c.eventId c.workerId f).commit db ≠ db) : a.Locks db c := by
  by_contra hnone
  refine h (Tx.commit_rule (fun s => s = db) rfl fun changed s hrun => changeOwned_unlocked hrun fun e he => ?_)
  by_contra hlocked
  refine hnone ⟨e, he, eq_true_of_ne_false hlocked, fun hyes => ?_⟩
  rw [hfenced] at hyes
  cases hyes

/-- A transaction of `MemoryStore` begins with the check of its claim. -/
theorem owned_effect (a : Ending) {α : Type} {rest : OutboxEvent → OutboxTx α}
    (h : (owned c.eventId c.attemptCount c.workerId >>= rest).commit db ≠ db) : a.Locks db c := by
  by_contra hnone
  refine h (Tx.commit_rule (fun s => s = db) rfl fun x s hrun => ?_)
  obtain ⟨row, db₁, howned, _⟩ := Tx.bind_ok.mp hrun
  obtain ⟨rfl, hrow, hlocked, hattempt⟩ := owned_ok howned
  exact (hnone ⟨row, hrow, hlocked, fun _ => hattempt⟩).elim

theorem Ending.effect_locks (a : Ending) (h : a.effect db c ≠ db) : a.Locks db c := by
  cases a with
  | markProcessed now => exact changeOwned_effect (.markProcessed now) rfl h
  | markRetryableFailure code message next => exact changeOwned_effect (.markRetryableFailure code message next) rfl h
  | deadLetter now code message projected =>
      by_contra hnone
      refine h (Tx.commit_rule (fun s => s = db) rfl fun b s hrun => ?_)
      obtain ⟨e, _, he, hlocked, _⟩ := deadLetter_ok hrun
      exact (hnone ⟨e, he, hlocked, nofun⟩).elim
  | finishEvent now => exact owned_effect (.finishEvent now) h
  | registerEvent now frozen => exact owned_effect (.registerEvent now frozen) h
  | rejectEvent code => exact owned_effect (.rejectEvent code) h
  | saveEvent now terminal code delay => exact owned_effect (.saveEvent now terminal code delay) h

theorem keeps_touches {α : Type} {m : OutboxTx α} {M : Uuid → OutboxEvent → OutboxEvent → Prop}
    (h : ∀ a db', m.run db = .ok (a, db') → Touches M db db') : Touches M db (m.commit db) :=
  Tx.commit_rule (Touches M db) (.of_events rfl) h

/-- The statements after the check of a claim. -/
theorem owned_touches {M : Uuid → OutboxEvent → OutboxEvent → Prop} {rest : OutboxEvent → OutboxTx Unit}
    (h : ∀ row u db', db.events.lookup c.eventId = some row → row.lockedFor c.workerId = true →
      (rest row).run db = .ok (u, db') → Touches M db db') :
    Touches M db ((owned c.eventId c.attemptCount c.workerId >>= rest).commit db) := by
  refine keeps_touches fun u db' hrun => ?_
  obtain ⟨row, db₁, howned, hrest⟩ := Tx.bind_ok.mp hrun
  obtain ⟨rfl, hrow, hlocked, _⟩ := owned_ok howned
  exact h row u db' hrow hlocked hrest

/-- The statement and the check that it changed something. -/
theorem checked_ok {m : OutboxTx Bool} {e : QueueError} {u : Unit}
    (h : (do let changed ← m; Tx.check (changed = true) e : OutboxTx Unit).run db = .ok (u, db')) :
    m.run db = .ok (true, db') := by
  obtain ⟨changed, db₁, hm, h⟩ := Tx.bind_ok.mp h
  obtain ⟨rfl, rfl⟩ := Tx.check_ok.mp h
  exact hm

/-- An ending moves at most the row of its claim, while its worker has it. -/
theorem Ending.effect_touches (a : Ending) : Touches (Ends c.eventId c.workerId) db (a.effect db c) := by
  cases a with
  | markProcessed now => exact keeps_touches (markProcessed_touches now db)
  | markRetryableFailure code message next => exact keeps_touches (markRetryableFailure_touches _ _ next db)
  | deadLetter now code message projected =>
      refine keeps_touches fun b db' hrun => ?_
      obtain ⟨_, _, _, _, _, _, db₁, changed, henqueued, hmark⟩ := deadLetter_ok hrun
      exact Touches.ends_after henqueued (markDeadLetter_touches _ _ _ _ _ hmark)
  | finishEvent now =>
      refine owned_touches fun row u db' _ _ hrun => ?_
      exact markProcessed_touches now _ _ _ (checked_ok hrun)
  | registerEvent now frozen =>
      refine owned_touches fun row u db' _ _ hrun => ?_
      obtain ⟨_, db₁, hfrozen, hmark⟩ := Tx.bind_ok.mp hrun
      exact Touches.ends_after (enqueueAll_enqueues now _ _ _ _ hfrozen) (markProcessed_touches now _ _ _ (checked_ok hmark))
  | rejectEvent code =>
      refine owned_touches fun row u db' _ _ hrun => ?_
      exact markDeadLetter_touches _ _ _ _ _ (checked_ok hrun)
  | saveEvent now terminal code delay =>
      refine owned_touches fun row u db' hrow hlocked hrun => ?_
      split at hrun
      · exact markProcessed_touches now _ _ _ (checked_ok hrun)
      · rw [Tx.update_ok] at hrun
        subst hrun
        refine touches_updateWhere fun k e he hk => ?_
        rw [decide_eq_true_eq] at hk
        subst hk
        obtain rfl := Option.some.inj (hrow.symm.trans he)
        exact ⟨rfl, hlocked, (by intro hgone; cases hgone), .retried _ _ _ (lockedFor_iff.mp hlocked).1⟩

/-- The events a transaction inserts have new identifiers. -/
def Ending.Fresh (db : OutboxStore) : Ending → Prop
  | .deadLetter _ _ _ projected => (∀ n ∈ projected, db.events.lookup n.id = none) ∧ (projected.map NewEvent.id).Nodup
  | _ => True

theorem enqueue_succeeds (now : Instant) {e : NewEvent} (h : db.events.lookup e.id = none) :
    ∃ db', (enqueue now e).run db = .ok ((), db') ∧ ∀ k, k ≠ e.id → db'.events.lookup k = db.events.lookup k := by
  by_cases hknown : (db.events.entries.any fun r => r.2.businessKey = e.businessKey) = true
  · refine ⟨db, ?_, fun _ _ => rfl⟩
    unfold enqueue
    rw [Tx.bind_query_ok, if_pos hknown]
    rfl
  · refine ⟨{ db with events := db.events.insert e.id (e.row now) }, ?_, fun k hk => AList.lookup_insert_ne hk⟩
    unfold enqueue
    rw [Tx.bind_query_ok, if_neg hknown, Tx.bind_query_ok, Tx.bind_check_ok, h]
    exact ⟨rfl, rfl⟩

variable (db) in
theorem enqueueAll_succeeds (now : Instant) (l : List NewEvent) (h : ∀ n ∈ l, db.events.lookup n.id = none)
    (hnodup : (l.map NewEvent.id).Nodup) : ∃ db', (l.forM (enqueue now)).run db = .ok ((), db') := by
  induction l generalizing db with
  | nil => exact ⟨db, rfl⟩
  | cons e rest ih =>
      obtain ⟨db₁, hfirst, hsame⟩ := enqueue_succeeds now (h e List.mem_cons_self)
      rw [List.map_cons, List.nodup_cons] at hnodup
      have hnew : ∀ n ∈ rest, db₁.events.lookup n.id = none := by
        intro n hn
        rw [hsame n.id fun heq => hnodup.1 (heq ▸ List.mem_map_of_mem hn)]
        exact h n (List.mem_cons_of_mem e hn)
      obtain ⟨db₂, hrest⟩ := ih db₁ hnew hnodup.2
      exact ⟨db₂, Tx.bind_ok.mpr ⟨(), db₁, hfirst, hrest⟩⟩

/-- A statement that takes a row from its worker changes the store. -/
theorem changeOwned_changes {db₁ : OutboxStore} {changed : Bool}
    (he : db.events.lookup c.eventId = some e) (hlocked : e.lockedFor c.workerId = true)
    (hf : (f e).status ≠ .processing) (hbefore : db₁.events.lookup c.eventId = some e)
    (h : (changeOwned c.eventId c.workerId f).run db₁ = .ok (changed, db')) : db' ≠ db := by
  intro hsame
  obtain ⟨_, hrow⟩ := changeOwned_row h hbefore hlocked
  rw [hsame, he] at hrow
  rw [← Option.some.inj hrow] at hf
  exact hf (lockedFor_iff.mp hlocked).1

variable (db) in
theorem changeOwned_run (f : OutboxEvent → OutboxEvent) (event : Uuid) (worker : String) :
    ∃ changed db', (changeOwned event worker f).run db = .ok (changed, db') :=
  ⟨_, _, rfl⟩

theorem commit_of_ok {α : Type} {m : OutboxTx α} {a : α} (h : m.run db = .ok (a, db')) : m.commit db = db' := by
  unfold Tx.commit
  rw [h]

/-- An unfenced ending of an earlier claim takes the row from the later one. -/
theorem Ending.effect_aliased (a : Ending) (hfenced : a.fenced = false) (h : Reclaimed db c) (hfinds : a.finds db c)
    (hfresh : a.Fresh db) : a.effect db c ≠ db := by
  obtain ⟨e, he, hprocessing, hworker, _⟩ := h
  have hlocked : e.lockedFor c.workerId = true := lockedFor_iff.mpr ⟨hprocessing, hworker⟩
  cases a with
  | markProcessed now =>
      obtain ⟨changed, db', hrun⟩ := changeOwned_run db (OutboxEvent.process now) c.eventId c.workerId
      have hsame : (Ending.markProcessed now).effect db c = db' := commit_of_ok hrun
      rw [hsame]
      exact changeOwned_changes he hlocked EventStatus.noConfusion he hrun
  | markRetryableFailure code message next =>
      obtain ⟨changed, db', hrun⟩ := changeOwned_run db
        (OutboxEvent.retry next (some (safeError code 100)) (some (safeError message 1000))) c.eventId c.workerId
      have hsame : (Ending.markRetryableFailure code message next).effect db c = db' := commit_of_ok hrun
      rw [hsame]
      exact changeOwned_changes he hlocked EventStatus.noConfusion he hrun
  | deadLetter now code message projected =>
      obtain ⟨e', run, he', hrun, hfound⟩ := hfinds
      obtain rfl := Option.some.inj (he.symm.trans he')
      obtain ⟨status, hstatus⟩ := Option.isSome_iff_exists.mp hfound
      have howned : lockOwnedEvent c.eventId c.workerId db = some e := Option.filter_eq_some_iff.mpr ⟨he, hlocked⟩
      -- the Run may be failed first, which leaves the row as it is
      obtain ⟨db₁, hfinish, hrow⟩ : ∃ db₁, (if e.eventType = .startRun ∧ status = .queued
            then finishFailed now e.accountId run projected else pure () : OutboxTx Unit).run db = .ok ((), db₁) ∧
          db₁.events.lookup c.eventId = some e := by
        split
        · obtain ⟨db₁, hall⟩ := enqueueAll_succeeds { db with
            runs := fun a r => if a = e.accountId ∧ r = run then some .failed else db.runs a r } now projected hfresh.1 hfresh.2
          have hrun : (finishFailed now e.accountId run projected).run db = .ok ((), db₁) := Tx.bind_update_ok.mpr hall
          obtain ⟨e₁, he₁, rfl | hfalse⟩ := (finishFailed_enqueues _ _ _ _ _ _ _ hrun).kept c.eventId e he
          · exact ⟨db₁, hrun, he₁⟩
          · exact hfalse.elim
        · exact ⟨db, rfl, he⟩
      obtain ⟨changed, db', hmark⟩ := changeOwned_run db₁
        (OutboxEvent.bury (safeError code 100) (safeError message 1000)) c.eventId c.workerId
      obtain ⟨rfl, _⟩ := changeOwned_row hmark hrow hlocked
      have hsame : (Ending.deadLetter now code message projected).effect db c = db' := by
        refine commit_of_ok (a := true) ?_
        unfold Outbox.deadLetter
        rw [Tx.bind_query_ok, Tx.bind_demand_ok]
        refine ⟨e, he, ?_⟩
        rw [Tx.bind_demand_ok]
        refine ⟨run, hrun, ?_⟩
        rw [Tx.bind_query_ok, Tx.bind_demand_ok]
        refine ⟨status, hstatus, ?_⟩
        rw [Tx.bind_query_ok, Tx.bind_demand_ok]
        refine ⟨e, howned, ?_⟩
        rw [Tx.bind_check_ok]
        refine ⟨rfl, ?_⟩
        have hlast : (do
            let changed ← markDeadLetter c.eventId c.workerId (safeError code 100) (safeError message 1000)
            Tx.check (changed = true) .outboxLeaseLost
            pure true : OutboxTx Bool).run db₁ = .ok (true, db') :=
          Tx.bind_ok.mpr ⟨true, db', hmark, Tx.bind_check_ok.mpr ⟨rfl, rfl⟩⟩
        split
        · next hstart =>
            rw [if_pos hstart] at hfinish
            exact Tx.bind_ok.mpr ⟨(), db₁, hfinish, hlast⟩
        · next hstart =>
            rw [if_neg hstart] at hfinish
            obtain ⟨_, rfl⟩ := Tx.pure_ok.mp hfinish
            exact hlast
      rw [hsame]
      exact changeOwned_changes he hlocked EventStatus.noConfusion hrow hmark
  | finishEvent now => cases hfenced
  | registerEvent now frozen => cases hfenced
  | rejectEvent code => cases hfenced
  | saveEvent now terminal code delay => cases hfenced

end effects

/-! ### The claim that holds a row -/

/-- The claims and the rows agree: a row that is being processed is held by one of the claims, no claim is ahead of
its row, and a claim is known by its event and its count. -/
structure Leased (w : World) : Prop where
  held : ∀ k e, w.db.events.lookup k = some e → e.status = .processing →
    ∃ c ∈ w.claims, c.eventId = k ∧ c.attemptCount = e.attemptCount ∧ e.lockedBy = some c.workerId
  counted : ∀ c ∈ w.claims, ∃ e, w.db.events.lookup c.eventId = some e ∧ c.attemptCount ≤ e.attemptCount
  single : ∀ c ∈ w.claims, ∀ c' ∈ w.claims, c.eventId = c'.eventId → c.attemptCount = c'.attemptCount → c = c'

section leases

variable {w : World} {db' : OutboxStore} {now : Instant} {worker : String} {types : List EventType} {limit : ℕ}
  {skipped : Uuid → Bool}

/-- A step that gives out no claim keeps the agreement when the rows it moves are not being processed afterwards. -/
theorem Leased.touched {M : Uuid → OutboxEvent → OutboxEvent → Prop} (hw : Leased w) (h : Touches M w.db db')
    (hM : ∀ k e e', M k e e' → e'.status ≠ .processing ∧ e'.attemptCount = e.attemptCount) : Leased ⟨db', w.claims⟩ := by
  refine ⟨fun k e' he' hprocessing => ?_, fun c hc => ?_, hw.single⟩
  · cases he : w.db.events.lookup k with
    | none =>
        have he' : db'.events.lookup k = some e' := he'
        rw [(h.fresh k e' he he').1] at hprocessing
        cases hprocessing
    | some e =>
        obtain ⟨e₁, he₁, rfl | hmove⟩ := h.kept k e he
        · obtain rfl := Option.some.inj (he₁.symm.trans he')
          exact hw.held k _ he hprocessing
        · obtain rfl := Option.some.inj (he₁.symm.trans he')
          exact absurd hprocessing (hM k e _ hmove).1
  · obtain ⟨e, he, hle⟩ := hw.counted c hc
    obtain ⟨e', he', rfl | hmove⟩ := h.kept _ e he
    · exact ⟨e', he', hle⟩
    · refine ⟨e', he', ?_⟩
      rw [(hM _ e e' hmove).2]
      exact hle

theorem Moved.count {e' : OutboxEvent} (h : Moved e e') (hleft : e'.status ≠ .processing) :
    e'.attemptCount = e.attemptCount := by
  cases h with
  | claimed => exact absurd rfl hleft
  | _ => rfl

theorem ends_count {event : Uuid} {k : Uuid} {e' : OutboxEvent} (h : Ends event worker k e e') :
    e'.status ≠ .processing ∧ e'.attemptCount = e.attemptCount :=
  ⟨h.2.2.1, h.2.2.2.count h.2.2.1⟩

theorem recoverExpired_touches (now : Instant) (seconds : ℕ) (types : List EventType) :
    Tx.Keeps (Touches fun _ e e' => e.status = .processing ∧ e' = e.recover) (recover now seconds types) := by
  intro db n db' h
  unfold recover knownTypes recoverExpired at h
  rw [Tx.bind_check_ok, Tx.bind_query_ok, Tx.bind_update_ok] at h
  obtain ⟨_, rfl⟩ := Tx.pure_ok.mp h.2
  refine touches_updateWhere fun k e _ hp => ⟨?_, rfl⟩
  unfold OutboxEvent.expired at hp
  simp only [Bool.and_eq_true, decide_eq_true_eq] at hp
  exact hp.1.1

/-- What a batch took: pending rows, each claimed once more, and returned as they are now. -/
theorem claim_ok {db : OutboxStore} {rows : List (Uuid × OutboxEvent)}
    (h : (claim now worker types limit skipped).run db = .ok (rows, db')) :
    Touches (fun k e e' => k ∈ rows.map Prod.fst ∧ e.status = .pending ∧ e' = e.claim now worker) db db' ∧
      ∀ r ∈ rows, ∃ e, db.events.lookup r.1 = some e ∧ e.status = .pending ∧ r.2 = e.claim now worker ∧
        db'.events.lookup r.1 = some r.2 := by
  unfold claim knownTypes claimBatch at h
  rw [Tx.bind_check_ok, Tx.bind_query_ok, Tx.bind_update_ok] at h
  obtain ⟨rfl, rfl⟩ := Tx.query_ok.mp h.2
  have hpending : ∀ k e, db.events.lookup k = some e → k ∈ candidates now types limit skipped db → e.status = .pending := by
    intro k e he hk
    have hclaimable := (candidates_spec hk he).1
    unfold OutboxEvent.claimable at hclaimable
    simp only [Bool.and_eq_true, decide_eq_true_eq] at hclaimable
    exact hclaimable.1.1
  constructor
  · refine touches_updateWhere fun k e he hk => ?_
    rw [List.contains_iff_mem] at hk
    refine ⟨?_, hpending k e he hk, rfl⟩
    refine List.mem_map.mpr ⟨(k, e.claim now worker), List.mem_filterMap.mpr ⟨k, hk, ?_⟩, rfl⟩
    rw [Table.lookup_updateWhere, he]
    simp [hk]
  · intro r hr
    obtain ⟨k, hk, hrow⟩ := List.mem_filterMap.mp hr
    obtain ⟨e', he', rfl⟩ := Option.map_eq_some_iff.mp hrow
    have hlookup := he'
    rw [Table.lookup_updateWhere, Option.map_eq_some_iff] at he'
    obtain ⟨e, he, rfl⟩ := he'
    refine ⟨e, he, hpending k e he hk, ?_, hlookup⟩
    rw [if_pos (List.contains_iff_mem.mpr hk)]

theorem Leased.claimed (hw : Leased w) {rows : List (Uuid × OutboxEvent)}
    (h : (claim now worker types limit skipped).run w.db = .ok (rows, db')) :
    Leased ⟨db', w.claims ++ claimsOf worker rows⟩ := by
  obtain ⟨htouches, hrows⟩ := claim_ok h
  have hnew : ∀ c ∈ claimsOf worker rows, ∃ e, w.db.events.lookup c.eventId = some e ∧ c.workerId = worker ∧
      c.attemptCount = e.attemptCount + 1 ∧ db'.events.lookup c.eventId = some (e.claim now worker) := by
    intro c hc
    obtain ⟨r, hr, rfl⟩ := List.mem_map.mp hc
    obtain ⟨e, he, _, hclaimed, hlookup⟩ := hrows r hr
    rw [hclaimed] at hlookup
    exact ⟨e, he, rfl, by rw [hclaimed]; rfl, hlookup⟩
  -- an earlier claim is never ahead of its row, so it differs from the new ones
  have hfresh : ∀ c ∈ w.claims, ∀ c' ∈ claimsOf worker rows, c.eventId = c'.eventId → c.attemptCount ≠ c'.attemptCount := by
    intro c hc c' hc' hevent
    obtain ⟨e, he, hle⟩ := hw.counted c hc
    obtain ⟨e', he', _, hcount, _⟩ := hnew c' hc'
    rw [← hevent, he] at he'
    obtain rfl := Option.some.inj he'
    omega
  refine ⟨fun k e' he' hprocessing => ?_, fun c hc => ?_, fun c hc c' hc' hevent hcount => ?_⟩
  · cases he : w.db.events.lookup k with
    | none =>
        rw [(htouches.fresh k e' he he').1] at hprocessing
        cases hprocessing
    | some e =>
        obtain ⟨e₁, he₁, rfl | ⟨hk, _, rfl⟩⟩ := htouches.kept k e he
        · obtain rfl := Option.some.inj (he₁.symm.trans he')
          obtain ⟨c, hc, hheld⟩ := hw.held k _ he hprocessing
          exact ⟨c, List.mem_append_left _ hc, hheld⟩
        · obtain rfl := Option.some.inj (he₁.symm.trans he')
          obtain ⟨r, hr, rfl⟩ := List.mem_map.mp hk
          obtain ⟨_, _, _, _, hlookup⟩ := hrows r hr
          obtain hsame := Option.some.inj (hlookup.symm.trans he₁)
          refine ⟨⟨r.1, worker, r.2.attemptCount⟩, List.mem_append_right _ (List.mem_map.mpr ⟨r, hr, rfl⟩), rfl, ?_, rfl⟩
          rw [hsame]
  · rcases List.mem_append.mp hc with hc | hc
    · obtain ⟨e, he, hle⟩ := hw.counted c hc
      obtain ⟨e', he', rfl | ⟨_, _, rfl⟩⟩ := htouches.kept _ e he
      · exact ⟨e', he', hle⟩
      · exact ⟨_, he', Nat.le_succ_of_le hle⟩
    · obtain ⟨e, _, _, hcount, hlookup⟩ := hnew c hc
      exact ⟨_, hlookup, le_of_eq hcount⟩
  · rcases List.mem_append.mp hc with hc | hc
    · rcases List.mem_append.mp hc' with hc' | hc'
      · exact hw.single c hc c' hc' hevent hcount
      · exact absurd hcount (hfresh c hc c' hc' hevent)
    · rcases List.mem_append.mp hc' with hc' | hc'
      · exact absurd hcount.symm (hfresh c' hc' c hc hevent.symm)
      · obtain ⟨_, _, hworker, _⟩ := hnew c hc
        obtain ⟨_, _, hworker', _⟩ := hnew c' hc'
        cases c
        cases c'
        simp only at hevent hcount hworker hworker'
        subst hevent hcount hworker hworker'
        rfl

/-- **One step** keeps the agreement, and each row stays or moves. -/
theorem Leased.after (hw : Leased w) (a : Action) : Leased (w.after a) ∧ Touches (fun _ => Moved) w.db (w.after a).db := by
  cases a with
  | enqueue now e =>
      have henqueues := (enqueue_enqueues now e).commit w.db
      exact ⟨hw.touched henqueues fun _ _ _ hfalse => hfalse.elim, henqueues.mono fun _ _ _ hfalse => hfalse.elim⟩
  | claim now worker types limit skipped =>
      unfold World.after
      dsimp only
      cases hrun : (claim now worker types limit skipped).run w.db with
      | error e => exact ⟨hw, .of_events rfl⟩
      | ok p =>
          refine ⟨hw.claimed hrun, (claim_ok hrun).1.mono ?_⟩
          rintro k e e' ⟨_, hpending, rfl⟩
          exact .claimed now worker hpending
  | recover now seconds types =>
      have hrecovers := keeps_touches (recoverExpired_touches now seconds types w.db)
      refine ⟨hw.touched hrecovers ?_, hrecovers.mono ?_⟩
      · rintro k e e' ⟨_, rfl⟩
        exact ⟨EventStatus.noConfusion, rfl⟩
      · rintro k e e' ⟨hprocessing, rfl⟩
        exact .recovered hprocessing
  | ending i a =>
      unfold World.after
      dsimp only
      split
      · next c _ =>
          have htouches : Touches (Ends c.eventId c.workerId) w.db (a.effect w.db c) := a.effect_touches
          exact ⟨hw.touched htouches fun _ _ _ hends => ends_count hends, htouches.mono fun _ _ _ hends => hends.2.2.2⟩
      · exact ⟨hw, .of_events rfl⟩
  | runs runs => exact ⟨⟨hw.held, hw.counted, hw.single⟩, .of_events rfl⟩

theorem Leased.run (runs : Uuid → Uuid → Option RunStatus) (h : List Action) : Leased (World.run runs h) := by
  unfold World.run
  refine List.foldlRecOn h World.after ?_ fun w hw a _ => (hw.after a).1
  refine ⟨fun k e he => ?_, nofun, nofun⟩
  have he : (∅ : Table Uuid OutboxEvent).lookup k = some e := he
  rw [AList.lookup_empty] at he
  cases he

/-- A row that was acknowledged or put aside is final. -/
theorem Leased.final (hw : Leased w) {k : Uuid} (he : w.db.events.lookup k = some e)
    (hfinal : e.status = .processed ∨ e.status = .deadLetter) (h : List Action) :
    (h.foldl World.after w).db.events.lookup k = some e := by
  induction h generalizing w with
  | nil => exact he
  | cons a rest ih =>
      obtain ⟨hw', htouches⟩ := hw.after a
      refine ih hw' ?_
      obtain ⟨e', he', rfl | hmoved⟩ := htouches.kept k e he
      · exact he'
      · rcases hfinal with hfinal | hfinal <;> cases hmoved <;> rename_i hstatus <;> rw [hfinal] at hstatus <;> cases hstatus

end leases

/-! ### The laws -/

/-- An action that is not aliased is owned. -/
theorem owned_of_not_aliased {w : World} {a : Action} (h : ¬Aliased w a) : Owned w a := by
  cases a with
  | ending i a =>
      intro c hc hchanges
      obtain ⟨e, he, hlocked, hcompared⟩ := a.effect_locks hchanges
      obtain ⟨hprocessing, hworker⟩ := lockedFor_iff.mp hlocked
      refine ⟨e, he, hprocessing, ?_⟩
      by_contra hcount
      refine h ⟨Bool.eq_false_iff.mpr fun hfenced => hcount (hcompared hfenced), c, hc, ⟨e, he, hprocessing, hworker, hcount⟩, ?_⟩
      cases a with
      | deadLetter now code message projected =>
          by_contra hmissing
          refine hchanges (Tx.commit_rule (fun s => s = w.db) rfl fun b s hrun => ?_)
          obtain ⟨e', run, he', _, hrun', hfound, _⟩ := deadLetter_ok hrun
          exact (hmissing ⟨e', run, he', hrun', hfound⟩).elim
      | _ => trivial
  | _ => trivial

/-- The events an action inserts have new identifiers. -/
def Action.Fresh (w : World) : Action → Prop
  | .ending _ a => a.Fresh w.db
  | _ => True

theorem not_owned_of_aliased {w : World} {a : Action} (h : Aliased w a) (hfresh : a.Fresh w) : ¬Owned w a := by
  cases a with
  | ending i a =>
      obtain ⟨hfenced, c, hc, hreclaimed, hfinds⟩ := h
      intro howned
      obtain ⟨e, he, _, hcount⟩ := howned c hc (a.effect_aliased hfenced hreclaimed hfinds hfresh)
      obtain ⟨e', he', _, _, hne⟩ := hreclaimed
      obtain rfl := Option.some.inj (he.symm.trans he')
      exact hne hcount
  | _ => exact h.elim

/-- **Outbox lease ownership.** In every history without an aliased ending, an ending changes something only when its
claim holds the row, and an aliased ending does change the row of the later claim.  In every history whatever, a row
that is being processed is held by exactly one claim, each step leaves a row as it is or moves it from pending to
processing or from there to pending, processed or dead letter, and the last two are final. -/
theorem outbox_lease_ownership (runs : Uuid → Uuid → Option RunStatus) (h : List Action) :
    ((∀ before a after, h = before ++ a :: after → ¬Aliased (World.run runs before) a) →
      ∀ before a after, h = before ++ a :: after → Owned (World.run runs before) a) ∧
    (∀ a, a.Fresh (World.run runs h) → (Owned (World.run runs h) a ↔ ¬Aliased (World.run runs h) a)) ∧
    (∀ k e, (World.run runs h).db.events.lookup k = some e → e.status = .processing →
      ∃! c, c ∈ (World.run runs h).claims ∧ c.eventId = k ∧ c.attemptCount = e.attemptCount) ∧
    (∀ a k e, (World.run runs h).db.events.lookup k = some e →
      ∃ e', ((World.run runs h).after a).db.events.lookup k = some e' ∧ (e' = e ∨ Moved e e')) ∧
    ∀ k e, (World.run runs h).db.events.lookup k = some e → e.status = .processed ∨ e.status = .deadLetter →
      ∀ later, (World.run runs (h ++ later)).db.events.lookup k = some e := by
  have hw := Leased.run runs h
  refine ⟨fun hnever before a after hsplit => owned_of_not_aliased (hnever before a after hsplit),
    fun a hfresh => ⟨fun howned haliased => not_owned_of_aliased haliased hfresh howned, owned_of_not_aliased⟩,
    fun k e he hprocessing => ?_, fun a k e he => (hw.after a).2.kept k e he, fun k e he hfinal later => ?_⟩
  · obtain ⟨c, hc, hevent, hcount, _⟩ := hw.held k e he hprocessing
    refine ⟨c, ⟨hc, hevent, hcount⟩, ?_⟩
    rintro c' ⟨hc', hevent', hcount'⟩
    exact hw.single c' hc' c hc (hevent'.trans hevent.symm) (hcount'.trans hcount.symm)
  · unfold World.run at he ⊢
    rw [List.foldl_append]
    exact hw.final he hfinal later

/-- One event is claimed twice by one worker, and the slow consumer of the first claim acknowledges the second. -/
def reclaimedHistory : List Action :=
  [.enqueue 0 ⟨1, 1, .startRun, "start-run:7", some 3, some 7, none, ""⟩,
    .claim 0 "web-agent" webOutboxRecoveryEventTypes 10 fun _ => false,
    .recover 200000000 120 webOutboxRecoveryEventTypes,
    .claim 200000000 "web-agent" webOutboxRecoveryEventTypes 10 fun _ => false]

theorem stale_acknowledge : ¬∀ (runs : Uuid → Uuid → Option RunStatus) (h : List Action) (a : Action),
    Owned (World.run runs h) a := by
  intro hall
  have hclaims : (World.run (fun _ _ => none) reclaimedHistory).claims = [⟨1, "web-agent", 1⟩, ⟨1, "web-agent", 2⟩] := by
    decide +kernel
  have hchanges : Ending.effect (World.run (fun _ _ => none) reclaimedHistory).db ⟨1, "web-agent", 1⟩ (.markProcessed 200000001) ≠
      (World.run (fun _ _ => none) reclaimedHistory).db := by
    intro hsame
    have hrow := congrArg (fun db => (db.events.lookup 1).map OutboxEvent.status) hsame
    exact absurd hrow (by decide +kernel)
  obtain ⟨e, he, _, hcount⟩ := hall (fun _ _ => none) reclaimedHistory (.ending 0 (.markProcessed 200000001)) ⟨1, "web-agent", 1⟩
    (by rw [hclaims]; rfl) hchanges
  have hrow : ((World.run (fun _ _ => none) reclaimedHistory).db.events.lookup 1).map OutboxEvent.attemptCount = some 2 := by
    decide +kernel
  have he : (World.run (fun _ _ => none) reclaimedHistory).db.events.lookup 1 = some e := he
  rw [he] at hrow
  have hcount : e.attemptCount = 1 := hcount
  have htwo := Option.some.inj hrow
  omega

end HpAgent.Outbox
