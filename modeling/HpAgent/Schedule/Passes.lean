import HpAgent.Domain.Authority
import HpAgent.Library.Table
import HpAgent.Library.Triples
import HpAgent.Schedule.Timing

/-! # Schedule passes

The schedule of a Work is a projection of its timing: `syncSchedule` writes it whenever the Work changes, and a pass
(`processWorkSchedules`) first synchronises what was missed and then turns each due schedule into one occurrence.  An
occurrence is checked against its schedule (`occurrenceOf`), and one that does not match aborts the whole pass.

* `Sound`: a schedule that is enabled has a timing to evaluate, and the due instant of a `once` timing is its own.
* `occurrenceOf_accepts`: the instant a pass computes is accepted.
* `schedule_pass_accepts`: in every history of commands and passes.

A Work is held by one account, so `(account_id, work_id)` is the Work.  What `zoneinfo` and the ISO parsers of the
standard library make of a text is a parameter (`Readings`). -/

namespace HpAgent.Schedule

open Library

/-! ### Timings -/

inductive TimingKind where
  | immediate
  | once
  | daily
deriving DecidableEq, Repr

/-- `timing` of a requirement. -/
structure Timing where
  kind : TimingKind
  timezone : String
  localTime : Option String
  dueAt : Option String
  missedFirePolicy : Option String
deriving DecidableEq, Repr

/-- What texts mean: `ZoneInfo`, `time.fromisoformat`, `datetime.fromisoformat` and `isoformat`. -/
structure Readings where
  zone : String → Option Zone
  time : String → Option { t : ℤ // 0 ≤ t ∧ t < dayLength }
  instant : String → Option Instant
  isoformat : Instant → String

section timings

variable (r : Readings)

/-- The daily timing that `next_daily` and `latest_daily` read. -/
def Timing.daily (t : Timing) : Except Error DailyTiming :=
  match r.zone t.timezone with
  | none => .error (.lookupError ("No time zone found with key " ++ t.timezone))
  | some zone =>
      match t.localTime with
      | none => .error (.lookupError "'local_time'")
      | some text =>
          match r.time text with
          | none => .error (.valueError ("Invalid isoformat string: " ++ text))
          | some time => .ok ⟨zone, time.1, time.2.1, time.2.2⟩

/-- `datetime.fromisoformat(timing["due_at"])`. -/
def Timing.once (t : Timing) : Except Error Instant :=
  match t.dueAt with
  | none => .error (.lookupError "'due_at'")
  | some text =>
      match r.instant text with
      | none => .error (.valueError ("Invalid isoformat string: " ++ text))
      | some due => .ok due

/-- A search that found nothing raises. -/
def resolved : Option Instant → Except Error Instant
  | some value => .ok value
  | none => .error (.valueError "daily time has no resolvable occurrence")

def Timing.nextDaily (t : Timing) (after : Instant) : Except Error Instant := do
  let daily ← t.daily r
  resolved (Schedule.nextDaily daily after)

def Timing.latestDaily (t : Timing) (now : Instant) : Except Error Instant := do
  let daily ← t.daily r
  resolved (Schedule.latestDaily daily now)

end timings

/-! ### Rows -/

/-- `continuation.kind`. -/
inductive ContinuationKind where
  | ready | atTime | awaitingInput | awaitingDelivery | retryAfter | blocked | none
deriving DecidableEq, Repr

/-- What the schedule reads of `works`. -/
structure ScheduledWork where
  active : Bool
  currentRequirementRevision : ℕ
  continuation : ContinuationKind
  rowVersion : ℕ
deriving DecidableEq, Repr

/-- `work_schedules`. -/
structure WorkSchedule where
  scheduleId : Uuid
  requirementRevision : ℕ
  scheduleVersion : ℕ
  desiredEnabled : Bool
  appliedVersion : ℕ
  timing : Timing
  timezone : String
  nextDueAt : Option Instant
  lastEvaluatedAt : Option Instant
  sourceRowVersion : ℕ
deriving DecidableEq, Repr

variable {e : Error} {work : ScheduledWork} {s : WorkSchedule} {now scheduledFor : Instant}

/-- `work_schedule_occurrences` under its schedule, version and instant. -/
structure Occurrence where
  work : Uuid
  wakeupId : Option Uuid
  disposition : String
  reason : String
  missedFrom : Option Instant
deriving DecidableEq, Repr

/-- `work_wakeups` under their Work and trigger key. -/
structure Wakeup where
  wakeupId : Uuid
  kind : String
  expectedRevision : ℕ
  reason : String
  dueAt : String
  state : String
deriving DecidableEq, Repr

structure ScheduleStore where
  works : Table Uuid ScheduledWork
  requirements : Uuid → ℕ → Option Timing
  schedules : Table Uuid WorkSchedule
  occurrences : Table (Uuid × ℕ × Instant) Occurrence
  wakeups : Table (Uuid × String) Wakeup

abbrev ScheduleTx := Tx Error ScheduleStore

/-! ### Synchronisation -/

structure SchedulePlan where
  version : ℕ
  enabled : Bool
  dueAt : Option Instant
  needsDailyDue : Bool
deriving DecidableEq, Repr

section passes

variable (r : Readings)

/-- `plan_schedule`. -/
def planSchedule (work : ScheduledWork) (timing : Timing) (row : Option WorkSchedule) : Except Error SchedulePlan := do
  let enabled := work.active && timing.kind ≠ .immediate
  let changed := row.all fun s => s.timing ≠ timing || s.desiredEnabled ≠ enabled
  let version := match row with
    | some s => s.scheduleVersion + changed.toNat
    | none => 1
  let due := if changed then none else row.bind WorkSchedule.nextDueAt
  if enabled && changed then
    match timing.kind with
    | .once =>
        let instant ← timing.once r
        .ok ⟨version, enabled, if work.continuation = .awaitingDelivery then none else some instant, false⟩
    | _ => .ok ⟨version, enabled, due, true⟩
  else .ok ⟨version, enabled, due, false⟩

/-- `WorkScheduleRepository.upsert`; a row that is there keeps its identifier and what was applied and evaluated. -/
def upsert (fresh work : Uuid) (revision version : ℕ) (enabled : Bool) (timing : Timing) (due : Option Instant)
    (rowVersion : ℕ) (schedules : Table Uuid WorkSchedule) : Table Uuid WorkSchedule :=
  schedules.insert work (match schedules.lookup work with
    | some s => { s with
        requirementRevision := revision, scheduleVersion := version, desiredEnabled := enabled, timing := timing
        timezone := timing.timezone, nextDueAt := due, sourceRowVersion := rowVersion }
    | none => ⟨fresh, revision, version, enabled, 0, timing, timing.timezone, due, none, rowVersion⟩)

/-- `sync_schedule` with the requirement; `clock` is what the clock says. -/
def syncSchedule (fresh workId : Uuid) (work : ScheduledWork) (timing : Timing) (clock : Instant) : ScheduleTx Unit := do
  let row ← Tx.query fun db => db.schedules.lookup workId
  let plan ← Tx.ofExcept (planSchedule r work timing row)
  let due ← Tx.ofExcept (if plan.needsDailyDue then (timing.nextDaily r clock).map some else .ok plan.dueAt)
  Tx.update fun db => { db with
    schedules := upsert fresh workId work.currentRequirementRevision plan.version plan.enabled timing due work.rowVersion
      db.schedules }

/-- The requirement of the current revision. -/
def requirementOf (workId : Uuid) (work : ScheduledWork) : ScheduleTx Timing := do
  let found ← Tx.query fun db => db.requirements workId work.currentRequirementRevision
  Tx.demand found .resourceNotFound

/-! ### Occurrences -/

/-- The instant that the schedule expects for an occurrence at `scheduledFor`. -/
def Timing.expected (t : Timing) (scheduledFor : Instant) : Except Error Instant :=
  match t.kind with
  | .once => t.once r
  | _ => t.latestDaily r scheduledFor

/-- `WakeupRepository.skip_pending_due`. -/
def skipPendingDue (work : Uuid) (wakeups : Table (Uuid × String) Wakeup) : Table (Uuid × String) Wakeup :=
  Table.updateWhere (fun k w => k.1 = work && (w.kind = "due" && w.state = "pending")) (fun w => { w with state := "skipped" })
    wakeups

/-- `WakeupRepository.enqueue`: the wakeup under the key, which is there or new. -/
def enqueue (fresh workId : Uuid) (work : ScheduledWork) (key kind reason dueAt : String) : ScheduleTx Uuid := do
  let found ← Tx.query fun db => db.wakeups.lookup (workId, key)
  match found with
  | some w => do
      Tx.check (w.expectedRevision = work.currentRequirementRevision ∧ w.kind = kind ∧ w.reason = reason)
        (.applicationError "idempotency_conflict")
      pure w.wakeupId
  | none => do
      Tx.update fun db => { db with
        wakeups := db.wakeups.insert (workId, key) ⟨fresh, kind, work.currentRequirementRevision, reason, dueAt, "pending"⟩ }
      pure fresh

/-- The trigger key of an occurrence. -/
def triggerKey (scheduleId : Uuid) (version : ℕ) (scheduledFor : Instant) : String :=
  s!"schedule:{scheduleId}:{version}:{r.isoformat scheduledFor}"

/-- The wakeup of a valid occurrence; a daily catch-up keeps at most the newest pending one. -/
def wakeFor (fresh workId : Uuid) (work : ScheduledWork) (s : WorkSchedule) (version : ℕ) (scheduledFor : Instant) :
    ScheduleTx Uuid := do
  Tx.update fun db => { db with
    wakeups := if s.timing.kind = .daily then skipPendingDue workId db.wakeups else db.wakeups }
  enqueue fresh workId work (triggerKey r s.scheduleId version scheduledFor) "due" "scheduled_occurrence"
    (r.isoformat scheduledFor)

/-- What a valid occurrence leaves behind: the next due instant, and a Work that waited for time is ready. -/
def advance (workId : Uuid) (work : ScheduledWork) (s : WorkSchedule) (now : Instant) : ScheduleTx Unit := do
  let due ← Tx.ofExcept (if s.timing.kind = .daily then (s.timing.nextDaily r now).map some else .ok none)
  Tx.update fun db => { db with
    schedules := Table.modify workId (fun s => { s with nextDueAt := due, lastEvaluatedAt := some now }) db.schedules }
  if work.continuation = .ready ∨ work.continuation = .atTime then
    Tx.update fun db => { db with
      works := Table.modify workId (fun w => { w with continuation := .ready, rowVersion := w.rowVersion + 1 }) db.works }
  else pure ()

/-- `_occurrence`. -/
def occurrenceOf (fresh workId : Uuid) (work : ScheduledWork) (s : WorkSchedule) (version : ℕ) (scheduledFor now : Instant)
    (missedFrom : Option Instant) : ScheduleTx Occurrence := do
  let prior ← Tx.query fun db => db.occurrences.lookup (s.scheduleId, version, scheduledFor)
  match prior with
  | some row => pure row
  | none =>
      if s.desiredEnabled = true ∧ s.scheduleVersion = version ∧ work.active = true then do
        let expected ← Tx.ofExcept (s.timing.expected r scheduledFor)
        Tx.check (expected = scheduledFor) (.valueError "occurrence does not match schedule")
        let wakeup ← wakeFor r fresh workId work s version scheduledFor
        let row : Occurrence := ⟨workId, some wakeup, "pending", "due", missedFrom⟩
        Tx.update fun db => { db with occurrences := db.occurrences.insert (s.scheduleId, version, scheduledFor) row }
        advance r workId work s now
        pure row
      else do
        let row : Occurrence := ⟨workId, none, "skipped", "disabled_or_superseded", missedFrom⟩
        Tx.update fun db => { db with occurrences := db.occurrences.insert (s.scheduleId, version, scheduledFor) row }
        pure row

/-- `ProcessWorkSchedules.occurrence`, the callback. -/
def occurrence (fresh workId : Uuid) (version : ℕ) (scheduledFor : DateTime) (now : Instant) : ScheduleTx Occurrence := do
  Tx.check (scheduledFor.aware = true ∧ scheduledFor.instant ≤ now)
    (.valueError "occurrence must be an aware due UTC instant")
  let found ← Tx.query fun db => db.works.lookup workId
  let work ← Tx.demand found .resourceNotFound
  let schedule ← Tx.query fun db => db.schedules.lookup workId
  let s ← Tx.demand schedule (.valueError "schedule unavailable")
  occurrenceOf r fresh workId work s version scheduledFor.instant now none

/-! ### The pass -/

/-- What is read from outside during a pass: fresh identifiers, the clock, and the rows that others hold locked. -/
structure PassInputs where
  limit : ℕ
  now : Instant
  fresh : Uuid → Uuid
  clock : Uuid → Instant
  locked : Uuid → Bool

/-- `lock_unsynchronized`. -/
def unsynchronized (db : ScheduleStore) (p : PassInputs) : List (Uuid × ScheduledWork) :=
  let missing := db.works.entries.filter fun e => match db.schedules.lookup e.1 with
    | none => true
    | some s => s.sourceRowVersion ≠ e.2.rowVersion || s.appliedVersion ≠ s.scheduleVersion
  (((missing.filter fun e => !p.locked e.1).mergeSort fun a b => a.1 ≤ b.1).take p.limit).map fun e => (e.1, e.2)

/-- `lock_due`. -/
def dueWorks (db : ScheduleStore) (p : PassInputs) : List (Uuid × ScheduledWork) :=
  let due := db.works.entries.filterMap fun e => (db.schedules.lookup e.1).bind fun s =>
    s.nextDueAt.bind fun due => if s.desiredEnabled = true ∧ due ≤ p.now then some (due, e.1, e.2) else none
  (((due.filter fun e => !p.locked e.2.1).mergeSort fun a b => a.1 ≤ b.1).take p.limit).map Prod.snd

/-- One Work that was not synchronised. -/
def synchronise (p : PassInputs) (e : Uuid × ScheduledWork) : ScheduleTx Unit := do
  let timing ← requirementOf e.1 e.2
  syncSchedule r (p.fresh e.1) e.1 e.2 timing (p.clock e.1)
  Tx.update fun db => { db with
    schedules := Table.modify e.1 (fun s => { s with appliedVersion := s.scheduleVersion }) db.schedules }

/-- The instant that a pass computes for a due schedule. -/
def WorkSchedule.latest (s : WorkSchedule) (due now : Instant) : Except Error Instant :=
  if s.timing.kind = .daily then s.timing.latestDaily r now else .ok due

/-- One due Work. -/
def evaluate (p : PassInputs) (e : Uuid × ScheduledWork) : ScheduleTx Unit := do
  let found ← Tx.query fun db => db.schedules.lookup e.1
  let s ← Tx.demand found .typeError
  let due ← Tx.demand s.nextDueAt .typeError
  let latest ← Tx.ofExcept (s.latest r due p.now)
  let _ ← occurrenceOf r (p.fresh e.1) e.1 e.2 s s.scheduleVersion latest p.now (if due < latest then some due else none)
  pure ()

/-- `execute`, without the dispatch of the wakeups, which is a transaction of its own. -/
def processWorkSchedules (p : PassInputs) : ScheduleTx Unit := do
  let missed ← Tx.query fun db => unsynchronized db p
  let _ ← missed.foldlM (fun _ e => synchronise r p e) ()
  let due ← Tx.query fun db => dueWorks db p
  due.foldlM (fun _ e => evaluate r p e) ()

/-! ### Histories -/

/-- One committed transaction: Works and requirements as commands leave them, the synchronisation that a command makes with
the requirement of its Work, a pass, or a callback. -/
inductive Event where
  | command (works : Table Uuid ScheduledWork) (requirements : Uuid → ℕ → Option Timing)
  | synchronised (fresh workId : Uuid) (work : ScheduledWork) (timing : Timing) (clock : Instant)
  | pass (p : PassInputs)
  | callback (fresh workId : Uuid) (version : ℕ) (scheduledFor : DateTime) (now : Instant)

def ScheduleStore.after (db : ScheduleStore) : Event → ScheduleStore
  | .command works requirements => { db with works := works, requirements := requirements }
  | .synchronised fresh workId work timing clock => (syncSchedule r fresh workId work timing clock).commit db
  | .pass p => (processWorkSchedules r p).commit db
  | .callback fresh workId version scheduledFor now => (occurrence r fresh workId version scheduledFor now).commit db

/-- A history that starts without schedules. -/
def ScheduleStore.run (db : ScheduleStore) (events : List Event) : ScheduleStore :=
  events.foldl (ScheduleStore.after r) { db with schedules := ∅, occurrences := ∅, wakeups := ∅ }

end passes

/-! ### Schedules that are sound -/

section laws

variable {r : Readings} {E : Error → Prop}

/-- The error of an occurrence that its schedule does not expect. -/
def mismatch : Error := .valueError "occurrence does not match schedule"

/-- An enabled schedule has a timing to evaluate, and the due instant of a `once` timing is its own. -/
def WorkSchedule.Sound (r : Readings) (s : WorkSchedule) : Prop :=
  s.desiredEnabled = true → s.timing.kind ≠ .immediate ∧
    ∀ due, s.nextDueAt = some due → s.timing.kind = .once → s.timing.once r = .ok due

def ScheduleStore.Sound (r : Readings) (db : ScheduleStore) : Prop :=
  ∀ workId s, db.schedules.lookup workId = some s → s.Sound r

theorem isoformat_ne (text : String) : Error.valueError ("Invalid isoformat string: " ++ text) ≠ mismatch := by
  intro h
  have hhead := congrArg (fun s : String => s.toList.head?) (Error.valueError.inj h)
  simp at hhead

theorem once_error {t : Timing} (h : t.once r = .error e) : e ≠ mismatch := by
  unfold Timing.once at h
  split at h
  · obtain rfl := Except.error.inj h
    exact nofun
  · split at h
    · obtain rfl := Except.error.inj h
      exact isoformat_ne _
    · cases h

theorem daily_error {t : Timing} (h : t.daily r = .error e) : e ≠ mismatch := by
  unfold Timing.daily at h
  split at h
  · obtain rfl := Except.error.inj h
    exact nofun
  · split at h
    · obtain rfl := Except.error.inj h
      exact nofun
    · split at h
      · obtain rfl := Except.error.inj h
        exact isoformat_ne _
      · cases h

theorem resolved_error {o : Option Instant} (h : resolved o = .error e) : e ≠ mismatch := by
  cases o with
  | some value => cases h
  | none =>
      obtain rfl := Except.error.inj h
      decide

theorem nextDaily_error {t : Timing} {after : Instant} (h : t.nextDaily r after = .error e) : e ≠ mismatch :=
  Tx.RaisesOnly.of_bind (E := (· ≠ mismatch)) h (fun _ => daily_error) fun _ _ => resolved_error

theorem latestDaily_error {t : Timing} (h : t.latestDaily r now = .error e) : e ≠ mismatch :=
  Tx.RaisesOnly.of_bind (E := (· ≠ mismatch)) h (fun _ => daily_error) fun _ _ => resolved_error

theorem expected_error {t : Timing} (h : t.expected r scheduledFor = .error e) :
    e ≠ mismatch := by
  unfold Timing.expected at h
  split at h
  · exact once_error h
  · exact latestDaily_error h

theorem map_error {x : Except Error Instant} (h : x.map some = .error e) : x = .error e := by
  cases x with
  | ok a => cases h
  | error e' => exact congrArg _ (Except.error.inj h)

/-- The plan of a sound schedule is sound. -/
theorem planSchedule_ok {timing : Timing} {row : Option WorkSchedule} {plan : SchedulePlan}
    (hrow : ∀ s, row = some s → s.Sound r) (h : planSchedule r work timing row = .ok plan) (henabled : plan.enabled = true) :
    timing.kind ≠ .immediate ∧ (timing.kind = .once → plan.needsDailyDue = false ∧
      ∀ due, plan.dueAt = some due → timing.once r = .ok due) := by
  unfold planSchedule at h
  dsimp only at h
  generalize hwanted : (work.active && timing.kind ≠ .immediate) = wanted at h
  generalize hchanged : (row.all fun s => s.timing ≠ timing || s.desiredEnabled ≠ wanted) = changed at h
  have hkind : wanted = true → timing.kind ≠ .immediate := by
    rintro rfl
    exact of_decide_eq_true (Bool.and_eq_true_iff.mp hwanted).2
  split at h
  · next hplanned =>
      obtain ⟨rfl, rfl⟩ := Bool.and_eq_true_iff.mp hplanned
      split at h
      · next honce =>
          cases hinstant : timing.once r with
          | error e =>
              rw [hinstant] at h
              cases h
          | ok instant =>
              rw [hinstant] at h
              obtain rfl := Except.ok.inj h
              refine ⟨hkind rfl, fun _ => ⟨rfl, fun due hdue => ?_⟩⟩
              dsimp only at hdue
              split at hdue
              · cases hdue
              · exact congrArg _ (Option.some.inj hdue)
      · next honce =>
          obtain rfl := Except.ok.inj h
          exact ⟨hkind rfl, fun hkind => absurd hkind honce⟩
  · next hplanned =>
      obtain rfl := Except.ok.inj h
      have henabled : wanted = true := henabled
      subst henabled
      refine ⟨hkind rfl, fun honce => ⟨rfl, fun due hdue => ?_⟩⟩
      dsimp only at hdue
      have hsame : changed = false := by simpa using hplanned
      rw [hsame] at hdue hchanged
      -- the row that is kept has this timing and is enabled
      cases row with
      | none => cases hdue
      | some s =>
          have hkept : s.timing = timing ∧ s.desiredEnabled = true := by simpa using hchanged
          obtain ⟨rfl, hs⟩ := hkept
          exact (hrow s rfl hs).2 due hdue honce

/-- **Synchronisation** keeps the schedules sound. -/
theorem syncSchedule_sound (fresh workId : Uuid) (work : ScheduledWork) (timing : Timing) (clock : Instant) :
    Tx.Triple (ScheduleStore.Sound r) (syncSchedule r fresh workId work timing clock) (fun _ => ScheduleStore.Sound r)
      (· ≠ mismatch) := by
  unfold syncSchedule
  refine .bind (.query _) fun row => .bind (.ofExcept fun e he => ?_) fun plan => .bind (.ofExcept fun e he => ?_)
    fun due => .update fun db hdb => ?_
  · unfold planSchedule at he
    dsimp only at he
    split at he
    · split at he
      · exact Tx.RaisesOnly.of_bind (E := (· ≠ mismatch)) he (fun _ => once_error) fun _ _ h => nomatch h
      · cases he
    · cases he
  · split at he
    · exact nextDaily_error (map_error he)
    · cases he
  · obtain ⟨⟨⟨hsound, rfl⟩, hplan⟩, hdue⟩ := hdb
    intro other s hs
    have hs : (upsert fresh workId work.currentRequirementRevision plan.version plan.enabled timing due work.rowVersion
      db.schedules).lookup other = some s := hs
    unfold upsert at hs
    rw [Table.lookup_insert_ite] at hs
    split at hs
    · have hnew : s.desiredEnabled = plan.enabled ∧ s.timing = timing ∧ s.nextDueAt = due := by
        obtain rfl := Option.some.inj hs
        cases db.schedules.lookup workId <;> exact ⟨rfl, rfl, rfl⟩
      obtain ⟨henabled, rfl, rfl⟩ := hnew
      intro hon
      obtain ⟨hkind, honce⟩ := planSchedule_ok (fun s hs => hsound workId s hs) hplan (henabled.symm.trans hon)
      refine ⟨hkind, fun value hvalue hk => ?_⟩
      obtain ⟨hneeds, hdueAt⟩ := honce hk
      rw [hneeds] at hdue
      have hdue : plan.dueAt = s.nextDueAt := Except.ok.inj hdue
      exact hdueAt value (hdue.trans hvalue)
    · exact hsound other s hs

/-- Other columns of the schedules do not matter. -/
theorem ScheduleStore.Sound.modify {db db' : ScheduleStore} (h : db.Sound r) {workId : Uuid} {f : WorkSchedule → WorkSchedule}
    (hf : ∀ s, db.schedules.lookup workId = some s → s.Sound r → (f s).Sound r)
    (hdb : db'.schedules = Table.modify workId f db.schedules) : db'.Sound r := by
  intro other s hs
  rw [hdb, Table.lookup_modify] at hs
  split at hs
  · next hother =>
      obtain ⟨before, hbefore, rfl⟩ := Option.map_eq_some_iff.mp hs
      exact hf before hbefore (h workId before hbefore)
  · exact h other s hs

/-- The schedule of a Work that is sound, in a store that is. -/
def Holds (r : Readings) (workId : Uuid) (s : WorkSchedule) (db : ScheduleStore) : Prop :=
  db.Sound r ∧ db.schedules.lookup workId = some s

theorem enqueue_holds {held workId fresh : Uuid} {key kind reason dueAt : String}
    (hE : ∀ e, e ≠ mismatch → E e) :
    Tx.Triple (Holds r held s) (enqueue fresh workId work key kind reason dueAt) (fun _ => Holds r held s) E := by
  unfold enqueue
  refine .bind (.query _) fun found => ?_
  cases found with
  | some w => exact .bind (.check fun _ => hE _ nofun) fun _ => .pure fun db hdb => hdb.1.1
  | none => exact .bind (.update fun db hdb => hdb.1) fun _ => .pure fun db hdb => hdb

theorem wakeFor_holds {fresh workId : Uuid} {version : ℕ}
    (hE : ∀ e, e ≠ mismatch → E e) :
    Tx.Triple (Holds r workId s) (wakeFor r fresh workId work s version scheduledFor) (fun _ => Holds r workId s) E := by
  unfold wakeFor
  exact .bind (.update fun db hdb => hdb) fun _ => enqueue_holds hE

theorem advance_sound {workId : Uuid}
    (hE : ∀ e, e ≠ mismatch → E e) :
    Tx.Triple (Holds r workId s) (advance r workId work s now) (fun _ => ScheduleStore.Sound r) E := by
  unfold advance
  refine .bind (.ofExcept fun e he => hE e ?_) fun due => .bind (P := _) (Q := fun _ => ScheduleStore.Sound r)
    (.update fun db hdb => ?_) fun _ => ?_
  · split at he
    · exact nextDaily_error (map_error he)
    · cases he
  · obtain ⟨⟨hsound, hheld⟩, hdue⟩ := hdb
    refine hsound.modify (fun before hbefore hs hon => ?_) rfl
    obtain rfl := Option.some.inj (hheld.symm.trans hbefore)
    refine ⟨(hs hon).1, fun value hvalue honce => ?_⟩
    have hvalue : due = some value := hvalue
    have honce : s.timing.kind = .once := honce
    rw [if_neg (by rw [honce]; decide)] at hdue
    obtain rfl := Except.ok.inj hdue
    cases hvalue
  · split
    · exact .update fun db hdb => hdb
    · exact .pure fun db hdb => hdb

/-- **One occurrence** keeps the schedules sound, and raises a mismatch only when its schedule is enabled and expects
another instant. -/
theorem occurrenceOf_sound {fresh workId : Uuid} {version : ℕ}
    {missedFrom : Option Instant} (hE : ∀ e, e ≠ mismatch → E e)
    (hmismatch : s.desiredEnabled = true → ∀ expected, s.timing.expected r scheduledFor = .ok expected →
      expected ≠ scheduledFor → E mismatch) :
    Tx.Triple (Holds r workId s) (occurrenceOf r fresh workId work s version scheduledFor now missedFrom)
      (fun _ => ScheduleStore.Sound r) E := by
  unfold occurrenceOf
  refine .bind (.query _) fun prior => ?_
  cases prior with
  | some row => exact .pure fun db hdb => hdb.1.1
  | none =>
      dsimp only
      split
      · next hvalid =>
          refine .bind (.ofExcept fun e he => hE e (expected_error he)) fun expected =>
            .fact (fun db hdb => hdb.2) fun hexpected => ?_
          refine .bind (.check fun hne => hmismatch hvalid.1 expected hexpected hne) fun _ => ?_
          refine .bind (Q := fun _ => Holds r workId s) (.mono (wakeFor_holds hE) (fun db hdb => hdb.1.1.1) fun _ _ h => h)
            fun wakeup => ?_
          refine .bind (Q := fun _ => Holds r workId s) (.update fun db hdb => hdb) fun _ => ?_
          exact .bind (advance_sound hE) fun _ => .pure fun db hdb => hdb
      · exact .bind (.update fun db hdb => hdb.1.1) fun _ => .pure fun db hdb => hdb

/-- At the instant that a pass computes for an enabled schedule, the schedule expects that instant. -/
theorem expected_latest {due latest : Instant} (hs : s.Sound r) (henabled : s.desiredEnabled = true)
    (hdue : s.nextDueAt = some due) (h : s.latest r due now = .ok latest) : s.timing.expected r latest = .ok latest := by
  obtain ⟨hkind, honce⟩ := hs henabled
  unfold WorkSchedule.latest at h
  unfold Timing.expected
  split at h
  · next hdaily =>
      rw [hdaily]
      dsimp only
      unfold Timing.latestDaily at h ⊢
      cases htiming : s.timing.daily r with
      | error e =>
          rw [htiming] at h
          cases h
      | ok timing =>
          rw [htiming] at h
          cases hlatest : Schedule.latestDaily timing now with
          | none =>
              have h : resolved (Schedule.latestDaily timing now) = .ok latest := h
              rw [hlatest] at h
              cases h
          | some value =>
              have h : resolved (Schedule.latestDaily timing now) = .ok latest := h
              rw [hlatest] at h
              obtain rfl := Except.ok.inj h
              -- the latest occurrence is the latest at itself
              show resolved (Schedule.latestDaily timing value) = .ok value
              rw [latestDaily_self (occurs_of_latestDaily hlatest)]
              rfl
  · next hnot =>
      obtain rfl := Except.ok.inj h
      cases hcase : s.timing.kind with
      | immediate => exact absurd hcase hkind
      | once => exact honce due hdue hcase
      | daily => exact absurd hcase hnot

/-- Where the time is shown on one of any three consecutive days, there is a latest occurrence. -/
theorem latestDaily_total {timing : DailyTiming} (hz : timing.zone.Steady)
    (hshown : ∀ day, ∃ k : ℕ, k < 3 ∧ dailyOn (day - k) timing ≠ none) (now : Instant) :
    ∃ latest, Schedule.latestDaily timing now = some latest := by
  refine Option.ne_none_iff_exists'.mp fun hnone => ?_
  obtain ⟨k, hk, hday⟩ := hshown (timing.zone.date now - 1)
  obtain ⟨u, hu⟩ := Option.ne_none_iff_exists'.mp hday
  have hsame : timing.zone.date now - 1 - (k : ℤ) = timing.zone.date now - ((k + 1 : ℕ) : ℤ) := by omega
  rw [hsame] at hu
  have hlt := latestDaily_none.mp hnone (k + 1) (by omega) u hu
  have hdate := date_le_of_lt hz hu hlt
  omega

/-- **One due Work** of a pass. -/
theorem evaluate_sound (p : PassInputs) (e : Uuid × ScheduledWork) :
    Tx.Triple (ScheduleStore.Sound r) (evaluate r p e) (fun _ => ScheduleStore.Sound r) (· ≠ mismatch) := by
  unfold evaluate
  refine .bind (.query _) fun found => .bind (.demand fun _ => nofun) fun s => .bind (.demand fun _ => nofun) fun due =>
    .bind (.ofExcept fun e he => ?_) fun latest => ?_
  · unfold WorkSchedule.latest at he
    split at he
    · exact latestDaily_error he
    · cases he
  · have hheld : ∀ db, ((((ScheduleStore.Sound r db ∧ found = db.schedules.lookup e.1) ∧ found = some s) ∧
        s.nextDueAt = some due) ∧ s.latest r due p.now = .ok latest) → Holds r e.1 s db := by
      rintro db ⟨⟨⟨⟨hsound, rfl⟩, hs⟩, _⟩, _⟩
      exact ⟨hsound, hs⟩
    refine .fact (c := s.Sound r ∧ s.nextDueAt = some due ∧ s.latest r due p.now = .ok latest) (fun db hdb => ?_) fun hs => ?_
    · obtain ⟨hsound, hlookup⟩ := hheld db hdb
      exact ⟨hsound e.1 s hlookup, hdb.1.2, hdb.2⟩
    · refine .bind (.mono (occurrenceOf_sound (fun _ h => h) fun henabled expected hexpected hne => ?_) hheld fun _ _ h => h)
        fun _ => .pure fun db hdb => hdb
      have haccepted := expected_latest hs.1 henabled hs.2.1 hs.2.2
      exact absurd (Except.ok.inj (hexpected.symm.trans haccepted)) hne

theorem synchronise_sound (p : PassInputs) (e : Uuid × ScheduledWork) :
    Tx.Triple (ScheduleStore.Sound r) (synchronise r p e) (fun _ => ScheduleStore.Sound r) (· ≠ mismatch) := by
  unfold synchronise requirementOf
  refine .bind (Q := fun _ => ScheduleStore.Sound r) ?_ fun timing => .bind (syncSchedule_sound _ _ _ _ _) fun _ =>
    .update fun db hdb => hdb.modify (f := fun s => { s with appliedVersion := s.scheduleVersion }) (fun s _ hs => hs) rfl
  exact .bind (.query _) fun found => .mono (.demand fun _ => nofun) (fun _ h => h) fun _ _ h => h.1.1

/-- **One pass** keeps the schedules sound and raises no mismatch. -/
theorem processWorkSchedules_sound (p : PassInputs) :
    Tx.Triple (ScheduleStore.Sound r) (processWorkSchedules r p) (fun _ => ScheduleStore.Sound r) (· ≠ mismatch) := by
  unfold processWorkSchedules
  refine .bind (.query _) fun missed => .bind (Q := fun _ => ScheduleStore.Sound r) ?_ fun _ => .bind (.query _) fun due => ?_
  · exact .mono (.foldlM (fun _ e _ => synchronise_sound p e) _) (fun _ h => h.1) fun _ _ h => h
  · exact .mono (.foldlM (fun _ e _ => evaluate_sound p e) _) (fun _ h => h.1) fun _ _ h => h

theorem occurrence_sound (fresh workId : Uuid) (version : ℕ) (scheduledFor : DateTime) (now : Instant) :
    Tx.Triple (ScheduleStore.Sound r) (occurrence r fresh workId version scheduledFor now)
      (fun _ => ScheduleStore.Sound r) (fun _ => True) := by
  unfold occurrence
  refine .bind (.check fun _ => trivial) fun _ => .bind (.query _) fun found => .bind (.demand fun _ => trivial) fun work =>
    .bind (.query _) fun schedule => .bind (.demand fun _ => trivial) fun s => ?_
  refine .mono (occurrenceOf_sound (fun _ _ => trivial) fun _ _ _ _ => trivial) ?_ fun _ _ h => h
  rintro db ⟨⟨⟨⟨⟨hsound, _⟩, _⟩, _⟩, rfl⟩, hs⟩
  exact ⟨hsound, hs⟩

/-- **One event** keeps the schedules sound. -/
theorem ScheduleStore.Sound.after {db : ScheduleStore} (h : db.Sound r) (event : Event) : (db.after r event).Sound r := by
  cases event with
  | command works requirements => exact h
  | synchronised fresh workId work timing clock => exact (syncSchedule_sound fresh workId work timing clock).commit h
  | pass p => exact (processWorkSchedules_sound p).commit h
  | callback fresh workId version scheduledFor now => exact (occurrence_sound fresh workId version scheduledFor now).commit h

theorem ScheduleStore.Sound.run (db : ScheduleStore) (events : List Event) : (ScheduleStore.run r db events).Sound r := by
  unfold ScheduleStore.run
  refine List.foldlRecOn events (ScheduleStore.after r) ?_ fun _ h event _ => h.after event
  intro workId s hs
  have hs : (∅ : Table Uuid WorkSchedule).lookup workId = some s := hs
  rw [AList.lookup_empty] at hs
  cases hs

/-- **A pass never poisons itself.**  In every history of commands, passes and callbacks, whatever the zones are: a pass
raises no mismatch of an occurrence with its schedule, and for every enabled schedule that has a due instant, the instant
that the pass computes at any time is the one that the check expects.  A search that finds no instant is the only way in
which nothing is computed for it: when the clock of the zone goes back only over times it has shown, and the time is shown
on one of any three consecutive days, the pass computes an instant. -/
theorem schedule_pass_accepts (r : Readings) (db : ScheduleStore) (events : List Event) :
    (∀ p, (processWorkSchedules r p).run (ScheduleStore.run r db events) ≠
      .error (.valueError "occurrence does not match schedule")) ∧
    ∀ workId s due now, (ScheduleStore.run r db events).schedules.lookup workId = some s → s.desiredEnabled = true →
      s.nextDueAt = some due →
        (∀ latest, s.latest r due now = .ok latest → s.timing.expected r latest = .ok latest) ∧
        (s.timing.kind = .daily → ∀ timing, s.timing.daily r = .ok timing → timing.zone.Steady →
          (∀ day, ∃ k : ℕ, k < 3 ∧ dailyOn (day - k) timing ≠ none) → ∃ latest, s.latest r due now = .ok latest) ∧
        (s.timing.kind ≠ .daily → s.latest r due now = .ok due) := by
  have hsound : (ScheduleStore.run r db events).Sound r := .run db events
  refine ⟨fun p h => (processWorkSchedules_sound p _ hsound).1 _ h rfl, fun workId s due now hs henabled hdue => ⟨?_, ?_, ?_⟩⟩
  · exact fun latest => expected_latest (hsound workId s hs) henabled hdue
  · intro hdaily timing htiming hz hshown
    obtain ⟨latest, hlatest⟩ := latestDaily_total hz hshown now
    refine ⟨latest, ?_⟩
    unfold WorkSchedule.latest Timing.latestDaily
    rw [if_pos hdaily, htiming]
    show resolved (Schedule.latestDaily timing now) = .ok latest
    rw [hlatest]
    rfl
  · intro hdaily
    unfold WorkSchedule.latest
    rw [if_neg hdaily]

end laws

/-! ### A given schedule -/

section given

/-- A zone without transitions, one time of the day and one instant. -/
def givenReadings : Readings where
  zone _ := some (.shift 0 0 0 (by decide) (by decide))
  time text := if text = "08:00" then some ⟨hoursMinutes 8 0, by decide⟩ else none
  instant _ := none
  isoformat u := toString u

/-- Every day at eight. -/
def givenTiming : Timing := ⟨.daily, "UTC", some "08:00", none, some "latest"⟩

/-- The schedule that the synchronisation at noon of the first day leaves. -/
def givenSchedule : WorkSchedule :=
  ⟨9, 1, 1, true, 0, givenTiming, "UTC", some (instant 1 8 0), none, 1⟩

/-- A Work that is synchronised at noon. -/
def givenHistory : List Event :=
  [.command ((∅ : Table Uuid ScheduledWork).insert 5 ⟨true, 1, .atTime, 1⟩) fun _ _ => some givenTiming,
    .synchronised 9 5 ⟨true, 1, .atTime, 1⟩ givenTiming (instant 0 12 0)]

/-- A store without rows. -/
def emptySchedules : ScheduleStore := ⟨∅, fun _ _ => none, ∅, ∅, ∅⟩

/-- Two days late, the pass computes the occurrence of that day, and it is accepted. -/
theorem schedule_pass_accepts_late :
    givenSchedule.latest givenReadings (instant 1 8 0) (instant 3 9 0) = .ok (instant 3 8 0) ∧
      givenTiming.expected givenReadings (instant 3 8 0) = .ok (instant 3 8 0) := by
  have hlatest : givenSchedule.latest givenReadings (instant 1 8 0) (instant 3 9 0) = .ok (instant 3 8 0) := by decide +kernel
  have hrow : (ScheduleStore.run givenReadings emptySchedules givenHistory).schedules.lookup 5 = some givenSchedule := by
    decide +kernel
  exact ⟨hlatest, ((schedule_pass_accepts givenReadings emptySchedules givenHistory).2 5 givenSchedule (instant 1 8 0)
    (instant 3 9 0) hrow rfl rfl).1 _ hlatest⟩

end given

end HpAgent.Schedule
