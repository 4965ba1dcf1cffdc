import HpAgent.Domain.Authority
import HpAgent.Library.Fencing
import HpAgent.Library.Table
import HpAgent.Library.Transaction

/-! # Execution leases and segments

The lease half of `AgentDataStore`: `acquireLease`, `validateAndRenewLease` and `releaseLease` for the
attempt of an Execution, `acquireSegment` and `releaseSegment` for one of its segments.  The fence check
of `HpAgent.Domain.Authority` reads the leases written here (`LeaseStore.authority`).

`Lease.register` is a row as a fencing register: its owners are segments, or nobody in particular for a
lease taken by `acquireLease`.  `acquire_ok` and its siblings say what a successful call did. -/

namespace HpAgent.Execution

open Library

/-! ### Rows -/

/-- `execution_attempt_leases`. -/
structure Lease where
  accountId : Uuid
  runId : Uuid
  ownerSegmentId : Option String
  fencingToken : ℕ
  leaseExpiresAt : Option Instant
deriving DecidableEq, Repr

/-- The row as it is inserted. -/
def Lease.unheld (account run : Uuid) : Lease := ⟨account, run, none, 0, none⟩

/-- `agent_execution_segments.state`. -/
inductive SegmentState where
  | requested | active | released
deriving DecidableEq, Repr

structure Segment where
  runId : Uuid
  accountId : Uuid
  executionId : Uuid
  state : SegmentState
  fencingToken : Option ℕ
deriving DecidableEq, Repr

/-- `SegmentInput`. -/
structure SegmentInput where
  segmentId : String
  accountId : Uuid
  runId : Uuid
  executionId : Uuid
deriving DecidableEq, Repr

/-- The row as it is inserted for a request. -/
def SegmentInput.row (request : SegmentInput) (state : SegmentState) : Segment :=
  ⟨request.runId, request.accountId, request.executionId, state, none⟩

/-- The store of the lease calls; `base` holds the rows they only read, and the statuses of Executions. -/
structure LeaseStore where
  base : Authority
  leases : Table Uuid Lease
  segments : Table String Segment
  waiting : Uuid → Bool

abbrev LeaseTx := Tx Error LeaseStore

/-- The lease as the fence check reads it; a lease without expiry matches nothing. -/
def Lease.fence (l : Lease) : Option FenceLease :=
  l.leaseExpiresAt.map fun t => ⟨l.accountId, l.runId, l.fencingToken, t⟩

/-- The authority checks over the current leases. -/
def LeaseStore.authority (db : LeaseStore) : Authority :=
  { db.base with leases := fun e => (db.leases.lookup e).bind Lease.fence }

/-- `ExecutionLease`. -/
structure ExecutionLease where
  accountId : Uuid
  runId : Uuid
  fencingToken : ℕ
  expiresAt : Instant
  executionId : Uuid
deriving DecidableEq, Repr

/-- The clock of one call: the reading of its test, the reading of its write, and the lease time. -/
structure Clock where
  tested : Instant
  written : Instant
  leaseTtl : ℕ
deriving DecidableEq, Repr

/-- `clock_timestamp() + lease_ttl_seconds`. -/
def Clock.expiry (c : Clock) : Instant := c.written + c.leaseTtl

/-- `lease_expires_at > clock_timestamp()`. -/
def Lease.active (l : Lease) (now : Instant) : Bool := l.leaseExpiresAt.any fun t => decide (now < t)

/-! ### Statements -/

variable {execution : Option Uuid} {request : SegmentInput} {clock : Clock} {lease : ExecutionLease} {token : ℕ}

/-- `INSERT INTO execution_attempt_leases … ON CONFLICT DO NOTHING`, and the row that is there then. -/
def lockLease (account run execution : Uuid) : LeaseTx Lease := do
  let found ← Tx.query fun db => db.leases.lookup execution
  match found with
  | some l => pure l
  | none => do
    Tx.update fun db => { db with leases := db.leases.insert execution (Lease.unheld account run) }
    pure (Lease.unheld account run)

/-- `UPDATE execution_attempt_leases` of one row. -/
def writeLease (execution : Uuid) (l : Lease) : LeaseTx Unit :=
  Tx.update fun db => { db with leases := db.leases.insert execution l }

/-- `UPDATE run_executions SET status='running'`. -/
def markRunning (execution : Uuid) : LeaseTx Unit :=
  Tx.update fun db =>
    { db with
      base :=
        { db.base with
          executions := fun e =>
            if e = execution then (db.base.executions e).map fun x => { x with status := .running }
            else db.base.executions e } }

/-- The row of a segment, inserted in the given state when there is none. -/
def lockSegment (request : SegmentInput) (state : SegmentState) : LeaseTx Segment := do
  let found ← Tx.query fun db => db.segments.lookup request.segmentId
  match found with
  | some s => pure s
  | none => do
    Tx.update fun db => { db with segments := db.segments.insert request.segmentId (request.row state) }
    pure (request.row state)

/-- The row is the one of this request. -/
def Segment.matches (s : Segment) (request : SegmentInput) : Bool :=
  s.runId = request.runId && s.accountId = request.accountId && s.executionId = request.executionId

/-- `UPDATE agent_execution_segments` of one row. -/
def writeSegment (id : String) (s : Segment) : LeaseTx Unit :=
  Tx.update fun db => { db with segments := db.segments.insert id s }

/-! ### The calls -/

/-- `_execution` for the named Execution, the one of the caller's fence, or the root. -/
def lockExecution (fence : Option Fence) (account run : Uuid) (execution : Option Uuid) :
    LeaseTx (Uuid × HpAgent.Execution) := do
  let found ← Tx.query fun db =>
    db.base.lockExecution account run (execution.orElse fun _ => fence.map Fence.executionId)
  Tx.ofExcept found

/-- `_acquire`. -/
def acquire (account run execution : Uuid) (segment : Option String) (clock : Clock) : LeaseTx ExecutionLease := do
  let (_, x) ← lockExecution none account run (some execution)
  Tx.check (x.status.executable = true) (.runNotExecutable "Execution is terminal or fenced")
  let row ← lockLease account run execution
  let same := row.active clock.tested && row.ownerSegmentId = segment
  Tx.check (¬(row.active clock.tested = true ∧ same = false)) (.leaseConflict "Execution is owned by another segment")
  let token := row.fencingToken + if same then 0 else 1
  writeLease execution
    { row with ownerSegmentId := segment, fencingToken := token, leaseExpiresAt := some clock.expiry }
  markRunning execution
  pure ⟨account, run, token, clock.expiry, execution⟩

/-- `acquire_lease`. -/
def acquireLease (fence : Option Fence) (account run : Uuid) (execution : Option Uuid) (clock : Clock) :
    LeaseTx ExecutionLease := do
  let active ← Tx.query fun db => db.authority.requireActiveRun account run
  let _ ← Tx.ofExcept active
  let (id, _) ← lockExecution fence account run execution
  acquire account run id none clock

/-- `validate_and_renew_lease`. -/
def validateAndRenewLease (fence : Option Fence) (account run : Uuid) (token : ℕ) (execution : Option Uuid)
    (clock : Clock) : LeaseTx ExecutionLease := do
  let active ← Tx.query fun db => db.authority.requireActiveRun account run
  let _ ← Tx.ofExcept (match active with
    | .error (.runNotExecutable _) => .error (.staleFencingToken "execution progression has been revoked")
    | r => r)
  let (id, x) ← lockExecution fence account run execution
  Tx.check (x.status.executable = true) (.staleFencingToken "Execution is terminal or fenced")
  let found ← Tx.query fun db => db.leases.lookup id
  let row ← Tx.demand
    (found.filter fun l => l.accountId = account && l.runId = run && l.fencingToken = token && l.active clock.tested)
    (.staleFencingToken "execution lease is absent, expired, or fenced")
  writeLease id { row with leaseExpiresAt := some clock.expiry }
  pure ⟨account, run, token, clock.expiry, id⟩

/-- `release_lease`. -/
def releaseLease (fence : Option Fence) (account run : Uuid) (token : ℕ) (execution : Option Uuid) :
    LeaseTx Bool := do
  let (id, _) ← lockExecution fence account run execution
  let found ← Tx.query fun db => db.leases.lookup id
  match found.filter fun l => l.accountId = account && l.runId = run && l.fencingToken = token with
  | none => pure false
  | some row => do
    writeLease id { row with ownerSegmentId := none, leaseExpiresAt := none }
    pure true

/-- `acquire_segment`. -/
def acquireSegment (request : SegmentInput) (clock : Clock) : LeaseTx ℕ := do
  let active ← Tx.query fun db => db.authority.requireActiveRun request.accountId request.runId
  let _ ← Tx.ofExcept active
  let _ ← lockExecution none request.accountId request.runId (some request.executionId)
  let suspended ← Tx.query fun db => db.waiting request.executionId
  Tx.check (suspended = false) (.leaseConflict "Execution is suspended")
  let segment ← lockSegment request .requested
  Tx.check (segment.matches request = true ∧ segment.state ≠ .released)
    (.segmentClosed "execution segment closed or owner mismatch")
  let lease ← acquire request.accountId request.runId request.executionId (some request.segmentId) clock
  writeSegment request.segmentId { segment with state := .active, fencingToken := some lease.fencingToken }
  pure lease.fencingToken

/-- The lease `release_segment` leaves behind. -/
def Lease.withoutSegment (request : SegmentInput) (l : Lease) : Lease :=
  if l.accountId = request.accountId ∧ l.runId = request.runId ∧ l.ownerSegmentId = some request.segmentId then
    { l with ownerSegmentId := none, leaseExpiresAt := none }
  else l

/-- `release_segment`: the tombstone is written whether or not the segment was ever acquired. -/
def releaseSegment (request : SegmentInput) : LeaseTx Unit := do
  let locked ← Tx.query fun db => db.authority.lock request.accountId request.runId
  let _ ← Tx.ofExcept locked
  let _ ← lockExecution none request.accountId request.runId (some request.executionId)
  let segment ← lockSegment request .released
  writeSegment request.segmentId
    (if segment.matches request then { segment with state := .released } else segment)
  Tx.update fun db =>
    { db with leases := Table.modify request.executionId (Lease.withoutSegment request) db.leases }

/-- The trigger `project_execution_status`, `_close` and `_finish_branch`: the lease of an Execution is taken
away. -/
def revoke (execution : Uuid) : LeaseTx Unit :=
  Tx.update fun db =>
    { db with
      leases := Table.modify execution
        (fun l => { l with ownerSegmentId := none, leaseExpiresAt := none, fencingToken := l.fencingToken + 1 })
        db.leases }

/-! ### The rows as registers -/

/-- The lease as a fencing register. -/
def Lease.register (l : Lease) : Register (Option String) Instant :=
  ⟨l.fencingToken, l.leaseExpiresAt.map fun t => (l.ownerSegmentId, t)⟩

/-- The register of an Execution. -/
def LeaseStore.register (db : LeaseStore) (e : Uuid) : Register (Option String) Instant :=
  ((db.leases.lookup e).map Lease.register).getD Register.fresh

theorem register_of_lookup {db : LeaseStore} {e : Uuid} {l : Lease} (h : db.leases.lookup e = some l) :
    db.register e = l.register := by
  simp [LeaseStore.register, h]

theorem register_unheld (db : LeaseStore) (account run e : Uuid) :
    db.register e = ((db.leases.lookup e).getD (Lease.unheld account run)).register := by
  cases h : db.leases.lookup e with
  | none => simp [LeaseStore.register, h, Lease.register, Lease.unheld, Register.fresh]
  | some l => simp [LeaseStore.register, h]

theorem held_of_active {l : Lease} {now : Instant} (h : l.active now = true) :
    ∃ t, now < t ∧ l.register.held = some (l.ownerSegmentId, t) := by
  cases ht : l.leaseExpiresAt with
  | none => simp [Lease.active, ht] at h
  | some t =>
      have hlt : now < t := by simpa [Lease.active, ht] using h
      exact ⟨t, hlt, by simp [Lease.register, ht]⟩

/-- The account and Run an Execution belongs to. -/
def LeaseStore.identity (db : LeaseStore) (e : Uuid) : Option (Uuid × Uuid) :=
  (db.base.executions e).map fun x => (x.accountId, x.runId)

theorem LeaseStore.identity_congr {db db' : LeaseStore} (h : db'.base = db.base) : db'.identity = db.identity := by
  funext e
  simp [LeaseStore.identity, h]

/-! ### What a successful call did -/

section specs

variable {db db' : LeaseStore} {account run e id : Uuid}

theorem lockExecution_ok {fence : Option Fence} {x : HpAgent.Execution}
    (h : (lockExecution fence account run execution).run db = .ok ((id, x), db')) :
    db' = db ∧ db.identity id = some (account, run) ∧ (∀ e, execution = some e → id = e) := by
  unfold lockExecution at h
  rw [Tx.bind_query_ok, Tx.ofExcept_ok] at h
  obtain ⟨hlock, rfl⟩ := h
  unfold Authority.lockExecution at hlock
  split at hlock
  · next p hp =>
      obtain rfl := Except.ok.inj hlock
      obtain ⟨named, hnamed, hx⟩ := Option.bind_eq_some_iff.mp hp
      obtain ⟨y, hy, hpair⟩ := Option.map_eq_some_iff.mp hx
      obtain ⟨hrow, hown⟩ := Option.filter_eq_some_iff.mp hy
      obtain ⟨rfl, rfl⟩ := Prod.mk.inj hpair
      have howner : y.accountId = account ∧ y.runId = run := by simpa using hown
      refine ⟨rfl, ?_, ?_⟩
      · simp [LeaseStore.identity, hrow, howner.1, howner.2]
      · rintro e rfl
        simpa using hnamed.symm
  · cases hlock

/-- The row locked by `lockLease`, and the table with it. -/
theorem lockLease_ok {l : Lease} (h : (lockLease account run e).run db = .ok (l, db')) :
    l = (db.leases.lookup e).getD (Lease.unheld account run) ∧
      (∀ j, db'.leases.lookup j = if j = e then some l else db.leases.lookup j) ∧
      db'.segments = db.segments ∧ db'.base = db.base := by
  unfold lockLease at h
  rw [Tx.bind_query_ok] at h
  cases hrow : db.leases.lookup e with
  | some r =>
      rw [hrow] at h
      obtain ⟨rfl, rfl⟩ := Tx.pure_ok.mp h
      refine ⟨rfl, ?_, rfl, rfl⟩
      intro j
      split
      · next hj => rw [hj, hrow]
      · rfl
  | none =>
      simp only [hrow] at h
      rw [Tx.bind_update_ok, Tx.pure_ok] at h
      obtain ⟨rfl, rfl⟩ := h
      refine ⟨rfl, ?_, rfl, rfl⟩
      intro j
      exact Table.lookup_insert_ite db.leases e j _

/-- The row locked by `lockSegment`, and the table with it. -/
theorem lockSegment_ok {state : SegmentState} {s : Segment}
    (h : (lockSegment request state).run db = .ok (s, db')) :
    s = (db.segments.lookup request.segmentId).getD (request.row state) ∧
      (∀ j, db'.segments.lookup j = if j = request.segmentId then some s else db.segments.lookup j) ∧
      db'.leases = db.leases ∧ db'.base = db.base := by
  unfold lockSegment at h
  rw [Tx.bind_query_ok] at h
  cases hrow : db.segments.lookup request.segmentId with
  | some r =>
      rw [hrow] at h
      obtain ⟨rfl, rfl⟩ := Tx.pure_ok.mp h
      refine ⟨rfl, ?_, rfl, rfl⟩
      intro j
      split
      · next hj => rw [hj, hrow]
      · rfl
  | none =>
      simp only [hrow] at h
      rw [Tx.bind_update_ok, Tx.pure_ok] at h
      obtain ⟨rfl, rfl⟩ := h
      refine ⟨rfl, ?_, rfl, rfl⟩
      intro j
      exact Table.lookup_insert_ite db.segments request.segmentId j _

/-- What a grant does: the lease of the Execution was free, or this owner's already. -/
def Granted (db db' : LeaseStore) (account run e : Uuid) (segment : Option String) (clock : Clock)
    (lease : ExecutionLease) : Prop :=
  ∃ row token, row = (db.leases.lookup e).getD (Lease.unheld account run) ∧
    db.identity e = some (account, run) ∧
    (row.active clock.tested = true ∧ row.ownerSegmentId = segment ∧ token = row.fencingToken ∨
      row.active clock.tested = false ∧ token = row.fencingToken + 1) ∧
    lease = ⟨account, run, token, clock.expiry, e⟩ ∧
    (∀ j, db'.leases.lookup j =
      if j = e then
        some { row with ownerSegmentId := segment, fencingToken := token, leaseExpiresAt := some clock.expiry }
      else db.leases.lookup j) ∧
    db'.identity = db.identity

theorem acquire_ok {segment : Option String}
    (h : (acquire account run e segment clock).run db = .ok (lease, db')) :
    Granted db db' account run e segment clock lease ∧ db'.segments = db.segments := by
  unfold acquire at h
  rw [Tx.bind_ok] at h
  obtain ⟨⟨id, x⟩, db₀, hlock, h⟩ := h
  obtain ⟨rfl, hid, hnamed⟩ := lockExecution_ok hlock
  obtain rfl := hnamed e rfl
  rw [Tx.bind_check_ok, Tx.bind_ok] at h
  obtain ⟨-, row, db₁, hrow, h⟩ := h
  obtain ⟨hrow, hleases, hsegments, hbase⟩ := lockLease_ok hrow
  dsimp only at h
  rw [Tx.bind_check_ok] at h
  obtain ⟨hfree, h⟩ := h
  unfold writeLease markRunning at h
  rw [Tx.bind_update_ok, Tx.bind_update_ok, Tx.pure_ok] at h
  obtain ⟨rfl, rfl⟩ := h
  refine ⟨⟨row, _, hrow, hid, ?_, rfl, ?_, ?_⟩, hsegments⟩
  · cases hactive : row.active clock.tested with
    | false => simp
    | true =>
        have howner : row.ownerSegmentId = segment := by simpa [hactive] using hfree
        simp [howner]
  · intro j
    show (db₁.leases.insert id _).lookup j = _
    rw [Table.lookup_insert_ite, hleases j]
    split <;> rfl
  · funext j
    simp only [LeaseStore.identity, hbase]
    split
    · cases db₀.base.executions j <;> rfl
    · rfl

theorem acquireLease_ok {fence : Option Fence}
    (h : (acquireLease fence account run execution clock).run db = .ok (lease, db')) :
    ∃ id, Granted db db' account run id none clock lease ∧ db'.segments = db.segments := by
  unfold acquireLease at h
  rw [Tx.bind_query_ok, Tx.bind_ofExcept_ok] at h
  obtain ⟨-, -, h⟩ := h
  rw [Tx.bind_ok] at h
  obtain ⟨⟨id, x⟩, db₀, hlock, h⟩ := h
  obtain ⟨rfl, -, -⟩ := lockExecution_ok hlock
  exact ⟨id, acquire_ok h⟩

/-- The row a renewal found: the token of the caller, unexpired. -/
theorem validateAndRenewLease_ok {fence : Option Fence}
    (h : (validateAndRenewLease fence account run token execution clock).run db = .ok (lease, db')) :
    ∃ row, db.leases.lookup lease.executionId = some row ∧ row.fencingToken = token ∧
      row.active clock.tested = true ∧
      (∀ j, db'.leases.lookup j =
        if j = lease.executionId then some { row with leaseExpiresAt := some clock.expiry }
        else db.leases.lookup j) ∧
      db'.segments = db.segments ∧ db'.base = db.base := by
  unfold validateAndRenewLease at h
  rw [Tx.bind_query_ok, Tx.bind_ofExcept_ok] at h
  obtain ⟨-, -, h⟩ := h
  rw [Tx.bind_ok] at h
  obtain ⟨⟨id, x⟩, db₀, hlock, h⟩ := h
  obtain ⟨rfl, -, -⟩ := lockExecution_ok hlock
  dsimp only at h
  rw [Tx.bind_check_ok, Tx.bind_query_ok, Tx.bind_demand_ok] at h
  obtain ⟨-, row, hrow, h⟩ := h
  obtain ⟨hfound, hmatch⟩ := Option.filter_eq_some_iff.mp hrow
  unfold writeLease at h
  rw [Tx.bind_update_ok, Tx.pure_ok] at h
  obtain ⟨rfl, rfl⟩ := h
  have hmatch : ((row.accountId = account ∧ row.runId = run) ∧ row.fencingToken = token) ∧
      row.active clock.tested = true := by simpa using hmatch
  refine ⟨row, hfound, hmatch.1.2, hmatch.2, ?_, rfl, rfl⟩
  intro j
  exact Table.lookup_insert_ite db₀.leases id j _

theorem releaseLease_ok {fence : Option Fence} {released : Bool}
    (h : (releaseLease fence account run token execution).run db = .ok (released, db')) :
    db' = db ∨ ∃ id row, db.leases.lookup id = some row ∧
      (∀ j, db'.leases.lookup j =
        if j = id then some { row with ownerSegmentId := none, leaseExpiresAt := none }
        else db.leases.lookup j) ∧
      db'.segments = db.segments ∧ db'.base = db.base := by
  unfold releaseLease at h
  rw [Tx.bind_ok] at h
  obtain ⟨⟨id, x⟩, db₀, hlock, h⟩ := h
  obtain ⟨rfl, -, -⟩ := lockExecution_ok hlock
  dsimp only at h
  rw [Tx.bind_query_ok] at h
  split at h
  · obtain ⟨-, rfl⟩ := Tx.pure_ok.mp h
    exact .inl rfl
  · next row hrow =>
      unfold writeLease at h
      rw [Tx.bind_update_ok, Tx.pure_ok] at h
      obtain ⟨-, rfl⟩ := h
      refine .inr ⟨id, row, (Option.filter_eq_some_iff.mp hrow).1, ?_, rfl, rfl⟩
      intro j
      exact Table.lookup_insert_ite db₀.leases id j _

/-- A segment that acquires the lease has a row of its own that is not released. -/
theorem acquireSegment_ok
    (h : (acquireSegment request clock).run db = .ok (token, db')) :
    ∃ s lease, s = (db.segments.lookup request.segmentId).getD (request.row .requested) ∧
      s.matches request = true ∧ s.state ≠ .released ∧
      Granted db db' request.accountId request.runId request.executionId (some request.segmentId) clock lease ∧
      lease.fencingToken = token ∧
      (∀ j, db'.segments.lookup j =
        if j = request.segmentId then some { s with state := .active, fencingToken := some token }
        else db.segments.lookup j) := by
  unfold acquireSegment at h
  rw [Tx.bind_query_ok, Tx.bind_ofExcept_ok] at h
  obtain ⟨-, -, h⟩ := h
  rw [Tx.bind_ok] at h
  obtain ⟨⟨id, x⟩, db₀, hlock, h⟩ := h
  obtain ⟨rfl, -, -⟩ := lockExecution_ok hlock
  rw [Tx.bind_query_ok, Tx.bind_check_ok, Tx.bind_ok] at h
  obtain ⟨-, s, db₁, hsegment, h⟩ := h
  obtain ⟨hs, hsegments, hleases, hbase⟩ := lockSegment_ok hsegment
  rw [Tx.bind_check_ok, Tx.bind_ok] at h
  obtain ⟨⟨hmatch, hopen⟩, lease, db₂, hacquire, h⟩ := h
  unfold writeSegment at h
  rw [Tx.bind_update_ok, Tx.pure_ok] at h
  obtain ⟨rfl, rfl⟩ := h
  obtain ⟨hgranted, hkept⟩ := acquire_ok hacquire
  refine ⟨s, lease, hs, hmatch, hopen, ?_, rfl, ?_⟩
  · have hidentity := LeaseStore.identity_congr hbase
    unfold Granted at hgranted
    rw [hleases, hidentity] at hgranted
    exact hgranted
  · intro j
    show (db₂.segments.insert request.segmentId _).lookup j = _
    rw [Table.lookup_insert_ite, hkept, hsegments j]
    split <;> rfl

/-- The tombstone of a released segment, and the lease without it. -/
theorem releaseSegment_ok {u : Unit}
    (h : (releaseSegment request).run db = .ok (u, db')) :
    ∃ s, s = (db.segments.lookup request.segmentId).getD (request.row .released) ∧
      db.identity request.executionId = some (request.accountId, request.runId) ∧
      (∀ j, db'.segments.lookup j =
        if j = request.segmentId then some (if s.matches request then { s with state := .released } else s)
        else db.segments.lookup j) ∧
      (∀ j, db'.leases.lookup j =
        if j = request.executionId then (db.leases.lookup request.executionId).map (Lease.withoutSegment request)
        else db.leases.lookup j) ∧
      db'.base = db.base := by
  unfold releaseSegment at h
  rw [Tx.bind_query_ok, Tx.bind_ofExcept_ok] at h
  obtain ⟨-, -, h⟩ := h
  rw [Tx.bind_ok] at h
  obtain ⟨⟨id, x⟩, db₀, hlock, h⟩ := h
  obtain ⟨rfl, hid, hnamed⟩ := lockExecution_ok hlock
  obtain rfl := hnamed request.executionId rfl
  rw [Tx.bind_ok] at h
  obtain ⟨s, db₁, hsegment, h⟩ := h
  obtain ⟨hs, hsegments, hleases, hbase⟩ := lockSegment_ok hsegment
  unfold writeSegment at h
  rw [Tx.bind_update_ok, Tx.update_ok] at h
  obtain rfl := h
  refine ⟨s, hs, hid, ?_, ?_, hbase⟩
  · intro j
    show (db₁.segments.insert request.segmentId _).lookup j = _
    rw [Table.lookup_insert_ite, hsegments j]
    split <;> rfl
  · intro j
    show (Table.modify request.executionId _ db₁.leases).lookup j = _
    rw [Table.lookup_modify, hleases]

end specs

end HpAgent.Execution
