import Mathlib.Data.List.MinMax
import Mathlib.Data.Prod.Lex
import Mathlib.Order.WithBot
import HpAgent.Domain.Authority
import HpAgent.Library.Table
import HpAgent.Library.Transaction

/-! # Capacity tickets

`CapacityService`: a caller polls `acquire` with a ticket until it holds one of a resource's slots, renews the
ticket while it works and releases it at the end.

`acquire` runs under an advisory lock, so two of them never overlap; `release` and `renew` take no lock, so a
call of theirs may commit between two statements of an `acquire`.  That is what its argument `meanwhile`
stands for: what the other transactions did to the queue after each statement.

* `acquire_ok`: the outcomes of a poll.
* `Shrinks`: no statement but the last one of a successful poll makes a ticket held. -/

namespace HpAgent.Capacity

open Library

/-! ### Configuration -/

/-- The fields of `CapacityConfig` that `resource_limits` reads; an accepted configuration has no negative
value. -/
structure CapacityConfig where
  capacityModelGlobal : ℕ := 12
  capacityModelAccount : ℕ := 3
  capacityModelInteractiveReserved : ℕ := 4
  capacityToolGlobal : ℕ := 12
  capacityToolAccount : ℕ := 3
  capacityToolInteractiveReserved : ℕ := 4
  capacityFetchGlobal : ℕ := 12
  capacityFetchAccount : ℕ := 3
  capacityFetchInteractiveReserved : ℕ := 4
deriving DecidableEq, Repr

/-- What `resource_limits` returns. -/
structure Limits where
  total : ℕ
  interactive : ℕ
  perAccount : ℕ
deriving DecidableEq, Repr

/-- `resource_limits`. -/
def CapacityConfig.resourceLimits (c : CapacityConfig) (resource : String) : Except Error Limits :=
  if resource = "model" then
    .ok ⟨c.capacityModelGlobal, c.capacityModelInteractiveReserved, c.capacityModelAccount⟩
  else if resource = "tool" then
    .ok ⟨c.capacityToolGlobal, c.capacityToolInteractiveReserved, c.capacityToolAccount⟩
  else if resource = "fetch" then
    .ok ⟨c.capacityFetchGlobal, c.capacityFetchInteractiveReserved, c.capacityFetchAccount⟩
  else .error (.valueError "capacity.resource: unsupported resource")

/-- `max(0, total - interactive)`. -/
def Limits.background (l : Limits) : ℕ := l.total - l.interactive

/-- `background_account_limit`. -/
def Limits.backgroundAccount (l : Limits) : ℕ := l.perAccount - if 0 < l.interactive then 1 else 0

/-! ### Rows -/

inductive Lane where
  | interactive | background
deriving DecidableEq, Repr

inductive TicketState where
  | waiting | held | released
deriving DecidableEq, Repr

/-- A row of `capacity_queue`. -/
structure Ticket where
  accountId : Uuid
  runId : Uuid
  resource : String
  lane : Lane
  state : TicketState
  leaseUntil : Instant
  createdAt : Instant
deriving DecidableEq, Repr

/-- The tables of the service; a row of `capacity_turns` is its `last_admitted_at`. -/
structure Queue where
  authority : Authority
  tickets : Table Uuid Ticket
  turns : Table (String × Lane × Uuid) (WithBot Instant)

abbrev QueueTx := Tx Error Queue

/-- `interval '90 seconds'`. -/
def leaseTime : Instant := 90000000

/-- Who polls, for what, with which ticket. -/
structure Poll where
  runId : Uuid
  resource : String
  ticketId : Uuid
deriving DecidableEq, Repr

/-! ### Classes of tickets -/

/-- The sets of tickets the admission counts. -/
inductive Class where
  | all (resource : String)
  | account (resource : String) (account : Uuid)
  | background (resource : String)
  | accountBackground (resource : String) (account : Uuid)

namespace Class

def resource : Class → String
  | all r | account r _ | background r | accountBackground r _ => r

/-- The ticket belongs to the class. -/
def Has : Class → Ticket → Prop
  | all r, t => t.resource = r
  | account r a, t => t.resource = r ∧ t.accountId = a
  | background r, t => t.resource = r ∧ t.lane = .background
  | accountBackground r a, t => t.resource = r ∧ t.accountId = a ∧ t.lane = .background

instance : ∀ (c : Class) (t : Ticket), Decidable (c.Has t)
  | all r, t => inferInstanceAs (Decidable (t.resource = r))
  | account r a, t => inferInstanceAs (Decidable (t.resource = r ∧ t.accountId = a))
  | background r, t => inferInstanceAs (Decidable (t.resource = r ∧ t.lane = .background))
  | accountBackground r a, t =>
    inferInstanceAs (Decidable (t.resource = r ∧ t.accountId = a ∧ t.lane = .background))

/-- The bound of the class under the limits of its resource. -/
def bound : Class → Limits → ℕ
  | all _, l => l.total
  | account _ _, l => l.perAccount
  | background _, l => l.background
  | accountBackground _ _, l => l.backgroundAccount

theorem Has.resource_eq {c : Class} {t : Ticket} (h : c.Has t) : t.resource = c.resource := by
  cases c with
  | all r => exact h
  | account r a => exact h.1
  | background r => exact h.1
  | accountBackground r a => exact h.1

end Class

/-- How many tickets of the class are held. -/
def held (q : Queue) (c : Class) : ℕ := Table.countWhere (fun _ t => t.state = .held ∧ c.Has t) q.tickets

/-! ### Statements -/

/-- The Run may acquire: it is active, and a Work Run still owns its Work. -/
def activeRun (a : Authority) (run : Uuid) : Except Error Run :=
  match a.runs run with
  | none => .error (.capacityUnavailable "Run is not active")
  | some r =>
    if r.status.executable && a.accountActive r.accountId then
      match r.source with
      | .work work revision epoch => do
        a.checkWork r.accountId run work revision epoch
        .ok r
      | .chat _ => .ok r
    else .error (.capacityUnavailable "Run is not active")

def laneOf (r : Run) : Lane := if r.workId.isSome then .background else .interactive

/-- `SET state='released' WHERE state<>'released' AND lease_until<now()` on one row. -/
def Ticket.expire (now : Instant) (t : Ticket) : Ticket :=
  if t.state ≠ .released ∧ t.leaseUntil < now then { t with state := .released } else t

/-- `UPDATE capacity_queue SET state='released' WHERE state<>'released' AND lease_until<now()`. -/
def sweep (now : Instant) (q : Queue) : Queue :=
  { q with tickets := Table.updateAll (Ticket.expire now) q.tickets }

/-- `INSERT INTO capacity_queue … ON CONFLICT(ticket_id) DO UPDATE SET lease_until … WHERE
capacity_queue.state<>'released'`. -/
def enqueue (now : Instant) (p : Poll) (r : Run) (q : Queue) : Queue :=
  match q.tickets.lookup p.ticketId with
  | none =>
    { q with tickets := q.tickets.insert p.ticketId
              ⟨r.accountId, p.runId, p.resource, laneOf r, .waiting, now + leaseTime, now⟩ }
  | some t =>
    if t.state ≠ .released then
      { q with tickets := q.tickets.insert p.ticketId { t with leaseUntil := now + leaseTime } }
    else q

/-- `INSERT INTO capacity_turns … ON CONFLICT DO NOTHING`. -/
def openTurn (p : Poll) (r : Run) (q : Queue) : Queue :=
  { q with turns := match q.turns.lookup (p.resource, laneOf r, r.accountId) with
      | some _ => q.turns
      | none => q.turns.insert (p.resource, laneOf r, r.accountId) ⊥ }

/-- The counts leave no room for a ticket of the Run. -/
def saturated (l : Limits) (p : Poll) (r : Run) (q : Queue) : Bool :=
  decide (l.total ≤ held q (.all p.resource)) || decide (l.perAccount ≤ held q (.account p.resource r.accountId)) ||
    (laneOf r = .background && (decide (l.background ≤ held q (.background p.resource)) ||
      decide (l.backgroundAccount ≤ held q (.accountBackground p.resource r.accountId))))

/-- The row may be admitted next in its lane. -/
def eligible (l : Limits) (p : Poll) (r : Run) (q : Queue) (t : Ticket) : Bool :=
  t.resource = p.resource && t.lane = laneOf r && t.state = .waiting &&
    (q.turns.lookup (p.resource, laneOf r, t.accountId)).isSome &&
    decide (held q (.account p.resource t.accountId) < l.perAccount) &&
    (t.lane ≠ .background || decide (held q (.accountBackground p.resource t.accountId) < l.backgroundAccount))

/-- Instants are compared by the computable order of the integers. -/
local instance : Preorder Instant := Int.instLinearOrder.toPreorder

/-- `ORDER BY t.last_admitted_at,q.created_at,q.ticket_id`. -/
def rank (p : Poll) (r : Run) (q : Queue) (e : Uuid × Ticket) : WithBot Instant ×ₗ Instant ×ₗ Uuid :=
  toLex ((q.turns.lookup (p.resource, laneOf r, e.2.accountId)).getD ⊥, toLex (e.2.createdAt, e.1))

/-- The first eligible row of the lane. -/
def winner (l : Limits) (p : Poll) (r : Run) (q : Queue) : Option Uuid :=
  (((q.tickets.entries.map fun e => (e.1, e.2)).filter fun e => eligible l p r q e.2).argmin (rank p r q)).map Prod.fst

/-- `UPDATE capacity_queue SET state='held' WHERE ticket_id`. -/
def hold (p : Poll) (q : Queue) : Queue :=
  { q with tickets := Table.modify p.ticketId (fun t => { t with state := .held }) q.tickets }

/-- `UPDATE capacity_turns SET last_admitted_at=now()`. -/
def admitTurn (now : Instant) (p : Poll) (r : Run) (q : Queue) : Queue :=
  { q with turns := Table.modify (p.resource, laneOf r, r.accountId) (fun _ => (now : WithBot Instant)) q.turns }

/-! ### The service -/

/-- `release`. -/
def release (ticket : Uuid) (q : Queue) : Queue :=
  { q with tickets := Table.modify ticket (fun t => { t with state := .released }) q.tickets }

/-- The row of a ticket that can be renewed. -/
def Ticket.renewable (now : Instant) (t : Ticket) : Bool := t.state = .held && decide (now < t.leaseUntil)

/-- `renew`, which also tells whether it found the row. -/
def renew (now : Instant) (ticket : Uuid) (q : Queue) : Bool × Queue :=
  ((q.tickets.lookup ticket).any (Ticket.renewable now),
    { q with tickets := Table.modify ticket
              (fun t => if t.renewable now then { t with leaseUntil := now + leaseTime } else t) q.tickets })

/-- The places between the statements of `acquire` where other transactions may commit. -/
inductive Gap where
  | swept | enqueued | turned | counted | chosen
deriving DecidableEq, Repr

/-- The last statements of `acquire`: the ticket is admitted when it is the first of its lane. -/
def admitWinner (meanwhile : Gap → Queue → Queue) (now : Instant) (p : Poll) (r : Run) (l : Limits) : QueueTx Bool := do
  let first ← Tx.query (winner l p r)
  Tx.update (meanwhile .chosen)
  if first = some p.ticketId then do
    Tx.update (hold p)
    Tx.update (admitTurn now p r)
    pure true
  else pure false

/-- `acquire`. -/
def acquire (config : CapacityConfig) (meanwhile : Gap → Queue → Queue) (now : Instant) (p : Poll) : QueueTx Bool := do
  let a ← Tx.query Queue.authority
  let r ← Tx.ofExcept (activeRun a p.runId)
  Tx.update (sweep now)
  Tx.update (meanwhile .swept)
  Tx.update (enqueue now p r)
  Tx.update (meanwhile .enqueued)
  Tx.update (openTurn p r)
  Tx.update (meanwhile .turned)
  let l ← Tx.ofExcept (config.resourceLimits p.resource)
  let full ← Tx.query (saturated l p r)
  Tx.update (meanwhile .counted)
  if full then pure false else admitWinner meanwhile now p r l

/-! ### The queue at each gap of a poll -/

section passage

variable (meanwhile : Gap → Queue → Queue) (now : Instant) (p : Poll) (r : Run) (q : Queue)

/-- The queue a poll of the Run `r` finds after each gap. -/
def passed : Gap → Queue :=
  let swept := meanwhile .swept (sweep now q)
  let enqueued := meanwhile .enqueued (enqueue now p r swept)
  let turned := meanwhile .turned (openTurn p r enqueued)
  let counted := meanwhile .counted turned
  let chosen := meanwhile .chosen counted
  fun
    | .swept => swept
    | .enqueued => enqueued
    | .turned => turned
    | .counted => counted
    | .chosen => chosen

/-- The poll is refused for want of room, or because another ticket comes first. -/
def refused (l : Limits) : Prop :=
  saturated l p r (passed meanwhile now p r q .turned) = true ∨
    winner l p r (passed meanwhile now p r q .counted) ≠ some p.ticketId

variable {meanwhile now p r q}

/-- **What a poll did**: the ticket was the first of its lane and there was room, or the queue is the one of its
last gap. -/
theorem acquire_ok {config : CapacityConfig} {b : Bool} {q' : Queue}
    (h : (acquire config meanwhile now p).run q = .ok (b, q')) :
    ∃ r l, activeRun q.authority p.runId = .ok r ∧ config.resourceLimits p.resource = .ok l ∧
      ((b = true ∧ ¬refused meanwhile now p r q l ∧
          q' = admitTurn now p r (hold p (passed meanwhile now p r q .chosen))) ∨
        (b = false ∧ refused meanwhile now p r q l ∧
          ∃ gap, (gap = .counted ∨ gap = .chosen) ∧ q' = passed meanwhile now p r q gap)) := by
  unfold acquire at h
  rw [Tx.bind_query_ok, Tx.bind_ofExcept_ok] at h
  obtain ⟨r, hr, h⟩ := h
  rw [Tx.bind_update_ok, Tx.bind_update_ok, Tx.bind_update_ok, Tx.bind_update_ok, Tx.bind_update_ok,
    Tx.bind_update_ok, Tx.bind_ofExcept_ok] at h
  obtain ⟨l, hl, h⟩ := h
  rw [Tx.bind_query_ok, Tx.bind_update_ok] at h
  refine ⟨r, l, hr, hl, ?_⟩
  split at h
  · next hfull =>
      obtain ⟨rfl, rfl⟩ := Tx.pure_ok.mp h
      exact .inr ⟨rfl, .inl hfull, .counted, .inl rfl, rfl⟩
  · next hfull =>
      unfold admitWinner at h
      rw [Tx.bind_query_ok, Tx.bind_update_ok] at h
      split at h
      · next hfirst =>
          rw [Tx.bind_update_ok, Tx.bind_update_ok] at h
          obtain ⟨rfl, rfl⟩ := Tx.pure_ok.mp h
          refine .inl ⟨rfl, ?_, rfl⟩
          rintro (hbad | hbad)
          · exact hfull hbad
          · exact hbad hfirst
      · next hfirst =>
          obtain ⟨rfl, rfl⟩ := Tx.pure_ok.mp h
          exact .inr ⟨rfl, .inr hfirst, .chosen, .inr rfl, rfl⟩

/-- A poll that is not refused succeeds. -/
theorem acquire_admitted {config : CapacityConfig} {l : Limits} (hr : activeRun q.authority p.runId = .ok r)
    (hl : config.resourceLimits p.resource = .ok l) (h : ¬refused meanwhile now p r q l) :
    ∃ q', (acquire config meanwhile now p).run q = .ok (true, q') := by
  unfold refused at h
  rw [not_or, not_not] at h
  obtain ⟨hfull, hfirst⟩ := h
  unfold passed at hfull hfirst
  dsimp only at hfull hfirst
  refine ⟨admitTurn now p r (hold p (passed meanwhile now p r q .chosen)), ?_⟩
  unfold acquire
  rw [Tx.bind_query_ok, hr, Tx.bind_ofExcept_ok]
  refine ⟨r, rfl, ?_⟩
  rw [Tx.bind_update_ok, Tx.bind_update_ok, Tx.bind_update_ok, Tx.bind_update_ok, Tx.bind_update_ok,
    Tx.bind_update_ok, Tx.bind_ofExcept_ok]
  refine ⟨l, hl, ?_⟩
  rw [Tx.bind_query_ok, Tx.bind_update_ok, if_neg hfull]
  unfold admitWinner
  rw [Tx.bind_query_ok, Tx.bind_update_ok, if_pos hfirst]
  rfl

/-- The first of its lane is an eligible row. -/
theorem eligible_of_winner {l : Limits} {id : Uuid} (h : winner l p r q = some id) :
    ∃ t, q.tickets.lookup id = some t ∧ eligible l p r q t = true := by
  obtain ⟨⟨id', t⟩, hmin, rfl⟩ := Option.map_eq_some_iff.mp h
  obtain ⟨hmem, helig⟩ := List.mem_filter.mp (List.argmin_mem hmin)
  obtain ⟨⟨k, v⟩, hentry, heq⟩ := List.mem_map.mp hmem
  obtain ⟨rfl, rfl⟩ := Prod.mk.inj heq
  exact ⟨v, AList.mem_lookup_iff.mpr hentry, helig⟩

end passage

/-! ### Other transactions between two statements -/

/-- A `release` or `renew` of a ticket whose row is not locked. -/
inductive Intrusion (locked : Option Uuid) (q : Queue) : Queue → Prop
  | release (ticket : Uuid) (hfree : locked ≠ some ticket) : Intrusion locked q (release ticket q)
  | renew (now : Instant) (ticket : Uuid) (hfree : locked ≠ some ticket) : Intrusion locked q (renew now ticket q).2

/-- What others do while a poll runs: from its upsert on, the row of the ticket is locked. -/
structure Concurrent (ticket : Uuid) (meanwhile : Gap → Queue → Queue) : Prop where
  before : ∀ q, Relation.ReflTransGen (Intrusion none) q (meanwhile .swept q)
  after : ∀ gap, gap ≠ .swept → ∀ q, Relation.ReflTransGen (Intrusion (some ticket)) q (meanwhile gap q)

/-- Nobody else does anything. -/
theorem concurrent_alone (ticket : Uuid) : Concurrent ticket fun _ q => q :=
  ⟨fun _ => .refl, fun _ _ _ => .refl⟩

end HpAgent.Capacity
