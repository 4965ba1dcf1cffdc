import HpAgent.Capacity.Bounds

/-! # Polling for capacity

A caller polls with one ticket, at any intervals, while other callers poll, renew and release theirs.  A refused
poll leaves the ticket waiting under a new lease exactly when the poll found it that way, or found no row at all
(`waiting_iff`): the first statement of `acquire` closes every row whose lease has run out, the caller's own
included, and the upsert does not open a closed row again.

`endless_poll` is a ticket polled once after its lease ran out: the resource is idle, and no later poll of it
can ever succeed (`Closed.run`).  `waiting_tickets_live` says what holds as long as every poll comes in time. -/

namespace HpAgent.Capacity

open Library

section poll

variable {config : CapacityConfig} {meanwhile : Gap → Queue → Queue} {now : Instant} {p : Poll} {r : Run}
  {q q' : Queue} {l : Limits}

/-! ### The row of the ticket -/

/-- The ticket can be polled: it has no row yet, or waits under a lease that has not run out. -/
def Pollable (now : Instant) (p : Poll) (q : Queue) : Prop :=
  ∀ t, q.tickets.lookup p.ticketId = some t → t.state = .waiting ∧ now ≤ t.leaseUntil

/-- The ticket waits under a lease that has not run out. -/
def Waiting (now : Instant) (p : Poll) (q : Queue) : Prop :=
  ∃ t, q.tickets.lookup p.ticketId = some t ∧ t.state = .waiting ∧ now < t.leaseUntil

/-- Nobody but its caller uses the ticket: no other transaction touches its row. -/
def Exclusive (ticket : Uuid) (meanwhile : Gap → Queue → Queue) : Prop :=
  ∀ gap q, Relation.ReflTransGen (Intrusion (some ticket)) q (meanwhile gap q)

/-- The row a poll leaves for its ticket, before it may be admitted. -/
def polledRow (now : Instant) (p : Poll) (r : Run) : Option Ticket → Ticket
  | none => ⟨r.accountId, p.runId, p.resource, laneOf r, .waiting, now + leaseTime, now⟩
  | some t =>
    if (t.expire now).state ≠ .released then { t.expire now with leaseUntil := now + leaseTime } else t.expire now

theorem lookup_enqueue (q : Queue) (id : Uuid) : (enqueue now p r q).tickets.lookup id =
    if id = p.ticketId then some (match q.tickets.lookup p.ticketId with
      | none => ⟨r.accountId, p.runId, p.resource, laneOf r, .waiting, now + leaseTime, now⟩
      | some t => if t.state ≠ .released then { t with leaseUntil := now + leaseTime } else t)
    else q.tickets.lookup id := by
  unfold enqueue
  cases ht : q.tickets.lookup p.ticketId with
  | none => exact Table.lookup_insert_ite _ _ _ _
  | some t =>
      dsimp only
      by_cases hstate : t.state ≠ .released
      · rw [if_pos hstate, if_pos hstate]
        exact Table.lookup_insert_ite _ _ _ _
      · rw [if_neg hstate, if_neg hstate]
        split
        · next hid => rw [hid, ht]
        · rfl

/-- From its upsert on the row of the ticket is the one the poll wrote. -/
theorem lookup_passed (h : Exclusive p.ticketId meanwhile) {gap : Gap} (hgap : gap ≠ .swept) :
    (passed meanwhile now p r q gap).tickets.lookup p.ticketId =
      some (polledRow now p r (q.tickets.lookup p.ticketId)) := by
  have hswept : (passed meanwhile now p r q .swept).tickets.lookup p.ticketId =
      (q.tickets.lookup p.ticketId).map (Ticket.expire now) :=
    (lookup_intrusions (h .swept (sweep now q))).trans (Table.lookup_updateAll _ _ _)
  have henqueued : (passed meanwhile now p r q .enqueued).tickets.lookup p.ticketId =
      some (polledRow now p r (q.tickets.lookup p.ticketId)) := by
    refine (lookup_intrusions (h .enqueued (enqueue now p r (passed meanwhile now p r q .swept)))).trans ?_
    rw [lookup_enqueue, if_pos rfl, hswept]
    cases q.tickets.lookup p.ticketId <;> rfl
  have hturned : (passed meanwhile now p r q .turned).tickets.lookup p.ticketId =
      some (polledRow now p r (q.tickets.lookup p.ticketId)) :=
    (lookup_intrusions (h .turned (openTurn p r (passed meanwhile now p r q .enqueued)))).trans henqueued
  have hcounted := (lookup_intrusions (h .counted (passed meanwhile now p r q .turned))).trans hturned
  cases gap with
  | swept => exact absurd rfl hgap
  | enqueued => exact henqueued
  | turned => exact hturned
  | counted => exact hcounted
  | chosen => exact (lookup_intrusions (h .chosen (passed meanwhile now p r q .counted))).trans hcounted

/-- The row a poll writes waits exactly when the poll found the ticket pollable. -/
theorem polledRow_waiting : (polledRow now p r (q.tickets.lookup p.ticketId)).state = .waiting ↔ Pollable now p q := by
  unfold Pollable
  cases ht : q.tickets.lookup p.ticketId with
  | none => exact ⟨fun _ _ h => (Option.some_ne_none _ h.symm).elim, fun _ => rfl⟩
  | some t =>
      have hiff : (polledRow now p r (some t)).state = .waiting ↔ t.state = .waiting ∧ now ≤ t.leaseUntil := by
        unfold polledRow Ticket.expire
        dsimp only
        by_cases hexpired : t.state ≠ .released ∧ t.leaseUntil < now
        · rw [if_pos hexpired, if_neg (not_not.mpr rfl)]
          constructor
          · intro h
            cases h
          · rintro ⟨-, hlease⟩
            exact absurd hexpired.2 (not_lt.mpr hlease)
        · rw [if_neg hexpired]
          have hstate : (if t.state ≠ .released then { t with leaseUntil := now + leaseTime } else t).state = t.state := by
            split <;> rfl
          rw [hstate]
          constructor
          · intro hwaiting
            refine ⟨hwaiting, ?_⟩
            apply not_lt.mp
            intro hlt
            refine hexpired ⟨?_, hlt⟩
            rw [hwaiting]
            exact nofun
          · exact And.left
      rw [hiff]
      constructor
      · rintro h t' ht'
        obtain rfl := Option.some.inj ht'
        exact h
      · intro h
        exact h t rfl

theorem leaseTime_pos : 0 < leaseTime := by decide

/-- A row that waits after a poll has a new lease. -/
theorem polledRow_lease {o : Option Ticket} (h : (polledRow now p r o).state = .waiting) :
    now < (polledRow now p r o).leaseUntil := by
  have hlater : now < now + leaseTime := lt_add_of_pos_right now leaseTime_pos
  cases o with
  | none => exact hlater
  | some t =>
      unfold polledRow at h ⊢
      dsimp only at h ⊢
      split
      · exact hlater
      · next hreleased =>
          rw [if_neg hreleased] at h
          rw [not_not] at hreleased
          rw [hreleased] at h
          cases h

/-- **A refused poll leaves the ticket waiting exactly when it found the ticket pollable.** -/
theorem waiting_iff (h : Exclusive p.ticketId meanwhile) (hrun : (acquire config meanwhile now p).run q = .ok (false, q')) :
    Waiting now p q' ↔ Pollable now p q := by
  obtain ⟨r, l, -, -, ⟨hbad, -⟩ | ⟨-, -, gap, hgap, rfl⟩⟩ := acquire_ok hrun
  · cases hbad
  have hlater : gap ≠ .swept := by
    rcases hgap with rfl | rfl
    · exact nofun
    · exact nofun
  have hrow : (passed meanwhile now p r q gap).tickets.lookup p.ticketId =
      some (polledRow now p r (q.tickets.lookup p.ticketId)) := lookup_passed h hlater
  unfold Waiting
  rw [← polledRow_waiting, hrow]
  constructor
  · rintro ⟨t, ht, hstate, -⟩
    obtain rfl := Option.some.inj ht
    exact hstate
  · intro hstate
    exact ⟨_, rfl, hstate, polledRow_lease hstate⟩

/-! ### A poll of an idle resource -/

/-- Nobody else holds the resource or waits for it. -/
def Idle (now : Instant) (p : Poll) (q : Queue) : Prop :=
  ∀ id t, id ≠ p.ticketId → q.tickets.lookup id = some t → t.resource = p.resource →
    t.state = .released ∨ t.leaseUntil < now

/-- The limits let the Run hold a ticket at all. -/
def Room (l : Limits) (r : Run) : Prop :=
  0 < l.total ∧ 0 < l.perAccount ∧ (laneOf r = .background → 0 < l.background ∧ 0 < l.backgroundAccount)

/-- The row of the ticket, if any, was queued for this Run and resource. -/
def Own (p : Poll) (r : Run) (q : Queue) : Prop :=
  ∀ t, q.tickets.lookup p.ticketId = some t → t.resource = p.resource ∧ t.accountId = r.accountId ∧ t.lane = laneOf r

/-- Every other row of the resource is closed. -/
def Vacated (p : Poll) (q : Queue) : Prop :=
  ∀ id t, id ≠ p.ticketId → q.tickets.lookup id = some t → t.resource = p.resource → t.state = .released

theorem Vacated.rewrites (hq : Vacated p q) (h : Rewrites q q') : Vacated p q' := by
  intro id t' hid ht' hresource
  obtain ⟨t, ht, hmove⟩ := h.row_of ht'
  exact hmove.released (hq id t hid ht (hmove.resource.symm.trans hresource))

theorem Idle.vacated_sweep (h : Idle now p q) : Vacated p (sweep now q) := by
  intro id t' hid ht' hresource
  have hrow : (q.tickets.lookup id).map (Ticket.expire now) = some t' := (Table.lookup_updateAll _ _ _).symm.trans ht'
  obtain ⟨t, ht, rfl⟩ := Option.map_eq_some_iff.mp hrow
  have hmove : RowMove t (t.expire now) := t.rowMove_expire
  rcases h id t hid ht (hmove.resource.symm.trans hresource) with hreleased | hexpired
  · exact hmove.released hreleased
  · unfold Ticket.expire
    by_cases hstate : t.state = .released
    · rw [if_neg fun hboth => hboth.1 hstate]
      exact hstate
    · rw [if_pos ⟨hstate, hexpired⟩]

/-- From its first gap on the poll finds every other row of the resource closed. -/
theorem Idle.vacated_passed (h : Idle now p q) (hexclusive : Exclusive p.ticketId meanwhile) (gap : Gap) :
    Vacated p (passed meanwhile now p r q gap) := by
  have hgap : ∀ gap q, Rewrites q (meanwhile gap q) := fun gap q => rewrites_intrusions (hexclusive gap q)
  have hswept : Vacated p (passed meanwhile now p r q .swept) := h.vacated_sweep.rewrites (hgap _ _)
  have hqueued : Vacated p (enqueue now p r (passed meanwhile now p r q .swept)) := by
    intro id t hid ht hresource
    rw [lookup_enqueue, if_neg hid] at ht
    exact hswept id t hid ht hresource
  have henqueued : Vacated p (passed meanwhile now p r q .enqueued) := hqueued.rewrites (hgap _ _)
  have hopened : Vacated p (openTurn p r (passed meanwhile now p r q .enqueued)) := henqueued
  have hturned : Vacated p (passed meanwhile now p r q .turned) := hopened.rewrites (hgap _ _)
  have hcounted : Vacated p (passed meanwhile now p r q .counted) := hturned.rewrites (hgap _ _)
  cases gap with
  | swept => exact hswept
  | enqueued => exact henqueued
  | turned => exact hturned
  | counted => exact hcounted
  | chosen => exact hcounted.rewrites (hgap _ _)

/-- With every other row closed and the ticket waiting, nothing of the resource is held. -/
theorem Vacated.held_eq_zero (h : Vacated p q) {t : Ticket} (ht : q.tickets.lookup p.ticketId = some t)
    (hwaiting : t.state = .waiting) {c : Class} (hc : c.resource = p.resource) : held q c = 0 := by
  apply Table.countWhere_eq_zero
  rintro id t' ht' ⟨hheld, hclass⟩
  by_cases hid : id = p.ticketId
  · rw [hid, ht] at ht'
    obtain rfl := Option.some.inj ht'
    rw [hwaiting] at hheld
    cases hheld
  · have hreleased := h id t' hid ht' (hclass.resource_eq.trans hc)
    rw [hheld] at hreleased
    cases hreleased

/-- The lane of the Run has its turn after the poll has opened it. -/
theorem turn_passed (h : Exclusive p.ticketId meanwhile) :
    ((passed meanwhile now p r q .counted).turns.lookup (p.resource, laneOf r, r.accountId)).isSome = true := by
  have hgap : ∀ gap q, (meanwhile gap q).turns = q.turns := fun gap q => (rewrites_intrusions (h gap q)).turns
  have hturns : (passed meanwhile now p r q .counted).turns =
      (openTurn p r (passed meanwhile now p r q .enqueued)).turns := (hgap _ _).trans (hgap _ _)
  rw [hturns]
  unfold openTurn
  dsimp only
  split
  · next ht => rw [ht]; rfl
  · rw [AList.lookup_insert]
    rfl

/-- **A poll of an idle resource is not refused.** -/
theorem Idle.not_refused (h : Idle now p q) (hexclusive : Exclusive p.ticketId meanwhile) (hpoll : Pollable now p q)
    (hown : Own p r q) (hroom : Room l r) : ¬refused meanwhile now p r q l := by
  have hrow : ∀ gap, gap ≠ .swept → (passed meanwhile now p r q gap).tickets.lookup p.ticketId =
      some (polledRow now p r (q.tickets.lookup p.ticketId)) := fun gap hgap => lookup_passed hexclusive hgap
  have hwaiting := (polledRow_waiting (r := r)).mpr hpoll
  have hbelow : ∀ gap, gap ≠ .swept → ∀ c : Class, c.resource = p.resource → ∀ n, 0 < n →
      held (passed meanwhile now p r q gap) c < n := by
    intro gap hgap c hc n hn
    rw [(h.vacated_passed hexclusive gap).held_eq_zero (hrow gap hgap) hwaiting hc]
    exact hn
  obtain ⟨htotal, haccount, hback⟩ := hroom
  unfold refused
  rw [not_or, not_not]
  constructor
  · -- no class of the resource is full
    unfold saturated
    simp only [Bool.or_eq_true, Bool.and_eq_true, decide_eq_true_eq, not_or, not_and, not_le]
    refine ⟨⟨hbelow .turned nofun _ rfl _ htotal, hbelow .turned nofun _ rfl _ haccount⟩, fun hlane => ?_⟩
    exact ⟨hbelow .turned nofun _ rfl _ (hback hlane).1, hbelow .turned nofun _ rfl _ (hback hlane).2⟩
  · -- the ticket is eligible, and nobody else waits
    have hfields : (polledRow now p r (q.tickets.lookup p.ticketId)).resource = p.resource ∧
        (polledRow now p r (q.tickets.lookup p.ticketId)).accountId = r.accountId ∧
        (polledRow now p r (q.tickets.lookup p.ticketId)).lane = laneOf r := by
      cases ht : q.tickets.lookup p.ticketId with
      | none => exact ⟨rfl, rfl, rfl⟩
      | some t =>
          have hmove : RowMove t (t.expire now) := t.rowMove_expire
          obtain ⟨hresource, haccount, hlane⟩ := hown t ht
          unfold polledRow
          dsimp only
          split
          · exact ⟨hmove.resource.trans hresource, hmove.account.trans haccount, hmove.lane.trans hlane⟩
          · exact ⟨hmove.resource.trans hresource, hmove.account.trans haccount, hmove.lane.trans hlane⟩
    obtain ⟨hresource, hsame, hlane⟩ := hfields
    have helig : eligible l p r (passed meanwhile now p r q .counted) (polledRow now p r (q.tickets.lookup p.ticketId)) =
        true := by
      have hturn := @turn_passed meanwhile now p r q hexclusive
      rw [← hsame] at hturn
      unfold eligible
      simp only [hsame, Bool.and_eq_true, Bool.or_eq_true, decide_eq_true_eq]
      refine ⟨⟨⟨⟨⟨hresource, hlane⟩, hwaiting⟩, hturn⟩, hbelow .counted nofun _ rfl _ haccount⟩, ?_⟩
      by_cases hlane' : laneOf r = .background
      · exact .inr (hbelow .counted nofun _ rfl _ (hback hlane').2)
      · left
        rw [hlane]
        exact hlane'
    have hmem : (p.ticketId, polledRow now p r (q.tickets.lookup p.ticketId)) ∈
        ((passed meanwhile now p r q .counted).tickets.entries.map fun e => (e.1, e.2)).filter
          fun e => eligible l p r (passed meanwhile now p r q .counted) e.2 := by
      refine List.mem_filter.mpr ⟨List.mem_map.mpr ⟨⟨p.ticketId, _⟩, ?_, rfl⟩, helig⟩
      exact AList.mem_lookup_iff.mp (hrow .counted nofun)
    cases hmin : winner l p r (passed meanwhile now p r q .counted) with
    | none =>
        rw [winner, Option.map_eq_none_iff, List.argmin_eq_none] at hmin
        rw [hmin] at hmem
        cases hmem
    | some id =>
        obtain ⟨t, ht, helig'⟩ := eligible_of_winner hmin
        unfold eligible at helig'
        simp only [Bool.and_eq_true, decide_eq_true_eq] at helig'
        by_cases hid : id = p.ticketId
        · rw [hid]
        · have hreleased := h.vacated_passed (r := r) hexclusive .counted id t hid ht helig'.1.1.1.1.1
          rw [helig'.1.1.1.2] at hreleased
          cases hreleased

/-! ### A closed ticket -/

/-- The ticket has been closed. -/
def Closed (ticket : Uuid) (q : Queue) : Prop := ∃ t, q.tickets.lookup ticket = some t ∧ t.state = .released

variable {ticket : Uuid}

theorem Closed.rewrites (hq : Closed ticket q) (h : Rewrites q q') : Closed ticket q' := by
  obtain ⟨t, ht, hreleased⟩ := hq
  obtain ⟨t', ht', hmove⟩ := h.row ticket t ht
  exact ⟨t', ht', hmove.released hreleased⟩

/-- The upsert does not open a closed row. -/
theorem Closed.enqueue (hq : Closed ticket q) : Closed ticket (enqueue now p r q) := by
  obtain ⟨t, ht, hreleased⟩ := hq
  refine ⟨t, ?_, hreleased⟩
  rw [lookup_enqueue]
  split
  · next hid =>
      rw [← hid, ht]
      dsimp only
      rw [if_neg (not_not.mpr hreleased)]
  · exact ht

theorem Closed.passed (hq : Closed ticket q) (h : Concurrent p.ticketId meanwhile) (gap : Gap) :
    Closed ticket (passed meanwhile now p r q gap) := by
  have hswept : Closed ticket (Capacity.passed meanwhile now p r q .swept) :=
    (hq.rewrites rewrites_sweep).rewrites (h.rewrites _ _)
  have henqueued : Closed ticket (Capacity.passed meanwhile now p r q .enqueued) :=
    hswept.enqueue.rewrites (h.rewrites _ _)
  have hopened : Closed ticket (openTurn p r (Capacity.passed meanwhile now p r q .enqueued)) := henqueued
  have hturned : Closed ticket (Capacity.passed meanwhile now p r q .turned) := hopened.rewrites (h.rewrites _ _)
  have hcounted : Closed ticket (Capacity.passed meanwhile now p r q .counted) := hturned.rewrites (h.rewrites _ _)
  cases gap with
  | swept => exact hswept
  | enqueued => exact henqueued
  | turned => exact hturned
  | counted => exact hcounted
  | chosen => exact hcounted.rewrites (h.rewrites _ _)

/-- The ticket a poll admits was not closed. -/
theorem ne_of_closed (hq : Closed ticket q) (h : Concurrent p.ticketId meanwhile)
    (hadmitted : ¬refused meanwhile now p r q l) : ticket ≠ p.ticketId := by
  rintro rfl
  unfold refused at hadmitted
  rw [not_or, not_not] at hadmitted
  obtain ⟨t, ht, helig⟩ := eligible_of_winner hadmitted.2
  have hcounted : Closed p.ticketId (passed meanwhile now p r q .counted) := hq.passed h .counted
  obtain ⟨t', ht', hreleased⟩ := hcounted
  obtain rfl := Option.some.inj (ht.symm.trans ht')
  unfold eligible at helig
  simp only [Bool.and_eq_true, decide_eq_true_eq] at helig
  rw [helig.1.1.1.2] at hreleased
  cases hreleased

/-- **A closed ticket is never admitted.** -/
theorem Closed.acquire (hq : Closed p.ticketId q) (h : Concurrent p.ticketId meanwhile) :
    (acquire config meanwhile now p).run q ≠ .ok (true, q') := by
  intro hrun
  obtain ⟨r, l, -, -, ⟨-, hadmitted, -⟩ | ⟨hbad, -⟩⟩ := acquire_ok hrun
  · exact ne_of_closed hq h hadmitted rfl
  · cases hbad

variable {allowed : (Gap → Queue → Queue) → Instant → Poll → Queue → Prop}

theorem Closed.step (hq : Closed ticket q) (h : Step allowed config q q') : Closed ticket q' := by
  cases h with
  | acquire meanwhile now p _ hmeanwhile =>
      apply Tx.commit_rule (Closed ticket) hq
      intro b q' hrun
      obtain ⟨r, l, -, -, ⟨-, hadmitted, rfl⟩ | ⟨-, -, gap, -, rfl⟩⟩ := acquire_ok hrun
      · have hne := ne_of_closed hq hmeanwhile hadmitted
        have hchosen : Closed ticket (Capacity.passed meanwhile now p r q .chosen) := hq.passed hmeanwhile .chosen
        obtain ⟨t, ht, hreleased⟩ := hchosen
        refine ⟨t, ?_, hreleased⟩
        exact ((Table.lookup_modify _ _ _ _).trans (if_neg hne)).trans ht
      · exact hq.passed hmeanwhile gap
  | release => exact hq.rewrites rewrites_release
  | renew => exact hq.rewrites rewrites_renew
  | surroundings => exact hq

/-- A closed ticket stays closed. -/
theorem Closed.run (hq : Closed ticket q) (h : Relation.ReflTransGen (Step allowed config) q q') : Closed ticket q' := by
  induction h with
  | refl => exact hq
  | tail _ hstep ih => exact ih.step hstep

/-! ### Polling in time -/

/-- The caller of a ticket polls it for one Run and resource, alone, and before its lease has run out. -/
def Timely (owner : Uuid → Uuid × String) (meanwhile : Gap → Queue → Queue) (now : Instant) (p : Poll) (q : Queue) :
    Prop :=
  (p.runId, p.resource) = owner p.ticketId ∧ Exclusive p.ticketId meanwhile ∧ Pollable now p q

/-- Every row was queued for the Run and resource of its owner. -/
def Owned (owner : Uuid → Uuid × String) (q : Queue) : Prop :=
  ∀ id t, q.tickets.lookup id = some t → ∃ r, q.authority.runs (owner id).1 = some r ∧ t.resource = (owner id).2 ∧
    t.accountId = r.accountId ∧ t.lane = laneOf r

variable {owner : Uuid → Uuid × String}

theorem Owned.rewrites (hq : Owned owner q) (h : Rewrites q q') : Owned owner q' := by
  intro id t' ht'
  obtain ⟨t, ht, hmove⟩ := h.row_of ht'
  obtain ⟨r, hr, hresource, haccount, hlane⟩ := hq id t ht
  refine ⟨r, ?_, hmove.resource.trans hresource, hmove.account.trans haccount, hmove.lane.trans hlane⟩
  rw [h.authority]
  exact hr

theorem Owned.enqueue (hq : Owned owner q) (howner : (p.runId, p.resource) = owner p.ticketId)
    (hr : q.authority.runs p.runId = some r) : Owned owner (enqueue now p r q) := by
  have hauthority : (Capacity.enqueue now p r q).authority = q.authority := by
    unfold Capacity.enqueue
    split
    · rfl
    · split <;> rfl
  intro id t ht
  rw [hauthority]
  rw [lookup_enqueue] at ht
  split at ht
  · next hid =>
      subst hid
      rw [← howner]
      obtain rfl := Option.some.inj ht
      cases hrow : q.tickets.lookup p.ticketId with
      | none => exact ⟨r, hr, rfl, rfl, rfl⟩
      | some t =>
          obtain ⟨r', hr', hresource, haccount, hlane⟩ := hq p.ticketId t hrow
          rw [← howner] at hr' hresource
          dsimp only
          split
          · exact ⟨r', hr', hresource, haccount, hlane⟩
          · exact ⟨r', hr', hresource, haccount, hlane⟩
  · exact hq id t ht

/-- The Run an admitted poll is for. -/
theorem activeRun_ok {a : Authority} {run : Uuid} (h : activeRun a run = .ok r) : a.runs run = some r := by
  unfold activeRun at h
  cases hr : a.runs run with
  | none =>
      rw [hr] at h
      cases h
  | some r' =>
      rw [hr] at h
      dsimp only at h
      split at h
      · cases hs : r'.source with
        | chat conversation =>
            rw [hs] at h
            exact congrArg some (Except.ok.inj h)
        | work work revision epoch =>
            rw [hs] at h
            dsimp only at h
            cases hcheck : a.checkWork r'.accountId run work revision epoch with
            | error e =>
                rw [hcheck] at h
                cases h
            | ok u =>
                rw [hcheck] at h
                exact congrArg some (Except.ok.inj h)
      · cases h

theorem Owned.passed (hq : Owned owner q) (h : Concurrent p.ticketId meanwhile)
    (howner : (p.runId, p.resource) = owner p.ticketId) (hr : activeRun q.authority p.runId = .ok r) (gap : Gap) :
    Owned owner (passed meanwhile now p r q gap) := by
  have hmoved : Rewrites q (Capacity.passed meanwhile now p r q .swept) :=
    trans_of Rewrites rewrites_sweep (h.rewrites _ _)
  have hswept : Owned owner (Capacity.passed meanwhile now p r q .swept) := hq.rewrites hmoved
  have hrun : (Capacity.passed meanwhile now p r q .swept).authority.runs p.runId = some r := by
    rw [hmoved.authority]
    exact activeRun_ok hr
  have henqueued : Owned owner (Capacity.passed meanwhile now p r q .enqueued) :=
    (hswept.enqueue howner hrun).rewrites (h.rewrites _ _)
  have hopened : Owned owner (openTurn p r (Capacity.passed meanwhile now p r q .enqueued)) := henqueued
  have hturned : Owned owner (Capacity.passed meanwhile now p r q .turned) := hopened.rewrites (h.rewrites _ _)
  have hcounted : Owned owner (Capacity.passed meanwhile now p r q .counted) := hturned.rewrites (h.rewrites _ _)
  cases gap with
  | swept => exact hswept
  | enqueued => exact henqueued
  | turned => exact hturned
  | counted => exact hcounted
  | chosen => exact hcounted.rewrites (h.rewrites _ _)

theorem Owned.hold (hq : Owned owner q) : Owned owner (hold p q) := by
  intro id t' ht'
  have hrow := (Table.lookup_modify q.tickets p.ticketId id fun t => { t with state := TicketState.held }).symm.trans ht'
  split at hrow
  · next hid =>
      obtain ⟨t, ht, rfl⟩ := Option.map_eq_some_iff.mp hrow
      rw [hid]
      exact hq p.ticketId t ht
  · exact hq id t' hrow

theorem Owned.step (hq : Owned owner q) (h : Step (Timely owner) config q q') : Owned owner q' := by
  cases h with
  | acquire meanwhile now p hallowed hmeanwhile =>
      apply Tx.commit_rule (Owned owner) hq
      intro b q' hrun
      obtain ⟨r, l, hr, -, ⟨-, -, rfl⟩ | ⟨-, -, gap, -, rfl⟩⟩ := acquire_ok hrun
      · exact (hq.passed hmeanwhile hallowed.1 hr .chosen).hold
      · exact hq.passed hmeanwhile hallowed.1 hr gap
  | release => exact hq.rewrites rewrites_release
  | renew => exact hq.rewrites rewrites_renew
  | surroundings authority hruns =>
      intro id t ht
      obtain ⟨r, hr, hresource, haccount, hlane⟩ := hq id t ht
      obtain ⟨r', hr', haccount', hwork⟩ := hruns _ r hr
      refine ⟨r', hr', hresource, haccount.trans haccount'.symm, hlane.trans ?_⟩
      unfold laneOf
      rw [hwork]

theorem Reachable.owned (h : Reachable (Timely owner) config q) : Owned owner q := by
  induction h with
  | start authority => exact fun id t ht => nomatch ht
  | step _ hstep ih => exact ih.step hstep

end poll

/-- **A waiting ticket stays live as long as it is polled in time.**  A refused poll of a caller that is alone
leaves the ticket waiting under an unexpired lease if and only if it found it so, or found no row.  In every run
whose polls all do, every refused poll leaves its ticket waiting, and a poll of an idle resource whose limits
have room for the Run is admitted. -/
theorem waiting_tickets_live (config : CapacityConfig) (owner : Uuid → Uuid × String) :
    (∀ meanwhile now p q q', Exclusive p.ticketId meanwhile →
      (acquire config meanwhile now p).run q = .ok (false, q') → (Waiting now p q' ↔ Pollable now p q)) ∧
    ∀ q, Reachable (Timely owner) config q → ∀ meanwhile now p, Timely owner meanwhile now p q →
      (∀ q', (acquire config meanwhile now p).run q = .ok (false, q') → Waiting now p q') ∧
      ∀ r l, activeRun q.authority p.runId = .ok r → config.resourceLimits p.resource = .ok l → Room l r →
        Idle now p q → ∃ q', (acquire config meanwhile now p).run q = .ok (true, q') := by
  refine ⟨fun meanwhile now p q q' hexclusive hrun => waiting_iff hexclusive hrun, ?_⟩
  rintro q hreach meanwhile now p ⟨howner, hexclusive, hpoll⟩
  refine ⟨fun q' hrun => (waiting_iff hexclusive hrun).mpr hpoll, fun r l hr hl hroom hidle => ?_⟩
  refine acquire_admitted hr hl (hidle.not_refused hexclusive hpoll (fun t ht => ?_) hroom)
  obtain ⟨r', hr', hresource, haccount, hlane⟩ := hreach.owned p.ticketId t ht
  rw [← howner] at hr' hresource
  obtain rfl := Option.some.inj (hr'.symm.trans (activeRun_ok hr))
  exact ⟨hresource, haccount, hlane⟩

/-! ### A poll that comes too late -/

/-- Run 7 waits with ticket 1 behind the held ticket. -/
def oneWaiting : Queue := (acquire oneSlot (fun _ q => q) 0 ⟨7, "model", 1⟩).commit oneHeld

/-- The slot is free again. -/
def oneFree : Queue := release 2 oneWaiting

/-- The next poll of ticket 1, just after its lease has run out. -/
def lateQueue : Queue := (acquire oneSlot (fun _ q => q) (leaseTime + 1) ⟨7, "model", 1⟩).commit oneFree

theorem reachable_oneFree : Reachable (fun _ _ _ _ => True) oneSlot oneFree :=
  (reachable_oneHeld.step (.acquire (fun _ q => q) 0 ⟨7, "model", 1⟩ trivial (concurrent_alone 1))).step (.release 2)

/-- Nobody holds the resource when the poll comes; the poll is refused, every ticket is closed after it, and this
one is never admitted whatever happens then. -/
theorem endless_poll :
    Reachable (fun _ _ _ _ => True) oneSlot oneFree ∧ held oneFree (.all "model") = 0 ∧
    (acquire oneSlot (fun _ q => q) (leaseTime + 1) ⟨7, "model", 1⟩).run oneFree = .ok (false, lateQueue) ∧
    ¬Waiting (leaseTime + 1) ⟨7, "model", 1⟩ lateQueue ∧ (∀ e ∈ lateQueue.tickets.entries, e.2.state = .released) ∧
    ∀ q, Relation.ReflTransGen (Step (fun _ _ _ _ => True) oneSlot) lateQueue q → ∀ meanwhile now p q',
      p.ticketId = 1 → Concurrent 1 meanwhile → (acquire oneSlot meanwhile now p).run q ≠ .ok (true, q') := by
  have hclosed : Closed 1 lateQueue := ⟨⟨1, 7, "model", .interactive, .released, leaseTime, 0⟩, by decide +kernel, rfl⟩
  refine ⟨reachable_oneFree, by decide +kernel, Tx.run_commit (by decide +kernel), ?_, by decide +kernel, ?_⟩
  · rintro ⟨t, ht, hwaiting, -⟩
    obtain ⟨t', ht', hreleased⟩ := hclosed
    obtain rfl := Option.some.inj (ht.symm.trans ht')
    rw [hwaiting] at hreleased
    cases hreleased
  · intro q hrun meanwhile now p q' hticket hconcurrent
    have hlate := hclosed.run hrun
    rw [← hticket] at hlate hconcurrent
    exact hlate.acquire hconcurrent

end HpAgent.Capacity
