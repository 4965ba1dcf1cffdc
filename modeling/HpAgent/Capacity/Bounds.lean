import HpAgent.Capacity.Tickets

/-! # Capacity bounds

Every statement of the service but the last one of a successful poll leaves no more tickets held than before
(`Shrinks`; most of them only move rows, `Rewrites`), and that one finds room in every class of its ticket (`room_of_admitted`).  So no class ever
exceeds its bound: `Step.bounded` for one step, `capacity_bounded` for every run, at any clock readings and
under any change of the Runs and accounts. -/

namespace HpAgent.Capacity

open Library

/-! ### Statements that admit nobody -/

/-- What may become of a row: it keeps what it is about, is not admitted, and stays released. -/
structure RowMove (t t' : Ticket) : Prop where
  resource : t'.resource = t.resource
  account : t'.accountId = t.accountId
  lane : t'.lane = t.lane
  held : t'.state = .held → t.state = .held
  released : t.state = .released → t'.state = .released

instance : IsPreorder Ticket RowMove where
  refl _ := ⟨rfl, rfl, rfl, id, id⟩
  trans _ _ _ h₁ h₂ :=
    ⟨h₂.resource.trans h₁.resource, h₂.account.trans h₁.account, h₂.lane.trans h₁.lane,
      fun h => h₁.held (h₂.held h), fun h => h₂.released (h₁.released h)⟩

/-- The same rows, each of them moved. -/
structure Rewrites (q q' : Queue) : Prop where
  authority : q'.authority = q.authority
  turns : q'.turns = q.turns
  row : ∀ id t, q.tickets.lookup id = some t → ∃ t', q'.tickets.lookup id = some t' ∧ RowMove t t'
  only : ∀ id, q.tickets.lookup id = none → q'.tickets.lookup id = none

instance : IsPreorder Queue Rewrites where
  refl _ := ⟨rfl, rfl, fun _ t ht => ⟨t, ht, refl_of RowMove t⟩, fun _ h => h⟩
  trans _ _ _ h₁ h₂ := by
    refine ⟨h₂.authority.trans h₁.authority, h₂.turns.trans h₁.turns, fun id t ht => ?_,
      fun id h => h₂.only id (h₁.only id h)⟩
    obtain ⟨t₁, ht₁, hmove₁⟩ := h₁.row id t ht
    obtain ⟨t₂, ht₂, hmove₂⟩ := h₂.row id t₁ ht₁
    exact ⟨t₂, ht₂, trans_of RowMove hmove₁ hmove₂⟩

/-- A row of the new queue was there before. -/
theorem Rewrites.row_of {q q' : Queue} (h : Rewrites q q') {id : Uuid} {t' : Ticket}
    (ht' : q'.tickets.lookup id = some t') : ∃ t, q.tickets.lookup id = some t ∧ RowMove t t' := by
  cases ht : q.tickets.lookup id with
  | none =>
      rw [h.only id ht] at ht'
      cases ht'
  | some t =>
      obtain ⟨t'', ht'', hmove⟩ := h.row id t ht
      obtain rfl := Option.some.inj (ht''.symm.trans ht')
      exact ⟨t, rfl, hmove⟩

/-- Every ticket that is held now was held before, in the same classes. -/
def Shrinks (q q' : Queue) : Prop :=
  ∀ id t', q'.tickets.lookup id = some t' → t'.state = .held →
    ∃ t, q.tickets.lookup id = some t ∧ t.state = .held ∧ ∀ c : Class, c.Has t' → c.Has t

instance : IsPreorder Queue Shrinks where
  refl _ _ t' ht hheld := ⟨t', ht, hheld, fun _ hc => hc⟩
  trans _ _ _ h₁ h₂ id t₂ ht hheld := by
    obtain ⟨t₁, ht₁, hheld₁, hc₁⟩ := h₂ id t₂ ht hheld
    obtain ⟨t, ht, hheld, hc⟩ := h₁ id t₁ ht₁ hheld₁
    exact ⟨t, ht, hheld, fun c h => hc c (hc₁ c h)⟩

theorem Shrinks.held_le {q q' : Queue} (h : Shrinks q q') (c : Class) : held q' c ≤ held q c := by
  apply Table.countWhere_le
  rintro id t' ht' ⟨hheld, hc⟩
  obtain ⟨t, ht, hheld', hclass⟩ := h id t' ht' hheld
  exact ⟨t, ht, hheld', hclass c hc⟩

/-- Two tickets that differ in state and lease are in the same classes. -/
theorem Class.has_congr {t t' : Ticket} (c : Class) (hresource : t'.resource = t.resource)
    (haccount : t'.accountId = t.accountId) (hlane : t'.lane = t.lane) : c.Has t' ↔ c.Has t := by
  cases c <;> simp only [Class.Has, hresource, haccount, hlane]

theorem Rewrites.shrinks {q q' : Queue} (h : Rewrites q q') : Shrinks q q' := by
  intro id t' ht' hheld
  obtain ⟨t, ht, hmove⟩ := h.row_of ht'
  exact ⟨t, ht, hmove.held hheld, fun c hc => (c.has_congr hmove.resource hmove.account hmove.lane).mp hc⟩

section statements

variable {now : Instant} {p : Poll} {r : Run} {q : Queue} {ticket : Uuid}

theorem Ticket.rowMove_expire (t : Ticket) : RowMove t (t.expire now) := by
  unfold Ticket.expire
  split
  · exact ⟨rfl, rfl, rfl, nofun, fun _ => rfl⟩
  · exact refl_of RowMove t

theorem rewrites_sweep : Rewrites q (sweep now q) := by
  have hrows : ∀ id, (sweep now q).tickets.lookup id = (q.tickets.lookup id).map (Ticket.expire now) :=
    fun id => Table.lookup_updateAll _ _ _
  refine ⟨rfl, rfl, fun id t ht => ⟨t.expire now, ?_, t.rowMove_expire⟩, fun id h => ?_⟩
  · rw [hrows, ht]
    rfl
  · rw [hrows, h]
    rfl

/-- A statement on the row of one ticket. -/
theorem rewrites_modify {f : Ticket → Ticket} (hf : ∀ t, RowMove t (f t)) :
    Rewrites q { q with tickets := Table.modify ticket f q.tickets } := by
  have hrows := fun id => Table.lookup_modify q.tickets ticket id f
  refine ⟨rfl, rfl, fun id t ht => ?_, fun id h => ?_⟩
  · by_cases hid : id = ticket
    · refine ⟨f t, ?_, hf t⟩
      rw [hrows, if_pos hid, ← hid, ht]
      rfl
    · refine ⟨t, ?_, refl_of RowMove t⟩
      rw [hrows, if_neg hid, ht]
  · rw [hrows]
    split
    · next hid => rw [← hid, h]; rfl
    · exact h

theorem rewrites_release : Rewrites q (release ticket q) :=
  rewrites_modify fun _ => ⟨rfl, rfl, rfl, nofun, fun _ => rfl⟩

theorem rewrites_renew : Rewrites q (renew now ticket q).2 := by
  refine rewrites_modify fun t => ?_
  split
  · exact ⟨rfl, rfl, rfl, id, id⟩
  · exact refl_of RowMove t

theorem shrinks_enqueue : Shrinks q (enqueue now p r q) := by
  intro id t' ht' hheld
  unfold enqueue at ht'
  split at ht'
  · dsimp only at ht'
    rw [Table.lookup_insert_ite] at ht'
    split at ht'
    · obtain rfl := Option.some.inj ht'
      cases hheld
    · exact ⟨t', ht', hheld, fun _ hc => hc⟩
  · next t ht =>
      split at ht'
      · dsimp only at ht'
        rw [Table.lookup_insert_ite] at ht'
        split at ht'
        · next hid =>
            obtain rfl := Option.some.inj ht'
            have hsame : ∀ c : Class, c.Has { t with leaseUntil := now + leaseTime } ↔ c.Has t :=
              fun c => c.has_congr rfl rfl rfl
            exact ⟨t, by rw [hid, ht], hheld, fun c => (hsame c).mp⟩
        · exact ⟨t', ht', hheld, fun _ hc => hc⟩
      · exact ⟨t', ht', hheld, fun _ hc => hc⟩

theorem shrinks_openTurn : Shrinks q (openTurn p r q) := fun _ t' ht' hheld => ⟨t', ht', hheld, fun _ h => h⟩

theorem shrinks_admit : Shrinks q (admitTurn now p r q) := fun _ t' ht' hheld => ⟨t', ht', hheld, fun _ h => h⟩

theorem rewrites_intrusions {locked : Option Uuid} {q' : Queue} (h : Relation.ReflTransGen (Intrusion locked) q q') :
    Rewrites q q' := by
  induction h with
  | refl => exact refl_of Rewrites q
  | tail _ hstep ih =>
      refine trans_of Rewrites ih ?_
      cases hstep with
      | release => exact rewrites_release
      | renew => exact rewrites_renew

/-- A locked row stays as it is. -/
theorem lookup_intrusions {q' : Queue} (h : Relation.ReflTransGen (Intrusion (some ticket)) q q') :
    q'.tickets.lookup ticket = q.tickets.lookup ticket := by
  induction h with
  | refl => rfl
  | tail _ hstep ih =>
      rw [← ih]
      cases hstep with
      | release other hfree =>
          refine (Table.lookup_modify _ _ _ _).trans (if_neg ?_)
          rintro rfl
          exact hfree rfl
      | renew _ other hfree =>
          refine (Table.lookup_modify _ _ _ _).trans (if_neg ?_)
          rintro rfl
          exact hfree rfl

end statements

/-! ### A poll -/

section poll

variable {config : CapacityConfig} {meanwhile : Gap → Queue → Queue} {now : Instant} {p : Poll} {r : Run}
  {q : Queue} {l : Limits}

theorem Concurrent.rewrites (h : Concurrent p.ticketId meanwhile) (gap : Gap) (q : Queue) :
    Rewrites q (meanwhile gap q) := by
  by_cases hgap : gap = .swept
  · subst hgap
    exact rewrites_intrusions (h.before q)
  · exact rewrites_intrusions (h.after gap hgap q)

/-- Up to its last gap a poll admits nobody. -/
theorem Concurrent.shrinks_passed (h : Concurrent p.ticketId meanwhile) (gap : Gap) :
    Shrinks q (passed meanwhile now p r q gap) := by
  have hswept : Shrinks q (passed meanwhile now p r q .swept) := (trans_of Rewrites rewrites_sweep (h.rewrites _ _)).shrinks
  have henqueued : Shrinks q (passed meanwhile now p r q .enqueued) :=
    trans_of Shrinks (trans_of Shrinks hswept shrinks_enqueue) (h.rewrites _ _).shrinks
  have hturned : Shrinks q (passed meanwhile now p r q .turned) :=
    trans_of Shrinks (trans_of Shrinks henqueued shrinks_openTurn) (h.rewrites _ _).shrinks
  have hcounted : Shrinks q (passed meanwhile now p r q .counted) := trans_of Shrinks hturned (h.rewrites _ _).shrinks
  cases gap with
  | swept => exact hswept
  | enqueued => exact henqueued
  | turned => exact hturned
  | counted => exact hcounted
  | chosen => exact trans_of Shrinks hcounted (h.rewrites _ _).shrinks

/-- **There is room for the ticket a poll admits**, in each of its classes. -/
theorem room_of_admitted (h : Concurrent p.ticketId meanwhile) (hadmitted : ¬refused meanwhile now p r q l) :
    ∃ t, (passed meanwhile now p r q .chosen).tickets.lookup p.ticketId = some t ∧ t.resource = p.resource ∧
      ∀ c : Class, c.Has t → held (passed meanwhile now p r q .chosen) c < c.bound l := by
  unfold refused at hadmitted
  rw [not_or, not_not] at hadmitted
  obtain ⟨hfull, hfirst⟩ := hadmitted
  obtain ⟨t, ht, helig⟩ := eligible_of_winner hfirst
  have hchosen := lookup_intrusions (h.after .chosen nofun (passed meanwhile now p r q .counted))
  have hlater : Shrinks (passed meanwhile now p r q .turned) (passed meanwhile now p r q .chosen) :=
    (trans_of Rewrites (h.rewrites .counted _) (h.rewrites .chosen _)).shrinks
  have hlast : Shrinks (passed meanwhile now p r q .counted) (passed meanwhile now p r q .chosen) :=
    (h.rewrites .chosen _).shrinks
  -- the counts at the gap `turned`, and those of the row's own account when the winner was chosen
  unfold saturated at hfull
  unfold eligible at helig
  simp only [Bool.or_eq_true, Bool.and_eq_true, decide_eq_true_eq, not_or, not_and, not_le] at hfull helig
  obtain ⟨⟨htotal, -⟩, hbackground⟩ := hfull
  obtain ⟨⟨⟨⟨⟨hresource, hlane⟩, -⟩, -⟩, haccount⟩, hown⟩ := helig
  refine ⟨t, hchosen.trans ht, hresource, fun c hc => ?_⟩
  cases c with
  | all resource =>
      obtain rfl : p.resource = resource := hresource.symm.trans hc
      exact (hlater.held_le _).trans_lt htotal
  | account resource account =>
      obtain ⟨hcr, rfl⟩ := hc
      obtain rfl : p.resource = resource := hresource.symm.trans hcr
      exact (hlast.held_le _).trans_lt haccount
  | background resource =>
      obtain ⟨hcr, hback⟩ := hc
      obtain rfl : p.resource = resource := hresource.symm.trans hcr
      exact (hlater.held_le _).trans_lt (hbackground (hlane.symm.trans hback)).1
  | accountBackground resource account =>
      obtain ⟨hcr, rfl, hback⟩ := hc
      obtain rfl : p.resource = resource := hresource.symm.trans hcr
      exact (hlast.held_le _).trans_lt (hown.resolve_left (not_not.mpr hback))

/-- Admitting a ticket adds at most one to each of its classes and nothing to the others. -/
theorem held_hold {t : Ticket} (ht : q.tickets.lookup p.ticketId = some t) (c : Class) :
    held (hold p q) c ≤ held q c + if c.Has t then 1 else 0 := by
  have hrows : ∀ id, (hold p q).tickets.lookup id =
      if id = p.ticketId then some { t with state := .held } else q.tickets.lookup id := by
    intro id
    have hmodify := Table.lookup_modify q.tickets p.ticketId id fun t => { t with state := TicketState.held }
    rw [ht] at hmodify
    exact hmodify
  split
  · apply Table.countWhere_le_succ p.ticketId
    rintro id t' hid ht' ⟨hheld, hc⟩
    rw [hrows, if_neg hid] at ht'
    exact ⟨t', ht', hheld, hc⟩
  · next hno =>
      rw [Nat.add_zero]
      apply Table.countWhere_le
      rintro id t' ht' ⟨hheld, hc⟩
      rw [hrows] at ht'
      split at ht'
      · obtain rfl := Option.some.inj ht'
        have hsame : c.Has { t with state := .held } ↔ c.Has t := c.has_congr rfl rfl rfl
        exact absurd (hsame.mp hc) hno
      · exact ⟨t', ht', hheld, hc⟩

end poll

/-! ### Runs -/

/-- The bound of a class; nothing of an unsupported resource is ever held. -/
def Class.cap (config : CapacityConfig) (c : Class) : ℕ :=
  match config.resourceLimits c.resource with
  | .ok l => c.bound l
  | .error _ => 0

/-- No class exceeds its bound. -/
def Bounded (config : CapacityConfig) (q : Queue) : Prop := ∀ c : Class, held q c ≤ c.cap config

theorem Bounded.of_shrinks {config : CapacityConfig} {q q' : Queue} (hq : Bounded config q) (h : Shrinks q q') :
    Bounded config q' := fun c => (h.held_le c).trans (hq c)

/-- No Run changes its account or its Work. -/
def SameRuns (a a' : Authority) : Prop :=
  ∀ run r, a.runs run = some r → ∃ r', a'.runs run = some r' ∧ r'.accountId = r.accountId ∧ r'.workId = r.workId

/-- One call of any worker; `allowed` is what is assumed about the polls. -/
inductive Step (allowed : (Gap → Queue → Queue) → Instant → Poll → Queue → Prop) (config : CapacityConfig) (q : Queue) : Queue → Prop
  | acquire (meanwhile : Gap → Queue → Queue) (now : Instant) (p : Poll) (hallowed : allowed meanwhile now p q)
      (hmeanwhile : Concurrent p.ticketId meanwhile) : Step allowed config q ((acquire config meanwhile now p).commit q)
  | release (ticket : Uuid) : Step allowed config q (release ticket q)
  | renew (now : Instant) (ticket : Uuid) : Step allowed config q (renew now ticket q).2
  | surroundings (authority : Authority) (hruns : SameRuns q.authority authority) :
      Step allowed config q { q with authority := authority }

/-- The queues a sequence of calls can reach from empty tables. -/
inductive Reachable (allowed : (Gap → Queue → Queue) → Instant → Poll → Queue → Prop) (config : CapacityConfig) : Queue → Prop
  | start (authority : Authority) : Reachable allowed config ⟨authority, ∅, ∅⟩
  | step {q q' : Queue} (h : Reachable allowed config q) (hstep : Step allowed config q q') : Reachable allowed config q'

section runs

variable {allowed : (Gap → Queue → Queue) → Instant → Poll → Queue → Prop} {config : CapacityConfig} {q q' : Queue}

/-- **One call keeps every bound.** -/
theorem Step.bounded (h : Step allowed config q q') (hq : Bounded config q) : Bounded config q' := by
  cases h with
  | acquire meanwhile now p _ hmeanwhile =>
      apply Tx.commit_rule (Bounded config) hq
      intro b q' hrun
      obtain ⟨r, l, -, hl, ⟨-, hadmitted, rfl⟩ | ⟨-, -, gap, -, rfl⟩⟩ := acquire_ok hrun
      · obtain ⟨t, ht, hresource, hroom⟩ := room_of_admitted hmeanwhile hadmitted
        refine Bounded.of_shrinks (fun c => ?_) shrinks_admit
        have hpassed : Shrinks q (passed meanwhile now p r q .chosen) := hmeanwhile.shrinks_passed .chosen
        have hbefore := hq.of_shrinks hpassed c
        refine (held_hold ht c).trans ?_
        split
        · next hc =>
            have hcap : c.cap config = c.bound l := by
              unfold Class.cap
              rw [← hc.resource_eq, hresource, hl]
            have hlt := hroom c hc
            rw [hcap]
            omega
        · exact hbefore
      · exact hq.of_shrinks (hmeanwhile.shrinks_passed gap)
  | release => exact hq.of_shrinks rewrites_release.shrinks
  | renew => exact hq.of_shrinks rewrites_renew.shrinks
  | surroundings => exact hq

theorem Reachable.bounded (h : Reachable allowed config q) : Bounded config q := by
  induction h with
  | start authority => exact fun c => Nat.zero_le _
  | step _ hstep ih => exact hstep.bounded ih

/-- How many tickets of the class are held under a lease that has not run out. -/
def heldUnexpired (now : Instant) (q : Queue) (c : Class) : ℕ :=
  Table.countWhere (fun _ t => (t.state = .held ∧ now < t.leaseUntil) ∧ c.Has t) q.tickets

theorem heldUnexpired_le (now : Instant) (c : Class) : heldUnexpired now q c ≤ held q c := by
  apply Table.countWhere_le
  rintro id t ht ⟨⟨hheld, -⟩, hc⟩
  exact ⟨t, ht, hheld, hc⟩

/-- **Capacity bounds.** In every reachable queue, whatever the clock readings, the tickets of a resource that
are held do not exceed its total, those of one account the account's cap, those of background Runs what the
interactive reserve leaves, and those of one account's background Runs its background cap; so neither do those
whose lease has not run out. -/
theorem capacity_bounded (h : Reachable (fun _ _ _ _ => True) config q) {resource : String} {l : Limits}
    (hl : config.resourceLimits resource = .ok l) :
    (held q (.all resource) ≤ l.total ∧
      (∀ account, held q (.account resource account) ≤ l.perAccount) ∧
      (held q (.background resource) : ℤ) ≤ max 0 ((l.total : ℤ) - l.interactive) ∧
      ∀ account, (held q (.accountBackground resource account) : ℤ) ≤
        max 0 ((l.perAccount : ℤ) - if 0 < l.interactive then 1 else 0)) ∧
    ∀ now c, heldUnexpired now q c ≤ held q c := by
  have hbound : ∀ c : Class, c.resource = resource → held q c ≤ c.bound l := by
    intro c hc
    have hcap := h.bounded c
    unfold Class.cap at hcap
    rw [hc, hl] at hcap
    exact hcap
  refine ⟨⟨hbound (.all resource) rfl, fun account => hbound (.account resource account) rfl, ?_, fun account => ?_⟩,
    fun now c => heldUnexpired_le now c⟩
  · have hb : held q (.background resource) ≤ l.total - l.interactive := hbound (.background resource) rfl
    omega
  · have hb : held q (.accountBackground resource account) ≤ l.perAccount - if 0 < l.interactive then 1 else 0 :=
      hbound (.accountBackground resource account) rfl
    split at hb <;> omega

end runs

/-! ### One held ticket -/

/-- One account with two running conversation Runs. -/
def twoRuns : Authority where
  accounts a := if a = 1 then some ⟨true, none⟩ else none
  conversations _ _ := true
  runs r := if r = 7 ∨ r = 8 then some ⟨1, .chat 3, .running⟩ else none
  works _ := none
  executions _ := none
  rootExecution _ := none
  leases _ := none
  snapshotRevoked _ := false

/-- A single slot for model calls. -/
def oneSlot : CapacityConfig := { capacityModelGlobal := 1 }

/-- Run 8 holds the slot with ticket 2. -/
def oneHeld : Queue := (acquire oneSlot (fun _ q => q) 0 ⟨8, "model", 2⟩).commit ⟨twoRuns, ∅, ∅⟩

theorem reachable_oneHeld : Reachable (fun _ _ _ _ => True) oneSlot oneHeld :=
  (Reachable.start twoRuns).step (.acquire (fun _ q => q) 0 ⟨8, "model", 2⟩ trivial (concurrent_alone 2))

theorem capacity_bounded_oneHeld : held oneHeld (.all "model") = 1 ∧ held oneHeld (.all "model") ≤ 1 :=
  ⟨by decide +kernel, (capacity_bounded reachable_oneHeld (l := ⟨1, 4, 3⟩) rfl).1.1⟩

end HpAgent.Capacity
