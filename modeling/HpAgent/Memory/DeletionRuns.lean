import HpAgent.Memory.DeletionSteps

/-! # Deletions over time

Workers, redelivered events, deaths and late requests in any order.

* `LegacyInv`: the deletion of a source gets nowhere when its sender is from before the columns.
* `Reaches`: any number of events, all of them allowed.
* `NoResurrection`: what a verified deletion is worth, and what is so when the document is removed.
* `no_resurrection`: it holds as long as no Retain that was re-sent is lost; `not_no_resurrection`: and not without. -/

namespace HpAgent.Memory.Deletion

open Governance (SendState ActionStatus)

variable {allowed : World → Event → Prop}

/-! ### Senders from before the columns -/

/-- Where the holder can be for a row whose sender is from before the columns. -/
def LegacyPhase : Phase → Prop
  | .sender request => request.writes = true
  | .marked request => request.writes = true
  | .sent request _ => request.writes = true
  | .settling _ => True
  | .loaded => True
  | .ending status => status ≠ .verified
  | _ => False

/-- The deletion of such a source gets nowhere. -/
structure LegacyInv (w : World) : Prop where
  legacy : w.retain.legacySender = true
  evidence : w.evidence = none
  status : ∀ row, w.deletion = some row → row.status ≠ .verified
  flight : ∀ request ∈ w.flight, request.writes = true
  phase : ∀ phase, w.holder = some phase → LegacyPhase phase

section legacy

variable {operation : Uuid} {w w' : World} {phase : Phase}

theorem LegacyInv.goes (h : LegacyInv w) (hphase : LegacyPhase phase) : LegacyInv (w.goes phase) :=
  ⟨h.legacy, h.evidence, h.status, h.flight, fun p hp => by
    obtain rfl := Option.some.inj hp
    exact hphase⟩

theorem LegacyInv.orphan {next : Option Phase} (h : LegacyInv w) (hholder : w.holder = some phase)
    (hnext : ∀ p, next = some p → LegacyPhase p) : LegacyInv { w.orphan phase with holder := next } := by
  have hphase := h.phase phase hholder
  obtain ⟨flight, heq, hmem⟩ := orphan_eq w phase
  rw [heq]
  refine ⟨h.legacy, h.evidence, h.status, fun request hrequest => ?_, hnext⟩
  rcases hmem request hrequest with hold | hcall
  · exact h.flight request hold
  · cases phase with
    | sent r reply =>
        obtain ⟨rfl, _⟩ := Prod.mk.inj (Option.some.inj hcall)
        exact hphase
    | resent reply => exact hphase.elim
    | removing found reply => exact hphase.elim
    | forgetting o rest reply => exact hphase.elim
    | _ => cases hcall

theorem LegacyInv.saved {status : ActionStatus} (h : LegacyInv w) (hstatus : status ≠ .verified) :
    LegacyInv (w.saved status) := by
  unfold World.saved
  split
  next row hrow =>
    split
    · exact h
    · have hevidence : w.evidence = row.evidence := by
        unfold World.evidence
        rw [hrow]
        rfl
      refine ⟨h.legacy, hevidence.symm.trans h.evidence, fun row' hrow' => ?_, h.flight, h.phase⟩
      obtain rfl := Option.some.inj hrow'
      exact hstatus
  next => exact h

theorem LegacyInv.leave (h : LegacyInv w) : LegacyInv w.release := ⟨h.legacy, h.evidence, h.status, h.flight, nofun⟩

theorem LegacyInv.proceed (h : LegacyInv w) (hphase : LegacyPhase phase)
    (hstep : Deletion.proceed operation w phase = some w') : LegacyInv w' := by
  cases phase with
  | sender request =>
      simp only [Deletion.proceed] at hstep
      split at hstep
      · obtain rfl := Option.some.inj hstep
        exact h.leave
      · obtain rfl := Option.some.inj hstep
        refine ⟨h.legacy, h.evidence, h.status, h.flight, fun p hp => ?_⟩
        obtain rfl := Option.some.inj hp
        exact hphase
  | marked request =>
      obtain rfl := Option.some.inj hstep
      exact h.goes hphase
  | settling state =>
      obtain rfl := Option.some.inj hstep
      refine ⟨h.legacy, h.evidence, h.status, h.flight, fun p hp => ?_⟩
      cases hp
  | loaded =>
      simp only [Deletion.proceed] at hstep
      split at hstep
      next status found hrow =>
        have hevidence := h.evidence
        unfold World.evidence at hevidence
        rw [hrow] at hevidence
        cases hevidence
      next =>
        rw [if_pos h.legacy] at hstep
        obtain rfl := Option.some.inj hstep
        exact h.goes (show ActionStatus.uncertain ≠ .verified by decide)
      next => cases hstep
  | ending status =>
      obtain rfl := Option.some.inj hstep
      exact (h.saved hphase).leave
  | sent request reply => cases hstep
  | _ => exact hphase.elim

theorem LegacyInv.faulted {waiting : Bool} (h : LegacyInv w) (hholder : w.holder = some phase)
    (hstep : Deletion.faulted w waiting phase = some w') : LegacyInv w' := by
  have hphase := h.phase phase hholder
  cases phase with
  | sender request =>
      obtain rfl := Option.some.inj hstep
      exact h.leave
  | marked request =>
      obtain rfl := Option.some.inj hstep
      exact h.goes trivial
  | sent request reply =>
      obtain rfl := Option.some.inj hstep
      refine h.orphan hholder fun p hp => ?_
      obtain rfl := Option.some.inj hp
      trivial
  | loaded =>
      obtain rfl := Option.some.inj hstep
      refine h.orphan hholder fun p hp => ?_
      obtain rfl := Option.some.inj hp
      show (if waiting then ActionStatus.verifying else .uncertain) ≠ .verified
      split <;> decide
  | settling | ending => cases hstep
  | _ => exact hphase.elim

/-- **One event** on a source whose sender is from before the columns. -/
theorem legacy_step {e : Event} (h : LegacyInv w) (hstep : step operation w e = some w') : LegacyInv w' := by
  cases e with
  | forget =>
      obtain ⟨-, ⟨⟩⟩ := Option.ite_none_right_eq_some.mp hstep
      refine ⟨h.legacy, rfl, fun row hrow => ?_, h.flight, h.phase⟩
      obtain rfl := Option.some.inj hrow
      nofun
  | startSender retry =>
      obtain ⟨-, ⟨⟩⟩ := Option.ite_none_right_eq_some.mp hstep
      refine h.goes ?_
      cases retry <;> rfl
  | startDelete =>
      obtain ⟨-, ⟨⟩⟩ := Option.ite_none_right_eq_some.mp hstep
      exact h.goes trivial
  | busy =>
      obtain ⟨-, ⟨⟩⟩ := Option.ite_none_right_eq_some.mp hstep
      exact h.saved nofun
  | proceed =>
      obtain ⟨phase, hholder, hstep⟩ := Option.bind_eq_some_iff.mp hstep
      exact h.proceed (h.phase phase hholder) hstep
  | gathered factIds =>
      obtain ⟨phase, hholder, hstep⟩ := Option.bind_eq_some_iff.mp hstep
      have hphase := h.phase phase hholder
      unfold gathered at hstep
      split at hstep
      · exact hphase.elim
      · cases hstep
  | received =>
      obtain ⟨phase, hholder, hstep⟩ := Option.bind_eq_some_iff.mp hstep
      have hphase := h.phase phase hholder
      unfold received at hstep
      split at hstep
      · obtain rfl := Option.some.inj hstep
        exact h.goes trivial
      · obtain rfl := Option.some.inj hstep
        exact h.goes trivial
      · obtain rfl := Option.some.inj hstep
        exact h.goes trivial
      all_goals first | exact hphase.elim | cases hstep
  | rejected status =>
      obtain ⟨phase, hholder, hstep⟩ := Option.bind_eq_some_iff.mp hstep
      have hphase := h.phase phase hholder
      unfold rejected at hstep
      split at hstep
      · obtain rfl := Option.some.inj hstep
        exact h.goes trivial
      · obtain rfl := Option.some.inj hstep
        exact h.goes trivial
      all_goals first | exact hphase.elim | cases hstep
  | faulted waiting =>
      obtain ⟨phase, hholder, hstep⟩ := Option.bind_eq_some_iff.mp hstep
      exact h.faulted hholder hstep
  | die =>
      obtain ⟨phase, hholder, rfl⟩ := Option.map_eq_some_iff.mp hstep
      exact h.orphan hholder nofun
  | deliver v =>
      obtain ⟨phase, hholder, hstep⟩ := Option.bind_eq_some_iff.mp hstep
      have hphase := h.phase phase hholder
      split at hstep
      next request hcall =>
        obtain ⟨b, _, ⟨⟩⟩ := Option.bind_eq_some_iff.mp hstep
        refine ⟨h.legacy, h.evidence, h.status, h.flight, fun p hp => ?_⟩
        obtain rfl := Option.some.inj hp
        cases phase with
        | _ => exact hphase
      next => cases hstep
  | deliverLate i v =>
      obtain ⟨request, _, hstep⟩ := Option.bind_eq_some_iff.mp hstep
      obtain ⟨b, _, ⟨⟩⟩ := Option.bind_eq_some_iff.mp hstep
      exact ⟨h.legacy, h.evidence, h.status, fun q hq => h.flight q (List.mem_of_mem_eraseIdx hq), h.phase⟩
  | finish | spawn =>
      obtain ⟨b, _, ⟨⟩⟩ := Option.bind_eq_some_iff.mp hstep
      exact ⟨h.legacy, h.evidence, h.status, h.flight, h.phase⟩

end legacy

/-! ### Runs -/

/-- An event that is allowed. -/
def Next (operation : Uuid) (allowed : World → Event → Prop) (w w' : World) : Prop :=
  ∃ e, allowed w e ∧ step operation w e = some w'

/-- Any number of events that are allowed. -/
def Reaches (operation : Uuid) (allowed : World → Event → Prop) : World → World → Prop :=
  Relation.ReflTransGen (Next operation allowed)

/-- A source that nobody has deleted yet; what is on its way, or at the backend, is from before the columns. -/
structure World.Start (w : World) : Prop where
  deletion : w.deletion = none
  holder : w.holder = none
  flight : ∀ request ∈ w.flight, request.writes = true
  unsent : w.retain.legacySender = false →
    w.retain.sendState = .idle ∧ w.flight = [] ∧ ∀ o, w.backend.operations o = none

/-- The deletion is verified. -/
def Verified (w : World) : Prop := ∃ row, w.deletion = some row ∧ row.status = .verified

/-- No request that makes the backend write is on its way, of the holder or of anybody who has gone. -/
structure NoneInFlight (w : World) : Prop where
  late : Quiet w
  holder : ∀ phase request, w.holder = some phase → phase.call = some (request, none) → request.writes = false

/-- What a deletion is worth. -/
structure NoResurrection (operation : Uuid) (allowed : World → Event → Prop) (w : World) : Prop where
  /-- A verified deletion stays verified; nothing is sent any more, and the document stays away. -/
  forever : Verified w → ∀ w', Reaches operation allowed w w' →
    Verified w' ∧ NoneInFlight w' ∧ w'.backend.document = false
  /-- Whatever was sent is over when the document is removed. -/
  removal : ∀ e w', step operation w e = some w' → w.backend.document = true → w'.backend.document = false →
    AllOver w.backend ∧ NoneInFlight w

section runs

variable {operation : Uuid} {w w' : World} {phase : Phase}

theorem Inv.noneInFlight {found : Found} (h : Inv operation w) (hfound : w.evidence = some found) : NoneInFlight w := by
  refine ⟨(h.calm found hfound).flight, fun phase request hholder hcall => ?_⟩
  by_contra hwrites
  obtain ⟨hnone, _⟩ := (h.phase phase hholder).none_of_call hcall (by simpa using hwrites)
  rw [hfound] at hnone
  cases hnone

theorem saved_verified {status : ActionStatus} (h : Verified w) : Verified (w.saved status) := by
  obtain ⟨row, hrow, hstatus⟩ := h
  unfold World.saved
  rw [hrow]
  have hover : row.isOver = true := Bool.or_eq_true_iff.mpr (.inl (decide_eq_true hstatus))
  dsimp only
  rw [if_pos hover]
  exact ⟨row, hrow, hstatus⟩

/-- The backend is as it was, and a verified deletion stays verified. -/
structure Keeps (w w' : World) : Prop where
  backend : w'.backend = w.backend
  verified : Verified w → Verified w'

theorem Keeps.of_deletion (hbackend : w'.backend = w.backend) (hdeletion : w'.deletion = w.deletion) : Keeps w w' := by
  refine ⟨hbackend, fun h => ?_⟩
  unfold Verified
  rw [hdeletion]
  exact h

theorem keeps_saved (w : World) (status : ActionStatus) : Keeps w (w.saved status) := by
  refine ⟨?_, saved_verified⟩
  unfold World.saved
  split
  · split <;> rfl
  · rfl

theorem keeps_orphan (w : World) (phase : Phase) (next : Option Phase) : Keeps w { w.orphan phase with holder := next } := by
  obtain ⟨flight, heq, _⟩ := orphan_eq w phase
  rw [heq]
  exact .of_deletion rfl rfl

theorem keeps_collect (w : World) (o : Uuid) (p : Operation) (todo : List Task) (operations : List Uuid) :
    Keeps w (w.collect o p todo operations) := by
  unfold World.collect
  split
  · exact .of_deletion rfl rfl
  · exact .of_deletion rfl rfl

theorem keeps_proceed (h : proceed operation w phase = some w') : Keeps w w' := by
  unfold proceed at h
  split at h
  case h_12 found =>
    -- the evidence is recorded under the status there was
    obtain rfl := Option.some.inj h
    refine ⟨rfl, fun hverified => ?_⟩
    obtain ⟨row, hrow, hstatus⟩ := hverified
    exact ⟨{ row with evidence := some found }, by dsimp only; rw [hrow]; rfl, hstatus⟩
  case h_19 status =>
    obtain rfl := Option.some.inj h
    obtain ⟨hbackend, hverified⟩ := keeps_saved w status
    exact ⟨hbackend, hverified⟩
  all_goals
    repeat' split at h
    all_goals first
      | (obtain rfl := Option.some.inj h; exact .of_deletion rfl rfl)
      | (obtain rfl := Option.some.inj h; exact keeps_collect ..)
      | cases h

theorem keeps_received (h : received w phase = some w') : Keeps w w' := by
  unfold received at h
  split at h
  all_goals first
    | (obtain rfl := Option.some.inj h; exact .of_deletion rfl rfl)
    | cases h

theorem keeps_rejected {status : ℕ} (h : rejected w status phase = some w') : Keeps w w' := by
  unfold rejected at h
  split at h
  all_goals first
    | (obtain rfl := Option.some.inj h; exact .of_deletion rfl rfl)
    | (split at h
       · cases h
       · obtain rfl := Option.some.inj h
         exact .of_deletion rfl rfl)
    | cases h

theorem keeps_faulted {waiting : Bool} (h : faulted w waiting phase = some w') : Keeps w w' := by
  unfold faulted at h
  split at h
  all_goals first
    | (obtain rfl := Option.some.inj h; exact .of_deletion rfl rfl)
    | (obtain rfl := Option.some.inj h; exact keeps_orphan ..)
    | cases h

/-- What makes the backend write leaves the document where it is. -/
theorem apply_document {b b' : Backend} {request : Request} {v : Verdict} (hwrites : request.writes = true)
    (h : b.apply operation request v = some b') : b'.document = b.document := by
  cases request with
  | retain =>
      cases v with
      | accepted =>
          simp only [Backend.apply] at h
          split at h
          · obtain rfl := Option.some.inj h
            rfl
          · obtain rfl := Option.some.inj h
            rfl
      | rejected status =>
          obtain rfl := Option.some.inj h
          rfl
  | retry =>
      cases v with
      | accepted =>
          simp only [Backend.apply] at h
          split at h
          · split at h
            · obtain rfl := Option.some.inj h
              rfl
            · cases h
          · cases h
      | rejected status =>
          obtain rfl := Option.some.inj h
          rfl
  | deleteDocument => cases hwrites
  | deleteOperation o => cases hwrites

/-- A request that may remove the document has been sent. -/
def Removing (w : World) : Prop :=
  (∃ phase request, w.holder = some phase ∧ phase.call = some (request, none) ∧ request.writes = false) ∨
    ∃ request ∈ w.flight, request.writes = false

/-- **One event**: a verified deletion stays verified, and only a request for it removes the document. -/
theorem step_spec {e : Event} (hstep : step operation w e = some w') :
    (Verified w → Verified w') ∧ (w.backend.document = true → w'.backend.document = false → Removing w) := by
  have hkeeps : Keeps w w' → (Verified w → Verified w') ∧
      (w.backend.document = true → w'.backend.document = false → Removing w) := by
    rintro ⟨hbackend, hverified⟩
    refine ⟨hverified, fun hthere haway => ?_⟩
    rw [hbackend, hthere] at haway
    cases haway
  cases e with
  | forget =>
      obtain ⟨hnone, ⟨⟩⟩ := Option.ite_none_right_eq_some.mp hstep
      refine hkeeps ⟨rfl, ?_⟩
      rintro ⟨row, hrow, _⟩
      rw [hrow] at hnone
      cases hnone
  | startSender | startDelete =>
      obtain ⟨-, ⟨⟩⟩ := Option.ite_none_right_eq_some.mp hstep
      exact hkeeps (.of_deletion rfl rfl)
  | busy =>
      obtain ⟨-, ⟨⟩⟩ := Option.ite_none_right_eq_some.mp hstep
      exact hkeeps (keeps_saved w .uncertain)
  | proceed =>
      obtain ⟨phase, _, hstep⟩ := Option.bind_eq_some_iff.mp hstep
      exact hkeeps (keeps_proceed hstep)
  | gathered factIds =>
      obtain ⟨phase, _, hstep⟩ := Option.bind_eq_some_iff.mp hstep
      unfold gathered at hstep
      split at hstep
      · obtain rfl := Option.some.inj hstep
        exact hkeeps (.of_deletion rfl rfl)
      · cases hstep
  | received =>
      obtain ⟨phase, _, hstep⟩ := Option.bind_eq_some_iff.mp hstep
      exact hkeeps (keeps_received hstep)
  | rejected status =>
      obtain ⟨phase, _, hstep⟩ := Option.bind_eq_some_iff.mp hstep
      exact hkeeps (keeps_rejected hstep)
  | faulted waiting =>
      obtain ⟨phase, _, hstep⟩ := Option.bind_eq_some_iff.mp hstep
      exact hkeeps (keeps_faulted hstep)
  | die =>
      obtain ⟨phase, _, rfl⟩ := Option.map_eq_some_iff.mp hstep
      exact hkeeps (keeps_orphan w phase none)
  | deliver v =>
      obtain ⟨phase, hholder, hstep⟩ := Option.bind_eq_some_iff.mp hstep
      split at hstep
      next request hcall =>
        obtain ⟨b, hb, hstep⟩ := Option.bind_eq_some_iff.mp hstep
        obtain rfl := Option.some.inj hstep
        refine ⟨fun h => h, fun hthere haway => .inl ⟨phase, request, hholder, hcall, ?_⟩⟩
        by_contra hwrites
        have hsame := apply_document (by simpa using hwrites) hb
        have haway' : b.document = false := haway
        rw [haway', hthere] at hsame
        cases hsame
      next => cases hstep
  | deliverLate i v =>
      obtain ⟨request, hrequest, hstep⟩ := Option.bind_eq_some_iff.mp hstep
      obtain ⟨b, hb, hstep⟩ := Option.bind_eq_some_iff.mp hstep
      obtain rfl := Option.some.inj hstep
      refine ⟨fun h => h, fun hthere haway => .inr ⟨request, List.mem_of_getElem? hrequest, ?_⟩⟩
      by_contra hwrites
      have hsame := apply_document (by simpa using hwrites) hb
      have haway' : b.document = false := haway
      rw [haway', hthere] at hsame
      cases hsame
  | finish o status written =>
      obtain ⟨b, hb, hstep⟩ := Option.bind_eq_some_iff.mp hstep
      obtain rfl := Option.some.inj hstep
      obtain ⟨p, _, _, rfl⟩ := finish_some hb
      refine ⟨fun h => h, fun hthere haway => ?_⟩
      have haway' : (w.backend.document || written) = false := haway
      rw [hthere] at haway'
      cases haway'
  | spawn o child =>
      obtain ⟨b, hb, hstep⟩ := Option.bind_eq_some_iff.mp hstep
      obtain rfl := Option.some.inj hstep
      obtain ⟨p, _, _, _, _, rfl⟩ := spawn_some hb
      refine ⟨fun h => h, fun hthere haway => ?_⟩
      have haway' : w.backend.document = false := haway
      rw [hthere] at haway'
      cases haway'

/-! ### Every run -/

/-- No event loses a Retain that was re-sent. -/
def KeepsResends (w : World) (e : Event) : Prop := ¬LosesResend w e

theorem World.Start.inv (h : w.Start) (hlegacy : w.retain.legacySender = false) : Inv operation w := by
  obtain ⟨hidle, hflight, hops⟩ := h.unsent hlegacy
  have hnone : w.evidence = none := by
    unfold World.evidence
    rw [h.deletion]
    rfl
  have hquiet : Quiet w := by
    intro request hmem
    rw [hflight] at hmem
    cases hmem
  refine ⟨fun phase hp => ?_, .inl hquiet, fun hunknown => ?_, fun _ => ⟨hquiet, hops⟩, fun _ => ⟨fun o ho => ?_, h.flight⟩,
    fun found hfound => ?_, fun found hfound => ?_, fun row hrow _ => ?_⟩
  · rw [h.holder] at hp
    cases hp
  · rw [hidle] at hunknown
    cases hunknown
  · rw [hops o] at ho
    cases ho
  · rw [hnone] at hfound
    cases hfound
  · rw [hnone] at hfound
    cases hfound
  · rw [h.deletion] at hrow
    cases hrow

theorem World.Start.legacyInv (h : w.Start) (hlegacy : w.retain.legacySender = true) : LegacyInv w := by
  refine ⟨hlegacy, ?_, fun row hrow => ?_, h.flight, fun phase hp => ?_⟩
  · unfold World.evidence
    rw [h.deletion]
    rfl
  · rw [h.deletion] at hrow
    cases hrow
  · rw [h.holder] at hp
    cases hp

/-- The invariant of either kind of sender. -/
def Sound (operation : Uuid) (w : World) : Prop := Inv operation w ∨ LegacyInv w

theorem World.Start.sound (h : w.Start) : Sound operation w := by
  cases hlegacy : w.retain.legacySender with
  | false => exact .inl (h.inv hlegacy)
  | true => exact .inr (h.legacyInv hlegacy)

theorem sound_reaches (h : Sound operation w) (hreach : Reaches operation KeepsResends w w') : Sound operation w' := by
  induction hreach with
  | refl => exact h
  | tail _ hnext ih =>
      obtain ⟨e, hkept, hstep⟩ := hnext
      rcases ih with hinv | hlegacy
      · exact .inl (inv_step hinv hkept hstep)
      · exact .inr (legacy_step hlegacy hstep)

theorem verified_reaches (h : Verified w) (hreach : Reaches operation allowed w w') :
    Verified w' := by
  induction hreach with
  | refl => exact h
  | tail _ hnext ih =>
      obtain ⟨e, _, hstep⟩ := hnext
      exact (step_spec hstep).1 ih

/-- **Deletions are for good**, as long as no Retain that the deletion re-sends is lost. -/
theorem no_resurrection {w₀ : World} (hstart : w₀.Start) (h : Reaches operation KeepsResends w₀ w) :
    NoResurrection operation KeepsResends w := by
  have hsound : Sound operation w := sound_reaches hstart.sound h
  refine ⟨fun hverified w' hreach => ?_, fun e w' hstep hthere haway => ?_⟩
  · have hverified' := verified_reaches hverified hreach
    refine ⟨hverified', ?_⟩
    obtain ⟨row, hrow, hstatus⟩ := hverified'
    rcases sound_reaches hsound hreach with hinv | hlegacy
    · have hcleaned := hinv.verified row hrow hstatus
      obtain ⟨found, hfound, _⟩ := hcleaned.gone
      exact ⟨hinv.noneInFlight hfound, hcleaned.document⟩
    · exact absurd hstatus (hlegacy.status row hrow)
  · have hremoving := (step_spec hstep).2 hthere haway
    rcases hsound with hinv | hlegacy
    · obtain ⟨found, hfound⟩ : ∃ found, w.evidence = some found := by
        rcases hremoving with ⟨phase, request, hholder, hcall, hwrites⟩ | ⟨request, hmem, hwrites⟩
        · exact (hinv.phase phase hholder).evidence_of_call hcall hwrites
        · cases hfound : w.evidence with
          | some found => exact ⟨found, rfl⟩
          | none =>
              rw [(hinv.rooted hfound).2 request hmem] at hwrites
              cases hwrites
      exact ⟨(hinv.calm found hfound).allOver, hinv.noneInFlight hfound⟩
    · rcases hremoving with ⟨phase, request, hholder, hcall, hwrites⟩ | ⟨request, hmem, hwrites⟩
      · have hphase := hlegacy.phase phase hholder
        cases phase with
        | sent r reply =>
            obtain ⟨rfl, _⟩ := Prod.mk.inj (Option.some.inj hcall)
            have hwrites' : r.writes = true := hphase
            rw [hwrites'] at hwrites
            cases hwrites
        | resent reply => exact hphase.elim
        | removing found reply => exact hphase.elim
        | forgetting o rest reply => exact hphase.elim
        | _ => cases hcall
      · rw [hlegacy.flight request hmem] at hwrites
        cases hwrites

end runs

/-! ### Two deletions -/

section instances

variable {operation : Uuid} {check : World → Event → Bool} {w w' : World} {events rest : List Event}

theorem run_append (w : World) (events rest : List Event) :
    run operation check w (events ++ rest) = (run operation check w events).bind fun w' => run operation check w' rest := by
  induction events generalizing w with
  | nil => rfl
  | cons e events ih =>
      rw [List.cons_append]
      show (if check w e = true then (step operation w e).bind fun w' => run operation check w' (events ++ rest) else none) =
        (if check w e = true then (step operation w e).bind fun w' => run operation check w' events else none).bind _
      split
      · rw [Option.bind_assoc]
        exact congrArg _ (funext ih)
      · rfl

theorem reaches_of_run (hallowed : ∀ w e, check w e = true → allowed w e)
    (h : run operation check w events = some w') : Reaches operation allowed w w' := by
  induction events generalizing w with
  | nil =>
      obtain rfl := Option.some.inj h
      exact .refl
  | cons e events ih =>
      unfold run at h
      split at h
      next hcheck =>
        obtain ⟨w₁, hstep, h⟩ := Option.bind_eq_some_iff.mp h
        exact .head ⟨e, hallowed w e hcheck, hstep⟩ (ih h)
      next => cases h

end instances

/-- Any event. -/
def anyEvent (_ : World) (_ : Event) : Bool := true

/-- Any event but a death. -/
def noDeath (_ : World) (e : Event) : Bool := e ≠ .die

theorem keepsResends_of_noDeath (w : World) (e : Event) (h : noDeath w e = true) : KeepsResends w e := by
  intro hlost
  cases e with
  | die => cases h
  | _ => exact hlost

/-- A source whose Retain has not been sent yet. -/
def unsent : World := ⟨⟨.idle, false, false⟩, none, true, ⟨fun _ => none, false⟩, [], none⟩

theorem unsent_start : unsent.Start := ⟨rfl, rfl, nofun, fun _ => ⟨rfl, rfl, fun _ => rfl⟩⟩

/-- The Retain is rejected, and the source forgotten. -/
def rejectedRetain : List Event :=
  [.startSender false, .proceed, .proceed, .deliver (.rejected 422), .received, .proceed, .forget]

/-- The deletion finds the Retain unknown and sends it again. -/
def resend : List Event := [.startDelete, .proceed, .proceed, .proceed]

/-- The Retain that was sent again is accepted, and processed. -/
def accept : List Event := [.deliver .accepted, .received, .proceed, .finish 1 .completed true]

/-- The deletion removes the document and the operation. -/
def remove : List Event :=
  [.startDelete, .proceed, .proceed, .proceed, .proceed, .gathered [], .proceed, .proceed, .deliver .accepted, .received,
    .proceed, .proceed, .proceed, .deliver .accepted, .received, .proceed, .proceed, .proceed]

/-- **A deletion that is undone**: the process that sends the Retain again dies, and its request comes last. -/
theorem not_no_resurrection : ¬∀ (operation : Uuid) (w₀ w : World), w₀.Start →
    Reaches operation (fun _ _ => True) w₀ w → NoResurrection operation (fun _ _ => True) w := by
  intro hall
  obtain ⟨w, hw, hverified⟩ : ∃ w, run 1 anyEvent unsent (rejectedRetain ++ resend ++ [.die] ++ resend ++ accept ++ remove) = some w ∧
      (w.deletion.any fun row => row.status = .verified) = true :=
    (Option.any_eq_true ..).mp (show (Option.any _ (run 1 anyEvent unsent _)) = true by decide)
  obtain ⟨w', hw', hdocument⟩ : ∃ w', run 1 anyEvent unsent (rejectedRetain ++ resend ++ [.die] ++ resend ++ accept ++ remove ++
      [.deliverLate 0 .accepted, .finish 1 .completed true]) = some w' ∧ w'.backend.document = true :=
    (Option.any_eq_true ..).mp (show (Option.any _ (run 1 anyEvent unsent _)) = true by decide)
  rw [run_append, hw] at hw'
  obtain ⟨row, hrow, hstatus⟩ := (Option.any_eq_true ..).mp hverified
  have hforever := (hall 1 unsent w unsent_start (reaches_of_run (fun _ _ _ => trivial) hw)).forever
    ⟨row, hrow, of_decide_eq_true hstatus⟩ w' (reaches_of_run (fun _ _ _ => trivial) hw')
  rw [hforever.2.2] at hdocument
  cases hdocument

theorem no_resurrection_unsent : ∃ w, NoResurrection 1 KeepsResends w ∧ Verified w := by
  obtain ⟨w, hw, hverified⟩ : ∃ w, run 1 noDeath unsent (rejectedRetain ++ resend ++ accept ++ remove) = some w ∧
      (w.deletion.any fun row => row.status = .verified) = true :=
    (Option.any_eq_true ..).mp (show (Option.any _ (run 1 noDeath unsent _)) = true by decide)
  obtain ⟨row, hrow, hstatus⟩ := (Option.any_eq_true ..).mp hverified
  exact ⟨w, no_resurrection unsent_start (reaches_of_run keepsResends_of_noDeath hw), row, hrow, of_decide_eq_true hstatus⟩

end HpAgent.Memory.Deletion
