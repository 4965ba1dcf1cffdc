import HpAgent.Memory.DeletionRuns

/-! # How a deletion ends

`advance` turns what `delete` raises into a status: a rejection is final, anything else is tried again.

* `Phase.handles`: the rejections that the holder expects where it is.
* `Unfailed`: the deletion has not failed, and is not about to.
* `deletion_outcome`: without any other rejection a deletion is never `failed`, and leaves nothing when it is verified.
* `not_deletion_outcome`: a Retain that the backend has rejected is sent again, and its rejection is final. -/

namespace HpAgent.Memory.Deletion

open Governance (SendState ActionStatus)

/-- The holder expects a rejection with the status: there is no document, or there was nothing to find. -/
def Phase.handles : Phase → ℕ → Bool
  | .sender _, _ => true
  | .marked _, _ => true
  | .sent _ _, _ => true
  | .settling _, _ => true
  | .gathering operations, status => status = 404 && operations = []
  | .removing _ _, status => status = 404
  | .proving found, status => status = 404 && found.operations = [] && found.factIds = []
  | _, _ => false

/-- The holder has been answered, but with a rejection that it does not expect. -/
def Phase.surprised (phase : Phase) : Bool :=
  match phase.call with
  | some (_, some (.rejected status)) => !phase.handles status
  | _ => false

/-- The holder gets a rejection that it does not expect. -/
def unexpected (w : World) : Event → Bool
  | .rejected status => w.holder.any fun phase => !phase.handles status
  | .received => w.holder.any Phase.surprised
  | _ => false

/-- The phase does not end in a failure. -/
def Phase.Unfailed : Phase → Prop
  | .ending status => status ≠ .failed
  | .resendFailed status => status ≠ .failed
  | _ => True

/-- The deletion has not failed, and is not about to. -/
structure Unfailed (w : World) : Prop where
  status : ∀ row, w.deletion = some row → row.status ≠ .failed
  phase : ∀ phase, w.holder = some phase → phase.Unfailed

section steps

variable {operation : Uuid} {w w' : World} {phase : Phase}

theorem Unfailed.goes (h : Unfailed w) (hphase : phase.Unfailed) : Unfailed (w.goes phase) :=
  ⟨h.status, fun p hp => by
    obtain rfl := Option.some.inj hp
    exact hphase⟩

theorem Unfailed.release (h : Unfailed w) : Unfailed w.release := ⟨h.status, nofun⟩

theorem Unfailed.saved {status : ActionStatus} (h : Unfailed w) (hstatus : status ≠ .failed) : Unfailed (w.saved status) := by
  unfold World.saved
  split
  next row hrow =>
    split
    · exact h
    · refine ⟨fun row' hrow' => ?_, h.phase⟩
      obtain rfl := Option.some.inj hrow'
      exact hstatus
  next => exact h

theorem Unfailed.orphan {next : Option Phase} (h : Unfailed w) (hnext : ∀ p, next = some p → p.Unfailed) :
    Unfailed { w.orphan phase with holder := next } := by
  obtain ⟨flight, heq, _⟩ := orphan_eq w phase
  rw [heq]
  exact ⟨h.status, hnext⟩

theorem Unfailed.collect {o : Uuid} {p : Operation} {todo : List Task} {operations : List Uuid} (h : Unfailed w) :
    Unfailed (w.collect o p todo operations) := by
  unfold World.collect
  split
  · exact h.goes trivial
  · exact h.goes (show ActionStatus.verifying ≠ .failed by decide)

theorem Unfailed.proceed (h : Unfailed w) (hholder : w.holder = some phase)
    (hstep : Deletion.proceed operation w phase = some w') : Unfailed w' := by
  have hphase := h.phase phase hholder
  have huncertain : (Phase.ending .uncertain).Unfailed := show ActionStatus.uncertain ≠ .failed by decide
  cases phase with
  | sender request =>
      simp only [Deletion.proceed] at hstep
      split at hstep
      · obtain rfl := Option.some.inj hstep
        exact h.release
      · obtain rfl := Option.some.inj hstep
        refine ⟨h.status, fun p hp => ?_⟩
        obtain rfl := Option.some.inj hp
        trivial
  | settling =>
      obtain rfl := Option.some.inj hstep
      refine ⟨h.status, fun p hp => ?_⟩
      cases hp
  | loaded =>
      simp only [Deletion.proceed] at hstep
      split at hstep
      · obtain rfl := Option.some.inj hstep
        exact h.goes trivial
      · split_ifs at hstep
        all_goals obtain rfl := Option.some.inj hstep
        · exact h.goes huncertain
        · exact h.goes trivial
        · exact h.goes trivial
      · cases hstep
  | asking old =>
      simp only [Deletion.proceed] at hstep
      split at hstep
      · obtain rfl := Option.some.inj hstep
        refine h.goes ?_
        split <;> trivial
      · split at hstep
        · obtain rfl := Option.some.inj hstep
          exact h.goes huncertain
        · obtain rfl := Option.some.inj hstep
          exact h.collect
  | doubting | resendFailed =>
      obtain rfl := Option.some.inj hstep
      refine ⟨h.status, fun p hp => ?_⟩
      obtain rfl := Option.some.inj hp
      exact hphase
  | collecting todo operations =>
      obtain _ | ⟨o | o, todo⟩ := todo
      case cons.enter =>
        simp only [Deletion.proceed] at hstep
        split at hstep
        · obtain rfl := Option.some.inj hstep
          exact h.collect
        · obtain rfl := Option.some.inj hstep
          exact h.goes (show ActionStatus.verifying ≠ .failed by decide)
      all_goals
        obtain rfl := Option.some.inj hstep
        exact h.goes trivial
  | recording found =>
      obtain rfl := Option.some.inj hstep
      refine ⟨fun row hrow => ?_, fun p hp => ?_⟩
      · obtain ⟨row₀, hrow₀, rfl⟩ := Option.map_eq_some_iff.mp hrow
        exact h.status row₀ hrow₀
      · obtain rfl := Option.some.inj hp
        trivial
  | looking =>
      obtain rfl := Option.some.inj hstep
      refine h.goes ?_
      split <;> trivial
  | rechecking | confirming =>
      obtain rfl := Option.some.inj hstep
      refine h.goes ?_
      split
      · exact huncertain
      · trivial
  | cleaning operations =>
      cases operations with
      | nil =>
          obtain rfl := Option.some.inj hstep
          exact h.goes (show ActionStatus.verified ≠ .failed by decide)
      | cons o rest =>
          obtain rfl := Option.some.inj hstep
          refine h.goes ?_
          split <;> trivial
  | ending status =>
      obtain rfl := Option.some.inj hstep
      exact (h.saved hphase).release
  | marked | resending | proving =>
      obtain rfl := Option.some.inj hstep
      exact h.goes trivial
  | _ => cases hstep

/-- **An answer** that the holder expects. -/
theorem Unfailed.received (h : Unfailed w) (hholder : w.holder = some phase) (hexpected : unexpected w .received = false)
    (hstep : Deletion.received w phase = some w') : Unfailed w' := by
  have hexpects : ∀ {request : Request} {status : ℕ}, phase.call = some (request, some (.rejected status)) →
      phase.handles status = true := by
    intro request status hcall
    unfold unexpected at hexpected
    rw [hholder] at hexpected
    have hcalm : phase.surprised = false := hexpected
    unfold Phase.surprised at hcalm
    rw [hcall] at hcalm
    simpa using hcalm
  unfold Deletion.received at hstep
  split at hstep
  · obtain rfl := Option.some.inj hstep
    exact h.goes trivial
  · obtain rfl := Option.some.inj hstep
    exact h.goes trivial
  · obtain rfl := Option.some.inj hstep
    exact h.goes trivial
  · obtain rfl := Option.some.inj hstep
    exact h.goes (show ActionStatus.verifying ≠ .failed by decide)
  · cases hexpects rfl
  · obtain rfl := Option.some.inj hstep
    exact h.goes trivial
  · obtain rfl := Option.some.inj hstep
    rw [if_pos (of_decide_eq_true (hexpects rfl))]
    exact h.goes trivial
  · obtain rfl := Option.some.inj hstep
    exact h.goes trivial
  · cases hexpects rfl
  · cases hstep

/-- **A rejection** that the holder expects. -/
theorem Unfailed.rejected {status : ℕ} (h : Unfailed w) (hholder : w.holder = some phase)
    (hexpected : unexpected w (.rejected status) = false) (hstep : Deletion.rejected w status phase = some w') : Unfailed w' := by
  have hhandles : phase.handles status = true := by
    unfold unexpected at hexpected
    rw [hholder] at hexpected
    simpa using hexpected
  unfold Deletion.rejected at hstep
  split at hstep
  · obtain rfl := Option.some.inj hstep
    exact h.goes trivial
  · obtain rfl := Option.some.inj hstep
    exact h.goes trivial
  · cases hhandles
  · cases hhandles
  · cases hhandles
  · obtain rfl := Option.some.inj hstep
    unfold Phase.handles at hhandles
    rw [Bool.and_eq_true, decide_eq_true_eq, decide_eq_true_eq] at hhandles
    rw [if_pos hhandles]
    exact h.goes trivial
  · cases hhandles
  · cases hhandles
  · obtain rfl := Option.some.inj hstep
    unfold Phase.handles at hhandles
    rw [Bool.and_eq_true, Bool.and_eq_true, decide_eq_true_eq, decide_eq_true_eq, decide_eq_true_eq, and_assoc] at hhandles
    rw [if_pos hhandles]
    exact h.goes trivial
  · cases hhandles
  · cases hhandles
  · cases hstep

theorem Unfailed.faulted {waiting : Bool} (h : Unfailed w) (hstep : Deletion.faulted w waiting phase = some w') :
    Unfailed w' := by
  have hend : Unfailed ((w.orphan phase).goes (.ending (if waiting then .verifying else .uncertain))) := by
    refine h.orphan fun p hp => ?_
    obtain rfl := Option.some.inj hp
    show (if waiting then ActionStatus.verifying else .uncertain) ≠ .failed
    split <;> decide
  unfold Deletion.faulted at hstep
  split at hstep
  · obtain rfl := Option.some.inj hstep
    exact h.release
  · obtain rfl := Option.some.inj hstep
    exact h.goes trivial
  · obtain rfl := Option.some.inj hstep
    refine h.orphan fun p hp => ?_
    obtain rfl := Option.some.inj hp
    trivial
  · cases hstep
  · obtain rfl := Option.some.inj hstep
    exact h.goes (show ActionStatus.uncertain ≠ .failed by decide)
  · obtain rfl := Option.some.inj hstep
    refine h.orphan fun p hp => ?_
    obtain rfl := Option.some.inj hp
    show ActionStatus.uncertain ≠ .failed
    decide
  · cases hstep
  · cases hstep
  · obtain rfl := Option.some.inj hstep
    exact hend

/-- **One event** does not make the deletion fail, unless the holder gets a rejection that it does not expect. -/
theorem unfailed_step {e : Event} (h : Unfailed w) (hexpected : unexpected w e = false) (hstep : step operation w e = some w') :
    Unfailed w' := by
  cases e with
  | forget =>
      obtain ⟨-, ⟨⟩⟩ := Option.ite_none_right_eq_some.mp hstep
      refine ⟨fun row hrow => ?_, h.phase⟩
      obtain rfl := Option.some.inj hrow
      nofun
  | startSender | startDelete =>
      obtain ⟨-, ⟨⟩⟩ := Option.ite_none_right_eq_some.mp hstep
      exact h.goes trivial
  | busy =>
      obtain ⟨-, ⟨⟩⟩ := Option.ite_none_right_eq_some.mp hstep
      exact h.saved nofun
  | proceed =>
      obtain ⟨phase, hholder, hstep⟩ := Option.bind_eq_some_iff.mp hstep
      exact h.proceed hholder hstep
  | gathered factIds =>
      obtain ⟨phase, _, hstep⟩ := Option.bind_eq_some_iff.mp hstep
      unfold gathered at hstep
      split at hstep
      · obtain rfl := Option.some.inj hstep
        exact h.goes trivial
      · cases hstep
  | received =>
      obtain ⟨phase, hholder, hstep⟩ := Option.bind_eq_some_iff.mp hstep
      exact h.received hholder hexpected hstep
  | rejected status =>
      obtain ⟨phase, hholder, hstep⟩ := Option.bind_eq_some_iff.mp hstep
      exact h.rejected hholder hexpected hstep
  | faulted waiting =>
      obtain ⟨phase, _, hstep⟩ := Option.bind_eq_some_iff.mp hstep
      exact h.faulted hstep
  | die =>
      obtain ⟨phase, _, rfl⟩ := Option.map_eq_some_iff.mp hstep
      exact h.orphan nofun
  | deliver v =>
      obtain ⟨phase, hholder, hstep⟩ := Option.bind_eq_some_iff.mp hstep
      have hphase := h.phase phase hholder
      split at hstep
      next request hcall =>
        obtain ⟨b, _, ⟨⟩⟩ := Option.bind_eq_some_iff.mp hstep
        refine ⟨h.status, fun p hp => ?_⟩
        obtain rfl := Option.some.inj hp
        cases phase with
        | _ => exact hphase
      next => cases hstep
  | deliverLate i v =>
      obtain ⟨request, _, hstep⟩ := Option.bind_eq_some_iff.mp hstep
      obtain ⟨b, _, ⟨⟩⟩ := Option.bind_eq_some_iff.mp hstep
      exact ⟨h.status, h.phase⟩
  | finish | spawn =>
      obtain ⟨b, _, ⟨⟩⟩ := Option.bind_eq_some_iff.mp hstep
      exact ⟨h.status, h.phase⟩

end steps

/-! ### Every run -/

/-- The sender of the Retain is at rest when the deletion starts, and the deletion does not lose one of its own. -/
structure SettledSenders (w : World) (e : Event) : Prop where
  starts : e = .startDelete → w.retain.sendState = .idle ∨ Certain w.retain
  keeps : KeepsResends w e

/-- Nothing is left at the backend or in the rows. -/
structure Nothing (w : World) : Prop where
  document : w.backend.document = false
  operations : ∀ o, w.backend.operations o = none
  payloads : w.payloads = false

/-- A deletion is verified and has left nothing, or can be tried again. -/
def Outcome (w : World) : Prop :=
  ∀ row, w.deletion = some row → row.status ≠ .failed ∧ (row.status = .verified → Nothing w) ∧
    (row.status ≠ .verified → row.isOver = false)

section runs

variable {operation : Uuid} {w : World}

theorem Cleaned.nothing (h : Cleaned w) (hinv : Inv operation w) : Nothing w := by
  obtain ⟨hdocument, hpayloads, found, hfound, hall⟩ := h
  refine ⟨hdocument, fun o => ?_, hpayloads⟩
  by_contra hknown
  rcases hall o (hinv.known found hfound o (Option.isSome_iff_ne_none.mpr hknown)) with hmem | hnone
  · cases hmem
  · exact hknown hnone

theorem World.Start.unfailed (h : w.Start) : Unfailed w := by
  refine ⟨fun row hrow => ?_, fun phase hp => ?_⟩
  · rw [h.deletion] at hrow
    cases hrow
  · rw [h.holder] at hp
    cases hp

/-- **How a deletion ends**, however its sender was when it started, when its holder gets no rejection that it does not expect. -/
theorem deletion_outcome {w₀ : World} (hstart : w₀.Start)
    (h : Reaches operation (fun w e => KeepsResends w e ∧ unexpected w e = false) w₀ w) : Outcome w := by
  have hunfailed : Unfailed w := by
    induction h with
    | refl => exact hstart.unfailed
    | tail _ hnext ih =>
        obtain ⟨e, hallowed, hstep⟩ := hnext
        exact unfailed_step ih hallowed.2 hstep
  have hsound : Sound operation w := by
    have hreach : Reaches operation KeepsResends w₀ w :=
      Relation.ReflTransGen.mono (fun _ _ ⟨e, hallowed, hstep⟩ => ⟨e, hallowed.1, hstep⟩) _ _ h
    exact sound_reaches hstart.sound hreach
  intro row hrow
  refine ⟨hunfailed.status row hrow, fun hstatus => ?_, fun hstatus => ?_⟩
  · rcases hsound with hinv | hlegacy
    · exact (hinv.verified row hrow hstatus).nothing hinv
    · exact absurd hstatus (hlegacy.status row hrow)
  · unfold DeletionRow.isOver
    rw [Bool.or_eq_false_iff, decide_eq_false_iff_not, decide_eq_false_iff_not]
    exact ⟨hstatus, hunfailed.status row hrow⟩

/-- The sender is at rest when the deletion starts, and nobody dies. -/
def settledSenders (w : World) (e : Event) : Bool :=
  e ≠ .die && (e ≠ .startDelete || w.retain.sendState = .idle ||
    (w.retain.sendState = .settled && w.retain.sendUncertain = false))

theorem settledSenders_spec (w : World) (e : Event) (h : settledSenders w e = true) : SettledSenders w e := by
  unfold settledSenders at h
  rw [Bool.and_eq_true, Bool.or_eq_true, Bool.or_eq_true, Bool.and_eq_true, decide_eq_true_eq, decide_eq_true_eq,
    decide_eq_true_eq, decide_eq_true_eq, decide_eq_true_eq] at h
  refine ⟨fun heq => ?_, keepsResends_of_noDeath w e (decide_eq_true h.1)⟩
  rcases h.2 with (hne | hidle) | hcertain
  · exact absurd heq hne
  · exact .inl hidle
  · exact .inr hcertain

/-- **A deletion that fails**: the backend rejects the Retain a second time. -/
theorem not_deletion_outcome : ¬∀ (operation : Uuid) (w₀ w : World), w₀.Start →
    Reaches operation SettledSenders w₀ w → Outcome w := by
  intro hall
  obtain ⟨w, hw, hfailed⟩ : ∃ w, run 1 settledSenders unsent (rejectedRetain ++ resend ++
      [.deliver (.rejected 422), .received, .proceed, .proceed]) = some w ∧
      (w.deletion.any fun row => row.status = .failed) = true :=
    (Option.any_eq_true ..).mp (show (Option.any _ (run 1 settledSenders unsent _)) = true by decide)
  obtain ⟨row, hrow, hstatus⟩ := (Option.any_eq_true ..).mp hfailed
  exact (hall 1 unsent w unsent_start (reaches_of_run settledSenders_spec hw) row hrow).1 (of_decide_eq_true hstatus)

theorem deletion_outcome_unsent : ∃ w, Outcome w ∧ Verified w := by
  obtain ⟨w, hw, hverified⟩ : ∃ w, run 1 (fun w e => noDeath w e && !unexpected w e) unsent
      (rejectedRetain ++ resend ++ accept ++ remove) = some w ∧ (w.deletion.any fun row => row.status = .verified) = true :=
    (Option.any_eq_true ..).mp (show (Option.any _ (run 1 _ unsent _)) = true by decide)
  obtain ⟨row, hrow, hstatus⟩ := (Option.any_eq_true ..).mp hverified
  refine ⟨w, deletion_outcome unsent_start (reaches_of_run (fun w e hcheck => ?_) hw), row, hrow, of_decide_eq_true hstatus⟩
  rw [Bool.and_eq_true, Bool.not_eq_true'] at hcheck
  exact ⟨keepsResends_of_noDeath w e hcheck.1, hcheck.2⟩

end runs

end HpAgent.Memory.Deletion
