import HpAgent.Memory.Deletion
import Mathlib.Logic.Relation
import Mathlib.Tactic.Common

/-! # What an event keeps

The invariant of a source, its deletion and the backend, for a Retain whose sender has always kept its row.

* `Rooted`, `AllOver`: what the backend knows of the source belongs to the Retain, and nothing of it is going on.
* `Certain`, `Calm`: the sender of the Retain is known to be at rest, and so is everything else.
* `PhaseOk`, `Inv`: the invariant; `Covered.allOver` is what `collect` is for.
* `inv_step`: every event keeps it, but for the loss of a Retain that the deletion has re-sent (`LosesResend`). -/

namespace HpAgent.Memory.Deletion

open Governance (SendState ActionStatus)

variable {todo : List Task} {flight : List Request} {reply : Option Verdict}

/-! ### The backend -/

/-- The second operation is a child of the first. -/
def ChildAt (b : Backend) (o child : Uuid) : Prop := ∃ p, b.operations o = some p ∧ child ∈ p.children

/-- Every operation that is known descends from that of the Retain. -/
def Rooted (operation : Uuid) (b : Backend) : Prop :=
  ∀ o, (b.operations o).isSome = true → Relation.ReflTransGen (ChildAt b) operation o

/-- No operation is going on. -/
def AllOver (b : Backend) : Prop := ∀ o p, b.operations o = some p → p.status.terminal = true

section backend

variable {operation o child : Uuid} {b b' : Backend} {status : RemoteStatus} {written : Bool} {request : Request}
  {v : Verdict}

@[simp] theorem set_operations (b : Backend) (o o' : Uuid) (p : Option Operation) :
    (b.set o p).operations o' = if o' = o then p else b.operations o' := by
  unfold Backend.set
  dsimp only
  rw [Function.update_apply]

theorem finish_some (h : b.finish o status written = some b') : ∃ p, b.operations o = some p ∧ p.status.terminal = false ∧
    b' = { b.set o (some { p with status := status }) with document := b.document || written } := by
  unfold Backend.finish at h
  split at h
  next p hp =>
    split at h
    · cases h
    next hterminal => exact ⟨p, hp, by simpa using hterminal, (Option.some.inj h).symm⟩
  next => cases h

theorem spawn_some (h : b.spawn operation o child = some b') : ∃ p, b.operations o = some p ∧ p.status.terminal = false ∧
    b.operations child = none ∧ child ≠ operation ∧
    b' = (b.set o (some { p with children := p.children ++ [child] })).set child (some ⟨.pending, []⟩) := by
  unfold Backend.spawn at h
  split at h
  next p hp hchild =>
    split at h
    · cases h
    next hguard =>
      rw [Bool.or_eq_true, not_or, decide_eq_true_eq] at hguard
      exact ⟨p, hp, by simpa using hguard.1, hchild, hguard.2, (Option.some.inj h).symm⟩
  next => cases h

/-- What the backend does on its own: what is over stays as it is, and what was unknown comes from what is not over. -/
structure Works (b b' : Backend) : Prop where
  finished : ∀ o p, b.operations o = some p → p.status.terminal = true → b'.operations o = some p
  busy : ∃ o p, b.operations o = some p ∧ p.status.terminal = false

theorem finish_works (h : b.finish o status written = some b') : Works b b' := by
  obtain ⟨p, hp, hterminal, rfl⟩ := finish_some h
  refine ⟨fun o' p' hp' hover => ?_, o, p, hp, hterminal⟩
  have hne : o' ≠ o := by
    rintro rfl
    rw [Option.some.inj (hp.symm.trans hp'), hover] at hterminal
    cases hterminal
  dsimp only
  rw [set_operations, if_neg hne]
  exact hp'

theorem spawn_works (h : b.spawn operation o child = some b') : Works b b' := by
  obtain ⟨p, hp, hterminal, hchild, _, rfl⟩ := spawn_some h
  refine ⟨fun o' p' hp' hover => ?_, o, p, hp, hterminal⟩
  have hne : o' ≠ o := by
    rintro rfl
    rw [Option.some.inj (hp.symm.trans hp'), hover] at hterminal
    cases hterminal
  have hne' : o' ≠ child := by
    rintro rfl
    rw [hchild] at hp'
    cases hp'
  rw [set_operations, if_neg hne', set_operations, if_neg hne]
  exact hp'

/-- Children that stay children carry what is reached. -/
theorem Rooted.mono (h : Rooted operation b) (hkept : ∀ o child, ChildAt b o child → ChildAt b' o child)
    (hnew : ∀ o, (b'.operations o).isSome = true → (b.operations o).isSome = true ∨
      o = operation ∨ ∃ p, (b.operations p).isSome = true ∧ ChildAt b' p o) : Rooted operation b' := by
  have hreach : ∀ o, Relation.ReflTransGen (ChildAt b) operation o → Relation.ReflTransGen (ChildAt b') operation o :=
    fun o ho => Relation.ReflTransGen.mono (fun p child hp => hkept p child hp) _ _ ho
  intro o ho
  rcases hnew o ho with hold | rfl | ⟨p, hp, hchild⟩
  · exact hreach o (h o hold)
  · exact .refl
  · exact (hreach p (h p hp)).tail hchild

theorem childAt_set {p : Operation} (hp : b.operations o = some p) (p' : Operation) (hsub : ∀ c ∈ p.children, c ∈ p'.children)
    {x c : Uuid} (h : ChildAt b x c) : ChildAt (b.set o (some p')) x c := by
  obtain ⟨q, hq, hc⟩ := h
  by_cases hx : x = o
  · subst hx
    obtain rfl := Option.some.inj (hp.symm.trans hq)
    exact ⟨p', by rw [set_operations, if_pos rfl], hsub c hc⟩
  · exact ⟨q, by rw [set_operations, if_neg hx]; exact hq, hc⟩

theorem finish_rooted (h : Rooted operation b) (hb : b.finish o status written = some b') : Rooted operation b' := by
  obtain ⟨p, hp, _, rfl⟩ := finish_some hb
  refine h.mono (fun x c hc => childAt_set hp { p with status := status } (fun _ hmem => hmem) hc) fun x hx => .inl ?_
  dsimp only at hx
  rw [set_operations] at hx
  split at hx
  next heq =>
    rw [heq, hp]
    rfl
  next => exact hx

theorem spawn_rooted (h : Rooted operation b) (hb : b.spawn operation o child = some b') : Rooted operation b' := by
  obtain ⟨p, hp, _, hchild, _, rfl⟩ := spawn_some hb
  have hne : o ≠ child := by
    rintro rfl
    rw [hchild] at hp
    cases hp
  refine h.mono (fun x c hc => ?_) fun x hx => ?_
  · obtain ⟨q, hq, hc⟩ := childAt_set hp { p with children := p.children ++ [child] }
      (fun _ hmem => List.mem_append_left [child] hmem) hc
    refine ⟨q, ?_, hc⟩
    rw [set_operations, if_neg]
    · exact hq
    · rintro rfl
      rw [set_operations, if_neg hne.symm, hchild] at hq
      cases hq
  · rw [set_operations] at hx
    split at hx
    next heq =>
      refine .inr (.inr ⟨o, by rw [hp]; rfl, { p with children := p.children ++ [child] }, ?_, ?_⟩)
      · rw [set_operations, if_neg hne, set_operations, if_pos rfl]
      · rw [heq]
        exact List.mem_append_right _ (List.mem_singleton.mpr rfl)
    next =>
      rw [set_operations] at hx
      split at hx
      next heq =>
        rw [heq, hp]
        exact .inl rfl
      next => exact .inl hx

/-- A request that writes opens or reopens the operation of the Retain, or does nothing. -/
theorem apply_rooted (h : Rooted operation b) (hwrites : request.writes = true)
    (hb : b.apply operation request v = some b') : Rooted operation b' := by
  cases request with
  | retain =>
      cases v with
      | accepted =>
          simp only [Backend.apply] at hb
          split at hb
          · obtain rfl := Option.some.inj hb
            exact h
          next hnone =>
            obtain rfl := Option.some.inj hb
            refine h.mono (fun x c hc => ?_) fun x hx => ?_
            · obtain ⟨q, hq, hc⟩ := hc
              refine ⟨q, ?_, hc⟩
              rw [set_operations, if_neg]
              · exact hq
              · rintro rfl
                rw [hnone] at hq
                cases hq
            · rw [set_operations] at hx
              split at hx
              next heq => exact .inr (.inl heq)
              next => exact .inl hx
      | rejected status =>
          obtain rfl := Option.some.inj hb
          exact h
  | retry =>
      cases v with
      | accepted =>
          simp only [Backend.apply] at hb
          split at hb
          next p hp =>
            split at hb
            · obtain rfl := Option.some.inj hb
              refine h.mono (fun x c hc => childAt_set hp { p with status := .pending } (fun _ hmem => hmem) hc)
                fun x hx => .inl ?_
              rw [set_operations] at hx
              split at hx
              next heq =>
                rw [heq, hp]
                rfl
              next => exact hx
            · cases hb
          next => cases hb
      | rejected status =>
          obtain rfl := Option.some.inj hb
          exact h
  | deleteDocument => cases hwrites
  | deleteOperation o => cases hwrites

/-- What a request that removes something leaves. -/
structure Removes (b b' : Backend) : Prop where
  operations : ∀ o p, b'.operations o = some p → b.operations o = some p
  document : b'.document = true → b.document = true

theorem apply_removes (hwrites : request.writes = false) (hb : b.apply operation request v = some b') : Removes b b' := by
  cases request with
  | retain => cases hwrites
  | retry => cases hwrites
  | deleteDocument =>
      cases v with
      | accepted =>
          simp only [Backend.apply] at hb
          split at hb
          · obtain rfl := Option.some.inj hb
            exact ⟨fun _ _ h => h, nofun⟩
          · cases hb
      | rejected status =>
          simp only [Backend.apply] at hb
          split at hb
          · cases hb
          · obtain rfl := Option.some.inj hb
            exact ⟨fun _ _ h => h, fun h => h⟩
  | deleteOperation o =>
      cases v with
      | accepted =>
          obtain rfl := Option.some.inj hb
          refine ⟨fun o' p hp => ?_, fun h => h⟩
          rw [set_operations] at hp
          split at hp
          · cases hp
          · exact hp
      | rejected status =>
          obtain rfl := Option.some.inj hb
          exact ⟨fun _ _ h => h, fun h => h⟩

theorem AllOver.removes (h : AllOver b) (hb : Removes b b') : AllOver b' := fun o p hp => h o p (hb.operations o p hp)

theorem AllOver.not_works (h : AllOver b) (hb : Works b b') : False := by
  obtain ⟨o, p, hp, hterminal⟩ := hb.busy
  rw [h o p hp] at hterminal
  cases hterminal

end backend

/-! ### The invariant -/

/-- The evidence of the deletion, once it is reconciled. -/
def World.evidence (w : World) : Option Found := w.deletion.bind DeletionRow.evidence

/-- The sender of the Retain is known to be at rest. -/
def Certain (row : RetainRow) : Prop := row.sendState = .settled ∧ row.sendUncertain = false

/-- The row says that a request may be on its way. -/
def Unsure (row : RetainRow) : Prop := row.sendUncertain = true ∨ row.sendState = .sending ∨ row.sendState = .unknown

/-- No request on its way makes the backend write. -/
def Quiet (w : World) : Prop := ∀ request ∈ w.flight, request.writes = false

/-- The deletion is asked for, and has found nothing yet. -/
structure Pending (w : World) : Prop where
  deleted : w.deletion.isSome = true
  evidence : w.evidence = none

/-- A sender has marked the row; nothing but what it sends is on its way, or the row says so. -/
structure Sending (w : World) : Prop where
  evidence : w.evidence = none
  row : w.retain.sendState = .sending
  flight : w.retain.sendUncertain = true ∨ Quiet w

/-- Nothing writes the document, or will. -/
structure Calm (w : World) : Prop where
  deleted : w.deletion.isSome = true
  row : w.retain.sendState = .idle ∨ Certain w.retain
  flight : Quiet w
  allOver : AllOver w.backend

/-- The backend knows no operations but these. -/
def Known (b : Backend) (operations : List Uuid) : Prop := ∀ o, (b.operations o).isSome = true → o ∈ operations

/-- `collect` has been called for the operation. -/
def Entered (todo : List Task) (operations : List Uuid) (o : Uuid) : Prop := o ∈ operations ∨ Task.leave o ∈ todo

/-- What `collect` has seen is over, and it will see the children. -/
structure Covered (operation : Uuid) (b : Backend) (todo : List Task) (operations : List Uuid) : Prop where
  root : Entered todo operations operation
  closed : ∀ o, Entered todo operations o → ∃ p, b.operations o = some p ∧ p.status.terminal = true ∧
    ∀ child ∈ p.children, Entered todo operations child ∨ Task.enter child ∈ todo

/-- The operations that were found are unknown by now, but for some. -/
def Gone (w : World) (rest : List Uuid) : Prop :=
  ∃ found, w.evidence = some found ∧ ∀ o ∈ found.operations, o ∈ rest ∨ w.backend.operations o = none

/-- What is so in a phase. -/
def PhaseOk (operation : Uuid) (w : World) : Phase → Prop
  | .sender request => request.writes = true
  | .marked request => request.writes = true ∧ Sending w
  | .sent request _ => request.writes = true ∧ Sending w
  | .settling state => state ≠ .idle ∧ w.evidence = none ∧ w.retain.sendState = .sending ∧
      (w.retain.sendUncertain = true ∨ Quiet w ∨ state = .unknown)
  | .loaded => w.deletion.isSome = true
  | .asking old => Pending w ∧ old = w.retain ∧ w.retain.sendState ≠ .idle
  | .doubting => Pending w ∧ w.retain.sendState ≠ .idle
  | .resending => Pending w ∧ w.retain.sendState ≠ .idle
  | .resent _ => Pending w ∧ w.retain.sendState ≠ .idle
  | .resendFailed status => Pending w ∧ w.retain.sendState ≠ .idle ∧ status ≠ .verified
  | .collecting todo operations => Pending w ∧ Certain w.retain ∧ Quiet w ∧ Covered operation w.backend todo operations
  | .gathering operations => Pending w ∧ Calm w ∧ Known w.backend operations
  | .recording found => Pending w ∧ Calm w ∧ Known w.backend found.operations
  | .looking found => w.evidence = some found
  | .removing found _ => w.evidence = some found
  | .rechecking found => w.evidence = some found
  | .proving found => w.evidence = some found ∧ w.backend.document = false
  | .cleaning rest => Gone w rest ∧ w.backend.document = false
  | .forgetting o rest _ => Gone w (o :: rest) ∧ w.backend.document = false
  | .confirming o rest => Gone w (o :: rest) ∧ w.backend.document = false
  | .ending status => w.deletion.isSome = true ∧ (status = .verified → Gone w [] ∧ w.backend.document = false)

/-- A verified deletion: the document, the operations and the frozen requests are gone. -/
structure Cleaned (w : World) : Prop where
  document : w.backend.document = false
  payloads : w.payloads = false
  gone : Gone w []

/-- The invariant, for a Retain whose sender has always kept its row. -/
structure Inv (operation : Uuid) (w : World) : Prop where
  phase : ∀ phase, w.holder = some phase → PhaseOk operation w phase
  flight : Quiet w ∨ Unsure w.retain ∨ ∃ status, w.holder = some (.resendFailed status)
  unknown : w.retain.sendState = .unknown → w.retain.sendUncertain = true
  idle : w.retain.sendState = .idle → Quiet w ∧ ∀ o, w.backend.operations o = none
  rooted : w.evidence = none → Rooted operation w.backend ∧ ∀ request ∈ w.flight, request.writes = true
  calm : ∀ found, w.evidence = some found → Calm w
  known : ∀ found, w.evidence = some found → Known w.backend found.operations
  verified : ∀ row, w.deletion = some row → row.status = .verified → Cleaned w

section invariant

variable {operation : Uuid} {w w' : World} {phase : Phase} {b : Backend} {request : Request}

theorem Certain.not_unsure {row : RetainRow} (h : Certain row) : ¬Unsure row := by
  rintro (hu | hs | hs)
  · rw [h.2] at hu
    cases hu
  · rw [h.1] at hs
    cases hs
  · rw [h.1] at hs
    cases hs

theorem certain_or_unsure (row : RetainRow) : row.sendState = .idle ∨ Certain row ∨ Unsure row := by
  cases hs : row.sendState with
  | idle => exact .inl rfl
  | sending => exact .inr (.inr (.inr (.inl hs)))
  | unknown => exact .inr (.inr (.inr (.inr hs)))
  | settled =>
      cases hu : row.sendUncertain with
      | false => exact .inr (.inl ⟨hs, hu⟩)
      | true => exact .inr (.inr (.inl hu))

/-- **What a phase needs is kept** where the rows stay, and the backend and the flight change as they may. -/
theorem PhaseOk.mono (h : PhaseOk operation w phase) (hretain : w'.retain = w.retain) (hevidence : w'.evidence = w.evidence)
    (hdeleted : w.deletion.isSome = true → w'.deletion.isSome = true) (hquiet : Quiet w → Quiet w')
    (hcovered : w.evidence = none → Quiet w → ∀ todo operations, Covered operation w.backend todo operations →
      Covered operation w'.backend todo operations)
    (hover : w.evidence = none → Calm w → AllOver w'.backend ∧ ∀ operations, Known w.backend operations →
      Known w'.backend operations)
    (hremoved : ∀ found, w.evidence = some found → (w.backend.document = false → w'.backend.document = false) ∧
      ∀ o, w.backend.operations o = none → w'.backend.operations o = none) : PhaseOk operation w' phase := by
  have hpending : Pending w → Pending w' := fun hp => ⟨hdeleted hp.deleted, hevidence.trans hp.evidence⟩
  have hcalm : Pending w → Calm w → Calm w' := fun hp hc =>
    ⟨hdeleted hc.deleted, hretain ▸ hc.row, hquiet hc.flight, (hover hp.evidence hc).1⟩
  have hsending : Sending w → Sending w' := by
    rintro ⟨hnone, hrow, hflight⟩
    exact ⟨hevidence.trans hnone, hretain ▸ hrow, hretain ▸ hflight.imp id hquiet⟩
  have hgone : ∀ {rest : List Uuid}, Gone w rest ∧ w.backend.document = false → Gone w' rest ∧ w'.backend.document = false := by
    rintro rest ⟨⟨found, hfound, hall⟩, hdocument⟩
    obtain ⟨hstays, hoperations⟩ := hremoved found hfound
    exact ⟨⟨found, hevidence.trans hfound, fun o ho => (hall o ho).imp id (hoperations o)⟩, hstays hdocument⟩
  cases phase with
  | sender => exact h
  | marked | sent => exact ⟨h.1, hsending h.2⟩
  | settling =>
      refine ⟨h.1, hevidence.trans h.2.1, hretain ▸ h.2.2.1, ?_⟩
      rw [hretain]
      exact h.2.2.2.imp id fun hrest => hrest.imp hquiet id
  | loaded => exact hdeleted h
  | asking => exact ⟨hpending h.1, h.2.1.trans hretain.symm, hretain ▸ h.2.2⟩
  | doubting | resending | resent => exact ⟨hpending h.1, hretain ▸ h.2⟩
  | resendFailed => exact ⟨hpending h.1, hretain ▸ h.2.1, h.2.2⟩
  | collecting => exact ⟨hpending h.1, hretain ▸ h.2.1, hquiet h.2.2.1, hcovered h.1.evidence h.2.2.1 _ _ h.2.2.2⟩
  | gathering | recording => exact ⟨hpending h.1, hcalm h.1 h.2.1, (hover h.1.evidence h.2.1).2 _ h.2.2⟩
  | looking | removing | rechecking => exact hevidence.trans h
  | proving => exact ⟨hevidence.trans h.1, (hremoved _ h.1).1 h.2⟩
  | cleaning | forgetting | confirming => exact hgone h
  | ending => exact ⟨hdeleted h.1, fun hs => hgone (h.2 hs)⟩

/-- A phase looks at the rows, the backend and the flight only. -/
theorem PhaseOk.congr (h : PhaseOk operation w phase) (hretain : w'.retain = w.retain) (hevidence : w'.evidence = w.evidence)
    (hdeleted : w.deletion.isSome = true → w'.deletion.isSome = true) (hbackend : w'.backend = w.backend)
    (hflight : w'.flight = w.flight) : PhaseOk operation w' phase := by
  refine h.mono hretain hevidence hdeleted ?_ ?_ ?_ ?_
  · unfold Quiet
    rw [hflight]
    exact id
  all_goals rw [hbackend]
  · exact fun _ _ _ _ hcovered => hcovered
  · exact fun _ hcalm => ⟨hcalm.allOver, fun _ hknown => hknown⟩
  · exact fun _ _ => ⟨id, fun _ => id⟩

/-- **The holder gets to another phase.** -/
theorem Inv.goes (h : Inv operation w) (hphase : PhaseOk operation w phase)
    (hflight : Quiet w ∨ Unsure w.retain ∨ ∃ status, phase = .resendFailed status) : Inv operation (w.goes phase) where
  phase p hp := by
    obtain rfl := Option.some.inj hp
    exact hphase.congr rfl rfl (fun h => h) rfl rfl
  flight := by
    rcases hflight with hquiet | hunsure | ⟨status, rfl⟩
    · exact .inl hquiet
    · exact .inr (.inl hunsure)
    · exact .inr (.inr ⟨status, rfl⟩)
  unknown := h.unknown
  idle := h.idle
  rooted := h.rooted
  calm found hfound := by
    obtain ⟨hdeleted, hrow, hquiet, hover⟩ := h.calm found hfound
    exact ⟨hdeleted, hrow, hquiet, hover⟩
  known := h.known
  verified row hrow hstatus := by
    obtain ⟨hdocument, hpayloads, hgone⟩ := h.verified row hrow hstatus
    exact ⟨hdocument, hpayloads, hgone⟩

theorem Inv.settled (h : Inv operation w) (hholder : ∀ status, w.holder ≠ some (.resendFailed status)) :
    Quiet w ∨ Unsure w.retain := by
  rcases h.flight with hquiet | hunsure | ⟨status, hstatus⟩
  · exact .inl hquiet
  · exact .inr hunsure
  · exact absurd hstatus (hholder status)

/-- **The guard is released.** -/
theorem Inv.released (h : Inv operation w) (hflight : Quiet w ∨ Unsure w.retain) : Inv operation w.release where
  phase _ hp := by cases hp
  flight := hflight.imp id .inl
  unknown := h.unknown
  idle := h.idle
  rooted := h.rooted
  calm found hfound := by
    obtain ⟨hdeleted, hrow, hquiet, hover⟩ := h.calm found hfound
    exact ⟨hdeleted, hrow, hquiet, hover⟩
  known := h.known
  verified row hrow hstatus := by
    obtain ⟨hdocument, hpayloads, hgone⟩ := h.verified row hrow hstatus
    exact ⟨hdocument, hpayloads, hgone⟩

/-- **A row is written** before anything has been found. -/
theorem Inv.write (h : Inv operation w) (hnone : w.evidence = none) (row : RetainRow) (holder : Option Phase)
    (hidle : row.sendState ≠ .idle) (hunknown : row.sendState = .unknown → row.sendUncertain = true)
    (hflight : Quiet w ∨ Unsure row)
    (hphase : ∀ phase, holder = some phase → PhaseOk operation { w with retain := row, holder := holder } phase) :
    Inv operation { w with retain := row, holder := holder } where
  phase := hphase
  flight := hflight.imp id .inl
  unknown := hunknown
  idle hs := absurd hs hidle
  rooted := h.rooted
  calm found hfound := by
    have hfound' : w.evidence = some found := hfound
    rw [hnone] at hfound'
    cases hfound'
  known := h.known
  verified r hr hstatus := by
    obtain ⟨_, _, found, hfound, _⟩ := h.verified r hr hstatus
    rw [hnone] at hfound
    cases hfound

/-! ### Steps of the backend -/

theorem Inv.not_works (h : Inv operation w) (hb : Works w.backend b) : w.evidence = none ∧ w.retain.sendState ≠ .idle := by
  obtain ⟨o, p, hp, hterminal⟩ := hb.busy
  constructor
  · cases hfound : w.evidence with
    | none => rfl
    | some found => exact ((h.calm found hfound).allOver.not_works hb).elim
  · intro hidle
    rw [(h.idle hidle).2 o] at hp
    cases hp

/-- **The backend writes**, before anything has been found. -/
theorem Inv.writes {holder : Option Phase} (h : Inv operation w) (hnone : w.evidence = none)
    (hidle : w.retain.sendState ≠ .idle) (hrooted : Rooted operation b) (hmem : ∀ request ∈ flight, request ∈ w.flight)
    (hflight : (∀ request ∈ flight, request.writes = false) ∨ Unsure w.retain ∨ ∃ status, holder = some (.resendFailed status))
    (hphase : ∀ p, holder = some p → PhaseOk operation { w with backend := b, flight := flight, holder := holder } p) :
    Inv operation { w with backend := b, flight := flight, holder := holder } := by
  have hsome : ∀ {found : Found}, w.evidence = some found → False := by
    intro found hfound
    rw [hnone] at hfound
    cases hfound
  exact ⟨hphase, hflight, h.unknown, fun hs => absurd hs hidle,
    fun hn => ⟨hrooted, fun request hrequest => (h.rooted hn).2 request (hmem request hrequest)⟩,
    fun found hfound => (hsome hfound).elim, fun found hfound => (hsome hfound).elim,
    fun row hrow hstatus => (hsome (h.verified row hrow hstatus).gone.choose_spec.1).elim⟩

/-- **The backend works** on its own. -/
theorem Inv.works (h : Inv operation w) (hb : Works w.backend b)
    (hrooted : Rooted operation w.backend → Rooted operation b) : Inv operation { w with backend := b } := by
  obtain ⟨hnone, hidle⟩ := h.not_works hb
  refine h.writes hnone hidle (hrooted (h.rooted hnone).1) (fun _ hmem => hmem) h.flight fun p hp =>
    (h.phase p hp).mono rfl rfl id id ?_ (fun _ hcalm => (hcalm.allOver.not_works hb).elim) fun found hfound => ?_
  · rintro - - todo operations ⟨hroot, hclosed⟩
    refine ⟨hroot, fun o ho => ?_⟩
    obtain ⟨p, hp, hterminal, hchildren⟩ := hclosed o ho
    exact ⟨p, hb.finished o p hp hterminal, hterminal, hchildren⟩
  · rw [hnone] at hfound
    cases hfound

theorem Removes.document_gone {b b' : Backend} (hb : Removes b b') (hgone : b.document = false) : b'.document = false := by
  cases hb' : b'.document with
  | false => rfl
  | true => exact absurd (hb.document hb') (by rw [hgone]; decide)

theorem Removes.operation_gone {b b' : Backend} (hb : Removes b b') {o : Uuid} (hgone : b.operations o = none) :
    b'.operations o = none := by
  cases ho : b'.operations o with
  | none => rfl
  | some p =>
      rw [hb.operations o p ho] at hgone
      cases hgone

/-- **Something is removed** from the backend, once the deletion has found all of it. -/
theorem Inv.removes {found : Found} {holder : Option Phase} (h : Inv operation w)
    (hfound : w.evidence = some found) (hb : Removes w.backend b) (hflight : ∀ request ∈ flight, request ∈ w.flight)
    (hphase : ∀ phase, holder = some phase → PhaseOk operation w phase) :
    Inv operation { w with backend := b, flight := flight, holder := holder } := by
  have hcalm := h.calm found hfound
  have hquiet : ∀ request ∈ flight, request.writes = false := fun request hmem => hcalm.flight request (hflight request hmem)
  have hsome : w.evidence = none → False := by
    intro hnone
    rw [hfound] at hnone
    cases hnone
  have hknown : ∀ {o : Uuid}, (b.operations o).isSome = true → (w.backend.operations o).isSome = true := by
    intro o ho
    obtain ⟨p, hp⟩ := Option.isSome_iff_exists.mp ho
    rw [hb.operations o p hp]
    rfl
  refine ⟨fun phase hp => ?_, .inl hquiet, h.unknown, fun hs => ⟨hquiet, fun o => hb.operation_gone ((h.idle hs).2 o)⟩,
    fun hnone => (hsome hnone).elim, fun _ _ => ⟨hcalm.deleted, hcalm.row, hquiet, hcalm.allOver.removes hb⟩,
    fun found' hfound' o ho => h.known found' hfound' o (hknown ho), fun row hrow hstatus => ?_⟩
  · exact (hphase phase hp).mono rfl rfl id (fun _ => hquiet) (fun hnone => (hsome hnone).elim) (fun hnone => (hsome hnone).elim)
      fun _ _ => ⟨hb.document_gone, fun _ => hb.operation_gone⟩
  · obtain ⟨hdocument, hpayloads, found', hfound', hall⟩ := h.verified row hrow hstatus
    exact ⟨hb.document_gone hdocument, hpayloads, found', hfound', fun o ho => (hall o ho).imp id hb.operation_gone⟩

/-- **A late request makes the backend write**: the row has said so. -/
theorem Inv.writtenLate (h : Inv operation w) (hnoisy : ¬Quiet w)
    (hrooted : Rooted operation w.backend → Rooted operation b) (hflight : ∀ request ∈ flight, request ∈ w.flight) :
    Inv operation { w with backend := b, flight := flight } := by
  have hnone : w.evidence = none := by
    cases hfound : w.evidence with
    | none => rfl
    | some found => exact absurd (h.calm found hfound).flight hnoisy
  refine h.writes hnone (fun hs => hnoisy (h.idle hs).1) (hrooted (h.rooted hnone).1) hflight (.inr (h.flight.resolve_left hnoisy))
    fun p hp => (h.phase p hp).mono rfl rfl id (fun hquiet => absurd hquiet hnoisy) (fun _ hquiet => absurd hquiet hnoisy)
      (fun _ hcalm => absurd hcalm.flight hnoisy) fun found hfound => ?_
  rw [hnone] at hfound
  cases hfound

/-- **A status is saved.** -/
theorem Inv.saved {status : ActionStatus} (h : Inv operation w)
    (hverified : status = .verified → Gone w [] ∧ w.backend.document = false) : Inv operation (w.saved status) := by
  unfold World.saved
  split
  next row hrow =>
    split
    · exact h
    · have hevidence : w.evidence = row.evidence := by
        unfold World.evidence
        rw [hrow]
        rfl
      have hkept : ∀ phase, w.holder = some phase → PhaseOk operation { w with
          deletion := some { row with status := status },
          payloads := if status = .verified then false else w.payloads } phase :=
        fun phase hp => (h.phase phase hp).congr rfl hevidence.symm (fun _ => rfl) rfl rfl
      refine ⟨hkept, h.flight, h.unknown, h.idle, fun hnone => h.rooted (hevidence.trans hnone), fun found hfound => ?_,
        fun found hfound => h.known found (hevidence.trans hfound), fun row' hrow' hstatus => ?_⟩
      · obtain ⟨_, hcertain, hquiet, hover⟩ := h.calm found (hevidence.trans hfound)
        exact ⟨rfl, hcertain, hquiet, hover⟩
      · obtain rfl := Option.some.inj hrow'
        have hstatus' : status = .verified := hstatus
        obtain ⟨⟨found, hfound, hall⟩, hdocument⟩ := hverified hstatus'
        exact ⟨hdocument, if_pos hstatus', found, hevidence.symm.trans hfound, hall⟩
  next => exact h

/-! ### What `collect` sees -/

theorem Covered.enter {o : Uuid} {p : Operation} {operations : List Uuid}
    (hroot : o = operation ∨ Entered todo operations operation) (hp : b.operations o = some p)
    (hterminal : p.status.terminal = true)
    (hclosed : ∀ x, Entered todo operations x → ∃ q, b.operations x = some q ∧ q.status.terminal = true ∧
      ∀ child ∈ q.children, Entered todo operations child ∨ Task.enter child ∈ .enter o :: todo) :
    Covered operation b (p.children.map Task.enter ++ .leave o :: todo) operations := by
  have hentered : ∀ x, Entered (p.children.map Task.enter ++ .leave o :: todo) operations x ↔
      x = o ∨ Entered todo operations x := by
    intro x
    unfold Entered
    rw [List.mem_append, List.mem_cons, List.mem_map, Task.leave.injEq]
    constructor
    · rintro (hx | ⟨_, _, heq⟩ | hx | hx)
      · exact .inr (.inl hx)
      · cases heq
      · exact .inl hx
      · exact .inr (.inr hx)
    · rintro (hx | hx | hx)
      · exact .inr (.inr (.inl hx))
      · exact .inl hx
      · exact .inr (.inr (.inr hx))
  refine ⟨(hentered operation).mpr (hroot.imp Eq.symm id), fun x hx => ?_⟩
  rcases (hentered x).mp hx with rfl | hx
  · refine ⟨p, hp, hterminal, fun child hchild => .inr ?_⟩
    exact List.mem_append_left _ (List.mem_map.mpr ⟨child, hchild, rfl⟩)
  · obtain ⟨q, hq, hover, hchildren⟩ := hclosed x hx
    refine ⟨q, hq, hover, fun child hchild => ?_⟩
    rcases hchildren child hchild with hseen | hnext
    · exact .inl ((hentered child).mpr (.inr hseen))
    · rcases List.mem_cons.mp hnext with heq | hmem
      · obtain rfl := Task.enter.inj heq
        exact .inl ((hentered child).mpr (.inl rfl))
      · exact .inr (List.mem_append_right _ (List.mem_cons_of_mem _ hmem))

theorem Covered.leave {o : Uuid} {operations : List Uuid}
    (h : Covered operation b (.leave o :: todo) operations) :
    Covered operation b todo (if o ∈ operations then operations else operations ++ [o]) := by
  have hentered : ∀ x, Entered todo (if o ∈ operations then operations else operations ++ [o]) x ↔
      Entered (.leave o :: todo) operations x := by
    intro x
    unfold Entered
    rw [List.mem_cons, Task.leave.injEq]
    split
    next hmem =>
      constructor
      · rintro (hx | hx)
        · exact .inl hx
        · exact .inr (.inr hx)
      · rintro (hx | rfl | hx)
        · exact .inl hx
        · exact .inl hmem
        · exact .inr hx
    next =>
      rw [List.mem_append, List.mem_singleton]
      constructor
      · rintro ((hx | hx) | hx)
        · exact .inl hx
        · exact .inr (.inl hx)
        · exact .inr (.inr hx)
      · rintro (hx | hx | hx)
        · exact .inl (.inl hx)
        · exact .inl (.inr hx)
        · exact .inr hx
  refine ⟨(hentered operation).mpr h.root, fun x hx => ?_⟩
  obtain ⟨p, hp, hterminal, hchildren⟩ := h.closed x ((hentered x).mp hx)
  refine ⟨p, hp, hterminal, fun child hchild => ?_⟩
  rcases hchildren child hchild with hseen | hnext
  · exact .inl ((hentered child).mpr hseen)
  · rcases List.mem_cons.mp hnext with heq | hmem
    · cases heq
    · exact .inr hmem

/-- **When `collect` is done**, everything the backend knows has been found. -/
theorem Covered.known {operations : List Uuid} (h : Covered operation b [] operations) (hrooted : Rooted operation b) :
    Known b operations := by
  have hseen : ∀ o, Relation.ReflTransGen (ChildAt b) operation o → Entered [] operations o := by
    intro o ho
    induction ho with
    | refl => exact h.root
    | tail _ hchild ih =>
        obtain ⟨p, hp, hmem⟩ := hchild
        obtain ⟨q, hq, _, hchildren⟩ := h.closed _ ih
        obtain rfl := Option.some.inj (hp.symm.trans hq)
        rcases hchildren _ hmem with hseen | hnext
        · exact hseen
        · cases hnext
  intro o ho
  rcases hseen o (hrooted o ho) with hfound | hleft
  · exact hfound
  · cases hleft

/-- And all of it is over. -/
theorem Covered.allOver {operations : List Uuid} (h : Covered operation b [] operations) (hrooted : Rooted operation b) :
    AllOver b := by
  intro o p hp
  obtain ⟨q, hq, hterminal, _⟩ := h.closed o (.inl (h.known hrooted o (by rw [hp]; rfl)))
  obtain rfl := Option.some.inj (hp.symm.trans hq)
  exact hterminal

/-! ### Steps of the holder -/

/-- **The evidence is recorded.** -/
theorem Inv.recorded {found : Found} (h : Inv operation w) (hpending : Pending w) (hcalm : Calm w)
    (hknown : Known w.backend found.operations) :
    Inv operation { w with
      deletion := w.deletion.map fun row => { row with evidence := some found }, holder := some (.looking found) } := by
  obtain ⟨row, hrow⟩ := Option.isSome_iff_exists.mp hpending.deleted
  have hevidence : (w.deletion.map fun row => { row with evidence := some found }).bind DeletionRow.evidence = some found := by
    rw [hrow]
    rfl
  refine ⟨fun phase hp => ?_, .inl hcalm.flight, h.unknown, h.idle, fun hnone => ?_, fun _ _ => ?_, fun found' hfound' => ?_,
    fun row' hrow' hstatus => ?_⟩
  · obtain rfl := Option.some.inj hp
    exact hevidence
  · have hnone' : (w.deletion.map fun row => { row with evidence := some found }).bind DeletionRow.evidence = none := hnone
    rw [hevidence] at hnone'
    cases hnone'
  · exact ⟨by rw [hrow]; rfl, hcalm.row, hcalm.flight, hcalm.allOver⟩
  · have hsame : (w.deletion.map fun row => { row with evidence := some found }).bind DeletionRow.evidence = some found' :=
      hfound'
    rw [hevidence] at hsame
    obtain rfl := Option.some.inj hsame
    exact hknown
  · rw [hrow] at hrow'
    obtain rfl := Option.some.inj hrow'
    have hgone := (h.verified row hrow hstatus).gone
    obtain ⟨found', hfound', _⟩ := hgone
    rw [hpending.evidence] at hfound'
    cases hfound'

theorem Inv.collect {o : Uuid} {p : Operation} {operations : List Uuid} (h : Inv operation w)
    (hpending : Pending w) (hcertain : Certain w.retain) (hquiet : Quiet w)
    (hcovered : p.status.terminal = true →
      Covered operation w.backend (p.children.map Task.enter ++ .leave o :: todo) operations) :
    Inv operation (w.collect o p todo operations) := by
  unfold World.collect
  split
  next hterminal => exact h.goes ⟨hpending, hcertain, hquiet, hcovered hterminal⟩ (.inl hquiet)
  next => exact h.goes ⟨hpending.deleted, nofun⟩ (.inl hquiet)

/-- The phase is one of the deletion. -/
def Phase.deletes : Phase → Bool
  | sender _ | marked _ | sent _ _ | settling _ => false
  | _ => true

theorem Inv.deleted (h : Inv operation w) (hphase : PhaseOk operation w phase) (hdeletes : phase.deletes = true) :
    w.deletion.isSome = true := by
  have hcalm : ∀ {found : Found}, w.evidence = some found → w.deletion.isSome = true := fun hfound => (h.calm _ hfound).deleted
  cases phase with
  | loaded => exact hphase
  | asking | doubting | resending | resent | resendFailed | collecting | gathering | recording => exact hphase.1.deleted
  | looking | removing | rechecking => exact hcalm hphase
  | proving => exact hcalm hphase.1
  | cleaning | forgetting | confirming => exact hcalm hphase.1.choose_spec.1
  | ending => exact hphase.1
  | _ => cases hdeletes

/-- The holder gets to another phase, unless a Retain that was sent again has failed. -/
theorem Inv.next {next : Phase} (h : Inv operation w) (hholder : w.holder = some phase) (hnext : PhaseOk operation w next)
    (hne : ∀ status, phase ≠ .resendFailed status) : Inv operation (w.goes next) :=
  h.goes hnext ((h.settled fun status heq => hne status (Option.some.inj (hholder.symm.trans heq))).imp id .inl)

/-- The deletion ends for now. -/
theorem Inv.ends {status : ActionStatus} (h : Inv operation w) (hholder : w.holder = some phase) (hdeletes : phase.deletes = true)
    (hne : ∀ status, phase ≠ .resendFailed status) (hstatus : status ≠ .verified) : Inv operation (w.goes (.ending status)) :=
  h.next hholder ⟨h.deleted (h.phase phase hholder) hdeletes, fun hs => absurd hs hstatus⟩ hne

/-- A Retain that may have been sent is noted, and the holder gets to another phase. -/
theorem Inv.doubted {next : Phase} (h : Inv operation w) (hnone : w.evidence = none)
    (hnext : PhaseOk operation { w with retain := w.retain.send .unknown, holder := some next } next) :
    Inv operation { w with retain := w.retain.send .unknown, holder := some next } := by
  refine h.write hnone (w.retain.send .unknown) (some next) nofun (fun _ => Bool.or_eq_true_iff.mpr (.inr rfl))
    (.inr (.inr (.inr rfl))) fun p hp => ?_
  obtain rfl := Option.some.inj hp
  exact hnext

theorem Inv.proceed_sender (h : Inv operation w) (hholder : w.holder = some (.sender request))
    (hstep : Deletion.proceed operation w (.sender request) = some w') : Inv operation w' := by
  have hflight := h.settled fun status heq => by
    rw [hholder] at heq
    cases heq
  simp only [Deletion.proceed] at hstep
  split at hstep
  · obtain rfl := Option.some.inj hstep
    exact h.released hflight
  next hdeleted =>
    obtain rfl := Option.some.inj hstep
    have hnone : w.evidence = none := by
      unfold World.evidence
      rw [Option.not_isSome_iff_eq_none.mp hdeleted]
      rfl
    refine h.write hnone w.retain.mark (some (.marked request)) nofun nofun (.inr (.inr (.inl rfl))) fun p hp => ?_
    obtain rfl := Option.some.inj hp
    refine ⟨h.phase (.sender request) hholder, hnone, rfl, ?_⟩
    rcases hflight with hquiet | hunsure | hsending | hunknown
    · exact .inr hquiet
    · exact .inl (Bool.or_eq_true_iff.mpr (.inl hunsure))
    · exact .inl (Bool.or_eq_true_iff.mpr (.inr (decide_eq_true hsending)))
    · exact .inl (Bool.or_eq_true_iff.mpr (.inl (h.unknown hunknown)))

theorem Inv.proceed_settling {state : SendState} (h : Inv operation w) (hholder : w.holder = some (.settling state)) :
    Inv operation { w with retain := w.retain.send state, holder := none } := by
  obtain ⟨hidle, hnone, -, hrest⟩ := h.phase (.settling state) hholder
  refine h.write hnone (w.retain.send state) none hidle (fun hunknown => ?_) ?_ nofun
  · exact Bool.or_eq_true_iff.mpr (.inr (decide_eq_true hunknown))
  · rcases hrest with huncertain | hquiet | rfl
    · exact .inr (.inl (Bool.or_eq_true_iff.mpr (.inl huncertain)))
    · exact .inl hquiet
    · exact .inr (.inr (.inr rfl))

theorem Inv.proceed_loaded (h : Inv operation w) (hholder : w.holder = some .loaded)
    (hstep : Deletion.proceed operation w .loaded = some w') : Inv operation w' := by
  simp only [Deletion.proceed] at hstep
  split at hstep
  next status found hrow =>
    obtain rfl := Option.some.inj hstep
    refine h.next hholder ?_ nofun
    show w.evidence = some found
    unfold World.evidence
    rw [hrow]
    rfl
  next status hrow =>
    have hpending : Pending w := by
      refine ⟨by rw [hrow]; rfl, ?_⟩
      unfold World.evidence
      rw [hrow]
      rfl
    split_ifs at hstep with hlegacy hidle
    all_goals obtain rfl := Option.some.inj hstep
    · exact h.ends hholder rfl nofun nofun
    · obtain ⟨hquiet, hops⟩ := h.idle hidle
      refine h.next hholder ⟨hpending, ⟨hpending.deleted, .inl hidle, hquiet, fun o p hp => ?_⟩, fun o ho => ?_⟩ nofun
      · rw [hops o] at hp
        cases hp
      · rw [hops o] at ho
        cases ho
    · exact h.next hholder ⟨hpending, rfl, hidle⟩ nofun
  next => cases hstep

theorem Inv.proceed_asking {old : RetainRow} (h : Inv operation w) (hholder : w.holder = some (.asking old))
    (hstep : Deletion.proceed operation w (.asking old) = some w') : Inv operation w' := by
  obtain ⟨hpending, rfl, hidle⟩ := h.phase _ hholder
  simp only [Deletion.proceed] at hstep
  split at hstep
  · obtain rfl := Option.some.inj hstep
    refine h.next hholder ?_ nofun
    split
    all_goals exact ⟨hpending, hidle⟩
  next p hp =>
    split_ifs at hstep with hcertain
    all_goals obtain rfl := Option.some.inj hstep
    · exact h.ends hholder rfl nofun nofun
    · rw [not_or, not_not, Bool.not_eq_true] at hcertain
      have hflight := h.settled fun status heq => by
        rw [hholder] at heq
        cases heq
      have hquiet : Quiet w := hflight.resolve_right (Certain.not_unsure hcertain)
      refine h.collect hpending hcertain hquiet fun hterminal => Covered.enter (.inl rfl) hp hterminal ?_
      rintro x (hx | hx)
      · cases hx
      · cases hx

theorem Inv.proceed_collecting {operations : List Uuid} (h : Inv operation w)
    (hholder : w.holder = some (.collecting todo operations))
    (hstep : Deletion.proceed operation w (.collecting todo operations) = some w') : Inv operation w' := by
  obtain ⟨hpending, hcertain, hquiet, hcovered⟩ := h.phase _ hholder
  cases todo with
  | nil =>
      obtain rfl := Option.some.inj hstep
      have hrooted := (h.rooted hpending.evidence).1
      exact h.next hholder ⟨hpending, ⟨hpending.deleted, .inr hcertain, hquiet, hcovered.allOver hrooted⟩,
        hcovered.known hrooted⟩ nofun
  | cons task todo =>
      cases task with
      | enter o =>
          simp only [Deletion.proceed] at hstep
          split at hstep
          next p hp =>
            obtain rfl := Option.some.inj hstep
            have hseen : ∀ x, Entered (.enter o :: todo) operations x ↔ Entered todo operations x := by
              intro x
              unfold Entered
              rw [List.mem_cons]
              simp only [reduceCtorEq, false_or]
            refine h.collect hpending hcertain hquiet fun hterminal =>
              Covered.enter (.inr ((hseen operation).mp hcovered.root)) hp hterminal fun x hx => ?_
            obtain ⟨q, hq, hover, hchildren⟩ := hcovered.closed x ((hseen x).mpr hx)
            exact ⟨q, hq, hover, fun child hchild => (hchildren child hchild).imp (hseen child).mp id⟩
          next =>
            obtain rfl := Option.some.inj hstep
            exact h.ends hholder rfl nofun nofun
      | leave o =>
          obtain rfl := Option.some.inj hstep
          exact h.next hholder ⟨hpending, hcertain, hquiet, hcovered.leave⟩ nofun

theorem Inv.proceed_confirming {o : Uuid} {rest : List Uuid} (h : Inv operation w) (hholder : w.holder = some (.confirming o rest)) :
    Inv operation (w.goes (if (w.backend.operations o).isSome then .ending .uncertain else .cleaning rest)) := by
  obtain ⟨⟨found, hfound, hall⟩, hdocument⟩ := h.phase _ hholder
  split
  · exact h.ends hholder rfl nofun nofun
  next hknown =>
    refine h.next hholder ⟨⟨found, hfound, fun x hx => ?_⟩, hdocument⟩ nofun
    rcases hall x hx with hmem | hnone
    · rcases List.mem_cons.mp hmem with rfl | hmem
      · exact .inr (Option.not_isSome_iff_eq_none.mp hknown)
      · exact .inl hmem
    · exact .inr hnone

theorem saved_frame (w : World) (status : ActionStatus) : (w.saved status).retain = w.retain ∧ (w.saved status).flight = w.flight := by
  unfold World.saved
  split
  · split <;> exact ⟨rfl, rfl⟩
  · exact ⟨rfl, rfl⟩

theorem Inv.proceed_ending {status : ActionStatus} (h : Inv operation w) (hholder : w.holder = some (.ending status)) :
    Inv operation (w.saved status).release := by
  obtain ⟨hretain, hflight⟩ := saved_frame w status
  refine (h.saved (h.phase _ hholder).2).released ?_
  unfold Quiet
  rw [hretain, hflight]
  refine h.settled fun status heq => ?_
  rw [hholder] at heq
  cases heq

/-- **The holder goes on.** -/
theorem Inv.proceed (h : Inv operation w) (hholder : w.holder = some phase)
    (hstep : Deletion.proceed operation w phase = some w') : Inv operation w' := by
  have hphase := h.phase phase hholder
  cases phase with
  | sender => exact h.proceed_sender hholder hstep
  | loaded => exact h.proceed_loaded hholder hstep
  | asking => exact h.proceed_asking hholder hstep
  | collecting => exact h.proceed_collecting hholder hstep
  | sent | resent | gathering | removing | forgetting => cases hstep
  | cleaning operations =>
      cases operations with
      | nil =>
          obtain rfl := Option.some.inj hstep
          exact h.next hholder ⟨h.deleted hphase rfl, fun _ => hphase⟩ nofun
      | cons o rest =>
          obtain rfl := Option.some.inj hstep
          refine h.next hholder ?_ nofun
          split
          all_goals exact hphase
  | marked | resending =>
      obtain rfl := Option.some.inj hstep
      exact h.next hholder hphase nofun
  | settling =>
      obtain rfl := Option.some.inj hstep
      exact h.proceed_settling hholder
  | doubting =>
      obtain rfl := Option.some.inj hstep
      exact h.doubted hphase.1.evidence ⟨⟨hphase.1.deleted, hphase.1.evidence⟩, nofun⟩
  | resendFailed =>
      obtain rfl := Option.some.inj hstep
      exact h.doubted hphase.1.evidence ⟨hphase.1.deleted, fun hs => absurd hs hphase.2.2⟩
  | recording =>
      obtain rfl := Option.some.inj hstep
      exact h.recorded hphase.1 hphase.2.1 hphase.2.2
  | looking found =>
      obtain rfl := Option.some.inj hstep
      refine h.next hholder ?_ nofun
      split
      · exact hphase
      next hdocument => exact ⟨hphase, by simpa using hdocument⟩
  | rechecking found =>
      obtain rfl := Option.some.inj hstep
      refine h.next hholder ?_ nofun
      split
      · exact ⟨(h.calm found hphase).deleted, nofun⟩
      next hdocument => exact ⟨hphase, by simpa using hdocument⟩
  | proving found =>
      obtain rfl := Option.some.inj hstep
      exact h.next hholder ⟨⟨found, hphase.1, fun o ho => .inl ho⟩, hphase.2⟩ nofun
  | confirming =>
      obtain rfl := Option.some.inj hstep
      exact h.proceed_confirming hholder
  | ending =>
      obtain rfl := Option.some.inj hstep
      exact h.proceed_ending hholder

theorem Inv.settles {state : SendState} (h : Inv operation w) (hholder : w.holder = some phase) (hsending : Sending w)
    (hne : ∀ status, phase ≠ .resendFailed status) (hstate : state ≠ .idle) : Inv operation (w.goes (.settling state)) :=
  h.next hholder ⟨hstate, hsending.evidence, hsending.row, hsending.flight.imp id .inl⟩ hne

/-- **The holder has been answered.** -/
theorem Inv.received (h : Inv operation w) (hholder : w.holder = some phase)
    (hstep : Deletion.received w phase = some w') : Inv operation w' := by
  have hphase := h.phase phase hholder
  unfold Deletion.received at hstep
  split at hstep
  case h_10 => cases hstep
  all_goals obtain rfl := Option.some.inj hstep
  · exact h.settles hholder hphase.2 nofun nofun
  · exact h.settles hholder hphase.2 nofun nofun
  · exact h.settles hholder hphase.2 nofun nofun
  · exact h.ends hholder rfl nofun nofun
  · exact h.next hholder ⟨hphase.1, hphase.2, nofun⟩ nofun
  · exact h.next hholder hphase nofun
  · split
    · exact h.next hholder hphase nofun
    · exact h.ends hholder rfl nofun nofun
  · exact h.next hholder hphase nofun
  · exact h.ends hholder rfl nofun nofun

/-- **The holder has been rejected.** -/
theorem Inv.rejected {status : ℕ} (h : Inv operation w) (hholder : w.holder = some phase)
    (hstep : Deletion.rejected w status phase = some w') : Inv operation w' := by
  have hphase := h.phase phase hholder
  cases phase with
  | marked request =>
      have hstep : w' = w.goes (.settling .settled) ∨ w' = w.goes (.settling .unknown) := by
        cases request with
        | retain => exact .inl (Option.some.inj hstep).symm
        | _ => exact .inr (Option.some.inj hstep).symm
      obtain rfl | rfl := hstep
      all_goals exact h.settles hholder hphase.2 nofun nofun
  | asking | confirming =>
      obtain rfl := Option.some.inj hstep
      exact h.ends hholder rfl nofun nofun
  | resending =>
      obtain rfl := Option.some.inj hstep
      exact h.next hholder ⟨hphase.1, hphase.2, nofun⟩ nofun
  | collecting todo =>
      obtain _ | ⟨_ | _, _⟩ := todo
      case cons.enter =>
        obtain rfl := Option.some.inj hstep
        exact h.ends hholder rfl nofun nofun
      all_goals cases hstep
  | gathering =>
      obtain rfl := Option.some.inj hstep
      split
      next hnothing =>
        obtain ⟨hpending, hcalm, hknown⟩ := hphase
        rw [hnothing.2] at hknown
        exact h.next hholder ⟨hpending, hcalm, hknown⟩ nofun
      next => exact h.ends hholder rfl nofun nofun
  | looking | rechecking =>
      unfold Deletion.rejected at hstep
      dsimp only at hstep
      split_ifs at hstep
      obtain rfl := Option.some.inj hstep
      exact h.ends hholder rfl nofun nofun
  | proving found =>
      obtain rfl := Option.some.inj hstep
      split
      next hnothing =>
        refine h.next hholder ⟨⟨found, hphase.1, fun o ho => ?_⟩, hphase.2⟩ nofun
        rw [hnothing.2.1] at ho
        cases ho
      next => exact h.ends hholder rfl nofun nofun
  | cleaning operations =>
      cases operations with
      | nil => cases hstep
      | cons =>
          obtain rfl := Option.some.inj hstep
          exact h.ends hholder rfl nofun nofun
  | _ => cases hstep

/-- The evidence is there once the holder removes anything. -/
theorem PhaseOk.evidence_of_call (h : PhaseOk operation w phase)
    (hcall : phase.call = some (request, reply)) (hwrites : request.writes = false) : ∃ found, w.evidence = some found := by
  cases phase with
  | sent r v =>
      obtain ⟨rfl, _⟩ := Prod.mk.inj (Option.some.inj hcall)
      rw [h.1] at hwrites
      cases hwrites
  | resent v =>
      obtain ⟨rfl, _⟩ := Prod.mk.inj (Option.some.inj hcall)
      cases hwrites
  | removing found v => exact ⟨found, h⟩
  | forgetting o rest v =>
      obtain ⟨⟨found, hfound, _⟩, _⟩ := h
      exact ⟨found, hfound⟩
  | _ => cases hcall

/-- The rows have not been reconciled while the holder writes. -/
theorem PhaseOk.none_of_call (h : PhaseOk operation w phase)
    (hcall : phase.call = some (request, reply)) (hwrites : request.writes = true) :
    w.evidence = none ∧ w.retain.sendState ≠ .idle := by
  cases phase with
  | sent r v => exact ⟨h.2.evidence, by rw [h.2.row]; decide⟩
  | resent v => exact ⟨h.1.evidence, h.2⟩
  | removing found v =>
      obtain ⟨rfl, _⟩ := Prod.mk.inj (Option.some.inj hcall)
      cases hwrites
  | forgetting o rest v =>
      obtain ⟨rfl, _⟩ := Prod.mk.inj (Option.some.inj hcall)
      cases hwrites
  | _ => cases hcall

theorem PhaseOk.answered {v : Verdict} (h : PhaseOk operation w phase) : PhaseOk operation w (phase.answered v) := by
  cases phase with
  | _ => exact h

/-- Only the flight changes when the holder stops waiting. -/
theorem orphan_eq (w : World) (phase : Phase) : ∃ flight, w.orphan phase = { w with flight := flight } ∧
    ∀ request ∈ flight, request ∈ w.flight ∨ phase.call = some (request, none) := by
  unfold World.orphan
  split
  next request hcall =>
    refine ⟨request :: w.flight, rfl, fun q hq => ?_⟩
    rcases List.mem_cons.mp hq with rfl | hq
    · exact .inr hcall
    · exact .inl hq
  next => exact ⟨w.flight, rfl, fun q hq => .inl hq⟩

/-- **What the holder stops waiting for** stays on its way; what writes is noted on the row, or about to be. -/
theorem Inv.orphan {next : Option Phase} (h : Inv operation w) (hholder : w.holder = some phase)
    (hflight : Quiet (w.orphan phase) ∨ Unsure w.retain ∨ ∃ status, next = some (.resendFailed status))
    (hnext : ∀ p, next = some p → PhaseOk operation (w.orphan phase) p) :
    Inv operation { w.orphan phase with holder := next } := by
  have hphase := h.phase phase hholder
  obtain ⟨flight, heq, hmem⟩ := orphan_eq w phase
  rw [heq] at hflight hnext ⊢
  have hwrites : ∀ {request : Request}, request ∈ flight → request.writes = true →
      ¬Quiet w ∨ w.evidence = none ∧ w.retain.sendState ≠ .idle := by
    intro request hrequest hw
    rcases hmem request hrequest with hold | hcall
    · refine .inl fun hquiet => ?_
      rw [hquiet request hold] at hw
      cases hw
    · exact .inr (hphase.none_of_call hcall hw)
  refine ⟨fun p hp => (hnext p hp).congr rfl rfl (fun hd => hd) rfl rfl, hflight, h.unknown, fun hidle => ?_,
    fun hnone => ⟨(h.rooted hnone).1, fun request hrequest => ?_⟩, fun found hfound => ?_, h.known,
    fun row hrow hstatus => ?_⟩
  · -- a row that was never sent has nothing out that writes
    obtain ⟨hquiet, hops⟩ := h.idle hidle
    refine ⟨fun request hrequest => ?_, hops⟩
    by_contra hw
    rcases hwrites hrequest (by simpa using hw) with hnoisy | ⟨_, hrow⟩
    · exact hnoisy hquiet
    · exact hrow hidle
  · rcases hmem request hrequest with hold | hcall
    · exact (h.rooted hnone).2 request hold
    · by_contra hw
      obtain ⟨found, hfound⟩ := hphase.evidence_of_call hcall (by simpa using hw)
      have hnone' : w.evidence = none := hnone
      rw [hfound] at hnone'
      cases hnone'
  · obtain ⟨hdeleted, hrow, hquiet, hover⟩ := h.calm found hfound
    refine ⟨hdeleted, hrow, fun request hrequest => ?_, hover⟩
    by_contra hw
    rcases hwrites hrequest (by simpa using hw) with hnoisy | ⟨hnone, _⟩
    · exact hnoisy hquiet
    · have hfound' : w.evidence = some found := hfound
      rw [hnone] at hfound'
      cases hfound'
  · obtain ⟨hdocument, hpayloads, hgone⟩ := h.verified row hrow hstatus
    exact ⟨hdocument, hpayloads, hgone⟩

/-- A phase that does not look at the flight is kept by it. -/
theorem PhaseOk.orphan_ending {status : ActionStatus} (hdeleted : w.deletion.isSome = true) (hstatus : status ≠ .verified) :
    PhaseOk operation (w.orphan phase) (.ending status) := by
  obtain ⟨flight, heq, _⟩ := orphan_eq w phase
  rw [heq]
  exact ⟨hdeleted, fun hs => absurd hs hstatus⟩

/-- A holder that only reads, or removes, leaves nothing behind that writes. -/
theorem Inv.orphan_flight (h : Inv operation w) (hholder : w.holder = some phase)
    (hreads : ∀ request, phase.call = some (request, none) → request.writes = false)
    (hne : ∀ status, phase ≠ .resendFailed status) : Quiet (w.orphan phase) ∨ Unsure w.retain := by
  obtain ⟨flight, heq, hmem⟩ := orphan_eq w phase
  rw [heq]
  refine (h.settled fun status hs => hne status (Option.some.inj (hholder.symm.trans hs))).imp (fun hquiet => ?_) id
  intro request hrequest
  rcases hmem request hrequest with hold | hcall
  · exact hquiet request hold
  · exact hreads request hcall

/-- What the deletion waits for removes something. -/
theorem Phase.call_removes (hcall : phase.call = some (request, reply))
    (hdeletes : phase.deletes = true) (hne : ∀ reply, phase ≠ .resent reply) : request.writes = false := by
  cases phase with
  | removing | forgetting =>
      obtain ⟨rfl, _⟩ := Prod.mk.inj (Option.some.inj hcall)
      rfl
  | resent reply => exact absurd rfl (hne reply)
  | sent => cases hdeletes
  | _ => cases hcall

/-- **Something else is raised.** -/
theorem Inv.faulted {waiting : Bool} (h : Inv operation w) (hholder : w.holder = some phase)
    (hstep : Deletion.faulted w waiting phase = some w') : Inv operation w' := by
  have hphase := h.phase phase hholder
  have hend : phase.deletes = true → (∀ reply, phase ≠ .resent reply) → (∀ status, phase ≠ .resendFailed status) →
      Inv operation ((w.orphan phase).goes (.ending (if waiting then .verifying else .uncertain))) := by
    intro hdeletes hresent hne
    have hreads := h.orphan_flight hholder (fun request hcall => Phase.call_removes hcall hdeletes hresent) hne
    refine h.orphan hholder (hreads.imp id .inl) fun p hp => ?_
    obtain rfl := Option.some.inj hp
    refine PhaseOk.orphan_ending (h.deleted hphase hdeletes) ?_
    split <;> decide
  cases phase with
  | sender request =>
      obtain rfl := Option.some.inj hstep
      exact h.released (h.settled fun status heq => by rw [hholder] at heq; cases heq)
  | marked request =>
      obtain rfl := Option.some.inj hstep
      exact h.next hholder ⟨nofun, hphase.2.evidence, hphase.2.row, .inr (.inr rfl)⟩ nofun
  | sent request reply =>
      obtain rfl := Option.some.inj hstep
      refine h.orphan hholder (.inr (.inl (.inr (.inl hphase.2.row)))) fun p hp => ?_
      obtain rfl := Option.some.inj hp
      obtain ⟨flight, heq, _⟩ := orphan_eq w (.sent request reply)
      rw [heq]
      exact ⟨nofun, hphase.2.evidence, hphase.2.row, .inr (.inr rfl)⟩
  | resending =>
      obtain rfl := Option.some.inj hstep
      exact h.goes ⟨hphase.1, hphase.2, nofun⟩ (.inr (.inr ⟨_, rfl⟩))
  | resent reply =>
      obtain rfl := Option.some.inj hstep
      refine h.orphan hholder (.inr (.inr ⟨_, rfl⟩)) fun p hp => ?_
      obtain rfl := Option.some.inj hp
      obtain ⟨flight, heq, _⟩ := orphan_eq w (.resent reply)
      rw [heq]
      exact ⟨⟨hphase.1.deleted, hphase.1.evidence⟩, hphase.2, nofun⟩
  | settling | resendFailed | ending => cases hstep
  | _ =>
      obtain rfl := Option.some.inj hstep
      exact hend rfl nofun nofun

/-- The holder dies while a Retain that it has re-sent is on its way, for a row that says that nothing is. -/
def LosesResend (w : World) : Event → Prop
  | .die => Certain w.retain ∧ (w.holder = some (.resent none) ∨
      (∃ status, w.holder = some (.resendFailed status)) ∧ ¬Quiet w)
  | _ => False

/-- **The process of the holder dies.** -/
theorem Inv.died (h : Inv operation w) (hholder : w.holder = some phase) (hkept : ¬LosesResend w .die) :
    Inv operation (w.orphan phase).release := by
  have hphase := h.phase phase hholder
  refine h.orphan hholder ?_ nofun
  have hreads : (∀ request, phase.call = some (request, none) → request.writes = false) →
      (∀ status, phase ≠ .resendFailed status) → Quiet (w.orphan phase) ∨ Unsure w.retain ∨
        ∃ status, (none : Option Phase) = some (.resendFailed status) :=
    fun hcall hne => (h.orphan_flight hholder hcall hne).imp id .inl
  have hunsure : w.retain.sendState ≠ .idle → ¬Certain w.retain → Unsure w.retain := by
    intro hidle hcertain
    rcases certain_or_unsure w.retain with hs | hs | hs
    · exact absurd hs hidle
    · exact absurd hs hcertain
    · exact hs
  cases phase with
  | sent request reply => exact .inr (.inl (.inr (.inl hphase.2.row)))
  | resent reply =>
      cases reply with
      | none =>
          refine .inr (.inl (hunsure hphase.2 fun hcertain => hkept ⟨hcertain, .inl hholder⟩))
      | some v => exact hreads (fun request hcall => by cases hcall) nofun
  | resendFailed status =>
      by_cases hcertain : Certain w.retain
      · left
        by_contra hnoisy
        exact hkept ⟨hcertain, .inr ⟨⟨status, hholder⟩, hnoisy⟩⟩
      · exact .inr (.inl (hunsure hphase.2.1 hcertain))
  | removing | forgetting => exact hreads (fun request hcall => Phase.call_removes hcall rfl nofun) nofun
  | _ => exact hreads nofun nofun

/-- **One event** keeps the invariant, unless it loses a Retain that was re-sent. -/
theorem inv_step {e : Event} (h : Inv operation w) (hkept : ¬LosesResend w e) (hstep : step operation w e = some w') :
    Inv operation w' := by
  cases e with
  | forget =>
      simp only [step] at hstep
      split at hstep
      next hnone =>
        obtain rfl := Option.some.inj hstep
        have hnone' : w.deletion = none := Option.isNone_iff_eq_none.mp hnone
        have hevidence : w.evidence = none := by
          unfold World.evidence
          rw [hnone']
          rfl
        refine ⟨fun phase hp => (h.phase phase hp).congr rfl hevidence.symm (fun _ => rfl) rfl rfl, h.flight, h.unknown,
          h.idle, fun _ => h.rooted hevidence, nofun, nofun, fun row hrow hstatus => ?_⟩
        obtain rfl := Option.some.inj hrow
        cases hstatus
      next => cases hstep
  | startSender retry =>
      simp only [step] at hstep
      split at hstep
      next hfree =>
        obtain rfl := Option.some.inj hstep
        have hflight := h.settled fun status heq => by
          rw [Option.isNone_iff_eq_none.mp hfree] at heq
          cases heq
        refine h.goes ?_ (hflight.imp id .inl)
        cases retry <;> rfl
      next => cases hstep
  | startDelete =>
      simp only [step] at hstep
      split at hstep
      next hfree =>
        obtain rfl := Option.some.inj hstep
        rw [Bool.and_eq_true] at hfree
        have hflight := h.settled fun status heq => by
          rw [Option.isNone_iff_eq_none.mp hfree.1] at heq
          cases heq
        refine h.goes ?_ (hflight.imp id .inl)
        obtain ⟨row, hrow, _⟩ := (Option.any_eq_true ..).mp hfree.2
        show w.deletion.isSome = true
        rw [hrow]
        rfl
      next => cases hstep
  | busy =>
      simp only [step] at hstep
      split at hstep
      · obtain rfl := Option.some.inj hstep
        exact h.saved nofun
      · cases hstep
  | proceed =>
      obtain ⟨phase, hholder, hstep⟩ := Option.bind_eq_some_iff.mp hstep
      exact h.proceed hholder hstep
  | gathered factIds =>
      obtain ⟨phase, hholder, hstep⟩ := Option.bind_eq_some_iff.mp hstep
      have hphase := h.phase phase hholder
      unfold gathered at hstep
      split at hstep
      · obtain rfl := Option.some.inj hstep
        exact h.goes hphase (.inl hphase.2.1.flight)
      · cases hstep
  | received =>
      obtain ⟨phase, hholder, hstep⟩ := Option.bind_eq_some_iff.mp hstep
      exact h.received hholder hstep
  | rejected status =>
      obtain ⟨phase, hholder, hstep⟩ := Option.bind_eq_some_iff.mp hstep
      exact h.rejected hholder hstep
  | faulted waiting =>
      obtain ⟨phase, hholder, hstep⟩ := Option.bind_eq_some_iff.mp hstep
      exact h.faulted hholder hstep
  | die =>
      obtain ⟨phase, hholder, rfl⟩ := Option.map_eq_some_iff.mp hstep
      exact h.died hholder hkept
  | deliver v =>
      obtain ⟨phase, hholder, hstep⟩ := Option.bind_eq_some_iff.mp hstep
      have hphase := h.phase phase hholder
      split at hstep
      next request hcall =>
        obtain ⟨b, hb, hstep⟩ := Option.bind_eq_some_iff.mp hstep
        obtain rfl := Option.some.inj hstep
        cases hwrites : request.writes with
        | true =>
            obtain ⟨hnone, hidle⟩ := hphase.none_of_call hcall hwrites
            have hflight := h.settled fun status heq => by
              obtain rfl := Option.some.inj (hholder.symm.trans heq)
              cases hcall
            refine h.writes hnone hidle (apply_rooted (h.rooted hnone).1 hwrites hb) (fun _ hmem => hmem) (hflight.imp id .inl)
              fun p hp => ?_
            obtain rfl := Option.some.inj hp
            cases phase with
            | sent => exact ⟨hphase.1, hphase.2.evidence, hphase.2.row, hphase.2.flight⟩
            | resent => exact ⟨⟨hphase.1.deleted, hphase.1.evidence⟩, hphase.2⟩
            | removing | forgetting =>
                rw [Phase.call_removes hcall rfl nofun] at hwrites
                cases hwrites
            | _ => cases hcall
        | false =>
            obtain ⟨found, hfound⟩ := hphase.evidence_of_call hcall hwrites
            refine h.removes hfound (apply_removes hwrites hb) (fun _ hmem => hmem) fun p hp => ?_
            obtain rfl := Option.some.inj hp
            exact hphase.answered
      next => cases hstep
  | deliverLate i v =>
      obtain ⟨request, hrequest, hstep⟩ := Option.bind_eq_some_iff.mp hstep
      obtain ⟨b, hb, hstep⟩ := Option.bind_eq_some_iff.mp hstep
      obtain rfl := Option.some.inj hstep
      have hmem : request ∈ w.flight := List.mem_of_getElem? hrequest
      have hflight : ∀ q ∈ w.flight.eraseIdx i, q ∈ w.flight := fun q hq => List.mem_of_mem_eraseIdx hq
      cases hwrites : request.writes with
      | true =>
          have hnoisy : ¬Quiet w := fun hquiet => by
            rw [hquiet request hmem] at hwrites
            cases hwrites
          exact h.writtenLate hnoisy (fun hrooted => apply_rooted hrooted hwrites hb) hflight
      | false =>
          cases hfound : w.evidence with
          | none =>
              rw [(h.rooted hfound).2 request hmem] at hwrites
              cases hwrites
          | some found => exact h.removes hfound (apply_removes hwrites hb) hflight h.phase
  | finish o status written =>
      obtain ⟨b, hb, hstep⟩ := Option.bind_eq_some_iff.mp hstep
      obtain rfl := Option.some.inj hstep
      exact h.works (finish_works hb) fun hrooted => finish_rooted hrooted hb
  | spawn o child =>
      obtain ⟨b, hb, hstep⟩ := Option.bind_eq_some_iff.mp hstep
      obtain rfl := Option.some.inj hstep
      exact h.works (spawn_works hb) fun hrooted => spawn_rooted hrooted hb

end invariant

end HpAgent.Memory.Deletion
