import HpAgent.Records.SideEffects

/-! # Side effects over whole runs

`Step.guarded` keeps the invariant of `HpAgent.Records.SideEffects` in every step, and `Step.completed` keeps a
completed operation.  `side_effects_guarded` collects the consequences for every run; `idempotent_failed` is a run
that fails an operation whose idempotent tool was dispatched. -/

namespace HpAgent.Records

open Library

variable {δ : Type} {r : ToolRequest} {w : World δ} {db' : RecordStore δ} {argumentsHash : String}

/-! ### One step -/

/-- An attempt enters the operation. -/
theorem Guarded.begin (hw : Guarded r w) {fence : Fence} {clock : Readings} {status : OperationStatus}
    {payload : Option Payload}
    (h : (beginOperation clock (some fence) r.operationId r.runId "tool" true).run w.db = .ok ((status, payload), db')) :
    Guarded r ⟨db', if status = .completed then none else some (fence, .entered status payload), w.log⟩ := by
  cases beginOperation_ok h with
  | fresh hnone hstatus hpayload h' =>
      obtain ⟨o', ho', hstarted⟩ := h'
      have hquiet : ¬Dispatched w.log := by
        intro hd
        obtain ⟨o, ho, -⟩ := hw.waiting hd
        rw [World.row, hnone] at ho
        cases ho
      constructor
      · exact hw.confirmed
      · intro hd
        exact absurd hd hquiet
      · intro o ho hunresolved
        obtain rfl := Option.some.inj (ho.symm.trans ho')
        rw [hstarted] at hunresolved
        cases hunresolved
      · intro f p hp
        subst hstatus
        obtain ⟨-, rfl⟩ := Prod.mk.inj (Option.some.inj hp)
        exact ⟨fun hd => absurd hd hquiet, fun _ => hpayload, nofun⟩
  | completed ho hcompleted hstatus ho' =>
      refine hw.kept rfl ?_ ?_
      · exact .inl (ho'.trans ho.symm)
      · intro f p hp
        rw [if_pos hstatus] at hp
        cases hp
  | @unresolved o ho hunresolved hstatus hpayload h' =>
      obtain ⟨n, ho'⟩ := h'
      constructor
      · exact hw.confirmed
      · intro hd
        obtain ⟨o₁, ho₁, hstate⟩ := hw.waiting hd
        obtain rfl := Option.some.inj (ho.symm.trans ho₁)
        exact ⟨_, ho', hstate⟩
      · intro o₁ ho₁ hunresolved₁
        obtain rfl := Option.some.inj (ho₁.symm.trans ho')
        exact hw.intents o ho hunresolved
      · intro f p hp
        subst hstatus hpayload
        split at hp
        · cases hp
        · obtain ⟨-, rfl⟩ := Prod.mk.inj (Option.some.inj hp)
          refine ⟨?_, ?_, ?_⟩
          · intro hd
            obtain ⟨o₁, ho₁, hstate⟩ := hw.waiting hd
            obtain rfl := Option.some.inj (ho.symm.trans ho₁)
            refine ⟨hunresolved, ?_⟩
            rcases hstate with hcompleted | ⟨-, hclass⟩
            · rw [hcompleted] at hunresolved
              cases hunresolved
            · exact hclass
          · intro hresolved
            rw [hunresolved] at hresolved
            cases hresolved
          · intro _
            exact ⟨hw.intents o ho hunresolved, _, ho', .inr ⟨hunresolved, rfl⟩⟩
  | restarted ho hopen hresolved hstatus hpayload h' =>
      obtain ⟨o', ho', hstarted⟩ := h'
      have hquiet : ¬Dispatched w.log := by
        intro hd
        obtain ⟨o₁, ho₁, hstate⟩ := hw.waiting hd
        obtain rfl := Option.some.inj (ho.symm.trans ho₁)
        rcases hstate with hcompleted | ⟨hunresolved, -⟩
        · exact hopen hcompleted
        · rw [hresolved] at hunresolved
          cases hunresolved
      constructor
      · exact hw.confirmed
      · intro hd
        exact absurd hd hquiet
      · intro o₁ ho₁ hunresolved
        obtain rfl := Option.some.inj (ho₁.symm.trans ho')
        rw [hstarted] at hunresolved
        cases hunresolved
      · intro f p hp
        subst hstatus
        obtain ⟨-, rfl⟩ := Prod.mk.inj (Option.some.inj hp)
        exact ⟨fun hd => absurd hd hquiet, fun _ => hpayload, nofun⟩

/-- A fresh operation has its intent recorded. -/
theorem Guarded.recordIntent (hw : Guarded r w) {fence : Fence} {status : OperationStatus}
    {payload : Option Payload} {c : SideEffectClass} {now : Instant}
    (hat : w.attempt = some (fence, .entered status payload)) (hfresh : status.unresolved = false)
    (h : (recordOperationIntent now (some fence) r.operationId
      (r.intentInUse payload argumentsHash c fence.token)).run w.db = .ok ((), db')) :
    Guarded r ⟨db', some (fence, .ready c (Phase.entered status payload).nonIdempotentMayHaveExecuted), w.log⟩ := by
  obtain ⟨hdispatched, hnone, -⟩ := hw.phase fence _ hat
  have hquiet : ¬Dispatched w.log := by
    intro hd
    have hunresolved := (hdispatched hd).1
    rw [hfresh] at hunresolved
    cases hunresolved
  obtain ⟨o, ho, hstatus, hpayload⟩ := recordOperationIntent_ok h
  have hintent : r.intentInUse payload argumentsHash c fence.token = r.intent argumentsHash c fence.token := by
    unfold ToolRequest.intentInUse
    rw [hnone hfresh]
    exact if_pos rfl
  rw [hintent] at hpayload
  constructor
  · exact hw.confirmed
  · intro hd
    exact absurd hd hquiet
  · intro o₁ ho₁ _
    obtain rfl := Option.some.inj (ho₁.symm.trans ho)
    rw [hpayload]
    exact intent_ne_empty r argumentsHash c fence.token
  · intro f p hp
    obtain ⟨-, rfl⟩ := Prod.mk.inj (Option.some.inj hp)
    refine ⟨fun hd => absurd hd hquiet, ?_⟩
    rintro rfl
    refine ⟨?_, o, ho, .inr ⟨?_, ?_⟩⟩
    · rw [← Bool.not_eq_true]
      intro hunconfirmed
      exact hquiet (dispatched_of_unconfirmed hunconfirmed)
    · rw [hstatus]
      rfl
    · rw [hpayload]
      exact persistedClass_intent r argumentsHash .nonIdempotentWrite fence.token

/-- An intent of a tool that may run again: no non-idempotent tool was dispatched. -/
theorem Guarded.recover (hw : Guarded r w) {fence : Fence} {status : OperationStatus}
    {payload : Option Payload} {c : SideEffectClass}
    (hat : w.attempt = some (fence, .entered status payload)) (hunresolved : status.unresolved = true)
    (hmatch : r.recovers (r.intentInUse payload argumentsHash c fence.token) argumentsHash c = true)
    (hsafe : c ≠ .nonIdempotentWrite) :
    Guarded r ⟨w.db, some (fence, .ready c (Phase.entered status payload).nonIdempotentMayHaveExecuted), w.log⟩ := by
  obtain ⟨hdispatched, -, hentered⟩ := hw.phase fence _ hat
  have hclass := recovered_class (hentered hunresolved).1 hmatch
  refine hw.kept rfl (.inl rfl) ?_
  intro f p hp
  obtain ⟨-, rfl⟩ := Prod.mk.inj (Option.some.inj hp)
  refine ⟨?_, fun hc => absurd hc hsafe⟩
  intro hd
  have hpersisted := (hdispatched hd).2
  rw [hclass] at hpersisted
  exact absurd hpersisted hsafe

/-- A reconciliation, whatever its outcome. -/
theorem Guarded.reconcile (hw : Guarded r w) {fence : Fence} {status : OperationStatus}
    {payload : Option Payload} {outcome : ReconcileOutcome} {result : Bool} {p : Phase}
    (hat : w.attempt = some (fence, .entered status payload)) (hunresolved : status.unresolved = true)
    (hmatch : r.recovers (r.intentInUse payload argumentsHash .nonIdempotentWrite fence.token) argumentsHash
      .nonIdempotentWrite = true)
    (hp : p = match outcome with
      | .confirmedCompleted =>
        if result then .resulted (Phase.entered status payload).nonIdempotentMayHaveExecuted
        else .handling (Phase.entered status payload).nonIdempotentMayHaveExecuted
      | .confirmedNotExecuted => .ready .nonIdempotentWrite (Phase.entered status payload).nonIdempotentMayHaveExecuted
      | .uncertain | .unsupported => .doubted (Phase.entered status payload).nonIdempotentMayHaveExecuted) :
    Guarded r ⟨w.db, some (fence, p), .reconciled outcome :: w.log⟩ := by
  have hphase := hw.phase fence _ hat
  obtain ⟨hne, o, ho, hstate⟩ := hphase.2.2 hunresolved
  have hclass := recovered_class hne hmatch
  have hwaiting : Waiting (w.row r) := by
    refine ⟨o, ho, ?_⟩
    apply hstate.imp_right
    rintro ⟨hopen, hpayload⟩
    rw [hpayload]
    exact ⟨hopen, hclass⟩
  constructor
  · exact ⟨nofun, hw.confirmed⟩
  · intro _
    exact hwaiting
  · exact hw.intents
  · intro f q hq
    obtain ⟨-, rfl⟩ := Prod.mk.inj (Option.some.inj hq)
    have hflag : Dispatched (.reconciled outcome :: w.log) →
        (Phase.entered status payload).nonIdempotentMayHaveExecuted = true := by
      intro hd
      exact hphase.flag (dispatched_reconciled.mp hd)
    subst hp
    cases outcome with
    | confirmedCompleted =>
        cases result
        · exact hflag
        · exact hflag
    | confirmedNotExecuted => exact ⟨hflag, fun _ => ⟨rfl, hwaiting⟩⟩
    | uncertain => exact hflag
    | unsupported => exact hflag

/-- The tool is called. -/
theorem Guarded.dispatch {w : World δ} (hw : Guarded r w) {fence : Fence} {c : SideEffectClass} {flag : Bool}
    (hat : w.attempt = some (fence, .ready c flag)) :
    Guarded r ⟨w.db, some (fence, .sent c (flag || c = .nonIdempotentWrite)), .dispatched c :: w.log⟩ := by
  obtain ⟨hflag, hready⟩ := hw.phase fence _ hat
  constructor
  · refine ⟨?_, hw.confirmed⟩
    intro he
    obtain rfl := Event.dispatched.inj he
    exact (hready rfl).1
  · intro hd
    rcases List.mem_cons.mp hd with he | hd
    · obtain rfl := Event.dispatched.inj he
      exact (hready rfl).2
    · exact hw.waiting hd
  · exact hw.intents
  · intro f p hp
    obtain ⟨-, rfl⟩ := Prod.mk.inj (Option.some.inj hp)
    constructor
    · intro hd
      rcases List.mem_cons.mp hd with he | hd
      · obtain rfl := Event.dispatched.inj he
        simp
      · simp [hflag hd]
    · rintro rfl
      simp

variable [DecidableEq δ] {resultDigest : Payload → δ}

/-- **Every step keeps the invariant.** -/
theorem Step.guarded {w' : World δ} (h : Step resultDigest r w w') (hw : Guarded r w) : Guarded r w' := by
  cases h with
  | begin hidle h => exact hw.begin h
  | recordIntent hat hfresh hknown h => exact hw.recordIntent hat hfresh h
  | recover hat hunresolved hknown hmatch hsafe => exact hw.recover hat hunresolved hmatch hsafe
  | reconcile hat hunresolved hmatch hp => exact hw.reconcile hat hunresolved hmatch hp
  | dispatch hat => exact hw.dispatch hat
  | «return» failed hat =>
      have hphase := hw.phase _ _ hat
      refine hw.kept rfl (.inl rfl) ?_
      intro f p hp
      obtain ⟨-, rfl⟩ := Prod.mk.inj (Option.some.inj hp)
      split
      · exact hphase.1
      · exact hphase.1
  | @complete fence flag clock late i hat hi =>
      have hphase := hw.phase _ _ hat
      refine hw.kept rfl ?_ ?_
      · have hrow := (completeOperationWithEvent_mayComplete resultDigest clock late (some fence) i w.db).row
        rw [hi] at hrow
        exact hrow
      · intro f p hp
        dsimp only at hp
        split at hp
        · cases hp
        · obtain ⟨-, rfl⟩ := Prod.mk.inj (Option.some.inj hp)
          exact hphase
  | raise hat =>
      have hphase := hw.phase _ _ hat
      refine hw.kept rfl (.inl rfl) ?_
      intro f q hq
      obtain ⟨-, rfl⟩ := Prod.mk.inj (Option.some.inj hq)
      exact hphase.handling
  | mark hat hp h =>
      rcases markOperationUncertain_ok h with hsame | ⟨o, ho, hunresolved, ho'⟩
      · exact hw.kept rfl (.inl hsame) nofun
      · constructor
        · exact hw.confirmed
        · intro hd
          obtain ⟨o₁, ho₁, hstate⟩ := hw.waiting hd
          obtain rfl := Option.some.inj (ho.symm.trans ho₁)
          refine ⟨_, ho', .inr ⟨rfl, ?_⟩⟩
          rcases hstate with hcompleted | ⟨-, hclass⟩
          · rw [hcompleted] at hunresolved
            cases hunresolved
          · exact hclass
        · intro o₁ ho₁ _
          obtain rfl := Option.some.inj (ho₁.symm.trans ho')
          exact hw.intents o ho hunresolved
        · nofun
  | fail hat h =>
      have hquiet : ¬Dispatched w.log := by
        intro hd
        cases hw.phase _ _ hat hd
      rcases failOperation_ok h with hsame | ⟨o, ho, hfailed⟩
      · exact hw.kept rfl (.inl hsame) nofun
      · constructor
        · exact hw.confirmed
        · intro hd
          exact absurd hd hquiet
        · intro o₁ ho₁ hunresolved
          obtain rfl := Option.some.inj (ho₁.symm.trans ho)
          rw [hfailed] at hunresolved
          cases hunresolved
        · nofun
  | crash => exact hw.kept rfl (.inl rfl) nofun
  | receive h =>
      have hrow : RowKept (w.row r) _ := (receive_closes resultDigest _ _ _ _ _ _ _ _ _ _ h).mayComplete.row
      refine hw.kept rfl hrow ?_
      intro f p hp
      exact (hw.phase f p hp).kept hrow
  | surroundings h =>
      refine hw.kept rfl (.inl h) ?_
      intro f p hp
      exact (hw.phase f p hp).kept (.inl h)

/-- A completed row stays as it is. -/
theorem Step.completed {w' : World δ} (h : Step resultDigest r w w') {o : Operation} (ho : w.row r = some o)
    (hcompleted : o.status = .completed) : w'.row r = some o := by
  have hmoves : Moves w.db w'.db → w'.row r = some o := by
    intro hm
    obtain ⟨o', ho', -, hsame⟩ := hm _ o ho
    rw [hsame hcompleted] at ho'
    exact ho'
  cases h with
  | begin hidle h => exact hmoves (beginOperation_quiet _ _ _ _ _ _ _ _ _ h).moves
  | recordIntent hat hfresh hknown h => exact hmoves (recordOperationIntent_quiet _ _ _ _ _ _ _ h).moves
  | recover => exact ho
  | reconcile => exact ho
  | dispatch => exact ho
  | «return» => exact ho
  | complete => exact hmoves (completeOperationWithEvent_mayComplete resultDigest _ _ _ _ _).moves
  | raise => exact ho
  | mark hat hp h => exact hmoves (markOperationUncertain_quiet _ _ _ _ _ _ _ h).moves
  | fail hat h => exact hmoves (failOperation_quiet _ _ _ _ _ _ _ h).moves
  | crash => exact ho
  | receive h => exact hmoves (receive_quiet resultDigest _ _ _ _ _ _ _ _ _ _ h).moves
  | surroundings h => exact h.trans ho

/-! ### Whole runs -/

theorem Attempted.guarded (h : Attempted resultDigest r w) : Guarded r w := by
  induction h with
  | start h =>
      constructor
      · exact trivial
      · nofun
      · intro o ho
        rw [World.row, h] at ho
        cases ho
      · nofun
  | step _ hstep ih => exact hstep.guarded ih

/-- Between two non-idempotent dispatches stands a confirmation. -/
theorem Confirmed.between {log later mid earlier : List Event} (h : Confirmed log)
    (hlog : log = later ++ .dispatched .nonIdempotentWrite :: (mid ++ .dispatched .nonIdempotentWrite :: earlier)) :
    .reconciled .confirmedNotExecuted ∈ mid := by
  subst hlog
  induction later with
  | nil =>
      have hconfirmed : unconfirmed (mid ++ .dispatched .nonIdempotentWrite :: earlier) = false := h.1 rfl
      clear h
      induction mid with
      | nil => cases hconfirmed
      | cons e rest ih =>
          rw [List.cons_append] at hconfirmed
          unfold unconfirmed at hconfirmed
          split at hconfirmed
          · next heq => cases heq
          · cases hconfirmed
          · next heq =>
              obtain ⟨rfl, -⟩ := List.cons.inj heq
              exact List.mem_cons_self
          · next heq =>
              obtain ⟨-, rfl⟩ := List.cons.inj heq
              exact List.mem_cons_of_mem _ (ih hconfirmed)
  | cons e rest ih => exact ih h.2

theorem completed_of_run {w' : World δ} (hrun : Relation.ReflTransGen (Step resultDigest r) w w') {o : Operation}
    (ho : w.row r = some o) (hcompleted : o.status = .completed) : w'.row r = some o := by
  induction hrun with
  | refl => exact ho
  | tail _ hstep ih => exact hstep.completed ih hcompleted

/-- **Side effects are guarded.**  In every run of attempts with crashes, late receipts and reconciliations, a
completed operation never changes; between two dispatches of a non-idempotent tool a reconciler has confirmed
that the first did not execute; and once a non-idempotent tool has been dispatched its operation is unresolved
or completed, so it is never failed. -/
theorem side_effects_guarded {w : World δ} (h : Attempted resultDigest r w) :
    (∀ w', Relation.ReflTransGen (Step resultDigest r) w w' → ∀ o, w.row r = some o → o.status = .completed →
      w'.row r = some o) ∧
    (∀ later mid earlier,
      w.log = later ++ .dispatched .nonIdempotentWrite :: (mid ++ .dispatched .nonIdempotentWrite :: earlier) →
        .reconciled .confirmedNotExecuted ∈ mid) ∧
    (.dispatched .nonIdempotentWrite ∈ w.log →
      ∃ o, w.row r = some o ∧ (o.status = .intentRecorded ∨ o.status = .uncertain ∨ o.status = .completed)) := by
  have hw := h.guarded
  refine ⟨?_, ?_, ?_⟩
  · intro w' hrun o ho hcompleted
    exact completed_of_run hrun ho hcompleted
  · intro later mid earlier hlog
    exact hw.confirmed.between hlog
  · intro hd
    obtain ⟨o, ho, hcompleted | ⟨hunresolved, -⟩⟩ := hw.waiting hd
    · exact ⟨o, ho, .inr (.inr hcompleted)⟩
    · refine ⟨o, ho, ?_⟩
      cases hstatus : o.status with
      | intentRecorded => exact .inl rfl
      | uncertain => exact .inr (.inl rfl)
      | started => simp [hstatus, OperationStatus.unresolved] at hunresolved
      | failed => simp [hstatus, OperationStatus.unresolved] at hunresolved
      | completed => simp [hstatus, OperationStatus.unresolved] at hunresolved

/-! ### Two runs of one attempt -/

/-- One Run with one running Execution. -/
def toolStart : RecordStore Payload where
  base :=
    { accounts := fun a => if a = 1 then some ⟨true, none⟩ else none
      conversations := fun _ _ => true
      runs := fun r => if r = 7 then some ⟨1, .chat 3, .running⟩ else none
      works := fun _ => none
      executions := fun e => if e = 5 then some ⟨1, 7, .running, false⟩ else none
      rootExecution := fun r => if r = 7 then some 5 else none
      leases := fun e => if e = 5 then some ⟨1, 7, 1, 100⟩ else none
      snapshotRevoked := fun _ => false }
  sessions _ := none
  operations := ∅
  attempts := ∅
  receipts := ∅
  transcripts := ∅
  events := ∅

def toolFence : Fence := ⟨1, 7, 5, 1⟩

def toolRequest : ToolRequest := ⟨7, "tool", "call", "send_email", "transcript", 1⟩

def toolBegun : RecordStore Payload :=
  (beginOperation (fun _ => 0) (some toolFence) "tool" 7 "tool" true).commit toolStart

/-- The intent of a tool of the class `c`. -/
def toolIntent (c : SideEffectClass) : RecordStore Payload :=
  (recordOperationIntent 0 (some toolFence) "tool"
    (toolRequest.intentInUse none "hash" c 1)).commit toolBegun

/-- The first attempt dispatches a tool of the class `c`. -/
theorem attempted_sent (c : SideEffectClass) (hknown : c ≠ .unknown) :
    Attempted id toolRequest ⟨toolIntent c, some (toolFence, .sent c (c = .nonIdempotentWrite)), [.dispatched c]⟩ := by
  have hstart : Attempted id toolRequest ⟨toolStart, none, []⟩ := .start rfl
  have hbegun : Attempted id toolRequest ⟨toolBegun, some (toolFence, .entered .started none), []⟩ :=
    hstart.step (.begin rfl (Tx.run_commit (a := (.started, none)) rfl))
  have hintent : (recordOperationIntent 0 (some toolFence) "tool" (toolRequest.intentInUse none "hash" c 1)).run
      toolBegun = .ok ((), toolIntent c) := Tx.run_commit rfl
  have hrecord : Step id toolRequest ⟨toolBegun, some (toolFence, .entered .started none), []⟩
      ⟨toolIntent c, some (toolFence, .ready c (Phase.entered .started none).nonIdempotentMayHaveExecuted), []⟩ :=
    .recordIntent rfl rfl hknown hintent
  have hready : Attempted id toolRequest ⟨toolIntent c, some (toolFence, .ready c false), []⟩ := hbegun.step hrecord
  have hsent := hready.step (.dispatch rfl)
  simpa using hsent

theorem side_effects_guarded_sent :
    ∃ o, (toolIntent .nonIdempotentWrite).operations.lookup "tool" = some o ∧
      (o.status = .intentRecorded ∨ o.status = .uncertain ∨ o.status = .completed) :=
  (side_effects_guarded (attempted_sent .nonIdempotentWrite (by decide))).2.2 List.mem_cons_self

/-- The operation of an idempotent tool that raised. -/
def toolFailed : RecordStore Payload :=
  (failOperation 0 (some toolFence) "tool" "tool_failed").commit (toolIntent .idempotentWrite)

theorem idempotent_failed :
    ¬∀ w : World Payload, Attempted id toolRequest w → ∀ c, .dispatched c ∈ w.log →
      ∀ o, w.row toolRequest = some o → o.status ≠ .failed := by
  intro hall
  have hsent := attempted_sent .idempotentWrite (by decide)
  have hfailed : Attempted id toolRequest ⟨toolFailed, none, [.dispatched .idempotentWrite]⟩ :=
    (hsent.step (.raise rfl)).step (.fail rfl (Tx.run_commit rfl))
  exact hall _ hfailed .idempotentWrite List.mem_cons_self _ rfl rfl

end HpAgent.Records
