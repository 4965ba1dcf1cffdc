import HpAgent.Library.Journal
import HpAgent.Records.Operations

/-! # Transcripts

The three calls that append to the transcript of an Execution: `createTranscript` opens it with the context,
`completeOperationWithEvent` appends the result of an operation, and `observe` appends what a capability
reported.  Each appends one event and completes its operation in one transaction.

`RecordStore.journal` forgets all columns but the versions and the events.  `Recorded` says that this journal is
exact, that the operation of every event is completed and belongs to the Execution of the transcript, and that
every transcript was opened by its context.  `Recorded.quiet` and `Recorded.appended` carry it over the calls.

`completeOperationWithEvent` is wrapped by `preserve_late_result`: when its transaction is refused for a stale
lease the result goes to `receive` in a transaction of its own, which can complete the operation and appends
nothing. -/

namespace HpAgent.Records

open Library

variable {δ : Type} {db db' : RecordStore δ} {T : String} {ev : TranscriptEvent} {clock : Readings}

/-! ### Statements -/

/-- `agent_transcript_events.event_type` is one of these. -/
def eventTypes : List String := ["context", "model_decision", "tool_result", "plan", "system", "final_result"]

/-- `require_owned_record` on `agent_transcripts`. -/
def requireOwnedTranscript (fence : Option Fence) (transcript : String) : RecordTx δ Unit := do
  let row ← Tx.query fun db => db.transcripts.lookup transcript
  Tx.check (∀ f ∈ fence, (row.any fun t => t.accountId = f.accountId ∧ t.runId = f.runId ∧
    t.executionId = f.executionId) = true) (.staleFencingToken "record is outside the Execution context")

/-- The Execution of the transcript owns the operation. -/
def Transcript.owns (t : Transcript) (p : Provenance) : Bool :=
  t.accountId = p.accountId && t.runId = p.runId && t.executionId = p.executionId

/-- The transcript has an event of the operation. -/
def hasEvent (db : RecordStore δ) (transcript operation : String) : Bool :=
  db.events.entries.any fun e => e.1.1 = transcript ∧ e.2.operationId = operation

/-- `INSERT INTO agent_transcript_events` with its trigger. -/
def insertEvent (transcript : String) (sequence : ℕ) (ev : TranscriptEvent) : RecordTx δ Unit := do
  let t ← Tx.query fun db => db.transcripts.lookup transcript
  let o ← Tx.query fun db => db.operations.lookup ev.operationId
  Tx.check (t.any (fun t => o.any fun o => t.owns o.provenance) = true)
    (.raiseException "transcript operation is outside its Execution")
  let taken ← Tx.query fun db =>
    (db.events.lookup (transcript, sequence)).isSome || hasEvent db transcript ev.operationId
  Tx.check (taken = false ∧ 1 ≤ sequence ∧ ev.eventType ∈ eventTypes) .integrityError
  Tx.update fun db => { db with events := db.events.insert (transcript, sequence) ev }

/-- `UPDATE agent_transcripts SET version=`. -/
def setVersion (transcript : String) (version : ℕ) : RecordTx δ Unit :=
  Tx.update fun db =>
    { db with
      transcripts := Table.modify transcript (fun t : Transcript => { t with version := version }) db.transcripts }

/-! ### Opening a transcript -/

/-- The arguments of `create_transcript`; `messages` is the text of the context. -/
structure TranscriptInput where
  transcriptId : String
  runId : Uuid
  accountId : Uuid
  conversationId : Option Uuid
  sessionId : Option Uuid
  executionId : Uuid
  messages : String
  operationId : String
deriving DecidableEq, Repr

/-- `runs.conversation_id`. -/
def conversationOf (r : Run) : Option Uuid :=
  match r.source with
  | .chat conversation => some conversation
  | .work _ _ _ => none

/-- The reference of the context. -/
def contextRef (transcript : String) : String := s!"transcript:{transcript}:1"

/-- `AGENT_SCHEMA_VERSION`. -/
def agentSchemaVersion : ℕ := 4

/-- The result of the context operation. -/
def contextPayload (transcript : String) : Payload :=
  Payload.ofList
    [("schema_version", .ofNat agentSchemaVersion), ("transcript_id", .string transcript),
      ("transcript_version", .ofNat 1), ("context_ref", .string (contextRef transcript))]

/-- `INSERT INTO agent_transcripts … ON CONFLICT (execution_id) DO NOTHING`, and the row that is there then. -/
def lockTranscript (i : TranscriptInput) : RecordTx δ (String × Transcript) := do
  let found ← Tx.query fun db => db.transcripts.entries.find? fun e => e.2.executionId = i.executionId
  match found with
  | some e => pure (e.1, e.2)
  | none => do
    let taken ← Tx.query fun db => (db.transcripts.lookup i.transcriptId).isSome
    Tx.check (taken = false) .integrityError
    Tx.update fun db =>
      { db with
        transcripts := db.transcripts.insert i.transcriptId
          ⟨i.accountId, i.runId, i.executionId, i.conversationId, i.sessionId, 0⟩ }
    pure (i.transcriptId, ⟨i.accountId, i.runId, i.executionId, i.conversationId, i.sessionId, 0⟩)

section digests

variable [DecidableEq δ] (resultDigest : Payload → δ)

/-- `create_transcript`. -/
def createTranscript (clock : Readings) (fence : Option Fence) (i : TranscriptInput) : RecordTx δ ℕ := do
  assertFence (clock 0) fence
  let owner ← Tx.query fun db => (db.base.runs i.runId).map fun r => (r.accountId, conversationOf r, db.sessions i.runId)
  let locked ← Tx.query fun db => db.base.lockExecution i.accountId i.runId (some i.executionId)
  let _ ← Tx.ofExcept locked
  Tx.check (owner = some (i.accountId, i.conversationId, i.sessionId))
    (.valueError "transcript context does not match Run ownership")
  let (transcript, t) ← lockTranscript i
  if t.version = 0 then do
    insertEvent transcript 1 ⟨"context", i.operationId, Payload.ofList [("messages", .other i.messages)]⟩
    setVersion transcript 1
    completeOperation resultDigest (fun n => clock (n + 1)) fence i.operationId (contextRef transcript)
      (contextPayload transcript)
    pure 1
  else do
    completeOperation resultDigest (fun n => clock (n + 1)) fence i.operationId (contextRef transcript)
      (contextPayload transcript)
    pure 1

/-! ### Appending a result -/

/-- The arguments of `complete_operation_with_event`. -/
structure AppendInput where
  transcriptId : String
  expectedVersion : ℕ
  eventType : String
  operationId : String
  eventPayload : Payload
  resultRef : String
  resultPayload : Payload

/-- The result with the position of its event. -/
def AppendInput.completed (i : AppendInput) (version : ℕ) : Payload :=
  i.resultPayload.insert "transcript_version" (.ofNat version)

/-- The position of the operation's event. -/
def positionOf (db : RecordStore δ) (transcript operation : String) : Option ℕ :=
  (db.events.entries.find? fun e => e.1.1 = transcript ∧ e.2.operationId = operation).map fun e => e.1.2

/-- The first half of the transaction: the position the operation already has, or the new version with the
event inserted there. -/
def insertNext (clock : Readings) (fence : Option Fence) (i : AppendInput) : RecordTx δ (ℕ ⊕ ℕ) := do
  assertFence (clock 0) fence
  requireOwnedTranscript fence i.transcriptId
  requireOwnedOperation fence i.operationId
  let row ← Tx.query fun db => db.transcripts.lookup i.transcriptId
  let t ← Tx.demand row (.valueError "transcript not found")
  if t.version ≠ i.expectedVersion then do
    let existing ← Tx.query fun db => positionOf db i.transcriptId i.operationId
    let sequence ← Tx.demand existing
      (.transcriptVersionConflict s!"expected transcript version {i.expectedVersion}, found {t.version}")
    pure (.inl sequence)
  else do
    insertEvent i.transcriptId (t.version + 1) ⟨i.eventType, i.operationId, i.eventPayload⟩
    setVersion i.transcriptId (t.version + 1)
    pure (.inr (t.version + 1))

/-- The transaction of `complete_operation_with_event`. -/
def appendEvent (clock : Readings) (fence : Option Fence) (i : AppendInput) : RecordTx δ ℕ := do
  let position ← insertNext clock fence i
  match position with
  | .inl sequence => pure sequence
  | .inr version => do
    completeOperation resultDigest (fun n => clock (n + 1)) fence i.operationId i.resultRef (i.completed version)
    pure version

/-- The payload as the call leaves it behind when it raises: the version is set just before the operation is
completed. -/
def latePayload (clock : Readings) (fence : Option Fence) (i : AppendInput) (db : RecordStore δ) : Payload :=
  match (insertNext clock fence i).run db with
  | .ok (.inr version, _) => i.completed version
  | _ => i.resultPayload

/-- `complete_operation_with_event` under `preserve_late_result`: what it returns or raises, and the store it
leaves behind.  `late` is the clock of the receipt. -/
def completeOperationWithEvent (clock late : Readings) (fence : Option Fence) (i : AppendInput) (db : RecordStore δ) :
    Except Error ℕ × RecordStore δ :=
  match (appendEvent resultDigest clock fence i).run db with
  | .ok (version, db') => (.ok version, db')
  | .error e =>
    match e, fence with
    | .staleFencingToken m, some f =>
      match (receive resultDigest late f.accountId f.runId f.executionId i.operationId f.token
          (latePayload clock fence i db)).run db with
      | .ok (_, db') => (.error (.staleFencingToken m), db')
      | .error e' => (.error e', db)
    | e, _ => (.error e, db)

/-! ### Observing a capability -/

/-- What the facts of a capability say about an invocation: the outcome with its texts, the pointer to the
producing operation and the evidence of its output, and whether the observation can be recorded. -/
structure Observed where
  outcome : String
  summary : String
  content : String
  pointer : Option String
  evidence : Option String
  recorded : Except Error Unit

/-- The arguments of `_observe`. -/
structure ObserveInput where
  transcriptId : String
  transcriptVersion : ℕ
  operationId : String
  toolCallId : String
  toolName : String
  error : Option String
deriving DecidableEq, Repr

/-- The text of a JSON string without characters to escape. -/
def quoted (s : String) : String := "\"" ++ s ++ "\""

/-- An invocation that was not admitted. -/
def Observed.denied (summary : String) : Observed :=
  ⟨"failed", summary, "\x7b\"outcome\": \"failed\", \"summary\": " ++ quoted summary ++
    ", \"error\": \"admission_denied\"\x7d", none, none, .ok ()⟩

/-- The tool message of the event. -/
def toolMessage (i : ObserveInput) (content : String) : String :=
  "\x7b\"role\": \"tool\", \"tool_call_id\": " ++ quoted i.toolCallId ++ ", \"name\": " ++ quoted i.toolName ++
    ", \"content\": " ++ quoted content ++ "\x7d"

/-- The members that are there when the facts give them. -/
def optionalMember (name : String) (value : Option String) : List (String × Value) :=
  value.toList.map fun v => (name, .other v)

def observationEvent (i : ObserveInput) (r : Observed) : TranscriptEvent :=
  ⟨"tool_result", i.operationId, Payload.ofList ([("message", .other (toolMessage i r.content))] ++
    optionalMember "capability_observation" r.pointer ++ optionalMember "output_exists_evidence" r.evidence)⟩

/-- `capability-observation:` with the operation. -/
def observationRef (operation : String) : String := s!"capability-observation:{operation}"

def observationPayload (i : ObserveInput) (r : Observed) (sequence : ℕ) : Payload :=
  Payload.ofList ([("schema_version", .ofNat agentSchemaVersion), ("operation_id", .string i.operationId),
    ("result_ref", .string (observationRef i.operationId)), ("transcript_version", .ofNat sequence),
    ("display_summary", .string r.summary), ("approval_id", .other "null"), ("approval_status", .string "not_required"),
    ("approval_expires_at", .other "null"),
    ("tool_success", .other (if r.outcome = "succeeded" then "true" else "false"))] ++
    optionalMember "capability_observation" r.pointer)

/-- The observing attempt counts unless its token is registered. -/
def countAttempt (operation : String) (registered : Bool) : RecordTx δ Unit :=
  if registered then pure () else updateOperation operation fun o => { o with attemptCount := o.attemptCount + 1 }

/-- `_observe`; `facts` is what the capability facts answer for this invocation. -/
def observe (clock : Readings) (fence : Option Fence) (facts : Except Error Observed) (i : ObserveInput) :
    RecordTx δ Payload := do
  assertFence (clock 0) fence
  requireOwnedTranscript fence i.transcriptId
  let found ← Tx.query fun db => db.operations.lookup i.operationId
  requireOwnedOperation fence i.operationId
  let o ← Tx.demand found .typeError
  if o.status = .completed then pure (o.resultPayload.getD ∅)
  else do
    let r ← Tx.ofExcept (i.error.elim facts fun summary => .ok (Observed.denied summary))
    Tx.check (r.outcome ≠ "uncertain" ∧ r.outcome ≠ "cancelled") (.applicationError s!"capability_{r.outcome}")
    let row ← Tx.query fun db => db.transcripts.lookup i.transcriptId
    let t ← Tx.demand row .typeError
    Tx.check (t.version = i.transcriptVersion) (.transcriptVersionConflict "capability observation transcript changed")
    insertEvent i.transcriptId (t.version + 1) (observationEvent i r)
    setVersion i.transcriptId (t.version + 1)
    let f ← Tx.demand fence .typeError
    let registered ← Tx.query fun db => (db.attempts.lookup (i.operationId, f.token)).isSome
    countAttempt i.operationId registered
    registerAttempt i.operationId fence
    completeOperation resultDigest (fun n => clock (n + 1)) fence i.operationId (observationRef i.operationId)
      (observationPayload i r (t.version + 1))
    Tx.ofExcept r.recorded
    pure (observationPayload i r (t.version + 1))

end digests

/-! ### The journal of the transcripts -/

/-- The transcripts as append-only streams. -/
def RecordStore.journal (db : RecordStore δ) : Journal String TranscriptEvent where
  version T := ((db.transcripts.lookup T).map Transcript.version).getD 0
  entry T n := db.events.lookup (T, n)

theorem version_of_lookup {t : Transcript} (h : db.transcripts.lookup T = some t) :
    db.journal.version T = t.version := by
  simp [RecordStore.journal, h]

theorem version_of_none (h : db.transcripts.lookup T = none) :
    db.journal.version T = 0 := by
  simp [RecordStore.journal, h]

theorem Quiet.journal {S : Set String} (h : Quiet S db db') : db'.journal = db.journal := by
  simp [RecordStore.journal, h.transcripts, h.events]

/-- The operation of an event: completed, in the Execution of the transcript. -/
def Settled (db : RecordStore δ) (t : Transcript) (operation : String) : Prop :=
  ∃ o, db.operations.lookup operation = some o ∧ o.status = .completed ∧ t.owns o.provenance = true

/-- What holds of the transcripts between the calls. -/
structure Recorded (db : RecordStore δ) : Prop where
  exact : db.journal.Exact TranscriptEvent.operationId
  settled : ∀ T n ev, db.events.lookup (T, n) = some ev →
    ∃ t, db.transcripts.lookup T = some t ∧ Settled db t ev.operationId
  single : ∀ T T' t t', db.transcripts.lookup T = some t → db.transcripts.lookup T' = some t' →
    t.executionId = t'.executionId → T = T'
  opened : ∀ T t, db.transcripts.lookup T = some t → ∃ ev o, db.events.lookup (T, 1) = some ev ∧
    db.operations.lookup ev.operationId = some o ∧ o.resultRef = some (contextRef T)

theorem Recorded.empty (htranscripts : db.transcripts = ∅) (hevents : db.events = ∅) :
    Recorded db := by
  have hrow : ∀ T, db.transcripts.lookup T = none := by
    intro T
    rw [htranscripts]
    exact AList.lookup_empty T
  have hevent : ∀ k, db.events.lookup k = none := by
    intro k
    rw [hevents]
    exact AList.lookup_empty k
  constructor
  · constructor
    · intro T n
      simp only [RecordStore.journal, hevent, hrow, Option.isSome_none, Option.map_none, Option.getD_none]
      simp only [Bool.false_eq_true, false_iff]
      omega
    · intro T T' n n' ev ev' h
      simp [RecordStore.journal, hevent] at h
  · intro T n ev h
    simp [hevent] at h
  · intro T T' t t' h
    simp [hrow] at h
  · intro T t h
    simp [hrow] at h

theorem Settled.mono {t : Transcript} {operation : String} (h : Settled db t operation)
    (hm : Moves db db') : Settled db' t operation := by
  obtain ⟨o, ho, hcompleted, howns⟩ := h
  obtain ⟨o', ho', -, hsame⟩ := hm operation o ho
  rw [hsame hcompleted] at ho'
  exact ⟨o, ho', hcompleted, howns⟩

/-- **Quiet calls keep the transcripts recorded.** -/
theorem Recorded.quiet {S : Set String} (h : Recorded db) (hq : Quiet S db db') : Recorded db' := by
  constructor
  · rw [hq.journal]
    exact h.exact
  · intro T n ev hev
    rw [hq.events] at hev
    rw [hq.transcripts]
    obtain ⟨t, ht, hsettled⟩ := h.settled T n ev hev
    exact ⟨t, ht, hsettled.mono hq.moves⟩
  · rw [hq.transcripts]
    exact h.single
  · intro T t ht
    rw [hq.transcripts] at ht
    rw [hq.events]
    obtain ⟨ev, o, hev, ho, href⟩ := h.opened T t ht
    obtain ⟨_, -, r, hr, hcompleted, -⟩ := h.settled T 1 ev hev
    obtain rfl := Option.some.inj (ho.symm.trans hr)
    obtain ⟨o', ho', -, hsame⟩ := hq.moves _ o ho
    rw [hsame hcompleted] at ho'
    exact ⟨ev, o, hev, ho', href⟩

/-- What an append leaves behind: one more event, whose operation is completed.  `t'` is the row of the
transcript after it. -/
structure Appended (db db' : RecordStore δ) (T : String) (t' : Transcript) (ev : TranscriptEvent) : Prop where
  moves : Moves db db'
  completes : ∀ operation, Completed db' operation → Completed db operation ∨ operation = ev.operationId
  version : t'.version = db.journal.version T + 1
  transcripts : ∀ T', db'.transcripts.lookup T' = if T' = T then some t' else db.transcripts.lookup T'
  events : ∀ k, db'.events.lookup k = if k = (T, t'.version) then some ev else db.events.lookup k
  sameOwner : ∀ t, db.transcripts.lookup T = some t → ∀ p, t.owns p = t'.owns p
  single : ∀ T' t, db.transcripts.lookup T' = some t → t.executionId = t'.executionId → T' = T
  fresh : ∀ n ev', db.events.lookup (T, n) = some ev' → ev'.operationId ≠ ev.operationId
  settled : Settled db' t' ev.operationId
  opened : db.transcripts.lookup T = none →
    ∃ o, db'.operations.lookup ev.operationId = some o ∧ o.resultRef = some (contextRef T)

theorem Appended.journal {t' : Transcript}
    (h : Appended db db' T t' ev) : db'.journal = db.journal.append T ev := by
  have hversion : db'.journal.version = (db.journal.append T ev).version := by
    funext T'
    rw [Journal.version_append]
    by_cases hT : T' = T
    · simp [RecordStore.journal, h.transcripts, hT, h.version]
    · simp [RecordStore.journal, h.transcripts, hT]
  have hentry : db'.journal.entry = (db.journal.append T ev).entry := by
    funext T' n
    rw [Journal.entry_append, ← h.version]
    show db'.events.lookup (T', n) = _
    rw [h.events]
    simp only [Prod.mk.injEq]
    rfl
  cases hj : db'.journal
  cases hk : db.journal.append T ev
  rw [hj, hk] at hversion hentry
  simp only [Journal.mk.injEq]
  exact ⟨hversion, hentry⟩

/-- **An append keeps the transcripts recorded.** -/
theorem Recorded.appended {db db' : RecordStore δ} {T : String} {t' : Transcript} {ev : TranscriptEvent}
    (h : Recorded db) (ha : Appended db db' T t' ev) : Recorded db' := by
  obtain ⟨o', ho', hcompleted', howns'⟩ := ha.settled
  have hnew : ∀ T' n ev', db.journal.entry T' n = some ev' → ev'.operationId ≠ ev.operationId := by
    intro T' n ev' hev' hsame
    obtain ⟨t, ht, o, ho, -, howns⟩ := h.settled T' n ev' hev'
    -- the operation belongs to one Execution, and that Execution to one transcript
    obtain ⟨o₁, ho₁, hprovenance, -⟩ := ha.moves _ o ho
    rw [hsame] at ho₁
    obtain rfl := Option.some.inj (ho₁.symm.trans ho')
    have hexecution : t.executionId = t'.executionId := by
      have hleft : t.executionId = o.provenance.executionId := by
        simp only [Transcript.owns, Bool.and_eq_true, decide_eq_true_eq] at howns
        exact howns.2
      have hright : t'.executionId = o₁.provenance.executionId := by
        simp only [Transcript.owns, Bool.and_eq_true, decide_eq_true_eq] at howns'
        exact howns'.2
      rw [hleft, hright, hprovenance]
    obtain rfl := ha.single T' t ht hexecution
    exact ha.fresh n ev' hev' hsame
  constructor
  · rw [ha.journal]
    exact h.exact.append hnew
  · intro T' n ev' hev'
    rw [ha.events] at hev'
    rw [ha.transcripts]
    split at hev'
    · next hk =>
        obtain rfl := Option.some.inj hev'
        rw [if_pos (Prod.mk.inj hk).1]
        exact ⟨t', rfl, ha.settled⟩
    · obtain ⟨t, ht, hsettled⟩ := h.settled T' n ev' hev'
      by_cases hT : T' = T
      · -- an earlier event of this transcript
        subst hT
        obtain ⟨o, ho, hcompleted, howns⟩ := hsettled.mono ha.moves
        rw [if_pos rfl]
        refine ⟨t', rfl, o, ho, hcompleted, ?_⟩
        rw [← ha.sameOwner t ht]
        exact howns
      · rw [if_neg hT]
        exact ⟨t, ht, hsettled.mono ha.moves⟩
  · intro T₁ T₂ t₁ t₂ h₁ h₂ hexecution
    rw [ha.transcripts] at h₁ h₂
    split at h₁ <;> split at h₂
    · next hT₁ hT₂ => exact hT₁.trans hT₂.symm
    · next hT₁ hT₂ =>
        obtain rfl := Option.some.inj h₁
        exact absurd (ha.single T₂ t₂ h₂ hexecution.symm) hT₂
    · next hT₁ hT₂ =>
        obtain rfl := Option.some.inj h₂
        exact absurd (ha.single T₁ t₁ h₁ hexecution) hT₁
    · exact h.single T₁ T₂ t₁ t₂ h₁ h₂ hexecution
  · intro T₁ t₁ h₁
    cases hold : db.transcripts.lookup T₁ with
    | none =>
        -- the transcript has just been created
        rw [ha.transcripts] at h₁
        split at h₁
        · next hT =>
            subst hT
            obtain ⟨o, ho, href⟩ := ha.opened hold
            have hfirst : t'.version = 1 := by
              rw [ha.version, version_of_none hold]
            refine ⟨ev, o, ?_, ho, href⟩
            rw [ha.events, hfirst, if_pos rfl]
        · rw [hold] at h₁
          cases h₁
    | some t =>
        obtain ⟨ev₁, o, hev₁, ho, href⟩ := h.opened T₁ t hold
        obtain ⟨_, -, r, hr, hcompleted, -⟩ := h.settled T₁ 1 ev₁ hev₁
        obtain rfl := Option.some.inj (ho.symm.trans hr)
        obtain ⟨o₂, ho₂, -, hsame⟩ := ha.moves _ o ho
        rw [hsame hcompleted] at ho₂
        refine ⟨ev₁, o, ?_, ho₂, href⟩
        rw [ha.events, if_neg]
        · exact hev₁
        · intro hk
          obtain ⟨hT, hn⟩ := Prod.mk.inj hk
          have hpos := (h.exact.contiguous T₁ 1).mp (Option.isSome_iff_exists.mpr ⟨ev₁, hev₁⟩)
          have hversion := ha.version
          rw [← hT] at hversion
          omega

/-! ### What a successful append did -/

theorem requireOwnedTranscript_ok {fence : Option Fence} {transcript : String} {u : Unit}
    (h : (requireOwnedTranscript fence transcript).run db = .ok (u, db')) : db = db' := by
  unfold requireOwnedTranscript at h
  rw [Tx.bind_query_ok] at h
  exact (Tx.check_ok.mp h).2

theorem hasEvent_iff {transcript operation : String} :
    hasEvent db transcript operation = true ↔
      ∃ n ev, db.events.lookup (transcript, n) = some ev ∧ ev.operationId = operation := by
  unfold hasEvent
  rw [List.any_eq_true]
  constructor
  · rintro ⟨⟨⟨T, n⟩, ev⟩, hmem, hmatch⟩
    have hpair : T = transcript ∧ ev.operationId = operation := by simpa using hmatch
    obtain ⟨rfl, hop⟩ := hpair
    exact ⟨n, ev, AList.mem_lookup_iff.mpr hmem, hop⟩
  · rintro ⟨n, ev, hev, hop⟩
    refine ⟨⟨(transcript, n), ev⟩, AList.mem_lookup_iff.mp hev, ?_⟩
    simp [hop]

theorem insertEvent_ok {transcript : String} {sequence : ℕ} {u : Unit}
    (h : (insertEvent transcript sequence ev).run db = .ok (u, db')) :
    ∃ t o, db.transcripts.lookup transcript = some t ∧ db.operations.lookup ev.operationId = some o ∧
      t.owns o.provenance = true ∧ hasEvent db transcript ev.operationId = false ∧
      db' = { db with events := db.events.insert (transcript, sequence) ev } := by
  unfold insertEvent at h
  rw [Tx.bind_query_ok, Tx.bind_query_ok, Tx.bind_check_ok, Tx.bind_query_ok, Tx.bind_check_ok, Tx.update_ok] at h
  obtain ⟨howns, ⟨htaken, -, -⟩, rfl⟩ := h
  cases ht : db.transcripts.lookup transcript with
  | none => simp [ht] at howns
  | some t =>
      cases ho : db.operations.lookup ev.operationId with
      | none => simp [ht, ho] at howns
      | some o =>
          have hfree : hasEvent db transcript ev.operationId = false := by
            rw [Bool.or_eq_false_iff] at htaken
            exact htaken.2
          exact ⟨t, o, rfl, rfl, by simpa [ht, ho] using howns, hfree, rfl⟩

/-- The event and the version, written over a transcript that may itself be new, and then a quiet end that
completes the operation. -/
theorem Appended.intro {db₁ db₂ db₃ : RecordStore δ} {t : Transcript}
    {u v : Unit} (h : Recorded db)
    (ht : ∀ T', db₁.transcripts.lookup T' = if T' = T then some t else db.transcripts.lookup T')
    (hrow : db.transcripts.lookup T = some t ∨ db.transcripts.lookup T = none ∧ t.version = 0 ∧
      ∀ T' t', db.transcripts.lookup T' = some t' → t'.executionId ≠ t.executionId)
    (hops : db₁.operations = db.operations) (hevents : db₁.events = db.events)
    (hinsert : (insertEvent T (t.version + 1) ev).run db₁ = .ok (u, db₂))
    (hset : (setVersion T (t.version + 1)).run db₂ = .ok (v, db₃)) (hq : Quiet {ev.operationId} db₃ db')
    (hcomplete : ∃ o, db'.operations.lookup ev.operationId = some o ∧ o.status = .completed ∧
      (db.transcripts.lookup T = none → o.resultRef = some (contextRef T))) :
    Appended db db' T { t with version := t.version + 1 } ev := by
  obtain ⟨t₁, o, ht₁, ho, howns, hfree, rfl⟩ := insertEvent_ok hinsert
  have hlock : db₁.transcripts.lookup T = some t := by rw [ht, if_pos rfl]
  obtain rfl := Option.some.inj (ht₁.symm.trans hlock)
  unfold setVersion at hset
  rw [Tx.update_ok] at hset
  obtain rfl := hset
  have hmoves : Moves db db' := by
    refine trans_of Moves (Moves.of_operations ?_) hq.moves
    exact hops
  have hversion : db.journal.version T = t₁.version := by
    rcases hrow with hrow | ⟨hnone, hzero, -⟩
    · exact version_of_lookup hrow
    · rw [version_of_none hnone, hzero]
  constructor
  · exact hmoves
  · intro operation hcompleted
    apply (hq.completes operation hcompleted).imp_left
    rintro ⟨r, hr, hstatus⟩
    have hr : db₁.operations.lookup operation = some r := hr
    rw [hops] at hr
    exact ⟨r, hr, hstatus⟩
  · show t₁.version + 1 = _
    rw [hversion]
  · intro T'
    rw [hq.transcripts]
    show (Table.modify T _ db₁.transcripts).lookup T' = _
    rw [Table.lookup_modify, ht T, if_pos rfl, ht T']
    split <;> rfl
  · intro k
    rw [hq.events]
    show (db₁.events.insert (T, t₁.version + 1) ev).lookup k = _
    rw [Table.lookup_insert_ite, hevents]
  · intro t' ht'
    rcases hrow with hrow | ⟨hnone, -, -⟩
    · obtain rfl := Option.some.inj (ht'.symm.trans hrow)
      intro p
      rfl
    · rw [hnone] at ht'
      cases ht'
  · intro T' t' ht' hexecution
    rcases hrow with hrow | ⟨-, -, hother⟩
    · exact h.single T' T t' t₁ ht' hrow hexecution
    · exact absurd hexecution (hother T' t' ht')
  · intro n ev' hev' hop
    have hhas : hasEvent db₁ T ev.operationId = true := by
      rw [hasEvent_iff, hevents]
      exact ⟨n, ev', hev', hop⟩
    rw [hhas] at hfree
    cases hfree
  · obtain ⟨o', ho', hcompleted, -⟩ := hcomplete
    have hold : db.operations.lookup ev.operationId = some o := by
      rw [← hops]
      exact ho
    obtain ⟨o₂, ho₂, hprovenance, -⟩ := hmoves _ o hold
    obtain rfl := Option.some.inj (ho'.symm.trans ho₂)
    refine ⟨o', ho', hcompleted, ?_⟩
    show t₁.owns o'.provenance = true
    rw [hprovenance]
    exact howns
  · intro hnone
    obtain ⟨o', ho', -, href⟩ := hcomplete
    exact ⟨o', ho', href hnone⟩

/-- A successful append added the event of its operation and completed it, or found it completed. -/
inductive Appends (db db' : RecordStore δ) (operation : String) : Prop
  | appended {T : String} {t' : Transcript} {ev : TranscriptEvent} (h : Appended db db' T t' ev)
      (hop : ev.operationId = operation)
  | replayed (h : Quiet {operation} db db') (hbefore : Completed db operation)

/-- The transcript of the Execution, as it is or just inserted. -/
theorem lockTranscript_ok {i : TranscriptInput} {t : Transcript}
    (h : (lockTranscript i).run db = .ok ((T, t), db')) :
    (∀ T', db'.transcripts.lookup T' = if T' = T then some t else db.transcripts.lookup T') ∧
      (db.transcripts.lookup T = some t ∧ db' = db ∨ db.transcripts.lookup T = none ∧ t.version = 0 ∧
        ∀ T' t', db.transcripts.lookup T' = some t' → t'.executionId ≠ t.executionId) ∧
      db'.operations = db.operations ∧ db'.events = db.events := by
  unfold lockTranscript at h
  rw [Tx.bind_query_ok] at h
  split at h
  · next e hfind =>
      obtain ⟨hpair, rfl⟩ := Tx.pure_ok.mp h
      obtain ⟨rfl, rfl⟩ := Prod.mk.inj hpair
      have hrow : db.transcripts.lookup e.1 = some e.2 := AList.mem_lookup_iff.mpr (List.mem_of_find?_eq_some hfind)
      refine ⟨?_, .inl ⟨hrow, rfl⟩, rfl, rfl⟩
      intro T'
      split
      · next hT => rw [hT, hrow]
      · rfl
  · next hfind =>
      rw [Tx.bind_query_ok, Tx.bind_check_ok, Tx.bind_update_ok, Tx.pure_ok] at h
      obtain ⟨htaken, hpair, rfl⟩ := h
      obtain ⟨rfl, rfl⟩ := Prod.mk.inj hpair
      have hnone : db.transcripts.lookup i.transcriptId = none := by simpa using htaken
      refine ⟨?_, .inr ⟨hnone, rfl, ?_⟩, rfl, rfl⟩
      · intro T'
        exact Table.lookup_insert_ite db.transcripts i.transcriptId T' _
      · intro T' t' ht'
        have hother := List.find?_eq_none.mp hfind ⟨T', t'⟩ (AList.mem_lookup_iff.mp ht')
        simpa using hother

theorem countAttempt_quiet (operation : String) (registered : Bool) :
    Tx.Keeps (Quiet ∅) (countAttempt operation registered : RecordTx δ Unit) := by
  unfold countAttempt
  split
  · exact Tx.Keeps.pure ()
  · exact updateOperation_quiet fun _ hopen hcompleted => absurd hcompleted hopen

theorem lookup_same {t : Transcript} (ht : db.transcripts.lookup T = some t) (T' : String) :
    db.transcripts.lookup T' = if T' = T then some t else db.transcripts.lookup T' := by
  split
  · next hT => rw [hT, ht]
  · rfl

/-- The first half of an append finds the event of its operation, or inserts it. -/
theorem insertNext_ok {fence : Option Fence} {i : AppendInput} {r : ℕ ⊕ ℕ}
    (h : (insertNext clock fence i).run db = .ok (r, db')) :
    (∃ sequence ev, r = .inl sequence ∧ db' = db ∧ db.events.lookup (i.transcriptId, sequence) = some ev ∧
        ev.operationId = i.operationId) ∨
      ∃ t db₁, r = .inr (t.version + 1) ∧ db.transcripts.lookup i.transcriptId = some t ∧
        (insertEvent i.transcriptId (t.version + 1) ⟨i.eventType, i.operationId, i.eventPayload⟩).run db = .ok ((), db₁) ∧
        (setVersion i.transcriptId (t.version + 1)).run db₁ = .ok ((), db') := by
  unfold insertNext at h
  rw [Tx.bind_ok] at h
  obtain ⟨_, _, hfence, h⟩ := h
  obtain ⟨rfl, -⟩ := assertFence_ok hfence
  rw [Tx.bind_ok] at h
  obtain ⟨_, _, htranscript, h⟩ := h
  obtain rfl := requireOwnedTranscript_ok htranscript
  rw [Tx.bind_ok] at h
  obtain ⟨_, _, howned, h⟩ := h
  obtain ⟨rfl, -⟩ := requireOwnedOperation_ok howned
  rw [Tx.bind_query_ok, Tx.bind_demand_ok] at h
  obtain ⟨t, ht, h⟩ := h
  split at h
  · rw [Tx.bind_query_ok, Tx.bind_demand_ok] at h
    obtain ⟨sequence, hposition, h⟩ := h
    obtain ⟨rfl, rfl⟩ := Tx.pure_ok.mp h
    obtain ⟨⟨⟨T, n⟩, ev⟩, hfind, rfl⟩ := Option.map_eq_some_iff.mp hposition
    have hmatch : T = i.transcriptId ∧ ev.operationId = i.operationId := by simpa using List.find?_some hfind
    have hev : db.events.lookup (T, n) = some ev := AList.mem_lookup_iff.mpr (List.mem_of_find?_eq_some hfind)
    rw [hmatch.1] at hev
    exact .inl ⟨n, ev, rfl, rfl, hev, hmatch.2⟩
  · rw [Tx.bind_ok] at h
    obtain ⟨_, db₃, hinsert, h⟩ := h
    rw [Tx.bind_ok] at h
    obtain ⟨_, db₄, hset, h⟩ := h
    obtain ⟨rfl, rfl⟩ := Tx.pure_ok.mp h
    exact .inr ⟨t, db₃, rfl, ht, hinsert, hset⟩

section digests

variable [DecidableEq δ] (resultDigest : Payload → δ)

theorem createTranscript_ok {fence : Option Fence} {i : TranscriptInput} {n : ℕ}
    (hw : Recorded db)
    (h : (createTranscript resultDigest clock fence i).run db = .ok (n, db')) : Appends db db' i.operationId := by
  unfold createTranscript at h
  rw [Tx.bind_ok] at h
  obtain ⟨_, _, hfence, h⟩ := h
  obtain ⟨rfl, -⟩ := assertFence_ok hfence
  rw [Tx.bind_query_ok, Tx.bind_query_ok, Tx.bind_ofExcept_ok] at h
  obtain ⟨_, -, h⟩ := h
  rw [Tx.bind_check_ok, Tx.bind_ok] at h
  obtain ⟨-, ⟨T, t⟩, db₁, hlock, h⟩ := h
  obtain ⟨ht, hrow, hops, hevents⟩ := lockTranscript_ok hlock
  dsimp only at h
  split at h
  · next hzero =>
      rw [Tx.bind_ok] at h
      obtain ⟨_, db₂, hinsert, h⟩ := h
      rw [Tx.bind_ok] at h
      obtain ⟨_, db₃, hset, h⟩ := h
      rw [Tx.bind_ok] at h
      obtain ⟨_, db₄, hcomplete, h⟩ := h
      obtain ⟨-, rfl⟩ := Tx.pure_ok.mp h
      obtain ⟨o, ho, hcompleted, href, -⟩ := completeOperation_ok resultDigest hcomplete
      have hnext : t.version + 1 = 1 := by omega
      rw [← hnext] at hinsert hset
      have hrow : db.transcripts.lookup T = some t ∨ db.transcripts.lookup T = none ∧ t.version = 0 ∧
          ∀ T' t', db.transcripts.lookup T' = some t' → t'.executionId ≠ t.executionId := by
        apply hrow.imp_left
        intro hfound
        exact hfound.1
      have happended := Appended.intro hw ht hrow hops hevents hinsert hset
        (completeOperation_quiet resultDigest _ _ _ _ _ _ _ _ hcomplete) ⟨o, ho, hcompleted, fun _ => href⟩
      exact .appended happended rfl
  · next hopened =>
      rw [Tx.bind_ok] at h
      obtain ⟨_, db₂, hcomplete, h⟩ := h
      obtain ⟨-, rfl⟩ := Tx.pure_ok.mp h
      rcases hrow with ⟨hrow, rfl⟩ | ⟨-, hzero, -⟩
      · apply Appends.replayed
        · exact completeOperation_quiet resultDigest _ _ _ _ _ _ _ _ hcomplete
        · -- the context is the operation of the first event, since its reference is taken
          obtain ⟨o, -, hcompleted, -, hbefore | hfree⟩ := completeOperation_ok resultDigest hcomplete
          · exact ⟨o, hbefore, hcompleted⟩
          · obtain ⟨ev, r, hev, hr, href⟩ := hw.opened T t hrow
            obtain ⟨_, -, r', hr', hcompleted', -⟩ := hw.settled T 1 ev hev
            obtain rfl := Option.some.inj (hr.symm.trans hr')
            have hsame := (hfree _ r hr).resolve_right fun hne => hne href
            rw [hsame] at hr
            exact ⟨r, hr, hcompleted'⟩
      · exact absurd hzero hopened

/-- The position an append returns is the one of its event. -/
theorem appendEvent_ok {fence : Option Fence} {i : AppendInput} {n : ℕ}
    (hw : Recorded db) (h : (appendEvent resultDigest clock fence i).run db = .ok (n, db')) :
    Appends db db' i.operationId ∧
      ∃ ev, db'.events.lookup (i.transcriptId, n) = some ev ∧ ev.operationId = i.operationId := by
  unfold appendEvent at h
  rw [Tx.bind_ok] at h
  obtain ⟨position, db₁, hposition, h⟩ := h
  obtain ⟨sequence, ev, rfl, rfl, hev, hop⟩ | ⟨t, db₂, rfl, ht, hinsert, hset⟩ := insertNext_ok hposition
  · obtain ⟨rfl, rfl⟩ := Tx.pure_ok.mp h
    refine ⟨.replayed (refl_of (Quiet {i.operationId}) _) ?_, ev, hev, hop⟩
    obtain ⟨_, -, o, ho, hcompleted, -⟩ := hw.settled _ _ ev hev
    rw [hop] at ho
    exact ⟨o, ho, hcompleted⟩
  · rw [Tx.bind_ok] at h
    obtain ⟨_, db₃, hcomplete, h⟩ := h
    obtain ⟨rfl, rfl⟩ := Tx.pure_ok.mp h
    obtain ⟨o, ho, hcompleted, -⟩ := completeOperation_ok resultDigest hcomplete
    have happended := Appended.intro hw (lookup_same ht) (.inl ht) rfl rfl hinsert hset
      (completeOperation_quiet resultDigest _ _ _ _ _ _ _ _ hcomplete)
      ⟨o, ho, hcompleted, fun hnone => by rw [ht] at hnone; cases hnone⟩
    refine ⟨.appended happended rfl, ⟨i.eventType, i.operationId, i.eventPayload⟩, ?_, rfl⟩
    rw [happended.events, if_pos rfl]

/-- An observation of a completed operation changes nothing; another one inserts its event, and registers and completes its
attempt. -/
theorem observe_parts {fence : Option Fence} {facts : Except Error Observed} {i : ObserveInput} {p : Payload}
    (h : (observe resultDigest clock fence facts i).run db = .ok (p, db')) :
    db.base.assertExecutionFence (clock 0) fence = .ok () ∧ ∃ o, db.operations.lookup i.operationId = some o ∧
      (o.status = .completed ∧ db' = db ∨ o.status ≠ .completed ∧ ∃ t f r db₁ db₂ db₃ db₄,
        db.transcripts.lookup i.transcriptId = some t ∧ fence = some f ∧
        (insertEvent i.transcriptId (t.version + 1) (observationEvent i r)).run db = .ok ((), db₁) ∧
        (setVersion i.transcriptId (t.version + 1)).run db₁ = .ok ((), db₂) ∧
        (countAttempt i.operationId (db₂.attempts.lookup (i.operationId, f.token)).isSome).run db₂ = .ok ((), db₃) ∧
        (registerAttempt i.operationId fence).run db₃ = .ok ((), db₄) ∧
        (completeOperation resultDigest (fun n => clock (n + 1)) fence i.operationId (observationRef i.operationId)
          (observationPayload i r (t.version + 1))).run db₄ = .ok ((), db')) := by
  unfold observe at h
  rw [Tx.bind_ok] at h
  obtain ⟨_, _, hfence, h⟩ := h
  obtain ⟨rfl, hpassed⟩ := assertFence_ok hfence
  rw [Tx.bind_ok] at h
  obtain ⟨_, _, htranscript, h⟩ := h
  obtain rfl := requireOwnedTranscript_ok htranscript
  rw [Tx.bind_query_ok, Tx.bind_ok] at h
  obtain ⟨_, _, howned, h⟩ := h
  obtain ⟨rfl, -⟩ := requireOwnedOperation_ok howned
  rw [Tx.bind_demand_ok] at h
  obtain ⟨o, ho, h⟩ := h
  refine ⟨hpassed, o, ho, ?_⟩
  split at h
  · next hcompleted =>
      obtain ⟨-, rfl⟩ := Tx.pure_ok.mp h
      exact .inl ⟨hcompleted, rfl⟩
  · next hopen =>
      rw [Tx.bind_ofExcept_ok] at h
      obtain ⟨r, -, h⟩ := h
      rw [Tx.bind_check_ok, Tx.bind_query_ok, Tx.bind_demand_ok] at h
      obtain ⟨-, t, ht, h⟩ := h
      rw [Tx.bind_check_ok, Tx.bind_ok] at h
      obtain ⟨-, _, db₁, hinsert, h⟩ := h
      rw [Tx.bind_ok] at h
      obtain ⟨_, db₂, hset, h⟩ := h
      rw [Tx.bind_demand_ok] at h
      obtain ⟨f, hf, h⟩ := h
      rw [Tx.bind_query_ok, Tx.bind_ok] at h
      obtain ⟨_, db₃, hcount, h⟩ := h
      rw [Tx.bind_ok] at h
      obtain ⟨_, db₄, hregister, h⟩ := h
      rw [Tx.bind_ok] at h
      obtain ⟨_, db₅, hcomplete, h⟩ := h
      rw [Tx.bind_ofExcept_ok] at h
      obtain ⟨_, -, h⟩ := h
      obtain ⟨-, rfl⟩ := Tx.pure_ok.mp h
      exact .inr ⟨hopen, t, f, r, db₁, db₂, db₃, db₄, ht, hf, hinsert, hset, hcount, hregister, hcomplete⟩

theorem observe_ok {fence : Option Fence} {facts : Except Error Observed} {i : ObserveInput}
    {p : Payload} (hw : Recorded db)
    (h : (observe resultDigest clock fence facts i).run db = .ok (p, db')) : Appends db db' i.operationId := by
  obtain ⟨-, o, ho, ⟨hcompleted, rfl⟩ | ⟨-, t, f, r, db₁, db₂, db₃, db₄, ht, -, hinsert, hset, hcount, hregister, hcomplete⟩⟩ :=
    observe_parts resultDigest h
  · exact .replayed (refl_of (Quiet {i.operationId}) _) ⟨o, ho, hcompleted⟩
  · obtain ⟨o', ho', hcompleted, -⟩ := completeOperation_ok resultDigest hcomplete
    have hcounted := Quiet.mono (Set.empty_subset {i.operationId}) _ _ (countAttempt_quiet _ _ _ _ _ hcount)
    have hq : Quiet {i.operationId} db₂ db' :=
      trans_of (Quiet {i.operationId}) hcounted
        (trans_of (Quiet {i.operationId}) (Beside.quiet _ _ (registerAttempt_beside _ _ _ _ _ hregister))
          (completeOperation_quiet resultDigest _ _ _ _ _ _ _ _ hcomplete))
    have happended := Appended.intro hw (lookup_same ht) (.inl ht) rfl rfl hinsert hset hq
      ⟨o', ho', hcompleted, fun hnone => by rw [ht] at hnone; cases hnone⟩
    exact .appended happended rfl

end digests

end HpAgent.Records
