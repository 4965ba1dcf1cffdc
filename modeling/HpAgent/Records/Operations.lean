import HpAgent.Domain.Authority
import HpAgent.Library.Table
import HpAgent.Library.Transaction
import Mathlib.Data.Finmap

/-! # Operations, attempts and receipts

The rows of one unit of work of an Execution and the calls that move it: `beginOperation`, `failOperation`,
`recordOperationIntent`, `markOperationUncertain`, `completeOperation` and the late `receive` of a result
whose attempt lost its lease.

`updateOperation` is the one statement that changes an operation; with the trigger on the table it refuses to
touch a completed one (`updateOperation_ok`).  `Moves` is what any sequence of these calls can do to the
operations: it is a preorder, and every call here `Keeps` it together with the transcripts (`Quiet`).

The digest of a payload is a parameter; nothing depends on what it is. -/

namespace HpAgent.Records

open Library

/-! ### Rows -/

/-- The value of a member of a JSON object: a string, or another value by its text. -/
inductive Value where
  | string (s : String)
  | other (json : String)
deriving DecidableEq, Repr

/-- A JSON object. -/
abbrev Payload := Finmap fun _ : String => Value

/-- The object with these members. -/
def Payload.ofList (members : List (String × Value)) : Payload :=
  (members.map fun m => (⟨m.1, m.2⟩ : Sigma fun _ : String => Value)).toFinmap

/-- A number. -/
def Value.ofNat (n : ℕ) : Value := .other (toString n)

/-- `execution_operations.status`. -/
inductive OperationStatus where
  | started | intentRecorded | completed | failed | uncertain
deriving DecidableEq, Repr

/-- The columns of an operation that never change. -/
structure Provenance where
  accountId : Uuid
  runId : Uuid
  executionId : Uuid
  operationType : String
  requirementRevision : Option ℕ
deriving DecidableEq, Repr

structure Operation where
  provenance : Provenance
  status : OperationStatus
  resultRef : Option String
  resultPayload : Option Payload
  errorCode : Option String
  attemptCount : ℕ
deriving DecidableEq

variable {S : Set String} {f : Operation → Operation}

/-- `execution_operation_attempts`; the key is the operation and the fencing token. -/
structure OperationAttempt where
  accountId : Uuid
  runId : Uuid
  executionId : Uuid
  attemptNo : ℕ
  receiptRef : String
deriving DecidableEq, Repr

inductive Disposition where
  | current | stale | cancelled
deriving DecidableEq, Repr

/-- `execution_result_receipts`; the key is the operation and the attempt. -/
structure Receipt (δ : Type) where
  requirementRevision : Option ℕ
  resultRef : String
  digest : δ
  disposition : Disposition
deriving DecidableEq, Repr

/-- `agent_transcripts`. -/
structure Transcript where
  accountId : Uuid
  runId : Uuid
  executionId : Uuid
  conversationId : Option Uuid
  sessionId : Option Uuid
  version : ℕ
deriving DecidableEq, Repr

/-- `agent_transcript_events`; the key is the transcript and the sequence. -/
structure TranscriptEvent where
  eventType : String
  operationId : String
  payload : Payload
deriving DecidableEq

/-- The store of the calls; `base` holds the rows they only read, and `sessions` the session of a Run. -/
structure RecordStore (δ : Type) where
  base : Authority
  sessions : Uuid → Option Uuid
  operations : Table String Operation
  attempts : Table (String × ℕ) OperationAttempt
  receipts : Table (String × ℕ) (Receipt δ)
  transcripts : Table String Transcript
  events : Table (String × ℕ) TranscriptEvent

abbrev RecordTx (δ : Type) := Tx Error (RecordStore δ)

/-- The successive readings of `clock_timestamp()` in one call. -/
abbrev Readings := ℕ → Instant

variable {δ : Type} {db db' : RecordStore δ}

/-! ### Checks -/

/-- `assert_execution_fence`. -/
def assertFence (now : Instant) (fence : Option Fence) : RecordTx δ Unit := do
  let passed ← Tx.query fun db => db.base.assertExecutionFence now fence
  Tx.ofExcept passed

/-- `require_owned_record` on `execution_operations`. -/
def requireOwnedOperation (fence : Option Fence) (operation : String) : RecordTx δ Unit := do
  let row ← Tx.query fun db => db.operations.lookup operation
  Tx.check (∀ f ∈ fence, (row.any fun o => o.provenance.accountId = f.accountId ∧ o.provenance.runId = f.runId ∧
    o.provenance.executionId = f.executionId) = true) (.staleFencingToken "record is outside the Execution context")

/-! ### Statements -/

/-- `execution_operations.operation_type` is one of these. -/
def operationTypes : List String :=
  ["context", "model", "tool", "planning", "synthesis", "result", "research_stage", "deterministic",
    "artifact_build", "notification"]

/-- `runs.requirement_revision`. -/
def requirementRevisionOf (r : Run) : Option ℕ :=
  match r.source with
  | .chat _ => none
  | .work _ revision _ => some revision

/-- `INSERT INTO execution_operations` with the owner trigger: the Run gives the account, and its root
Execution stands in for a missing one. -/
def insertOperation (operation : String) (run : Uuid) (operationType : String) (execution : Option Uuid) :
    RecordTx δ Unit := do
  let found ← Tx.query fun db => db.base.runs run
  let r ← Tx.demand found .integrityError
  let named ← Tx.query fun db => db.base.executionOf r.accountId run execution
  let x ← Tx.demand named .integrityError
  Tx.check (operationType ∈ operationTypes) .integrityError
  Tx.update fun db =>
    { db with
      operations := db.operations.insert operation
        ⟨⟨r.accountId, run, x.1, operationType, requirementRevisionOf r⟩, .started, none, none, none, 1⟩ }

/-- The unique index on `result_ref`. -/
def refFree (db : RecordStore δ) (operation : String) (ref : Option String) : Bool :=
  db.operations.entries.all fun e => e.1 = operation ∨ ref = none ∨ e.2.resultRef ≠ ref

/-- `UPDATE execution_operations … WHERE operation_id=` with its trigger. -/
def updateOperation (operation : String) (f : Operation → Operation) : RecordTx δ Unit := do
  let found ← Tx.query fun db => db.operations.lookup operation
  match found with
  | none => pure ()
  | some o => do
    Tx.check (o.status ≠ .completed ∧ (f o).provenance = o.provenance)
      (.raiseException "immutable operation provenance/result")
    let free ← Tx.query fun db => refFree db operation (f o).resultRef
    Tx.check (free = true) .integrityError
    Tx.update fun db => { db with operations := db.operations.insert operation (f o) }

/-- `INSERT INTO execution_operation_attempts … ON CONFLICT(operation_id,fencing_token) DO NOTHING`. -/
def insertAttempt (operation : String) (token : ℕ) (a : OperationAttempt) (owner : Provenance) :
    RecordTx δ Unit := do
  let found ← Tx.query fun db => db.attempts.lookup (operation, token)
  match found with
  | some _ => pure ()
  | none => do
    let taken ← Tx.query fun db => db.attempts.entries.any fun e => e.1.1 = operation ∧ e.2.attemptNo = a.attemptNo
    Tx.check (taken = false ∧ 1 ≤ token ∧ owner.accountId = a.accountId ∧ owner.runId = a.runId ∧
      owner.executionId = a.executionId) .integrityError
    Tx.update fun db => { db with attempts := db.attempts.insert (operation, token) a }

/-- `ResultReceiptService.register_attempt`. -/
def registerAttempt (operation : String) : Option Fence → RecordTx δ Unit
  | none => pure ()
  | some f => do
    let found ← Tx.query fun db => db.operations.lookup operation
    let o ← Tx.demand found .typeError
    insertAttempt operation f.token
      ⟨f.accountId, f.runId, f.executionId, o.attemptCount, s!"operation:{operation}"⟩ o.provenance

/-- The trigger `validate_execution_receipt`. -/
def receiptAllowed (a : Authority) (now : Instant) (o : Operation) (token : ℕ) (attempt : OperationAttempt)
    (r : Receipt δ) : Except Error Unit :=
  if r.resultRef = attempt.receiptRef ∧ r.requirementRevision = o.provenance.requirementRevision then
    if r.disposition = .current then
      match a.runs o.provenance.runId with
      | none => .error (.raiseException "current receipt requires a live Execution fence")
      | some run =>
        if run.status.executable ∧ a.accountActive o.provenance.accountId ∧
            (a.leases o.provenance.executionId).any
              (fun l => l.fencingToken = token ∧ now < l.leaseExpiresAt) then
          match run.source with
          | .chat _ => .ok ()
          | .work work revision epoch =>
            if (a.works work).any (Authority.ownsProgression o.provenance.runId revision epoch) then .ok ()
            else .error (.raiseException "receipt cannot satisfy a different requirement/control epoch")
        else .error (.raiseException "current receipt requires a live Execution fence")
    else .ok ()
  else .error (.raiseException "receipt does not match registered operation attempt")

/-- `INSERT INTO execution_result_receipts` with its trigger. -/
def insertReceipt (now : Instant) (operation : String) (o : Operation) (token : ℕ) (attempt : OperationAttempt)
    (r : Receipt δ) : RecordTx δ Unit := do
  let allowed ← Tx.query fun db => receiptAllowed db.base now o token attempt r
  Tx.ofExcept allowed
  let taken ← Tx.query fun db => (db.receipts.lookup (operation, attempt.attemptNo)).isSome
  Tx.check (taken = false) .integrityError
  Tx.update fun db => { db with receipts := db.receipts.insert (operation, attempt.attemptNo) r }

/-! ### The calls -/

/-- The operation is neither finished nor free to run again. -/
def OperationStatus.unresolved : OperationStatus → Bool
  | .intentRecorded | .uncertain => true
  | _ => false

/-- The row `begin_operation` leaves behind when it enters an existing operation. -/
def Operation.reentered (registered : Bool) (o : Operation) : Operation :=
  let counted := { o with attemptCount := o.attemptCount + if registered then 0 else 1 }
  if o.status.unresolved then counted
  else { counted with status := .started, errorCode := none, resultPayload := none }

/-- `begin_operation`. -/
def beginOperation (clock : Readings) (fence : Option Fence) (operation : String) (run : Uuid)
    (operationType : String) (allowUnresolved : Bool) : RecordTx δ (OperationStatus × Option Payload) := do
  assertFence (clock 0) fence
  Tx.check (∀ f ∈ fence, f.runId = run) (.staleFencingToken "operation is outside the Execution context")
  let found ← Tx.query fun db => db.operations.lookup operation
  match found with
  | none => do
    insertOperation operation run operationType (fence.map Fence.executionId)
    registerAttempt operation fence
    pure (.started, none)
  | some o => do
    requireOwnedOperation fence operation
    Tx.check (o.provenance.runId = run ∧ o.provenance.operationType = operationType)
      (.valueError "operation_id identity mismatch")
    if o.status = .completed then pure (o.status, o.resultPayload)
    else do
      Tx.check (o.status.unresolved = true → allowUnresolved = true)
        (.operationUncertain "reconcile the original tool intent before executing again")
      let registered ← Tx.query fun db => fence.any fun f => (db.attempts.lookup (operation, f.token)).isSome
      updateOperation operation (Operation.reentered registered)
      registerAttempt operation fence
      pure (if o.status.unresolved then (o.status, o.resultPayload) else (.started, none))

/-- `fail_operation`. -/
def failOperation (now : Instant) (fence : Option Fence) (operation : String) (errorCode : String) :
    RecordTx δ Unit := do
  assertFence now fence
  requireOwnedOperation fence operation
  let found ← Tx.query fun db => db.operations.lookup operation
  if found.any (fun o => o.status ≠ .completed) then
    updateOperation operation fun o => { o with status := .failed, errorCode := some errorCode }
  else pure ()

/-- `record_operation_intent`. -/
def recordOperationIntent (now : Instant) (fence : Option Fence) (operation : String) (intent : Payload) :
    RecordTx δ Unit := do
  assertFence now fence
  requireOwnedOperation fence operation
  let found ← Tx.query fun db => db.operations.lookup operation
  Tx.check (found.any (fun o => o.status = .started) = true) (.valueError "tool intent operation is not active")
  updateOperation operation fun o => { o with status := .intentRecorded, resultPayload := some intent }

/-- `mark_operation_uncertain`. -/
def markOperationUncertain (now : Instant) (fence : Option Fence) (operation : String) (errorCode : String) :
    RecordTx δ Unit := do
  assertFence now fence
  requireOwnedOperation fence operation
  let found ← Tx.query fun db => db.operations.lookup operation
  if found.any (fun o => o.status.unresolved) then
    updateOperation operation fun o => { o with status := .uncertain, errorCode := some errorCode }
  else pure ()

/-- The row of a completed operation. -/
def Operation.complete (ref : String) (payload : Payload) (o : Operation) : Operation :=
  { o with status := .completed, resultRef := some ref, resultPayload := some payload, errorCode := none }

section digests

variable [DecidableEq δ] (resultDigest : Payload → δ)

/-- The receipt of the fenced attempt, inserted when there is none. -/
def receiptOf (now : Instant) (operation : String) (o : Operation) (payload : Payload) :
    Option Fence → RecordTx δ Unit
  | none => pure ()
  | some f => do
    let registered ← Tx.query fun db => db.attempts.lookup (operation, f.token)
    let attempt ← Tx.demand registered (.valueError "result attempt was not registered")
    let found ← Tx.query fun db => db.receipts.lookup (operation, attempt.attemptNo)
    match found with
    | some receipt => do
      Tx.check (receipt.digest = resultDigest payload) (.valueError "receipt payload conflict")
      Tx.check (receipt.disposition = .current)
        (.staleFencingToken "a late receipt cannot become current execution evidence")
    | none =>
      insertReceipt now operation o f.token attempt
        ⟨o.provenance.requirementRevision, attempt.receiptRef, resultDigest payload, .current⟩

/-- `complete_operation`. -/
def completeOperation (clock : Readings) (fence : Option Fence) (operation ref : String) (payload : Payload) :
    RecordTx δ Unit := do
  assertFence (clock 0) fence
  requireOwnedOperation fence operation
  let found ← Tx.query fun db => db.operations.lookup operation
  let prior ← Tx.demand found (.valueError "operation not found")
  if prior.status = .completed then
    Tx.check (prior.resultRef = some ref ∧ prior.resultPayload = some payload)
      (.valueError "completed operation result conflict")
  else do
    receiptOf resultDigest (clock 1) operation prior payload fence
    updateOperation operation (Operation.complete ref payload)

/-- Whether a received result still counts. -/
def disposition (a : Authority) (now : Instant) (account run execution : Uuid) (token : ℕ) (r : Run)
    (x : HpAgent.Execution) : Disposition :=
  let owner : Disposition := if a.accountActive account then .current else .stale
  let work : Disposition :=
    match r.source with
    | .chat _ => owner
    | .work work revision epoch =>
      match a.works work with
      | none => owner
      | some w =>
        if w.currentRequirementRevision ≠ revision then .stale
        else if w.status ≠ .active then .cancelled
        else if w.controlEpoch ≠ epoch then .stale
        else if w.activeCoordinatorRunId ≠ some run then .stale
        else owner
  let stopped : Disposition :=
    if work = .current ∧ (r.status = .cancelling ∨ r.status = .cancelled) then .cancelled else work
  let fenced : Disposition :=
    if stopped = .current ∧ (x.status = .cancelling ∨ x.status = .cancelled) then .cancelled else stopped
  let held := (a.leases execution).any fun l => l.fencingToken = token ∧ now < l.leaseExpiresAt
  if fenced = .current ∧ (held = false ∨ r.status.executable = false ∨ x.status.executable = false) then .stale
  else fenced

/-- A late result may still complete its operation: the Run or the Execution is over and no later attempt has
taken the operation. -/
def retained (d : Disposition) (r : Run) (x : HpAgent.Execution) (attempt : OperationAttempt) (o : Operation) : Bool :=
  d ≠ .current &&
    ((r.status = .cancelling || r.status = .cancelled || r.status = .failed || r.status = .succeeded) ||
      (x.status = .cancelling || x.status = .cancelled || x.status = .failed)) &&
    attempt.attemptNo = o.attemptCount && o.status ≠ .completed

/-- `ResultReceiptService.receive`. -/
def receive (clock : Readings) (account run execution : Uuid) (operation : String) (token : ℕ)
    (payload : Payload) : RecordTx δ Disposition := do
  let locked ← Tx.query fun db => db.base.lock account run
  let r ← Tx.ofExcept locked
  let owned ← Tx.query fun db => db.base.lockExecution account run (some execution)
  let (_, x) ← Tx.ofExcept owned
  let registered ← Tx.query fun db => (db.attempts.lookup (operation, token)).filter fun a =>
    a.accountId = account ∧ a.runId = run ∧ a.executionId = execution
  let attempt ← Tx.demand registered (.valueError "receipt has no registered producing attempt")
  let found ← Tx.query fun db => db.operations.lookup operation
  let o ← Tx.demand found (.valueError "receipt has no registered producing attempt")
  let d ← Tx.query fun db => disposition db.base (clock 0) account run execution token r x
  let prior ← Tx.query fun db => db.receipts.lookup (operation, attempt.attemptNo)
  match prior with
  | some receipt => do
    Tx.check (receipt.digest = resultDigest payload) (.valueError "receipt payload conflict")
    pure receipt.disposition
  | none => do
    insertReceipt (clock 1) operation o token attempt
      ⟨o.provenance.requirementRevision, attempt.receiptRef, resultDigest payload, d⟩
    if retained d r x attempt o then updateOperation operation (Operation.complete attempt.receiptRef payload)
    else pure ()
    pure d

end digests

/-! ### What the calls can do to the operations -/

/-- No operation is lost, changes its provenance or changes once completed. -/
def Moves (db db' : RecordStore δ) : Prop :=
  ∀ operation o, db.operations.lookup operation = some o →
    ∃ o', db'.operations.lookup operation = some o' ∧ o'.provenance = o.provenance ∧ (o.status = .completed → o' = o)

instance : IsPreorder (RecordStore δ) Moves where
  refl _ operation o h := ⟨o, h, rfl, fun _ => rfl⟩
  trans _ _ _ h h' operation o ho := by
    obtain ⟨o₁, h₁, hp₁, hc₁⟩ := h operation o ho
    obtain ⟨o₂, h₂, hp₂, hc₂⟩ := h' operation o₁ h₁
    refine ⟨o₂, h₂, hp₂.trans hp₁, ?_⟩
    intro hcompleted
    have hsame := hc₁ hcompleted
    rw [hsame] at hc₂
    exact hc₂ hcompleted

/-- The operation is completed. -/
def Completed (db : RecordStore δ) (operation : String) : Prop :=
  ∃ o, db.operations.lookup operation = some o ∧ o.status = .completed

theorem Completed.moves {operation : String} (h : Completed db operation)
    (hm : Moves db db') : Completed db' operation := by
  obtain ⟨o, ho, hcompleted⟩ := h
  obtain ⟨o', ho', -, hsame⟩ := hm operation o ho
  rw [hsame hcompleted] at ho'
  exact ⟨o, ho', hcompleted⟩

/-- Operations move, only those in `S` are completed on the way, and no transcript changes. -/
structure Quiet (S : Set String) (db db' : RecordStore δ) : Prop where
  moves : Moves db db'
  completes : ∀ operation, Completed db' operation → Completed db operation ∨ operation ∈ S
  transcripts : db'.transcripts = db.transcripts
  events : db'.events = db.events

instance (S : Set String) : IsPreorder (RecordStore δ) (Quiet S) where
  refl db := ⟨refl_of Moves db, fun _ h => .inl h, rfl, rfl⟩
  trans _ _ _ h h' := by
    refine ⟨trans_of Moves h.moves h'.moves, ?_, h'.transcripts.trans h.transcripts, h'.events.trans h.events⟩
    intro operation hcompleted
    rcases h'.completes operation hcompleted with hbefore | hin
    · exact h.completes operation hbefore
    · exact .inr hin

theorem Quiet.mono {S' : Set String} (hS : S ⊆ S') (db db' : RecordStore δ) (h : Quiet S db db') : Quiet S' db db' := by
  refine ⟨h.moves, ?_, h.transcripts, h.events⟩
  intro operation hcompleted
  apply (h.completes operation hcompleted).imp_right
  intro hin
  exact hS hin

/-- The tables outside the operations do not matter to `Moves`. -/
theorem Moves.of_operations (h : db'.operations = db.operations) : Moves db db' := by
  intro operation o ho
  refine ⟨o, ?_, rfl, fun _ => rfl⟩
  rw [h]
  exact ho

/-- Neither an operation nor a transcript changes. -/
structure Beside (db db' : RecordStore δ) : Prop where
  operations : db'.operations = db.operations
  transcripts : db'.transcripts = db.transcripts
  events : db'.events = db.events

instance : IsPreorder (RecordStore δ) Beside where
  refl _ := ⟨rfl, rfl, rfl⟩
  trans _ _ _ h h' :=
    ⟨h'.operations.trans h.operations, h'.transcripts.trans h.transcripts, h'.events.trans h.events⟩

theorem Beside.quiet (db db' : RecordStore δ) (h : Beside db db') : Quiet S db db' := by
  refine ⟨Moves.of_operations h.operations, ?_, h.transcripts, h.events⟩
  rintro operation ⟨o, ho, hcompleted⟩
  rw [h.operations] at ho
  exact .inl ⟨o, ho, hcompleted⟩

/-- A row is written where there was none, or over one that is not completed. -/
theorem Moves.write {operation : String} {o' : Operation}
    (h : ∀ o, db.operations.lookup operation = some o → o.status ≠ .completed ∧ o'.provenance = o.provenance) :
    Moves db { db with operations := db.operations.insert operation o' } := by
  intro j o ho
  by_cases hj : j = operation
  · subst hj
    obtain ⟨hopen, hprovenance⟩ := h o ho
    refine ⟨o', AList.lookup_insert _, hprovenance, ?_⟩
    intro hcompleted
    exact absurd hcompleted hopen
  · refine ⟨o, ?_, rfl, fun _ => rfl⟩
    show (db.operations.insert operation o').lookup j = some o
    rw [AList.lookup_insert_ne hj]
    exact ho

theorem refFree_iff {operation : String} {ref : Option String} :
    refFree db operation ref = true ↔
      ∀ j o, db.operations.lookup j = some o → j = operation ∨ ref = none ∨ o.resultRef ≠ ref := by
  unfold refFree
  rw [List.all_eq_true]
  constructor
  · intro h j o ho
    have hmem : (⟨j, o⟩ : Sigma fun _ : String => Operation) ∈ db.operations.entries := AList.mem_lookup_iff.mp ho
    simpa using h _ hmem
  · rintro h ⟨j, o⟩ hmem
    have ho : db.operations.lookup j = some o := AList.mem_lookup_iff.mpr hmem
    simpa using h j o ho

/-- What an update did: nothing, or it wrote an open row under a free reference. -/
theorem updateOperation_ok {operation : String} {u : Unit}
    (h : (updateOperation operation f).run db = .ok (u, db')) :
    db.operations.lookup operation = none ∧ db' = db ∨
      ∃ o, db.operations.lookup operation = some o ∧ o.status ≠ .completed ∧ (f o).provenance = o.provenance ∧
        refFree db operation (f o).resultRef = true ∧
        db' = { db with operations := db.operations.insert operation (f o) } := by
  unfold updateOperation at h
  rw [Tx.bind_query_ok] at h
  split at h
  · next hnone =>
      obtain ⟨-, rfl⟩ := Tx.pure_ok.mp h
      exact .inl ⟨hnone, rfl⟩
  · next o ho =>
      rw [Tx.bind_check_ok, Tx.bind_query_ok, Tx.bind_check_ok, Tx.update_ok] at h
      obtain ⟨⟨hopen, hprovenance⟩, hfree, rfl⟩ := h
      exact .inr ⟨o, ho, hopen, hprovenance, hfree, rfl⟩

/-- At most one operation changes, and then it is completed. -/
structure Closes (operation : String) (db db' : RecordStore δ) : Prop where
  others : ∀ j, j ≠ operation → db'.operations.lookup j = db.operations.lookup j
  own : db'.operations.lookup operation = db.operations.lookup operation ∨
    ∃ o o', db.operations.lookup operation = some o ∧ o.status ≠ .completed ∧
      db'.operations.lookup operation = some o' ∧ o'.provenance = o.provenance ∧ o'.status = .completed
  transcripts : db'.transcripts = db.transcripts
  events : db'.events = db.events

instance (operation : String) : IsPreorder (RecordStore δ) (Closes operation) where
  refl _ := ⟨fun _ _ => rfl, .inl rfl, rfl, rfl⟩
  trans _ _ _ h h' := by
    refine ⟨?_, ?_, h'.transcripts.trans h.transcripts, h'.events.trans h.events⟩
    · intro j hj
      rw [h'.others j hj, h.others j hj]
    · rcases h'.own with hsame | ⟨o₁, o₂, h₁, hopen, h₂, hprovenance, hcompleted⟩
      · rw [hsame]
        exact h.own
      · rcases h.own with hsame | ⟨o, o', ho, -, ho', -, hclosed⟩
        · rw [hsame] at h₁
          exact .inr ⟨o₁, o₂, h₁, hopen, h₂, hprovenance, hcompleted⟩
        · obtain rfl := Option.some.inj (ho'.symm.trans h₁)
          exact absurd hclosed hopen

theorem Beside.closes {operation : String} (db db' : RecordStore δ) (h : Beside db db') : Closes operation db db' := by
  refine ⟨?_, ?_, h.transcripts, h.events⟩
  · intro j _
    rw [h.operations]
  · left
    rw [h.operations]

theorem Closes.quiet {operation : String} (db db' : RecordStore δ) (h : Closes operation db db') :
    Quiet {operation} db db' := by
  refine ⟨?_, ?_, h.transcripts, h.events⟩
  · intro j o ho
    by_cases hj : j = operation
    · subst hj
      rcases h.own with hsame | ⟨o₁, o', h₁, hopen, ho', hprovenance, -⟩
      · exact ⟨o, by rw [hsame, ho], rfl, fun _ => rfl⟩
      · obtain rfl := Option.some.inj (ho.symm.trans h₁)
        exact ⟨o', ho', hprovenance, fun hcompleted => absurd hcompleted hopen⟩
    · exact ⟨o, by rw [h.others j hj, ho], rfl, fun _ => rfl⟩
  · rintro j ⟨o, ho, hcompleted⟩
    by_cases hj : j = operation
    · exact .inr hj
    · rw [h.others j hj] at ho
      exact .inl ⟨o, ho, hcompleted⟩

/-! ### Every call is quiet -/

theorem assertFence_ok {now : Instant} {fence : Option Fence} {u : Unit} (h : (assertFence now fence).run db = .ok (u, db')) :
    db = db' ∧ db.base.assertExecutionFence now fence = .ok () := by
  unfold assertFence at h
  rw [Tx.bind_query_ok] at h
  obtain ⟨hpassed, rfl⟩ := Tx.ofExcept_ok.mp h
  exact ⟨rfl, hpassed⟩

/-- The operation is the fence's. -/
theorem requireOwnedOperation_ok {fence : Option Fence} {operation : String} {u : Unit}
    (h : (requireOwnedOperation fence operation).run db = .ok (u, db')) :
    db = db' ∧ ∀ f ∈ fence, ∃ o, db.operations.lookup operation = some o ∧ o.provenance.accountId = f.accountId ∧
      o.provenance.runId = f.runId ∧ o.provenance.executionId = f.executionId := by
  unfold requireOwnedOperation at h
  rw [Tx.bind_query_ok] at h
  obtain ⟨howned, rfl⟩ := Tx.check_ok.mp h
  refine ⟨rfl, fun f hf => ?_⟩
  have hrow := howned f hf
  cases ho : db.operations.lookup operation with
  | none =>
      rw [ho] at hrow
      cases hrow
  | some o =>
      rw [ho, Option.any_some] at hrow
      exact ⟨o, rfl, of_decide_eq_true hrow⟩

theorem assertFence_beside (now : Instant) (fence : Option Fence) :
    Tx.Keeps Beside (assertFence now fence : RecordTx δ Unit) := by
  unfold assertFence
  refine Tx.Keeps.bind (Tx.Keeps.query _) ?_
  intro passed
  exact Tx.Keeps.ofExcept _

theorem requireOwnedOperation_beside (fence : Option Fence) (operation : String) :
    Tx.Keeps Beside (requireOwnedOperation fence operation : RecordTx δ Unit) := by
  unfold requireOwnedOperation
  refine Tx.Keeps.bind (Tx.Keeps.query _) ?_
  intro row
  exact Tx.Keeps.check _ _

/-- Writing one row completes at most its own operation. -/
theorem completed_insert {operation j : String} {o : Operation}
    (h : Completed { db with operations := db.operations.insert operation o } j) :
    Completed db j ∨ j = operation ∧ o.status = .completed := by
  obtain ⟨r, hr, hcompleted⟩ := h
  have hr : (db.operations.insert operation o).lookup j = some r := hr
  rw [Table.lookup_insert_ite] at hr
  split at hr
  · next hj =>
      obtain rfl := Option.some.inj hr
      exact .inr ⟨hj, hcompleted⟩
  · exact .inl ⟨r, hr, hcompleted⟩

/-- An update completes its operation only when its row says so. -/
theorem updateOperation_quiet {operation : String}
    (hf : ∀ o, o.status ≠ .completed → (f o).status = .completed → operation ∈ S) :
    Tx.Keeps (Quiet S) (updateOperation operation f : RecordTx δ Unit) := by
  intro db u db' h
  rcases updateOperation_ok h with ⟨-, rfl⟩ | ⟨o, ho, hopen, hprovenance, -, rfl⟩
  · exact refl_of (Quiet S) _
  · refine ⟨Moves.write ?_, ?_, rfl, rfl⟩
    · intro o' ho'
      obtain rfl := Option.some.inj (ho.symm.trans ho')
      exact ⟨hopen, hprovenance⟩
    · intro j hj
      apply (completed_insert hj).imp_right
      rintro ⟨rfl, hcompleted⟩
      exact hf o hopen hcompleted

/-- An update that completes its operation. -/
theorem updateOperation_closes {operation : String}
    (hf : ∀ o, (f o).status = .completed) : Tx.Keeps (Closes operation) (updateOperation operation f : RecordTx δ Unit) := by
  intro db u db' h
  rcases updateOperation_ok h with ⟨-, rfl⟩ | ⟨o, ho, hopen, hprovenance, -, rfl⟩
  · exact refl_of (Closes operation) _
  · refine ⟨?_, .inr ⟨o, f o, ho, hopen, AList.lookup_insert _, hprovenance, hf o⟩, rfl, rfl⟩
    intro j hj
    exact AList.lookup_insert_ne hj

theorem insertAttempt_beside (operation : String) (token : ℕ) (a : OperationAttempt) (owner : Provenance) :
    Tx.Keeps Beside (insertAttempt operation token a owner : RecordTx δ Unit) := by
  unfold insertAttempt
  refine Tx.Keeps.bind (Tx.Keeps.query _) ?_
  intro found
  cases found with
  | some _ => exact Tx.Keeps.pure ()
  | none =>
      refine Tx.Keeps.bind (Tx.Keeps.query _) ?_
      intro taken
      refine Tx.Keeps.bind (Tx.Keeps.check _ _) ?_
      intro _
      refine Tx.Keeps.update ?_
      intro db
      exact ⟨rfl, rfl, rfl⟩

theorem registerAttempt_beside (operation : String) (fence : Option Fence) :
    Tx.Keeps Beside (registerAttempt operation fence : RecordTx δ Unit) := by
  cases fence with
  | none => exact Tx.Keeps.pure ()
  | some f =>
      unfold registerAttempt
      refine Tx.Keeps.bind (Tx.Keeps.query _) ?_
      intro found
      refine Tx.Keeps.bind (Tx.Keeps.demand _ _) ?_
      intro o
      exact insertAttempt_beside _ _ _ _

theorem insertReceipt_beside (now : Instant) (operation : String) (o : Operation) (token : ℕ)
    (attempt : OperationAttempt) (r : Receipt δ) :
    Tx.Keeps Beside (insertReceipt now operation o token attempt r : RecordTx δ Unit) := by
  unfold insertReceipt
  refine Tx.Keeps.bind (Tx.Keeps.query _) ?_
  intro allowed
  refine Tx.Keeps.bind (Tx.Keeps.ofExcept _) ?_
  intro _
  refine Tx.Keeps.bind (Tx.Keeps.query _) ?_
  intro taken
  refine Tx.Keeps.bind (Tx.Keeps.check _ _) ?_
  intro _
  refine Tx.Keeps.update ?_
  intro db
  exact ⟨rfl, rfl, rfl⟩

/-- A new operation is inserted where there is none. -/
theorem insertOperation_quiet {operation operationType : String} {run : Uuid} {execution : Option Uuid}
    {u : Unit} (hnone : db.operations.lookup operation = none)
    (h : (insertOperation operation run operationType execution).run db = .ok (u, db')) : Quiet S db db' := by
  unfold insertOperation at h
  rw [Tx.bind_query_ok, Tx.bind_demand_ok] at h
  obtain ⟨r, -, h⟩ := h
  rw [Tx.bind_query_ok, Tx.bind_demand_ok] at h
  obtain ⟨x, -, h⟩ := h
  rw [Tx.bind_check_ok, Tx.update_ok] at h
  obtain ⟨-, rfl⟩ := h
  refine ⟨Moves.write ?_, ?_, rfl, rfl⟩
  · intro o ho
    rw [hnone] at ho
    cases ho
  · intro j hj
    apply (completed_insert hj).imp_right
    rintro ⟨-, hcompleted⟩
    cases hcompleted

theorem Operation.reentered_open (registered : Bool) {operation : String} (o : Operation)
    (h : o.status ≠ .completed) (h' : (o.reentered registered).status = .completed) : operation ∈ S := by
  unfold Operation.reentered at h'
  dsimp only at h'
  split at h'
  · exact absurd h' h
  · cases h'

theorem beginOperation_quiet (clock : Readings) (fence : Option Fence) (operation : String) (run : Uuid)
    (operationType : String) (allowUnresolved : Bool) :
    Tx.Keeps (Quiet ∅) (beginOperation clock fence operation run operationType allowUnresolved : RecordTx δ _) := by
  unfold beginOperation
  refine Tx.Keeps.bind ((assertFence_beside _ _).mono Beside.quiet) ?_
  intro _
  refine Tx.Keeps.bind (Tx.Keeps.check _ _) ?_
  intro _ db a db' h
  rw [Tx.bind_query_ok] at h
  split at h
  · next hnone =>
      rw [Tx.bind_ok] at h
      obtain ⟨_, db₁, hinsert, h⟩ := h
      have hfirst : Quiet ∅ db db₁ := insertOperation_quiet hnone hinsert
      refine trans_of (Quiet ∅) hfirst ((?_ : Tx.Keeps (Quiet ∅) _) _ _ _ h)
      refine Tx.Keeps.bind ((registerAttempt_beside _ _).mono Beside.quiet) ?_
      intro _
      exact Tx.Keeps.pure _
  · refine (?_ : Tx.Keeps (Quiet ∅) _) _ _ _ h
    refine Tx.Keeps.bind ((requireOwnedOperation_beside _ _).mono Beside.quiet) ?_
    intro _
    refine Tx.Keeps.bind (Tx.Keeps.check _ _) ?_
    intro _
    split
    · exact Tx.Keeps.pure _
    · refine Tx.Keeps.bind (Tx.Keeps.check _ _) ?_
      intro _
      refine Tx.Keeps.bind (Tx.Keeps.query _) ?_
      intro registered
      refine Tx.Keeps.bind (updateOperation_quiet (Operation.reentered_open registered)) ?_
      intro _
      refine Tx.Keeps.bind ((registerAttempt_beside _ _).mono Beside.quiet) ?_
      intro _
      exact Tx.Keeps.pure _

/-- The shape of the calls that change the status of a fenced operation. -/
theorem guarded_quiet (now : Instant) (fence : Option Fence) (operation : String)
    {rest : Option Operation → RecordTx δ Unit} (hrest : ∀ found, Tx.Keeps (Quiet S) (rest found)) :
    Tx.Keeps (Quiet S) (do
      assertFence now fence
      requireOwnedOperation fence operation
      let found ← Tx.query fun db => db.operations.lookup operation
      rest found : RecordTx δ Unit) := by
  refine Tx.Keeps.bind ((assertFence_beside _ _).mono Beside.quiet) ?_
  intro _
  refine Tx.Keeps.bind ((requireOwnedOperation_beside _ _).mono Beside.quiet) ?_
  intro _
  refine Tx.Keeps.bind (Tx.Keeps.query _) ?_
  exact hrest

theorem failOperation_quiet (now : Instant) (fence : Option Fence) (operation errorCode : String) :
    Tx.Keeps (Quiet ∅) (failOperation now fence operation errorCode : RecordTx δ Unit) := by
  unfold failOperation
  refine guarded_quiet _ _ _ ?_
  intro found
  split
  · exact updateOperation_quiet fun _ _ h => by cases h
  · exact Tx.Keeps.pure ()

theorem recordOperationIntent_quiet (now : Instant) (fence : Option Fence) (operation : String) (intent : Payload) :
    Tx.Keeps (Quiet ∅) (recordOperationIntent now fence operation intent : RecordTx δ Unit) := by
  unfold recordOperationIntent
  refine guarded_quiet _ _ _ ?_
  intro found
  refine Tx.Keeps.bind (Tx.Keeps.check _ _) ?_
  intro _
  exact updateOperation_quiet fun _ _ h => by cases h

theorem markOperationUncertain_quiet (now : Instant) (fence : Option Fence) (operation errorCode : String) :
    Tx.Keeps (Quiet ∅) (markOperationUncertain now fence operation errorCode : RecordTx δ Unit) := by
  unfold markOperationUncertain
  refine guarded_quiet _ _ _ ?_
  intro found
  split
  · exact updateOperation_quiet fun _ _ h => by cases h
  · exact Tx.Keeps.pure ()

section digests

variable [DecidableEq δ] (resultDigest : Payload → δ)

theorem receiptOf_beside (now : Instant) (operation : String) (o : Operation) (payload : Payload)
    (fence : Option Fence) : Tx.Keeps Beside (receiptOf resultDigest now operation o payload fence) := by
  cases fence with
  | none => exact Tx.Keeps.pure ()
  | some f =>
      unfold receiptOf
      refine Tx.Keeps.bind (Tx.Keeps.query _) ?_
      intro registered
      refine Tx.Keeps.bind (Tx.Keeps.demand _ _) ?_
      intro attempt
      refine Tx.Keeps.bind (Tx.Keeps.query _) ?_
      intro found
      cases found with
      | some receipt =>
          refine Tx.Keeps.bind (Tx.Keeps.check _ _) ?_
          intro _
          exact Tx.Keeps.check _ _
      | none => exact insertReceipt_beside _ _ _ _ _ _

theorem completeOperation_closes (clock : Readings) (fence : Option Fence) (operation ref : String)
    (payload : Payload) :
    Tx.Keeps (Closes operation) (completeOperation resultDigest clock fence operation ref payload) := by
  unfold completeOperation
  refine Tx.Keeps.bind ((assertFence_beside _ _).mono Beside.closes) ?_
  intro _
  refine Tx.Keeps.bind ((requireOwnedOperation_beside _ _).mono Beside.closes) ?_
  intro _
  refine Tx.Keeps.bind (Tx.Keeps.query _) ?_
  intro found
  refine Tx.Keeps.bind (Tx.Keeps.demand _ _) ?_
  intro prior
  split
  · exact Tx.Keeps.check _ _
  · refine Tx.Keeps.bind ((receiptOf_beside resultDigest _ _ _ _ _).mono Beside.closes) ?_
    intro _
    exact updateOperation_closes fun _ => rfl

theorem receive_closes (clock : Readings) (account run execution : Uuid) (operation : String) (token : ℕ)
    (payload : Payload) :
    Tx.Keeps (Closes operation) (receive resultDigest clock account run execution operation token payload) := by
  unfold receive
  refine Tx.Keeps.bind (Tx.Keeps.query _) ?_
  intro locked
  refine Tx.Keeps.bind (Tx.Keeps.ofExcept _) ?_
  intro r
  refine Tx.Keeps.bind (Tx.Keeps.query _) ?_
  intro owned
  refine Tx.Keeps.bind (Tx.Keeps.ofExcept _) ?_
  intro x
  refine Tx.Keeps.bind (Tx.Keeps.query _) ?_
  intro registered
  refine Tx.Keeps.bind (Tx.Keeps.demand _ _) ?_
  intro attempt
  refine Tx.Keeps.bind (Tx.Keeps.query _) ?_
  intro found
  refine Tx.Keeps.bind (Tx.Keeps.demand _ _) ?_
  intro o
  refine Tx.Keeps.bind (Tx.Keeps.query _) ?_
  intro d
  refine Tx.Keeps.bind (Tx.Keeps.query _) ?_
  intro prior
  cases prior with
  | some receipt =>
      refine Tx.Keeps.bind (Tx.Keeps.check _ _) ?_
      intro _
      exact Tx.Keeps.pure _
  | none =>
      refine Tx.Keeps.bind ((insertReceipt_beside _ _ _ _ _ _).mono Beside.closes) ?_
      intro _
      split
      · refine Tx.Keeps.bind (updateOperation_closes fun _ => rfl) ?_
        intro _
        exact Tx.Keeps.pure _
      · exact Tx.Keeps.bind (Tx.Keeps.pure ()) fun _ => Tx.Keeps.pure _

theorem completeOperation_quiet (clock : Readings) (fence : Option Fence) (operation ref : String)
    (payload : Payload) :
    Tx.Keeps (Quiet {operation}) (completeOperation resultDigest clock fence operation ref payload) :=
  (completeOperation_closes resultDigest clock fence operation ref payload).mono Closes.quiet

theorem receive_quiet (clock : Readings) (account run execution : Uuid) (operation : String) (token : ℕ)
    (payload : Payload) :
    Tx.Keeps (Quiet {operation}) (receive resultDigest clock account run execution operation token payload) :=
  (receive_closes resultDigest clock account run execution operation token payload).mono Closes.quiet

/-- After `complete_operation` the operation is completed, and no other operation has its reference. -/
theorem completeOperation_ok {clock : Readings} {fence : Option Fence} {operation ref : String} {payload : Payload}
    {u : Unit}
    (h : (completeOperation resultDigest clock fence operation ref payload).run db = .ok (u, db')) :
    ∃ o', db'.operations.lookup operation = some o' ∧ o'.status = .completed ∧ o'.resultRef = some ref ∧
      (db.operations.lookup operation = some o' ∨
        ∀ j o, db.operations.lookup j = some o → j = operation ∨ o.resultRef ≠ some ref) := by
  unfold completeOperation at h
  rw [Tx.bind_ok] at h
  obtain ⟨_, db₁, hfence, h⟩ := h
  rw [Tx.bind_ok] at h
  obtain ⟨_, db₂, howned, h⟩ := h
  have hsame : db₂.operations = db.operations := by
    rw [(requireOwnedOperation_beside _ _ _ _ _ howned).operations, (assertFence_beside _ _ _ _ _ hfence).operations]
  rw [Tx.bind_query_ok, Tx.bind_demand_ok] at h
  obtain ⟨prior, hprior, h⟩ := h
  rw [hsame] at hprior
  split at h
  · next hcompleted =>
      obtain ⟨⟨href, -⟩, rfl⟩ := Tx.check_ok.mp h
      refine ⟨prior, ?_, hcompleted, href, .inl hprior⟩
      rw [hsame]
      exact hprior
  · rw [Tx.bind_ok] at h
    obtain ⟨_, db₃, hreceipt, h⟩ := h
    have hops : db₃.operations = db.operations := by
      rw [(receiptOf_beside resultDigest _ _ _ _ _ _ _ _ hreceipt).operations, hsame]
    rcases updateOperation_ok h with ⟨hnone, -⟩ | ⟨o, ho, -, -, hfree, rfl⟩
    · rw [hops, hprior] at hnone
      cases hnone
    · refine ⟨Operation.complete ref payload o, AList.lookup_insert _, rfl, rfl, .inr ?_⟩
      intro j r hr
      rw [← hops] at hr
      have hother := refFree_iff.mp hfree j r hr
      simpa [Operation.complete] using hother

end digests

end HpAgent.Records
