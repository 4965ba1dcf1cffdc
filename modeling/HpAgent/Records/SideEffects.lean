import HpAgent.Records.Transcripts

/-! # Side effects of a tool operation

`tool_execution` runs one operation in attempts that follow one another; each may crash anywhere.  An attempt
enters the operation (`beginOperation`), records its intent or, when an earlier attempt left one, recovers it,
dispatches the tool, and records the result.  What is outside the code (the tool, the reconciler, the side
effect class of a tool, every failure) is left open in `Step`.

`nonIdempotentMayHaveExecuted`, the flag the exception handlers look at, decides between marking the operation
uncertain and failing it.  `Guarded` is the invariant that ties the flag, the stored intent and the log of
dispatches together (`Step.guarded`).  `side_effects_guarded` is what follows for every run: a completed
operation never changes, a non-idempotent tool is dispatched again only after a reconciler confirmed that the
last dispatch did not execute, and once dispatched it is never failed. -/

namespace HpAgent.Records

open Library

variable {δ : Type} {db db' : RecordStore δ} {clock : Readings} {now : Instant} {row' : Option Operation}

/-! ### Side effect classes and intents -/

inductive SideEffectClass where
  | readOnly | idempotentWrite | nonIdempotentWrite | unknown
deriving DecidableEq, Repr

def SideEffectClass.value : SideEffectClass → String
  | .readOnly => "read_only"
  | .idempotentWrite => "idempotent_write"
  | .nonIdempotentWrite => "non_idempotent_write"
  | .unknown => "unknown"

/-- `normalize_side_effect_class`. -/
def normalizeSideEffectClass (value : String) : SideEffectClass :=
  if value = "none" ∨ value = "read_only" then .readOnly
  else if value = "workspace_write" ∨ value = "idempotent_write" then .idempotentWrite
  else if value = "external_write" ∨ value = "non_idempotent_write" then .nonIdempotentWrite
  else .unknown

theorem normalize_value (c : SideEffectClass) : normalizeSideEffectClass c.value = c := by
  cases c <;> decide

/-- `str()` of a value. -/
def Value.str : Value → String
  | .string s => s
  | .other json => json

/-- The side effect class of a stored intent. -/
def intentClass (intent : Payload) : SideEffectClass :=
  normalizeSideEffectClass (((intent.lookup "side_effect_class").map Value.str).getD "unknown")

/-- `persisted_side_effect_class`. -/
def persistedClass (payload : Option Payload) : SideEffectClass := intentClass (payload.getD ∅)

/-- The request of the activity; the lease token comes with the attempt. -/
structure ToolRequest where
  runId : Uuid
  operationId : String
  toolCallId : String
  tool : String
  transcriptId : String
  transcriptVersion : ℕ
deriving DecidableEq, Repr

/-- The intent an attempt records. -/
def ToolRequest.intent (r : ToolRequest) (argumentsHash : String) (c : SideEffectClass) (token : ℕ) : Payload :=
  Payload.ofList
    [("schema_version", .ofNat 1), ("tool_call_id", .string r.toolCallId), ("tool", .string r.tool),
      ("arguments_hash", .string argumentsHash), ("side_effect_class", .string c.value),
      ("fencing_token", .ofNat token), ("idempotency_key", .string r.operationId)]

theorem persistedClass_intent (r : ToolRequest) (argumentsHash : String) (c : SideEffectClass) (token : ℕ) :
    persistedClass (some (r.intent argumentsHash c token)) = c := by
  have hlookup : (r.intent argumentsHash c token).lookup "side_effect_class" = some (.string c.value) := by
    unfold ToolRequest.intent Payload.ofList
    rw [Finmap.dlookup_list_toFinmap]
    simp [List.dlookup_cons_ne]
  simp [persistedClass, intentClass, hlookup, Value.str, normalize_value]

/-- The intent in use: the stored one, unless it is empty. -/
def ToolRequest.intentInUse (r : ToolRequest) (payload : Option Payload) (argumentsHash : String)
    (c : SideEffectClass) (token : ℕ) : Payload :=
  if payload.getD ∅ = ∅ then r.intent argumentsHash c token else payload.getD ∅

/-- The recovered intent is for these arguments, this tool and this class. -/
def ToolRequest.recovers (r : ToolRequest) (intent : Payload) (argumentsHash : String) (c : SideEffectClass) : Bool :=
  intent.lookup "arguments_hash" = some (.string argumentsHash) && intent.lookup "tool" = some (.string r.tool) &&
    intentClass intent = c

/-! ### Attempts -/

/-- `ReconcileOutcome`. -/
inductive ReconcileOutcome where
  | confirmedCompleted | confirmedNotExecuted | uncertain | unsupported
deriving DecidableEq, Repr

/-- Where an attempt stands, with the flag of its handlers and the class of its tool once it is known. -/
inductive Phase where
  /-- The operation was entered with this status and payload. -/
  | entered (status : OperationStatus) (payload : Option Payload)
  /-- The intent is recorded or recovered. -/
  | ready (c : SideEffectClass) (flag : Bool)
  /-- The tool has been called. -/
  | sent (c : SideEffectClass) (flag : Bool)
  /-- There is a result to record. -/
  | resulted (flag : Bool)
  /-- `_raise_uncertain_side_effect`. -/
  | doubted (flag : Bool)
  /-- An exception handler. -/
  | handling (flag : Bool)

/-- `non_idempotent_may_have_executed`. -/
def Phase.nonIdempotentMayHaveExecuted : Phase → Bool
  | .entered status payload => status.unresolved && persistedClass payload = .nonIdempotentWrite
  | .ready _ flag | .sent _ flag | .resulted flag | .doubted flag | .handling flag => flag

/-- What happened to the tool. -/
inductive Event where
  | dispatched (c : SideEffectClass)
  | reconciled (outcome : ReconcileOutcome)
deriving DecidableEq, Repr

/-- The store, the attempt under way with its fence, and what happened so far (latest first). -/
structure World (δ : Type) where
  db : RecordStore δ
  attempt : Option (Fence × Phase)
  log : List Event

/-- The row of the operation. -/
def World.row (w : World δ) (r : ToolRequest) : Option Operation := w.db.operations.lookup r.operationId

section digests

variable [DecidableEq δ] (resultDigest : Payload → δ) (r : ToolRequest)

/-- One step of the attempts on the operation of `r`, or of its surroundings. -/
inductive Step : World δ → World δ → Prop
  /-- `begin_tool_operation`; a completed operation is returned as it is. -/
  | begin {w : World δ} {fence : Fence} {clock : Readings} {status : OperationStatus} {payload : Option Payload}
      {db' : RecordStore δ} (hidle : w.attempt = none)
      (h : (beginOperation clock (some fence) r.operationId r.runId "tool" true).run w.db = .ok ((status, payload), db')) :
      Step w ⟨db', if status = .completed then none else some (fence, .entered status payload), w.log⟩
  /-- A fresh operation records its intent. -/
  | recordIntent {w : World δ} {fence : Fence} {status : OperationStatus} {payload : Option Payload}
      {c : SideEffectClass} {argumentsHash : String} {now : Instant} {db' : RecordStore δ}
      (hat : w.attempt = some (fence, .entered status payload)) (hfresh : status.unresolved = false)
      (hknown : c ≠ .unknown)
      (h : (recordOperationIntent now (some fence) r.operationId
        (r.intentInUse payload argumentsHash c fence.token)).run w.db = .ok ((), db')) :
      Step w ⟨db', some (fence, .ready c (Phase.entered status payload).nonIdempotentMayHaveExecuted), w.log⟩
  /-- An intent of a tool that may safely run again is recovered. -/
  | recover {w : World δ} {fence : Fence} {status : OperationStatus} {payload : Option Payload}
      {c : SideEffectClass} {argumentsHash : String}
      (hat : w.attempt = some (fence, .entered status payload)) (hunresolved : status.unresolved = true)
      (hknown : c ≠ .unknown)
      (hmatch : r.recovers (r.intentInUse payload argumentsHash c fence.token) argumentsHash c = true)
      (hsafe : c ≠ .nonIdempotentWrite) :
      Step w ⟨w.db, some (fence, .ready c (Phase.entered status payload).nonIdempotentMayHaveExecuted), w.log⟩
  /-- An intent of a non-idempotent tool is reconciled; `result` says whether the reconciler has the result. -/
  | reconcile {w : World δ} {fence : Fence} {status : OperationStatus} {payload : Option Payload}
      {argumentsHash : String} {outcome : ReconcileOutcome} {result : Bool} {p : Phase}
      (hat : w.attempt = some (fence, .entered status payload)) (hunresolved : status.unresolved = true)
      (hmatch : r.recovers (r.intentInUse payload argumentsHash .nonIdempotentWrite fence.token) argumentsHash
        .nonIdempotentWrite = true)
      (hp : p = match outcome with
        | .confirmedCompleted =>
          if result then .resulted (Phase.entered status payload).nonIdempotentMayHaveExecuted
          else .handling (Phase.entered status payload).nonIdempotentMayHaveExecuted
        | .confirmedNotExecuted => .ready .nonIdempotentWrite (Phase.entered status payload).nonIdempotentMayHaveExecuted
        | .uncertain | .unsupported => .doubted (Phase.entered status payload).nonIdempotentMayHaveExecuted) :
      Step w ⟨w.db, some (fence, p), .reconciled outcome :: w.log⟩
  /-- The tool is called. -/
  | dispatch {w : World δ} {fence : Fence} {c : SideEffectClass} {flag : Bool}
      (hat : w.attempt = some (fence, .ready c flag)) :
      Step w ⟨w.db, some (fence, .sent c (flag || c = .nonIdempotentWrite)), .dispatched c :: w.log⟩
  /-- The tool returns; a failed non-idempotent call is in doubt. -/
  | return {w : World δ} {fence : Fence} {c : SideEffectClass} {flag : Bool} (failed : Bool)
      (hat : w.attempt = some (fence, .sent c flag)) :
      Step w ⟨w.db, some (fence, if c = .nonIdempotentWrite ∧ failed = true then .doubted flag else .resulted flag), w.log⟩
  /-- The result is recorded with its event. -/
  | complete {w : World δ} {fence : Fence} {flag : Bool} {clock late : Readings} {i : AppendInput}
      (hat : w.attempt = some (fence, .resulted flag)) (hi : i.operationId = r.operationId) :
      Step w ⟨(completeOperationWithEvent resultDigest clock late (some fence) i w.db).2,
        match (completeOperationWithEvent resultDigest clock late (some fence) i w.db).1 with
        | .ok _ => none
        | .error _ => some (fence, .handling flag), w.log⟩
  /-- Any exception inside the attempt, a cancellation among them. -/
  | raise {w : World δ} {fence : Fence} {p : Phase} (hat : w.attempt = some (fence, p)) :
      Step w ⟨w.db, some (fence, .handling p.nonIdempotentMayHaveExecuted), w.log⟩
  /-- `_mark_uncertain_side_effect`, from the attempt or from a handler. -/
  | mark {w : World δ} {fence : Fence} {p : Phase} {now : Instant} {errorCode : String} {db' : RecordStore δ}
      (hat : w.attempt = some (fence, p)) (hp : (∃ flag, p = .doubted flag) ∨ p = .handling true)
      (h : (markOperationUncertain now (some fence) r.operationId errorCode).run w.db = .ok ((), db')) :
      Step w ⟨db', none, w.log⟩
  /-- A handler fails the operation. -/
  | fail {w : World δ} {fence : Fence} {now : Instant} {errorCode : String} {db' : RecordStore δ}
      (hat : w.attempt = some (fence, .handling false))
      (h : (failOperation now (some fence) r.operationId errorCode).run w.db = .ok ((), db')) :
      Step w ⟨db', none, w.log⟩
  /-- The attempt is gone. -/
  | crash {w : World δ} : Step w ⟨w.db, none, w.log⟩
  /-- A late receipt of the operation arrives. -/
  | receive {w : World δ} {clock : Readings} {account run execution : Uuid} {token : ℕ} {payload : Payload}
      {d : Disposition} {db' : RecordStore δ}
      (h : (receive resultDigest clock account run execution r.operationId token payload).run w.db = .ok (d, db')) :
      Step w ⟨db', w.attempt, w.log⟩
  /-- Everything but the row of the operation may change. -/
  | surroundings {w : World δ} {db' : RecordStore δ}
      (h : db'.operations.lookup r.operationId = w.db.operations.lookup r.operationId) : Step w ⟨db', w.attempt, w.log⟩

/-- The runs of the attempts from a store that has never seen the operation. -/
inductive Attempted : World δ → Prop
  | start {db : RecordStore δ} (h : db.operations.lookup r.operationId = none) : Attempted ⟨db, none, []⟩
  | step {w w' : World δ} (h : Attempted w) (hstep : Step resultDigest r w w') : Attempted w'

end digests

/-! ### What the calls do to the row -/

/-- How an attempt finds the operation it enters. -/
inductive Enters (db db' : RecordStore δ) (operation : String) (status : OperationStatus) (payload : Option Payload) :
    Prop
  | fresh (h : db.operations.lookup operation = none) (hstatus : status = .started) (hpayload : payload = none)
      (h' : ∃ o, db'.operations.lookup operation = some o ∧ o.status = .started)
  | completed {o : Operation} (h : db.operations.lookup operation = some o) (hcompleted : o.status = .completed)
      (hstatus : status = .completed) (h' : db'.operations.lookup operation = some o)
  | unresolved {o : Operation} (h : db.operations.lookup operation = some o)
      (hunresolved : o.status.unresolved = true) (hstatus : status = o.status) (hpayload : payload = o.resultPayload)
      (h' : ∃ n, db'.operations.lookup operation = some { o with attemptCount := n })
  | restarted {o : Operation} (h : db.operations.lookup operation = some o) (hopen : o.status ≠ .completed)
      (hresolved : o.status.unresolved = false) (hstatus : status = .started) (hpayload : payload = none)
      (h' : ∃ o, db'.operations.lookup operation = some o ∧ o.status = .started)

theorem beginOperation_ok {fence : Option Fence} {operation operationType : String} {run : Uuid}
    {allow : Bool} {status : OperationStatus} {payload : Option Payload}
    (h : (beginOperation clock fence operation run operationType allow).run db = .ok ((status, payload), db')) :
    Enters db db' operation status payload := by
  unfold beginOperation at h
  rw [Tx.bind_ok] at h
  obtain ⟨_, db₀, hfence, h⟩ := h
  have hops := (assertFence_beside _ _ _ _ _ hfence).operations
  rw [Tx.bind_check_ok, Tx.bind_query_ok] at h
  obtain ⟨-, h⟩ := h
  split at h
  · next hnone =>
      rw [Tx.bind_ok] at h
      obtain ⟨_, db₁, hinsert, h⟩ := h
      rw [Tx.bind_ok] at h
      obtain ⟨_, db₂, hregister, h⟩ := h
      obtain ⟨hpair, rfl⟩ := Tx.pure_ok.mp h
      obtain ⟨rfl, rfl⟩ := Prod.mk.inj hpair
      rw [hops] at hnone
      unfold insertOperation at hinsert
      rw [Tx.bind_query_ok, Tx.bind_demand_ok] at hinsert
      obtain ⟨_, -, hinsert⟩ := hinsert
      rw [Tx.bind_query_ok, Tx.bind_demand_ok] at hinsert
      obtain ⟨_, -, hinsert⟩ := hinsert
      rw [Tx.bind_check_ok, Tx.update_ok] at hinsert
      obtain ⟨-, rfl⟩ := hinsert
      have hrow := (registerAttempt_beside _ _ _ _ _ hregister).operations
      refine .fresh hnone rfl rfl ?_
      rw [hrow]
      exact ⟨_, AList.lookup_insert _, rfl⟩
  · next o ho =>
      rw [hops] at ho
      rw [Tx.bind_ok] at h
      obtain ⟨_, db₁, howned, h⟩ := h
      have hops₁ := (requireOwnedOperation_beside _ _ _ _ _ howned).operations.trans hops
      rw [Tx.bind_check_ok] at h
      obtain ⟨-, h⟩ := h
      split at h
      · next hcompleted =>
          obtain ⟨hpair, rfl⟩ := Tx.pure_ok.mp h
          obtain ⟨rfl, rfl⟩ := Prod.mk.inj hpair
          refine .completed ho hcompleted hcompleted ?_
          rw [hops₁]
          exact ho
      · next hopen =>
          rw [Tx.bind_check_ok, Tx.bind_query_ok, Tx.bind_ok] at h
          obtain ⟨-, _, db₂, hupdate, h⟩ := h
          rw [Tx.bind_ok] at h
          obtain ⟨_, db₃, hregister, h⟩ := h
          obtain ⟨hpair, rfl⟩ := Tx.pure_ok.mp h
          have hrow := (registerAttempt_beside _ _ _ _ _ hregister).operations
          rcases updateOperation_ok hupdate with ⟨hnone, -⟩ | ⟨o', ho', -, -, -, rfl⟩
          · rw [hops₁, ho] at hnone
            cases hnone
          · rw [hops₁] at ho'
            obtain rfl := Option.some.inj (ho.symm.trans ho')
            cases hunresolved : o.status.unresolved with
            | true =>
                rw [hunresolved, if_pos rfl] at hpair
                obtain ⟨rfl, rfl⟩ := Prod.mk.inj hpair
                refine .unresolved ho hunresolved rfl rfl ?_
                refine ⟨o.attemptCount +
                  if (fence.any fun f => (db₁.attempts.lookup (operation, f.token)).isSome) then 0 else 1, ?_⟩
                rw [hrow]
                refine (AList.lookup_insert _).trans ?_
                simp [Operation.reentered, hunresolved]
            | false =>
                rw [hunresolved] at hpair
                obtain ⟨rfl, rfl⟩ := Prod.mk.inj hpair
                refine .restarted ho hopen hunresolved rfl rfl ?_
                rw [hrow]
                exact ⟨_, AList.lookup_insert _, by simp [Operation.reentered, hunresolved]⟩

/-- A call that rewrites the row of a fenced operation. -/
theorem guarded_ok {fence : Option Fence} {operation : String}
    {rest : Option Operation → RecordTx δ Unit} {u : Unit}
    (h : (do
      assertFence now fence
      requireOwnedOperation fence operation
      let found ← Tx.query fun db => db.operations.lookup operation
      rest found : RecordTx δ Unit).run db = .ok (u, db')) :
    ∃ db₀, db₀.operations = db.operations ∧ (rest (db.operations.lookup operation)).run db₀ = .ok (u, db') := by
  rw [Tx.bind_ok] at h
  obtain ⟨_, db₁, hfence, h⟩ := h
  rw [Tx.bind_ok] at h
  obtain ⟨_, db₂, howned, h⟩ := h
  have hops : db₂.operations = db.operations := by
    rw [(requireOwnedOperation_beside _ _ _ _ _ howned).operations, (assertFence_beside _ _ _ _ _ hfence).operations]
  rw [Tx.bind_query_ok, hops] at h
  exact ⟨db₂, hops, h⟩

theorem recordOperationIntent_ok {fence : Option Fence} {operation : String} {intent : Payload}
    {u : Unit} (h : (recordOperationIntent now fence operation intent).run db = .ok (u, db')) :
    ∃ o, db'.operations.lookup operation = some o ∧ o.status = .intentRecorded ∧ o.resultPayload = some intent := by
  unfold recordOperationIntent at h
  obtain ⟨db₀, hops, h⟩ := guarded_ok h
  rw [Tx.bind_check_ok] at h
  obtain ⟨hstarted, h⟩ := h
  rcases updateOperation_ok h with ⟨hnone, -⟩ | ⟨o, -, -, -, -, rfl⟩
  · rw [hops] at hnone
    simp [hnone] at hstarted
  · exact ⟨_, AList.lookup_insert _, rfl, rfl⟩

/-- A mark leaves the row as it is, or makes an unresolved row uncertain with the intent it has. -/
theorem markOperationUncertain_ok {fence : Option Fence} {operation errorCode : String}
    {u : Unit}
    (h : (markOperationUncertain now fence operation errorCode).run db = .ok (u, db')) :
    db'.operations.lookup operation = db.operations.lookup operation ∨
      ∃ o, db.operations.lookup operation = some o ∧ o.status.unresolved = true ∧
        db'.operations.lookup operation = some { o with status := .uncertain, errorCode := some errorCode } := by
  unfold markOperationUncertain at h
  obtain ⟨db₀, hops, h⟩ := guarded_ok h
  split at h
  · next hunresolved =>
      rcases updateOperation_ok h with ⟨-, rfl⟩ | ⟨o, ho, -, -, -, rfl⟩
      · exact .inl (by rw [hops])
      · rw [hops] at ho
        exact .inr ⟨o, ho, by simpa [ho] using hunresolved, AList.lookup_insert _⟩
  · obtain ⟨-, rfl⟩ := Tx.pure_ok.mp h
    exact .inl (by rw [hops])

/-- A failed operation, or none. -/
theorem failOperation_ok {fence : Option Fence} {operation errorCode : String}
    {u : Unit} (h : (failOperation now fence operation errorCode).run db = .ok (u, db')) :
    db'.operations.lookup operation = db.operations.lookup operation ∨
      ∃ o, db'.operations.lookup operation = some o ∧ o.status = .failed := by
  unfold failOperation at h
  obtain ⟨db₀, hops, h⟩ := guarded_ok h
  split at h
  · rcases updateOperation_ok h with ⟨-, rfl⟩ | ⟨o, ho, -, -, -, rfl⟩
    · exact .inl (by rw [hops])
    · exact .inr ⟨_, AList.lookup_insert _, rfl⟩
  · obtain ⟨-, rfl⟩ := Tx.pure_ok.mp h
    exact .inl (by rw [hops])

theorem insertNext_operations {fence : Option Fence} {i : AppendInput} {n : ℕ ⊕ ℕ}
    (h : (insertNext clock fence i).run db = .ok (n, db')) :
    db'.operations = db.operations := by
  obtain ⟨_, _, -, rfl, -⟩ | ⟨t, db₁, -, -, hinsert, hset⟩ := insertNext_ok h
  · rfl
  · obtain ⟨_, _, -, -, -, -, rfl⟩ := insertEvent_ok hinsert
    unfold setVersion at hset
    rw [Tx.update_ok] at hset
    obtain rfl := hset
    rfl

/-- What a call that records a result does to one operation: nothing, or it completes it. -/
structure MayComplete (operation : String) (db db' : RecordStore δ) : Prop where
  moves : Moves db db'
  row : db'.operations.lookup operation = db.operations.lookup operation ∨ Completed db' operation

theorem Closes.mayComplete {operation : String} (h : Closes operation db db') :
    MayComplete operation db db' := by
  refine ⟨(h.quiet _ _).moves, ?_⟩
  apply h.own.imp_right
  rintro ⟨_, o', -, -, ho', -, hcompleted⟩
  exact ⟨o', ho', hcompleted⟩

section digests

variable [DecidableEq δ] (resultDigest : Payload → δ)

theorem appendEvent_mayComplete {fence : Option Fence} {i : AppendInput} {n : ℕ}
    (h : (appendEvent resultDigest clock fence i).run db = .ok (n, db')) :
    MayComplete i.operationId db db' := by
  unfold appendEvent at h
  rw [Tx.bind_ok] at h
  obtain ⟨position, db₁, hposition, h⟩ := h
  have hops := insertNext_operations hposition
  cases position with
  | inl sequence =>
      obtain ⟨-, rfl⟩ := Tx.pure_ok.mp h
      exact ⟨Moves.of_operations hops, .inl (by rw [hops])⟩
  | inr version =>
      rw [Tx.bind_ok] at h
      obtain ⟨_, db₂, hcomplete, h⟩ := h
      obtain ⟨-, rfl⟩ := Tx.pure_ok.mp h
      have hclosed := (completeOperation_closes resultDigest _ _ _ _ _ _ _ _ hcomplete).mayComplete
      refine ⟨trans_of Moves (Moves.of_operations hops) hclosed.moves, ?_⟩
      rw [← hops]
      exact hclosed.row

theorem completeOperationWithEvent_mayComplete (clock late : Readings) (fence : Option Fence) (i : AppendInput)
    (db : RecordStore δ) :
    MayComplete i.operationId db (completeOperationWithEvent resultDigest clock late fence i db).2 := by
  have hsame : MayComplete i.operationId db db := ⟨refl_of Moves db, .inl rfl⟩
  unfold completeOperationWithEvent
  cases happend : (appendEvent resultDigest clock fence i).run db with
  | ok p => exact appendEvent_mayComplete resultDigest happend
  | error e =>
      dsimp only
      split
      · split
        · next hreceive => exact (receive_closes resultDigest _ _ _ _ _ _ _ _ _ _ hreceive).mayComplete
        · exact hsame
      · exact hsame

end digests

/-! ### The invariant -/

/-- A non-idempotent tool has been dispatched. -/
def Dispatched (log : List Event) : Prop := .dispatched .nonIdempotentWrite ∈ log

/-- The last non-idempotent dispatch has not been confirmed as not executed. -/
def unconfirmed : List Event → Bool
  | [] => false
  | .dispatched .nonIdempotentWrite :: _ => true
  | .reconciled .confirmedNotExecuted :: _ => false
  | _ :: rest => unconfirmed rest

/-- Every non-idempotent dispatch was the first one, or the one before it was confirmed as not executed. -/
def Confirmed : List Event → Prop
  | [] => True
  | e :: rest => (e = .dispatched .nonIdempotentWrite → unconfirmed rest = false) ∧ Confirmed rest

/-- The row waits for a receipt or a reconciliation of a non-idempotent tool, or has its result. -/
def Waiting (row : Option Operation) : Prop :=
  ∃ o, row = some o ∧
    (o.status = .completed ∨ o.status.unresolved = true ∧ persistedClass o.resultPayload = .nonIdempotentWrite)

/-- The row an attempt entered: as it was then, or completed since. -/
def EnteredRow (row : Option Operation) (payload : Option Payload) : Prop :=
  ∃ o, row = some o ∧ (o.status = .completed ∨ o.status.unresolved = true ∧ o.resultPayload = payload)

/-- What the phase knows of the log and the row. -/
def PhaseGuarded (log : List Event) (row : Option Operation) : Phase → Prop
  | .entered status payload =>
    (Dispatched log → status.unresolved = true ∧ persistedClass payload = .nonIdempotentWrite) ∧
      (status.unresolved = false → payload = none) ∧
      (status.unresolved = true → payload.getD ∅ ≠ ∅ ∧ EnteredRow row payload)
  | .ready c flag =>
    (Dispatched log → flag = true) ∧ (c = .nonIdempotentWrite → unconfirmed log = false ∧ Waiting row)
  | .sent c flag => (Dispatched log → flag = true) ∧ (c = .nonIdempotentWrite → flag = true)
  | .resulted flag | .doubted flag | .handling flag => Dispatched log → flag = true

/-- What holds between the steps. -/
structure Guarded (r : ToolRequest) (w : World δ) : Prop where
  confirmed : Confirmed w.log
  waiting : Dispatched w.log → Waiting (w.row r)
  intents : ∀ o, w.row r = some o → o.status.unresolved = true → o.resultPayload.getD ∅ ≠ ∅
  phase : ∀ fence p, w.attempt = some (fence, p) → PhaseGuarded w.log (w.row r) p

/-! ### Facts about logs and phases -/

theorem dispatched_of_unconfirmed {log : List Event} (h : unconfirmed log = true) : Dispatched log := by
  induction log with
  | nil => cases h
  | cons e rest ih =>
      unfold unconfirmed at h
      split at h
      · cases h
      · next heq =>
          obtain ⟨rfl, -⟩ := List.cons.inj heq
          exact List.mem_cons_self
      · cases h
      · next heq =>
          obtain ⟨-, rfl⟩ := List.cons.inj heq
          exact List.mem_cons_of_mem _ (ih h)

theorem dispatched_reconciled {log : List Event} {outcome : ReconcileOutcome} :
    Dispatched (.reconciled outcome :: log) ↔ Dispatched log := by
  simp [Dispatched]

/-- The flag of an attempt after a non-idempotent dispatch. -/
theorem PhaseGuarded.flag {log : List Event} {row : Option Operation} {p : Phase} (h : PhaseGuarded log row p)
    (hd : Dispatched log) : p.nonIdempotentMayHaveExecuted = true := by
  cases p with
  | entered status payload =>
      obtain ⟨hunresolved, hclass⟩ := h.1 hd
      simp [Phase.nonIdempotentMayHaveExecuted, hunresolved, hclass]
  | ready c flag => exact h.1 hd
  | sent c flag => exact h.1 hd
  | resulted flag => exact h hd
  | doubted flag => exact h hd
  | handling flag => exact h hd

theorem PhaseGuarded.handling {log : List Event} {row : Option Operation} {p : Phase}
    (h : PhaseGuarded log row p) : PhaseGuarded log row' (.handling p.nonIdempotentMayHaveExecuted) := by
  intro hd
  exact h.flag hd

/-- The row may have been completed. -/
def RowKept (row row' : Option Operation) : Prop :=
  row' = row ∨ ∃ o, row' = some o ∧ o.status = .completed

theorem Waiting.kept {row : Option Operation} (h : Waiting row) (hk : RowKept row row') : Waiting row' := by
  rcases hk with rfl | ⟨o, rfl, hcompleted⟩
  · exact h
  · exact ⟨o, rfl, .inl hcompleted⟩

theorem PhaseGuarded.kept {log : List Event} {row : Option Operation} {p : Phase}
    (h : PhaseGuarded log row p) (hk : RowKept row row') : PhaseGuarded log row' p := by
  cases p with
  | entered status payload =>
      refine ⟨h.1, h.2.1, ?_⟩
      intro hunresolved
      obtain ⟨hne, hrow⟩ := h.2.2 hunresolved
      refine ⟨hne, ?_⟩
      rcases hk with rfl | ⟨o, rfl, hcompleted⟩
      · exact hrow
      · exact ⟨o, rfl, .inl hcompleted⟩
  | ready c flag =>
      refine ⟨h.1, ?_⟩
      intro hc
      exact ⟨(h.2 hc).1, (h.2 hc).2.kept hk⟩
  | sent c flag => exact h
  | resulted flag => exact h
  | doubted flag => exact h
  | handling flag => exact h

/-- A step that leaves the log and at most completes the row. -/
theorem Guarded.kept {r : ToolRequest} {w w' : World δ} (h : Guarded r w) (hlog : w'.log = w.log)
    (hk : RowKept (w.row r) (w'.row r))
    (hphase : ∀ fence p, w'.attempt = some (fence, p) → PhaseGuarded w.log (w'.row r) p) : Guarded r w' := by
  constructor
  · rw [hlog]
    exact h.confirmed
  · rw [hlog]
    intro hd
    exact (h.waiting hd).kept hk
  · intro o ho hunresolved
    rcases hk with hsame | ⟨o', ho', hcompleted⟩
    · rw [hsame] at ho
      exact h.intents o ho hunresolved
    · obtain rfl := Option.some.inj (ho.symm.trans ho')
      rw [hcompleted] at hunresolved
      cases hunresolved
  · rw [hlog]
    exact hphase

/-- The class an attempt recovers is the persisted one. -/
theorem recovered_class {r : ToolRequest} {payload : Option Payload} {argumentsHash : String} {c : SideEffectClass}
    {token : ℕ} (hne : payload.getD ∅ ≠ ∅)
    (hmatch : r.recovers (r.intentInUse payload argumentsHash c token) argumentsHash c = true) :
    persistedClass payload = c := by
  unfold ToolRequest.intentInUse at hmatch
  rw [if_neg hne] at hmatch
  unfold ToolRequest.recovers at hmatch
  simp only [Bool.and_eq_true, decide_eq_true_eq] at hmatch
  exact hmatch.2

theorem intent_ne_empty (r : ToolRequest) (argumentsHash : String) (c : SideEffectClass) (token : ℕ) :
    r.intent argumentsHash c token ≠ ∅ := by
  intro hempty
  have hlookup : (r.intent argumentsHash c token).lookup "tool" = some (.string r.tool) := by
    unfold ToolRequest.intent Payload.ofList
    rw [Finmap.dlookup_list_toFinmap]
    simp [List.dlookup_cons_ne]
  rw [hempty, Finmap.lookup_empty] at hlookup
  cases hlookup

end HpAgent.Records
