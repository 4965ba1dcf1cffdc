import HpAgent.Records.Transcripts

/-! # Transcripts over whole runs

Any number of activities make the calls of `HpAgent.Records.Operations` and `HpAgent.Records.Transcripts`, in any
order, again after a crash and under any lease, while the rows those calls only read change underneath.  A call
that raises leaves its store as it was, but for the late receipt `completeOperationWithEvent` sends after it.

`transcript_exactly_once` collects what holds in every reachable store.  `completed_without_event` is a run in
which an operation handed to `completeOperationWithEvent` is completed and has no event: the receipt of a result
that came after its Run was cancelled. -/

namespace HpAgent.Records

open Library

variable {δ : Type} [DecidableEq δ] (resultDigest : Payload → δ) {db db' : RecordStore δ}

/-! ### Calls and runs -/

/-- A call with its arguments. -/
inductive Call where
  | beginOperation (clock : Readings) (fence : Option Fence) (operation : String) (run : Uuid)
      (operationType : String) (allowUnresolved : Bool)
  | failOperation (now : Instant) (fence : Option Fence) (operation errorCode : String)
  | recordOperationIntent (now : Instant) (fence : Option Fence) (operation : String) (intent : Payload)
  | markOperationUncertain (now : Instant) (fence : Option Fence) (operation errorCode : String)
  | completeOperation (clock : Readings) (fence : Option Fence) (operation ref : String) (payload : Payload)
  | receive (clock : Readings) (account run execution : Uuid) (operation : String) (token : ℕ) (payload : Payload)
  | createTranscript (clock : Readings) (fence : Option Fence) (i : TranscriptInput)
  | completeOperationWithEvent (clock late : Readings) (fence : Option Fence) (i : AppendInput)
  | observe (clock : Readings) (fence : Option Fence) (facts : Except Error Observed) (i : ObserveInput)

/-- The store a call leaves behind. -/
def Call.effect (db : RecordStore δ) : Call → RecordStore δ
  | .beginOperation clock fence operation run operationType allow =>
    (Records.beginOperation clock fence operation run operationType allow).commit db
  | .failOperation now fence operation errorCode => (Records.failOperation now fence operation errorCode).commit db
  | .recordOperationIntent now fence operation intent =>
    (Records.recordOperationIntent now fence operation intent).commit db
  | .markOperationUncertain now fence operation errorCode =>
    (Records.markOperationUncertain now fence operation errorCode).commit db
  | .completeOperation clock fence operation ref payload =>
    (Records.completeOperation resultDigest clock fence operation ref payload).commit db
  | .receive clock account run execution operation token payload =>
    (Records.receive resultDigest clock account run execution operation token payload).commit db
  | .createTranscript clock fence i => (Records.createTranscript resultDigest clock fence i).commit db
  | .completeOperationWithEvent clock late fence i =>
    (Records.completeOperationWithEvent resultDigest clock late fence i db).2
  | .observe clock fence facts i => (Records.observe resultDigest clock fence facts i).commit db

/-- One call, or a change of the rows the calls only read. -/
inductive RecordStep : RecordStore δ → RecordStore δ → Prop
  | call {db : RecordStore δ} (c : Call) : RecordStep db (c.effect resultDigest db)
  | surroundings {db : RecordStore δ} (base : Authority) (sessions : Uuid → Option Uuid) :
      RecordStep db { db with base := base, sessions := sessions }

/-- The stores reached from one without transcripts. -/
inductive Reachable : RecordStore δ → Prop
  | start {db : RecordStore δ} (htranscripts : db.transcripts = ∅) (hevents : db.events = ∅) : Reachable db
  | step {db db' : RecordStore δ} (h : Reachable db) (hstep : RecordStep resultDigest db db') : Reachable db'

/-! ### One step -/

/-- What one step does to the transcripts: nothing, or one append. -/
inductive Effect (db db' : RecordStore δ) : Prop
  | quiet {S : Set String} (h : Quiet S db db')
  | appended {T : String} {t' : Transcript} {ev : TranscriptEvent} (h : Appended db db' T t' ev)

omit [DecidableEq δ] in
theorem Appends.effect {operation : String} (h : Appends db db' operation) :
    Effect db db' := by
  cases h with
  | appended h _ => exact .appended h
  | replayed h _ => exact .quiet h

omit [DecidableEq δ] in
/-- A committed transaction has the effect of its successful runs. -/
theorem effect_commit {α : Type} {m : RecordTx δ α}
    (h : ∀ a db', m.run db = .ok (a, db') → Effect db db') : Effect db (m.commit db) :=
  Tx.commit_rule (Effect db) (.quiet (refl_of (Quiet ∅) db)) h

omit [DecidableEq δ] in
theorem effect_commit_quiet {α : Type} {S : Set String} {m : RecordTx δ α} (h : Tx.Keeps (Quiet S) m) (db : RecordStore δ) :
    Effect db (m.commit db) :=
  effect_commit fun _ _ hrun => .quiet (h _ _ _ hrun)

/-- The append and its late receipt: the event is added, or the calls end quietly. -/
theorem completeOperationWithEvent_outcome {clock late : Readings} {fence : Option Fence} {i : AppendInput}
    (hw : Recorded db) :
    (∃ n, (completeOperationWithEvent resultDigest clock late fence i db).1 = .ok n ∧
        Appends db (completeOperationWithEvent resultDigest clock late fence i db).2 i.operationId) ∨
      (∃ e, (completeOperationWithEvent resultDigest clock late fence i db).1 = .error e) ∧
        Quiet {i.operationId} db (completeOperationWithEvent resultDigest clock late fence i db).2 := by
  unfold completeOperationWithEvent
  cases happend : (appendEvent resultDigest clock fence i).run db with
  | ok p =>
      left
      exact ⟨p.1, rfl, (appendEvent_ok resultDigest hw happend).1⟩
  | error e =>
      right
      dsimp only
      split
      · split
        · next hreceive => exact ⟨⟨_, rfl⟩, receive_quiet resultDigest _ _ _ _ _ _ _ _ _ _ hreceive⟩
        · exact ⟨⟨_, rfl⟩, refl_of (Quiet {i.operationId}) db⟩
      · exact ⟨⟨_, rfl⟩, refl_of (Quiet {i.operationId}) db⟩

theorem Call.effect_of (hw : Recorded db) (c : Call) : Effect db (c.effect resultDigest db) := by
  cases c with
  | beginOperation => exact effect_commit_quiet (beginOperation_quiet _ _ _ _ _ _) db
  | failOperation => exact effect_commit_quiet (failOperation_quiet _ _ _ _) db
  | recordOperationIntent => exact effect_commit_quiet (recordOperationIntent_quiet _ _ _ _) db
  | markOperationUncertain => exact effect_commit_quiet (markOperationUncertain_quiet _ _ _ _) db
  | completeOperation => exact effect_commit_quiet (completeOperation_quiet resultDigest _ _ _ _ _) db
  | receive => exact effect_commit_quiet (receive_quiet resultDigest _ _ _ _ _ _ _) db
  | createTranscript => exact effect_commit fun _ _ h => (createTranscript_ok resultDigest hw h).effect
  | completeOperationWithEvent =>
      obtain ⟨_, _, h⟩ | ⟨_, h⟩ := completeOperationWithEvent_outcome resultDigest hw
      · exact h.effect
      · exact .quiet h
  | observe => exact effect_commit fun _ _ h => (observe_ok resultDigest hw h).effect

theorem RecordStep.effect (hw : Recorded db) (h : RecordStep resultDigest db db') : Effect db db' := by
  cases h with
  | call c => exact c.effect_of resultDigest hw
  | surroundings base sessions => exact .quiet (S := ∅) ⟨Moves.of_operations rfl, fun _ h => .inl h, rfl, rfl⟩

omit [DecidableEq δ] in
theorem Effect.recorded (h : Effect db db') (hw : Recorded db) : Recorded db' := by
  cases h with
  | quiet h => exact hw.quiet h
  | appended h => exact hw.appended h

omit [DecidableEq δ] in
theorem Effect.extends (h : Effect db db') (hw : Recorded db) :
    Journal.Extends db.journal db'.journal := by
  cases h with
  | quiet h =>
      rw [h.journal]
      exact refl_of Journal.Extends db.journal
  | appended h =>
      rw [h.journal]
      exact Journal.extends_append hw.exact

/-! ### Whole runs -/

theorem Reachable.recorded (h : Reachable resultDigest db) : Recorded db := by
  induction h with
  | start htranscripts hevents => exact Recorded.empty htranscripts hevents
  | step _ hstep ih => exact (hstep.effect resultDigest ih).recorded ih

/-- Events outlive any number of further steps. -/
theorem Reachable.extends (h : Reachable resultDigest db)
    (hrun : Relation.ReflTransGen (RecordStep resultDigest) db db') : Journal.Extends db.journal db'.journal := by
  have hboth : Recorded db' ∧ Journal.Extends db.journal db'.journal := by
    induction hrun with
    | refl => exact ⟨h.recorded, refl_of Journal.Extends db.journal⟩
    | tail _ hstep ih =>
        have heffect := hstep.effect resultDigest ih.1
        exact ⟨heffect.recorded ih.1, trans_of Journal.Extends ih.2 (heffect.extends ih.1)⟩
  exact hboth.2

/-- The operation has an event. -/
def HasEvent (db : RecordStore δ) (operation : String) : Prop :=
  ∃ T n ev, db.events.lookup (T, n) = some ev ∧ ev.operationId = operation

/-- The call records a result without an event: `completeOperation` by itself, or a late receipt. -/
def Call.recordsResult (db : RecordStore δ) : Call → Prop
  | .completeOperation .. | .receive .. => True
  | .completeOperationWithEvent clock late fence i =>
    ∃ e, (Records.completeOperationWithEvent resultDigest clock late fence i db).1 = .error e
  | _ => False

omit [DecidableEq δ] in
/-- An append completes an operation only with its event. -/
theorem Appends.hasEvent {operation j : String} (h : Appends db db' operation)
    (hbefore : ¬Completed db j) (hafter : Completed db' j) : HasEvent db' j := by
  cases h with
  | @appended T t' ev h hop =>
      obtain rfl := (h.completes j hafter).resolve_left hbefore
      exact ⟨T, t'.version, ev, by rw [h.events, if_pos rfl], rfl⟩
  | replayed h hcompleted =>
      obtain rfl := (h.completes j hafter).resolve_left hbefore
      exact absurd hcompleted hbefore

omit [DecidableEq δ] in
theorem hasEvent_commit {α : Type} {m : RecordTx δ α} {operation j : String}
    (hbefore : ¬Completed db j) (h : ∀ a db', m.run db = .ok (a, db') → Appends db db' operation)
    (hafter : Completed (m.commit db) j) : HasEvent (m.commit db) j := by
  revert hafter
  apply Tx.commit_rule fun s => Completed s j → HasEvent s j
  · intro hafter
    exact absurd hafter hbefore
  · intro a db' hrun hafter
    exact (h a db' hrun).hasEvent hbefore hafter

omit [DecidableEq δ] in
/-- A call that completes nothing. -/
theorem not_completed_commit {α : Type} {m : RecordTx δ α} (h : Tx.Keeps (Quiet ∅) m)
    {j : String} (hbefore : ¬Completed db j) : ¬Completed (m.commit db) j := by
  apply Tx.commit_rule fun s => ¬Completed s j
  · exact hbefore
  · intro a db' hrun hafter
    exact hbefore (((h _ _ _ hrun).completes j hafter).resolve_right (Set.notMem_empty _))

/-- **Completion comes with the event**, unless the call records a result without one. -/
theorem Call.completes_with_event (hw : Recorded db) (c : Call) {j : String}
    (hbefore : ¬Completed db j) (hafter : Completed (c.effect resultDigest db) j) :
    HasEvent (c.effect resultDigest db) j ∨ c.recordsResult resultDigest db := by
  cases c with
  | beginOperation => exact absurd hafter (not_completed_commit (beginOperation_quiet _ _ _ _ _ _) hbefore)
  | failOperation => exact absurd hafter (not_completed_commit (failOperation_quiet _ _ _ _) hbefore)
  | recordOperationIntent =>
      exact absurd hafter (not_completed_commit (recordOperationIntent_quiet _ _ _ _) hbefore)
  | markOperationUncertain =>
      exact absurd hafter (not_completed_commit (markOperationUncertain_quiet _ _ _ _) hbefore)
  | completeOperation => exact .inr trivial
  | receive => exact .inr trivial
  | createTranscript =>
      left
      exact hasEvent_commit hbefore (fun _ _ h => createTranscript_ok resultDigest hw h) hafter
  | completeOperationWithEvent =>
      obtain ⟨_, _, h⟩ | ⟨h, _⟩ := completeOperationWithEvent_outcome resultDigest hw
      · exact .inl (h.hasEvent hbefore hafter)
      · exact .inr h
  | observe =>
      left
      exact hasEvent_commit hbefore (fun _ _ h => observe_ok resultDigest hw h) hafter

/-- The position an append returns is the one of its event, at its first success and at every retry. -/
theorem completeOperationWithEvent_position {clock late : Readings} {fence : Option Fence} {i : AppendInput}
    (hw : Recorded db) {n : ℕ}
    (h : (completeOperationWithEvent resultDigest clock late fence i db).1 = .ok n) :
    ∃ ev, (completeOperationWithEvent resultDigest clock late fence i db).2.events.lookup (i.transcriptId, n) =
      some ev ∧ ev.operationId = i.operationId := by
  unfold completeOperationWithEvent at h ⊢
  cases happend : (appendEvent resultDigest clock fence i).run db with
  | ok p =>
      rw [happend] at h
      obtain rfl := Except.ok.inj h
      exact (appendEvent_ok resultDigest hw happend).2
  | error e =>
      rw [happend] at h
      dsimp only at h
      split at h
      · split at h <;> cases h
      · cases h

/-- **Transcripts are exact.**  In every reachable store an Execution has at most one transcript, the events of a
transcript stand at the positions from 1 to its version, no operation has two events, an operation with an event is completed, and events stay as they
are in every run from here.  A call completes an operation together with its event, unless it records a result
without one; an append that returns a position has its event there. -/
theorem transcript_exactly_once {db : RecordStore δ} (h : Reachable resultDigest db) :
    (∀ T t, db.transcripts.lookup T = some t → ∀ n,
      (db.events.lookup (T, n)).isSome ↔ 1 ≤ n ∧ n ≤ t.version) ∧
    (∀ T T' t t', db.transcripts.lookup T = some t → db.transcripts.lookup T' = some t' →
      t.executionId = t'.executionId → T = T') ∧
    (∀ k k' ev ev', db.events.lookup k = some ev → db.events.lookup k' = some ev' →
      ev.operationId = ev'.operationId → k = k') ∧
    (∀ operation, HasEvent db operation → Completed db operation) ∧
    (∀ (c : Call) operation, ¬Completed db operation → Completed (c.effect resultDigest db) operation →
      HasEvent (c.effect resultDigest db) operation ∨ c.recordsResult resultDigest db) ∧
    (∀ clock late fence (i : AppendInput) n,
      (completeOperationWithEvent resultDigest clock late fence i db).1 = .ok n →
        ∃ ev, (completeOperationWithEvent resultDigest clock late fence i db).2.events.lookup (i.transcriptId, n) =
          some ev ∧ ev.operationId = i.operationId) ∧
    ∀ db', Relation.ReflTransGen (RecordStep resultDigest) db db' → ∀ k ev,
      db.events.lookup k = some ev → db'.events.lookup k = some ev := by
  have hw := h.recorded
  refine ⟨?_, hw.single, ?_, ?_, ?_, ?_, ?_⟩
  · intro T t ht n
    have hcontiguous := hw.exact.contiguous T n
    rw [version_of_lookup ht] at hcontiguous
    exact hcontiguous
  · rintro ⟨T, n⟩ ⟨T', n'⟩ ev ev' hev hev' hop
    obtain ⟨rfl, rfl⟩ := hw.exact.once T T' n n' ev ev' hev hev' hop
    rfl
  · rintro operation ⟨T, n, ev, hev, rfl⟩
    obtain ⟨_, -, o, ho, hcompleted, -⟩ := hw.settled T n ev hev
    exact ⟨o, ho, hcompleted⟩
  · intro c operation hbefore hafter
    exact c.completes_with_event resultDigest hw hbefore hafter
  · intro clock late fence i n hn
    exact completeOperationWithEvent_position resultDigest hw hn
  · rintro db' hrun ⟨T, n⟩ ev hev
    exact h.extends resultDigest hrun T n ev hev

/-! ### A result after cancellation -/

/-- One Run with one running Execution, whose lease has token 1 until 100. -/
def lateAuthority (status : RunStatus) (leases : Uuid → Option FenceLease) : Authority where
  accounts a := if a = 1 then some ⟨true, none⟩ else none
  conversations _ _ := true
  runs r := if r = 7 then some ⟨1, .chat 3, status⟩ else none
  works _ := none
  executions e := if e = 5 then some ⟨1, 7, status, false⟩ else none
  rootExecution r := if r = 7 then some 5 else none
  leases := leases
  snapshotRevoked _ := false

def lateFence : Fence := ⟨1, 7, 5, 1⟩

/-- The Run has opened its transcript and begun a tool operation. -/
def lateCalls : List Call :=
  [.beginOperation (fun _ => 0) (some lateFence) "context" 7 "context" false,
    .createTranscript (fun _ => 0) (some lateFence) ⟨"transcript", 7, 1, some 3, some 4, 5, "[]", "context"⟩,
    .beginOperation (fun _ => 0) (some lateFence) "tool" 7 "tool" true]

def lateStart : RecordStore Payload where
  base := lateAuthority .running fun e => if e = 5 then some ⟨1, 7, 1, 100⟩ else none
  sessions r := if r = 7 then some 4 else none
  operations := ∅
  attempts := ∅
  receipts := ∅
  transcripts := ∅
  events := ∅

def lateBegun : RecordStore Payload := lateCalls.foldl (Call.effect id) lateStart

/-- The Run is cancelled, and its leases are taken away. -/
def lateCancelled : RecordStore Payload :=
  { lateBegun with base := lateAuthority .cancelling fun _ => none, sessions := lateStart.sessions }

theorem reachable_foldl (h : Reachable resultDigest db) (calls : List Call) :
    Reachable resultDigest (calls.foldl (Call.effect resultDigest) db) := by
  induction calls generalizing db with
  | nil => exact h
  | cons c rest ih => exact ih (h.step (.call c))

theorem reachable_lateCancelled : Reachable id lateCancelled :=
  (reachable_foldl id (.start rfl rfl) lateCalls).step (.surroundings _ _)

theorem transcript_exactly_once_late :
    HasEvent lateCancelled "context" ∧ Completed lateCancelled "context" := by
  have hevent : HasEvent lateCancelled "context" :=
    ⟨"transcript", 1, ⟨"context", "context", Payload.ofList [("messages", .other "[]")]⟩, rfl, rfl⟩
  exact ⟨hevent, (transcript_exactly_once id reachable_lateCancelled).2.2.2.1 "context" hevent⟩

/-- The result of the tool. -/
def lateResult : AppendInput := ⟨"transcript", 1, "tool_result", "tool", ∅, "agent-tool-result:tool", ∅⟩

theorem completed_without_event :
    ¬∀ (db : RecordStore Payload), Reachable id db → ∀ clock late fence (i : AppendInput),
      Completed (completeOperationWithEvent id clock late fence i db).2 i.operationId →
        HasEvent (completeOperationWithEvent id clock late fence i db).2 i.operationId := by
  intro hall
  have hevent := hall lateCancelled reachable_lateCancelled (fun _ => 0) (fun _ => 0) (some lateFence) lateResult
    ⟨_, rfl, rfl⟩
  obtain ⟨T, n, ev, hev, hop⟩ := hevent
  -- the context is the only event
  have hmem : (⟨(T, n), ev⟩ : Sigma fun _ : String × ℕ => TranscriptEvent) ∈
      [⟨("transcript", 1), ⟨"context", "context", Payload.ofList [("messages", .other "[]")]⟩⟩] := AList.mem_lookup_iff.mp hev
  obtain ⟨-, hev⟩ := Sigma.mk.inj (List.mem_singleton.mp hmem)
  obtain rfl := eq_of_heq hev
  exact absurd hop (by decide)

end HpAgent.Records
