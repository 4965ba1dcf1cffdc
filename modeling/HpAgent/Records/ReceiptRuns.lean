import HpAgent.Records.ReceiptCalls

/-! # Receipts over whole runs

Any number of activities make the calls of `HpAgent.Records.TranscriptRuns` and the two transactions of
`HpAgent.Records.Receipts`, in any order and under any fence, while the surroundings go forward.

* `ReceiptStep.booked`: one step keeps the attempts and receipts booked and files its receipts.
* `EndsIn.currentOf`, `EndsIn.live`: the calls that complete an operation or append its event do it with the current
  receipt of their fence, and under a live one. -/

namespace HpAgent.Records

open Library

variable {δ : Type} [DecidableEq δ] (resultDigest : Payload → δ) {clock : Readings}

/-! ### Histories -/

/-- The fence a call runs under; `receive` names its attempt itself. -/
def Call.fence : Call → Option Fence
  | .beginOperation _ fence _ _ _ _ | .failOperation _ fence _ _ | .recordOperationIntent _ fence _ _
  | .markOperationUncertain _ fence _ _ | .completeOperation _ fence _ _ _ | .createTranscript _ fence _
  | .completeOperationWithEvent _ _ fence _ | .observe _ fence _ _ => fence
  | .receive .. => none

/-- The operation a call is about. -/
def Call.operation : Call → String
  | .beginOperation _ _ operation _ _ _ | .failOperation _ _ operation _ | .recordOperationIntent _ _ operation _
  | .markOperationUncertain _ _ operation _ | .completeOperation _ _ operation _ _
  | .receive _ _ _ _ operation _ _ => operation
  | .createTranscript _ _ i => i.operationId
  | .completeOperationWithEvent _ _ _ i => i.operationId
  | .observe _ _ _ i => i.operationId

/-- The operations of `U` are run without a fence, and all others under one. -/
def Call.Disciplined (U : Set String) : Call → Prop
  | .receive .. => True
  | c => c.fence.isSome = true ↔ c.operation ∉ U

/-- One call, or a move of the surroundings. -/
inductive ReceiptStep (U : Set String) (db : RecordStore δ) : RecordStore δ → Prop
  | call (c : Call) (hc : c.Disciplined U) : ReceiptStep U db (c.effect resultDigest db)
  | enqueue (clock : Readings) (fence : Option Fence) (operation : String) (run : Uuid) (operationType ref : String)
      (payload : Payload) (hfenced : fence.isSome = true ↔ operation ∉ U) :
      ReceiptStep U db ((enqueueOperation resultDigest clock fence operation run operationType ref payload).commit db)
  | effect (now : Instant) (fence : Option Fence) (operation : String) (run execution : Uuid) :
      ReceiptStep U db ((registerEffect now fence operation run execution).commit db)
  | surroundings (base : Authority) (sessions : Uuid → Option Uuid) (hbase : Forward db.base base) :
      ReceiptStep U db { db with base := base, sessions := sessions }

/-- The later stores of a history. -/
def Later (U : Set String) (db db' : RecordStore δ) : Prop := Relation.ReflTransGen (ReceiptStep resultDigest U) db db'

/-- A store without rows. -/
def Fresh (db : RecordStore δ) : Prop :=
  db.operations = ∅ ∧ db.attempts = ∅ ∧ db.receipts = ∅ ∧ db.transcripts = ∅ ∧ db.events = ∅

/-- The stores a history reaches. -/
def ReceiptReachable (U : Set String) (db : RecordStore δ) : Prop := ∃ db₀, Fresh db₀ ∧ Later resultDigest U db₀ db

/-! ### One step -/

/-- What a step keeps. -/
structure Holds (db db' : RecordStore δ) : Prop where
  forward : Forward db.base db'.base
  attempts : ∀ k a, db.attempts.lookup k = some a → db'.attempts.lookup k = some a
  receipts : ∀ k r, db.receipts.lookup k = some r → db'.receipts.lookup k = some r
  moves : Moves db db'

omit [DecidableEq δ] in
theorem Filed.holds {db db' : RecordStore δ} (h : Filed db db') : Holds db db' := by
  refine ⟨?_, h.attempts, h.receipts, h.moves⟩
  rw [h.base]
  exact .refl _

instance : IsPreorder (RecordStore δ) Holds where
  refl _ := (refl_of Filed _).holds
  trans _ _ _ h h' := ⟨h.forward.trans h'.forward, fun k a ha => h'.attempts k a (h.attempts k a ha),
    fun k r hr => h'.receipts k r (h.receipts k r hr), trans_of Moves h.moves h'.moves⟩

section steps

variable {U : Set String} {db db' : RecordStore δ}

theorem completeOperationWithEvent_files (clock late : Readings) (fence : Option Fence) (i : AppendInput)
    (hfenced : i.operationId ∉ U → fence.isSome = true) :
    Files U db (completeOperationWithEvent resultDigest clock late fence i db).2 := by
  unfold completeOperationWithEvent
  cases happend : (appendEvent resultDigest clock fence i).run db with
  | ok p => exact appendEvent_files resultDigest _ _ _ hfenced _ _ _ happend
  | error e =>
      dsimp only
      split
      · split
        · next hreceive => exact receive_files resultDigest _ _ _ _ _ _ _ _ _ _ hreceive
        · exact refl_of (Files U) db
      · exact refl_of (Files U) db

theorem Call.files (c : Call) (hc : c.Disciplined U) : Files U db (c.effect resultDigest db) := by
  cases c with
  | beginOperation => exact (beginOperation_files _ _ _ _ _ _ hc).commit db
  | failOperation => exact (failOperation_files _ _ _ _).commit db
  | recordOperationIntent => exact (recordOperationIntent_files _ _ _ _).commit db
  | markOperationUncertain => exact (markOperationUncertain_files _ _ _ _).commit db
  | completeOperation => exact (completeOperation_files resultDigest _ _ _ _ _ hc.mpr).commit db
  | receive => exact (receive_files resultDigest _ _ _ _ _ _ _).commit db
  | createTranscript => exact (createTranscript_files resultDigest _ _ _ hc.mpr).commit db
  | completeOperationWithEvent => exact completeOperationWithEvent_files resultDigest _ _ _ _ hc.mpr
  | observe => exact (observe_files resultDigest _ _ _ _ hc).commit db

omit [DecidableEq δ] in
theorem Booked.surroundings (hb : Booked U db) {base : Authority} {sessions : Uuid → Option Uuid}
    (hbase : Forward db.base base) : Booked U { db with base := base, sessions := sessions } := by
  refine ⟨hb.owned, hb.single, fun operation t a ha => ?_, hb.counted, hb.produced, fun operation o hU ho hcompleted => ?_⟩
  · obtain ⟨l, hl, hle⟩ := hb.leased operation t a ha
    obtain ⟨l', hl', hle'⟩ := hbase.leases _ l hl
    exact ⟨l', hl', le_trans hle hle'⟩
  · obtain ⟨hsome, hover | hlatest⟩ := hb.closed operation o hU ho hcompleted
    · exact ⟨hsome, .inl (hover.forward hbase)⟩
    · exact ⟨hsome, .inr hlatest⟩

/-- **One step** keeps the store booked, loses nothing, and records only receipts of producing attempts as current. -/
theorem ReceiptStep.booked (h : ReceiptStep resultDigest U db db') (hb : Booked U db) :
    Booked U db' ∧ Holds db db' ∧
      ∀ operation n r, db.receipts.lookup (operation, n) = none → db'.receipts.lookup (operation, n) = some r →
        r.disposition = .current → ¬Completed db operation ∧
          ∃ t a now, db'.attempts.lookup (operation, t) = some a ∧ a.attemptNo = n ∧ Producing db'.base now a t := by
  have hfiles : ∀ {s}, Files U db s → Booked U s ∧ Holds db s ∧ _ := fun hfiles =>
    ⟨(hfiles hb).1, (hfiles hb).2.holds, (hfiles hb).2.current⟩
  cases h with
  | call c hc => exact hfiles (c.files resultDigest hc)
  | enqueue clock fence operation run operationType ref payload hfenced =>
      exact hfiles ((enqueueOperation_files resultDigest _ _ _ _ _ _ _ hfenced).commit db)
  | effect now fence operation run execution => exact hfiles ((registerEffect_files _ _ _ _ _).commit db)
  | surroundings base sessions hbase =>
      refine ⟨hb.surroundings hbase, ⟨hbase, fun _ _ h => h, fun _ _ h => h, Moves.of_operations rfl⟩,
        fun operation n r hnone hr => ?_⟩
      rw [hnone] at hr
      cases hr

theorem Later.booked (h : Later resultDigest U db db') (hb : Booked U db) : Booked U db' ∧ Holds db db' := by
  induction h with
  | refl => exact ⟨hb, refl_of Holds db⟩
  | tail _ hstep ih =>
      obtain ⟨hb', hholds, _⟩ := hstep.booked resultDigest ih.1
      exact ⟨hb', trans_of Holds ih.2 hholds⟩

omit [DecidableEq δ] in
theorem Fresh.booked (h : Fresh db) : Booked U db := by
  obtain ⟨hoperations, hattempts, hreceipts, _⟩ := h
  have hattempt : ∀ k, db.attempts.lookup k = none := by
    intro k
    rw [hattempts]
    exact AList.lookup_empty k
  refine ⟨fun operation t a ha => ?_, fun operation t t' a a' ha => ?_, fun operation t a ha => ?_,
    fun operation t a o ha => ?_, fun operation n r hr => ?_, fun operation o _ ho => ?_⟩
  · rw [hattempt] at ha
    cases ha
  · rw [hattempt] at ha
    cases ha
  · rw [hattempt] at ha
    cases ha
  · rw [hattempt] at ha
    cases ha
  · rw [hreceipts, AList.lookup_empty] at hr
    cases hr
  · rw [hoperations, AList.lookup_empty] at ho
    cases ho

theorem ReceiptReachable.booked (h : ReceiptReachable resultDigest U db) : Booked U db := by
  obtain ⟨db₀, hfresh, hlater⟩ := h
  exact (Later.booked resultDigest hlater hfresh.booked).1

/-- The transaction of a notification completes at most its own operation and appends nothing. -/
theorem enqueueOperation_quiet (clock : Readings) (fence : Option Fence) (operation : String) (run : Uuid)
    (operationType ref : String) (payload : Payload) :
    Tx.Keeps (Quiet {operation}) (enqueueOperation resultDigest clock fence operation run operationType ref payload) := by
  intro db v db' h
  unfold enqueueOperation at h
  rw [Tx.bind_query_ok] at h
  have hrest : ∀ s, (do
      registerAttempt operation fence
      completeOperation resultDigest clock fence operation ref payload : RecordTx δ Unit).run s = .ok (v, db') →
      Quiet {operation} s db' := by
    refine fun s hs => Tx.Keeps.bind ((registerAttempt_beside _ _).mono Beside.quiet) (fun _ => ?_) s v db' hs
    exact completeOperation_quiet resultDigest _ _ _ _ _
  split at h
  · next hnone =>
      obtain ⟨_, db₁, hinsert, h⟩ := Tx.bind_ok.mp h
      exact trans_of (Quiet {operation}) (insertOperation_quiet hnone hinsert) (hrest db₁ h)
  · exact hrest db h

omit [DecidableEq δ] in
theorem registerEffect_quiet (now : Instant) (fence : Option Fence) (operation : String) (run execution : Uuid) :
    Tx.Keeps (Quiet ∅) (registerEffect now fence operation run execution : RecordTx δ Unit) := by
  refine Tx.Keeps.bind ((assertFence_beside _ _).mono Beside.quiet) fun _ => ?_
  intro db v db' h
  rw [Tx.bind_query_ok, Tx.bind_check_ok] at h
  exact insertOperation_quiet h.1 h.2

theorem ReceiptStep.recorded (h : ReceiptStep resultDigest U db db') (hw : Recorded db) : Recorded db' := by
  cases h with
  | call c _ => exact (c.effect_of resultDigest hw).recorded hw
  | enqueue clock fence operation run operationType ref payload _ =>
      exact hw.quiet ((enqueueOperation_quiet resultDigest clock fence operation run operationType ref payload).commit db)
  | effect now fence operation run execution => exact hw.quiet ((registerEffect_quiet now fence operation run execution).commit db)
  | surroundings base sessions _ =>
      exact hw.quiet (S := ∅) ⟨Moves.of_operations rfl, fun _ h => .inl h, rfl, rfl⟩

theorem Later.recorded (h : Later resultDigest U db db') (hw : Recorded db) : Recorded db' := by
  induction h with
  | refl => exact hw
  | tail _ hstep ih => exact hstep.recorded resultDigest ih

theorem ReceiptReachable.recorded (h : ReceiptReachable resultDigest U db) : Recorded db := by
  obtain ⟨db₀, hfresh, hlater⟩ := h
  exact Later.recorded resultDigest hlater (Recorded.empty hfresh.2.2.2.1 hfresh.2.2.2.2)

end steps

/-! ### Completions -/

/-- The attempt of the token has a current receipt. -/
def CurrentOf (db : RecordStore δ) (operation : String) (token : ℕ) : Prop :=
  ∃ a r, db.attempts.lookup (operation, token) = some a ∧ db.receipts.lookup (operation, a.attemptNo) = some r ∧
    r.disposition = .current

/-- The surroundings are the same, and no operation is completed. -/
structure Opens (db db' : RecordStore δ) : Prop where
  base : db'.base = db.base
  completed : ∀ operation, Completed db' operation → Completed db operation
  moves : Moves db db'

instance : IsPreorder (RecordStore δ) Opens where
  refl db := ⟨rfl, fun _ h => h, refl_of Moves db⟩
  trans _ _ _ h h' := ⟨h'.base.trans h.base, fun j hj => h.completed j (h'.completed j hj), trans_of Moves h.moves h'.moves⟩

/-- The call ended in `complete_operation`, after opening what it needed; or it appended nothing and completed
nothing. -/
def EndsIn (fence : Option Fence) (operation : String) (db db' : RecordStore δ) : Prop :=
  (∃ s clock ref payload, Opens db s ∧
      (completeOperation resultDigest clock fence operation ref payload).run s = .ok ((), db')) ∨
    Opens db db' ∧ db'.events = db.events

section completions

variable {U : Set String} {db db' : RecordStore δ} {operation : String}

omit [DecidableEq δ] in
theorem Opens.of_operations (hbase : db'.base = db.base) (hoperations : db'.operations = db.operations) : Opens db db' := by
  refine ⟨hbase, fun j => ?_, Moves.of_operations hoperations⟩
  rintro ⟨o, ho, hcompleted⟩
  rw [hoperations] at ho
  exact ⟨o, ho, hcompleted⟩

omit [DecidableEq δ] in
theorem updateOperation_opens {f : Operation → Operation} (hf : ∀ o, o.status ≠ .completed → (f o).status ≠ .completed) :
    Tx.Keeps Opens (updateOperation operation f : RecordTx δ Unit) := by
  intro db u db' h
  have hquiet := updateOperation_quiet (S := ∅) (fun o hopen hcompleted => absurd hcompleted (hf o hopen)) _ _ _ h
  refine ⟨?_, fun j hj => (hquiet.completes j hj).resolve_right (Set.notMem_empty _), hquiet.moves⟩
  rcases updateOperation_ok h with ⟨_, rfl⟩ | ⟨_, _, _, _, _, rfl⟩ <;> rfl

omit [DecidableEq δ] in
theorem registerAttempt_opens (fence : Option Fence) :
    Tx.Keeps Opens (registerAttempt operation fence : RecordTx δ Unit) := by
  intro db u db' h
  rcases registerAttempt_ok h with ⟨rfl, _⟩ | ⟨_, _, _, _, _, _, _, rfl⟩
  · exact refl_of Opens _
  · exact .of_operations rfl rfl

omit [DecidableEq δ] in
theorem insertEvent_opens (transcript : String) (sequence : ℕ) (ev : TranscriptEvent) :
    Tx.Keeps Opens (insertEvent transcript sequence ev : RecordTx δ Unit) := by
  intro db u db' h
  obtain ⟨_, _, _, _, _, _, rfl⟩ := insertEvent_ok h
  exact .of_operations rfl rfl

omit [DecidableEq δ] in
theorem setVersion_opens (transcript : String) (version : ℕ) :
    Tx.Keeps Opens (setVersion transcript version : RecordTx δ Unit) :=
  Tx.Keeps.update fun _ => .of_operations rfl rfl

omit [DecidableEq δ] in
theorem lockTranscript_opens (i : TranscriptInput) :
    Tx.Keeps Opens (lockTranscript i : RecordTx δ (String × Transcript)) := by
  refine (Tx.Keeps.query _).bind fun found => ?_
  cases found with
  | some e => exact Tx.Keeps.pure _
  | none =>
      refine (Tx.Keeps.query _).bind fun _ => (Tx.Keeps.check _ _).bind fun _ =>
        Tx.Keeps.bind (Tx.Keeps.update fun _ => ?_) fun _ => Tx.Keeps.pure _
      exact .of_operations rfl rfl

/-- A completion under a fence leaves the current receipt of its attempt, unless the operation was completed. -/
theorem completeOperation_currentOf {f : Fence} {ref : String} {payload : Payload} {u : Unit}
    (h : (completeOperation resultDigest clock (some f) operation ref payload).run db = .ok (u, db')) :
    Completed db operation ∨ CurrentOf db' operation f.token := by
  obtain ⟨_, _, o, ho, ⟨hcompleted, _⟩ | ⟨_, v, db₁, hreceipt, rfl⟩⟩ := completeOperation_parts resultDigest h
  · exact .inl ⟨o, ho, hcompleted⟩
  · obtain ⟨a, r, ha, hr, hcurrent, _, hdone⟩ := receiptOf_ok resultDigest hreceipt
    refine .inr ⟨a, r, ?_, hr, hcurrent⟩
    rcases hdone with rfl | ⟨_, _, rfl⟩
    · exact ha
    · exact ha

theorem createTranscript_ends {fence : Option Fence} {i : TranscriptInput} {n : ℕ}
    (h : (createTranscript resultDigest clock fence i).run db = .ok (n, db')) :
    EndsIn resultDigest fence i.operationId db db' := by
  unfold createTranscript at h
  obtain ⟨_, _, hfence, h⟩ := Tx.bind_ok.mp h
  obtain ⟨rfl, _⟩ := assertFence_ok hfence
  rw [Tx.bind_query_ok, Tx.bind_query_ok, Tx.bind_ofExcept_ok] at h
  obtain ⟨_, _, h⟩ := h
  rw [Tx.bind_check_ok] at h
  obtain ⟨⟨transcript, t⟩, db₁, hlock, h⟩ := Tx.bind_ok.mp h.2
  have hopens := lockTranscript_opens _ _ _ _ hlock
  dsimp only at h
  split at h
  · obtain ⟨_, db₂, hinsert, h⟩ := Tx.bind_ok.mp h
    obtain ⟨_, db₃, hset, h⟩ := Tx.bind_ok.mp h
    obtain ⟨_, db₄, hcomplete, h⟩ := Tx.bind_ok.mp h
    obtain ⟨_, rfl⟩ := Tx.pure_ok.mp h
    have hinserted := insertEvent_opens _ _ _ _ _ _ hinsert
    have hversion := setVersion_opens _ _ _ _ _ hset
    exact .inl ⟨db₃, _, _, _, trans_of Opens hopens (trans_of Opens hinserted hversion), hcomplete⟩
  · obtain ⟨_, db₄, hcomplete, h⟩ := Tx.bind_ok.mp h
    obtain ⟨_, rfl⟩ := Tx.pure_ok.mp h
    exact .inl ⟨db₁, _, _, _, hopens, hcomplete⟩

theorem appendEvent_ends {fence : Option Fence} {i : AppendInput} {n : ℕ}
    (h : (appendEvent resultDigest clock fence i).run db = .ok (n, db')) :
    EndsIn resultDigest fence i.operationId db db' := by
  unfold appendEvent at h
  rw [Tx.bind_ok] at h
  obtain ⟨position, db₁, hposition, h⟩ := h
  obtain ⟨_, _, rfl, rfl, -⟩ | ⟨t, db₂, rfl, -, hinsert, hset⟩ := insertNext_ok hposition
  · obtain ⟨_, rfl⟩ := Tx.pure_ok.mp h
    exact .inr ⟨refl_of Opens _, rfl⟩
  · obtain ⟨_, db₄, hcomplete, h⟩ := Tx.bind_ok.mp h
    obtain ⟨_, rfl⟩ := Tx.pure_ok.mp h
    have hinserted := insertEvent_opens _ _ _ _ _ _ hinsert
    have hversion := setVersion_opens _ _ _ _ _ hset
    exact .inl ⟨db₁, _, _, _, trans_of Opens hinserted hversion, hcomplete⟩

theorem observe_ends {fence : Option Fence} {facts : Except Error Observed} {i : ObserveInput}
    {p : Payload} (h : (observe resultDigest clock fence facts i).run db = .ok (p, db')) :
    EndsIn resultDigest fence i.operationId db db' := by
  obtain ⟨-, _, -, ⟨-, rfl⟩ | ⟨-, t, f, r, db₁, db₂, db₃, db₄, -, rfl, hinsert, hset, hcount, hregister, hcomplete⟩⟩ :=
    observe_parts resultDigest h
  · exact .inr ⟨refl_of Opens _, rfl⟩
  · have hcounted : Opens db₂ db₃ := by
      unfold countAttempt at hcount
      split at hcount
      · obtain ⟨_, rfl⟩ := Tx.pure_ok.mp hcount
        exact refl_of Opens _
      · refine updateOperation_opens ?_ _ _ _ hcount
        exact fun _ hopen => hopen
    have hinserted := insertEvent_opens _ _ _ _ _ _ hinsert
    have hversion := setVersion_opens _ _ _ _ _ hset
    have hregistered := registerAttempt_opens _ _ _ _ hregister
    have hopens := trans_of Opens hinserted (trans_of Opens hversion (trans_of Opens hcounted hregistered))
    exact .inl ⟨db₄, _, _, _, hopens, hcomplete⟩

/-- A call that ended so completed its operation only with the current receipt of its fence. -/
theorem EndsIn.currentOf {f : Fence} (h : EndsIn resultDigest (some f) operation db db') (hopen : ¬Completed db operation)
    (hcompleted : Completed db' operation) : CurrentOf db' operation f.token := by
  rcases h with ⟨s, clock, ref, payload, hopens, hcomplete⟩ | ⟨hopens, _⟩
  · rcases completeOperation_currentOf resultDigest hcomplete with hwas | hcurrent
    · exact absurd (hopens.completed _ hwas) hopen
    · exact hcurrent
  · exact absurd (hopens.completed _ hcompleted) hopen

/-- A call that appended an event ran under a live fence of the operation's Execution. -/
theorem EndsIn.live {f : Fence} (h : EndsIn resultDigest (some f) operation db db') (hevents : db'.events ≠ db.events) :
    Live db.base f ∧ ∃ o, db'.operations.lookup operation = some o ∧ o.provenance.accountId = f.accountId ∧
      o.provenance.runId = f.runId ∧ o.provenance.executionId = f.executionId := by
  rcases h with ⟨s, clock, ref, payload, hopens, hcomplete⟩ | ⟨_, hsame⟩
  · obtain ⟨hpassed, howner, _⟩ := completeOperation_parts resultDigest hcomplete
    obtain ⟨o, ho, hids⟩ := howner f rfl
    obtain ⟨o', ho', hprovenance, _⟩ := (completeOperation_quiet resultDigest _ _ _ _ _ _ _ _ hcomplete).moves _ o ho
    rw [hopens.base] at hpassed
    rw [← hprovenance] at hids
    exact ⟨live_of_fence hpassed, o', ho', hids⟩
  · exact absurd hsame hevents

end completions

end HpAgent.Records
