import HpAgent.Records.TranscriptRuns

/-! # Attempts and their receipts

Every fenced entry of an operation registers its attempt under the fencing token, and every result of an attempt
is recorded once, as a receipt with the digest of its payload and whether the attempt still counted.

`Booked` is what holds of the attempts and receipts between the calls: attempts belong to the Execution of their
operation and never outrun its lease, and a completed operation either was completed by its latest attempt, with a
current receipt, or its Run or Execution is over.  `Filed` is what a call does to them: nothing is lost or
rewritten, and a receipt that is recorded as current is one of an attempt that produces (`Producing`).

* `Files`: both, as one preorder; each statement of the calls keeps it. -/

namespace HpAgent.Records

open Library

variable {δ : Type} {now : Instant}

/-! ### Who may produce -/

/-- The fence holds the lease of its Execution, which may execute for a Run that may execute. -/
structure Live (base : Authority) (f : Fence) : Prop where
  run : ∃ r, base.runs f.runId = some r ∧ r.status.executable = true
  execution : ∃ x, base.executions f.executionId = some x ∧ x.status.executable = true
  leased : ∃ l, base.leases f.executionId = some l ∧ l.fencingToken = f.token

/-- The Run or the Execution of an operation is over. -/
def Over (base : Authority) (p : Provenance) : Prop :=
  (∃ r, base.runs p.runId = some r ∧ r.status.executable = false) ∨
    ∃ x, base.executions p.executionId = some x ∧ x.status.executable = false

/-- What makes a receipt current: the attempt holds the lease at that instant, its account is active, its Run
executes, and the Work, if there is one, still names the Run at its revision and control epoch. -/
structure Producing (base : Authority) (now : Instant) (a : OperationAttempt) (token : ℕ) : Prop where
  active : base.accountActive a.accountId = true
  run : ∃ r, base.runs a.runId = some r ∧ r.status.executable = true ∧
    ∀ work revision epoch, r.source = .work work revision epoch →
      (base.works work).any (Authority.ownsProgression a.runId revision epoch) = true
  execution : ∃ x, base.executions a.executionId = some x ∧ x.status.executable = true
  leased : ∃ l, base.leases a.executionId = some l ∧ l.fencingToken = token ∧ now < l.leaseExpiresAt

/-- The rows of the surroundings are never deleted, a Run or an Execution that is over stays over, and tokens of
leases never fall. -/
structure Forward (a a' : Authority) : Prop where
  accounts : ∀ id, (a.accounts id).isSome = true → (a'.accounts id).isSome = true
  conversations : ∀ account c, a.conversations account c = true → a'.conversations account c = true
  works : ∀ id w, a.works id = some w → ∃ w', a'.works id = some w' ∧ w'.accountId = w.accountId
  runs : ∀ id r, a.runs id = some r → ∃ r', a'.runs id = some r' ∧ r'.accountId = r.accountId ∧
    r'.source = r.source ∧ (r.status.executable = false → r'.status.executable = false)
  executions : ∀ id x, a.executions id = some x → ∃ x', a'.executions id = some x' ∧ x'.accountId = x.accountId ∧
    x'.runId = x.runId ∧ (x.status.executable = false → x'.status.executable = false)
  leases : ∀ id l, a.leases id = some l → ∃ l', a'.leases id = some l' ∧ l.fencingToken ≤ l'.fencingToken

theorem Forward.refl (a : Authority) : Forward a a :=
  ⟨fun _ h => h, fun _ _ h => h, fun _ w h => ⟨w, h, rfl⟩, fun _ r h => ⟨r, h, rfl, rfl, id⟩,
    fun _ x h => ⟨x, h, rfl, rfl, id⟩, fun _ l h => ⟨l, h, le_refl _⟩⟩

theorem Forward.trans {a b c : Authority} (h : Forward a b) (h' : Forward b c) : Forward a c := by
  refine ⟨fun id hid => h'.accounts id (h.accounts id hid), fun _ _ hc => h'.conversations _ _ (h.conversations _ _ hc),
    fun id w hw => ?_, fun id r hr => ?_, fun id x hx => ?_, fun id l hl => ?_⟩
  · obtain ⟨w₁, hw₁, hsame₁⟩ := h.works id w hw
    obtain ⟨w₂, hw₂, hsame₂⟩ := h'.works id w₁ hw₁
    exact ⟨w₂, hw₂, hsame₂.trans hsame₁⟩
  · obtain ⟨r₁, hr₁, haccount₁, hsource₁, hover₁⟩ := h.runs id r hr
    obtain ⟨r₂, hr₂, haccount₂, hsource₂, hover₂⟩ := h'.runs id r₁ hr₁
    exact ⟨r₂, hr₂, haccount₂.trans haccount₁, hsource₂.trans hsource₁, fun hover => hover₂ (hover₁ hover)⟩
  · obtain ⟨x₁, hx₁, haccount₁, hrun₁, hover₁⟩ := h.executions id x hx
    obtain ⟨x₂, hx₂, haccount₂, hrun₂, hover₂⟩ := h'.executions id x₁ hx₁
    exact ⟨x₂, hx₂, haccount₂.trans haccount₁, hrun₂.trans hrun₁, fun hover => hover₂ (hover₁ hover)⟩
  · obtain ⟨l₁, hl₁, hle₁⟩ := h.leases id l hl
    obtain ⟨l₂, hl₂, hle₂⟩ := h'.leases id l₁ hl₁
    exact ⟨l₂, hl₂, le_trans hle₁ hle₂⟩

theorem Over.forward {a a' : Authority} {p : Provenance} (h : Over a p) (hf : Forward a a') : Over a' p := by
  rcases h with ⟨r, hr, hover⟩ | ⟨x, hx, hover⟩
  · obtain ⟨r', hr', _, _, hkept⟩ := hf.runs _ r hr
    exact .inl ⟨r', hr', hkept hover⟩
  · obtain ⟨x', hx', _, _, hkept⟩ := hf.executions _ x hx
    exact .inr ⟨x', hx', hkept hover⟩

theorem Live.not_over {base : Authority} {f : Fence} {p : Provenance} (h : Live base f) (hrun : p.runId = f.runId)
    (hexecution : p.executionId = f.executionId) : ¬Over base p := by
  rintro (⟨r, hr, hover⟩ | ⟨x, hx, hover⟩)
  · obtain ⟨r', hr', hexecutable⟩ := h.run
    rw [hrun, hr'] at hr
    obtain rfl := Option.some.inj hr
    rw [hexecutable] at hover
    cases hover
  · obtain ⟨x', hx', hexecutable⟩ := h.execution
    rw [hexecution, hx'] at hx
    obtain rfl := Option.some.inj hx
    rw [hexecutable] at hover
    cases hover

/-- A fence that passed its check is live. -/
theorem live_of_fence {a : Authority} {f : Fence} (h : a.assertExecutionFence now (some f) = .ok ()) :
    Live a f := by
  obtain ⟨⟨r, hr⟩, ⟨x, hx, _, _, hexecutable⟩, l, hl, htoken, _⟩ := Authority.assertExecutionFence_found h
  obtain ⟨hrow, _, _, hrun, _⟩ := Authority.requireActiveRun_ok hr
  exact ⟨⟨r, hrow, hrun⟩, ⟨x, hx, hexecutable⟩, l, hl, htoken⟩

/-! ### Two more transactions -/

section digests

variable [DecidableEq δ] (resultDigest : Payload → δ)

/-- The operation of a notification or a reminder: inserted when there is none, its attempt registered and its
result recorded in one transaction. -/
def enqueueOperation (clock : Readings) (fence : Option Fence) (operation : String) (run : Uuid)
    (operationType ref : String) (payload : Payload) : RecordTx δ Unit := do
  let found ← Tx.query fun db => db.operations.lookup operation
  match found with
  | none => insertOperation operation run operationType none
  | some _ => pure ()
  registerAttempt operation fence
  completeOperation resultDigest clock fence operation ref payload

end digests

/-- `EffectService.register` of an effect key that is new; of a known one it changes none of these rows. -/
def registerEffect (now : Instant) (fence : Option Fence) (operation : String) (run : Uuid) (execution : Uuid) :
    RecordTx δ Unit := do
  assertFence now fence
  let found ← Tx.query fun db => db.operations.lookup operation
  Tx.check (found = none) .integrityError
  insertOperation operation run "tool" (some execution)

/-! ### What holds between the calls -/

/-- No attempt of the operation has a larger token. -/
def Latest (db : RecordStore δ) (operation : String) (token : ℕ) : Prop :=
  ∀ t a, db.attempts.lookup (operation, t) = some a → t ≤ token

/-- The attempts and receipts of a store in which the operations of `U` are run without a fence. -/
structure Booked (U : Set String) (db : RecordStore δ) : Prop where
  owned : ∀ operation t a, db.attempts.lookup (operation, t) = some a → operation ∉ U ∧
    ∃ o, db.operations.lookup operation = some o ∧ a.accountId = o.provenance.accountId ∧
      a.runId = o.provenance.runId ∧ a.executionId = o.provenance.executionId
  single : ∀ operation t t' a a', db.attempts.lookup (operation, t) = some a →
    db.attempts.lookup (operation, t') = some a' → a.attemptNo = a'.attemptNo → t = t'
  leased : ∀ operation t a, db.attempts.lookup (operation, t) = some a →
    ∃ l, db.base.leases a.executionId = some l ∧ t ≤ l.fencingToken
  counted : ∀ operation t a o, db.attempts.lookup (operation, t) = some a →
    db.operations.lookup operation = some o →
      ∃ t' a', db.attempts.lookup (operation, t') = some a' ∧ a'.attemptNo = o.attemptCount
  produced : ∀ operation n r, db.receipts.lookup (operation, n) = some r →
    ∃ t a, db.attempts.lookup (operation, t) = some a ∧ a.attemptNo = n
  closed : ∀ operation o, operation ∉ U → db.operations.lookup operation = some o → o.status = .completed →
    (∃ t a, db.attempts.lookup (operation, t) = some a) ∧
      (Over db.base o.provenance ∨ ∃ t a r, db.attempts.lookup (operation, t) = some a ∧ Latest db operation t ∧
        db.receipts.lookup (operation, a.attemptNo) = some r ∧ r.disposition = .current)

/-- What a call does: attempts and receipts are never lost or rewritten, operations move, and a new current receipt
is one of a producing attempt of an open operation. -/
structure Filed (db db' : RecordStore δ) : Prop where
  base : db'.base = db.base
  attempts : ∀ k a, db.attempts.lookup k = some a → db'.attempts.lookup k = some a
  receipts : ∀ k r, db.receipts.lookup k = some r → db'.receipts.lookup k = some r
  moves : Moves db db'
  current : ∀ operation n r, db.receipts.lookup (operation, n) = none → db'.receipts.lookup (operation, n) = some r →
    r.disposition = .current → ¬Completed db operation ∧
      ∃ t a now, db'.attempts.lookup (operation, t) = some a ∧ a.attemptNo = n ∧ Producing db'.base now a t

instance : IsPreorder (RecordStore δ) Filed where
  refl db := by
    refine ⟨rfl, fun _ _ h => h, fun _ _ h => h, refl_of Moves db, fun operation n r hnone hr => ?_⟩
    rw [hnone] at hr
    cases hr
  trans a b c h h' := by
    refine ⟨h'.base.trans h.base, fun k x hx => h'.attempts k x (h.attempts k x hx),
      fun k x hx => h'.receipts k x (h.receipts k x hx), trans_of Moves h.moves h'.moves, fun operation n r hnone hr hcurrent => ?_⟩
    cases hmid : b.receipts.lookup (operation, n) with
    | some r₁ =>
        have hsame := h'.receipts _ r₁ hmid
        obtain rfl := Option.some.inj (hr.symm.trans hsame)
        obtain ⟨hopen, t, x, now, hx, hno, hproducing⟩ := h.current operation n r hnone hmid hcurrent
        refine ⟨hopen, t, x, now, h'.attempts _ x hx, hno, ?_⟩
        rw [h'.base]
        exact hproducing
    | none =>
        obtain ⟨hopen, hrest⟩ := h'.current operation n r hmid hr hcurrent
        exact ⟨fun hcompleted => hopen (hcompleted.moves h.moves), hrest⟩

/-- Booked stores stay booked, and the call files. -/
def Files (U : Set String) (db db' : RecordStore δ) : Prop := Booked U db → Booked U db' ∧ Filed db db'

instance (U : Set String) : IsPreorder (RecordStore δ) (Files U) where
  refl db h := ⟨h, refl_of Filed db⟩
  trans _ _ _ h h' hb := by
    obtain ⟨hb₁, hfiled₁⟩ := h hb
    obtain ⟨hb₂, hfiled₂⟩ := h' hb₁
    exact ⟨hb₂, trans_of Filed hfiled₁ hfiled₂⟩

/-! ### The statements -/

section statements

variable {db db' : RecordStore δ} {operation : String} {u : Unit}

/-- An attempt is registered under a new token with a new number, or was registered before. -/
theorem registerAttempt_ok {fence : Option Fence} (h : (registerAttempt operation fence).run db = .ok (u, db')) :
    db' = db ∧ (∀ f ∈ fence, (db.attempts.lookup (operation, f.token)).isSome = true) ∨
      ∃ f o, fence = some f ∧ db.operations.lookup operation = some o ∧ db.attempts.lookup (operation, f.token) = none ∧
        (∀ t a, db.attempts.lookup (operation, t) = some a → a.attemptNo ≠ o.attemptCount) ∧
        (o.provenance.accountId = f.accountId ∧ o.provenance.runId = f.runId ∧
          o.provenance.executionId = f.executionId) ∧
        db' = { db with
                attempts := db.attempts.insert (operation, f.token)
                  ⟨f.accountId, f.runId, f.executionId, o.attemptCount, s!"operation:{operation}"⟩ } := by
  cases fence with
  | none =>
      obtain ⟨_, rfl⟩ := Tx.pure_ok.mp h
      exact .inl ⟨rfl, nofun⟩
  | some f =>
      unfold registerAttempt at h
      rw [Tx.bind_query_ok, Tx.bind_demand_ok] at h
      obtain ⟨o, ho, h⟩ := h
      unfold insertAttempt at h
      rw [Tx.bind_query_ok] at h
      split at h
      · next a ha =>
          obtain ⟨_, rfl⟩ := Tx.pure_ok.mp h
          refine .inl ⟨rfl, fun f' hf' => ?_⟩
          obtain rfl := Option.some.inj hf'
          rw [ha]
          rfl
      · next hnone =>
          rw [Tx.bind_query_ok, Tx.bind_check_ok, Tx.update_ok] at h
          obtain ⟨⟨htaken, _, hids⟩, rfl⟩ := h
          refine .inr ⟨f, o, rfl, ho, hnone, fun t a ha hno => ?_, hids, rfl⟩
          rw [List.any_eq_false] at htaken
          exact htaken ⟨(operation, t), a⟩ (AList.mem_lookup_iff.mp ha) (by simpa using hno)

/-- What the trigger asks of a current receipt. -/
theorem receiptAllowed_current {a : Authority} {o : Operation} {token : ℕ} {attempt : OperationAttempt}
    {r : Receipt δ} (h : receiptAllowed a now o token attempt r = .ok ()) (hcurrent : r.disposition = .current) :
    a.accountActive o.provenance.accountId = true ∧
      (∃ run, a.runs o.provenance.runId = some run ∧ run.status.executable = true ∧
        ∀ work revision epoch, run.source = .work work revision epoch →
          (a.works work).any (Authority.ownsProgression o.provenance.runId revision epoch) = true) ∧
      ∃ l, a.leases o.provenance.executionId = some l ∧ l.fencingToken = token ∧ now < l.leaseExpiresAt := by
  unfold receiptAllowed at h
  rw [if_pos hcurrent] at h
  split at h
  · split at h
    · cases h
    · next run hrun =>
        split at h
        · next hlive =>
            obtain ⟨hexecutable, hactive, hheld⟩ := hlive
            refine ⟨hactive, ⟨run, hrun, hexecutable, fun work revision epoch hsource => ?_⟩, ?_⟩
            · rw [hsource] at h
              dsimp only at h
              split at h
              · assumption
              · cases h
            · cases hl : a.leases o.provenance.executionId with
              | none =>
                  rw [hl] at hheld
                  cases hheld
              | some l =>
                  rw [hl, Option.any_some] at hheld
                  exact ⟨l, rfl, of_decide_eq_true hheld⟩
        · cases h
  · cases h

theorem insertReceipt_ok {o : Operation} {token : ℕ} {attempt : OperationAttempt} {r : Receipt δ}
    (h : (insertReceipt now operation o token attempt r).run db = .ok (u, db')) :
    receiptAllowed db.base now o token attempt r = .ok () ∧ db.receipts.lookup (operation, attempt.attemptNo) = none ∧
      db' = { db with receipts := db.receipts.insert (operation, attempt.attemptNo) r } := by
  unfold insertReceipt at h
  rw [Tx.bind_query_ok, Tx.bind_ofExcept_ok] at h
  obtain ⟨_, hallowed, h⟩ := h
  rw [Tx.bind_query_ok, Tx.bind_check_ok, Tx.update_ok] at h
  obtain ⟨htaken, rfl⟩ := h
  exact ⟨hallowed, Option.isSome_eq_false_iff.mp htaken |> Option.isNone_iff_eq_none.mp, rfl⟩

theorem insertOperation_ok {operationType : String} {run : Uuid} {execution : Option Uuid}
    (h : (insertOperation operation run operationType execution).run db = .ok (u, db')) :
    ∃ o : Operation, o.status = .started ∧ o.attemptCount = 1 ∧
      db' = { db with operations := db.operations.insert operation o } := by
  unfold insertOperation at h
  rw [Tx.bind_query_ok, Tx.bind_demand_ok] at h
  obtain ⟨r, _, h⟩ := h
  rw [Tx.bind_query_ok, Tx.bind_demand_ok] at h
  obtain ⟨x, _, h⟩ := h
  rw [Tx.bind_check_ok, Tx.update_ok] at h
  obtain ⟨_, rfl⟩ := h
  exact ⟨_, rfl, rfl, rfl⟩

end statements

/-! ### What one change of the rows keeps -/

section changes

variable {U : Set String} {db db' : RecordStore δ} {operation : String}

/-- Transcripts and events do not matter. -/
theorem files_aside (hbase : db'.base = db.base) (hoperations : db'.operations = db.operations)
    (hattempts : db'.attempts = db.attempts) (hreceipts : db'.receipts = db.receipts) : Files U db db' := by
  intro hb
  constructor
  · constructor
    · rw [hattempts, hoperations]
      exact hb.owned
    · rw [hattempts]
      exact hb.single
    · rw [hattempts, hbase]
      exact hb.leased
    · rw [hattempts, hoperations]
      exact hb.counted
    · rw [hattempts, hreceipts]
      exact hb.produced
    · unfold Latest
      rw [hattempts, hoperations, hreceipts, hbase]
      exact hb.closed
  · refine ⟨hbase, fun k a ha => ?_, fun k r hr => ?_, Moves.of_operations hoperations, fun j n r hnone hr => ?_⟩
    · rw [hattempts]
      exact ha
    · rw [hreceipts]
      exact hr
    · rw [hreceipts, hnone] at hr
      cases hr

/-- A row is written over an open one or over none; its count moves only without attempts, and when it is completed
it was completed by the latest attempt, with a current receipt, or after its Run or Execution. -/
theorem files_row (o' : Operation)
    (hold : ∀ o, db.operations.lookup operation = some o → o.status ≠ .completed ∧ o'.provenance = o.provenance ∧
      (o'.attemptCount = o.attemptCount ∨ ∀ t, db.attempts.lookup (operation, t) = none))
    (hclosed : Booked U db → operation ∉ U → o'.status = .completed →
      (∃ t a, db.attempts.lookup (operation, t) = some a) ∧
        (Over db.base o'.provenance ∨ ∃ t a r, db.attempts.lookup (operation, t) = some a ∧ Latest db operation t ∧
          db.receipts.lookup (operation, a.attemptNo) = some r ∧ r.disposition = .current))
    (hbase : db'.base = db.base) (hoperations : db'.operations = db.operations.insert operation o')
    (hattempts : db'.attempts = db.attempts) (hreceipts : db'.receipts = db.receipts) : Files U db db' := by
  intro hb
  have hlookup : ∀ j, db'.operations.lookup j = if j = operation then some o' else db.operations.lookup j := by
    intro j
    rw [hoperations, Table.lookup_insert_ite]
  constructor
  · constructor
    · intro j t a ha
      rw [hattempts] at ha
      obtain ⟨hU, o, ho, howner⟩ := hb.owned j t a ha
      refine ⟨hU, ?_⟩
      rw [hlookup]
      split
      · next hj =>
          subst hj
          rw [← (hold o ho).2.1] at howner
          exact ⟨o', rfl, howner⟩
      · exact ⟨o, ho, howner⟩
    · rw [hattempts]
      exact hb.single
    · rw [hattempts, hbase]
      exact hb.leased
    · intro j t a r ha hr
      rw [hattempts] at ha ⊢
      rw [hlookup] at hr
      split at hr
      · next hj =>
          subst hj
          obtain rfl := Option.some.inj hr
          obtain ⟨_, o, ho, _⟩ := hb.owned j t a ha
          rcases (hold o ho).2.2 with hcount | hnone
          · obtain ⟨t', a', ha', hno⟩ := hb.counted j t a o ha ho
            exact ⟨t', a', ha', hno.trans hcount.symm⟩
          · rw [hnone t] at ha
            cases ha
      · exact hb.counted j t a r ha hr
    · rw [hattempts, hreceipts]
      exact hb.produced
    · intro j r hU hr hcompleted
      unfold Latest
      rw [hattempts, hreceipts, hbase]
      rw [hlookup] at hr
      split at hr
      · next hj =>
          subst hj
          obtain rfl := Option.some.inj hr
          exact hclosed hb hU hcompleted
      · exact hb.closed j r hU hr hcompleted
  · refine ⟨hbase, fun k a ha => ?_, fun k r hr => ?_, ?_, fun j n r hnone hr => ?_⟩
    · rw [hattempts]
      exact ha
    · rw [hreceipts]
      exact hr
    · intro j o ho
      rw [hlookup]
      split
      · next hj =>
          subst hj
          obtain ⟨hwas, hprovenance, _⟩ := hold o ho
          exact ⟨o', rfl, hprovenance, fun hcompleted => absurd hcompleted hwas⟩
      · exact ⟨o, ho, rfl, fun _ => rfl⟩
    · rw [hreceipts, hnone] at hr
      cases hr

/-- An open row is written over an open one or over none. -/
theorem files_write (o' : Operation)
    (hold : ∀ o, db.operations.lookup operation = some o → o.status ≠ .completed ∧ o'.provenance = o.provenance ∧
      (o'.attemptCount = o.attemptCount ∨ ∀ t, db.attempts.lookup (operation, t) = none))
    (hopen : o'.status ≠ .completed) :
    Files U db { db with operations := db.operations.insert operation o' } :=
  files_row _ hold (fun _ _ hcompleted => absurd hcompleted hopen) rfl rfl rfl rfl

/-- A new attempt of an open operation is registered, under the live fence of its Execution and with its count. -/
theorem files_enroll {f : Fence} {ref : String} (o' : Operation) (hlive : Live db.base f) (hfenced : operation ∉ U)
    (hold : ∀ o, db.operations.lookup operation = some o → o.status ≠ .completed ∧ o'.provenance = o.provenance)
    (hopen : o'.status ≠ .completed) (hnew : db.attempts.lookup (operation, f.token) = none)
    (hnumber : ∀ t a, db.attempts.lookup (operation, t) = some a → a.attemptNo ≠ o'.attemptCount)
    (howner : o'.provenance.accountId = f.accountId ∧ o'.provenance.runId = f.runId ∧
      o'.provenance.executionId = f.executionId)
    (hbase : db'.base = db.base)
    (hoperations : ∀ j, db'.operations.lookup j = if j = operation then some o' else db.operations.lookup j)
    (hattempts : db'.attempts = db.attempts.insert (operation, f.token)
      ⟨f.accountId, f.runId, f.executionId, o'.attemptCount, ref⟩)
    (hreceipts : db'.receipts = db.receipts) : Files U db db' := by
  intro hb
  have hlookup : ∀ k, db'.attempts.lookup k = if k = (operation, f.token)
      then some ⟨f.accountId, f.runId, f.executionId, o'.attemptCount, ref⟩ else db.attempts.lookup k := by
    intro k
    rw [hattempts, Table.lookup_insert_ite]
  have hkept : ∀ k a, db.attempts.lookup k = some a → db'.attempts.lookup k = some a := by
    intro k a ha
    rw [hlookup, if_neg]
    · exact ha
    · rintro rfl
      rw [hnew] at ha
      cases ha
  obtain ⟨haccount, hrun, hexecution⟩ := howner
  constructor
  · constructor
    · intro j t a ha
      rw [hlookup] at ha
      split at ha
      · next hk =>
          obtain ⟨rfl, rfl⟩ := Prod.mk.inj hk
          obtain rfl := Option.some.inj ha
          refine ⟨hfenced, o', ?_, haccount.symm, hrun.symm, hexecution.symm⟩
          rw [hoperations, if_pos rfl]
      · obtain ⟨hU, o, ho, hids⟩ := hb.owned j t a ha
        refine ⟨hU, ?_⟩
        rw [hoperations]
        split
        · next hj =>
            subst hj
            rw [← (hold o ho).2] at hids
            exact ⟨o', rfl, hids⟩
        · exact ⟨o, ho, hids⟩
    · intro j t t' a a' ha ha' hno
      rw [hlookup] at ha ha'
      split at ha
      · next hk =>
          obtain ⟨rfl, rfl⟩ := Prod.mk.inj hk
          obtain rfl := Option.some.inj ha
          split at ha'
          · next hk' => exact (Prod.mk.inj hk').2.symm
          · exact absurd hno.symm (hnumber t' a' ha')
      · split at ha'
        · next hk' =>
            obtain ⟨rfl, rfl⟩ := Prod.mk.inj hk'
            obtain rfl := Option.some.inj ha'
            exact absurd hno (hnumber t a ha)
        · exact hb.single j t t' a a' ha ha' hno
    · intro j t a ha
      rw [hbase]
      rw [hlookup] at ha
      split at ha
      · next hk =>
          obtain ⟨rfl, rfl⟩ := Prod.mk.inj hk
          obtain rfl := Option.some.inj ha
          obtain ⟨l, hl, htoken⟩ := hlive.leased
          exact ⟨l, hl, htoken.ge⟩
      · exact hb.leased j t a ha
    · intro j t a r ha hr
      rw [hoperations] at hr
      split at hr
      · next hj =>
          obtain rfl := Option.some.inj hr
          refine ⟨f.token, ⟨f.accountId, f.runId, f.executionId, o'.attemptCount, ref⟩, ?_, rfl⟩
          rw [hlookup, if_pos (by rw [hj])]
      · next hj =>
          rw [hlookup, if_neg (by rintro hk; exact hj (Prod.mk.inj hk).1)] at ha
          obtain ⟨t', a', ha', hno⟩ := hb.counted j t a r ha hr
          exact ⟨t', a', hkept _ _ ha', hno⟩
    · intro j n r hr
      rw [hreceipts] at hr
      obtain ⟨t, a, ha, hno⟩ := hb.produced j n r hr
      exact ⟨t, a, hkept _ _ ha, hno⟩
    · intro j r hU hr hcompleted
      rw [hoperations] at hr
      split at hr
      · obtain rfl := Option.some.inj hr
        exact absurd hcompleted hopen
      · next hj =>
          have hsame : ∀ t, db'.attempts.lookup (j, t) = db.attempts.lookup (j, t) := by
            intro t
            rw [hlookup, if_neg (by rintro hk; exact hj (Prod.mk.inj hk).1)]
          unfold Latest
          simp only [hsame, hreceipts, hbase]
          exact hb.closed j r hU hr hcompleted
  · refine ⟨hbase, hkept, fun k r hr => ?_, ?_, fun j n r hnone hr => ?_⟩
    · rw [hreceipts]
      exact hr
    · intro j o ho
      rw [hoperations]
      split
      · next hj =>
          subst hj
          obtain ⟨hwas, hprovenance⟩ := hold o ho
          exact ⟨o', rfl, hprovenance, fun hcompleted => absurd hcompleted hwas⟩
      · exact ⟨o, ho, rfl, fun _ => rfl⟩
    · rw [hreceipts, hnone] at hr
      cases hr

/-- A receipt is recorded for a registered attempt. -/
theorem files_receive {t : ℕ} {a : OperationAttempt} {r : Receipt δ} (ha : db.attempts.lookup (operation, t) = some a)
    (hnone : db.receipts.lookup (operation, a.attemptNo) = none)
    (hcurrent : Booked U db → r.disposition = .current →
      ¬Completed db operation ∧ ∃ now, Producing db.base now a t)
    (hbase : db'.base = db.base) (hoperations : db'.operations = db.operations)
    (hattempts : db'.attempts = db.attempts)
    (hreceipts : db'.receipts = db.receipts.insert (operation, a.attemptNo) r) : Files U db db' := by
  intro hb
  have hlookup : ∀ k, db'.receipts.lookup k = if k = (operation, a.attemptNo) then some r else db.receipts.lookup k := by
    intro k
    rw [hreceipts, Table.lookup_insert_ite]
  have hkept : ∀ k r, db.receipts.lookup k = some r → db'.receipts.lookup k = some r := by
    intro k r₀ hr
    rw [hlookup, if_neg]
    · exact hr
    · rintro rfl
      rw [hnone] at hr
      cases hr
  constructor
  · constructor
    · rw [hattempts, hoperations]
      exact hb.owned
    · rw [hattempts]
      exact hb.single
    · rw [hattempts, hbase]
      exact hb.leased
    · rw [hattempts, hoperations]
      exact hb.counted
    · intro j n r' hr
      rw [hattempts]
      rw [hlookup] at hr
      split at hr
      · next hk =>
          obtain ⟨rfl, rfl⟩ := Prod.mk.inj hk
          exact ⟨t, a, ha, rfl⟩
      · exact hb.produced j n r' hr
    · intro j o hU ho hcompleted
      rw [hoperations] at ho
      obtain ⟨hsome, hover | ⟨t', a', r', ha', hlatest, hr', hr'current⟩⟩ := hb.closed j o hU ho hcompleted
      · rw [hattempts, hbase]
        exact ⟨hsome, .inl hover⟩
      · unfold Latest at hlatest ⊢
        rw [hattempts]
        exact ⟨hsome, .inr ⟨t', a', r', ha', hlatest, hkept _ _ hr', hr'current⟩⟩
  · refine ⟨hbase, fun k x hx => ?_, hkept, Moves.of_operations hoperations, fun j n r' hbefore hr hr'current => ?_⟩
    · rw [hattempts]
      exact hx
    · rw [hlookup] at hr
      split at hr
      · next hk =>
          obtain ⟨rfl, rfl⟩ := Prod.mk.inj hk
          obtain rfl := Option.some.inj hr
          obtain ⟨hopen, now, hproducing⟩ := hcurrent hb hr'current
          refine ⟨hopen, t, a, now, ?_, rfl, ?_⟩
          · rw [hattempts]
            exact ha
          · rw [hbase]
            exact hproducing
      · rw [hbefore] at hr
        cases hr

end changes

end HpAgent.Records
