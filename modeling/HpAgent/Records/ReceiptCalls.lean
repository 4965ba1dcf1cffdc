import HpAgent.Records.Receipts

/-! # Every call files its receipts

* `completeOperation_parts`, `receive_parts`: what the two calls that record receipts did.
* `Booked.open_of_producing`: a producing attempt without a receipt works on an open operation.
* `beginOperation_files`, `completeOperation_files`, `receive_files`, `createTranscript_files`, `appendEvent_files`,
  `observe_files`, `enqueueOperation_files`: each call keeps `Files`. -/

namespace HpAgent.Records

open Library

variable {δ : Type}

/-! ### The calls -/

section calls

variable {U : Set String} {db db' : RecordStore δ} {operation : String} {u : Unit}

/-- An update that neither completes the operation nor counts an attempt. -/
theorem updateOperation_files {f : Operation → Operation}
    (hf : ∀ o, o.status ≠ .completed → (f o).status ≠ .completed ∧ (f o).attemptCount = o.attemptCount) :
    Tx.Keeps (Files U) (updateOperation operation f : RecordTx δ Unit) := by
  intro db u db' h
  rcases updateOperation_ok h with ⟨_, rfl⟩ | ⟨o, ho, hopen, hprovenance, _, rfl⟩
  · exact refl_of (Files U) _
  · refine files_write _ (fun o₀ ho₀ => ?_) (hf o hopen).1
    obtain rfl := Option.some.inj (ho.symm.trans ho₀)
    exact ⟨hopen, hprovenance, .inl (hf o hopen).2⟩

theorem assertFence_files (now : Instant) (fence : Option Fence) :
    Tx.Keeps (Files U) (assertFence now fence : RecordTx δ Unit) := by
  intro db u db' h
  obtain ⟨rfl, _⟩ := assertFence_ok h
  exact refl_of (Files U) _

theorem requireOwnedOperation_files (fence : Option Fence) (operation : String) :
    Tx.Keeps (Files U) (requireOwnedOperation fence operation : RecordTx δ Unit) := by
  intro db u db' h
  obtain ⟨rfl, _⟩ := requireOwnedOperation_ok h
  exact refl_of (Files U) _

/-- The calls that change the status of a fenced operation. -/
theorem guarded_files (now : Instant) (fence : Option Fence) (operation : String)
    {rest : Option Operation → RecordTx δ Unit} (hrest : ∀ found, Tx.Keeps (Files U) (rest found)) :
    Tx.Keeps (Files U) (do
      assertFence now fence
      requireOwnedOperation fence operation
      let found ← Tx.query fun db => db.operations.lookup operation
      rest found : RecordTx δ Unit) :=
  (assertFence_files _ _).bind fun _ => (requireOwnedOperation_files _ _).bind fun _ => (Tx.Keeps.query _).bind hrest

theorem failOperation_files (now : Instant) (fence : Option Fence) (operation errorCode : String) :
    Tx.Keeps (Files U) (failOperation now fence operation errorCode : RecordTx δ Unit) := by
  refine guarded_files _ _ _ fun found => ?_
  split
  · exact updateOperation_files fun _ _ => ⟨nofun, rfl⟩
  · exact Tx.Keeps.pure ()

theorem recordOperationIntent_files (now : Instant) (fence : Option Fence) (operation : String) (intent : Payload) :
    Tx.Keeps (Files U) (recordOperationIntent now fence operation intent : RecordTx δ Unit) :=
  guarded_files _ _ _ fun _ => (Tx.Keeps.check _ _).bind fun _ => updateOperation_files fun _ _ => ⟨nofun, rfl⟩

theorem markOperationUncertain_files (now : Instant) (fence : Option Fence) (operation errorCode : String) :
    Tx.Keeps (Files U) (markOperationUncertain now fence operation errorCode : RecordTx δ Unit) := by
  refine guarded_files _ _ _ fun found => ?_
  split
  · exact updateOperation_files fun _ _ => ⟨nofun, rfl⟩
  · exact Tx.Keeps.pure ()

/-- An open operation is entered: its row is written and the attempt of the fence registered. -/
theorem files_enter {fence : Option Fence} {v : Unit} (o' : Operation) (hlive : ∀ f ∈ fence, Live db.base f)
    (hfenced : fence.isSome = true ↔ operation ∉ U)
    (hold : ∀ o, db.operations.lookup operation = some o → o.status ≠ .completed ∧ o'.provenance = o.provenance ∧
      ((∃ f ∈ fence, (db.attempts.lookup (operation, f.token)).isSome = true) → o'.attemptCount = o.attemptCount))
    (hopen : o'.status ≠ .completed)
    (h : (registerAttempt operation fence).run { db with operations := db.operations.insert operation o' }
      = .ok (v, db')) : Files U db db' := by
  intro hb
  have hlookup : (db.operations.insert operation o').lookup operation = some o' := AList.lookup_insert _
  rcases registerAttempt_ok h with ⟨rfl, hregistered⟩ | ⟨f, o₁, rfl, ho₁, hnew, hnumber, howner, rfl⟩
  · refine files_write _ (fun o ho => ?_) hopen hb
    obtain ⟨hwas, hprovenance, hcount⟩ := hold o ho
    refine ⟨hwas, hprovenance, ?_⟩
    cases fence with
    | none =>
        right
        intro t
        by_contra hsome
        obtain ⟨a, ha⟩ := Option.ne_none_iff_exists'.mp hsome
        have hU := hfenced.mpr (hb.owned operation t a ha).1
        cases hU
    | some f => exact .inl (hcount ⟨f, rfl, hregistered f rfl⟩)
  · obtain rfl := Option.some.inj (hlookup.symm.trans ho₁)
    refine files_enroll (f := f) _ (hlive f rfl) (hfenced.mp rfl) (fun o ho => ?_) hopen hnew hnumber howner rfl
      (fun j => Table.lookup_insert_ite _ _ _ _) rfl rfl hb
    exact ⟨(hold o ho).1, (hold o ho).2.1⟩

/-- An attempt that holds the lease is the latest one. -/
theorem Booked.latest (hb : Booked U db) {t : ℕ} {a : OperationAttempt} {l : FenceLease}
    (ha : db.attempts.lookup (operation, t) = some a) (hl : db.base.leases a.executionId = some l)
    (htoken : l.fencingToken = t) : Latest db operation t := by
  intro t' a' ha'
  obtain ⟨_, o, ho, _, _, hexecution⟩ := hb.owned operation t a ha
  obtain ⟨_, o', ho', _, _, hexecution'⟩ := hb.owned operation t' a' ha'
  obtain rfl := Option.some.inj (ho.symm.trans ho')
  obtain ⟨l', hl', hle⟩ := hb.leased operation t' a' ha'
  rw [hexecution', ← hexecution, hl] at hl'
  obtain rfl := Option.some.inj hl'
  omega

theorem beginOperation_files (clock : Readings) (fence : Option Fence) (operation : String) (run : Uuid)
    (operationType : String) (allowUnresolved : Bool) (hfenced : fence.isSome = true ↔ operation ∉ U) :
    Tx.Keeps (Files U) (beginOperation clock fence operation run operationType allowUnresolved : RecordTx δ _) := by
  intro db p db' h
  unfold beginOperation at h
  rw [Tx.bind_ok] at h
  obtain ⟨_, _, hfence, h⟩ := h
  obtain ⟨rfl, hpassed⟩ := assertFence_ok hfence
  have hlive : ∀ f ∈ fence, Live db.base f := by
    rintro f rfl
    exact live_of_fence hpassed
  rw [Tx.bind_check_ok, Tx.bind_query_ok] at h
  obtain ⟨_, h⟩ := h
  split at h
  · next hnone =>
      obtain ⟨_, db₁, hinsert, h⟩ := Tx.bind_ok.mp h
      obtain ⟨_, _, hregister, h⟩ := Tx.bind_ok.mp h
      obtain ⟨_, rfl⟩ := Tx.pure_ok.mp h
      obtain ⟨o, hstarted, _, rfl⟩ := insertOperation_ok hinsert
      refine files_enter _ hlive hfenced (fun o₀ ho₀ => ?_) (by rw [hstarted]; intro hcompleted; cases hcompleted) hregister
      rw [hnone] at ho₀
      cases ho₀
  · next o ho =>
      obtain ⟨_, _, howned, h₁⟩ := Tx.bind_ok.mp h
      obtain ⟨rfl, _⟩ := requireOwnedOperation_ok howned
      rw [Tx.bind_check_ok] at h₁
      obtain ⟨_, h⟩ := h₁
      split at h
      · obtain ⟨_, rfl⟩ := Tx.pure_ok.mp h
        exact refl_of (Files U) _
      · next hwas =>
          rw [Tx.bind_check_ok, Tx.bind_query_ok] at h
          obtain ⟨_, h⟩ := h
          obtain ⟨_, db₁, hupdate, h⟩ := Tx.bind_ok.mp h
          obtain ⟨_, _, hregister, h⟩ := Tx.bind_ok.mp h
          obtain ⟨_, rfl⟩ := Tx.pure_ok.mp h
          rcases updateOperation_ok hupdate with ⟨hnone, _⟩ | ⟨o₁, ho₁, _, hprovenance, _, rfl⟩
          · rw [ho] at hnone
            cases hnone
          · obtain rfl := Option.some.inj (ho.symm.trans ho₁)
            refine files_enter _ hlive hfenced (fun o₀ ho₀ => ?_) (fun hcompleted => ?_) hregister
            · obtain rfl := Option.some.inj (ho.symm.trans ho₀)
              refine ⟨hwas, hprovenance, ?_⟩
              rintro ⟨f, hf, hregistered⟩
              obtain rfl := hf
              rw [Option.any_some, hregistered]
              unfold Operation.reentered
              dsimp only
              split <;> rfl
            · have hin : operation ∈ (∅ : Set String) := Operation.reentered_open _ o hwas hcompleted
              exact hin

section digests

variable [DecidableEq δ] (resultDigest : Payload → δ)

/-- After the receipt of a fenced attempt was settled, it is there and current. -/
theorem receiptOf_ok {now : Instant} {o : Operation} {payload : Payload} {f : Fence}
    (h : (receiptOf resultDigest now operation o payload (some f)).run db = .ok (u, db')) :
    ∃ a r, db.attempts.lookup (operation, f.token) = some a ∧
      db'.receipts.lookup (operation, a.attemptNo) = some r ∧ r.disposition = .current ∧ r.digest = resultDigest payload ∧
      (db' = db ∨ receiptAllowed db.base now o f.token a r = .ok () ∧
        db.receipts.lookup (operation, a.attemptNo) = none ∧
        db' = { db with receipts := db.receipts.insert (operation, a.attemptNo) r }) := by
  unfold receiptOf at h
  rw [Tx.bind_query_ok, Tx.bind_demand_ok] at h
  obtain ⟨a, ha, h⟩ := h
  rw [Tx.bind_query_ok] at h
  split at h
  · next r hr =>
      rw [Tx.bind_check_ok, Tx.check_ok] at h
      obtain ⟨hdigest, hcurrent, rfl⟩ := h
      exact ⟨a, r, ha, hr, hcurrent, hdigest, .inl rfl⟩
  · obtain ⟨hallowed, hnone, rfl⟩ := insertReceipt_ok h
    exact ⟨a, _, ha, AList.lookup_insert _, rfl, rfl, .inr ⟨hallowed, hnone, rfl⟩⟩

/-- What `complete_operation` did: it found the result, or the receipt of its attempt was settled and the operation
completed. -/
theorem completeOperation_parts {clock : Readings} {fence : Option Fence} {ref : String} {payload : Payload}
    (h : (completeOperation resultDigest clock fence operation ref payload).run db = .ok (u, db')) :
    db.base.assertExecutionFence (clock 0) fence = .ok () ∧
      (∀ f ∈ fence, ∃ o, db.operations.lookup operation = some o ∧ o.provenance.accountId = f.accountId ∧
        o.provenance.runId = f.runId ∧ o.provenance.executionId = f.executionId) ∧
      ∃ o, db.operations.lookup operation = some o ∧
        (o.status = .completed ∧ o.resultRef = some ref ∧ o.resultPayload = some payload ∧ db' = db ∨
          o.status ≠ .completed ∧ ∃ v db₁, (receiptOf resultDigest (clock 1) operation o payload fence).run db = .ok (v, db₁) ∧
            db' = { db₁ with operations := db₁.operations.insert operation (o.complete ref payload) }) := by
  unfold completeOperation at h
  rw [Tx.bind_ok] at h
  obtain ⟨_, _, hfence, h⟩ := h
  obtain ⟨rfl, hpassed⟩ := assertFence_ok hfence
  rw [Tx.bind_ok] at h
  obtain ⟨_, _, howned, h⟩ := h
  obtain ⟨rfl, howner⟩ := requireOwnedOperation_ok howned
  rw [Tx.bind_query_ok, Tx.bind_demand_ok] at h
  obtain ⟨o, ho, h⟩ := h
  refine ⟨hpassed, howner, o, ho, ?_⟩
  split at h
  · next hcompleted =>
      obtain ⟨⟨href, hpayload⟩, rfl⟩ := Tx.check_ok.mp h
      exact .inl ⟨hcompleted, href, hpayload, rfl⟩
  · next hopen =>
      obtain ⟨v, db₁, hreceipt, h⟩ := Tx.bind_ok.mp h
      refine .inr ⟨hopen, v, db₁, hreceipt, ?_⟩
      have hsame := (receiptOf_beside resultDigest _ _ _ _ _ _ _ _ hreceipt).operations
      rcases updateOperation_ok h with ⟨hnone, _⟩ | ⟨o₁, ho₁, _, _, _, rfl⟩
      · rw [hsame, ho] at hnone
        cases hnone
      · rw [hsame] at ho₁
        obtain rfl := Option.some.inj (ho.symm.trans ho₁)
        rfl

theorem completeOperation_files (clock : Readings) (fence : Option Fence) (operation ref : String) (payload : Payload)
    (hfenced : operation ∉ U → fence.isSome = true) :
    Tx.Keeps (Files U) (completeOperation resultDigest clock fence operation ref payload) := by
  intro db u db' h hb
  obtain ⟨hpassed, howner, o, ho, ⟨_, _, _, rfl⟩ | ⟨hopen, v, db₁, hreceipt, rfl⟩⟩ := completeOperation_parts resultDigest h
  · exact refl_of (Files U) _ hb
  cases fence with
  | none =>
      obtain ⟨_, rfl⟩ := Tx.pure_ok.mp hreceipt
      refine files_row (o.complete ref payload) (fun o₀ ho₀ => ?_) (fun _ hU _ => ?_) rfl rfl rfl rfl hb
      · obtain rfl := Option.some.inj (ho.symm.trans ho₀)
        exact ⟨hopen, rfl, .inl rfl⟩
      · cases hfenced hU
  | some f =>
      have hlive := live_of_fence hpassed
      obtain ⟨o₀, ho₀, haccount, hrun, hexecution⟩ := howner f rfl
      obtain rfl := Option.some.inj (ho.symm.trans ho₀)
      obtain ⟨a, r, ha, hr, hcurrent, _, hdone⟩ := receiptOf_ok resultDigest hreceipt
      obtain ⟨_, o₀, ho₀, hids⟩ := hb.owned operation f.token a ha
      obtain rfl := Option.some.inj (ho.symm.trans ho₀)
      -- the receipt is recorded first, for the attempt of the fence
      have hreceived : Files U db db₁ := by
        rcases hdone with rfl | ⟨hallowed, hnone, rfl⟩
        · exact refl_of (Files U) _
        · refine files_receive ha hnone (fun _ _ => ⟨?_, clock 1, ?_⟩) rfl rfl rfl rfl
          · rintro ⟨o₁, ho₁, hcompleted⟩
            obtain rfl := Option.some.inj (ho.symm.trans ho₁)
            exact hopen hcompleted
          · obtain ⟨hactive, hexecutes, hheld⟩ := receiptAllowed_current hallowed hcurrent
            rw [← hids.1] at hactive
            rw [← hids.2.1] at hexecutes
            rw [← hids.2.2] at hheld
            refine ⟨hactive, hexecutes, ?_, hheld⟩
            rw [hids.2.2, hexecution]
            exact hlive.execution
      obtain ⟨hb₁, hfiled₁⟩ := hreceived hb
      have ho₁ : db₁.operations.lookup operation = some o := by
        rw [(receiptOf_beside resultDigest _ _ _ _ _ _ _ _ hreceipt).operations]
        exact ho
      have hclose : Files U db₁ { db₁ with operations := db₁.operations.insert operation (o.complete ref payload) } := by
        refine files_row _ (fun o₂ ho₂ => ?_) (fun _ _ _ => ?_) rfl rfl rfl rfl
        · obtain rfl := Option.some.inj (ho₁.symm.trans ho₂)
          exact ⟨hopen, rfl, .inl rfl⟩
        · have ha₁ := hfiled₁.attempts _ a ha
          obtain ⟨l, hl, htoken⟩ := hlive.leased
          have hlatest : Latest db₁ operation f.token := by
            refine hb₁.latest ha₁ (l := l) ?_ htoken
            rw [hfiled₁.base, hids.2.2, hexecution]
            exact hl
          exact ⟨⟨f.token, a, ha₁⟩, .inr ⟨f.token, a, r, ha₁, hlatest, hr, hcurrent⟩⟩
      exact trans_of (Files U) hreceived hclose hb

omit [DecidableEq δ] in
theorem disposition_current {a : Authority} {now : Instant} {account run execution : Uuid} {token : ℕ} {r : Run}
    {x : HpAgent.Execution} (h : disposition a now account run execution token r x = .current) :
    r.status.executable = true ∧ x.status.executable = true := by
  unfold disposition at h
  extract_lets owner work stopped fenced held at h
  split at h
  · cases h
  · next hkeep =>
      rw [h] at hkeep
      cases hr : r.status.executable <;> cases hx : x.status.executable <;> simp [hr, hx] at hkeep ⊢

/-- A result that is retained is not current, and its Run or Execution is over. -/
theorem retained_over {d : Disposition} {r : Run} {x : HpAgent.Execution} {a : OperationAttempt} {o : Operation}
    (h : retained d r x a o = true) : d ≠ .current ∧ (r.status.executable = false ∨ x.status.executable = false) ∧
      a.attemptNo = o.attemptCount ∧ o.status ≠ .completed := by
  unfold retained at h
  simp only [Bool.and_eq_true, Bool.or_eq_true, decide_eq_true_eq] at h
  obtain ⟨⟨⟨hd, hover⟩, hno⟩, hopen⟩ := h
  refine ⟨hd, ?_, hno, hopen⟩
  rcases hover with (((h | h) | h) | h) | ((h | h) | h)
  iterate 4 exact .inl (by rw [h]; rfl)
  iterate 3 exact .inr (by rw [h]; rfl)

/-- What `receive` did: it found the receipt of the attempt, or recorded it and perhaps retained the result. -/
theorem receive_parts {clock : Readings} {account run execution : Uuid} {token : ℕ} {payload : Payload} {d : Disposition}
    (h : (receive resultDigest clock account run execution operation token payload).run db = .ok (d, db')) :
    ∃ r x a o, db.base.runs run = some r ∧ db.base.executions execution = some x ∧
      db.attempts.lookup (operation, token) = some a ∧ (a.accountId = account ∧ a.runId = run ∧ a.executionId = execution) ∧
      db.operations.lookup operation = some o ∧
      ((∃ receipt, db.receipts.lookup (operation, a.attemptNo) = some receipt ∧
          receipt.digest = resultDigest payload ∧ d = receipt.disposition ∧ db' = db) ∨
        ∃ receipt, db.receipts.lookup (operation, a.attemptNo) = none ∧ receipt.disposition = d ∧
          receipt.digest = resultDigest payload ∧
          (d = .current → r.status.executable = true ∧ x.status.executable = true) ∧
          receiptAllowed db.base (clock 1) o token a receipt = .ok () ∧
          (retained d r x a o = false ∧
              db' = { db with receipts := db.receipts.insert (operation, a.attemptNo) receipt } ∨
            retained d r x a o = true ∧
              db' = { db with
                      receipts := db.receipts.insert (operation, a.attemptNo) receipt
                      operations := db.operations.insert operation (o.complete a.receiptRef payload) })) := by
  unfold receive at h
  rw [Tx.bind_query_ok, Tx.bind_ofExcept_ok] at h
  obtain ⟨r, hlock, h⟩ := h
  rw [Tx.bind_query_ok, Tx.bind_ofExcept_ok] at h
  obtain ⟨⟨_, x⟩, hexecution, h⟩ := h
  rw [Tx.bind_query_ok, Tx.bind_demand_ok] at h
  obtain ⟨a, ha, h⟩ := h
  rw [Tx.bind_query_ok, Tx.bind_demand_ok] at h
  obtain ⟨o, ho, h⟩ := h
  rw [Tx.bind_query_ok, Tx.bind_query_ok] at h
  obtain ⟨hrow, hids⟩ := Option.filter_eq_some_iff.mp ha
  refine ⟨r, x, a, o, (Authority.lock_ok hlock).1, (Authority.lockExecution_ok hexecution).2.1, hrow, of_decide_eq_true hids,
    ho, ?_⟩
  split at h
  · next receipt hreceipt =>
      rw [Tx.bind_check_ok] at h
      obtain ⟨hdigest, h⟩ := h
      obtain ⟨rfl, rfl⟩ := Tx.pure_ok.mp h
      exact .inl ⟨receipt, hreceipt, hdigest, rfl, rfl⟩
  · obtain ⟨_, db₁, hinsert, h⟩ := Tx.bind_ok.mp h
    obtain ⟨hallowed, hnone, rfl⟩ := insertReceipt_ok hinsert
    dsimp only at h
    split at h
    · next hkeep =>
        obtain ⟨_, db₂, hretain, h⟩ := Tx.bind_ok.mp h
        obtain ⟨rfl, rfl⟩ := Tx.pure_ok.mp h
        refine .inr ⟨_, hnone, rfl, rfl, disposition_current, hallowed, ?_⟩
        rcases updateOperation_ok hretain with ⟨hgone, _⟩ | ⟨o₁, ho₁, _, _, _, rfl⟩
        · rw [ho] at hgone
          cases hgone
        · obtain rfl := Option.some.inj (ho.symm.trans ho₁)
          exact .inr ⟨hkeep, rfl⟩
    · next hkeep =>
        obtain ⟨rfl, rfl⟩ := Tx.pure_ok.mp h
        exact .inr ⟨_, hnone, rfl, rfl, disposition_current, hallowed, .inl ⟨Bool.eq_false_iff.mpr hkeep, rfl⟩⟩

omit [DecidableEq δ] in
/-- A producing attempt without a receipt works on an open operation. -/
theorem Booked.open_of_producing (hb : Booked U db) {t : ℕ} {a : OperationAttempt} {now : Instant}
    (ha : db.attempts.lookup (operation, t) = some a) (hnone : db.receipts.lookup (operation, a.attemptNo) = none)
    (hproducing : Producing db.base now a t) : ¬Completed db operation := by
  rintro ⟨o, ho, hcompleted⟩
  obtain ⟨hU, o₁, ho₁, _, hrun, hexecution⟩ := hb.owned operation t a ha
  obtain rfl := Option.some.inj (ho.symm.trans ho₁)
  obtain ⟨l, hl, htoken, _⟩ := hproducing.leased
  have hlatest := hb.latest ha hl htoken
  obtain ⟨_, hover | ⟨t', a', r, ha', hlatest', hr, _⟩⟩ := hb.closed operation o hU ho hcompleted
  · rcases hover with ⟨r, hr, hover⟩ | ⟨x, hx, hover⟩
    · obtain ⟨r', hr', hexecutable, _⟩ := hproducing.run
      rw [hrun, hr] at hr'
      obtain rfl := Option.some.inj hr'
      rw [hexecutable] at hover
      cases hover
    · obtain ⟨x', hx', hexecutable⟩ := hproducing.execution
      rw [hexecution, hx] at hx'
      obtain rfl := Option.some.inj hx'
      rw [hexecutable] at hover
      cases hover
  · obtain rfl := le_antisymm (hlatest' t a ha) (hlatest t' a' ha')
    obtain rfl := Option.some.inj (ha.symm.trans ha')
    rw [hnone] at hr
    cases hr

theorem receive_files (clock : Readings) (account run execution : Uuid) (operation : String) (token : ℕ)
    (payload : Payload) :
    Tx.Keeps (Files U) (receive resultDigest clock account run execution operation token payload) := by
  intro db d db' h hb
  obtain ⟨r, x, a, o, hr, hx, ha, hids, ho, ⟨_, _, _, _, rfl⟩ | ⟨receipt, hnone, hd, _, hexecutable, hallowed, hdone⟩⟩ :=
    receive_parts resultDigest h
  · exact refl_of (Files U) _ hb
  obtain ⟨hU, o₁, ho₁, haccount, hrun, hexecution⟩ := hb.owned operation token a ha
  obtain rfl := Option.some.inj (ho.symm.trans ho₁)
  have hcurrent : receipt.disposition = .current → ¬Completed db operation ∧ ∃ now, Producing db.base now a token := by
    intro hcurrent
    have hproducing : Producing db.base (clock 1) a token := by
      obtain ⟨hactive, hexecutes, hheld⟩ := receiptAllowed_current hallowed hcurrent
      rw [← haccount] at hactive
      rw [← hrun] at hexecutes
      rw [← hexecution] at hheld
      refine ⟨hactive, hexecutes, ⟨x, ?_, (hexecutable (hd.symm.trans hcurrent)).2⟩, hheld⟩
      rw [hids.2.2]
      exact hx
    exact ⟨hb.open_of_producing ha hnone hproducing, clock 1, hproducing⟩
  have hreceived : Files U db { db with receipts := db.receipts.insert (operation, a.attemptNo) receipt } :=
    files_receive ha hnone (fun _ => hcurrent) rfl rfl rfl rfl
  rcases hdone with ⟨_, rfl⟩ | ⟨hretained, rfl⟩
  · exact hreceived hb
  · obtain ⟨_, hover, _, hopen⟩ := retained_over hretained
    refine trans_of (Files U) hreceived ?_ hb
    refine files_row (o.complete a.receiptRef payload) (fun o₂ ho₂ => ?_) (fun _ _ _ => ?_) rfl rfl rfl rfl
    · obtain rfl := Option.some.inj (ho.symm.trans ho₂)
      exact ⟨hopen, rfl, .inl rfl⟩
    · refine ⟨⟨token, a, ha⟩, .inl ?_⟩
      rcases hover with hover | hover
      · refine .inl ⟨r, ?_, hover⟩
        show db.base.runs o.provenance.runId = some r
        rw [← hrun, hids.2.1]
        exact hr
      · refine .inr ⟨x, ?_, hover⟩
        show db.base.executions o.provenance.executionId = some x
        rw [← hexecution, hids.2.2]
        exact hx

/-! ### The calls that append events -/

omit [DecidableEq δ] in
theorem insertEvent_files (transcript : String) (sequence : ℕ) (ev : TranscriptEvent) :
    Tx.Keeps (Files U) (insertEvent transcript sequence ev : RecordTx δ Unit) := by
  intro db u db' h
  obtain ⟨_, _, _, _, _, _, rfl⟩ := insertEvent_ok h
  exact files_aside rfl rfl rfl rfl

omit [DecidableEq δ] in
theorem setVersion_files (transcript : String) (version : ℕ) :
    Tx.Keeps (Files U) (setVersion transcript version : RecordTx δ Unit) :=
  Tx.Keeps.update (R := Files U) fun _ => files_aside rfl rfl rfl rfl

omit [DecidableEq δ] in
theorem lockTranscript_files (i : TranscriptInput) :
    Tx.Keeps (Files U) (lockTranscript i : RecordTx δ (String × Transcript)) := by
  refine (Tx.Keeps.query _).bind fun found => ?_
  cases found with
  | some e => exact Tx.Keeps.pure _
  | none =>
      refine (Tx.Keeps.query _).bind fun _ => (Tx.Keeps.check _ _).bind fun _ =>
        Tx.Keeps.bind (Tx.Keeps.update fun _ => ?_) fun _ => Tx.Keeps.pure _
      exact files_aside rfl rfl rfl rfl

theorem createTranscript_files (clock : Readings) (fence : Option Fence) (i : TranscriptInput)
    (hfenced : i.operationId ∉ U → fence.isSome = true) :
    Tx.Keeps (Files U) (createTranscript resultDigest clock fence i) := by
  refine (assertFence_files _ _).bind fun _ => (Tx.Keeps.query _).bind fun _ => (Tx.Keeps.query _).bind fun _ =>
    (Tx.Keeps.ofExcept _).bind fun _ => (Tx.Keeps.check _ _).bind fun _ => (lockTranscript_files i).bind fun p => ?_
  obtain ⟨transcript, t⟩ := p
  have hcomplete : ∀ clock, Tx.Keeps (Files U) (completeOperation resultDigest clock fence i.operationId
      (contextRef transcript) (contextPayload transcript)) := by
    intro clock
    exact completeOperation_files resultDigest _ _ _ _ _ hfenced
  dsimp only
  split
  · exact (insertEvent_files _ _ _).bind fun _ => (setVersion_files _ _).bind fun _ => (hcomplete _).bind fun _ =>
      Tx.Keeps.pure _
  · exact (hcomplete _).bind fun _ => Tx.Keeps.pure _

omit [DecidableEq δ] in
theorem insertNext_files (clock : Readings) (fence : Option Fence) (i : AppendInput) :
    Tx.Keeps (Files U) (insertNext clock fence i : RecordTx δ (ℕ ⊕ ℕ)) := by
  refine (assertFence_files _ _).bind fun _ => Tx.Keeps.bind (Tx.Keeps.of_read fun _ _ _ h => requireOwnedTranscript_ok h) fun _ =>
    (requireOwnedOperation_files _ _).bind fun _ => (Tx.Keeps.query _).bind fun _ => (Tx.Keeps.demand _ _).bind fun t => ?_
  split
  · exact (Tx.Keeps.query _).bind fun _ => (Tx.Keeps.demand _ _).bind fun _ => Tx.Keeps.pure _
  · exact (insertEvent_files _ _ _).bind fun _ => (setVersion_files _ _).bind fun _ => Tx.Keeps.pure _

theorem appendEvent_files (clock : Readings) (fence : Option Fence) (i : AppendInput)
    (hfenced : i.operationId ∉ U → fence.isSome = true) :
    Tx.Keeps (Files U) (appendEvent resultDigest clock fence i) := by
  refine (insertNext_files _ _ _).bind fun position => ?_
  cases position with
  | inl sequence => exact Tx.Keeps.pure _
  | inr version =>
      exact (completeOperation_files resultDigest _ _ _ _ _ hfenced).bind fun _ => Tx.Keeps.pure _

omit [DecidableEq δ] in
/-- The attempt of the observing fence is counted and registered. -/
theorem countAttempt_files {f : Fence} {s : RecordStore δ} {v : Unit} (hlive : Live db.base f) (hfenced : operation ∉ U)
    (hopen : ∀ o, db.operations.lookup operation = some o → o.status ≠ .completed)
    (hcount : (countAttempt operation (db.attempts.lookup (operation, f.token)).isSome).run db = .ok (u, s))
    (hregister : (registerAttempt operation (some f)).run s = .ok (v, db')) : Files U db db' := by
  unfold countAttempt at hcount
  split at hcount
  · next hregistered =>
      obtain ⟨_, rfl⟩ := Tx.pure_ok.mp hcount
      rcases registerAttempt_ok hregister with ⟨rfl, _⟩ | ⟨f', o, hf, _, hnew, _⟩
      · exact refl_of (Files U) _
      · obtain rfl := Option.some.inj hf
        rw [hnew] at hregistered
        cases hregistered
  · next hunregistered =>
      rcases updateOperation_ok hcount with ⟨hnone, rfl⟩ | ⟨o, ho, hwas, hprovenance, _, rfl⟩
      · rcases registerAttempt_ok hregister with ⟨rfl, _⟩ | ⟨_, o, _, ho, _⟩
        · exact refl_of (Files U) _
        · rw [hnone] at ho
          cases ho
      · have hfence : (some f).isSome = true ↔ operation ∉ U := ⟨fun _ => hfenced, fun _ => rfl⟩
        refine files_enter { o with attemptCount := o.attemptCount + 1 } ?_ hfence (fun o₀ ho₀ => ?_) hwas hregister
        · rintro f' hf
          obtain rfl := Option.some.inj hf
          exact hlive
        · obtain rfl := Option.some.inj (ho.symm.trans ho₀)
          refine ⟨hwas, hprovenance, ?_⟩
          rintro ⟨f', hf, hregistered⟩
          obtain rfl := Option.some.inj hf
          exact absurd hregistered hunregistered

theorem observe_files (clock : Readings) (fence : Option Fence) (facts : Except Error Observed) (i : ObserveInput)
    (hfenced : fence.isSome = true ↔ i.operationId ∉ U) :
    Tx.Keeps (Files U) (observe resultDigest clock fence facts i) := by
  intro db p db' h
  obtain ⟨hpassed, o, ho, ⟨-, rfl⟩ | ⟨hopen, t, f, r, db₁, db₂, db₃, db₄, -, rfl, hinsert, hset, hcount, hregister, hcomplete⟩⟩ :=
    observe_parts resultDigest h
  · exact refl_of (Files U) _
  · have hU : i.operationId ∉ U := hfenced.mp rfl
    have haside : Files U db db₂ := trans_of (Files U) (insertEvent_files _ _ _ _ _ _ hinsert) (setVersion_files _ _ _ _ _ hset)
    have hsame : db₂.base = db.base ∧ db₂.operations = db.operations := by
      obtain ⟨_, _, _, _, _, _, rfl⟩ := insertEvent_ok hinsert
      rw [← Tx.update_ok.mp hset]
      exact ⟨rfl, rfl⟩
    have hregistered : Files U db₂ db₄ := by
      refine countAttempt_files ?_ hU (fun o₀ ho₀ => ?_) hcount hregister
      · rw [hsame.1]
        exact live_of_fence hpassed
      · rw [hsame.2] at ho₀
        obtain rfl := Option.some.inj (ho.symm.trans ho₀)
        exact hopen
    exact trans_of (Files U) haside (trans_of (Files U) hregistered
      (completeOperation_files resultDigest _ _ _ _ _ (fun _ => rfl) _ _ _ hcomplete))

theorem enqueueOperation_files (clock : Readings) (fence : Option Fence) (operation : String) (run : Uuid)
    (operationType ref : String) (payload : Payload) (hfenced : fence.isSome = true ↔ operation ∉ U) :
    Tx.Keeps (Files U) (enqueueOperation resultDigest clock fence operation run operationType ref payload) := by
  intro db v db' h hb
  unfold enqueueOperation at h
  rw [Tx.bind_query_ok] at h
  have hcompletes : ∀ s, (completeOperation resultDigest clock fence operation ref payload).run s = .ok (v, db') →
      Files U s db' ∧ (s.base = db.base → ∀ f ∈ fence, Live db.base f) := by
    intro s hs
    refine ⟨completeOperation_files resultDigest _ _ _ _ _ hfenced.mpr _ _ _ hs, fun hbase => ?_⟩
    rintro f rfl
    rw [← hbase]
    exact live_of_fence (completeOperation_parts resultDigest hs).1
  split at h
  · next hnone =>
      obtain ⟨_, db₁, hinsert, h⟩ := Tx.bind_ok.mp h
      obtain ⟨_, db₂, hregister, h⟩ := Tx.bind_ok.mp h
      obtain ⟨hfiles, hlive⟩ := hcompletes db₂ h
      obtain ⟨o, hstarted, _, rfl⟩ := insertOperation_ok hinsert
      have hbase : db₂.base = db.base := by
        rcases registerAttempt_ok hregister with ⟨rfl, _⟩ | ⟨_, _, _, _, _, _, _, rfl⟩ <;> rfl
      refine trans_of (Files U) (files_enter _ (hlive hbase) hfenced (fun o₀ ho₀ => ?_) ?_ hregister) hfiles hb
      · rw [hnone] at ho₀
        cases ho₀
      · rw [hstarted]
        exact nofun
  · next o ho =>
      obtain ⟨_, db₂, hregister, h⟩ := Tx.bind_ok.mp h
      obtain ⟨hfiles, hlive⟩ := hcompletes db₂ h
      rcases registerAttempt_ok hregister with ⟨rfl, _⟩ | ⟨f, o₁, rfl, ho₁, hnew, hnumber, howner, rfl⟩
      · exact hfiles hb
      · obtain rfl := Option.some.inj (ho.symm.trans ho₁)
        have hU : operation ∉ U := hfenced.mp rfl
        -- the number of a completed operation's next attempt is taken
        have hopen : o.status ≠ .completed := by
          intro hcompleted
          obtain ⟨⟨t, a, ha⟩, _⟩ := hb.closed operation o hU ho hcompleted
          obtain ⟨t', a', ha', hno⟩ := hb.counted operation t a o ha ho
          exact hnumber t' a' ha' hno
        refine trans_of (Files U) ?_ hfiles hb
        refine files_enroll o (hlive rfl f rfl) hU (fun o₀ ho₀ => ?_) hopen hnew hnumber howner rfl (fun j => ?_) rfl rfl
        · obtain rfl := Option.some.inj (ho.symm.trans ho₀)
          exact ⟨hopen, rfl⟩
        · split
          · next hj =>
              rw [hj]
              exact ho
          · rfl

omit [DecidableEq δ] in
theorem registerEffect_files (now : Instant) (fence : Option Fence) (operation : String) (run execution : Uuid) :
    Tx.Keeps (Files U) (registerEffect now fence operation run execution : RecordTx δ Unit) := by
  refine (assertFence_files _ _).bind fun _ => ?_
  intro db v db' h
  rw [Tx.bind_query_ok, Tx.bind_check_ok] at h
  obtain ⟨hnone, h⟩ := h
  obtain ⟨o, hstarted, _, rfl⟩ := insertOperation_ok h
  refine files_write _ (fun o₀ ho₀ => ?_) (by rw [hstarted]; exact nofun)
  rw [hnone] at ho₀
  cases ho₀

end digests

end calls

end HpAgent.Records
