import HpAgent.Records.ReceiptRuns

/-! # Receipt integrity

A receipt is recorded once for an attempt and never changes.  It is current only when its attempt was producing, and
an attempt with a non-current receipt can neither complete its operation nor append an event for it; a late result
that is retained when its Run or Execution is over gets no event and is no evidence.

* `Call.event_live`: an event is appended under a live fence of the operation's Execution.
* `Call.of_noncurrent`: what the calls of an attempt with a non-current receipt can do.
* `receipt_integrity`: the laws over every history. -/

namespace HpAgent.Records

open Library

variable {δ : Type} [DecidableEq δ] (resultDigest : Payload → δ)
variable {clock : Readings} {a : OperationAttempt} {r : Receipt δ}

/-! ### Events -/

section events

variable {U : Set String} {db db' : RecordStore δ} {operation : String}

omit [DecidableEq δ] in
theorem HasEvent.of_events (h : HasEvent db' operation) (hevents : db'.events = db.events) : HasEvent db operation := by
  obtain ⟨T, n, ev, hev, hop⟩ := h
  rw [hevents] at hev
  exact ⟨T, n, ev, hev, hop⟩

omit [DecidableEq δ] in
/-- The new event of an append is one of its operation. -/
theorem Appends.event {j : String} (h : Appends db db' j) (hafter : HasEvent db' operation)
    (hbefore : ¬HasEvent db operation) : operation = j := by
  cases h with
  | @appended T t' ev h hop =>
      obtain ⟨T₁, n, ev₁, hev, rfl⟩ := hafter
      rw [h.events] at hev
      split at hev
      · obtain rfl := Option.some.inj hev
        exact hop
      · exact absurd ⟨T₁, n, ev₁, hev, rfl⟩ hbefore
  | replayed h _ => exact absurd (hafter.of_events h.events) hbefore

/-- The new event of a committed append was inserted under a live fence of its operation's Execution. -/
theorem event_commit {α : Type} {m : RecordTx δ α} {fence : Option Fence} {j : String}
    (hfenced : fence.isSome = true ↔ j ∉ U) (hU : operation ∉ U)
    (happends : ∀ a db', m.run db = .ok (a, db') → Appends db db' j ∧ EndsIn resultDigest fence j db db')
    (hafter : HasEvent (m.commit db) operation) (hbefore : ¬HasEvent db operation) :
    ∃ f o, fence = some f ∧ Live db.base f ∧ (m.commit db).operations.lookup operation = some o ∧
      o.provenance.accountId = f.accountId ∧ o.provenance.runId = f.runId ∧
      o.provenance.executionId = f.executionId := by
  revert hafter
  refine Tx.commit_rule (fun s : RecordStore δ => HasEvent s operation → ∃ f o, fence = some f ∧ Live db.base f ∧
    s.operations.lookup operation = some o ∧ o.provenance.accountId = f.accountId ∧ o.provenance.runId = f.runId ∧
      o.provenance.executionId = f.executionId) (fun hafter => absurd hafter hbefore) fun a s hrun hafter => ?_
  obtain ⟨happends, hends⟩ := happends a s hrun
  obtain rfl := happends.event hafter hbefore
  obtain ⟨f, rfl⟩ := Option.isSome_iff_exists.mp (hfenced.mpr hU)
  obtain ⟨hlive, o, ho, hids⟩ := hends.live resultDigest fun hsame => hbefore (hafter.of_events hsame)
  exact ⟨f, o, rfl, hlive, ho, hids⟩

omit [DecidableEq δ] in
theorem no_event_commit {α : Type} {S : Set String} {m : RecordTx δ α} (h : Tx.Keeps (Quiet S) m)
    (hafter : HasEvent (m.commit db) operation) : HasEvent db operation :=
  hafter.of_events (h.commit db).events

/-- A success of `completeOperationWithEvent` is one of its append. -/
theorem completeOperationWithEvent_append {late : Readings} {fence : Option Fence} {i : AppendInput} {n : ℕ}
    (h : (completeOperationWithEvent resultDigest clock late fence i db).1 = .ok n) :
    ∃ db', (appendEvent resultDigest clock fence i).run db = .ok (n, db') ∧
      (completeOperationWithEvent resultDigest clock late fence i db).2 = db' := by
  unfold completeOperationWithEvent at h ⊢
  split at h
  · next v db' hrun =>
      obtain rfl := Except.ok.inj h
      exact ⟨db', hrun, rfl⟩
  · split at h
    · split at h <;> cases h
    · cases h

/-- **Events are appended under a live fence.** -/
theorem Call.event_live (hw : Recorded db) (c : Call) (hc : c.Disciplined U) (hU : operation ∉ U)
    (hafter : HasEvent (c.effect resultDigest db) operation) (hbefore : ¬HasEvent db operation) :
    ∃ f o, c.fence = some f ∧ Live db.base f ∧ (c.effect resultDigest db).operations.lookup operation = some o ∧
      o.provenance.accountId = f.accountId ∧ o.provenance.runId = f.runId ∧
      o.provenance.executionId = f.executionId := by
  cases c with
  | beginOperation => exact absurd (no_event_commit (beginOperation_quiet _ _ _ _ _ _) hafter) hbefore
  | failOperation => exact absurd (no_event_commit (failOperation_quiet _ _ _ _) hafter) hbefore
  | recordOperationIntent => exact absurd (no_event_commit (recordOperationIntent_quiet _ _ _ _) hafter) hbefore
  | markOperationUncertain => exact absurd (no_event_commit (markOperationUncertain_quiet _ _ _ _) hafter) hbefore
  | completeOperation => exact absurd (no_event_commit (completeOperation_quiet resultDigest _ _ _ _ _) hafter) hbefore
  | receive => exact absurd (no_event_commit (receive_quiet resultDigest _ _ _ _ _ _ _) hafter) hbefore
  | createTranscript =>
      exact event_commit resultDigest hc hU
        (fun _ _ hrun => ⟨createTranscript_ok resultDigest hw hrun, createTranscript_ends resultDigest hrun⟩) hafter hbefore
  | observe =>
      exact event_commit resultDigest hc hU
        (fun _ _ hrun => ⟨observe_ok resultDigest hw hrun, observe_ends resultDigest hrun⟩) hafter hbefore
  | completeOperationWithEvent clock late fence i =>
      rcases completeOperationWithEvent_outcome resultDigest hw with ⟨n, hok, _⟩ | ⟨_, hquiet⟩
      · obtain ⟨db', hrun, hstore⟩ := completeOperationWithEvent_append resultDigest hok
        have hcommit : (Call.completeOperationWithEvent clock late fence i).effect resultDigest db
            = (appendEvent resultDigest clock fence i).commit db := by
          show (Records.completeOperationWithEvent resultDigest clock late fence i db).2 = _
          rw [hstore, Tx.commit, hrun]
        rw [hcommit] at hafter ⊢
        exact event_commit resultDigest hc hU
          (fun _ _ hrun => ⟨(appendEvent_ok resultDigest hw hrun).1, appendEvent_ends resultDigest hrun⟩) hafter hbefore
      · exact absurd (hafter.of_events hquiet.events) hbefore

end events

/-! ### An attempt that no longer counts -/

/-- The attempt of the token has a receipt, which is not current. -/
def NonCurrent (db : RecordStore δ) (operation : String) (token : ℕ) : Prop :=
  ∃ a r, db.attempts.lookup (operation, token) = some a ∧ db.receipts.lookup (operation, a.attemptNo) = some r ∧
    r.disposition ≠ .current

/-- The call is made by the attempt: `receive` names its token, and the others hold it in their fence. -/
def Call.By (operation : String) (token : ℕ) : Call → Prop
  | .receive _ _ _ _ j t _ => j = operation ∧ t = token
  | c => c.operation = operation ∧ ∃ f, c.fence = some f ∧ f.token = token

section noncurrent

variable {U : Set String} {db db' : RecordStore δ} {operation : String} {token : ℕ}

omit [DecidableEq δ] in
theorem NonCurrent.filed (h : NonCurrent db operation token) (hfiled : Filed db db') : NonCurrent db' operation token := by
  obtain ⟨a, r, ha, hr, hcurrent⟩ := h
  exact ⟨a, r, hfiled.attempts _ a ha, hfiled.receipts _ r hr, hcurrent⟩

omit [DecidableEq δ] in
theorem NonCurrent.not_currentOf (h : NonCurrent db operation token) : ¬CurrentOf db operation token := by
  rintro ⟨a', r', ha', hr', hcurrent'⟩
  obtain ⟨a, r, ha, hr, hcurrent⟩ := h
  obtain rfl := Option.some.inj (ha.symm.trans ha')
  obtain rfl := Option.some.inj (hr.symm.trans hr')
  exact hcurrent hcurrent'

/-- `receive` repeats the disposition of a receipt that is there, whatever it is, and changes nothing. -/
theorem receive_found {account run execution : Uuid} {payload : Payload} {d : Disposition}
    (ha : db.attempts.lookup (operation, token) = some a)
    (hr : db.receipts.lookup (operation, a.attemptNo) = some r)
    (h : (receive resultDigest clock account run execution operation token payload).run db = .ok (d, db')) :
    db' = db ∧ d = r.disposition ∧ r.digest = resultDigest payload := by
  obtain ⟨_, _, a', _, _, _, ha', _, _, ⟨r', hr', hdigest, rfl, rfl⟩ | ⟨_, hnone, _⟩⟩ := receive_parts resultDigest h
  · obtain rfl := Option.some.inj (ha.symm.trans ha')
    obtain rfl := Option.some.inj (hr.symm.trans hr')
    exact ⟨rfl, rfl, hdigest⟩
  · obtain rfl := Option.some.inj (ha.symm.trans ha')
    rw [hr] at hnone
    cases hnone

/-- Under the fence of an attempt with a receipt, `complete_operation` succeeds on an open operation only when the
receipt is current and has the digest of the result. -/
theorem completeOperation_found {f : Fence} {ref : String} {payload : Payload} {u : Unit}
    (ha : db.attempts.lookup (operation, f.token) = some a)
    (hr : db.receipts.lookup (operation, a.attemptNo) = some r)
    (h : (completeOperation resultDigest clock (some f) operation ref payload).run db = .ok (u, db')) :
    Completed db operation ∧ db' = db ∨ r.disposition = .current ∧ r.digest = resultDigest payload := by
  obtain ⟨_, _, o, ho, ⟨hcompleted, _, _, rfl⟩ | ⟨_, v, db₁, hreceipt, rfl⟩⟩ := completeOperation_parts resultDigest h
  · exact .inl ⟨⟨o, ho, hcompleted⟩, rfl⟩
  · obtain ⟨a', r', ha', hr', hcurrent, hdigest, rfl | ⟨_, hnone, _⟩⟩ := receiptOf_ok resultDigest hreceipt
    · obtain rfl := Option.some.inj (ha.symm.trans ha')
      obtain rfl := Option.some.inj (hr.symm.trans hr')
      exact .inr ⟨hcurrent, hdigest⟩
    · obtain rfl := Option.some.inj (ha.symm.trans ha')
      rw [hr] at hnone
      cases hnone

/-- A completed operation is left as it is. -/
theorem completeOperation_closed {fence : Option Fence} {ref : String} {payload : Payload}
    (h : Completed db operation) : (completeOperation resultDigest clock fence operation ref payload).commit db = db := by
  refine Tx.commit_rule (fun s => s = db) rfl fun u s hrun => ?_
  obtain ⟨_, _, o, ho, ⟨_, _, _, rfl⟩ | ⟨hopen, _⟩⟩ := completeOperation_parts resultDigest hrun
  · rfl
  · obtain ⟨o', ho', hcompleted⟩ := h
    obtain rfl := Option.some.inj (ho.symm.trans ho')
    exact absurd hcompleted hopen

/-- A call that ended in `complete_operation` under the fence of the attempt completed nothing. -/
theorem NonCurrent.ends {f : Fence} {α : Type} {m : RecordTx δ α} (h : NonCurrent db operation f.token) (hb : Booked U db)
    (hfiles : Tx.Keeps (Files U) m) (hends : ∀ a db', m.run db = .ok (a, db') → EndsIn resultDigest (some f) operation db db')
    (hafter : Completed (m.commit db) operation) : Completed db operation := by
  revert hafter
  refine Tx.commit_rule (fun s => Completed s operation → Completed db operation) id fun a s hrun hafter => ?_
  by_contra hopen
  have hfiled := (hfiles db a s hrun hb).2
  exact (h.filed hfiled).not_currentOf ((hends a s hrun).currentOf resultDigest hopen hafter)

omit [DecidableEq δ] in
theorem quiet_completes {α : Type} {m : RecordTx δ α} (h : Tx.Keeps (Quiet ∅) m)
    (hafter : Completed (m.commit db) operation) : Completed db operation :=
  ((h.commit db).completes operation hafter).resolve_right (Set.notMem_empty _)

/-- The calls of an attempt with a non-current receipt complete nothing. -/
theorem Call.completes_of_noncurrent (hb : Booked U db) (c : Call) (hc : c.Disciplined U) (hby : c.By operation token)
    (h : NonCurrent db operation token) (hafter : Completed (c.effect resultDigest db) operation) :
    Completed db operation := by
  cases c with
  | receive clock account run execution j t payload =>
      obtain ⟨rfl, rfl⟩ := hby
      obtain ⟨a, r, ha, hr, _⟩ := h
      revert hafter
      refine Tx.commit_rule (fun s => Completed s j → Completed db j) id fun d s hrun => ?_
      obtain ⟨rfl, _⟩ := receive_found resultDigest ha hr hrun
      exact id
  | beginOperation => exact quiet_completes (beginOperation_quiet _ _ _ _ _ _) hafter
  | failOperation => exact quiet_completes (failOperation_quiet _ _ _ _) hafter
  | recordOperationIntent => exact quiet_completes (recordOperationIntent_quiet _ _ _ _) hafter
  | markOperationUncertain => exact quiet_completes (markOperationUncertain_quiet _ _ _ _) hafter
  | completeOperation clock fence j ref payload =>
      obtain ⟨rfl, f, rfl, rfl⟩ := hby
      refine h.ends resultDigest hb (completeOperation_files resultDigest _ _ _ _ _ hc.mpr) (fun _ _ hrun => ?_) hafter
      exact .inl ⟨db, clock, ref, payload, refl_of Opens db, hrun⟩
  | createTranscript clock fence i =>
      obtain ⟨rfl, f, rfl, rfl⟩ := hby
      exact h.ends resultDigest hb (createTranscript_files resultDigest _ _ _ hc.mpr)
        (fun _ _ hrun => createTranscript_ends resultDigest hrun) hafter
  | observe clock fence facts i =>
      obtain ⟨rfl, f, rfl, rfl⟩ := hby
      exact h.ends resultDigest hb (observe_files resultDigest _ _ _ _ hc)
        (fun _ _ hrun => observe_ends resultDigest hrun) hafter
  | completeOperationWithEvent clock late fence i =>
      obtain ⟨rfl, f, rfl, rfl⟩ := hby
      cases happend : (appendEvent resultDigest clock (some f) i).run db with
      | ok p =>
          refine h.ends resultDigest hb (m := appendEvent resultDigest clock (some f) i)
            (appendEvent_files resultDigest _ _ _ hc.mpr) (fun _ _ hrun => appendEvent_ends resultDigest hrun) ?_
          have heffect : (Call.completeOperationWithEvent clock late (some f) i).effect resultDigest db = p.2 := by
            show (Records.completeOperationWithEvent resultDigest clock late (some f) i db).2 = _
            unfold Records.completeOperationWithEvent
            rw [happend]
          rw [heffect] at hafter
          unfold Tx.commit
          rw [happend]
          exact hafter
      | error e =>
          have heffect : (Call.completeOperationWithEvent clock late (some f) i).effect resultDigest db = db := by
            show (Records.completeOperationWithEvent resultDigest clock late (some f) i db).2 = _
            unfold Records.completeOperationWithEvent
            rw [happend]
            dsimp only
            split
            · next hsame =>
                obtain rfl := Option.some.inj hsame
                obtain ⟨a, r, ha, hr, _⟩ := h
                split
                · next hreceive => exact (receive_found resultDigest ha hr hreceive).1
                · rfl
            · rfl
          rw [heffect] at hafter
          exact hafter

/-- An event of an operation with a fence is appended under a live fence, and its operation is completed by then. -/
theorem Call.appends_of_noncurrent (hb : Booked U db) (hw : Recorded db) (c : Call) (hc : c.Disciplined U)
    (hby : c.By operation token) (h : NonCurrent db operation token)
    (hafter : HasEvent (c.effect resultDigest db) operation) : HasEvent db operation := by
  by_contra hbefore
  obtain ⟨a, r, ha, hr, hcurrent⟩ := h
  obtain ⟨hU, o, ho, _, _, hexecution⟩ := hb.owned operation token a ha
  obtain ⟨f, o', hf, hlive, ho', haccount, hrun, hids⟩ := c.event_live resultDigest hw hc hU hafter hbefore
  have htoken : f.token = token := by
    cases c with
    | receive =>
        cases hf
    | _ =>
        obtain ⟨_, f', hf', rfl⟩ := hby
        obtain rfl := Option.some.inj (hf.symm.trans hf')
        rfl
  subst htoken
  -- the event completed its operation, so it was completed before, by a current receipt of the latest attempt
  obtain ⟨T, n, ev, hev, rfl⟩ := hafter
  obtain ⟨_, _, o₁, ho₁, hcompleted₁, _⟩ := ((c.effect_of resultDigest hw).recorded hw).settled T n ev hev
  have hnoncurrent : NonCurrent db ev.operationId f.token := ⟨a, r, ha, hr, hcurrent⟩
  obtain ⟨o₂, ho₂, hcompleted⟩ := c.completes_of_noncurrent resultDigest hb hc hby hnoncurrent ⟨o₁, ho₁, hcompleted₁⟩
  obtain rfl := Option.some.inj (ho.symm.trans ho₂)
  obtain ⟨o₃, ho₃, hprovenance, _⟩ := ((c.files resultDigest hc) hb).2.moves _ o ho
  obtain rfl := Option.some.inj (ho'.symm.trans ho₃)
  rw [hprovenance] at hrun hids
  obtain ⟨l, hl, hleased⟩ := hlive.leased
  have hlatest : Latest db ev.operationId f.token := by
    refine hb.latest ha (l := l) ?_ hleased
    rw [hexecution, hids]
    exact hl
  obtain ⟨_, hover | ⟨t', a', r', ha', hlatest', hr', hcurrent'⟩⟩ := hb.closed _ o hU ho hcompleted
  · exact hlive.not_over hrun hids hover
  · obtain rfl := le_antisymm (hlatest t' a' ha') (hlatest' f.token a ha)
    obtain rfl := Option.some.inj (ha.symm.trans ha')
    obtain rfl := Option.some.inj (hr.symm.trans hr')
    exact hcurrent hcurrent'

end noncurrent

/-! ### Results that come late -/

/-- The evidence `operation_receipt` of `validate_evidence`, at one operation: it is of the Run, it or its result
has the reference, it is completed, and some receipt of it is current. -/
def operationEvidence (db : RecordStore δ) (account run : Uuid) (ref operation : String) : Bool :=
  (db.operations.lookup operation).any fun o =>
    o.provenance.accountId = account && o.provenance.runId = run && (operation = ref || o.resultRef = some ref) &&
      o.status = .completed && db.receipts.entries.any fun e => e.1.1 = operation && e.2.disposition = .current

/-- No receipt of the operation is current. -/
def Unproven (db : RecordStore δ) (operation : String) : Prop :=
  ∀ n r, db.receipts.lookup (operation, n) = some r → r.disposition ≠ .current

/-- The Run or the Execution of the operation is over. -/
def Ended (db : RecordStore δ) (operation : String) : Prop :=
  ∃ o, db.operations.lookup operation = some o ∧ Over db.base o.provenance

section late

variable {U : Set String} {db db' : RecordStore δ} {operation : String} {token : ℕ}

omit [DecidableEq δ] in
theorem Unproven.evidence (h : Unproven db operation) (account run : Uuid) (ref : String) :
    operationEvidence db account run ref operation = false := by
  unfold operationEvidence
  have hnone : (db.receipts.entries.any fun e => e.1.1 = operation && e.2.disposition = .current) = false := by
    rw [List.any_eq_false]
    rintro ⟨⟨j, n⟩, r⟩ hmem hboth
    simp only [Bool.and_eq_true, decide_eq_true_eq] at hboth
    obtain ⟨rfl, hcurrent⟩ := hboth
    exact h n r (AList.mem_lookup_iff.mpr hmem) hcurrent
  rw [hnone]
  cases db.operations.lookup operation with
  | none => rfl
  | some o => simp

/-- A completed operation without a current receipt gets none. -/
theorem Later.unproven (h : Later resultDigest U db db') (hb : Booked U db) (hcompleted : Completed db operation)
    (hunproven : Unproven db operation) : Unproven db' operation := by
  induction h with
  | refl => exact hunproven
  | @tail db₁ db₂ hlater hstep ih =>
      obtain ⟨hb₁, hholds⟩ := Later.booked resultDigest hlater hb
      obtain ⟨_, hholds', hcurrent⟩ := hstep.booked resultDigest hb₁
      intro n r hr hnew
      cases hold : db₁.receipts.lookup (operation, n) with
      | none => exact (hcurrent operation n r hold hr hnew).1 (hcompleted.moves hholds.moves)
      | some r₁ =>
          have hsame := hholds'.receipts _ r₁ hold
          obtain rfl := Option.some.inj (hr.symm.trans hsame)
          exact ih n r hold hnew

omit [DecidableEq δ] in
theorem Ended.holds (h : Ended db operation) (hholds : Holds db db') : Ended db' operation := by
  obtain ⟨o, ho, hover⟩ := h
  obtain ⟨o', ho', hprovenance, _⟩ := hholds.moves operation o ho
  refine ⟨o', ho', ?_⟩
  rw [hprovenance]
  exact hover.forward hholds.forward

/-- No event is appended for an operation whose Run or Execution is over. -/
theorem ReceiptStep.silent (h : ReceiptStep resultDigest U db db') (hb : Booked U db) (hw : Recorded db)
    (hU : operation ∉ U) (hended : Ended db operation) (hafter : HasEvent db' operation) : HasEvent db operation := by
  cases h with
  | call c hc =>
      by_contra hbefore
      obtain ⟨o, ho, hover⟩ := hended
      obtain ⟨f, o', _, hlive, ho', _, hrun, hexecution⟩ := c.event_live resultDigest hw hc hU hafter hbefore
      obtain ⟨o'', ho'', hprovenance, _⟩ := ((c.files resultDigest hc) hb).2.moves operation o ho
      obtain rfl := Option.some.inj (ho'.symm.trans ho'')
      rw [hprovenance] at hrun hexecution
      exact hlive.not_over hrun hexecution hover
  | enqueue clock fence j run operationType ref payload _ =>
      exact no_event_commit (enqueueOperation_quiet resultDigest clock fence j run operationType ref payload) hafter
  | effect now fence j run execution => exact no_event_commit (registerEffect_quiet now fence j run execution) hafter
  | surroundings base sessions _ => exact hafter.of_events rfl

theorem Later.silent (h : Later resultDigest U db db') (hb : Booked U db) (hw : Recorded db) (hU : operation ∉ U)
    (hended : Ended db operation) (hbefore : ¬HasEvent db operation) : ¬HasEvent db' operation := by
  induction h with
  | refl => exact hbefore
  | tail hlater hstep ih =>
      obtain ⟨hb₁, hholds⟩ := Later.booked resultDigest hlater hb
      exact fun hafter => ih (hstep.silent resultDigest hb₁ (Later.recorded resultDigest hlater hw) hU (hended.holds hholds) hafter)

/-- **A result that is not current** changes its operation only when it is retained: the Run or the Execution is
over, no other attempt was counted since, and the operation was open. -/
theorem receive_noncurrent {account run execution : Uuid} {payload : Payload} {d : Disposition}
    (hb : Booked U db)
    (h : (receive resultDigest clock account run execution operation token payload).run db = .ok (d, db'))
    (hcurrent : d ≠ .current) :
    NonCurrent db' operation token ∧ db'.events = db.events ∧
      (∀ j, j ≠ operation → db'.operations.lookup j = db.operations.lookup j) ∧
      (db'.operations.lookup operation = db.operations.lookup operation ∨
        Ended db operation ∧ ¬Completed db operation ∧ ∃ a o, db.attempts.lookup (operation, token) = some a ∧
          db.operations.lookup operation = some o ∧ a.attemptNo = o.attemptCount) := by
  obtain ⟨r, x, a, o, hr, hx, ha, hids, ho, ⟨receipt, hreceipt, _, rfl, rfl⟩ | ⟨receipt, hnone, rfl, _, _, _, hdone⟩⟩ :=
    receive_parts resultDigest h
  · exact ⟨⟨a, receipt, ha, hreceipt, hcurrent⟩, rfl, fun _ _ => rfl, .inl rfl⟩
  have hnew : (db.receipts.insert (operation, a.attemptNo) receipt).lookup (operation, a.attemptNo) = some receipt :=
    AList.lookup_insert _
  rcases hdone with ⟨_, rfl⟩ | ⟨hretained, rfl⟩
  · exact ⟨⟨a, receipt, ha, hnew, hcurrent⟩, rfl, fun _ _ => rfl, .inl rfl⟩
  · obtain ⟨_, hover, hno, hopen⟩ := retained_over hretained
    refine ⟨⟨a, receipt, ha, hnew, hcurrent⟩, rfl, fun j hj => AList.lookup_insert_ne hj, .inr ⟨⟨o, ho, ?_⟩, ?_, a, o, ha, ho, hno⟩⟩
    · obtain ⟨_, o₁, ho₁, _, hrun, hexecution⟩ := hb.owned operation token a ha
      obtain rfl := Option.some.inj (ho.symm.trans ho₁)
      rcases hover with hover | hover
      · refine .inl ⟨r, ?_, hover⟩
        rw [← hrun, hids.2.1]
        exact hr
      · refine .inr ⟨x, ?_, hover⟩
        rw [← hexecution, hids.2.2]
        exact hx
    · rintro ⟨o₁, ho₁, hcompleted⟩
      obtain rfl := Option.some.inj (ho.symm.trans ho₁)
      exact hopen hcompleted

end late

/-! ### Receipts that are repeated -/

section repeats

variable {U : Set String} {db db' : RecordStore δ} {operation : String} {token : ℕ}

/-- A Run that can be locked stays one. -/
theorem Forward.lock {a a' : Authority} (h : Forward a a') {account run : Uuid} {r : Run} (hr : a.lock account run = .ok r) :
    ∃ r', a'.lock account run = .ok r' := by
  unfold Authority.lock at hr
  split at hr
  · next p r₁ haccount hrow =>
      obtain ⟨hfound, howner⟩ := Option.filter_eq_some_iff.mp hrow
      have howner := of_decide_eq_true howner
      obtain ⟨r', hr', haccount', hsource, _⟩ := h.runs run r₁ hfound
      obtain ⟨p', hp'⟩ := Option.isSome_iff_exists.mp (h.accounts account (by rw [haccount]; rfl))
      have hrow' : a'.ownedRun account run = some r' := by
        refine Option.filter_eq_some_iff.mpr ⟨hr', decide_eq_true ?_⟩
        rw [haccount', howner]
      unfold Authority.lock
      rw [hp', hrow']
      dsimp only
      rw [hsource]
      cases hs : r₁.source with
      | work work revision epoch =>
          rw [hs] at hr
          dsimp only at hr ⊢
          split at hr
          · next hwork =>
              obtain ⟨w, hw⟩ := Option.isSome_iff_exists.mp hwork
              obtain ⟨hwrow, hwowner⟩ := Option.filter_eq_some_iff.mp hw
              obtain ⟨w', hw', hsame⟩ := h.works work w hwrow
              have howned : a'.ownedWork account work = some w' := by
                refine Option.filter_eq_some_iff.mpr ⟨hw', decide_eq_true ?_⟩
                rw [hsame, of_decide_eq_true hwowner]
              rw [howned]
              exact ⟨r', rfl⟩
          · cases hr
      | chat conversation =>
          rw [hs] at hr
          dsimp only at hr ⊢
          split at hr
          · next hconversation =>
              rw [if_pos (h.conversations account conversation hconversation)]
              exact ⟨r', rfl⟩
          · cases hr
  · cases hr

theorem Forward.lockExecution {a a' : Authority} (h : Forward a a') {account run execution : Uuid}
    {e : Uuid × HpAgent.Execution} (he : a.lockExecution account run (some execution) = .ok e) :
    ∃ e', a'.lockExecution account run (some execution) = .ok e' := by
  obtain ⟨_, hrow, haccount, hrun⟩ := Authority.lockExecution_ok he
  obtain ⟨x', hx', haccount', hrun', _⟩ := h.executions execution e.2 hrow
  refine ⟨(execution, x'), ?_⟩
  have hfound : ((a'.executions execution).filter fun e => e.accountId = account ∧ e.runId = run) = some x' := by
    refine Option.filter_eq_some_iff.mpr ⟨hx', decide_eq_true ⟨?_, ?_⟩⟩
    · rw [haccount', haccount]
    · rw [hrun', hrun]
  unfold Authority.lockExecution Authority.executionOf
  rw [Option.orElse_some, Option.bind_some, hfound]
  rfl

/-- The receipt of the attempt was accepted with this payload and disposition. -/
structure Accepted (db : RecordStore δ) (account run execution : Uuid) (operation : String) (token : ℕ)
    (payload : Payload) (d : Disposition) : Prop where
  locked : ∃ r, db.base.lock account run = .ok r
  owned : ∃ e, db.base.lockExecution account run (some execution) = .ok e
  entered : ∃ o, db.operations.lookup operation = some o
  receipt : ∃ a r, db.attempts.lookup (operation, token) = some a ∧
    (a.accountId = account ∧ a.runId = run ∧ a.executionId = execution) ∧
    db.receipts.lookup (operation, a.attemptNo) = some r ∧ r.digest = resultDigest payload ∧ r.disposition = d

variable {account run execution : Uuid} {payload : Payload} {d : Disposition}

omit [DecidableEq δ] in
theorem Accepted.holds (h : Accepted resultDigest db account run execution operation token payload d)
    (hholds : Holds db db') : Accepted resultDigest db' account run execution operation token payload d := by
  obtain ⟨⟨_, hlock⟩, ⟨_, hexecution⟩, ⟨o, ho⟩, a, r, ha, hids, hr, hdigest, hd⟩ := h
  obtain ⟨o', ho', _⟩ := hholds.moves operation o ho
  exact ⟨hholds.forward.lock hlock, hholds.forward.lockExecution hexecution, ⟨o', ho'⟩,
    a, r, hholds.attempts _ a ha, hids, hholds.receipts _ r hr, hdigest, hd⟩

theorem Accepted.receive (h : Accepted resultDigest db account run execution operation token payload d) (clock : Readings) :
    (receive resultDigest clock account run execution operation token payload).run db = .ok (d, db) := by
  obtain ⟨⟨r, hlock⟩, ⟨⟨_, x⟩, hexecution⟩, ⟨o, ho⟩, a, receipt, ha, hids, hreceipt, hdigest, rfl⟩ := h
  have hregistered : ((db.attempts.lookup (operation, token)).filter fun a =>
      a.accountId = account ∧ a.runId = run ∧ a.executionId = execution) = some a :=
    Option.filter_eq_some_iff.mpr ⟨ha, decide_eq_true hids⟩
  unfold Records.receive
  rw [Tx.bind_query_ok, Tx.bind_ofExcept_ok]
  refine ⟨r, hlock, ?_⟩
  rw [Tx.bind_query_ok, Tx.bind_ofExcept_ok]
  refine ⟨_, hexecution, ?_⟩
  rw [Tx.bind_query_ok, Tx.bind_demand_ok]
  refine ⟨a, hregistered, ?_⟩
  rw [Tx.bind_query_ok, Tx.bind_demand_ok]
  refine ⟨o, ho, ?_⟩
  rw [Tx.bind_query_ok, Tx.bind_query_ok, hreceipt]
  exact Tx.bind_check_ok.mpr ⟨hdigest, rfl⟩

/-- What a receipt that was accepted leaves. -/
theorem receive_accepted
    (h : (receive resultDigest clock account run execution operation token payload).run db = .ok (d, db')) :
    Accepted resultDigest db' account run execution operation token payload d := by
  have hlocks : (∃ r, db.base.lock account run = .ok r) ∧
      ∃ e, db.base.lockExecution account run (some execution) = .ok e := by
    have hrun := h
    unfold receive at hrun
    rw [Tx.bind_query_ok, Tx.bind_ofExcept_ok] at hrun
    obtain ⟨r, hlock, hrun⟩ := hrun
    rw [Tx.bind_query_ok, Tx.bind_ofExcept_ok] at hrun
    obtain ⟨e, hexecution, _⟩ := hrun
    exact ⟨⟨r, hlock⟩, e, hexecution⟩
  obtain ⟨r, x, a, o, _, _, ha, hids, ho, ⟨receipt, hreceipt, hdigest, rfl, rfl⟩ | ⟨receipt, _, rfl, hdigest, _, _, hdone⟩⟩ :=
    receive_parts resultDigest h
  · exact ⟨hlocks.1, hlocks.2, ⟨o, ho⟩, a, receipt, ha, hids, hreceipt, hdigest, rfl⟩
  · have hnew : (db.receipts.insert (operation, a.attemptNo) receipt).lookup (operation, a.attemptNo) = some receipt :=
      AList.lookup_insert _
    rcases hdone with ⟨_, rfl⟩ | ⟨_, rfl⟩
    · exact ⟨hlocks.1, hlocks.2, ⟨o, ho⟩, a, receipt, ha, hids, hnew, hdigest, rfl⟩
    · exact ⟨hlocks.1, hlocks.2, ⟨_, AList.lookup_insert _⟩, a, receipt, ha, hids, hnew, hdigest, rfl⟩

/-- **An accepted receipt that is repeated** finds the same disposition and changes nothing, however much later. -/
theorem receive_again {db₁ : RecordStore δ} (hb : Booked U db)
    (h : (receive resultDigest clock account run execution operation token payload).run db = .ok (d, db₁))
    (hlater : Later resultDigest U db₁ db') (clock' : Readings) :
    (receive resultDigest clock' account run execution operation token payload).run db' = .ok (d, db') := by
  have hb₁ := (receive_files resultDigest (U := U) _ _ _ _ _ _ _ _ _ _ h hb).1
  obtain ⟨_, hholds⟩ := Later.booked resultDigest hlater hb₁
  exact ((receive_accepted resultDigest h).holds resultDigest hholds).receive resultDigest clock'

/-- **A receipt with a different digest** for the same attempt raises. -/
theorem receive_conflict (ha : db.attempts.lookup (operation, token) = some a)
    (hr : db.receipts.lookup (operation, a.attemptNo) = some r) (hdigest : resultDigest payload ≠ r.digest)
    (clock : Readings) (account run execution : Uuid) :
    ∃ e, (receive resultDigest clock account run execution operation token payload).run db = .error e := by
  cases hrun : (receive resultDigest clock account run execution operation token payload).run db with
  | ok p =>
      obtain ⟨_, _, hsame⟩ := receive_found resultDigest ha hr hrun
      exact absurd hsame.symm hdigest
  | error e => exact ⟨e, rfl⟩

/-- Under the fence of the attempt, such a result is refused too, and an open operation stays open. -/
theorem completeOperation_conflict {f : Fence}
    (ha : db.attempts.lookup (operation, f.token) = some a) (hr : db.receipts.lookup (operation, a.attemptNo) = some r)
    (hdigest : resultDigest payload ≠ r.digest) (hopen : ¬Completed db operation) (clock : Readings) (ref : String) :
    ∃ e, (completeOperation resultDigest clock (some f) operation ref payload).run db = .error e := by
  cases hrun : (completeOperation resultDigest clock (some f) operation ref payload).run db with
  | ok p =>
      rcases completeOperation_found resultDigest ha hr hrun with ⟨hcompleted, _⟩ | ⟨_, hsame⟩
      · exact absurd hcompleted hopen
      · exact absurd hsame.symm hdigest
  | error e => exact ⟨e, rfl⟩

end repeats

/-! ### The laws -/

section laws

variable {U : Set String} {db db' : RecordStore δ} {operation : String}

/-- A new current receipt is one of the latest attempt, which produces, of an open operation. -/
theorem ReceiptStep.receipt (h : ReceiptStep resultDigest U db db') (hb : Booked U db) {n : ℕ}
    (hnone : db.receipts.lookup (operation, n) = none) (hr : db'.receipts.lookup (operation, n) = some r)
    (hcurrent : r.disposition = .current) :
    ¬Completed db operation ∧ ∃ t a now, db'.attempts.lookup (operation, t) = some a ∧ a.attemptNo = n ∧
      Latest db' operation t ∧ Producing db'.base now a t := by
  obtain ⟨hb', _, hnew⟩ := h.booked resultDigest hb
  obtain ⟨hopen, t, a, now, ha, hno, hproducing⟩ := hnew operation n r hnone hr hcurrent
  obtain ⟨l, hl, htoken, _⟩ := hproducing.leased
  exact ⟨hopen, t, a, now, ha, hno, hb'.latest ha hl htoken, hproducing⟩

theorem NonCurrent.enqueue {f : Fence} (hb : Booked U db) (h : NonCurrent db operation f.token) (clock : Readings)
    (run : Uuid) (operationType ref : String) (payload : Payload) :
    Completed ((enqueueOperation resultDigest clock (some f) operation run operationType ref payload).commit db)
      operation → Completed db operation := by
  refine Tx.commit_rule (fun s => Completed s operation → Completed db operation) id fun u s hrun _ => ?_
  obtain ⟨a, r, ha, hr, hcurrent⟩ := h
  obtain ⟨_, o, ho, _⟩ := hb.owned operation f.token a ha
  -- the operation and the attempt are there, so nothing happens before the completion
  unfold enqueueOperation at hrun
  rw [Tx.bind_query_ok, ho] at hrun
  dsimp only at hrun
  obtain ⟨_, db₁, hregister, hcomplete⟩ := Tx.bind_ok.mp hrun
  rcases registerAttempt_ok hregister with ⟨rfl, _⟩ | ⟨f', _, hf, _, hnone, _⟩
  · rcases completeOperation_found resultDigest ha hr hcomplete with ⟨hcompleted, _⟩ | ⟨hyes, _⟩
    · exact hcompleted
    · exact absurd hyes hcurrent
  · obtain rfl := Option.some.inj hf
    rw [ha] at hnone
    cases hnone

/-- **Receipt integrity.** In every history: receipts and completed operations stay as they are; a receipt is
recorded as current only for the latest attempt of an open operation, while it produces; a different digest for the
same attempt raises and changes nothing; an attempt with a non-current receipt completes no operation and appends no
event; a non-current result changes its operation only when it is retained, and such an operation gets no event once
its Run or Execution is over, and is no evidence without a current receipt of its own; and a receipt that was accepted
is repeated without effect. -/
theorem receipt_integrity (h : ReceiptReachable resultDigest U db) :
    (∀ db', Later resultDigest U db db' →
      (∀ k r, db.receipts.lookup k = some r → db'.receipts.lookup k = some r) ∧
        ∀ j, Completed db j → db'.operations.lookup j = db.operations.lookup j) ∧
    (∀ db' j n r, ReceiptStep resultDigest U db db' → db.receipts.lookup (j, n) = none →
      db'.receipts.lookup (j, n) = some r → r.disposition = .current → ¬Completed db j ∧
        ∃ t a now, db'.attempts.lookup (j, t) = some a ∧ a.attemptNo = n ∧ Latest db' j t ∧ Producing db'.base now a t) ∧
    (∀ j token a r payload, db.attempts.lookup (j, token) = some a → db.receipts.lookup (j, a.attemptNo) = some r →
      resultDigest payload ≠ r.digest →
      (∀ clock account run execution,
        (∃ e, (receive resultDigest clock account run execution j token payload).run db = .error e) ∧
          (receive resultDigest clock account run execution j token payload).commit db = db) ∧
      ∀ clock f ref, f.token = token →
        (completeOperation resultDigest clock (some f) j ref payload).commit db = db ∧
          (¬Completed db j → ∃ e, (completeOperation resultDigest clock (some f) j ref payload).run db = .error e)) ∧
    (∀ j token, NonCurrent db j token →
      (∀ c : Call, c.Disciplined U → c.By j token →
        (Completed (c.effect resultDigest db) j → Completed db j) ∧ (HasEvent (c.effect resultDigest db) j → HasEvent db j)) ∧
      ∀ clock f run operationType ref payload, f.token = token →
        Completed ((enqueueOperation resultDigest clock (some f) j run operationType ref payload).commit db) j →
          Completed db j) ∧
    (∀ clock account run execution j token payload d db',
      (receive resultDigest clock account run execution j token payload).run db = .ok (d, db') → d ≠ .current →
        NonCurrent db' j token ∧ db'.events = db.events ∧
          (∀ i, i ≠ j → db'.operations.lookup i = db.operations.lookup i) ∧
          (db'.operations.lookup j = db.operations.lookup j ∨ Ended db j ∧ ¬Completed db j ∧
            ∃ a o, db.attempts.lookup (j, token) = some a ∧ db.operations.lookup j = some o ∧
              a.attemptNo = o.attemptCount)) ∧
    (∀ j db', j ∉ U → Ended db j → ¬HasEvent db j → Later resultDigest U db db' → ¬HasEvent db' j) ∧
    (∀ j db', Completed db j → Unproven db j → Later resultDigest U db db' →
      ∀ account run ref, operationEvidence db' account run ref j = false) ∧
    ∀ clock account run execution j token payload d db₁ db',
      (receive resultDigest clock account run execution j token payload).run db = .ok (d, db₁) →
        Later resultDigest U db₁ db' → ∀ clock',
          (receive resultDigest clock' account run execution j token payload).run db' = .ok (d, db') := by
  have hb := h.booked
  have hw := h.recorded
  refine ⟨fun db' hlater => ?_, fun db' j n r hstep => hstep.receipt resultDigest hb, ?_, fun j token hn => ?_, ?_, ?_, ?_, ?_⟩
  · obtain ⟨_, hholds⟩ := Later.booked resultDigest hlater hb
    refine ⟨hholds.receipts, ?_⟩
    rintro j ⟨o, ho, hcompleted⟩
    obtain ⟨o', ho', _, hsame⟩ := hholds.moves j o ho
    rw [ho', ho, hsame hcompleted]
  · intro j token a r payload ha hr hdigest
    refine ⟨fun clock account run execution => ?_, ?_⟩
    · obtain ⟨e, herror⟩ := receive_conflict resultDigest ha hr hdigest clock account run execution
      refine ⟨⟨e, herror⟩, ?_⟩
      unfold Tx.commit
      rw [herror]
    · rintro clock f ref rfl
      by_cases hcompleted : Completed db j
      · exact ⟨completeOperation_closed resultDigest hcompleted, fun hopen => absurd hcompleted hopen⟩
      · obtain ⟨e, herror⟩ := completeOperation_conflict resultDigest ha hr hdigest hcompleted clock ref
        refine ⟨?_, fun _ => ⟨e, herror⟩⟩
        unfold Tx.commit
        rw [herror]
  · refine ⟨fun c hc hby => ⟨c.completes_of_noncurrent resultDigest hb hc hby hn,
      c.appends_of_noncurrent resultDigest hb hw hc hby hn⟩, ?_⟩
    rintro clock f run operationType ref payload rfl
    exact hn.enqueue resultDigest hb clock run operationType ref payload
  · intro clock account run execution j token payload d db' hrun hcurrent
    exact receive_noncurrent resultDigest hb hrun hcurrent
  · intro j db' hU hended hbefore hlater
    exact Later.silent resultDigest hlater hb hw hU hended hbefore
  · intro j db' hcompleted hunproven hlater account run ref
    exact (Later.unproven resultDigest hlater hb hcompleted hunproven).evidence account run ref
  · intro clock account run execution j token payload d db₁ db' hrun hlater clock'
    exact receive_again resultDigest hb hrun hlater clock'

theorem Later.foldl (calls : List Call) (hcalls : ∀ c ∈ calls, c.Disciplined U) :
    Later resultDigest U db (calls.foldl (Call.effect resultDigest) db) := by
  induction calls generalizing db with
  | nil => exact .refl
  | cons c rest ih =>
      have hfirst : ReceiptStep resultDigest U db (c.effect resultDigest db) := .call c (hcalls c List.mem_cons_self)
      exact .head hfirst (ih fun c' hc' => hcalls c' (List.mem_cons_of_mem c hc'))

/-- The Run of `lateBegun` is being cancelled, and its lease is still held. -/
def lateCancelling : RecordStore Payload :=
  { lateBegun with
    base := lateAuthority .cancelling fun e => if e = 5 then some ⟨1, 7, 1, 100⟩ else none
    sessions := lateStart.sessions }

theorem receiptReachable_lateCancelling : ReceiptReachable id ∅ lateCancelling := by
  have hbegun : Later id ∅ lateStart lateBegun := by
    refine Later.foldl id lateCalls fun c hc => ?_
    simp only [lateCalls, List.mem_cons, List.not_mem_nil, or_false] at hc
    rcases hc with rfl | rfl | rfl
    all_goals exact ⟨fun _ => Set.notMem_empty _, fun _ => rfl⟩
  have hforward : Forward lateBegun.base lateCancelling.base := by
    refine ⟨fun _ h => h, fun _ _ h => h, fun _ w h => ⟨w, h, rfl⟩, fun id r hr => ?_, fun id x hx => ?_, fun _ l h => ⟨l, h, le_refl _⟩⟩
    · have hr : (if id = 7 then some ⟨1, .chat 3, .running⟩ else none) = some r := hr
      split at hr
      · next hid =>
          obtain rfl := Option.some.inj hr
          exact ⟨⟨1, .chat 3, .cancelling⟩, if_pos hid, rfl, rfl, nofun⟩
      · cases hr
    · have hx : (if id = 5 then some ⟨1, 7, .running, false⟩ else none) = some x := hx
      split at hx
      · next hid =>
          obtain rfl := Option.some.inj hx
          exact ⟨⟨1, 7, .cancelling, false⟩, if_pos hid, rfl, rfl, nofun⟩
      · cases hx
  exact ⟨lateStart, ⟨rfl, rfl, rfl, rfl, rfl⟩, hbegun.tail (.surroundings _ _ hforward)⟩

theorem receipt_integrity_late : HasEvent lateCancelling "context" ∧ Completed lateCancelling "context" ∧
    ∀ db', Later id ∅ lateCancelling db' → Completed db' "context" := by
  have hevent : HasEvent lateCancelling "context" :=
    ⟨"transcript", 1, ⟨"context", "context", Payload.ofList [("messages", .other "[]")]⟩, rfl, rfl⟩
  have hcompleted : Completed lateCancelling "context" := ⟨_, rfl, rfl⟩
  refine ⟨hevent, hcompleted, fun db' hlater => ?_⟩
  have hsame := ((receipt_integrity id receiptReachable_lateCancelling).1 db' hlater).2 "context" hcompleted
  obtain ⟨o, ho, hstatus⟩ := hcompleted
  exact ⟨o, hsame.trans ho, hstatus⟩

theorem late_result_retained :
    ¬∀ (db : RecordStore Payload), ReceiptReachable id ∅ db →
      ∀ clock account run execution operation token payload d db',
        (receive id clock account run execution operation token payload).run db = .ok (d, db') → d ≠ .current →
          db'.operations.lookup operation = db.operations.lookup operation := by
  intro hall
  have hsame := hall lateCancelling receiptReachable_lateCancelling (fun _ => 0) 1 7 5 "tool" 1 ∅ .cancelled _
    (Tx.run_commit (by decide +kernel)) (by decide)
  exact absurd (congrArg (Option.map Operation.status) hsame) (by decide +kernel)

end laws

end HpAgent.Records
