import HpAgent.Results.GenericResult

/-! # Normalization is conservative

`generic_result_conservative` says what a normalized result can hold, whatever the model wrote: evidence that is
registered for this Run and holds now, a bounded number of it, and no completion against a required branch.  A narrative
text is promoted by observations alone; a recommendation suggests what it says, for the completion policy to decide. -/

namespace HpAgent.Results

open Library Requirements Capabilities

variable {kind : Json} {continuation continuation' : Option Json} {gaps : List (List Char)}

section conservative

variable {δ : Type} {db : ResultStore δ} {uuid : List Char → Option Uuid} {loads : List Char → Option Json} {run : ResultRun}

/-! ### Evidence -/

/-- The predicate is of a kind that a result can have. -/
def PredicateKind.observable : PredicateKind → Bool
  | .outputExists | .checkPassed | .workspaceSaved => true
  | _ => false

/-- The evidence is registered for the Run under its criterion and its type, and its predicate holds; a subject that
another Run has made is authorized. -/
structure Backed (db : ResultStore δ) (uuid : List Char → Option Uuid) (run : ResultRun) (item : Item) (ref : Uuid)
    (row : EvidenceRow) : Prop where
  named : refOf uuid item = .ok ref
  registered : db.evidence.lookup ref = some row
  account : row.accountId = run.accountId
  owner : row.runId = run.runId
  criterion : isAbout item row.criterionId = true
  type : hasType item row.predicate.kind.text = true
  typed : row.predicate.kind.observable = true
  valid : predicateValid db run.accountId run.runId row.predicate = true
  authorized : ∀ f r, db.facts.resultRefs.lookup row.predicate.subjectRef = some f → f.accountId = run.accountId →
    db.facts.results.lookup f.invocationId = some r → r.accountId = run.accountId → r.runId ≠ run.runId →
    authorizeSubject db run.accountId run.runId f.target = .ok ()

theorem predicateValid_observable {account id : Uuid} {p : Predicate} (h : predicateValid db account id p = true) :
    p.kind.observable = true := by
  unfold predicateValid at h
  obtain ⟨f, -, h⟩ := (Option.any_eq_true _ _).mp h
  obtain ⟨r, -, h⟩ := (Option.any_eq_true _ _).mp h
  obtain ⟨file, -, h⟩ := (Option.any_eq_true _ _).mp h
  rw [Bool.and_eq_true] at h
  cases hkind : p.kind with
  | outputExists => rfl
  | checkPassed => rfl
  | workspaceSaved => rfl
  | userAccepted =>
      rw [hkind] at h
      exact absurd h.2 (by simp)
  | deliveryAccepted =>
      rw [hkind] at h
      exact absurd h.2 (by simp)

/-- A criterion that is not a text is equal to none. -/
theorem criterionOf_some {item : Item} {criterion : Option (List Char)} {c : List Char} (h : criterionOf item = .ok criterion)
    (hc : some c = criterion) : isAbout item c = true := by
  subst hc
  unfold criterionOf at h
  unfold isAbout Json.get
  split at h
  next => exact absurd h nofun
  next s hs =>
    rw [hs]
    have heq := Option.some.inj (Except.ok.inj h)
    simp [heq]
  next => exact absurd (Except.ok.inj h) nofun
  next => exact absurd h nofun

theorem validateTypedEvidence_ok {item : Item} {w : Unit} (h : validateTypedEvidence db uuid run item = .ok w) :
    ∃ ref row, Backed db uuid run item ref row := by
  unfold validateTypedEvidence at h
  rw [Outcome.bind_ok] at h
  obtain ⟨ref, href, h⟩ := h
  rw [Outcome.bind_ok] at h
  obtain ⟨criterion, hcriterion, h⟩ := h
  split at h
  next => exact absurd h nofun
  next row hrow =>
    have hfound := Option.filter_eq_some_iff.mp hrow
    have hstored := Option.filter_eq_some_iff.mp hfound.1
    have hcolumns := of_decide_eq_true hstored.2
    rw [Outcome.bind_unit_ok] at h
    obtain ⟨hauthorized, hvalid⟩ := h
    have hvalid := Outcome.require_ok.mp hvalid
    refine ⟨ref, row, href, hstored.1, hcolumns.1, hcolumns.2.1, criterionOf_some hcriterion hcolumns.2.2, hfound.2,
      predicateValid_observable hvalid, hvalid, ?_⟩
    intro f r hf hfa hr hra hother
    unfold authorizeForeign at hauthorized
    rw [hf, Option.filter_some_pos (by simpa using hfa)] at hauthorized
    dsimp only at hauthorized
    rw [hr, Option.filter_some_pos (by simpa using hra)] at hauthorized
    dsimp only at hauthorized
    rw [if_pos hother] at hauthorized
    exact hauthorized

theorem validateItem_ok {item : Json} {e : Item} (h : validateItem db uuid run item = .ok e) :
    item = .obj e ∧ ∃ ref row, Backed db uuid run e ref row := by
  unfold validateItem at h
  split at h
  next fields =>
    rw [Outcome.bind_ok] at h
    obtain ⟨type, -, h⟩ := h
    rw [Outcome.bind_unit_ok] at h
    obtain rfl := Except.ok.inj h.2
    exact ⟨rfl, validateTypedEvidence_ok h.1⟩
  next => exact absurd h nofun

theorem addObserved_ok {evidence evidence' : List Item} {o : Observed} (h : addObserved db uuid run evidence o = .ok evidence') :
    evidence' = evidence ∨ (evidence' = evidence ++ [o.item] ∧ ∃ ref row, Backed db uuid run o.item ref row) := by
  unfold addObserved at h
  split_ifs at h with hpresent
  · exact .inl (Except.ok.inj h).symm
  · rw [Outcome.bind_unit_ok] at h
    exact .inr ⟨(Except.ok.inj h.2).symm, validateTypedEvidence_ok h.1⟩

/-! ### The recommendation -/

theorem bounded_obj {value : Json} {allowed : List String} {fields : Item} (h : bounded value allowed = .ok fields) :
    value = .obj fields := by
  unfold bounded at h
  split at h
  next fs =>
    rw [Outcome.bind_unit_ok, Outcome.bind_unit_ok] at h
    rw [Except.ok.inj h.2.2]
  next => exact absurd h nofun

/-- What a text recommends: nothing when it is narrative, and else what its document says. -/
theorem parseGenericResult_ok {content : Option (List Char)} {r : Recommendation} {narrative : Bool}
    (h : parseGenericResult loads content = .ok (r, narrative)) :
    if isExplicit (genericResultObject loads content) then
      narrative = false ∧ ∃ fields, genericResultObject loads content = some (.obj fields) ∧ r.kind = Json.get fields "kind"
    else narrative = true ∧ r.kind = .str "progress_saved".toList ∧ r.evidence = [] := by
  unfold parseGenericResult at h
  dsimp only at h
  rw [Outcome.bind_ok] at h
  obtain ⟨waiting, -, h⟩ := h
  rw [Outcome.bind_ok] at h
  obtain ⟨fields, hfields, h⟩ := h
  rw [Outcome.bind_ok] at h
  obtain ⟨items, hitems, h⟩ := h
  have heq := Except.ok.inj h
  rw [Prod.mk.injEq] at heq
  obtain ⟨rfl, rfl⟩ := heq
  have hobj := bounded_obj hfields
  cases hexplicit : isExplicit (genericResultObject loads content) with
  | true =>
      rw [hexplicit] at hobj
      rw [if_pos rfl]
      refine ⟨rfl, fields, ?_, rfl⟩
      cases hfound : genericResultObject loads content with
      | none =>
          rw [hfound] at hexplicit
          exact absurd hexplicit nofun
      | some value =>
          rw [hfound] at hobj
          exact congrArg some hobj
  | false =>
      rw [hexplicit] at hobj
      rw [if_neg nofun]
      have hnarrative := (Json.obj.inj hobj).symm
      subst hnarrative
      refine ⟨rfl, rfl, ?_⟩
      exact (Except.ok.inj hitems).symm

/-! ### Completion -/

theorem promote_ok {narrative : Bool} {automatic : List Observed} {evidence : List Item} {r : Recommendation}
    (h : promote db uuid run narrative automatic evidence r = .ok (kind, continuation)) :
    kind = r.kind ∨ (kind = .str "deliverable_ready".toList ∧ narrative = true ∧ automatic ≠ [] ∧
      observedComplete db uuid run evidence = true) := by
  unfold promote at h
  split_ifs at h with hpromoted
  · rw [Bool.and_eq_true, Bool.and_eq_true] at hpromoted
    rw [Outcome.bind_ok] at h
    obtain ⟨ready, -, h⟩ := h
    have heq := Except.ok.inj h
    rw [Prod.mk.injEq] at heq
    exact .inr ⟨heq.1.symm, hpromoted.1.1, by simpa using hpromoted.1.2, hpromoted.2⟩
  · have heq := Except.ok.inj h
    rw [Prod.mk.injEq] at heq
    exact .inl heq.1.symm

/-- With gaps nothing is ready; without them nothing changes. -/
theorem withGaps_ok {kind' : Json}
    (h : withGaps gaps kind continuation = .ok (kind', continuation')) :
    (kind' = kind ∧ (gaps = [] ∨ isText "deliverable_ready" kind = false)) ∨
      (kind' = .str "progress_saved".toList ∧ gaps ≠ [] ∧ isText "deliverable_ready" kind = true) := by
  unfold withGaps at h
  split_ifs at h with hblocked
  · rw [Outcome.bind_ok] at h
    obtain ⟨blocked, -, h⟩ := h
    have heq := Except.ok.inj h
    rw [Prod.mk.injEq] at heq
    exact .inr ⟨heq.1.symm, hblocked⟩
  · have heq := Except.ok.inj h
    rw [Prod.mk.injEq] at heq
    refine .inl ⟨heq.1.symm, ?_⟩
    by_cases hgaps : gaps = []
    · exact .inl hgaps
    · exact .inr (Bool.eq_false_iff.mpr fun hready => hblocked ⟨hgaps, hready⟩)

theorem progress_not_ready : isText "deliverable_ready" (.str "progress_saved".toList) = false := by decide

/-- The kind that is left of one when nothing may be ready. -/
def withoutReady (kind : Json) : Json :=
  if isText "deliverable_ready" kind then .str "progress_saved".toList else kind

theorem withoutReady_not_ready (kind : Json) : isText "deliverable_ready" (withoutReady kind) = false := by
  unfold withoutReady
  split_ifs with hready
  · exact progress_not_ready
  · exact Bool.not_eq_true _ ▸ hready

theorem withGaps_kind {kind' : Json}
    (h : withGaps gaps kind continuation = .ok (kind', continuation')) (hgaps : gaps ≠ []) : kind' = withoutReady kind := by
  unfold withoutReady
  rcases withGaps_ok h with ⟨heq, hnone | hready⟩ | ⟨heq, -, hready⟩
  · exact absurd hnone hgaps
  · rw [heq, hready, if_neg nofun]
  · rw [heq, hready, if_pos rfl]

/-- Every required criterion has evidence of a type that it accepts. -/
def Satisfies (criteria : List Criterion) (evidence : List Item) : Prop :=
  ∀ c ∈ criteria, c.required = true → ∃ e ∈ evidence, isAbout e c.id = true ∧ ∃ t ∈ c.evidenceTypes, hasType e t = true

theorem criteriaSatisfied_iff {criteria : List Criterion} {evidence : List Item} :
    criteriaSatisfied criteria evidence = true ↔ Satisfies criteria evidence := by
  unfold criteriaSatisfied Satisfies
  rw [List.all_eq_true]
  apply forall₂_congr
  intro c hc
  rw [Bool.or_eq_true, Bool.not_eq_true', List.any_eq_true]
  cases c.required with
  | false => simp
  | true => simp [List.any_eq_true]

/-- What is promised of a normalized result. -/
structure Conservative (db : ResultStore δ) (uuid : List Char → Option Uuid) (loads : List Char → Option Json) (run : ResultRun)
    (content : Option (List Char)) (result : GenericResult) (suggested : Bool) : Prop where
  bounded : result.evidence.length ≤ 40
  backed : ∀ e ∈ result.evidence, ∃ ref row, Backed db uuid run e ref row
  /-- Against a required branch there is no completion: narrative and a document that says ready have then saved progress. -/
  gaps : requiredBranchGaps db run.accountId run.runId ≠ [] →
    suggested = false ∧ isText "deliverable_ready" result.kind = false ∧
      if isExplicit (genericResultObject loads content) then
        ∃ fields, genericResultObject loads content = some (.obj fields) ∧
          result.kind = withoutReady (Json.get fields "kind")
      else result.kind = .str "progress_saved".toList
  /-- Completion is suggested by the document of the model, or by observations that satisfy every required criterion. -/
  complete : suggested = true → requiredBranchGaps db run.accountId run.runId = [] ∧ needsUser run = false ∧
    if isExplicit (genericResultObject loads content) then
      ∃ fields, genericResultObject loads content = some (.obj fields) ∧ isText "deliverable_ready" (Json.get fields "kind") = true
    else
      observedTextEvidence db run ≠ [] ∧ (∀ e ∈ result.evidence, ∃ o ∈ observedTextEvidence db run, e = o.item) ∧
        (validateDeliveryEvidence db uuid run result.evidence).isOk = true ∧
        Satisfies run.requirement.acceptanceCriteria result.evidence ∧ run.requirement.saveRequired = false

/-- Whatever the model wrote and whatever was observed, the normalized result is conservative. -/
theorem generic_result_conservative {checkpointVersion : ℕ} {content : Option (List Char)} {resultRef : List Char}
    {result : GenericResult} {suggested : Bool}
    (h : genericResult db uuid loads run checkpointVersion content resultRef = .ok (result, suggested)) :
    Conservative db uuid loads run content result suggested := by
  unfold genericResult at h
  rw [Outcome.bind_ok] at h
  obtain ⟨⟨r, narrative⟩, hparse, h⟩ := h
  have hr := parseGenericResult_ok (Outcome.mapError_ok.mp hparse)
  dsimp only at h
  rw [Outcome.bind_ok] at h
  obtain ⟨explicit, hexplicit, h⟩ := h
  rw [Outcome.bind_ok] at h
  obtain ⟨evidence, hevidence, h⟩ := h
  rw [Outcome.bind_unit_ok] at h
  obtain ⟨hbounded, h⟩ := h
  have hbounded := of_decide_eq_true (Outcome.require_ok.mp hbounded)
  rw [Outcome.bind_ok] at h
  obtain ⟨⟨kind₁, continuation₁⟩, hpromote, h⟩ := h
  dsimp only at h
  rw [Outcome.bind_ok] at h
  obtain ⟨⟨kind, continuation⟩, hgaps, h⟩ := h
  dsimp only at h
  have hbacked : ∀ e ∈ evidence, ∃ ref row, Backed db uuid run e ref row := by
    apply Outcome.foldlM_keeps (P := fun es : List Item => ∀ e ∈ es, ∃ ref row, Backed db uuid run e ref row) _ _ hevidence
    · intro es o es' ho hes hstep
      cases addObserved_ok hstep with
      | inl heq =>
          rw [heq]
          exact hes
      | inr hnew =>
          rw [hnew.1]
          exact List.forall_mem_append.mpr ⟨hes, List.forall_mem_singleton.mpr hnew.2⟩
    · intro e he
      obtain ⟨item, -, hitem⟩ := Outcome.mem_mapM hexplicit e he
      exact (validateItem_ok hitem).2
  -- narrative brings no evidence of its own
  have hobserved : narrative = true → ∀ e ∈ evidence, ∃ o ∈ observedTextEvidence db run, e = o.item := by
    intro hnarrative
    have hnone : explicit = [] := by
      split_ifs at hr with hex
      · rw [hr.1] at hnarrative
        exact absurd hnarrative nofun
      · rw [hr.2.2, List.mapM_nil] at hexplicit
        exact (Except.ok.inj hexplicit).symm
    rw [hnone] at hevidence
    apply Outcome.foldlM_keeps (P := fun es : List Item => ∀ e ∈ es, ∃ o ∈ observedTextEvidence db run, e = o.item) _ _ hevidence
    · intro es o es' ho hes hstep
      cases addObserved_ok hstep with
      | inl heq =>
          rw [heq]
          exact hes
      | inr hnew =>
          rw [hnew.1]
          exact List.forall_mem_append.mpr ⟨hes, List.forall_mem_singleton.mpr ⟨o, ho, rfl⟩⟩
    · exact fun e he => absurd he List.not_mem_nil
  have hpromoted := promote_ok hpromote
  have hkind := withGaps_ok hgaps
  -- the two endings return the same evidence and the same kind
  have hend : result.evidence = evidence ∧ result.kind = kind ∧
      (suggested = true → isText "deliverable_ready" kind = true ∧ needsUser run = false) := by
    split_ifs at h with huser
    · rw [Outcome.bind_ok] at h
      obtain ⟨waiting, -, h⟩ := h
      have heq := Except.ok.inj h
      rw [Prod.mk.injEq] at heq
      obtain ⟨rfl, rfl⟩ := heq
      exact ⟨rfl, rfl, nofun⟩
    · have heq := Except.ok.inj h
      rw [Prod.mk.injEq] at heq
      obtain ⟨rfl, rfl⟩ := heq
      refine ⟨rfl, rfl, fun hready => ⟨hready, ?_⟩⟩
      exact Bool.eq_false_iff.mpr fun hneeds => huser (by rw [hready, hneeds]; rfl)
  obtain ⟨hresult, hresultKind, hsuggested⟩ := hend
  refine ⟨by rw [hresult]; exact hbounded, by rw [hresult]; exact hbacked, ?_, ?_⟩
  · intro hmissing
    have hleft : result.kind = withoutReady kind₁ := hresultKind.trans (withGaps_kind hgaps hmissing)
    have hnot : isText "deliverable_ready" result.kind = false := by
      rw [hleft]
      exact withoutReady_not_ready kind₁
    refine ⟨?_, hnot, ?_⟩
    · apply Bool.eq_false_iff.mpr
      intro hsuggest
      rw [hresultKind, (hsuggested hsuggest).1] at hnot
      exact absurd hnot nofun
    · split_ifs at hr ⊢ with hex
      · obtain ⟨hfalse, fields, hfields, hfieldsKind⟩ := hr
        refine ⟨fields, hfields, ?_⟩
        cases hpromoted with
        | inl hsame => rw [hleft, hsame, hfieldsKind]
        | inr hpromotion =>
            rw [hfalse] at hpromotion
            exact absurd hpromotion.2.1 nofun
      · -- a promotion is taken back
        rw [hleft]
        cases hpromoted with
        | inl hsame =>
            rw [hsame, hr.2.1]
            rfl
        | inr hpromotion =>
            rw [hpromotion.1]
            rfl
  · intro hsuggest
    obtain ⟨hready, huser⟩ := hsuggested hsuggest
    rcases hkind with ⟨heq, hnone⟩ | ⟨heq, -, -⟩
    · have hgone : requiredBranchGaps db run.accountId run.runId = [] := by
        cases hnone with
        | inl h => exact h
        | inr h =>
            rw [← heq, hready] at h
            exact absurd h nofun
      refine ⟨hgone, huser, ?_⟩
      split_ifs at hr ⊢ with hex
      · obtain ⟨hfalse, fields, hfields, hfieldsKind⟩ := hr
        refine ⟨fields, hfields, ?_⟩
        cases hpromoted with
        | inl hsame => rw [← hfieldsKind, ← hsame, ← heq, hready]
        | inr hpromotion =>
            rw [hfalse] at hpromotion
            exact absurd hpromotion.2.1 nofun
      · cases hpromoted with
        | inl hsame =>
            rw [heq, hsame, hr.2.1, progress_not_ready] at hready
            exact absurd hready nofun
        | inr hpromotion =>
            rw [hresult]
            have hcomplete := hpromotion.2.2.2
            unfold observedComplete at hcomplete
            rw [Bool.and_eq_true, Bool.and_eq_true, Bool.not_eq_true'] at hcomplete
            exact ⟨hpromotion.2.2.1, hobserved hr.1, hcomplete.1.1, criteriaSatisfied_iff.mp hcomplete.1.2, hcomplete.2⟩
    · rw [heq, progress_not_ready] at hready
      exact absurd hready nofun

end conservative

/-! ### A recommendation -/

/-- A file that the Run 2 of the account 1 has made as the reference 5, registered as the evidence 7. -/
def reportStore : ResultStore Unit where
  facts :=
    { records :=
        { base :=
            { accounts := fun _ => none
              conversations := fun _ _ => false
              runs := fun id => if id = 2 then some ⟨1, .work 3 1 1, .running⟩ else none
              works := fun _ => none
              executions := fun _ => none
              rootExecution := fun _ => none
              leases := fun _ => none
              snapshotRevoked := fun _ => false }
          sessions := fun _ => none
          operations := ∅
          attempts := ∅
          receipts := ∅
          transcripts := ∅
          events := ∅ }
      world :=
        { files := fun id => if id = 9 then some ⟨1, some 2, true, true, "sha"⟩ else none
          artifactVersions := fun _ => none
          nodeGranted := fun _ _ _ _ => false
          fileAuthorized := fun _ _ _ => false
          subjectFileAuthorized := fun _ _ _ => false
          blockedReason := fun _ => none }
      executions := ∅
      invocations := ∅
      inputRefs := ∅
      results := (∅ : Table String ResultRow).insert "call" ⟨1, 2, 4, "call", ⟨.succeeded, "Done.", [], [], [], none, none⟩⟩
      resultRefs := (∅ : Table Uuid RefRow).insert 5 ⟨1, "call", .markdown, .file 9, none⟩
      checks := ∅
      adoptions := ∅
      observations := ∅ }
  catalog := ⟨fun _ => none, fun _ => 1, ∅, ∅, fun _ _ => false, ∅, ∅, ∅, ∅⟩
  evidence := (∅ : Table Uuid EvidenceRow).insert 7 ⟨1, 2, "report".toList, ⟨.outputExists, 5, none, none, none, none, none⟩⟩
  delegations := []
  branches := []
  outputEvidence := fun _ _ => none

/-- A Run that has to make a report and to have it checked. -/
def reportRun : ResultRun where
  accountId := 1
  runId := 2
  sourceKind := "work"
  executorKey := "work_agent"
  requirementRevision := some 1
  workControlEpoch := some 1
  requirement :=
    ⟨[⟨"report".toList, true, ["output_exists"]⟩, ⟨"checked".toList, true, ["check_passed"]⟩], false, none⟩

def reportUuid (s : List Char) : Option Uuid := if s = "7".toList then some 7 else none

/-- A text that recommends completion with the evidence of one criterion. -/
def readyText : List Char := "\x7b\"schema_version\":1,\"kind\":\"deliverable_ready\",\"evidence\":[\x7b\"criterion_id\":\"report\",\"type\":\"output_exists\",\"ref\":\"7\"\x7d]\x7d".toList

/-- The reader of that text. -/
def readyLoads (s : List Char) : Option Json :=
  if s = readyText then
    some (.obj [("schema_version".toList, .int 1), ("kind".toList, .str "deliverable_ready".toList),
      ("evidence".toList, .arr [.obj [("criterion_id".toList, .str "report".toList), ("type".toList, .str "output_exists".toList),
        ("ref".toList, .str "7".toList)]])])
  else none

theorem report_ready : ∃ result, genericResult reportStore reportUuid readyLoads reportRun 1 (some readyText) "final".toList
    = .ok (result, true) ∧ result.evidence.length = 1 := by
  have hready : ((genericResult reportStore reportUuid readyLoads reportRun 1 (some readyText) "final".toList).toOption.map
      fun r => (r.1.evidence.length, r.2)) = some (1, true) := by decide +kernel
  cases hresult : genericResult reportStore reportUuid readyLoads reportRun 1 (some readyText) "final".toList with
  | error e =>
      rw [hresult] at hready
      exact absurd hready nofun
  | ok r =>
      rw [hresult] at hready
      have heq := Option.some.inj hready
      rw [Prod.mk.injEq] at heq
      obtain ⟨result, suggested⟩ := r
      obtain rfl := heq.2
      exact ⟨result, rfl, heq.1⟩

/-- The normalized recommendation has one item of evidence, and it is registered. -/
theorem generic_result_conservative_report : ∃ result : GenericResult, result.evidence.length = 1 ∧
    Conservative reportStore reportUuid readyLoads reportRun (some readyText) result true := by
  obtain ⟨result, hresult, hlength⟩ := report_ready
  exact ⟨result, hlength, generic_result_conservative hresult⟩

/-- A recommendation suggests completion although nothing was observed and a required criterion has no evidence. -/
theorem ready_without_evidence : ¬∀ (db : ResultStore Unit) (uuid : List Char → Option Uuid) (loads : List Char → Option Json)
    (run : ResultRun) (checkpointVersion : ℕ) (content : Option (List Char)) (resultRef : List Char) (result : GenericResult),
    genericResult db uuid loads run checkpointVersion content resultRef = .ok (result, true) →
      criteriaSatisfied run.requirement.acceptanceCriteria ((observedTextEvidence db run).map Observed.item) = true := by
  intro h
  obtain ⟨result, hresult, -⟩ := report_ready
  have hsatisfied := h reportStore reportUuid readyLoads reportRun 1 (some readyText) "final".toList result hresult
  revert hsatisfied
  decide +kernel

end HpAgent.Results
