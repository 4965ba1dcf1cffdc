import HpAgent.Capabilities.Facts
import HpAgent.Library.Outcomes
import HpAgent.Requirements.Requirement
import HpAgent.Workspace.Catalog

/-! # Evidence for a result

Evidence names a criterion, a kind and a stored predicate.  `validateTypedEvidence` finds the predicate among those that
the Run registered and asks whether it holds now (`predicateValid`, the function of the database).

* `observedTextEvidence`: what the Run itself has observed of its texts.
* `criteriaSatisfied`, `validateDeliveryEvidence`: what a requirement asks of the evidence.
* `requiredBranchGaps`: the required branches that have not succeeded. -/

namespace HpAgent.Results

open Library Requirements Capabilities

/-! ### Rows -/

/-- The kinds of `AcceptancePredicate`. -/
inductive PredicateKind where
  | outputExists | checkPassed | workspaceSaved | userAccepted | deliveryAccepted
deriving DecidableEq, Repr

def PredicateKind.text : PredicateKind → String
  | .outputExists => "output_exists"
  | .checkPassed => "check_passed"
  | .workspaceSaved => "workspace_saved"
  | .userAccepted => "user_accepted"
  | .deliveryAccepted => "delivery_accepted"

/-- `AcceptancePredicate`. -/
structure Predicate where
  kind : PredicateKind
  subjectRef : Uuid
  verifierKey : Option String
  verifierVersion : Option String
  targetId : Option Uuid
  operationId : Option String
  targetRevision : Option ℕ
deriving DecidableEq, Repr

/-- `capability_acceptance_evidence`. -/
structure EvidenceRow where
  accountId : Uuid
  runId : Uuid
  criterionId : List Char
  predicate : Predicate
deriving DecidableEq, Repr

/-- An item of `output_exists_evidence`. -/
structure Observed where
  criterionId : List Char
  type : List Char
  ref : List Char
deriving DecidableEq, Repr

/-- A brief of `execution_delegations.briefs`. -/
structure Brief where
  branchKey : List Char
  required : Bool
deriving DecidableEq, Repr

/-- `execution_delegations`. -/
structure Delegation where
  accountId : Uuid
  runId : Uuid
  executionId : Uuid
  briefs : List Brief
deriving DecidableEq, Repr

/-- A branch among `run_executions`. -/
structure Branch where
  parentExecutionId : Uuid
  branchKey : List Char
  succeeded : Bool
deriving DecidableEq, Repr

/-- What the normalization of a result reads.  `outputEvidence` is the member `output_exists_evidence` of the event of a
transcript, where it has one. -/
structure ResultStore (δ : Type) where
  facts : FactStore δ
  catalog : Workspace.CatalogStore δ
  evidence : Table Uuid EvidenceRow
  delegations : List Delegation
  branches : List Branch
  outputEvidence : String → ℕ → Option (List Observed)

/-- A criterion of a requirement. -/
structure Criterion where
  id : List Char
  required : Bool
  evidenceTypes : List String
deriving DecidableEq, Repr

inductive Format where
  | markdown | docx
deriving DecidableEq, Repr

/-- An item of `deliverables`. -/
structure DeliveryTarget where
  format : Format
  required : Bool
  outputCriterionId : List Char
  formatCriterionId : List Char
deriving DecidableEq, Repr

/-- The requirement in the snapshot of a Run. -/
structure Snapshot where
  acceptanceCriteria : List Criterion
  saveRequired : Bool
  deliverables : Option (List DeliveryTarget)
deriving DecidableEq, Repr

/-- The row of the Run whose result it is. -/
structure ResultRun where
  accountId : Uuid
  runId : Uuid
  sourceKind : String
  executorKey : String
  requirementRevision : Option ℕ
  workControlEpoch : Option ℕ
  requirement : Snapshot
deriving DecidableEq, Repr

/-- The exceptions. -/
inductive ResultError where
  | raised (e : Exn)
  | resourceDenied (message : String)
  /-- The database does not take the type of a parameter. -/
  | databaseError
deriving DecidableEq, Repr

/-- A dictionary. -/
abbrev Item := List (List Char × Json)

variable {δ : Type} (db : ResultStore δ)

/-! ### Predicates -/

/-- The file of a reference, when it has one and its version is completed. -/
def refFile (account : Uuid) : Target → Option Uuid
  | .file fileId => some fileId
  | .artifact _ version =>
      ((db.facts.world.artifactVersions version).filter fun v => v.accountId = account ∧ v.completed = true).bind
        ArtifactVersion.fileId

/-- The result was made by this Run, or the Run has adopted it as it is now. -/
def availableTo (account run ref : Uuid) (producer : Uuid) : Bool :=
  (db.facts.records.base.ownedRun account run).any fun consumer =>
    producer = run || db.facts.adoptions.entries.any fun a =>
      a.1.2 = ref && a.2.accountId = account && a.2.runId = run
        && a.2.requirementRevision = Records.requirementRevisionOf consumer && a.2.workControlEpoch = workControlEpochOf consumer

/-- The verifier has passed the reference. -/
def checkPassed (account ref : Uuid) (p : Predicate) : Bool :=
  db.facts.checks.entries.any fun c =>
    c.1.2.2.2 = ref && some c.1.2.1 = p.verifierKey && some c.1.2.2.1 = p.verifierVersion && c.2.accountId = account
      && c.2.verdict = .passed

/-- The file was saved by this Run where the predicate says, and is there. -/
def workspaceSaved (account run file : Uuid) (p : Predicate) : Bool :=
  p.operationId.any fun operation =>
    ((db.catalog.saveOperations.lookup (account, operation)).any fun o =>
      o.sourceRunId = some run && some o.nodeId = p.targetId && p.targetRevision = none
        && (db.catalog.nodes.lookup o.nodeId).any fun n => n.accountId = account && n.fileId = some file && !n.deleted) ||
    ((db.catalog.versionOperations.lookup (account, operation)).any fun o =>
      o.sourceRunId = some run && some o.version.nodeId = p.targetId && o.version.fileId = file
        && p.targetRevision.all fun revision => o.version.revision = revision)

/-- `capability_predicate_valid`. -/
def predicateValid (account run : Uuid) (p : Predicate) : Bool :=
  ((db.facts.resultRefs.lookup p.subjectRef).filter fun f => f.accountId = account).any fun f =>
    ((db.facts.results.lookup f.invocationId).filter fun r => r.accountId = account).any fun r =>
      (refFile db account f.target).any fun file =>
        fileReady db.facts.world account file && availableTo db account run p.subjectRef r.runId &&
          match p.kind with
          | .outputExists => f.type = .markdown || f.type = .file || f.type = .artifactVersion
          | .checkPassed => checkPassed db account p.subjectRef p
          | .workspaceSaved => workspaceSaved db account run file p
          | _ => false

/-! ### Validation -/

variable (uuid : List Char → Option Uuid)

/-- `_authorize_resource`, for the Run. -/
def authorizeSubject (account run : Uuid) (target : Target) : Except ResultError Unit := do
  let file := refFile db account target
  Outcome.require (file.any (db.facts.world.subjectFileAuthorized account run))
    (.resourceDenied "current resource authorization is absent")
  Outcome.require (file.any (fileReady db.facts.world account)) (.resourceDenied "result file is unavailable")

/-- `UUID(item["ref"])`; no evidence has the identifier of a text that is none. -/
def refOf (item : Item) : Except ResultError Uuid :=
  match item.lookup "ref".toList with
  | none => .error (.raised .keyError)
  | some (.str s) => Outcome.demand (uuid s) (.raised (.valueError "badly formed hexadecimal UUID string"))
  | some .null => .error (.raised .typeError)
  | some _ => .error (.raised .attributeError)

/-- `item["criterion_id"]` as a parameter of a query; `NULL` is equal to nothing. -/
def criterionOf (item : Item) : Except ResultError (Option (List Char)) :=
  match item.lookup "criterion_id".toList with
  | none => .error (.raised .keyError)
  | some (.str s) => .ok (some s)
  | some .null => .ok none
  | some _ => .error .databaseError

/-- The item says of itself that it is of this type. -/
def hasType (item : Item) (type : String) : Bool := isText type (Json.get item "type")

/-- The item is about this criterion. -/
def isAbout (item : Item) (criterion : List Char) : Bool :=
  match Json.get item "criterion_id" with
  | .str s => s = criterion
  | _ => false

/-- The registered evidence with this identifier. -/
def evidenceOf (run : ResultRun) (ref : Uuid) (criterion : Option (List Char)) : Option EvidenceRow :=
  (db.evidence.lookup ref).filter fun e => e.accountId = run.accountId ∧ e.runId = run.runId ∧ some e.criterionId = criterion

/-- The subject of a predicate, when another Run has made it, has to be authorized. -/
def authorizeForeign (run : ResultRun) (subjectRef : Uuid) : Except ResultError Unit :=
  match (db.facts.resultRefs.lookup subjectRef).filter fun f => f.accountId = run.accountId with
  | none => .ok ()
  | some f =>
      match (db.facts.results.lookup f.invocationId).filter fun r => r.accountId = run.accountId with
      | none => .ok ()
      | some r => if r.runId ≠ run.runId then authorizeSubject db run.accountId run.runId f.target else .ok ()

/-- `validate_typed_evidence`. -/
def validateTypedEvidence (run : ResultRun) (item : Item) : Except ResultError Unit := do
  let ref ← refOf uuid item
  let criterion ← criterionOf item
  match (evidenceOf db run ref criterion).filter fun e => hasType item e.predicate.kind.text with
  | none => .error (.raised (.valueError "typed evidence does not resolve to exact current facts"))
  | some row => do
      authorizeForeign db run row.predicate.subjectRef
      Outcome.require (predicateValid db run.accountId run.runId row.predicate)
        (.raised (.valueError "typed evidence does not resolve to exact current facts"))

/-! ### What the Run has observed -/

/-- The root of the Run has observed a text of the current revision: its place in the transcript and the evidence. -/
def observationOf (run : ResultRun) (invocation : String) (o : Observation) : Option (ℕ × List Observed) := do
  let i ← (db.facts.invocations.lookup invocation).filter fun i =>
    i.accountId = run.accountId ∧ i.runId = o.runId ∧ i.requirementRevision.isSome ∧ i.requirementRevision = run.requirementRevision ∧
      i.workControlEpoch.isSome ∧ i.workControlEpoch = run.workControlEpoch ∧ i.capabilityKey = "text" ∧ i.contractVersion = 1
  let _ ← (db.facts.results.lookup invocation).filter fun r => r.accountId = run.accountId
  let _ ← (db.facts.records.events.lookup (o.transcriptId, o.sequence)).filter fun e => e.eventType = "tool_result"
  let _ ← (db.facts.records.transcripts.lookup o.transcriptId).filter fun t =>
    t.executionId = i.callerExecutionId ∧ t.accountId = o.accountId ∧ t.runId = o.runId
  let _ ← (db.facts.executions.lookup i.callerExecutionId).filter fun x =>
    x.role = .root ∧ o.callerExecutionId = i.callerExecutionId
  let evidence ← db.outputEvidence o.transcriptId o.sequence
  return (o.sequence, evidence)

/-- The observations of the Run, the latest first, a hundred at most. -/
def observationRows (run : ResultRun) : List (ℕ × List Observed) :=
  let mine := db.facts.observations.entries.filter fun o => o.2.accountId = run.accountId && o.2.runId = run.runId
  ((mine.filterMap fun o => observationOf db run o.1 o.2).insertionSort fun a b => b.1 ≤ a.1).take 100

/-- `selected.setdefault(item['criterion_id'], item)`. -/
def firstOfEach (items : List Observed) : List Observed :=
  items.foldl (fun acc item => if acc.any fun e => e.criterionId = item.criterionId then acc else acc ++ [item]) []

/-- `observed_text_evidence`. -/
def observedTextEvidence (run : ResultRun) : List Observed :=
  if run.sourceKind ≠ "work" ∨ run.executorKey ≠ "work_agent" then []
  else firstOfEach ((observationRows db run).flatMap Prod.snd)

/-! ### What the requirement asks for -/

/-- `criteria_satisfied`. -/
def criteriaSatisfied (criteria : List Criterion) (evidence : List Item) : Bool :=
  criteria.all fun c => !c.required || evidence.any fun e => isAbout e c.id && c.evidenceTypes.any (hasType e)

/-- `FORMATS`. -/
def Format.verifier : Format → String × String
  | .markdown => ("file.format.markdown", "1")
  | .docx => ("file.format.docx", "1")

/-- The subjects of the evidence of this type for a criterion; of checks only those of the format. -/
def subjectsOf (run : ResultRun) (format : Format) (criterion : List Char) (type : String) (evidence : List Item) :
    Except ResultError (List Uuid) := do
  let found ← (evidence.filter fun e => isAbout e criterion && hasType e type).mapM fun e => do
    let ref ← refOf uuid e
    return (evidenceOf db run ref (some criterion)).filter fun row =>
      type = "output_exists" ∨ (row.predicate.verifierKey = some format.verifier.1 ∧ row.predicate.verifierVersion = some format.verifier.2)
  return (found.filterMap id).map fun row => row.predicate.subjectRef

/-- `validate_delivery_evidence`, target by target; `assigned` are the references already taken. -/
def validateTargets (run : ResultRun) (evidence : List Item) : List Uuid → List DeliveryTarget → Except ResultError Unit
  | _, [] => .ok ()
  | assigned, target :: rest =>
      if target.required then do
        let outputs ← subjectsOf db uuid run target.format target.outputCriterionId "output_exists" evidence
        let checks ← subjectsOf db uuid run target.format target.formatCriterionId "check_passed" evidence
        let common := (outputs.filter fun ref => ref ∈ checks).eraseDups
        Outcome.require (common.length = 1 && !common.any fun ref => ref ∈ assigned)
          (.raised (.valueError "delivery existence and format need the same distinct ResultRef"))
        validateTargets run evidence (assigned ++ common) rest
      else validateTargets run evidence assigned rest

/-- `validate_delivery_evidence`. -/
def validateDeliveryEvidence (run : ResultRun) (evidence : List Item) : Except ResultError Unit :=
  match run.requirement.deliverables with
  | none => .ok ()
  | some targets => validateTargets db uuid run evidence [] targets

/-- `required_branch_gaps`. -/
def requiredBranchGaps (account run : Uuid) : List (List Char) :=
  (db.delegations.filter fun d => d.accountId = account && d.runId = run).flatMap fun d =>
    (d.briefs.filter fun b => b.required && !db.branches.any fun e =>
      e.parentExecutionId = d.executionId && e.branchKey = b.branchKey && e.succeeded).map Brief.branchKey

end HpAgent.Results
