import HpAgent.Capabilities.Contracts

/-! # The facts of a capability

An invocation is registered by the tool operation of a root Execution and gives work to one child Execution; the child
publishes one result, and the root records that it has observed it.  `create`, `publishResult`, `recordObservation` and
`adopt` are the calls; each one, when its fact is there already, compares it with its arguments and writes nothing.
`prepare` is the call of the runtime around `create`.

The triggers of the tables are part of the insertions.  The calls read files, grants and the progress of a Work without
changing them; these stand in `World`. -/

namespace HpAgent.Capabilities

open Library Records

/-! ### Rows -/

inductive Role where
  | root | subagent | capability
deriving DecidableEq, Repr

/-- The columns of `run_executions` that `Authority` leaves out; only a capability has a scope of this kind. -/
structure ExecutionRow where
  accountId : Uuid
  runId : Uuid
  role : Role
  parentExecutionId : Option Uuid
  invocationId : Option String
  resourceScope : Option Scope
  resultRef : Option String
deriving DecidableEq, Repr

/-- `capability_invocations`; the key is the operation of the caller. -/
structure Invocation (δ : Type) where
  accountId : Uuid
  runId : Uuid
  callerExecutionId : Uuid
  childExecutionId : Uuid
  capabilityKey : String
  contractVersion : ℕ
  implementationVersion : String
  descriptor : Descriptor
  descriptorDigest : δ
  requirementRevision : Option ℕ
  workControlEpoch : Option ℕ

/-- `capability_results`; the key is the invocation. -/
structure ResultRow where
  accountId : Uuid
  runId : Uuid
  producingExecutionId : Uuid
  producingOperationId : String
  payload : CapabilityResult
deriving DecidableEq

/-- What a reference points to. -/
inductive Target where
  | file (fileId : Uuid)
  | artifact (artifactId versionId : Uuid)
deriving DecidableEq, Repr

/-- `capability_result_refs`. -/
structure RefRow where
  accountId : Uuid
  invocationId : String
  type : RefType
  target : Target
  sha256 : Option String
deriving DecidableEq, Repr

/-- `capability_result_checks`; the key is the invocation, the verifier with its version, and the subject. -/
structure CheckRow where
  accountId : Uuid
  evidenceRef : Uuid
  verdict : CheckVerdict
deriving DecidableEq, Repr

/-- `capability_result_adoptions`; the key is the Execution and the reference. -/
structure Adoption where
  accountId : Uuid
  runId : Uuid
  requirementRevision : Option ℕ
  workControlEpoch : Option ℕ
deriving DecidableEq, Repr

/-- `capability_observations`; the key is the invocation. -/
structure Observation where
  accountId : Uuid
  runId : Uuid
  callerExecutionId : Uuid
  producingOperationId : String
  transcriptId : String
  sequence : ℕ
deriving DecidableEq, Repr

/-- `stored_files`. -/
structure OutputFile where
  accountId : Uuid
  sourceRunId : Option Uuid
  output : Bool
  ready : Bool
  sha256 : String
deriving DecidableEq, Repr

/-- `artifact_versions`. -/
structure ArtifactVersion where
  accountId : Uuid
  artifactId : Uuid
  fileId : Option Uuid
  producingRunId : Uuid
  producingExecutionId : Uuid
  completed : Bool
deriving DecidableEq, Repr

/-- The rows and verdicts the calls only read: a node is granted when it is a frozen candidate of the Run on which every
one of these operations is allowed. -/
structure World where
  files : Uuid → Option OutputFile
  artifactVersions : Uuid → Option ArtifactVersion
  nodeGranted : Uuid → Uuid → List String → Uuid → Bool
  fileAuthorized : Uuid → Uuid → Uuid → Bool
  subjectFileAuthorized : Uuid → Uuid → Uuid → Bool
  blockedReason : Uuid → Option String

/-- The store of the calls. -/
structure FactStore (δ : Type) where
  records : RecordStore δ
  world : World
  executions : Table Uuid ExecutionRow
  invocations : Table String (Invocation δ)
  inputRefs : Table (String × Uuid) Uuid
  results : Table String ResultRow
  resultRefs : Table Uuid RefRow
  checks : Table (String × String × String × Uuid) CheckRow
  adoptions : Table (Uuid × Uuid) Adoption
  observations : Table String Observation

abbrev FactTx (δ : Type) := Tx FactError (FactStore δ)

/-- `CapabilityFacts`. -/
structure CapabilityFacts where
  registry : Registry
  services : List String
  atomicTools : List String

variable {δ : Type}

/-! ### The caller -/

/-- A call on the operations, in the same transaction. -/
def onRecords {α : Type} (m : RecordTx δ α) : FactTx δ α :=
  Tx.within FactStore.records (fun r db => { db with records := r }) .raised m

/-- The fence of a call, with its Run and its Execution. -/
structure Caller where
  fence : Fence
  run : Run
  execution : ExecutionRow

/-- `runs.work_control_epoch`. -/
def workControlEpochOf (r : Run) : Option ℕ :=
  match r.source with
  | .chat _ => none
  | .work _ _ epoch => some epoch

/-- `runs.source_kind`. -/
def surfaceOf (r : Run) : String :=
  match r.source with
  | .chat _ => "chat"
  | .work _ _ _ => "work"

/-- `_context`. -/
def context (now : Instant) (fence : Option Fence) : FactTx δ Caller := do
  let f ← Tx.demand fence
    (.raised (.staleFencingToken "capability facts require an explicit Execution fence"))
  onRecords (assertFence now (some f))
  let locked ← Tx.query fun db => db.records.base.lockExecution f.accountId f.runId (some f.executionId)
  let _ ← Tx.ofExcept (locked.mapError .raised)
  let found ← Tx.query fun db => db.records.base.ownedRun f.accountId f.runId
  let run ← Tx.demand found (.raised .typeError)
  let row ← Tx.query fun db => (db.executions.lookup f.executionId).filter fun x =>
    x.accountId = f.accountId ∧ x.runId = f.runId
  let x ← Tx.demand row (.raised (.runNotExecutable "Execution does not belong to the Run and Account"))
  pure ⟨f, run, x⟩

/-- A Run of a Work still owns it, and the Work is not blocked. -/
def admitWork (db : FactStore δ) (c : Caller) : Verdict :=
  match c.run.source with
  | .chat _ => .ok ()
  | .work work revision epoch => do
    (db.records.base.checkWork c.fence.accountId c.fence.runId work revision epoch).mapError .raised
    match db.world.blockedReason work with
    | some reason => .error (.progressBlocked reason)
    | none => .ok ()

/-! ### References -/

/-- The file a reference leads to. -/
def fileOf (w : World) : Target → Option Uuid
  | .file fileId => some fileId
  | .artifact _ versionId => ((w.artifactVersions versionId).filter ArtifactVersion.completed).bind ArtifactVersion.fileId

/-- The account has the file, and it is ready. -/
def fileReady (w : World) (account file : Uuid) : Bool :=
  (w.files file).any fun f => f.accountId = account && f.ready

/-- `_authorize_resource`. -/
def authorizeResource (w : World) (c : Caller) (target : Target) : Verdict := do
  let file := fileOf w target
  require (file.any (w.subjectFileAuthorized c.fence.accountId c.fence.runId) = true)
    (.resourceDenied "current resource authorization is absent")
  require (file.any (fileReady w c.fence.accountId) = true) (.resourceDenied "result file is unavailable")

/-- A reference with its result and its invocation. -/
def producerOf (db : FactStore δ) (account refId : Uuid) : Option (RefRow × ResultRow × Invocation δ) := do
  let f ← (db.resultRefs.lookup refId).filter fun f => f.accountId = account
  let r ← (db.results.lookup f.invocationId).filter fun r => r.accountId = account
  let i ← (db.invocations.lookup f.invocationId).filter fun i => i.accountId = account
  return (f, r, i)

/-- The reference was handed to this capability when it was invoked. -/
def inherited (db : FactStore δ) (c : Caller) (refId : Uuid) : Bool :=
  c.execution.role = .capability && c.execution.invocationId.any fun invocation =>
    db.inputRefs.lookup (invocation, refId) = some c.fence.accountId

/-- The caller or the producer of the result asks, within its Run. -/
def near (c : Caller) (r : ResultRow) (i : Invocation δ) : Bool :=
  r.runId = c.fence.runId && (c.fence.executionId = i.callerExecutionId || c.fence.executionId = r.producingExecutionId)

/-- `read_ref`: the reference when the caller may read it. -/
def readRef (now : Instant) (fence : Option Fence) (refId : Uuid) : FactTx δ RefRow := do
  let c ← context now fence
  let found ← Tx.query fun db => producerOf db c.fence.accountId refId
  let (f, r, i) ← Tx.demand found (.resourceDenied "result reference is unavailable")
  let handed ← Tx.query fun db => inherited db c refId
  let here := near c r i || (handed && r.runId = c.fence.runId)
  Tx.check (here = true ∨ handed = true ∨ c.execution.role = .root)
    (.resourceDenied "result was not explicitly passed to this child")
  let adopted ← Tx.query fun db => (db.adoptions.lookup (c.fence.executionId, refId)).any fun a =>
    a.accountId = c.fence.accountId
  Tx.check (here = true ∨ handed = true ∨ adopted = true)
    (.resourceDenied "result must be explicitly adopted by this Execution")
  let w ← Tx.query FactStore.world
  Tx.ofExcept (if here then
      match f.target with
      | .file fileId => require (fileReady w c.fence.accountId fileId = true) (.resourceDenied "result file is unavailable")
      | .artifact _ _ => .ok ()
    else authorizeResource w c f.target)
  pure f

/-- `read_ref` of each of these. -/
def readRefs (now : Instant) (fence : Option Fence) (refs : List Uuid) : FactTx δ Unit :=
  refs.foldlM (fun _ refId => do
    let _ ← readRef now fence refId
    pure ()) ()

/-! ### Registering an invocation -/

/-- What `validate_capability_invocation` asks of an invocation. -/
def invocationAllowed (db : FactStore δ) (operation : String) (i : Invocation δ) : Bool :=
  let base := db.records.base
  ((db.executions.lookup i.callerExecutionId).any fun x => x.accountId = i.accountId && x.runId = i.runId && x.role = .root) &&
  ((base.executions i.callerExecutionId).any fun x => x.status.executable) &&
  ((db.records.operations.lookup operation).any fun o => o.provenance.operationType = "tool" &&
    (o.status = .started || o.status = .intentRecorded)) &&
  (i.capabilityKey = i.descriptor.definition.key && i.contractVersion = i.descriptor.definition.contractVersion &&
    i.implementationVersion = i.descriptor.definition.implementationVersion) &&
  ((base.ownedRun i.accountId i.runId).any fun r => r.status.executable && i.requirementRevision = requirementRevisionOf r &&
    i.workControlEpoch = workControlEpochOf r &&
    match r.source with
    | .chat _ => true
    | .work work revision epoch => (base.ownedWork i.accountId work).any (Authority.ownsProgression i.runId revision epoch))

/-- `INSERT INTO capability_invocations` with its trigger, its keys and its reference to the operation of the caller. -/
def insertInvocation (operation : String) (i : Invocation δ) : FactTx δ Unit := do
  let allowed ← Tx.query fun db => invocationAllowed db operation i
  Tx.check (allowed = true) (.raised (.raiseException "capability invocation requires current root tool operation"))
  let taken ← Tx.query fun db => (db.invocations.lookup operation).isSome ||
    db.invocations.entries.any fun e => e.2.childExecutionId = i.childExecutionId
  Tx.check (taken = false) (.raised .integrityError)
  let owned ← Tx.query fun db => (db.records.operations.lookup operation).any fun o =>
    o.provenance.accountId = i.accountId ∧ o.provenance.runId = i.runId ∧ o.provenance.executionId = i.callerExecutionId
  Tx.check (owned = true) (.raised .integrityError)
  Tx.update fun db => { db with invocations := db.invocations.insert operation i }

/-- `INSERT INTO run_executions` of a capability, which its invocation must match. -/
def insertExecution (child : Uuid) (operation : String) (x : ExecutionRow) : FactTx δ Unit := do
  let taken ← Tx.query fun db => (db.executions.lookup child).isSome || (db.records.base.executions child).isSome
  Tx.check (taken = false) (.raised .integrityError)
  let matching ← Tx.query fun db => (db.invocations.lookup operation).any fun i =>
    i.accountId = x.accountId ∧ i.runId = x.runId ∧ i.childExecutionId = child ∧ x.invocationId = some operation ∧
      x.parentExecutionId = some i.callerExecutionId ∧ x.resourceScope = some i.descriptor.resourceScope
  Tx.check (matching = true) (.raised (.raiseException "capability Execution must match its immutable invocation"))
  Tx.update fun db =>
    { db with
      executions := db.executions.insert child x
      records :=
        { db.records with
          base :=
            { db.records.base with
              executions := fun id =>
                if id = child then some ⟨x.accountId, x.runId, .queued, false⟩ else db.records.base.executions id } } }

/-- `INSERT INTO capability_input_refs` with its trigger. -/
def insertInputRef (account : Uuid) (operation : String) (refId : Uuid) : FactTx δ Unit := do
  let frozen ← Tx.query fun db => (db.invocations.lookup operation).any fun i =>
    i.accountId = account ∧ refId ∈ i.descriptor.resourceScope.resultIds
  Tx.check (frozen = true) (.raised (.raiseException "input reference must be explicitly frozen in invocation scope"))
  let free ← Tx.query fun db => (db.inputRefs.lookup (operation, refId)).isNone &&
    (db.resultRefs.lookup refId).any fun f => f.accountId = account
  Tx.check (free = true) (.raised .integrityError)
  Tx.update fun db => { db with inputRefs := db.inputRefs.insert (operation, refId) account }

section calls

variable [DecidableEq δ] (host : Host δ)

/-- The authorization of a scope, node by node, file by file and reference by reference. -/
def authorizeScope (now : Instant) (c : Caller) (d : Descriptor) : FactTx δ Unit := do
  let w ← Tx.query FactStore.world
  Tx.check (d.resourceScope.nodeIds.all (w.nodeGranted c.fence.accountId c.fence.runId d.definition.resourceOperations) = true)
    (.resourceDenied "node is not a currently authorized frozen candidate")
  Tx.check (d.resourceScope.fileIds.all (w.fileAuthorized c.fence.accountId c.fence.runId) = true)
    (.resourceDenied "file is outside current parent authorization")
  readRefs now (some c.fence) d.resourceScope.resultIds

/-- The invocation a call registers. -/
def CreateInput.invocation (i : CreateInput) (c : Caller) (d : Descriptor) : Invocation δ where
  accountId := c.fence.accountId
  runId := c.fence.runId
  callerExecutionId := c.fence.executionId
  childExecutionId := host.childId i.operationId
  capabilityKey := i.capabilityKey
  contractVersion := i.contractVersion
  implementationVersion := d.definition.implementationVersion
  descriptor := d
  descriptorDigest := host.descriptorDigest d
  requirementRevision := requirementRevisionOf c.run
  workControlEpoch := workControlEpochOf c.run

/-- The second half of `create`: a new invocation with its child. -/
def register (now : Instant) (c : Caller) (i : CreateInput) (d : Descriptor) : FactTx δ (Invocation δ) := do
  let admitted ← Tx.query fun db => admitWork db c
  Tx.ofExcept admitted
  authorizeScope now c d
  let row := i.invocation host c d
  insertInvocation i.operationId row
  insertExecution row.childExecutionId i.operationId
    ⟨c.fence.accountId, c.fence.runId, .capability, some c.fence.executionId, some i.operationId, some d.resourceScope, none⟩
  d.resourceScope.resultIds.foldlM (fun _ refId => insertInputRef c.fence.accountId i.operationId refId) ()
  pure row

/-- `create`. -/
def create (clock : Readings) (fence : Option Fence) (facts : CapabilityFacts) (i : CreateInput) :
    FactTx δ (Invocation δ) := do
  let c ← context (clock 0) fence
  Tx.check (sized 300 i.operationId = true) (invalid "invalid invocation Operation identity")
  Tx.check (c.execution.role = .root) (.resourceDenied "only root can invoke an isolated capability")
  let definition ← Tx.ofExcept (facts.registry.get i.capabilityKey i.contractVersion)
  Tx.check (definition.executionMode = .isolatedExecution) (invalid "atomic tools do not create invocation facts")
  Tx.check (surfaceOf c.run ∈ definition.allowedSurfaces ∧ ∀ s ∈ definition.requiredServices, s ∈ facts.services)
    (.resourceDenied "capability is unavailable on this surface or service set")
  let descriptor ← Tx.ofExcept (describe host facts.atomicTools definition i)
  let operation ← Tx.query fun db => (db.records.operations.lookup i.operationId).filter fun o =>
    o.provenance.accountId = c.fence.accountId ∧ o.provenance.runId = c.fence.runId ∧
      o.provenance.executionId = c.fence.executionId
  Tx.check (operation.any (fun o => o.provenance.operationType = "tool") = true)
    (.resourceDenied "invocation must belong to the caller tool Operation")
  Tx.ofExcept (checkDescriptor host descriptor)
  let prior ← Tx.query fun db => db.invocations.lookup i.operationId
  match prior with
  | some p => do
    Tx.check (sameDescriptor host p.descriptor descriptor) (invalid "invocation identity input conflict")
    pure p
  | none => register host (clock 1) c i descriptor

/-! ### Publishing a result -/

/-- The arguments of `publish_result`. -/
structure PublishInput where
  invocationId : String
  producingOperationId : String
  result : CapabilityResult

/-- The result bound to its producer. -/
def PublishInput.payload (i : PublishInput) (execution : Uuid) : CapabilityResult :=
  { i.result with provenance := some ⟨i.invocationId, execution, i.producingOperationId⟩ }

/-- An output is a candidate of the Run that produces it. -/
def outputAllowed (w : World) (c : Caller) (i : PublishInput) (o : ResultRef) : Verdict := do
  require (o.producingInvocationId = i.invocationId ∧ o.producingExecutionId = c.fence.executionId ∧
    o.producingOperationId = i.producingOperationId) (.resourceDenied "output producer mismatch")
  if o.type = .artifactVersion then
    require ((w.artifactVersions o.version).any (fun v => v.accountId = c.fence.accountId ∧ v.artifactId = o.objectId ∧
      v.producingRunId = c.fence.runId ∧ v.producingExecutionId = c.fence.executionId) = true)
      (.resourceDenied "candidate artifact must belong to producing Run")
  else
    require ((w.files o.objectId).any (fun f => f.accountId = c.fence.accountId ∧ f.sourceRunId = some c.fence.runId ∧
      f.output = true) = true) (.resourceDenied "candidate file must be an output of producing Run")

/-- `INSERT INTO capability_results` with its trigger, its keys and its references. -/
def insertResult (invocation : String) (r : ResultRow) : FactTx δ Unit := do
  let committed ← Tx.query fun db => (db.records.operations.lookup r.producingOperationId).any fun o =>
    o.status = .completed ∧ o.resultPayload = some r.payload.payload ∧
      r.payload.provenance = some ⟨invocation, r.producingExecutionId, r.producingOperationId⟩
  Tx.check (committed = true) (.raised (.raiseException "capability result requires committed producer operation"))
  let taken ← Tx.query fun db => (db.results.lookup invocation).isSome ||
    db.results.entries.any fun e => e.2.producingOperationId = r.producingOperationId
  Tx.check (taken = false) (.raised .integrityError)
  let owned ← Tx.query fun db =>
    ((db.invocations.lookup invocation).any fun i => i.accountId = r.accountId ∧ i.runId = r.runId ∧
      i.childExecutionId = r.producingExecutionId) &&
    (db.records.operations.lookup r.producingOperationId).any fun o => o.provenance.accountId = r.accountId ∧
      o.provenance.runId = r.runId ∧ o.provenance.executionId = r.producingExecutionId
  Tx.check (owned = true) (.raised .integrityError)
  Tx.update fun db => { db with results := db.results.insert invocation r }

/-- The row of an output. -/
def ResultRef.row (o : ResultRef) (account : Uuid) (invocation : String) : RefRow :=
  ⟨account, invocation, o.type, if o.type = .artifactVersion then .artifact o.objectId o.version else .file o.objectId, o.sha256⟩

/-- What `validate_capability_ref` asks of the file or the artifact version behind a reference. -/
def refAllowed (w : World) (r : ResultRow) (f : RefRow) : Bool :=
  match f.target with
  | .file fileId => (w.files fileId).any fun file => file.accountId = f.accountId && file.ready && file.output &&
      file.sourceRunId = some r.runId && f.sha256.all (· = file.sha256)
  | .artifact _ versionId => (w.artifactVersions versionId).any fun v => v.accountId = f.accountId &&
      v.producingRunId = r.runId && v.producingExecutionId = r.producingExecutionId && v.completed

/-- `INSERT INTO capability_result_refs` with its trigger. -/
def insertResultRef (refId : Uuid) (f : RefRow) : FactTx δ Unit := do
  let committed ← Tx.query fun db => (db.results.lookup f.invocationId).any fun r => r.accountId = f.accountId &&
    r.payload.outputs.any fun o => o.refId = refId && o.row f.accountId f.invocationId = f
  Tx.check (committed = true) (.raised (.raiseException "result reference does not match committed payload"))
  let allowed ← Tx.query fun db => (db.results.lookup f.invocationId).any fun r => refAllowed db.world r f
  Tx.check (allowed = true) (.raised (.raiseException "result file is unavailable or digest differs"))
  let taken ← Tx.query fun db => (db.resultRefs.lookup refId).isSome
  Tx.check (taken = false) (.raised .integrityError)
  Tx.update fun db => { db with resultRefs := db.resultRefs.insert refId f }

/-- `INSERT INTO capability_result_checks` with its trigger. -/
def insertCheck (account : Uuid) (invocation : String) (k : Check) : FactTx δ Unit := do
  let committed ← Tx.query fun db => ((db.results.lookup invocation).any fun r => r.accountId = account && k ∈ r.payload.checks) &&
    ((db.resultRefs.lookup k.subjectRef).any fun f => f.accountId = account && f.invocationId = invocation) &&
    ((db.resultRefs.lookup k.evidenceRef).any fun f => f.accountId = account && f.invocationId = invocation &&
      f.type = .checkEvidence)
  Tx.check (committed = true) (.raised (.raiseException "check must match committed result and exact evidence"))
  let taken ← Tx.query fun db => (db.checks.lookup (invocation, k.verifierKey, k.verifierVersion, k.subjectRef)).isSome
  Tx.check (taken = false) (.raised .integrityError)
  Tx.update fun db =>
    { db with
      checks := db.checks.insert (invocation, k.verifierKey, k.verifierVersion, k.subjectRef)
        ⟨account, k.evidenceRef, k.verdict⟩ }

/-- The reference of a result. -/
def resultRefOf (invocation : String) : String := s!"capability-result:{invocation}"

/-- The second half of `publish_result`: the operation is completed and the result written with its references and checks.
`progress` is the verdict of the progress of the Work on it. -/
def commitResult (clock : Readings) (progress : Verdict) (c : Caller) (i : PublishInput) : FactTx δ Unit := do
  let payload := i.payload c.fence.executionId
  onRecords (completeOperation host.resultDigest clock (some c.fence) i.producingOperationId (resultRefOf i.invocationId)
    payload.payload)
  insertResult i.invocationId
    ⟨c.fence.accountId, c.fence.runId, c.fence.executionId, i.producingOperationId, payload⟩
  payload.outputs.foldlM (fun _ o => insertResultRef o.refId (o.row c.fence.accountId i.invocationId)) ()
  payload.checks.foldlM (fun _ k => insertCheck c.fence.accountId i.invocationId k) ()
  Tx.update fun db =>
    { db with
      executions := Table.modify c.fence.executionId (fun x => { x with resultRef := some (resultRefOf i.invocationId) })
        db.executions }
  Tx.ofExcept progress

/-- `publish_result`. -/
def publishResult (clock : Readings) (fence : Option Fence) (progress : Verdict) (i : PublishInput) : FactTx δ Unit := do
  let c ← context (clock 0) fence
  Tx.check (c.execution.role = .capability ∧ c.execution.invocationId = some i.invocationId)
    (.resourceDenied "result producer is outside invocation")
  let found ← Tx.query fun db => (db.invocations.lookup i.invocationId).filter fun v => v.accountId = c.fence.accountId
  let invocation ← Tx.demand found (.raised .typeError)
  Tx.ofExcept (i.result.checked host)
  let provenance : ResultProvenance := ⟨i.invocationId, c.fence.executionId, i.producingOperationId⟩
  Tx.ofExcept provenance.checked
  Tx.check (∀ p ∈ i.result.provenance, p = provenance)
    (.resourceDenied "result provenance does not match current producer")
  let payload := i.payload c.fence.executionId
  Tx.check (host.valid invocation.descriptor.definition.outputSchema payload.payload = true) .validationError
  Tx.check (∀ k ∈ payload.checks, k.verifierKey ∈ invocation.descriptor.definition.verifierKeys)
    (.resourceDenied "unregistered verifier for capability")
  let w ← Tx.query FactStore.world
  Tx.ofExcept (payload.outputs.forM (outputAllowed w c i))
  let prior ← Tx.query fun db => (db.results.lookup i.invocationId).filter fun r => r.accountId = c.fence.accountId
  match prior with
  | some r => Tx.check (r.producingOperationId = i.producingOperationId ∧ r.payload = payload) (invalid "invocation result conflict")
  | none => commitResult host (fun n => clock (n + 1)) progress c i

end calls

/-! ### Observing and adopting -/

/-- `read_result`. -/
def readResult (now : Instant) (fence : Option Fence) (invocation : String) : FactTx δ CapabilityResult := do
  let c ← context now fence
  let found ← Tx.query fun db => (db.results.lookup invocation).filter fun r =>
    r.accountId = c.fence.accountId ∧ r.runId = c.fence.runId ∧ (c.fence.executionId = r.producingExecutionId ∨
      (db.invocations.lookup invocation).any (fun i => c.fence.executionId = i.callerExecutionId) = true)
  let r ← Tx.demand found (.resourceDenied "invocation result is outside caller/producer context")
  readRefs now fence (r.payload.outputs.map ResultRef.refId)
  pure r.payload

/-- The arguments of `record_observation`. -/
structure ObservationInput where
  invocationId : String
  producingOperationId : String
  transcriptId : String
  sequence : ℕ
deriving DecidableEq, Repr

/-- The row of an observation. -/
def ObservationInput.row (i : ObservationInput) (f : Fence) : Observation :=
  ⟨f.accountId, f.runId, f.executionId, i.producingOperationId, i.transcriptId, i.sequence⟩

/-- What the keys and the trigger of `capability_observations` ask: the caller's operation is completed and the event of
the transcript is its result. -/
def observationAllowed (db : FactStore δ) (invocation : String) (ob : Observation) : Bool :=
  ((db.invocations.lookup invocation).any fun i => i.accountId = ob.accountId && i.runId = ob.runId &&
    i.callerExecutionId = ob.callerExecutionId) &&
  ((db.results.lookup invocation).any fun r => r.producingOperationId = ob.producingOperationId) &&
  ((db.records.operations.lookup invocation).any fun o => o.status = .completed) &&
  (db.records.events.lookup (ob.transcriptId, ob.sequence)).any fun e => e.operationId = invocation && e.eventType = "tool_result"

/-- `record_observation`. -/
def recordObservation (now : Instant) (fence : Option Fence) (i : ObservationInput) : FactTx δ Unit := do
  let c ← context now fence
  let _ ← readResult now fence i.invocationId
  Tx.check (c.execution.role = .root) (.resourceDenied "only caller root can observe capability result")
  let prior ← Tx.query fun db => db.observations.lookup i.invocationId
  match prior with
  | some ob => Tx.check (ob = i.row c.fence) (invalid "parent observation identity conflict")
  | none => do
    let allowed ← Tx.query fun db => observationAllowed db i.invocationId (i.row c.fence)
    Tx.check (allowed = true) (.raised (.raiseException "observation must link committed caller event and exact producer"))
    Tx.update fun db => { db with observations := db.observations.insert i.invocationId (i.row c.fence) }

/-- The trigger of `capability_result_adoptions`. -/
def adoptionAllowed (db : FactStore δ) (execution : Uuid) (a : Adoption) : Bool :=
  let base := db.records.base
  ((db.executions.lookup execution).any fun x => x.role = .root) &&
  ((base.executions execution).any fun x => x.status.executable) &&
  (base.ownedRun a.accountId a.runId).any fun r => r.status.executable && a.requirementRevision = requirementRevisionOf r &&
    a.workControlEpoch = workControlEpochOf r &&
    match r.source with
    | .chat _ => true
    | .work work revision epoch => (base.ownedWork a.accountId work).any (Authority.ownsProgression a.runId revision epoch)

/-- `adopt`: `INSERT INTO capability_result_adoptions … ON CONFLICT DO NOTHING`, and the row that is there then. -/
def adopt (now : Instant) (fence : Option Fence) (refId : Uuid) : FactTx δ Adoption := do
  let c ← context now fence
  Tx.check (c.execution.role = .root) (.resourceDenied "only root can adopt results")
  let found ← Tx.query fun db => (db.resultRefs.lookup refId).filter fun f => f.accountId = c.fence.accountId
  let f ← Tx.demand found (.resourceDenied "result reference is unavailable")
  let w ← Tx.query FactStore.world
  Tx.ofExcept (authorizeResource w c f.target)
  let a : Adoption := ⟨c.fence.accountId, c.fence.runId, requirementRevisionOf c.run, workControlEpochOf c.run⟩
  let allowed ← Tx.query fun db => adoptionAllowed db c.fence.executionId a
  Tx.check (allowed = true) (.raised (.raiseException "adoption must bind current root revision and epoch"))
  let prior ← Tx.query fun db => db.adoptions.lookup (c.fence.executionId, refId)
  match prior with
  | some p => do
    Tx.check (p.accountId = c.fence.accountId) (.raised .typeError)
    pure p
  | none => do
    Tx.update fun db => { db with adoptions := db.adoptions.insert (c.fence.executionId, refId) a }
    pure a

/-! ### Preparing a capability -/

/-- `CapabilityBinding`: how the arguments of a tool call become those of a capability. -/
structure Binding where
  key : String
  contractVersion : ℕ
  scope : Payload → Scope
  inputSchema : Definition → Schema
  admits : Payload → Verdict

/-- `CapacityConfig`. -/
structure CapacityConfig where
  globalExecutions : ℕ
  accountExecutions : ℕ

/-- The capabilities that are under way. -/
def underWay (db : FactStore δ) (p : ExecutionRow → Bool) : ℕ :=
  Table.countWhere (fun id x => x.role = .capability ∧ p x = true ∧
    (db.records.base.executions id).any (fun e => e.status = .queued ∨ e.status = .running ∨ e.status = .cancelling) = true)
    db.executions

/-- `admit_in_uow`; `headroom` is the verdict of the budgets of the Run and the Work. -/
def admitInUow (capacity : CapacityConfig) (headroom : Verdict) (c : Caller) (operation : String) : FactTx δ Unit := do
  let admitted ← Tx.query fun db => admitWork db c
  Tx.ofExcept admitted
  let known ← Tx.query fun db => (db.invocations.lookup operation).isSome
  let free ← Tx.query fun db => underWay db (fun x => x.parentExecutionId = some c.fence.executionId) = 0 &&
    (underWay db (fun _ => true) < capacity.globalExecutions &&
      underWay db (fun x => x.accountId = c.fence.accountId) < capacity.accountExecutions)
  Tx.check (known = true ∨ free = true) (.resourceDenied "capability capacity exhausted")
  Tx.ofExcept (if known then .ok () else headroom)

/-- What `_prepare` is given: the binding and the arguments of the tool call, the policy on the tool, the capacity and the
headroom of the budgets. -/
structure PrepareInput where
  operationId : String
  executionId : Uuid
  binding : Binding
  arguments : Payload
  allowed : Verdict
  capacity : CapacityConfig
  headroom : Verdict

section calls

variable [DecidableEq δ] (host : Host δ)

/-- `_prepare`: the invocation of the operation, found or created. -/
def prepare (clock : Readings) (fence : Option Fence) (facts : CapabilityFacts) (i : PrepareInput) :
    FactTx δ (Invocation δ) := do
  let registered ← Tx.ofExcept (facts.registry.get i.binding.key i.binding.contractVersion)
  let c ← context (clock 0) fence
  Tx.check (c.fence.executionId = i.executionId) (.resourceDenied "caller identity mismatch")
  let existing ← Tx.query fun db => db.invocations.lookup i.operationId
  match existing with
  | some v => do
    let inputs ← Tx.ofExcept (normalizeInputs host i.arguments v.descriptor.definition.inputSchema)
    admitInUow i.capacity i.headroom c i.operationId
    Tx.check (v.accountId = c.fence.accountId ∧ v.runId = c.fence.runId ∧ v.callerExecutionId = c.fence.executionId ∧
      v.capabilityKey = i.binding.key ∧ v.contractVersion = i.binding.contractVersion ∧
      samePayload host v.descriptor.inputs inputs) (invalid "invocation identity input conflict")
    let scope ← Tx.ofExcept (resourceScope host (i.binding.scope inputs))
    Tx.check (v.descriptor.resourceScope = scope) (invalid "invocation identity input conflict")
    pure v
  | none => do
    let inputs ← Tx.ofExcept (normalizeInputs host i.arguments registered.inputSchema)
    Tx.ofExcept i.allowed
    Tx.check (host.valid (i.binding.inputSchema registered) inputs = true) .validationError
    Tx.ofExcept (i.binding.admits inputs)
    admitInUow i.capacity i.headroom c i.operationId
    create host (fun n => clock (n + 1)) fence facts
      ⟨i.operationId, i.binding.key, i.binding.contractVersion, inputs, i.binding.scope inputs, registered.limits⟩

end calls

end HpAgent.Capabilities
