import HpAgent.Library.Json
import HpAgent.Records.Operations
import Mathlib.Data.List.Sort

/-! # Capability values

What a caller hands to a capability and what it gets back: definitions with their registry, the resource scope and the
limits of an invocation, its complete descriptor, and the typed result with references to its outputs.

`describe` turns the arguments of a call into the descriptor an invocation is identified by: the inputs without the
optional members that say nothing, the identifiers of the scope sorted and without repetition, the limits checked
against the definition. -/

namespace HpAgent.Capabilities

open Library Records

/-- The exceptions of the capability facts. -/
inductive FactError where
  /-- An exception of the modules below. -/
  | raised (e : Error)
  | resourceDenied (message : String)
  | progressBlocked (reason : String)
  /-- `jsonschema` rejected the value. -/
  | validationError
deriving DecidableEq, Repr

/-- A check that passes or raises. -/
abbrev Verdict := Except FactError Unit

def invalid (message : String) : FactError := .raised (.valueError message)

def require (c : Prop) [Decidable c] (e : FactError) : Verdict := if c then .ok () else .error e

/-! ### Definitions -/

/-- What `normalize_inputs` reads of the schema of a member. -/
structure FieldSchema where
  type : Option String
  minLength : ℕ
  format : Option String
deriving DecidableEq, Repr

/-- The schema of an object by its text, with the parts `normalize_inputs` reads; the schema of a property may be a
Boolean. -/
structure Schema where
  text : String
  required : List String
  properties : List (String × Option FieldSchema)
deriving DecidableEq, Repr

/-- The limits of an invocation. -/
structure Limits where
  schemaVersion : ℤ
  maxDurationSeconds : ℤ
  maxModelCalls : ℤ
  maxToolCalls : ℤ
deriving DecidableEq, Repr

inductive ExecutionMode where
  | inline
  | isolatedExecution
deriving DecidableEq, Repr

inductive ExecutorKind where
  | atomic
  | fixedWorkflow
  | specialistAgent
deriving DecidableEq, Repr

/-- `CapabilityDefinition`; the execution policy by its text. -/
structure Definition where
  key : String
  contractVersion : ℕ
  implementationVersion : String
  description : String
  inputSchema : Schema
  outputSchema : Schema
  executorKind : ExecutorKind
  executionMode : ExecutionMode
  allowedSurfaces : List String
  requiredServices : List String
  resourceOperations : List String
  sideEffectPolicy : String
  limits : Limits
  maxAttempts : ℕ
  cancellationPolicy : String
  verifierKeys : List String
  executionPolicy : Option String
deriving DecidableEq, Repr

/-- `CapabilityRegistry`. -/
abbrev Registry := List Definition

/-- `CapabilityRegistry.get`. -/
def Registry.get (registry : Registry) (capabilityKey : String) (contractVersion : ℕ) : Except FactError Definition :=
  if contractVersion < 1 then .error (invalid "invalid contract version")
  else
    match registry.find? fun d => d.key = capabilityKey ∧ d.contractVersion = contractVersion with
    | some d => .ok d
    | none => .error (invalid "unregistered capability contract")

/-! ### Scopes and limits -/

/-- The resources an invocation may touch. -/
structure Scope where
  schemaVersion : ℤ
  nodeIds : List Uuid
  fileIds : List Uuid
  toolNames : List String
  resultIds : List Uuid
deriving DecidableEq, Repr

/-- `key`: a lower-case letter, then letters, digits, underscores, dots and hyphens, eighty characters at most. -/
def isKey (s : String) : Bool :=
  match s.toList with
  | [] => false
  | c :: rest =>
    ('a' ≤ c && c ≤ 'z') && rest.length ≤ 79 &&
      rest.all fun d => ('a' ≤ d && d ≤ 'z') || ('0' ≤ d && d ≤ '9') || d = '_' || d = '.' || d = '-'

/-- `sorted(set(_))` of identifiers. -/
def sortedIds (ids : List Uuid) : List Uuid := ids.dedup.insertionSort (· ≤ ·)

/-- `sorted(set(_))` of names. -/
def sortedNames (names : List String) : List String := names.dedup.insertionSort (· ≤ ·)

/-- The descriptor of an invocation: all its identity rests on. -/
structure Descriptor where
  definition : Definition
  inputs : Payload
  resourceScope : Scope
  limits : Limits
deriving DecidableEq

/-- What the values rest on besides the code: the schema validator, what the text of a JSON value is worth, the version-5
identifier of a name, digests, and the lengths in bytes of JSON texts, compact or as they are stored. -/
structure Host (δ : Type) where
  valid : Schema → Payload → Bool
  /-- Equal values are worth the same: `1`, `1.0` and `true`, or objects with their keys in another order. -/
  worth : String → String
  childId : String → Uuid
  payloadBytes : Payload → ℕ
  scopeBytes : Scope → ℕ
  descriptorBytes : Descriptor → ℕ
  storedBytes : Descriptor → ℕ
  resultDigest : Payload → δ
  descriptorDigest : Descriptor → δ

variable {δ : Type} (host : Host δ)

/-! ### Comparing values -/

def worthOf : Value → Value
  | .string s => .string s
  | .other json => .other (host.worth json)

/-- `p == q`. -/
def samePayload (p q : Payload) : Prop :=
  ∀ name ∈ p.keys ∪ q.keys, (p.lookup name).map (worthOf host) = (q.lookup name).map (worthOf host)

instance (p q : Payload) : Decidable (samePayload host p q) :=
  inferInstanceAs (Decidable (∀ name ∈ p.keys ∪ q.keys, _))

/-- The definition with its JSON texts by what they are worth. -/
def Definition.worth (d : Definition) : Definition :=
  { d with
    inputSchema := ⟨host.worth d.inputSchema.text, [], []⟩
    outputSchema := ⟨host.worth d.outputSchema.text, [], []⟩
    executionPolicy := d.executionPolicy.map host.worth }

/-- `d == e`. -/
def sameDescriptor (d e : Descriptor) : Prop :=
  d.definition.worth host = e.definition.worth host ∧ samePayload host d.inputs e.inputs ∧
    d.resourceScope = e.resourceScope ∧ d.limits = e.limits

instance (d e : Descriptor) : Decidable (sameDescriptor host d e) := inferInstanceAs (Decidable (_ ∧ _))

/-! ### Limits and scopes -/

/-- The text of `canonical` when a value is too long. -/
def tooLong : FactError := invalid "capability value exceeds size limit"

/-- `limits`. -/
def Limits.checked (l : Limits) : Except FactError Limits := do
  require (l.schemaVersion = 1) (invalid "invalid versioned value")
  require (∀ n ∈ [l.maxDurationSeconds, l.maxModelCalls, l.maxToolCalls], 0 ≤ n ∧ n ≤ 86400)
    (invalid "invalid invocation limit")
  require (l.maxDurationSeconds ≠ 0) (invalid "duration must be positive")
  return l

/-- Within the limits of the definition. -/
def Limits.within (l d : Limits) : Bool :=
  l.maxDurationSeconds ≤ d.maxDurationSeconds && l.maxModelCalls ≤ d.maxModelCalls && l.maxToolCalls ≤ d.maxToolCalls

/-- The scope with its lists sorted and without repetition. -/
def Scope.sorted (s : Scope) : Scope :=
  { s with
    nodeIds := sortedIds s.nodeIds
    fileIds := sortedIds s.fileIds
    toolNames := sortedNames s.toolNames
    resultIds := sortedIds s.resultIds }

/-- `resource_scope`. -/
def resourceScope (s : Scope) : Except FactError Scope := do
  require (s.schemaVersion = 1) (invalid "invalid versioned value")
  require (host.scopeBytes s ≤ 16384) (invalid "value exceeds size limit")
  require (s.nodeIds.length ≤ 100 ∧ s.fileIds.length ≤ 100 ∧ s.resultIds.length ≤ 100) (invalid "invalid resource scope")
  require (s.toolNames.length ≤ 100) (invalid "invalid tool scope")
  require (s.toolNames.all isKey = true) (invalid "invalid capability key")
  require (host.scopeBytes s.sorted ≤ 32768) tooLong
  return s.sorted

/-! ### Inputs -/

/-- An optional text that says nothing: `null`, or empty where an empty text is not allowed. -/
def saysNothing (value : Payload) (required : List String) (name : String) : Option FieldSchema → Bool
  | none => false
  | some field =>
    name ∉ required && field.type = some "string" &&
      (value.lookup name = some (.other "null") ||
        (value.lookup name = some (.string "") && (0 < field.minLength || field.format = some "uuid")))

/-- `normalize_inputs`. -/
def normalizeInputs (value : Payload) (schema : Schema) : Except FactError Payload := do
  require (host.payloadBytes value ≤ 32768) tooLong
  return schema.properties.foldl
    (fun v p => if saysNothing v schema.required p.1 p.2 then v.erase p.1 else v) value

/-- The arguments of `create`. -/
structure CreateInput where
  operationId : String
  capabilityKey : String
  contractVersion : ℕ
  inputs : Payload
  scope : Scope
  invocationLimits : Limits

/-- The descriptor of a call under a definition, as `create` puts it together. -/
def describe (atomicTools : List String) (definition : Definition) (i : CreateInput) : Except FactError Descriptor := do
  let inputs ← normalizeInputs host i.inputs definition.inputSchema
  require (host.valid definition.inputSchema inputs = true) .validationError
  let scope ← resourceScope host i.scope
  let limits ← i.invocationLimits.checked
  require (limits.within definition.limits = true) (.resourceDenied "invocation limits exceed definition")
  require (scope.toolNames.all (· ∈ atomicTools) = true) (.resourceDenied "tool is outside trusted capability tool set")
  return ⟨definition, inputs, scope, limits⟩

/-- `canonical` of a descriptor, and the limit on how it is stored when there is an execution policy. -/
def checkDescriptor (d : Descriptor) : Verdict := do
  require (host.descriptorBytes d ≤ if d.definition.executionPolicy.isSome then 65536 else 32768) tooLong
  require (d.definition.executionPolicy.isSome = true → host.storedBytes d ≤ 65536)
    (invalid "capability.descriptor: exceeds 65536 byte storage limit")

/-! ### Results -/

inductive RefType where
  | markdown | file | checkEvidence | artifactVersion
deriving DecidableEq, Repr

/-- `ResultRef`. -/
structure ResultRef where
  refId : Uuid
  type : RefType
  objectId : Uuid
  version : Uuid
  producingInvocationId : String
  producingExecutionId : Uuid
  producingOperationId : String
  sha256 : Option String
deriving DecidableEq, Repr

inductive CheckVerdict where
  | passed | failed | notChecked
deriving DecidableEq, Repr

/-- `Check`. -/
structure Check where
  verifierKey : String
  verifierVersion : String
  subjectRef : Uuid
  verdict : CheckVerdict
  evidenceRef : Uuid
deriving DecidableEq, Repr

/-- `ResultProvenance`. -/
structure ResultProvenance where
  invocationId : String
  executionId : Uuid
  operationId : String
deriving DecidableEq, Repr

inductive Outcome where
  | succeeded | insufficient | failed | cancelled | uncertain
deriving DecidableEq, Repr

structure SafeError where
  code : String
  safeMessage : String
  retryClass : String
deriving DecidableEq, Repr

/-- `CapabilityResult`; a gap is a code and a message. -/
structure CapabilityResult where
  outcome : Outcome
  summary : String
  outputs : List ResultRef
  checks : List Check
  gaps : List (String × String)
  error : Option SafeError
  provenance : Option ResultProvenance
deriving DecidableEq, Repr

def Outcome.value : Outcome → String
  | .succeeded => "succeeded"
  | .insufficient => "insufficient"
  | .failed => "failed"
  | .cancelled => "cancelled"
  | .uncertain => "uncertain"

def RefType.value : RefType → String
  | .markdown => "markdown"
  | .file => "file"
  | .checkEvidence => "check_evidence"
  | .artifactVersion => "artifact_version"

def CheckVerdict.value : CheckVerdict → String
  | .passed => "passed"
  | .failed => "failed"
  | .notChecked => "not_checked"

/-- An object of texts and identifiers; an identifier stands by its number. -/
def textObject (fields : List (String × String)) : Json := .obj (fields.map fun f => (f.1.toList, .str f.2.toList))

def ResultRef.json (r : ResultRef) : Json :=
  textObject ([("ref_id", toString r.refId), ("type", r.type.value), ("object_id", toString r.objectId),
    ("version", toString r.version), ("producing_invocation_id", r.producingInvocationId),
    ("producing_execution_id", toString r.producingExecutionId), ("producing_operation_id", r.producingOperationId)] ++
    r.sha256.toList.map fun s => ("sha256", s))

def Check.json (c : Check) : Json :=
  textObject [("verifier_key", c.verifierKey), ("verifier_version", c.verifierVersion),
    ("subject_ref", toString c.subjectRef), ("verdict", c.verdict.value), ("evidence_ref", toString c.evidenceRef)]

def ResultProvenance.json (p : ResultProvenance) : Json :=
  textObject [("invocation_id", p.invocationId), ("execution_id", toString p.executionId), ("operation_id", p.operationId)]

def SafeError.json (e : SafeError) : Json :=
  textObject [("code", e.code), ("safe_message", e.safeMessage), ("retry_class", e.retryClass)]

/-- A member of a payload by its JSON. -/
def jsonValue (j : Json) : Value := .other (String.ofList (j.dumps [','] [':']))

/-- The result as the payload of its operation. -/
def CapabilityResult.payload (r : CapabilityResult) : Payload :=
  Payload.ofList [("schema_version", .ofNat 1), ("outcome", .string r.outcome.value), ("summary", .string r.summary),
    ("outputs", jsonValue (.arr (r.outputs.map ResultRef.json))), ("checks", jsonValue (.arr (r.checks.map Check.json))),
    ("gaps", jsonValue (.arr (r.gaps.map fun g => textObject [("code", g.1), ("message", g.2)]))),
    ("error", jsonValue ((r.error.map SafeError.json).getD .null)),
    ("provenance", jsonValue ((r.provenance.map ResultProvenance.json).getD .null))]

/-- A text of one to `n` characters. -/
def sized (n : ℕ) (s : String) : Bool := 1 ≤ s.length && s.length ≤ n

/-- `ResultRef.to_dict`. -/
def ResultRef.checked (r : ResultRef) : Verdict := do
  require (r.type = .artifactVersion ∨ r.version = r.objectId) (invalid "file reference version must be its immutable file ID")
  require (sized 300 r.producingInvocationId = true ∧ sized 300 r.producingOperationId = true)
    (invalid "invalid result producer")
  require (∀ s ∈ r.sha256, s.length = 64 ∧ s.toList.all (fun c => ('0' ≤ c && c ≤ '9') || ('a' ≤ c && c ≤ 'f')) = true)
    (invalid "invalid result digest")

/-- `Check.to_dict`. -/
def Check.checked (c : Check) : Verdict := do
  require (isKey c.verifierKey = true) (invalid "invalid capability key")
  require (sized 80 c.verifierVersion = true) (invalid "invalid verifier version")

/-- `ResultProvenance.to_dict`. -/
def ResultProvenance.checked (p : ResultProvenance) : Verdict :=
  require (sized 300 p.invocationId = true ∧ sized 300 p.operationId = true) (invalid "invalid result provenance")

/-- `retry_class` of an error. -/
def retryClasses : List String := ["never", "transient", "requires_input", "reconcile"]

/-- `CapabilityResult.to_dict`. -/
def CapabilityResult.checked (r : CapabilityResult) : Verdict := do
  require (r.summary.length ≤ 2000) (invalid "invalid result summary")
  r.outputs.forM ResultRef.checked
  require ((r.outputs.map ResultRef.refId).Nodup ∧ r.outputs.length ≤ 100 ∧ r.checks.length ≤ 100)
    (invalid "duplicate or excessive output references")
  r.checks.forM Check.checked
  require (∀ c ∈ r.checks, (∃ o ∈ r.outputs, o.refId = c.subjectRef) ∧
      ∃ o ∈ r.outputs, o.refId = c.evidenceRef ∧ o.type = .checkEvidence)
    (invalid "check must identify exact subject and evidence outputs")
  require (r.gaps.length ≤ 50 ∧ r.gaps.all (fun g => sized 1000 g.1 && sized 1000 g.2) = true) (invalid "invalid result gaps")
  require (∀ e ∈ r.error, e.retryClass ∈ retryClasses ∧ sized 1000 e.code = true ∧ sized 1000 e.safeMessage = true)
    (invalid "invalid safe error")
  match r.provenance with
  | some p => p.checked
  | none => .ok ()
  require (host.payloadBytes r.payload ≤ 32768) tooLong

end HpAgent.Capabilities
