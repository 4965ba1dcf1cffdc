import HpAgent.Library.Json
import HpAgent.Library.Utf8
import Mathlib.Data.List.DropRight

/-! # Requirements

A requirement is a document that the user, or the model, has written.  `toDict` checks it and fills in what was left
out; `fromDict` reads such a document back.  Both fail with an exception; the messages are those of the source.

* `Requirement.toDict`: the checks, in the order of the source.
* `validateDeliverables`: the delivery targets and the criteria they bind.
* `Requirement.fromDict`: the parser. -/

namespace HpAgent.Requirements

open Library

/-- The exceptions of the checks. -/
inductive Exn where
  | valueError (message : String)
  | keyError
  | typeError
  | attributeError
deriving DecidableEq, Repr

/-- What the checks ask of others: which texts `UUID` takes, which time zones are known, which texts
`datetime.fromisoformat` reads as a time with a zone, and which strategies `SourceStrategy.from_dict` takes. -/
structure Host where
  uuid : List Char → Bool
  zoneInfo : List Char → Bool
  awareTime : List Char → Bool
  sourceStrategy : List (List Char × Json) → Except Exn Unit

def require (b : Bool) (message : String) : Except Exn Unit := if b then .ok () else .error (.valueError message)

/-! ### Texts and values -/

/-- The white space that `strip` removes. -/
def isSpace (c : Char) : Bool :=
  (9 ≤ c.toNat && c.toNat ≤ 13) || (0x1C ≤ c.toNat && c.toNat ≤ 0x20) || c.toNat = 0x85 || c.toNat = 0xA0
    || c.toNat = 0x1680 || (0x2000 ≤ c.toNat && c.toNat ≤ 0x200A) || c.toNat = 0x2028 || c.toNat = 0x2029
    || c.toNat = 0x202F || c.toNat = 0x205F || c.toNat = 0x3000

/-- `strip()`. -/
def strip (s : List Char) : List Char := (s.dropWhile isSpace).rdropWhile isSpace

/-- The zeros of the decimal digits of Unicode. -/
def decimalZeros : List ℕ :=
  [0x30, 0x660, 0x6F0, 0x7C0, 0x966, 0x9E6, 0xA66, 0xAE6, 0xB66, 0xBE6, 0xC66, 0xCE6, 0xD66, 0xDE6, 0xE50, 0xED0, 0xF20,
    0x1040, 0x1090, 0x17E0, 0x1810, 0x1946, 0x19D0, 0x1A80, 0x1A90, 0x1B50, 0x1BB0, 0x1C40, 0x1C50, 0xA620, 0xA8D0,
    0xA900, 0xA9D0, 0xA9F0, 0xAA50, 0xABF0, 0xFF10, 0x104A0, 0x10D30, 0x11066, 0x110F0, 0x11136, 0x111D0, 0x112F0,
    0x11450, 0x114D0, 0x11650, 0x116C0, 0x11730, 0x118E0, 0x11950, 0x11C50, 0x11D50, 0x11DA0, 0x11F50, 0x16A60,
    0x16AC0, 0x16B50, 0x1D7CE, 0x1D7D8, 0x1D7E2, 0x1D7EC, 0x1D7F6, 0x1E140, 0x1E2F0, 0x1E4F0, 0x1E950, 0x1FBF0]

/-- `\\d`. -/
def isDecimal (c : Char) : Bool := decimalZeros.any fun z => z ≤ c.toNat && c.toNat ≤ z + 9

/-- A clock time, with these digits where any digit may stand. -/
def isClock (digit : Char → Bool) : List Char → Bool
  | [a, b, colon, c, d] =>
      ((a = '0' || a = '1') && digit b || a = '2' && ('0' ≤ b && b ≤ '3')) && colon = ':' && ('0' ≤ c && c ≤ '5') && digit d
  | _ => false

def isText (s : String) : Json → Bool
  | .str t => t = s.toList
  | _ => false

def isBool : Json → Bool
  | .bool _ => true
  | _ => false

/-- `value == 1`. -/
def isOne : Json → Bool
  | .int n => n = 1
  | .bool b => b
  | .float text => text.1 = "1.0".toList
  | _ => false

/-- A value that no set can hold. -/
def unhashable : Json → Bool
  | .arr _ | .obj _ => true
  | _ => false

/-- `value in {…}`, for a set of texts. -/
def memberOf (value : Json) (allowed : List String) (message : String) : Except Exn (List Char) :=
  match value with
  | .str s => if s ∈ allowed.map String.toList then .ok s else .error (.valueError message)
  | .arr _ | .obj _ => .error .typeError
  | _ => .error (.valueError message)

/-- `set(values) - {…}` is empty. -/
def within (values : List Json) (allowed : List String) (message : String) : Except Exn Unit :=
  if values.any unhashable then .error .typeError
  else require (values.all fun v => allowed.any fun s => isText s v) message

/-- Every name of a field is one of these. -/
def keysWithin (fields : List (List Char × Json)) (allowed : List String) : Bool :=
  fields.all fun f => allowed.any fun s => f.1 = s.toList

/-- These are fields. -/
def hasKeys (fields : List (List Char × Json)) (names : List String) : Bool :=
  names.all fun s => fields.any fun f => f.1 = s.toList

/-- The size of the JSON text of a value, in bytes. -/
def octets (value : Json) : ℕ := (Utf8.encode (Json.dumps [',', ' '] [':', ' '] value)).length

/-- `json.dumps(value, allow_nan=False)` succeeds, and its bytes are within a limit. -/
def sized (limit : ℕ) (value : Json) (message : String) : Except Exn Unit := do
  require value.finite "Out of range float values are not JSON compliant"
  require (decide (octets value ≤ limit)) message

/-- `bounded`. -/
def bounded (value : Json) (allowed : List String) : Except Exn (List (List Char × Json)) :=
  match value with
  | .obj fields => do
      require (keysWithin fields allowed && isOne (Json.get fields "schema_version")) "invalid versioned value"
      sized 16384 value "value exceeds size limit"
      return fields
  | _ => .error (.valueError "invalid versioned value")

/-- `UUID(value)`. -/
def uuid (h : Host) : Json → Except Exn Unit
  | .str s => require (h.uuid s) "badly formed hexadecimal UUID string"
  | .null => .error .typeError
  | _ => .error .attributeError

/-! ### The parts of a requirement -/

/-- The fields of the specification of a capability. -/
def specFields (capability : List Char) : List String :=
  if capability = "reminder".toList then ["schema_version", "content", "target_ref"]
  else if capability = "research_report".toList then ["schema_version", "source_strategy", "report_format"]
  else if capability = "artifact_build".toList then ["schema_version", "artifact_version_id"]
  else ["schema_version", "reasoning_mode"]

def checkReminder (h : Host) (fields : List (List Char × Json)) : Except Exn Unit :=
  match Json.get fields "content" with
  | .str content => do
      require (strip content != []) "reminder content is required"
      require (decide (content.length ≤ 12000)) "reminder content exceeds limit"
      match (fields.lookup "target_ref".toList).getD (.str "account_inbox".toList) with
      | .arr _ | .obj _ => .error .typeError
      | target => if isText "account_inbox" target || isText "current_channel" target then .ok () else uuid h target
  | _ => .error (.valueError "reminder content is required")

def checkResearch (h : Host) (fields : List (List Char × Json)) : Except Exn Unit :=
  match (fields.lookup "source_strategy".toList).getD (.obj []) with
  | .obj raw => do
      require (keysWithin raw ["public_web", "official_sources", "github", "rss", "uploaded_files", "freshness_days",
        "preferred_domains", "rss_feeds", "allowed_domains", "excluded_domains"]) "invalid source strategy"
      h.sourceStrategy raw
  | _ => .error (.valueError "invalid source strategy")

def checkSpec (h : Host) (capability : List Char) (spec : Json) : Except Exn Unit := do
  let fields ← bounded spec (specFields capability)
  if capability = "reminder".toList then checkReminder h fields
  else if capability = "research_report".toList then checkResearch h fields
  else if capability = "artifact_build".toList then
    match fields.lookup "artifact_version_id".toList with
    | none => .error .keyError
    | some id => uuid h id
  else
    match memberOf ((fields.lookup "reasoning_mode".toList).getD (.str "react".toList)) ["react", "plan_and_execute"]
      "unsupported reasoning mode" with
    | .ok _ => .ok ()
    | .error e => .error e

/-- `continuation('at_time', due_at=…)`; only a text can be read as a time. -/
def checkDueAt (h : Host) (dueAt : Json) : Except Exn Unit := do
  let _ ← bounded (.obj [("schema_version".toList, .int 1), ("kind".toList, .str "at_time".toList),
    ("reason".toList, .str "accepted".toList), ("due_at".toList, dueAt)])
    ["schema_version", "kind", "reason", "due_at", "receipt_ref", "operation_ref"]
  match dueAt with
  | .str s => require (h.awareTime s) "due_at must include timezone"
  | _ => .error (.valueError "Invalid isoformat string")

def checkKind (h : Host) (mode kind : List Char) (fields : List (List Char × Json)) : Except Exn Unit :=
  if kind = "once".toList then checkDueAt h (Json.get fields "due_at")
  else if kind = "daily".toList then do
    -- no other value than a text is written as a clock time
    require (match Json.get fields "local_time" with | .str s => isClock isDecimal s | _ => false)
      "daily local_time must be HH:MM"
    require (mode = "ongoing".toList) "daily mandates must be ongoing"
  else .ok ()

def checkTiming (h : Host) (mode : List Char) (timing : Json) : Except Exn Unit := do
  let fields ← bounded timing ["schema_version", "kind", "timezone", "local_time", "due_at", "missed_fire_policy"]
  match Json.get fields "timezone" with
  | .str zone => do
      require (h.zoneInfo zone) "unknown timing timezone"
      match fields.lookup "kind".toList with
      | none => .error .keyError
      | some kind => do
          let kind ← memberOf kind ["immediate", "once", "daily"] "unsupported timing"
          checkKind h mode kind fields
          let expected := if kind = "daily".toList then "latest" else "catch_up"
          require (isText expected ((fields.lookup "missed_fire_policy".toList).getD (.str expected.toList)))
            "unsupported missed-fire policy"
  | _ => .error (.valueError "timing timezone is required")

def isConstraint : Json → Bool
  | .str s => strip s != [] && decide (s.length ≤ 1000)
  | _ => false

def operations : List String := ["list_metadata", "read_content", "create_child", "update_content", "delete_entry"]

def checkRequest : Json → Except Exn Unit
  | .obj fields =>
      match Json.get fields "node_id", Json.get fields "operations" with
      | .str _, .arr items => do
          require (keysWithin fields ["schema_version", "node_id", "operations", "recursive"] &&
            isOne (Json.get fields "schema_version") && !items.isEmpty) "invalid resource requests"
          within items operations "invalid resource requests"
          require (isBool ((fields.lookup "recursive".toList).getD (.bool false))) "invalid resource requests"
      | _, _ => .error (.valueError "invalid resource requests")
  | _ => .error (.valueError "invalid resource requests")

def field (name : String) : Json → Json
  | .obj fields => Json.get fields name
  | _ => .null

def checkNode (h : Host) (request : Json) : Except Exn Unit :=
  match uuid h (field "node_id" request) with
  | .error (.valueError _) => .error (.valueError "resource node_id must be a UUID")
  | result => result

def evidenceTypes : List String :=
  ["research_report", "artifact_version", "operation_receipt", "delivery_receipt", "user_acceptance", "output_exists",
    "check_passed", "workspace_saved"]

def criterionFields : List String := ["id", "required", "evidence_types"]

/-- One criterion, after those with these ids. -/
def checkCriterion (ids : List (List Char)) : Json → Except Exn (List Char)
  | .obj fields =>
      match Json.get fields "id", Json.get fields "evidence_types" with
      | .str id, .arr items => do
          require (keysWithin fields criterionFields && hasKeys fields criterionFields && id != [] && !ids.contains id &&
            isBool (Json.get fields "required") && !items.isEmpty) "invalid acceptance criterion"
          within items evidenceTypes "invalid acceptance criterion"
          return id
      | _, _ => .error (.valueError "invalid acceptance criterion")
  | _ => .error (.valueError "invalid acceptance criterion")

def checkCriteria (ids : List (List Char)) : List Json → Except Exn Unit
  | [] => .ok ()
  | criterion :: rest => do
      let id ← checkCriterion ids criterion
      checkCriteria (id :: ids) rest

/-- A target that may be left out. -/
def checkTarget (h : Host) (target : Json) : Except Exn Unit :=
  if target.truthy then
    match uuid h target with
    | .error (.valueError _) | .error .typeError => .error (.valueError "deliverable target must be a UUID")
    | result => result
  else .ok ()

def checkPolicy (h : Host) (policy : Json) : Except Exn Unit := do
  let fields ← bounded policy ["schema_version", "required", "directory_id", "entry_id", "operation", "notification_target_ref"]
  match Json.get fields "required" with
  | .bool required => do
      require (!required || (Json.get fields "directory_id").truthy) "required save needs a directory"
      checkTarget h (Json.get fields "directory_id")
      checkTarget h (Json.get fields "entry_id")
  | _ => .error (.valueError "invalid deliverable policy")

/-! ### Delivery targets -/

def formats : List String := ["markdown", "docx"]

/-- `by_id.get(cid)`: of several criteria with an id, the last. -/
def byId (criteria : List Json) (cid : List Char) : Option Json :=
  criteria.reverse.find? fun c => match field "id" c with | .str id => id = cid | _ => false

/-- Both are the same truth value. -/
def sameBool : Json → Json → Bool
  | .bool a, .bool b => a = b
  | _, _ => false

/-- The list of this text alone. -/
def isSingleton (kind : String) : Json → Bool
  | .arr [j] => isText kind j
  | _ => false

/-- One of the criteria that a target binds, after those that are used. -/
def checkBound (criteria : List Json) (required : Json) (used : List (List Char)) (kind : String) :
    Json → Except Exn (List Char)
  | .str cid => do
      require (!used.contains cid) "delivery criteria must be distinct"
      match byId criteria cid with
      | none => .error (.valueError "delivery target must bind matching existence and format criteria")
      | some c =>
          require (isSingleton kind (field "evidence_types" c) && sameBool (field "required" c) required)
            "delivery target must bind matching existence and format criteria"
          return cid
  | _ => .error (.valueError "delivery criteria must be distinct")

def targetFields : List String := ["id", "format", "required", "output_criterion_id", "format_criterion_id"]

def checkItems (criteria : List Json) (ids used : List (List Char)) : List Json → Except Exn Unit
  | [] => .ok ()
  | .obj fields :: rest =>
      match Json.get fields "id", Json.get fields "format" with
      | .str id, .str format => do
          require (keysWithin fields targetFields && hasKeys fields targetFields && decide (1 ≤ id.length ∧ id.length ≤ 80) &&
            !ids.contains id && (formats.map String.toList).contains format && isBool (Json.get fields "required"))
            "invalid delivery target"
          let output ← checkBound criteria (Json.get fields "required") used "output_exists" (Json.get fields "output_criterion_id")
          let format ← checkBound criteria (Json.get fields "required") (used ++ [output]) "check_passed"
            (Json.get fields "format_criterion_id")
          checkItems criteria (ids ++ [id]) (used ++ [output] ++ [format]) rest
      | _, _ => .error (.valueError "invalid delivery target")
  | _ :: _ => .error (.valueError "invalid delivery target")

/-- `validate_deliverables`; the version must be an integer here. -/
def validateDeliverables (criteria : List Json) : Json → Except Exn Unit
  | .null => .ok ()
  | .obj fields =>
      match Json.get fields "schema_version", Json.get fields "items" with
      | .int version, .arr items => do
          require (keysWithin fields ["schema_version", "items"] && hasKeys fields ["schema_version", "items"] && version = 1 &&
            decide (1 ≤ items.length ∧ items.length ≤ 10)) "invalid deliverables contract"
          checkItems criteria [] [] items
      | _, _ => .error (.valueError "invalid deliverables contract")
  | _ => .error (.valueError "invalid deliverables contract")

/-! ### Requirements -/

/-- A requirement as it was written; `null` is what was left out. -/
structure Requirement where
  objective : Json
  capabilityKey : Json
  spec : Json
  constraints : Json
  acceptanceCriteria : Json
  completionMode : Json
  timing : Json
  resourceRequests : Json
  deliverablePolicy : Json
  deliverables : Json

/-- The document that `to_dict` gives. -/
structure Document where
  objective : List Char
  capabilityKey : List Char
  spec : Json
  constraints : List Json
  acceptanceCriteria : List Json
  completionMode : List Char
  timing : Json
  resourceRequests : List Json
  deliverablePolicy : Json
  deliverables : Json

/-- The fields of a document; `deliverables` only when there are any. -/
def Document.fields (v : Document) : List (List Char × Json) :=
  [("objective".toList, .str v.objective), ("capability_key".toList, .str v.capabilityKey), ("spec".toList, v.spec),
    ("constraints".toList, .arr v.constraints), ("acceptance_criteria".toList, .arr v.acceptanceCriteria),
    ("completion_mode".toList, .str v.completionMode), ("timing".toList, v.timing),
    ("resource_requests".toList, .arr v.resourceRequests), ("deliverable_policy".toList, v.deliverablePolicy)] ++
    match v.deliverables with
    | .null => []
    | deliverables => [("deliverables".toList, deliverables)]

def Document.toJson (v : Document) : Json := .obj v.fields

def capabilities : List String := ["reminder", "research_report", "generic_work", "artifact_build"]

def checkObjective : Json → Except Exn (List Char)
  | .str s => do
      require (strip s != [] && decide (s.length ≤ 20000)) "objective is required and bounded"
      return strip s
  | _ => .error (.valueError "objective is required and bounded")

def listOf (message : String) : Json → Except Exn (List Json)
  | .arr items => .ok items
  | _ => .error (.valueError message)

def defaultTiming : Json :=
  .obj [("schema_version".toList, .int 1), ("kind".toList, .str "immediate".toList), ("timezone".toList, .str "UTC".toList)]

def defaultPolicy : Json := .obj [("schema_version".toList, .int 1), ("required".toList, .bool false)]

/-- The criterion of a reminder that has none. -/
def channelAccepted : Json :=
  .obj [("id".toList, .str "channel_accepted".toList), ("required".toList, .bool true),
    ("evidence_types".toList, .arr [.str "delivery_receipt".toList])]

def criteriaOr (capability : List Char) (criteria : List Json) : List Json :=
  if criteria.isEmpty && capability = "reminder".toList then [channelAccepted] else criteria

def orElse (value default : Json) : Json := if value.truthy then value else default

/-- `Requirement.to_dict`. -/
def Requirement.toDict (h : Host) (r : Requirement) : Except Exn Document := do
  let objective ← checkObjective r.objective
  let capability ← memberOf r.capabilityKey capabilities "unsupported capability"
  let mode ← memberOf r.completionMode ["deliverable", "ongoing"] "unsupported completion mode"
  checkSpec h capability r.spec
  checkTiming h mode (orElse r.timing defaultTiming)
  let constraints ← listOf "invalid constraints" r.constraints
  require (constraints.all isConstraint) "invalid constraints"
  let criteria ← listOf "invalid acceptance criteria" r.acceptanceCriteria
  let requests ← listOf "invalid resource requests" r.resourceRequests
  requests.forM checkRequest
  requests.forM (checkNode h)
  checkCriteria [] criteria
  checkPolicy h (orElse r.deliverablePolicy defaultPolicy)
  let v : Document :=
    ⟨objective, capability, r.spec, constraints, criteriaOr capability criteria, mode, orElse r.timing defaultTiming, requests,
      orElse r.deliverablePolicy defaultPolicy, r.deliverables⟩
  validateDeliverables v.acceptanceCriteria v.deliverables
  sized 32768 v.toJson "requirement exceeds size limit"
  return v

def documentFields : List String :=
  ["objective", "capability_key", "spec", "constraints", "acceptance_criteria", "completion_mode", "timing",
    "resource_requests", "deliverable_policy", "deliverables"]

/-- `cls(**value)`: three fields have no default. -/
def Requirement.construct (fields : List (List Char × Json)) : Except Exn Requirement :=
  match fields.lookup "objective".toList, fields.lookup "capability_key".toList, fields.lookup "spec".toList with
  | some objective, some capability, some spec =>
      .ok ⟨objective, capability, spec, (fields.lookup "constraints".toList).getD (.arr []),
        (fields.lookup "acceptance_criteria".toList).getD (.arr []),
        (fields.lookup "completion_mode".toList).getD (.str "deliverable".toList), Json.get fields "timing",
        (fields.lookup "resource_requests".toList).getD (.arr []), Json.get fields "deliverable_policy",
        Json.get fields "deliverables"⟩
  | _, _, _ => .error .typeError

/-- `Requirement.from_dict`. -/
def Requirement.fromDict (h : Host) : Json → Except Exn Requirement
  | .obj fields => do
      require (keysWithin fields documentFields) "unknown requirement fields"
      match Requirement.construct fields with
      | .error _ => .error (.valueError "invalid requirement structure")
      | .ok r =>
          match r.toDict h with
          | .ok _ => .ok r
          | .error (.valueError message) => .error (.valueError message)
          | .error _ => .error (.valueError "invalid requirement structure")
  | _ => .error (.valueError "requirement must be an object")

end HpAgent.Requirements
