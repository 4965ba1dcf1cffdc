import HpAgent.Requirements.Requirement

/-! # The guards of the database

The triggers on `work_requirements` check a stored requirement again.  A condition of SQL that is neither true nor false
refuses nothing.

* `validateWorkRequirement`: the trigger on the document.
* `validateDeliveryRequirement`: the trigger on its delivery targets. -/

namespace HpAgent.Requirements

open Library

/-- `value->>…`: nothing for a JSON null, the text itself for a text. -/
def asText : Json → Option (List Char)
  | .null => none
  | .str s => some s
  | value => some (Json.dumps [',', ' '] [':', ' '] value)

/-- `value = …`, when the value is there. -/
def textIs (s : String) (value : Json) : Bool := asText value = some s.toList

/-- A text that is there is one of these. -/
def nullOrIn (allowed : List String) (value : Json) : Bool :=
  match asText value with
  | none => true
  | some text => (allowed.map String.toList).contains text

/-- `btrim(…)`. -/
def btrim (s : List Char) : List Char := (s.dropWhile (· = ' ')).rdropWhile (· = ' ')

/-! ### `validate_work_requirement` -/

def constraintAccepted : Json → Bool
  | .str s => decide (1 ≤ s.length ∧ s.length ≤ 1000)
  | _ => false

def idText (criterion : Json) : Option (List Char) := asText (field "id" criterion)

def criterionAccepted (ids : List (List Char)) : Json → Bool
  | .obj fields =>
      match idText (.obj fields), Json.get fields "evidence_types" with
      | some id, .arr items =>
          decide (1 ≤ id.length ∧ id.length ≤ 100) && !ids.contains id && isBool (Json.get fields "required") &&
            !items.isEmpty && keysWithin fields criterionFields && items.all (nullOrIn evidenceTypes)
      | _, _ => false
  | _ => false

def criteriaAccepted (ids : List (List Char)) : List Json → Bool
  | [] => true
  | c :: rest => criterionAccepted ids c && criteriaAccepted (ids ++ (idText c).toList) rest

def requestAccepted : Json → Bool
  | .obj fields =>
      match Json.get fields "operations" with
      | .arr items =>
          textIs "1" (Json.get fields "schema_version") && (asText (Json.get fields "node_id")).isSome && !items.isEmpty &&
            items.all (nullOrIn operations)
      | _ => false
  | _ => false

def isObject : Json → Bool
  | .obj _ => true
  | _ => false

def specAccepted (capability : List Char) (spec : Json) : Bool :=
  !(capability = "reminder".toList && ((asText (field "content" spec)).map btrim).getD [] = []) &&
    !(capability = "research_report".toList && !isObject (field "source_strategy" spec))

/-- `value !~ …`, when the value is there. -/
def notClock (value : Json) : Bool :=
  match asText value with
  | none => false
  | some s => !isClock Char.isDigit s

def timingAccepted (zones : List Char → Bool) (mode : List Char) (timing : Json) : Bool :=
  !(textIs "once" (field "kind" timing) && (asText (field "due_at" timing)).isNone) &&
    !(textIs "daily" (field "kind" timing) && (mode ≠ "ongoing".toList || notClock (field "local_time" timing))) &&
    ((asText (field "timezone" timing)).map zones).getD false

def policyAccepted (policy : Json) : Bool :=
  isBool (field "required" policy) &&
    !(textIs "true" (field "required" policy) && (asText (field "directory_id" policy)).isNone)

/-- `validate_work_requirement` lets the row in. -/
def validateWorkRequirement (zones : List Char → Bool) (new : Document) : Bool :=
  new.constraints.all constraintAccepted && criteriaAccepted [] new.acceptanceCriteria &&
    new.resourceRequests.all requestAccepted && specAccepted new.capabilityKey new.spec &&
    timingAccepted zones new.completionMode new.timing && policyAccepted new.deliverablePolicy

/-! ### `validate_delivery_requirement` -/

/-- `work_json`. -/
def workJson (value : Json) (allowed : List String) (maxBytes : ℕ) : Bool :=
  match value with
  | .obj fields => textIs "1" (Json.get fields "schema_version") && decide (octets value ≤ maxBytes) && keysWithin fields allowed
  | _ => false

/-- One of the criteria of a target, after those that are used. -/
def boundAccepted (criteria : List Json) (required : Json) (used : List (List Char)) (kind : String) (target : Json) : Bool :=
  match asText target with
  | none => false
  | some cid =>
      !used.contains cid &&
        match criteria.find? fun c => idText c = some cid with
        | none => false
        | some c => sameBool (field "required" c) required && isSingleton kind (field "evidence_types" c)

def itemsAccepted (criteria : List Json) (ids used : List (List Char)) : List Json → Bool
  | [] => true
  | .obj fields :: rest =>
      let output := Json.get fields "output_criterion_id"
      let format := Json.get fields "format_criterion_id"
      let required := Json.get fields "required"
      match Json.get fields "id", Json.get fields "format" with
      | .str id, .str kind =>
          hasKeys fields targetFields && keysWithin fields targetFields && decide (1 ≤ id.length ∧ id.length ≤ 80) &&
            !ids.contains id && (formats.map String.toList).contains kind && isBool required &&
            boundAccepted criteria required used "output_exists" output &&
            boundAccepted criteria required (used ++ (asText output).toList) "check_passed" format &&
            itemsAccepted criteria (ids ++ [id]) (used ++ (asText output).toList ++ (asText format).toList) rest
      | _, _ => false
  | _ :: _ => false

/-- `validate_delivery_requirement` lets the row in. -/
def validateDeliveryRequirement (new : Document) : Bool :=
  match new.deliverables with
  | .null => true
  | deliverables =>
      workJson deliverables ["schema_version", "items"] 32768 &&
        match field "items" deliverables with
        | .arr items => itemsAccepted new.acceptanceCriteria [] [] items
        | _ => false

end HpAgent.Requirements
