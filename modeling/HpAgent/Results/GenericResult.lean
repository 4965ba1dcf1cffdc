import HpAgent.Library.Matching
import HpAgent.Results.Evidence

/-! # The result of a generic Run

The model ends a Run with a text.  `parseGenericResult` takes a recommendation from it when the text is one, or holds
exactly one in a fence at its end; every other text is narrative and recommends nothing.  `genericResult` checks the
recommendation against the facts: it validates the evidence, adds what was observed, and decides whether the completion of
the Work is suggested.

`loads` is the JSON reader, on texts without lone surrogates; `none` is its `ValueError`. -/

namespace HpAgent.Results

open Library Requirements

/-! ### Reading the text -/

/-- `[ \t]`. -/
def isBlank (c : Char) : Bool := c = ' ' || c = '\t'

/-- A line of three backquotes and nothing but blanks, in the text that begins at `i`: where it begins and where it ends. -/
def closingFence : Option Char → ℕ → List Char → Option (ℕ × ℕ)
  | _, _, [] => none
  | previous, i, c :: rest =>
      let blanks := run isBlank (rest.drop 2)
      let after := (rest.drop 2).drop blanks
      if previous = some '\n' ∧ startsWith "```" (c :: rest) ∧ (after = [] ∨ after.head? = some '\n') then
        some (i, i + 3 + blanks)
      else closingFence (some c) (i + 1) rest

/-- A fence of JSON, with `(?m)^```json[ \t]*\r?\n([\s\S]*?)^```[ \t]*$`: its text, and its length. -/
def fence (previous : Option Char) (s : List Char) : Option (List Char × ℕ) :=
  if previous.all (fun c => c = '\n') ∧ startsWith "```json" s then
    let blanks := run isBlank (s.drop 7)
    let line := (s.drop 7).drop blanks
    let carriage := if line.head? = some '\r' then 1 else 0
    if (line.drop carriage).head? = some '\n' then
      let body := line.drop (carriage + 1)
      (closingFence (some '\n') 0 body).map fun place => (body.take place.1, 7 + blanks + carriage + 1 + place.2)
    else none
  else none

/-- `_generic_result_object`. -/
def genericResultObject (loads : List Char → Option Json) (content : Option (List Char)) : Option Json :=
  content.bind fun text =>
    match loads text with
    | some value => some value
    | none =>
        match spans (fun previous s => (fence previous s).map Prod.snd) text with
        | [block] =>
            let fences := spans (fun _ s => if startsWith "```" s then some 3 else none) text
            if strip (text.drop block.2) ≠ [] ∨ fences.length ≠ 2 then none
            else (fence (text.take block.1).getLast? (text.drop block.1)).bind fun body => loads body.1
        | _ => none

/-- The recommendation. -/
structure Recommendation where
  kind : Json
  evidence : List Json
  continuation : Option Json
  checkpoint : Option Json

def continuationFields : List String := ["schema_version", "kind", "reason", "due_at", "receipt_ref", "operation_ref"]

/-- `continuation(kind, reason)`, for a kind without a time. -/
def continuationOf (kind : String) (reason : List Char) : Except Exn Json := do
  let value := .obj [("schema_version".toList, .int 1), ("kind".toList, .str kind.toList), ("reason".toList, .str reason)]
  let _ ← bounded value continuationFields
  require (1 ≤ reason.length && reason.length ≤ 500) "invalid continuation"
  return value

/-- A recommendation is a document of the first version that has a kind. -/
def isExplicit : Option Json → Bool
  | some (.obj fields) => isOne (Json.get fields "schema_version") && hasKeys fields ["kind"]
  | _ => false

/-- `result.get("evidence", [])`. -/
def evidenceItems (fields : Item) : Except Exn (List Json) :=
  match fields.lookup "evidence".toList with
  | none => .ok []
  | some (.arr items) => if items.length ≤ 40 then .ok items else .error (.valueError "invalid Generic evidence list")
  | some _ => .error (.valueError "invalid Generic evidence list")

/-- `parse_generic_result`: the recommendation, and whether the text was narrative. -/
def parseGenericResult (loads : List Char → Option Json) (content : Option (List Char)) :
    Except Exn (Recommendation × Bool) := do
  let found := genericResultObject loads content
  let narrative := !isExplicit found
  let waiting ← continuationOf "awaiting_input" "result_requires_acceptance".toList
  let candidate := .obj [("schema_version".toList, .int 1), ("kind".toList, .str "progress_saved".toList),
    ("evidence".toList, .arr []), ("continuation".toList, waiting)]
  let result := if narrative then candidate else found.getD .null
  let fields ← bounded result ["schema_version", "kind", "evidence", "continuation", "checkpoint"]
  let items ← evidenceItems fields
  return (⟨Json.get fields "kind", items, fields.lookup "continuation".toList, fields.lookup "checkpoint".toList⟩, narrative)

/-! ### Checking it against the facts -/

/-- `GENERIC_RESULT_EVIDENCE_TYPES`. -/
def genericEvidenceTypes : List String := ["output_exists", "check_passed", "workspace_saved"]

/-- The normalized result. -/
structure GenericResult where
  kind : Json
  evidence : List Item
  continuation : Option Json
  checkpoint : Json

section resolve

variable {δ : Type} (db : ResultStore δ) (uuid : List Char → Option Uuid) (loads : List Char → Option Json) (run : ResultRun)

/-- An item of the recommendation. -/
def validateItem (item : Json) : Except ResultError Item :=
  match item with
  | .obj fields => do
      let _ ← (memberOf (Json.get fields "type") genericEvidenceTypes
        "Generic completion needs typed result evidence, not arbitrary successful tools").mapError .raised
      validateTypedEvidence db uuid run fields
      return fields
  | _ => .error (.raised (.valueError "invalid Generic evidence"))

def Observed.item (o : Observed) : Item :=
  [("criterion_id".toList, .str o.criterionId), ("type".toList, .str o.type), ("ref".toList, .str o.ref)]

/-- An observation stands where the recommendation says nothing about its criterion. -/
def addObserved (evidence : List Item) (o : Observed) : Except ResultError (List Item) :=
  if evidence.any fun e => isAbout e o.criterionId then .ok evidence
  else do
    validateTypedEvidence db uuid run o.item
    return evidence ++ [o.item]

/-- What is observed satisfies the requirement, and nothing has to be saved. -/
def observedComplete (evidence : List Item) : Bool :=
  (validateDeliveryEvidence db uuid run evidence).isOk && criteriaSatisfied run.requirement.acceptanceCriteria evidence
    && !run.requirement.saveRequired

/-- The default checkpoint. -/
def defaultCheckpoint (checkpointVersion : ℕ) (resultRef : List Char) : Json :=
  .obj [("schema_version".toList, .int 1), ("checkpoint_version".toList, .int (checkpointVersion + 1)),
    ("requirement_revision".toList, (run.requirementRevision.map fun n => Json.int n).getD .null),
    ("source_run_id".toList, .str (toString run.runId).toList), ("facts".toList, .arr []), ("decisions".toList, .arr []),
    ("unresolved".toList, .arr []), ("next_steps".toList, .arr []), ("evidence_refs".toList, .arr [.str resultRef])]

/-- Narrative is promoted by what was observed alone. -/
def promote (narrative : Bool) (automatic : List Observed) (evidence : List Item) (r : Recommendation) :
    Except ResultError (Json × Option Json) :=
  if narrative && automatic != [] && observedComplete db uuid run evidence then do
    let ready ← (continuationOf "ready" "observed_output_evidence".toList).mapError .raised
    return (.str "deliverable_ready".toList, some ready)
  else .ok (r.kind, r.continuation)

/-- A required branch that has not succeeded stands against completion. -/
def withGaps (gaps : List (List Char)) (kind : Json) (continuation : Option Json) : Except ResultError (Json × Option Json) :=
  if gaps ≠ [] ∧ isText "deliverable_ready" kind then do
    let blocked ← (continuationOf "blocked" ("required_branch_missing:".toList ++ List.intercalate [','] gaps)).mapError .raised
    return (.str "progress_saved".toList, some blocked)
  else .ok (kind, continuation)

/-- A required criterion asks the user. -/
def needsUser : Bool :=
  run.requirement.acceptanceCriteria.any fun c => c.required && c.evidenceTypes.any fun t => t = "user_acceptance"

/-- `generic_result`: the normalized result, and whether completion is suggested. -/
def genericResult (checkpointVersion : ℕ) (content : Option (List Char)) (resultRef : List Char) :
    Except ResultError (GenericResult × Bool) := do
  let (r, narrative) ← (parseGenericResult loads content).mapError .raised
  let explicit ← r.evidence.mapM (validateItem db uuid run)
  let automatic := observedTextEvidence db run
  let evidence ← automatic.foldlM (addObserved db uuid run) explicit
  Outcome.require (evidence.length ≤ 40) (.raised (.valueError "invalid Generic evidence list"))
  let (kind, continuation) ← promote db uuid run narrative automatic evidence r
  let (kind, continuation) ← withGaps (requiredBranchGaps db run.accountId run.runId) kind continuation
  let checkpoint := r.checkpoint.getD (defaultCheckpoint run checkpointVersion resultRef)
  if isText "deliverable_ready" kind && needsUser run then do
    let waiting ← (continuationOf "awaiting_input" "user_acceptance_required".toList).mapError .raised
    return (⟨kind, evidence, some waiting, checkpoint⟩, false)
  else return (⟨kind, evidence, continuation, checkpoint⟩, isText "deliverable_ready" kind)

end resolve

end HpAgent.Results
