import HpAgent.Agents.PlanParsing
import HpAgent.Library.Dialogue
import HpAgent.Workflows.Segments

/-! # The agent workflows

The durable workflows that answer for one execution of a Run.  `reactAgent` asks the model for decisions and executes
their tool calls; `planAndExecute` asks for a plan, runs `agentStep` for its steps, and has the plan evaluated after each
of them.

The workflows are dialogues.  An `Environment` answers each activity and each child workflow that executes a tool, and
its answers may depend on every exchange before.  `modelDecision`, `planning` and `evaluatePlan` are what the activities
make of the answers of the model. -/

namespace HpAgent.Agents

open Library
open Workflows (ApplicationError ActivityError)

/-! ### Contracts -/

def agentSchemaVersion : ℤ := 4

/-- The two strategies. -/
def strategyReact : String := "react"

def strategyPlan : String := "plan_and_execute"

structure RunSource where
  sourceKind : String
  sourceRef : String
deriving DecidableEq, Repr

structure AgentRunInput where
  schemaVersion : ℤ
  runId : String
  accountId : String
  source : RunSource
  strategy : String
  maxTurns : ℤ := 20
  executionId : String
deriving DecidableEq, Repr

/-- What every request of a workflow carries. -/
structure Identity where
  schemaVersion : ℤ
  runId : String
  executionId : String
  accountId : String
  source : RunSource
deriving DecidableEq, Repr

def AgentRunInput.identity (request : AgentRunInput) : Identity :=
  ⟨agentSchemaVersion, request.runId, request.executionId, request.accountId, request.source⟩

structure ContextBootstrapInput extends Identity where
  strategy : String
  operationId : String

structure ContextBootstrapResult where
  transcriptId : String
  transcriptVersion : ℕ

structure CompactToolCall where
  toolCallId : String
  name : String
  argumentsRef : String
deriving DecidableEq, Repr

structure ModelDecisionInput extends Identity where
  strategy : String
  transcriptId : String
  transcriptVersion : ℕ
  turn : ℕ
  operationId : String
  leaseToken : ℕ := 0
  objective : Option String := none
  finalOnly : Bool := false
  planId : Option String := none
  planVersion : Option ℕ := none
  stepId : Option String := none

inductive DecisionType where
  | final
  | toolCalls
deriving DecidableEq, Repr

structure ModelDecisionResult where
  operationId : String
  decisionType : DecisionType
  decisionRef : String
  toolCalls : List CompactToolCall
  transcriptVersion : ℕ
deriving DecidableEq, Repr

structure ToolExecutionInput extends Identity where
  strategy : String
  transcriptId : String
  transcriptVersion : ℕ
  turn : ℕ
  operationId : String
  leaseToken : ℕ := 0
  toolCall : CompactToolCall
  planId : Option String := none
  planVersion : Option ℕ := none
  stepId : Option String := none

structure ToolExecutionResult where
  resultRef : String
  transcriptVersion : ℕ

structure AgentResult where
  schemaVersion : ℤ
  runId : String
  resultRef : String
  transcriptId : String
  transcriptVersion : ℕ
  toolTurns : ℕ
deriving DecidableEq, Repr

structure PlanStep where
  stepId : String
  ordinal : ℕ
  title : String
  objective : String
deriving DecidableEq, Repr

structure PlanningInput extends Identity where
  transcriptId : String
  transcriptVersion : ℕ
  operationId : String
  leaseToken : ℕ := 0
  planId : String
  planVersion : ℕ
  previousPlanRef : Option String := none
  previousPlanVersion : Option ℕ := none
  completedStepRefs : List String := []
  triggerStepId : Option String := none
  evaluationReason : Option String := none

structure PlanningResult where
  planId : String
  planVersion : ℕ
  steps : List PlanStep
  transcriptVersion : ℕ
deriving DecidableEq, Repr

structure PlanEvaluationInput extends Identity where
  transcriptId : String
  transcriptVersion : ℕ
  operationId : String
  leaseToken : ℕ := 0
  planId : String
  planVersion : ℕ
  stepId : String
  stepIndex : ℕ
  stepCount : ℕ

structure PlanEvaluationResult where
  decision : String
  reason : String
deriving DecidableEq, Repr

structure AgentStepInput where
  agent : AgentRunInput
  transcriptId : String
  transcriptVersion : ℕ
  planId : String
  planVersion : ℕ
  step : PlanStep
  maxTurns : ℤ := 8

structure AgentStepResult where
  stepId : String
  resultRef : String
  transcriptVersion : ℕ
  toolTurns : ℕ
deriving DecidableEq, Repr

/-! ### The decision of the model -/

/-- A tool call as the provider gives it; its arguments are not read here. -/
structure ActionRequest where
  id : String
  name : String
deriving DecidableEq, Repr

/-- How the terminal action of a Main chat Run ended, with the version of the transcript after it. -/
inductive ResponseAction where
  | accepted (transcriptVersion : ℕ)
  | rejected (transcriptVersion : ℕ)
deriving DecidableEq, Repr

/-- What the activity is answered. -/
structure ModelAnswer where
  toolFirst : Bool
  tools : List String
  actionRequests : List ActionRequest
  transcriptVersion : ℕ
  response : ResponseAction
deriving DecidableEq, Repr

def respondDirectly : String := "respond_directly"

def mainToolProtocolInvalid : ApplicationError := ⟨some "main_tool_protocol_invalid", true⟩

/-- `_main_response`. -/
def mainResponse (input : ModelDecisionInput) (response : ResponseAction) : Except ApplicationError ModelDecisionResult :=
  let operation := input.operationId ++ ":respond"
  match response with
  | .accepted version => .ok ⟨operation, .final, "main-response:" ++ operation, [], version⟩
  | .rejected version =>
      if input.finalOnly then .error mainToolProtocolInvalid
      else .ok ⟨operation, .toolCalls, "main-response-error:" ++ operation, [], version⟩

/-- The tool calls of an answer, by reference. -/
def compactCalls (resultRef : String) (requests : List ActionRequest) : List CompactToolCall :=
  requests.map fun item => ⟨item.id, item.name, resultRef ++ "#" ++ item.id⟩

/-- A Main chat Run must choose exactly one tool that it was offered. -/
def invalidAction (input : ModelDecisionInput) (answer : ModelAnswer) : List CompactToolCall → Bool
  | [call] => answer.toolFirst && (!answer.tools.contains call.name || (input.finalOnly && call.name ≠ respondDirectly))
  | _ => answer.toolFirst

/-- `model_decision`, from the answer of the provider on. -/
def modelDecision (input : ModelDecisionInput) (answer : ModelAnswer) : Except ApplicationError ModelDecisionResult :=
  let resultRef := "agent-decision:" ++ input.operationId
  let calls := compactCalls resultRef answer.actionRequests
  if invalidAction input answer calls then
    if input.finalOnly then .error mainToolProtocolInvalid
    else .ok ⟨input.operationId, .toolCalls, resultRef, [], answer.transcriptVersion⟩
  else if answer.toolFirst && calls.any (·.name = respondDirectly) then mainResponse input answer.response
  else
    .ok ⟨input.operationId, if calls.isEmpty && !answer.toolFirst then .final else .toolCalls, resultRef, calls,
      answer.transcriptVersion⟩

/-! ### Plans and evaluations -/

/-- What the planning is answered; `content` is the text of the model. -/
structure PlanAnswer where
  content : String
  lastUserContent : String
  transcriptVersion : ℕ
deriving DecidableEq, Repr

/-- The steps are numbered from one. -/
def planSteps (raw : List (List Char × List Char)) : List PlanStep :=
  raw.zipIdx.map fun item =>
    ⟨"step-" ++ toString (item.2 + 1), item.2 + 1, String.ofList item.1.1, String.ofList item.1.2⟩

/-- `planning`, from the answer of the model on. -/
def planning (host : Host) (input : PlanningInput) (answer : PlanAnswer) : Except ApplicationError PlanningResult :=
  match parsePlan host answer.content.toList answer.lastUserContent.toList with
  | .error _ => .error ⟨some "planning_failed", false⟩
  | .ok raw => .ok ⟨input.planId, input.planVersion, planSteps raw, answer.transcriptVersion⟩

/-- `evaluate_plan`, from the text of the model on. -/
def evaluatePlan (host : Host) (input : PlanEvaluationInput) (content : String) :
    Except ApplicationError PlanEvaluationResult :=
  let defaultDecision := if input.stepCount ≤ input.stepIndex then "complete" else "continue"
  match parseEvaluation host content.toList defaultDecision.toList with
  | .error _ => .error ⟨some "RecursionError", false⟩
  | .ok (decision, reason) => .ok ⟨String.ofList decision, String.ofList reason⟩

/-! ### The environment -/

/-- A question of a workflow, with its answer. -/
inductive Exchange where
  | contextBootstrap (input : ContextBootstrapInput) (answer : Except ActivityError ContextBootstrapResult)
  | modelDecision (input : ModelDecisionInput) (answer : Except ActivityError ModelAnswer)
  | toolExecution (input : ToolExecutionInput) (answer : Except ActivityError ToolExecutionResult)
  | planning (input : PlanningInput) (answer : Except ActivityError PlanAnswer)
  | evaluatePlan (input : PlanEvaluationInput) (content : Except ActivityError String)

def Exchange.operationId : Exchange → String
  | .contextBootstrap input _ => input.operationId
  | .modelDecision input _ => input.operationId
  | .toolExecution input _ => input.operationId
  | .planning input _ => input.operationId
  | .evaluatePlan input _ => input.operationId

/-- What the activities and the tools answer, or how they fail. -/
structure Environment where
  host : Host
  contextBootstrap : List Exchange → ContextBootstrapInput → Except ActivityError ContextBootstrapResult
  modelDecision : List Exchange → ModelDecisionInput → Except ActivityError ModelAnswer
  toolExecution : List Exchange → ToolExecutionInput → Except ActivityError ToolExecutionResult
  planning : List Exchange → PlanningInput → Except ActivityError PlanAnswer
  evaluatePlan : List Exchange → PlanEvaluationInput → Except ActivityError String

/-- How a workflow fails: by an error of its own, or with an activity or a child workflow. -/
inductive Failure where
  | raised (message : String) (error : ApplicationError)
  | activity (error : ActivityError)
deriving DecidableEq, Repr

/-- A workflow that asks its environment. -/
abbrev Workflow (α : Type) := Dialogue Exchange Failure α

/-- One activity, or one child workflow. -/
def execute {ρ : Type} (answer : List Exchange → Except ActivityError ρ) (entry : Except ActivityError ρ → Exchange) :
    Workflow ρ := do
  let result ← Dialogue.ask answer entry
  Dialogue.ofExcept (result.mapError .activity)

section workflows

variable (env : Environment)

def contextBootstrapActivity (input : ContextBootstrapInput) : Workflow ContextBootstrapResult :=
  execute (env.contextBootstrap · input) (.contextBootstrap input)

def modelDecisionActivity (input : ModelDecisionInput) : Workflow ModelDecisionResult := do
  let answer ← execute (env.modelDecision · input) (.modelDecision input)
  Dialogue.ofExcept ((modelDecision input answer).mapError fun error => .activity ⟨false, some error⟩)

def toolExecutionWorkflow (input : ToolExecutionInput) : Workflow ToolExecutionResult :=
  execute (env.toolExecution · input) (.toolExecution input)

def planningActivity (input : PlanningInput) : Workflow PlanningResult := do
  let answer ← execute (env.planning · input) (.planning input)
  Dialogue.ofExcept ((planning env.host input answer).mapError fun error => .activity ⟨false, some error⟩)

def evaluatePlanActivity (input : PlanEvaluationInput) : Workflow PlanEvaluationResult := do
  let content ← execute (env.evaluatePlan · input) (.evaluatePlan input)
  Dialogue.ofExcept ((evaluatePlan env.host input content).mapError fun error => .activity ⟨false, some error⟩)

/-! ### The tool loop -/

/-- `for call in decision.tool_calls`. -/
def executeCalls (tool : ℕ → CompactToolCall → ToolExecutionInput) : List CompactToolCall → ℕ → Workflow ℕ
  | [], transcriptVersion => pure transcriptVersion
  | call :: calls, transcriptVersion => do
      let result ← toolExecutionWorkflow env (tool transcriptVersion call)
      executeCalls tool calls result.transcriptVersion

/-- How a tool loop ended, after so many turns with tools. -/
structure Decided where
  /-- the final decision; `none` when the turns are used up -/
  decisionRef : Option String
  transcriptVersion : ℕ
  toolTurns : ℕ
deriving DecidableEq, Repr

/-- `for turn in range(turn, turn + left)`: a decision, then its tool calls. -/
def toolLoop (model : ℕ → ℕ → ModelDecisionInput) (tool : ℕ → ℕ → CompactToolCall → ToolExecutionInput) :
    ℕ → ℕ → ℕ → ℕ → Workflow Decided
  | 0, _, transcriptVersion, toolTurns => pure ⟨none, transcriptVersion, toolTurns⟩
  | left + 1, turn, transcriptVersion, toolTurns => do
      let decision ← modelDecisionActivity env (model turn transcriptVersion)
      match decision.decisionType with
      | .final => pure ⟨some decision.decisionRef, decision.transcriptVersion, toolTurns⟩
      | .toolCalls => do
          let version ← executeCalls env (tool turn) decision.toolCalls decision.transcriptVersion
          toolLoop model tool left (turn + 1) version (toolTurns + 1)

/-- `_validate`. -/
def validate (request : AgentRunInput) : Workflow Unit :=
  if request.schemaVersion ≠ agentSchemaVersion then
    Dialogue.raise (.raised "unsupported Agent workflow schema" ⟨none, true⟩)
  else if request.runId = "" ∨ request.accountId = "" ∨ request.executionId = "" ∨ request.source.sourceKind = "" ∨
      request.source.sourceRef = "" then
    Dialogue.raise (.raised "incomplete Agent identity" ⟨none, true⟩)
  else if request.maxTurns < 1 then Dialogue.raise (.raised "invalid Agent execution limits" ⟨none, true⟩)
  else pure ()

def bootstrap (request : AgentRunInput) : Workflow ContextBootstrapResult :=
  contextBootstrapActivity env
    { request.identity with
      strategy := request.strategy
      operationId := request.executionId ++ ":" ++ request.strategy ++ ":context" }

/-! ### ReAct -/

def reactModelInput (request : AgentRunInput) (context : ContextBootstrapResult) (turn transcriptVersion : ℕ) :
    ModelDecisionInput :=
  { request.identity with
    strategy := request.strategy
    transcriptId := context.transcriptId
    transcriptVersion
    turn
    operationId := request.executionId ++ ":react:turn:" ++ toString turn ++ ":model" }

def reactToolInput (request : AgentRunInput) (context : ContextBootstrapResult) (turn transcriptVersion : ℕ)
    (call : CompactToolCall) : ToolExecutionInput :=
  { request.identity with
    strategy := request.strategy
    transcriptId := context.transcriptId
    transcriptVersion
    turn
    operationId := request.executionId ++ ":react:turn:" ++ toString turn ++ ":tool:" ++ call.toolCallId
    toolCall := call }

def reactFinalInput (request : AgentRunInput) (context : ContextBootstrapResult) (transcriptVersion : ℕ) :
    ModelDecisionInput :=
  let finalTurn := request.maxTurns.toNat + 1
  { request.identity with
    strategy := request.strategy
    transcriptId := context.transcriptId
    transcriptVersion
    turn := finalTurn
    operationId := request.executionId ++ ":react:turn:" ++ toString finalTurn ++ ":forced-final"
    finalOnly := true }

/-- What a workflow answers for its Run. -/
def agentResult (request : AgentRunInput) (context : ContextBootstrapResult) (resultRef : String)
    (transcriptVersion toolTurns : ℕ) : AgentResult :=
  ⟨agentSchemaVersion, request.runId, resultRef, context.transcriptId, transcriptVersion, toolTurns⟩

/-- After the turns, one decision that must be final. -/
def reactForcedFinal (request : AgentRunInput) (context : ContextBootstrapResult) (decided : Decided) :
    Workflow AgentResult := do
  let final ← modelDecisionActivity env (reactFinalInput request context decided.transcriptVersion)
  return agentResult request context final.decisionRef final.transcriptVersion decided.toolTurns

/-- `ReactAgentWorkflow.run`. -/
def reactAgent (request : AgentRunInput) : Workflow AgentResult := do
  validate request
  let context ← bootstrap env request
  let decided ← toolLoop env (reactModelInput request context) (reactToolInput request context) request.maxTurns.toNat 1
    context.transcriptVersion 0
  match decided.decisionRef with
  | some decisionRef => pure (agentResult request context decisionRef decided.transcriptVersion decided.toolTurns)
  | none => reactForcedFinal env request context decided

/-! ### One step of a plan -/

/-- What the operations of a step start with. -/
def AgentStepInput.operation (request : AgentStepInput) : String :=
  request.agent.executionId ++ ":plan:" ++ toString request.planVersion ++ ":step:" ++ request.step.stepId

def stepModelInput (request : AgentStepInput) (turn transcriptVersion : ℕ) : ModelDecisionInput :=
  { request.agent.identity with
    strategy := request.agent.strategy
    transcriptId := request.transcriptId
    transcriptVersion
    turn
    operationId := request.operation ++ ":turn:" ++ toString turn ++ ":model"
    objective := some request.step.objective
    planId := some request.planId
    planVersion := some request.planVersion
    stepId := some request.step.stepId }

def stepToolInput (request : AgentStepInput) (turn transcriptVersion : ℕ) (call : CompactToolCall) : ToolExecutionInput :=
  { request.agent.identity with
    strategy := request.agent.strategy
    transcriptId := request.transcriptId
    transcriptVersion
    turn
    operationId := request.operation ++ ":turn:" ++ toString turn ++ ":tool:" ++ call.toolCallId
    toolCall := call
    planId := some request.planId
    planVersion := some request.planVersion
    stepId := some request.step.stepId }

def stepFinalInput (request : AgentStepInput) (transcriptVersion : ℕ) : ModelDecisionInput :=
  { request.agent.identity with
    strategy := request.agent.strategy
    transcriptId := request.transcriptId
    transcriptVersion
    turn := request.maxTurns.toNat + 1
    operationId := request.operation ++ ":forced-final"
    objective := some request.step.objective
    finalOnly := true
    planId := some request.planId
    planVersion := some request.planVersion
    stepId := some request.step.stepId }

def stepForcedFinal (request : AgentStepInput) (decided : Decided) : Workflow AgentStepResult := do
  let final ← modelDecisionActivity env (stepFinalInput request decided.transcriptVersion)
  return ⟨request.step.stepId, final.decisionRef, final.transcriptVersion, decided.toolTurns⟩

/-- `AgentStepWorkflow.run`. -/
def agentStep (request : AgentStepInput) : Workflow AgentStepResult := do
  validate request.agent
  let decided ← toolLoop env (stepModelInput request) (stepToolInput request) request.maxTurns.toNat 1
    request.transcriptVersion 0
  match decided.decisionRef with
  | some decisionRef => pure ⟨request.step.stepId, decisionRef, decided.transcriptVersion, decided.toolTurns⟩
  | none => stepForcedFinal env request decided

/-! ### Plan and execute -/

def planEvaluationFailed : Failure := .raised "plan evaluation failed" ⟨some "plan_evaluation_failed", true⟩

def planReplanLimitReached : Failure := .raised "plan replan limit reached" ⟨some "plan_replan_limit_reached", true⟩

/-- The variables of the `while` loop. -/
structure Progress where
  steps : List PlanStep
  planVersion : ℕ
  transcriptVersion : ℕ
  toolTurns : ℕ
  replanCount : ℕ
  completedStepRefs : List String
deriving DecidableEq, Repr

def planId (request : AgentRunInput) : String := "plan:" ++ request.executionId

def firstPlanningInput (request : AgentRunInput) (context : ContextBootstrapResult) : PlanningInput :=
  { request.identity with
    transcriptId := context.transcriptId
    transcriptVersion := context.transcriptVersion
    operationId := request.executionId ++ ":plan:" ++ toString 1 ++ ":planner"
    planId := planId request
    planVersion := 1 }

def agentStepInput (request : AgentRunInput) (context : ContextBootstrapResult) (progress : Progress) (step : PlanStep) :
    AgentStepInput where
  agent := request
  transcriptId := context.transcriptId
  transcriptVersion := progress.transcriptVersion
  planId := planId request
  planVersion := progress.planVersion
  step := step

def evaluationInput (request : AgentRunInput) (context : ContextBootstrapResult) (progress : Progress) (step : PlanStep)
    (index : ℕ) : PlanEvaluationInput :=
  { request.identity with
    transcriptId := context.transcriptId
    transcriptVersion := progress.transcriptVersion
    operationId := request.executionId ++ ":plan:" ++ toString progress.planVersion ++ ":step:" ++ step.stepId ++ ":evaluation"
    planId := planId request
    planVersion := progress.planVersion
    stepId := step.stepId
    stepIndex := index
    stepCount := progress.steps.length }

/-- The plan of the next version, after this step. -/
def replanningInput (request : AgentRunInput) (context : ContextBootstrapResult) (progress : Progress) (step : PlanStep)
    (reason : String) : PlanningInput :=
  { request.identity with
    transcriptId := context.transcriptId
    transcriptVersion := progress.transcriptVersion
    operationId := request.executionId ++ ":plan:" ++ toString (progress.planVersion + 1) ++ ":planner"
    planId := planId request
    planVersion := progress.planVersion + 1
    previousPlanRef := some ("agent-plan:" ++ planId request ++ ":v" ++ toString progress.planVersion)
    previousPlanVersion := some progress.planVersion
    completedStepRefs := progress.completedStepRefs
    triggerStepId := some step.stepId
    evaluationReason := some reason }

def synthesisInput (request : AgentRunInput) (context : ContextBootstrapResult) (progress : Progress) : ModelDecisionInput :=
  { request.identity with
    strategy := request.strategy
    transcriptId := context.transcriptId
    transcriptVersion := progress.transcriptVersion
    turn := progress.steps.length + 1
    operationId := request.executionId ++ ":plan:" ++ toString progress.planVersion ++ ":synthesis"
    objective := some "综合所有已完成步骤，直接回答用户最初的问题。"
    finalOnly := true
    planId := some (planId request)
    planVersion := some progress.planVersion }

/-- How the steps of a plan ended. -/
inductive Passed where
  /-- a step ended with the response of the Run -/
  | returned (result : AgentResult)
  | replanned (progress : Progress)
  | finished (progress : Progress)

/-- `evaluation.decision == "replan"`. -/
def replan (request : AgentRunInput) (context : ContextBootstrapResult) (progress : Progress) (step : PlanStep)
    (reason : String) : Workflow Passed :=
  if progress.replanCount + 1 > 3 then Dialogue.raise planReplanLimitReached
  else do
    let plan ← planningActivity env (replanningInput request context progress step reason)
    return .replanned
      { progress with
        steps := plan.steps
        planVersion := progress.planVersion + 1
        transcriptVersion := plan.transcriptVersion
        replanCount := progress.replanCount + 1 }

/-- The result of a step is the response of the Run. -/
def isResponse (resultRef : String) : Bool := "main-response:".toList.isPrefixOf resultRef.toList

/-- What a step that has ended changes. -/
def Progress.completed (progress : Progress) (result : AgentStepResult) : Progress :=
  { progress with
    transcriptVersion := result.transcriptVersion
    toolTurns := progress.toolTurns + result.toolTurns
    completedStepRefs := progress.completedStepRefs ++ [result.resultRef] }

/-- `for index, step in enumerate(plan.steps, 1)`, from this index on. -/
def executeSteps (request : AgentRunInput) (context : ContextBootstrapResult) :
    List PlanStep → ℕ → Progress → Workflow Passed
  | [], _, progress => pure (.finished progress)
  | step :: steps, index, progress => do
      let result ← agentStep env (agentStepInput request context progress step)
      if isResponse result.resultRef then
        pure (.returned (agentResult request context result.resultRef result.transcriptVersion
          (progress.toolTurns + result.toolTurns)))
      else do
        let evaluation ← evaluatePlanActivity env (evaluationInput request context (progress.completed result) step index)
        if evaluation.decision = "fail" then Dialogue.raise planEvaluationFailed
        else if evaluation.decision = "replan" then
          replan env request context (progress.completed result) step evaluation.reason
        else if evaluation.decision = "complete" then pure (.finished (progress.completed result))
        else executeSteps request context steps (index + 1) (progress.completed result)

/-- The final decision over all steps. -/
def synthesis (request : AgentRunInput) (context : ContextBootstrapResult) (progress : Progress) : Workflow AgentResult := do
  let final ← modelDecisionActivity env (synthesisInput request context progress)
  return agentResult request context final.decisionRef final.transcriptVersion progress.toolTurns

/-- One pass of `while True`. -/
def pass (request : AgentRunInput) (context : ContextBootstrapResult) (progress : Progress) :
    Workflow (Progress ⊕ AgentResult) := do
  match ← executeSteps env request context progress.steps 1 progress with
  | .returned result => pure (.inr result)
  | .replanned next => pure (.inl next)
  | .finished done => do
      let result ← synthesis env request context done
      pure (.inr result)

/-- `PlanAndExecuteWorkflow.run`, for at most so many passes of its loop. -/
def planAndExecute (passes : ℕ) (request : AgentRunInput) : Workflow (Option AgentResult) := do
  validate request
  let context ← bootstrap env request
  let plan ← planningActivity env (firstPlanningInput request context)
  Dialogue.rounds (pass env request context) passes ⟨plan.steps, 1, plan.transcriptVersion, 0, 0, []⟩

/-- `AgentRunWorkflow.run`. -/
def agentRun (passes : ℕ) (request : AgentRunInput) : Workflow (Option AgentResult) := do
  validate request
  if request.strategy = strategyReact then do
    let result ← reactAgent env request
    return some result
  else if request.strategy = strategyPlan then planAndExecute env passes request
  else Dialogue.raise (.raised "unsupported agent strategy" ⟨some "unsupported_agent_strategy", true⟩)

end workflows

end HpAgent.Agents
