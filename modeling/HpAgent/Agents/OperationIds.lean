import HpAgent.Agents.Workflows
import HpAgent.Capabilities.ToolNames
import HpAgent.Library.Fields

/-! # Operation ids

The operations of one execution of a Run, and the ids that the workflows give them.

* `Operation.text_inj`: two operations have two ids, whatever the ids of their tool calls.
* `operationId_execution`: the id of an operation tells its execution. -/

namespace HpAgent.Agents

open Library
open Capabilities (decimal_inj)

/-- Where a tool loop runs: in ReAct, or in a step of a version of the plan. -/
inductive Site where
  | react
  | step (planVersion index : ℕ)
deriving DecidableEq, Repr

inductive Operation where
  | context (react : Bool)
  | decision (site : Site) (turn : ℕ)
  | tool (site : Site) (turn : ℕ) (toolCallId : String)
  | reactFinal (turn : ℕ)
  | stepFinal (planVersion index : ℕ)
  | planner (planVersion : ℕ)
  | evaluation (planVersion index : ℕ)
  | synthesis (planVersion : ℕ)
deriving DecidableEq, Repr

/-- The fields of the id of an operation, but for the last one; no field has a colon. -/
def Operation.fields : Operation → List String
  | .context true => ["react"]
  | .context false => ["plan_and_execute"]
  | .decision .react turn => ["react", "turn", toString turn]
  | .decision (.step v i) turn => ["plan", toString v, "step", "step-" ++ toString i, "turn", toString turn]
  | .tool .react turn _ => ["react", "turn", toString turn, "tool"]
  | .tool (.step v i) turn _ => ["plan", toString v, "step", "step-" ++ toString i, "turn", toString turn, "tool"]
  | .reactFinal turn => ["react", "turn", toString turn]
  | .stepFinal v i => ["plan", toString v, "step", "step-" ++ toString i]
  | .planner v => ["plan", toString v]
  | .evaluation v i => ["plan", toString v, "step", "step-" ++ toString i]
  | .synthesis v => ["plan", toString v]

/-- The last field; the id of a tool call is as the provider gave it. -/
def Operation.last : Operation → String
  | .context _ => "context"
  | .decision _ _ => "model"
  | .tool _ _ toolCallId => toolCallId
  | .reactFinal _ => "forced-final"
  | .stepFinal _ _ => "forced-final"
  | .planner _ => "planner"
  | .evaluation _ _ => "evaluation"
  | .synthesis _ => "synthesis"

/-- The id of an operation, after the id of its execution. -/
def Operation.text (o : Operation) : List Char := joined ':' (o.fields.map String.toList) ++ ':' :: o.last.toList

/-- The id that the operation has in this execution. -/
def operationIdOf (executionId : String) (o : Operation) : String := executionId ++ String.ofList o.text

theorem colon_not_mem_decimal (n : ℕ) : ':' ∉ (toString n).toList := by
  intro h
  have hdigit : (':').isDigit = true := Nat.isDigit_of_mem_toDigits (b := 10) (n := n) (by decide) (by decide) (by simpa using h)
  exact absurd hdigit (by decide)

theorem colon_not_mem_step (n : ℕ) : ':' ∉ ("step-" ++ toString n).toList := by
  rw [String.toList_append, List.mem_append, not_or]
  exact ⟨by decide, colon_not_mem_decimal n⟩

theorem toString_inj {m n : ℕ} : toString m = toString n ↔ m = n := by
  constructor
  · intro h
    exact decimal_inj (congrArg String.toList h)
  · rintro rfl
    rfl

theorem step_inj {m n : ℕ} : "step-" ++ toString m = "step-" ++ toString n ↔ m = n := by
  rw [String.append_right_inj, toString_inj]

theorem Operation.fields_plain (o : Operation) : ∀ f ∈ o.fields.map String.toList, ':' ∉ f := by
  have hdecimal := colon_not_mem_decimal
  have hstep := colon_not_mem_step
  have hplain : ∀ field ∈ o.fields, ':' ∉ field.toList := by
    fun_cases Operation.fields o <;>
      simp only [List.forall_mem_cons, hdecimal, hstep, not_false_eq_true, true_and, List.not_mem_nil, false_imp_iff,
        implies_true, and_true]
    all_goals decide
  intro f hf
  obtain ⟨field, hfield, rfl⟩ := List.mem_map.mp hf
  exact hplain field hfield

/-- The fields of an id. -/
theorem Operation.parts_eq {o o' : Operation} (h : o.text = o'.text) :
    o.fields.map String.toList ++ o.last.toList.splitOn ':' = o'.fields.map String.toList ++ o'.last.toList.splitOn ':' :=
  joined_inj o.fields_plain o'.fields_plain h

/-- **Two operations have two ids.** -/
theorem Operation.text_inj {o o' : Operation} (h : o.text = o'.text) : o = o' := by
  have hparts := parts_eq h
  have hmodel : "model".toList.splitOn ':' = ["model".toList] := by decide
  have hcontext : "context".toList.splitOn ':' = ["context".toList] := by decide
  have hforced : "forced-final".toList.splitOn ':' = ["forced-final".toList] := by decide
  have hplanner : "planner".toList.splitOn ':' = ["planner".toList] := by decide
  have hevaluation : "evaluation".toList.splitOn ':' = ["evaluation".toList] := by decide
  have hsynthesis : "synthesis".toList.splitOn ':' = ["synthesis".toList] := by decide
  revert hparts
  -- only an operation of the same kind has fields that agree
  fun_cases Operation.fields o <;> fun_cases Operation.fields o' <;>
    simp only [Operation.last, hmodel, hcontext, hforced, hplanner, hevaluation, hsynthesis, List.map_cons, List.map_nil,
      List.cons_append, List.nil_append, List.cons.injEq, String.toList_inj, toString_inj, step_inj, reduceCtorEq,
      String.reduceEq, false_and, true_and, and_true, and_false, IsEmpty.forall_iff, imp_self]
  · rintro rfl
    rfl
  · rintro ⟨rfl, rfl, rfl⟩
    rfl
  · rintro ⟨rfl, hid⟩
    rw [String.toList_inj.mp (splitOn_inj hid)]
  · rintro ⟨rfl, rfl, rfl, hid⟩
    rw [String.toList_inj.mp (splitOn_inj hid)]
  · rintro rfl
    rfl
  · rintro ⟨rfl, rfl⟩
    rfl
  · rintro rfl
    rfl
  · rintro ⟨rfl, rfl⟩
    rfl
  · rintro rfl
    rfl

theorem operationId_inj {executionId : String} {o o' : Operation} : operationIdOf executionId o = operationIdOf executionId o' ↔ o = o' := by
  unfold operationIdOf
  rw [String.append_right_inj]
  constructor
  · intro h
    exact Operation.text_inj (String.ofList_injective h)
  · rintro rfl
    rfl

/-- Ids of executions are equally long, so an operation id tells the execution. -/
theorem operationId_execution {executionId executionId' : String} {o o' : Operation}
    (hlength : executionId.length = executionId'.length) (h : operationIdOf executionId o = operationIdOf executionId' o') :
    executionId = executionId' := by
  have htext := congrArg String.toList h
  unfold operationIdOf at htext
  rw [String.toList_append, String.toList_append] at htext
  have hsame : executionId.toList.length = executionId'.toList.length := by
    rw [String.length_toList, String.length_toList]
    exact hlength
  exact String.toList_inj.mp (List.append_inj_left htext hsame)

/-! ### The ids that the workflows write -/

section written

variable {request : AgentRunInput} {context : ContextBootstrapResult} {step : AgentStepInput} {progress : Progress}
  {turn version : ℕ} {call : CompactToolCall}

theorem operationId_eq {executionId : String} {o : Operation} {id : String} (h : id.toList = executionId.toList ++ o.text) :
    id = operationIdOf executionId o := by
  rw [← String.toList_inj, h, operationIdOf, String.toList_append, String.toList_ofList]

theorem reactModelInput_id :
    (reactModelInput request context turn version).operationId = operationIdOf request.executionId (.decision .react turn) := by
  refine operationId_eq ?_
  simp [reactModelInput, Operation.text, Operation.fields, Operation.last]

theorem reactToolInput_id : (reactToolInput request context turn version call).operationId =
    operationIdOf request.executionId (.tool .react turn call.toolCallId) := by
  refine operationId_eq ?_
  simp [reactToolInput, Operation.text, Operation.fields, Operation.last]

theorem reactFinalInput_id : (reactFinalInput request context version).operationId =
    operationIdOf request.executionId (.reactFinal (request.maxTurns.toNat + 1)) := by
  refine operationId_eq ?_
  simp [reactFinalInput, Operation.text, Operation.fields, Operation.last]

theorem bootstrap_id {react : Bool} (h : request.strategy = if react then strategyReact else strategyPlan) :
    request.executionId ++ ":" ++ request.strategy ++ ":context" = operationIdOf request.executionId (.context react) := by
  refine operationId_eq ?_
  rw [h]
  cases react <;> simp [strategyReact, strategyPlan, Operation.text, Operation.fields, Operation.last]

theorem stepModelInput_id {i : ℕ} (h : step.step.stepId = "step-" ++ toString i) :
    (stepModelInput step turn version).operationId =
      operationIdOf step.agent.executionId (.decision (.step step.planVersion i) turn) := by
  refine operationId_eq ?_
  simp [stepModelInput, AgentStepInput.operation, h, Operation.text, Operation.fields, Operation.last]

theorem stepToolInput_id {i : ℕ} (h : step.step.stepId = "step-" ++ toString i) :
    (stepToolInput step turn version call).operationId =
      operationIdOf step.agent.executionId (.tool (.step step.planVersion i) turn call.toolCallId) := by
  refine operationId_eq ?_
  simp [stepToolInput, AgentStepInput.operation, h, Operation.text, Operation.fields, Operation.last]

theorem stepFinalInput_id {i : ℕ} (h : step.step.stepId = "step-" ++ toString i) :
    (stepFinalInput step version).operationId = operationIdOf step.agent.executionId (.stepFinal step.planVersion i) := by
  refine operationId_eq ?_
  simp [stepFinalInput, AgentStepInput.operation, h, Operation.text, Operation.fields, Operation.last]

theorem firstPlanningInput_id :
    (firstPlanningInput request context).operationId = operationIdOf request.executionId (.planner 1) := by
  refine operationId_eq ?_
  simp [firstPlanningInput, Operation.text, Operation.fields, Operation.last]

theorem replanningInput_id {s : PlanStep} {reason : String} :
    (replanningInput request context progress s reason).operationId =
      operationIdOf request.executionId (.planner (progress.planVersion + 1)) := by
  refine operationId_eq ?_
  simp [replanningInput, Operation.text, Operation.fields, Operation.last]

theorem evaluationInput_id {s : PlanStep} {index i : ℕ} (h : s.stepId = "step-" ++ toString i) :
    (evaluationInput request context progress s index).operationId =
      operationIdOf request.executionId (.evaluation progress.planVersion i) := by
  refine operationId_eq ?_
  simp [evaluationInput, h, Operation.text, Operation.fields, Operation.last]

theorem synthesisInput_id :
    (synthesisInput request context progress).operationId = operationIdOf request.executionId (.synthesis progress.planVersion) := by
  refine operationId_eq ?_
  simp [synthesisInput, Operation.text, Operation.fields, Operation.last]

end written

end HpAgent.Agents
