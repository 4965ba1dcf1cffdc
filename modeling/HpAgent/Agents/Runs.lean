import HpAgent.Agents.OperationIds

/-! # Runs of the agent workflows

Whatever the activities and the tools answer, the workflows end, they ask for no plan, step or turn beyond their bounds,
and each operation is asked for under an id of its own; only a decision whose tool calls repeat an id breaks the last of
these.

* `Adds` of each workflow (`toolLoop_adds`, `agentStep_adds`, `executeSteps_adds`, `pass_adds`, `agentRun_adds`).
* `agent_runs_bounded`: the executions of a Run. -/

namespace HpAgent.Agents

open Library Dialogue
open Workflows (ApplicationError ActivityError)

variable {result : ModelDecisionResult} {o : Operation}

/-! ### What an exchange is -/

/-- The exchange is about this operation of the execution. -/
def Exchange.About : Exchange → Operation → Prop
  | .contextBootstrap _ _, .context _ => True
  | .modelDecision input _, .decision _ turn => input.turn = turn ∧ input.finalOnly = false
  | .modelDecision input _, .reactFinal turn => input.turn = turn ∧ input.finalOnly = true
  | .modelDecision input _, .stepFinal _ _ => input.finalOnly = true
  | .modelDecision input _, .synthesis _ => input.finalOnly = true
  | .toolExecution input _, .tool _ turn toolCallId => input.turn = turn ∧ input.toolCall.toolCallId = toolCallId
  | .planning input _, .planner version => input.planVersion = version
  | .evaluatePlan input _, .evaluation version index => input.planVersion = version ∧ input.stepIndex = index
  | _, _ => False

/-- The exchange performs an operation of this kind in the execution. -/
def Exchange.Performs (executionId : String) (S : Operation → Prop) (x : Exchange) : Prop :=
  ∃ o, S o ∧ x.About o ∧ x.operationId = operationIdOf executionId o

/-- The tool calls of the decision, where they are executed, have distinct ids. -/
def Exchange.Distinct : Exchange → Prop
  | .modelDecision input (.ok answer) =>
      input.finalOnly = false → answer.toolFirst = false → (answer.actionRequests.map (·.id)).Nodup
  | _ => True

instance : DecidablePred Exchange.Distinct
  | .modelDecision input (.ok answer) => inferInstanceAs (Decidable (input.finalOnly = false → answer.toolFirst = false →
      (answer.actionRequests.map (·.id)).Nodup))
  | .modelDecision _ (.error _) => isTrue trivial
  | .contextBootstrap _ _ => isTrue trivial
  | .toolExecution _ _ => isTrue trivial
  | .planning _ _ => isTrue trivial
  | .evaluatePlan _ _ => isTrue trivial

/-- The exchange is no tool that failed. -/
def Exchange.Answered : Exchange → Prop
  | .toolExecution _ (.error _) => False
  | _ => True

def Exchange.isDecision : Exchange → Bool
  | .modelDecision _ _ => true
  | _ => false

def Exchange.isPlanning : Exchange → Bool
  | .planning _ _ => true
  | _ => false

def Exchange.isEvaluation : Exchange → Bool
  | .evaluatePlan _ _ => true
  | _ => false

/-! ### What is added -/

/-- The added exchanges perform operations of this kind, each under its own id, and there are at most so many of them. -/
structure Traced (executionId : String) (S : Operation → Prop) (plannings evaluations decisions : ℕ) (added : List Exchange) :
    Prop where
  fresh : Fresh Exchange.operationId Exchange.Distinct Exchange.Answered (Exchange.Performs executionId S) added
  plannings : added.countP Exchange.isPlanning ≤ plannings
  evaluations : added.countP Exchange.isEvaluation ≤ evaluations
  decisions : added.countP Exchange.isDecision ≤ decisions

section traced

variable {executionId : String} {S S₁ S₂ : Operation → Prop} {p p₁ p₂ e e₁ e₂ d d₁ d₂ : ℕ} {x : Exchange}
  {added added₁ added₂ : List Exchange}

theorem Exchange.Performs.mono (h : x.Performs executionId S₁) (hS : ∀ o, S₁ o → S o) : x.Performs executionId S := by
  obtain ⟨o, ho, habout⟩ := h
  exact ⟨o, hS o ho, habout⟩

theorem Exchange.Performs.ne {y : Exchange} (hx : x.Performs executionId S₁) (hy : y.Performs executionId S₂)
    (hdisjoint : ∀ o, S₁ o → ¬S₂ o) : x.operationId ≠ y.operationId := by
  obtain ⟨o, ho, -, hid⟩ := hx
  obtain ⟨o', ho', -, hid'⟩ := hy
  intro heq
  rw [hid, hid', operationId_inj] at heq
  obtain rfl := heq
  exact hdisjoint o ho ho'

theorem Traced.nil : Traced executionId S p e d [] := ⟨Fresh.nil, by simp, by simp, by simp⟩

theorem Traced.mono (h : Traced executionId S₁ p₁ e₁ d₁ added) (hS : ∀ o, S₁ o → S o) (hp : p₁ ≤ p) (he : e₁ ≤ e) (hd : d₁ ≤ d) :
    Traced executionId S p e d added :=
  ⟨h.fresh.mono fun _ hx => hx.mono hS, h.plannings.trans hp, h.evaluations.trans he, h.decisions.trans hd⟩

/-- Two parts that share no operation. -/
theorem Traced.append (h₁ : Traced executionId S₁ p₁ e₁ d₁ added₁) (h₂ : Traced executionId S₂ p₂ e₂ d₂ added₂)
    (hdisjoint : ∀ o, S₁ o → ¬S₂ o) (hleft : ∀ o, S₁ o → S o) (hright : ∀ o, S₂ o → S o)
    (hp : p₁ + p₂ ≤ p) (he : e₁ + e₂ ≤ e) (hd : d₁ + d₂ ≤ d) : Traced executionId S p e d (added₁ ++ added₂) := by
  refine ⟨h₁.fresh.append h₂.fresh (fun x y hx hy => hx.ne hy hdisjoint) (fun x hx => hx.mono hleft)
    (fun x hx => hx.mono hright), ?_, ?_, ?_⟩
  · have hfirst := h₁.plannings
    have hsecond := h₂.plannings
    rw [List.countP_append]
    omega
  · have hfirst := h₁.evaluations
    have hsecond := h₂.evaluations
    rw [List.countP_append]
    omega
  · have hfirst := h₁.decisions
    have hsecond := h₂.decisions
    rw [List.countP_append]
    omega

/-- One exchange. -/
theorem Traced.singleton (hx : x.Performs executionId S) (hgood : x.Distinct) (hp : [x].countP Exchange.isPlanning ≤ p)
    (he : [x].countP Exchange.isEvaluation ≤ e) (hd : [x].countP Exchange.isDecision ≤ d) :
    Traced executionId S p e d [x] := ⟨Fresh.singleton hx hgood, hp, he, hd⟩

end traced

/-! ### The decision of the model -/

theorem mainResponse_ok {input : ModelDecisionInput} {response : ResponseAction}
    (h : mainResponse input response = .ok result) : result.toolCalls = [] := by
  unfold mainResponse at h
  split at h
  · obtain rfl := Except.ok.inj h
    rfl
  · dsimp only at h
    split at h
    · cases h
    · obtain rfl := Except.ok.inj h
      rfl

theorem mainResponse_error {input : ModelDecisionInput} {response : ResponseAction} {error : ApplicationError}
    (h : mainResponse input response = .error error) : input.finalOnly = true := by
  unfold mainResponse at h
  split at h
  · cases h
  · dsimp only at h
    split at h
    · assumption
    · cases h

/-- Only a forced decision is refused. -/
theorem modelDecision_error {input : ModelDecisionInput} {answer : ModelAnswer} {error : ApplicationError}
    (h : modelDecision input answer = .error error) : input.finalOnly = true := by
  unfold modelDecision at h
  dsimp only at h
  split at h
  · split at h
    · assumption
    · cases h
  · split at h
    · exact mainResponse_error h
    · cases h

/-- The tool calls of a decision have the ids that the provider gave them; a Main chat Run has at most one. -/
theorem modelDecision_calls {input : ModelDecisionInput} {answer : ModelAnswer}
    (h : modelDecision input answer = .ok result) :
    if answer.toolFirst then result.toolCalls.length ≤ 1
    else result.toolCalls.map (·.toolCallId) = answer.actionRequests.map (·.id) := by
  have hids : (compactCalls ("agent-decision:" ++ input.operationId) answer.actionRequests).map (·.toolCallId) =
      answer.actionRequests.map (·.id) := by
    rw [compactCalls, List.map_map]
    rfl
  unfold modelDecision at h
  dsimp only at h
  cases htool : answer.toolFirst with
  | true =>
      rw [if_pos rfl]
      split at h
      · split at h
        · cases h
        · obtain rfl := Except.ok.inj h
          exact Nat.zero_le 1
      · next hvalid =>
          split at h
          · rw [mainResponse_ok h]
            exact Nat.zero_le 1
          · obtain rfl := Except.ok.inj h
            dsimp only
            -- anything but one call is invalid
            unfold invalidAction at hvalid
            split at hvalid
            · next hone =>
                rw [hone]
                exact Nat.le_refl 1
            · exact absurd htool hvalid
  | false =>
      rw [if_neg (by decide)]
      have hvalid : invalidAction input answer (compactCalls ("agent-decision:" ++ input.operationId) answer.actionRequests) = false := by
        unfold invalidAction
        split
        · rw [htool, Bool.false_and]
        · exact htool
      rw [hvalid, htool] at h
      simp only [Bool.false_eq_true, if_false, Bool.false_and] at h
      obtain rfl := Except.ok.inj h
      exact hids

/-- A final decision has no tool calls. -/
theorem modelDecision_final {input : ModelDecisionInput} {answer : ModelAnswer}
    (h : modelDecision input answer = .ok result) (hfinal : result.decisionType = .final) : result.toolCalls = [] := by
  unfold modelDecision at h
  dsimp only at h
  split at h
  · split at h
    · cases h
    · obtain rfl := Except.ok.inj h
      rfl
  · split at h
    · exact mainResponse_ok h
    · obtain rfl := Except.ok.inj h
      dsimp only at hfinal ⊢
      split at hfinal
      · next hempty =>
          rw [Bool.and_eq_true] at hempty
          exact List.isEmpty_iff.mp hempty.1
      · cases hfinal

/-! ### One exchange -/

section activities

variable {env : Environment}

theorem execute_adds {ρ : Type} (answer : List Exchange → Except ActivityError ρ) (entry : Except ActivityError ρ → Exchange) :
    (execute answer entry).Adds fun added r => ∃ a, added = [entry a] ∧ r = a.mapError .activity :=
  fun past => ⟨answer past, rfl, rfl⟩

/-- The one exchange of a decision, and what became of the answer. -/
def Decides (input : ModelDecisionInput) (added : List Exchange) (r : Except Failure ModelDecisionResult) : Prop :=
  ∃ a, added = [.modelDecision input a] ∧
    match r with
    | .ok result => ∃ answer, a = .ok answer ∧ modelDecision input answer = .ok result
    | .error _ => (Exchange.modelDecision input a).Distinct

theorem modelDecisionActivity_adds (input : ModelDecisionInput) : (modelDecisionActivity env input).Adds (Decides input) := by
  refine (execute_adds _ _).bind ?_ ?_
  · rintro added e ⟨a, rfl, ha⟩
    cases a with
    | error error => exact ⟨_, rfl, trivial⟩
    | ok answer => cases ha
  · rintro added answer ⟨a, rfl, ha⟩
    cases a with
    | error error => cases ha
    | ok answer' =>
        obtain rfl := Except.ok.inj ha
        refine Adds.ofExcept ?_
        cases hdecision : modelDecision input answer with
        | ok result => exact ⟨_, rfl, answer, rfl, hdecision⟩
        | error error =>
            refine ⟨_, rfl, ?_⟩
            show input.finalOnly = false → _
            intro hfinal
            rw [modelDecision_error hdecision] at hfinal
            cases hfinal

/-- A decision that must be final. -/
theorem Decides.traced {executionId : String} {S : Operation → Prop} {input : ModelDecisionInput} {added : List Exchange}
    {r : Except Failure ModelDecisionResult} (h : Decides input added r) (ho : S o)
    (habout : ∀ a, (Exchange.modelDecision input a).About o) (hid : input.operationId = operationIdOf executionId o)
    (hfinal : input.finalOnly = true) : Traced executionId S 0 0 1 added := by
  obtain ⟨a, rfl, -⟩ := h
  refine Traced.singleton ⟨o, ho, habout a, hid⟩ ?_ (by simp [Exchange.isPlanning]) (by simp [Exchange.isEvaluation])
    (by simp [Exchange.isDecision])
  cases a with
  | error error => trivial
  | ok answer =>
      intro hopen
      rw [hfinal] at hopen
      cases hopen

theorem planningActivity_adds (input : PlanningInput) : (planningActivity env input).Adds fun added r =>
    (∃ a, added = [.planning input a]) ∧ ∀ plan, r = .ok plan → ∃ raw, Planned raw ∧ plan.steps = planSteps raw := by
  refine (execute_adds _ _).bind ?_ ?_
  · rintro added e ⟨a, rfl, -⟩
    exact ⟨⟨a, rfl⟩, fun plan h => by cases h⟩
  · rintro added answer ⟨a, rfl, -⟩
    refine Adds.ofExcept ⟨⟨a, rfl⟩, fun plan hplan => ?_⟩
    unfold planning at hplan
    cases hloads : env.host.loads (unfence answer.content.toList) with
    | error e =>
        cases e with
        | recursion =>
            rw [parsePlan_recursion hloads] at hplan
            cases hplan
        | value =>
            rw [parsePlan_value hloads] at hplan
            obtain rfl := Except.ok.inj hplan
            exact ⟨_, fallbackPlan_planned _, rfl⟩
    | ok value =>
        have hrecursion : env.host.loads (unfence answer.content.toList) ≠ .error .recursion := by rw [hloads]; nofun
        obtain ⟨steps, hsteps, hplanned⟩ := @parsePlan_planned env.host _ answer.lastUserContent.toList hrecursion
        rw [hsteps] at hplan
        obtain rfl := Except.ok.inj hplan
        exact ⟨steps, hplanned, rfl⟩

theorem evaluatePlanActivity_adds (input : PlanEvaluationInput) :
    (evaluatePlanActivity env input).Adds fun added _ => ∃ a, added = [.evaluatePlan input a] := by
  refine (execute_adds _ _).bind ?_ ?_
  · rintro added e ⟨a, rfl, -⟩
    exact ⟨a, rfl⟩
  · rintro added content ⟨a, rfl, -⟩
    exact Adds.ofExcept ⟨a, rfl⟩

end activities

/-! ### The tool loop -/

/-- The requests of a tool loop are for the operations of its site. -/
structure Inputs (executionId : String) (site : Site) (model : ℕ → ℕ → ModelDecisionInput)
    (tool : ℕ → ℕ → CompactToolCall → ToolExecutionInput) : Prop where
  model_id : ∀ turn version, (model turn version).operationId = operationIdOf executionId (.decision site turn)
  model_turn : ∀ turn version, (model turn version).turn = turn ∧ (model turn version).finalOnly = false
  tool_id : ∀ turn version call, (tool turn version call).operationId =
    operationIdOf executionId (.tool site turn call.toolCallId)
  tool_turn : ∀ turn version call, (tool turn version call).turn = turn ∧ (tool turn version call).toolCall = call

/-- The operations of these turns. -/
def Operation.InTurns (site : Site) (low high : ℕ) : Operation → Prop
  | .decision s turn => s = site ∧ low ≤ turn ∧ turn < high
  | .tool s turn _ => s = site ∧ low ≤ turn ∧ turn < high
  | _ => False

theorem Operation.InTurns.mono {site : Site} {low low' high high' : ℕ} (h : o.InTurns site low high)
    (hlow : low' ≤ low) (hhigh : high ≤ high') : o.InTurns site low' high' := by
  cases o <;> simp only [Operation.InTurns] at h ⊢
  · exact ⟨h.1, by omega, by omega⟩
  · exact ⟨h.1, by omega, by omega⟩

theorem Operation.InTurns.later {site : Site} {low middle high : ℕ} (h : o.InTurns site low middle) :
    ¬o.InTurns site middle high := by
  intro hlater
  cases o <;> simp only [Operation.InTurns] at h hlater
  · omega
  · omega

/-- The tools that were executed: of the tool calls in their order, and all of them if none failed. -/
structure Called (executionId : String) (site : Site) (turn : ℕ) (calls : List CompactToolCall) (added : List Exchange) :
    Prop where
  tools : ∀ x ∈ added, ∃ input a, x = .toolExecution input a ∧
    x.Performs executionId fun o => ∃ toolCallId, o = .tool site turn toolCallId
  ids : added.map Exchange.operationId <+: calls.map fun call => operationIdOf executionId (.tool site turn call.toolCallId)
  all : (∀ x ∈ added, x.Answered) →
    added.map Exchange.operationId = calls.map fun call => operationIdOf executionId (.tool site turn call.toolCallId)

section toolLoop

variable {env : Environment} {executionId : String} {site : Site} {model : ℕ → ℕ → ModelDecisionInput}
  {tool : ℕ → ℕ → CompactToolCall → ToolExecutionInput} {turn : ℕ}

theorem executeCalls_adds (h : Inputs executionId site model tool) (calls : List CompactToolCall) (version : ℕ) :
    (executeCalls env (tool turn) calls version).Adds fun added _ => Called executionId site turn calls added := by
  induction calls generalizing version with
  | nil => exact Adds.pure ⟨by simp, List.nil_prefix, fun _ => rfl⟩
  | cons call calls ih =>
      have hperforms : ∀ a, (Exchange.toolExecution (tool turn version call) a).Performs executionId
          fun o => ∃ toolCallId, o = .tool site turn toolCallId := by
        intro a
        have hturn := h.tool_turn turn version call
        refine ⟨.tool site turn call.toolCallId, ⟨_, rfl⟩, ⟨hturn.1, ?_⟩, h.tool_id turn version call⟩
        rw [hturn.2]
      refine (execute_adds _ _).bind ?_ ?_
      · rintro added e ⟨a, rfl, ha⟩
        refine ⟨?_, ?_, ?_⟩
        · intro x hx
          obtain rfl := List.mem_singleton.mp hx
          exact ⟨_, _, rfl, hperforms a⟩
        · refine ⟨calls.map fun call => operationIdOf executionId (.tool site turn call.toolCallId), ?_⟩
          show [(tool turn version call).operationId] ++ _ = operationIdOf executionId (.tool site turn call.toolCallId) :: _
          rw [h.tool_id turn version call]
          rfl
        · intro hanswered
          cases a with
          | ok result => cases ha
          | error error => exact absurd (hanswered _ List.mem_cons_self) id
      · rintro added result ⟨a, rfl, ha⟩
        refine (ih result.transcriptVersion).mono fun added r hrest => ⟨?_, ?_, ?_⟩
        · intro x hx
          obtain rfl | hx := List.mem_cons.mp hx
          · exact ⟨_, _, rfl, hperforms a⟩
          · exact hrest.tools x hx
        · rw [List.singleton_append, List.map_cons, List.map_cons, ← h.tool_id turn version call]
          exact List.cons_prefix_cons.mpr ⟨rfl, hrest.ids⟩
        · intro hanswered
          rw [List.singleton_append, List.map_cons, List.map_cons, ← h.tool_id turn version call,
            hrest.all fun x hx => hanswered x (List.mem_cons_of_mem _ hx)]
          rfl

/-- The ids of the tool calls that a decision executes are distinct exactly when it is. -/
theorem distinct_iff {input : ModelDecisionInput} {answer : ModelAnswer}
    (hopen : input.finalOnly = false) (h : modelDecision input answer = .ok result) :
    (Exchange.modelDecision input (.ok answer)).Distinct ↔ (result.toolCalls.map (·.toolCallId)).Nodup := by
  have hcalls := modelDecision_calls h
  cases htool : answer.toolFirst with
  | true =>
      rw [htool, if_pos rfl] at hcalls
      have hfew : (result.toolCalls.map (·.toolCallId)).Nodup := by
        match hlist : result.toolCalls, hcalls with
        | [], _ => exact List.nodup_nil
        | [call], _ => exact List.nodup_singleton _
        | _ :: _ :: _, hlength => exact absurd hlength (by simp)
      refine ⟨fun _ => hfew, fun _ => ?_⟩
      intro _ hfalse
      rw [htool] at hfalse
      cases hfalse
  | false =>
      rw [htool, if_neg (by decide)] at hcalls
      rw [hcalls]
      exact ⟨fun hdistinct => hdistinct hopen htool, fun hnodup _ _ => hnodup⟩

/-- One turn: the decision and its tools. -/
theorem turn_traced (h : Inputs executionId site model tool) {version : ℕ} {answer : ModelAnswer}
    {added : List Exchange} (hdecision : modelDecision (model turn version) answer = .ok result)
    (hcalled : Called executionId site turn result.toolCalls added) :
    Traced executionId (Operation.InTurns site turn (turn + 1)) 0 0 1
      ([.modelDecision (model turn version) (.ok answer)] ++ added) := by
  obtain ⟨hturn, hopen⟩ := h.model_turn turn version
  have hdistinct := distinct_iff hopen hdecision
  have hids : ∀ calls : List CompactToolCall, calls.map (fun call => operationIdOf executionId (.tool site turn call.toolCallId)) =
      (calls.map (·.toolCallId)).map fun toolCallId => operationIdOf executionId (.tool site turn toolCallId) := by
    intro calls
    rw [List.map_map]
    rfl
  have hinj : Function.Injective fun toolCallId => operationIdOf executionId (.tool site turn toolCallId) := by
    intro i j hij
    exact (Operation.tool.inj (operationId_inj.mp hij)).2.2
  have hnone : ∀ f : Exchange → Bool, (∀ input a, f (.toolExecution input a) = false) → added.countP f = 0 := by
    intro f hf
    rw [List.countP_eq_zero]
    intro x hx
    obtain ⟨input, a, rfl, -⟩ := hcalled.tools x hx
    rw [hf]
    exact Bool.false_ne_true
  refine ⟨⟨?_, ?_, ?_⟩, ?_, ?_, ?_⟩
  · intro x hx
    obtain rfl | hx := List.mem_cons.mp hx
    · exact ⟨.decision site turn, ⟨rfl, Nat.le_refl _, Nat.lt_succ_self _⟩, ⟨hturn, hopen⟩, h.model_id turn version⟩
    · obtain ⟨-, -, -, hperforms⟩ := hcalled.tools x hx
      refine hperforms.mono ?_
      rintro o ⟨toolCallId, rfl⟩
      exact ⟨rfl, Nat.le_refl _, Nat.lt_succ_self _⟩
  · intro hgood
    have hnodup := hdistinct.mp (hgood _ List.mem_cons_self)
    have hall : (result.toolCalls.map fun call => operationIdOf executionId (.tool site turn call.toolCallId)).Nodup := by
      rw [hids]
      exact hnodup.map hinj
    rw [List.singleton_append, List.map_cons]
    refine List.nodup_cons.mpr ⟨?_, hcalled.ids.sublist.nodup hall⟩
    intro hmem
    obtain ⟨x, hx, hid⟩ := List.mem_map.mp hmem
    obtain ⟨-, -, -, o, ⟨toolCallId, rfl⟩, -, hperforms⟩ := hcalled.tools x hx
    rw [hperforms] at hid
    have hsame := operationId_inj.mp (hid.trans (h.model_id turn version))
    cases hsame
  · intro hanswered hnodup x hx
    rw [List.singleton_append, List.map_cons, List.nodup_cons,
      hcalled.all fun x hx => hanswered x (List.mem_cons_of_mem _ hx), hids] at hnodup
    obtain rfl | hx := List.mem_cons.mp hx
    · exact hdistinct.mpr (List.Nodup.of_map _ hnodup.2)
    · obtain ⟨input, a, rfl, -⟩ := hcalled.tools x hx
      trivial
  · rw [List.countP_append, hnone _ fun _ _ => rfl]
    simp [Exchange.isPlanning]
  · rw [List.countP_append, hnone _ fun _ _ => rfl]
    simp [Exchange.isEvaluation]
  · rw [List.countP_append, hnone _ fun _ _ => rfl]
    simp [Exchange.isDecision]

/-- **A tool loop takes no turn beyond its bound.** -/
theorem toolLoop_adds (h : Inputs executionId site model tool) (left turn version toolTurns : ℕ) :
    (toolLoop env model tool left turn version toolTurns).Adds fun added _ =>
      Traced executionId (Operation.InTurns site turn (turn + left)) 0 0 left added := by
  induction left generalizing turn version toolTurns with
  | zero => exact Adds.pure Traced.nil
  | succ left ih =>
      have hfirst : ∀ o, Operation.InTurns site turn (turn + 1) o → Operation.InTurns site turn (turn + (left + 1)) o :=
        fun o ho => ho.mono (Nat.le_refl _) (by omega)
      refine (modelDecisionActivity_adds _).bind ?_ ?_
      · rintro added e ⟨a, rfl, hdistinct⟩
        obtain ⟨hturn, hopen⟩ := h.model_turn turn version
        refine Traced.singleton ⟨.decision site turn, ⟨rfl, by omega, by omega⟩, ⟨hturn, hopen⟩, h.model_id turn version⟩ hdistinct
          (by simp [Exchange.isPlanning]) (by simp [Exchange.isEvaluation]) (by simp [Exchange.isDecision])
      · rintro added decision ⟨a, rfl, answer, rfl, hdecision⟩
        cases htype : decision.decisionType with
        | final =>
            refine Adds.pure ?_
            have hnone : Called executionId site turn decision.toolCalls [] := by
              rw [modelDecision_final hdecision htype]
              exact ⟨by simp, List.nil_prefix, fun _ => rfl⟩
            exact (turn_traced h hdecision hnone).mono hfirst (Nat.le_refl _) (Nat.le_refl _) (by omega)
        | toolCalls =>
            refine (executeCalls_adds h decision.toolCalls decision.transcriptVersion).bind ?_ ?_
            · intro tools e hcalled
              exact (turn_traced h hdecision hcalled).mono hfirst (Nat.le_refl _) (Nat.le_refl _) (by omega)
            · intro tools version' hcalled
              refine (ih (turn + 1) version' (toolTurns + 1)).mono fun rest r hrest => ?_
              rw [← List.append_assoc]
              exact (turn_traced h hdecision hcalled).append hrest (fun o ho => ho.later) hfirst
                (fun o ho => ho.mono (by omega) (by omega)) (by omega) (by omega) (by omega)

end toolLoop

/-! ### ReAct -/

/-- The operations of ReAct. -/
def Operation.OfReact (maxTurns : ℕ) : Operation → Prop
  | .context react => react = true
  | .decision site turn => site = .react ∧ 1 ≤ turn ∧ turn ≤ maxTurns
  | .tool site turn _ => site = .react ∧ 1 ≤ turn ∧ turn ≤ maxTurns
  | .reactFinal turn => turn = maxTurns + 1
  | _ => False

section workflows

variable {env : Environment} {request : AgentRunInput}

theorem validate_adds (request : AgentRunInput) : (validate request).Adds fun added _ => added = [] := by
  unfold validate
  split_ifs
  · exact Adds.raise rfl
  · exact Adds.raise rfl
  · exact Adds.raise rfl
  · exact Adds.pure rfl

theorem bootstrap_adds {react : Bool} (h : request.strategy = if react then strategyReact else strategyPlan) :
    (bootstrap env request).Adds fun added _ =>
      Traced request.executionId (fun o => o = .context react) 0 0 0 added := by
  refine (execute_adds _ _).mono ?_
  rintro added r ⟨a, rfl, -⟩
  exact Traced.singleton ⟨_, rfl, trivial, bootstrap_id h⟩ trivial (by simp [Exchange.isPlanning])
    (by simp [Exchange.isEvaluation]) (by simp [Exchange.isDecision])

theorem react_inputs (request : AgentRunInput) (context : ContextBootstrapResult) :
    Inputs request.executionId .react (reactModelInput request context) (reactToolInput request context) :=
  ⟨fun _ _ => reactModelInput_id, fun _ _ => ⟨rfl, rfl⟩, fun _ _ _ => reactToolInput_id, fun _ _ _ => ⟨rfl, rfl⟩⟩

/-- **ReAct takes no turn beyond its bound, and one forced decision.** -/
theorem reactAgent_adds (hstrategy : request.strategy = strategyReact) : (reactAgent env request).Adds fun added _ =>
    Traced request.executionId (Operation.OfReact request.maxTurns.toNat) 0 0 (request.maxTurns.toNat + 1) added := by
  have hcontext : ∀ o : Operation, o = .context true → o.OfReact request.maxTurns.toNat := by
    rintro o rfl
    rfl
  have hturns : ∀ o : Operation, o.InTurns .react 1 (1 + request.maxTurns.toNat) → o.OfReact request.maxTurns.toNat := by
    intro o ho
    cases o <;> simp only [Operation.InTurns, Operation.OfReact] at ho ⊢
    · exact ⟨ho.1, by omega, by omega⟩
    · exact ⟨ho.1, by omega, by omega⟩
  have hapart : ∀ o : Operation, o = .context true → ¬o.InTurns .react 1 (1 + request.maxTurns.toNat) := by
    rintro o rfl
    exact id
  refine (validate_adds request).bind ?_ ?_
  · rintro added e rfl
    exact Traced.nil
  · rintro added u rfl
    refine (@bootstrap_adds env request true hstrategy).bind ?_ ?_
    · intro added e h
      exact h.mono hcontext (Nat.le_refl _) (Nat.le_refl _) (by omega)
    · intro start context hstart
      refine (toolLoop_adds (react_inputs request context) _ _ _ _).bind ?_ ?_
      · intro turns e h
        exact hstart.append h hapart hcontext hturns (by omega) (by omega) (by omega)
      · intro turns decided h
        cases decided.decisionRef with
        | some decisionRef =>
            refine Adds.pure ?_
            rw [List.append_nil]
            exact hstart.append h hapart hcontext hturns (by omega) (by omega) (by omega)
        | none =>
            have hforced : ∀ {added r}, Decides (reactFinalInput request context decided.transcriptVersion) added r →
                Traced request.executionId (fun o => o = .reactFinal (request.maxTurns.toNat + 1)) 0 0 1 added :=
              fun hd => hd.traced rfl (fun a => ⟨rfl, rfl⟩) reactFinalInput_id rfl
            have hjoin : ∀ {added}, Traced request.executionId (fun o => o = .reactFinal (request.maxTurns.toNat + 1)) 0 0 1 added →
                Traced request.executionId (Operation.OfReact request.maxTurns.toNat) 0 0 (request.maxTurns.toNat + 1)
                  (start ++ (turns ++ added)) := by
              intro added hadded
              have hrest : Traced request.executionId (fun o => o.InTurns .react 1 (1 + request.maxTurns.toNat) ∨
                  o = .reactFinal (request.maxTurns.toNat + 1)) 0 0 (request.maxTurns.toNat + 1) (turns ++ added) := by
                refine h.append hadded ?_ (fun o ho => .inl ho) (fun o ho => .inr ho) (by omega) (by omega) (by omega)
                rintro o ho rfl
                exact ho
              refine hstart.append hrest ?_ hcontext ?_ (by omega) (by omega) (by omega)
              · rintro o rfl (ho | ho)
                · exact ho
                · cases ho
              · rintro o (ho | rfl)
                · exact hturns o ho
                · rfl
            refine (modelDecisionActivity_adds _).bind ?_ ?_
            · exact fun added e hd => hjoin (hforced hd)
            · intro added final hd
              refine Adds.pure ?_
              rw [List.append_nil]
              exact hjoin (hforced hd)

/-! ### One step of a plan -/

theorem step_inputs {step : AgentStepInput} {i : ℕ} (h : step.step.stepId = "step-" ++ toString i) :
    Inputs step.agent.executionId (.step step.planVersion i) (stepModelInput step) (stepToolInput step) :=
  ⟨fun _ _ => stepModelInput_id h, fun _ _ => ⟨rfl, rfl⟩, fun _ _ _ => stepToolInput_id h, fun _ _ _ => ⟨rfl, rfl⟩⟩

/-- A step takes at most eight turns, and one forced decision. -/
theorem agentStep_adds {step : AgentStepInput} {i : ℕ} (h : step.step.stepId = "step-" ++ toString i) (hturns : step.maxTurns = 8) :
    (agentStep env step).Adds fun added _ => Traced step.agent.executionId
      (fun o => o.InTurns (.step step.planVersion i) 1 9 ∨ o = .stepFinal step.planVersion i) 0 0 9 added := by
  have height : step.maxTurns.toNat = 8 := by
    rw [hturns]
    rfl
  refine (validate_adds step.agent).bind ?_ ?_
  · rintro added e rfl
    exact Traced.nil
  · rintro added u rfl
    rw [height]
    refine (toolLoop_adds (step_inputs h) _ _ _ _).bind ?_ ?_
    · intro turns e hloop
      exact hloop.mono (fun o ho => .inl ho) (Nat.le_refl _) (Nat.le_refl _) (by omega)
    · intro turns decided hloop
      cases decided.decisionRef with
      | some decisionRef =>
          refine Adds.pure ?_
          rw [List.append_nil]
          exact hloop.mono (fun o ho => .inl ho) (Nat.le_refl _) (Nat.le_refl _) (by omega)
      | none =>
          have hforced : ∀ {added r}, Decides (stepFinalInput step decided.transcriptVersion) added r →
              Traced step.agent.executionId (fun o => o.InTurns (.step step.planVersion i) 1 9 ∨ o = .stepFinal step.planVersion i)
                0 0 9 (turns ++ added) := by
            intro added r hd
            have hone : Traced step.agent.executionId (fun o => o = .stepFinal step.planVersion i) 0 0 1 added :=
              hd.traced rfl (fun a => rfl) (stepFinalInput_id h) rfl
            refine hloop.append hone ?_ (fun o ho => .inl ho) (fun o ho => .inr ho) (by omega) (by omega) (by omega)
            rintro o ho rfl
            exact ho
          refine (modelDecisionActivity_adds _).bind ?_ ?_
          · exact fun added e hd => hforced hd
          · intro added final hd
            refine Adds.pure ?_
            rw [List.append_nil]
            exact hforced hd

/-! ### The steps of a plan -/

/-- The steps have the ids of their places. -/
def Numbered : ℕ → List PlanStep → Prop
  | _, [] => True
  | i, step :: steps => step.stepId = "step-" ++ toString i ∧ Numbered (i + 1) steps

/-- One to eight steps under the ids of their places. -/
theorem planSteps_numbered {raw : List (List Char × List Char)} (h : Planned raw) :
    Numbered 1 (planSteps raw) ∧ (planSteps raw).length ≤ 8 := by
  have hnumbered : ∀ k, Numbered (k + 1) ((raw.zipIdx k).map fun item =>
      (⟨"step-" ++ toString (item.2 + 1), item.2 + 1, String.ofList item.1.1, String.ofList item.1.2⟩ : PlanStep)) := by
    induction raw with
    | nil => exact fun k => trivial
    | cons item raw ih =>
        intro k
        cases raw with
        | nil => exact ⟨rfl, trivial⟩
        | cons next raw => exact ⟨rfl, ih ⟨by simp, (Nat.le_succ _).trans h.2⟩ (k + 1)⟩
  refine ⟨hnumbered 0, ?_⟩
  have hlength : (planSteps raw).length = raw.length := by simp [planSteps]
  rw [hlength]
  exact h.2

/-- The operations of this step, with its evaluation. -/
def Operation.At (version index : ℕ) : Operation → Prop
  | .decision site turn => site = .step version index ∧ 1 ≤ turn ∧ turn ≤ 8
  | .tool site turn _ => site = .step version index ∧ 1 ≤ turn ∧ turn ≤ 8
  | .stepFinal w i => w = version ∧ i = index
  | .evaluation w i => w = version ∧ i = index
  | _ => False

/-- The operations of the steps from this index on, and of the next plan if there may be one. -/
def Operation.InSteps (version replanCount low : ℕ) (o : Operation) : Prop :=
  (∃ i, low ≤ i ∧ i ≤ 8 ∧ o.At version i) ∨ (o = .planner (version + 1) ∧ replanCount < 3)

/-- How the steps of a plan end: with the response, with the next plan, or with what they made of this one. -/
def Passed.From (progress : Progress) : Passed → Prop
  | .returned _ => True
  | .replanned next => progress.replanCount < 3 ∧ next.planVersion = progress.planVersion + 1 ∧
      next.replanCount = progress.replanCount + 1 ∧ Numbered 1 next.steps ∧ next.steps.length ≤ 8
  | .finished done => done.planVersion = progress.planVersion ∧ done.steps = progress.steps

theorem Operation.At.inj {version index index' : ℕ} (h : o.At version index) (h' : o.At version index') :
    index = index' := by
  cases o <;> simp only [Operation.At] at h h'
  · exact (Site.step.inj (h.1.symm.trans h'.1)).2
  · exact (Site.step.inj (h.1.symm.trans h'.1)).2
  · exact h.2.symm.trans h'.2
  · exact h.2.symm.trans h'.2

theorem replan_adds {context : ContextBootstrapResult} {progress : Progress} {step : PlanStep} {reason : String} :
    (replan env request context progress step reason).Adds fun added r =>
      Traced request.executionId (fun o => o = .planner (progress.planVersion + 1) ∧ progress.replanCount < 3)
        (min 1 (3 - progress.replanCount)) 0 0 added ∧ ∀ passed, r = .ok passed → passed.From progress := by
  unfold replan
  split
  · exact Adds.raise ⟨Traced.nil, by simp⟩
  · next hcount =>
      have hasked : ∀ a, Traced request.executionId (fun o => o = .planner (progress.planVersion + 1) ∧ progress.replanCount < 3)
          (min 1 (3 - progress.replanCount)) 0 0 [.planning (replanningInput request context progress step reason) a] := by
        intro a
        refine Traced.singleton ⟨_, ⟨rfl, by omega⟩, rfl, replanningInput_id⟩ trivial ?_ (by simp [Exchange.isEvaluation])
          (by simp [Exchange.isDecision])
        simp only [Exchange.isPlanning, List.countP_cons, List.countP_nil, if_true]
        omega
      refine (planningActivity_adds _).bind ?_ ?_
      · rintro added e ⟨⟨a, rfl⟩, -⟩
        exact ⟨hasked a, fun passed h => by cases h⟩
      · rintro added plan ⟨⟨a, rfl⟩, hplan⟩
        obtain ⟨raw, hplanned, hsteps⟩ := hplan plan rfl
        refine Adds.pure ⟨hasked a, fun passed hpassed => ?_⟩
        obtain rfl := Except.ok.inj hpassed
        obtain ⟨hnumbered, hlength⟩ := planSteps_numbered hplanned
        refine ⟨by omega, rfl, rfl, ?_, ?_⟩
        · rw [hsteps]
          exact hnumbered
        · rw [hsteps]
          exact hlength

/-- **A plan asks for at most nine decisions and one evaluation for each of its steps, and then for at most one plan.** -/
theorem executeSteps_adds {context : ContextBootstrapResult} (steps : List PlanStep) (index : ℕ) (progress : Progress)
    (hnumbered : Numbered index steps) (hindex : 1 ≤ index) (hlength : index + steps.length ≤ 9) :
    (executeSteps env request context steps index progress).Adds fun added r =>
      Traced request.executionId (Operation.InSteps progress.planVersion progress.replanCount index) (min 1 (3 - progress.replanCount))
        steps.length (9 * steps.length) added ∧ ∀ passed, r = .ok passed → passed.From progress := by
  induction steps generalizing index progress with
  | nil => exact Adds.pure ⟨Traced.nil, fun passed h => by obtain rfl := Except.ok.inj h; exact ⟨rfl, rfl⟩⟩
  | cons step steps ih =>
      rw [List.length_cons] at hlength
      have hstep : ∀ o : Operation, (o.InTurns (.step progress.planVersion index) 1 9 ∨ o = .stepFinal progress.planVersion index) →
          o.InSteps progress.planVersion progress.replanCount index := by
        rintro o (ho | rfl)
        · refine .inl ⟨index, Nat.le_refl _, by omega, ?_⟩
          cases o <;> simp only [Operation.InTurns, Operation.At] at ho ⊢
          · exact ⟨ho.1, by omega, by omega⟩
          · exact ⟨ho.1, by omega, by omega⟩
        · exact .inl ⟨index, Nat.le_refl _, by omega, rfl, rfl⟩
      refine (@agentStep_adds env (agentStepInput request context progress step) index hnumbered.1 rfl).bind ?_ ?_
      · intro added e h
        refine ⟨h.mono hstep (by omega) (by omega) (by rw [List.length_cons]; omega), fun passed h => by cases h⟩
      · intro first result hfirst
        split
        · refine Adds.pure ?_
          rw [List.append_nil]
          refine ⟨hfirst.mono hstep (by omega) (by omega) (by rw [List.length_cons]; omega), fun passed h => ?_⟩
          obtain rfl := Except.ok.inj h
          trivial
        · have hevaluated : ∀ a, Traced request.executionId (fun o => o.At progress.planVersion index) 0 1 9
              (first ++ [.evaluatePlan (evaluationInput request context (progress.completed result) step index) a]) := by
            intro a
            have hone : Traced request.executionId (fun o => o = .evaluation progress.planVersion index) 0 1 0
                [.evaluatePlan (evaluationInput request context (progress.completed result) step index) a] :=
              Traced.singleton ⟨_, rfl, ⟨rfl, rfl⟩, evaluationInput_id hnumbered.1⟩ trivial (by simp [Exchange.isPlanning])
                (by simp [Exchange.isEvaluation]) (by simp [Exchange.isDecision])
            refine hfirst.append hone ?_ ?_ ?_ (by omega) (by omega) (by omega)
            · rintro o (ho | rfl) hevaluation
              · obtain rfl := hevaluation
                exact ho
              · cases hevaluation
            · rintro o (ho | rfl)
              · cases o <;> simp only [Operation.InTurns, Operation.At] at ho ⊢
                · exact ⟨ho.1, by omega, by omega⟩
                · exact ⟨ho.1, by omega, by omega⟩
              · exact ⟨rfl, rfl⟩
            · rintro o rfl
              exact ⟨rfl, rfl⟩
          have hhere : ∀ o : Operation, o.At progress.planVersion index →
              o.InSteps progress.planVersion progress.replanCount index :=
            fun o ho => .inl ⟨index, Nat.le_refl _, by omega, ho⟩
          have hdone : ∀ a, Traced request.executionId (Operation.InSteps progress.planVersion progress.replanCount index)
              (min 1 (3 - progress.replanCount)) (step :: steps).length (9 * (step :: steps).length)
              (first ++ [.evaluatePlan (evaluationInput request context (progress.completed result) step index) a]) := by
            intro a
            exact (hevaluated a).mono hhere (by omega) (by rw [List.length_cons]; omega) (by rw [List.length_cons]; omega)
          refine (evaluatePlanActivity_adds _).bind ?_ ?_
          · rintro added e ⟨a, rfl⟩
            exact ⟨hdone a, fun passed h => by cases h⟩
          · rintro added evaluation ⟨a, rfl⟩
            split
            · refine Adds.raise ?_
              rw [List.append_nil]
              exact ⟨hdone a, fun passed h => by cases h⟩
            · split
              · refine replan_adds.mono fun added r hreplan => ⟨?_, hreplan.2⟩
                rw [← List.append_assoc]
                refine (hevaluated a).append hreplan.1 ?_ hhere (fun o ho => .inr ho) ?_ (by rw [List.length_cons]; omega)
                  (by rw [List.length_cons]; omega)
                · rintro o ho ⟨rfl, -⟩
                  exact ho
                · show 0 + (min 1 (3 - progress.replanCount)) ≤ _
                  omega
              · split
                · refine Adds.pure ?_
                  rw [List.append_nil]
                  refine ⟨hdone a, fun passed h => ?_⟩
                  obtain rfl := Except.ok.inj h
                  exact ⟨rfl, rfl⟩
                · refine (ih (index + 1) (progress.completed result) hnumbered.2 (by omega) (by omega)).mono fun rest r hrest => ?_
                  refine ⟨?_, hrest.2⟩
                  rw [← List.append_assoc]
                  refine (hevaluated a).append hrest.1 ?_ hhere ?_ ?_ (by rw [List.length_cons]; omega)
                    (by rw [List.length_cons]; omega)
                  · rintro o ho (⟨i, hi, -, hat⟩ | ⟨rfl, -⟩)
                    · have hsame := ho.inj hat
                      omega
                    · exact ho
                  · rintro o (⟨i, hi, hbound, hat⟩ | hplanner)
                    · exact .inl ⟨i, by omega, hbound, hat⟩
                    · exact .inr hplanner
                  · show 0 + (min 1 (3 - progress.replanCount)) ≤ _
                    omega

/-! ### Plan and execute -/

/-- The operations of this version of the plan and of the later ones. -/
def Operation.From (version : ℕ) : Operation → Prop
  | .decision site turn => ∃ w i, site = .step w i ∧ version ≤ w ∧ w ≤ 4 ∧ 1 ≤ i ∧ i ≤ 8 ∧ 1 ≤ turn ∧ turn ≤ 8
  | .tool site turn _ => ∃ w i, site = .step w i ∧ version ≤ w ∧ w ≤ 4 ∧ 1 ≤ i ∧ i ≤ 8 ∧ 1 ≤ turn ∧ turn ≤ 8
  | .stepFinal w i => version ≤ w ∧ w ≤ 4 ∧ 1 ≤ i ∧ i ≤ 8
  | .evaluation w i => version ≤ w ∧ w ≤ 4 ∧ 1 ≤ i ∧ i ≤ 8
  | .planner w => version < w ∧ w ≤ 4
  | .synthesis w => version ≤ w ∧ w ≤ 4
  | _ => False

/-- The version counts the plans, and the steps have the ids of their places. -/
structure Progress.Sound (progress : Progress) : Prop where
  version : progress.planVersion = progress.replanCount + 1
  count : progress.replanCount ≤ 3
  numbered : Numbered 1 progress.steps
  few : progress.steps.length ≤ 8

/-- What the passes from here on add; they end. -/
def Progress.Leads (executionId : String) (progress : Progress) (added : List Exchange)
    (r : Except Failure (Option AgentResult)) : Prop :=
  Traced executionId (Operation.From progress.planVersion) (3 - progress.replanCount) (8 * (4 - progress.replanCount))
    (72 * (4 - progress.replanCount) + 1) added ∧ r ≠ .ok none

theorem Operation.At.from {version index : ℕ} (h : o.At version index) (hversion : version ≤ 4)
    (hlow : 1 ≤ index) (hhigh : index ≤ 8) : o.From version := by
  cases o <;> simp only [Operation.At, Operation.From] at h ⊢
  · exact ⟨version, index, h.1, Nat.le_refl _, hversion, hlow, hhigh, h.2⟩
  · exact ⟨version, index, h.1, Nat.le_refl _, hversion, hlow, hhigh, h.2⟩
  · omega
  · omega

theorem Operation.InSteps.from {progress : Progress} (hsound : progress.Sound)
    (h : o.InSteps progress.planVersion progress.replanCount 1) : o.From progress.planVersion := by
  have hversion := hsound.version
  obtain ⟨i, hlow, hhigh, hat⟩ | ⟨rfl, hcount⟩ := h
  · exact hat.from (by have := hsound.count; omega) hlow hhigh
  · exact ⟨Nat.lt_succ_self _, by omega⟩

/-- The operations of a version are not those of a later one. -/
theorem Operation.InSteps.later {version replanCount : ℕ} (h : o.InSteps version replanCount 1) :
    ¬o.From (version + 1) := by
  intro hlater
  obtain ⟨i, -, -, hat⟩ | ⟨rfl, -⟩ := h
  · cases o <;> simp only [Operation.At, Operation.From] at hat hlater
    · obtain ⟨w, j, hsite, hw, -⟩ := hlater
      have hsame := (Site.step.inj (hat.1.symm.trans hsite)).1
      omega
    · obtain ⟨w, j, hsite, hw, -⟩ := hlater
      have hsame := (Site.step.inj (hat.1.symm.trans hsite)).1
      omega
    · omega
    · omega
  · exact absurd hlater.1 (Nat.lt_irrefl _)

theorem Operation.From.mono {version version' : ℕ} (h : o.From version) (hle : version' ≤ version) :
    o.From version' := by
  cases o <;> simp only [Operation.From] at h ⊢
  · obtain ⟨w, i, hsite, hw, hrest⟩ := h
    exact ⟨w, i, hsite, hle.trans hw, hrest⟩
  · obtain ⟨w, i, hsite, hw, hrest⟩ := h
    exact ⟨w, i, hsite, hle.trans hw, hrest⟩
  · omega
  · omega
  · omega
  · omega

/-- **A pass ends the loop, or leaves one plan less.** -/
theorem pass_adds {context : ContextBootstrapResult} (progress : Progress) (hsound : progress.Sound) :
    (pass env request context progress).Adds
      (Round Progress.Sound (fun s => 3 - s.replanCount) (fun s => s.Leads request.executionId) progress) := by
  have hcount := hsound.count
  have hfew := hsound.few
  have hleads : ∀ {x : List Exchange} {d : ℕ},
      Traced request.executionId (Operation.InSteps progress.planVersion progress.replanCount 1)
        (min 1 (3 - progress.replanCount)) progress.steps.length d x → d ≤ 72 →
      Traced request.executionId (Operation.From progress.planVersion) (3 - progress.replanCount) (8 * (4 - progress.replanCount))
        (72 * (4 - progress.replanCount) + 1) x := by
    intro x d hx hd
    exact hx.mono (fun o ho => ho.from hsound) (by omega) (by omega) (by omega)
  have hsteps := @executeSteps_adds env request context progress.steps 1 progress
    hsound.numbered (Nat.le_refl _) (by omega)
  refine hsteps.bind ?_ ?_
  · rintro x e ⟨htraced, -⟩
    exact ⟨hleads htraced (by omega), by simp⟩
  · rintro x passed ⟨htraced, hpassed⟩
    have hfrom := hpassed passed rfl
    cases passed with
    | returned result =>
        refine Adds.pure ?_
        rw [List.append_nil]
        exact ⟨hleads htraced (by omega), by simp⟩
    | replanned next =>
        obtain ⟨hless, hversion, hnext, hnumbered, hlength⟩ := hfrom
        have hsame := hsound.version
        have hfalls : 3 - next.replanCount < 3 - progress.replanCount := by omega
        refine Adds.pure ⟨⟨by omega, by omega, hnumbered, hlength⟩, hfalls, ?_⟩
        rintro y r ⟨hy, hr⟩
        rw [hversion, hnext] at hy
        rw [List.append_nil]
        exact ⟨htraced.append hy (fun o ho => ho.later) (fun o ho => ho.from hsound) (fun o ho => ho.mono (Nat.le_succ _))
          (by omega) (by omega) (by omega), hr⟩
    | finished done =>
        obtain ⟨hversion, hdone⟩ := hfrom
        have hforced : ∀ {added r}, Decides (synthesisInput request context done) added r →
            Traced request.executionId (Operation.From progress.planVersion) (3 - progress.replanCount)
              (8 * (4 - progress.replanCount)) (72 * (4 - progress.replanCount) + 1) (x ++ added) := by
          intro added r hd
          have hone : Traced request.executionId (fun o => o = .synthesis progress.planVersion) 0 0 1 added := by
            rw [← hversion]
            exact hd.traced rfl (fun a => rfl) synthesisInput_id rfl
          refine htraced.append hone ?_ (fun o ho => ho.from hsound) ?_ (by omega) (by omega) (by omega)
          · rintro o ho rfl
            obtain ⟨i, -, -, hat⟩ | ⟨hplanner, -⟩ := ho
            · exact hat
            · cases hplanner
          · rintro o rfl
            have hsame := hsound.version
            exact ⟨Nat.le_refl _, by omega⟩
        refine (Adds.bind (R := fun added _ => Traced request.executionId (Operation.From progress.planVersion)
          (3 - progress.replanCount) (8 * (4 - progress.replanCount)) (72 * (4 - progress.replanCount) + 1) (x ++ added)) ?_ ?_ ?_)
        · refine (modelDecisionActivity_adds _).bind ?_ ?_
          · exact fun added e hd => hforced hd
          · intro added final hd
            refine Adds.pure ?_
            rw [List.append_nil]
            exact hforced hd
        · exact fun added e h => ⟨h, by simp⟩
        · intro added result h
          refine Adds.pure ?_
          rw [List.append_nil]
          exact ⟨h, by simp⟩

/-- The operations of a plan, whatever its versions. -/
def Operation.OfPlan (o : Operation) : Prop := o = .context false ∨ o = .planner 1 ∨ o.From 1

/-- **Plan and execute ends after at most four plans.** -/
theorem planAndExecute_adds {passes : ℕ} (hpasses : 4 ≤ passes) (hstrategy : request.strategy = strategyPlan) :
    (planAndExecute env passes request).Adds fun added r =>
      Traced request.executionId Operation.OfPlan 4 32 289 added ∧ r ≠ .ok none := by
  refine (validate_adds request).bind ?_ ?_
  · rintro added e rfl
    exact ⟨Traced.nil, by simp⟩
  · rintro added u rfl
    refine (@bootstrap_adds env request false hstrategy).bind ?_ ?_
    · intro start e h
      exact ⟨h.mono (fun o ho => .inl ho) (by omega) (by omega) (by omega), by simp⟩
    · intro start context hstart
      have hplanned : ∀ a, Traced request.executionId (fun o => o = .context false ∨ o = .planner 1) 1 0 0
          (start ++ [.planning (firstPlanningInput request context) a]) := by
        intro a
        have hone : Traced request.executionId (fun o => o = .planner 1) 1 0 0
            [.planning (firstPlanningInput request context) a] :=
          Traced.singleton ⟨_, rfl, rfl, firstPlanningInput_id⟩ trivial (by simp [Exchange.isPlanning])
            (by simp [Exchange.isEvaluation]) (by simp [Exchange.isDecision])
        refine hstart.append hone ?_ (fun o ho => .inl ho) (fun o ho => .inr ho) (by omega) (by omega) (by omega)
        rintro o rfl ho
        cases ho
      have hmono : ∀ o : Operation, (o = .context false ∨ o = .planner 1) → o.OfPlan :=
        fun o ho => ho.elim .inl fun ho => .inr (.inl ho)
      refine (planningActivity_adds _).bind ?_ ?_
      · rintro added e ⟨⟨a, rfl⟩, -⟩
        exact ⟨(hplanned a).mono hmono (by omega) (by omega) (by omega), by simp⟩
      · rintro added plan ⟨⟨a, rfl⟩, hplan⟩
        obtain ⟨raw, hraw, hsteps⟩ := hplan plan rfl
        obtain ⟨hnumbered, hlength⟩ := planSteps_numbered hraw
        have hsound : Progress.Sound ⟨plan.steps, 1, plan.transcriptVersion, 0, 0, []⟩ :=
          ⟨rfl, Nat.zero_le _, hsteps ▸ hnumbered, hsteps ▸ hlength⟩
        refine (Adds.rounds (@pass_adds env request context) passes _ hsound (show 3 - 0 < passes by omega)).mono fun rest r hrest => ⟨?_, hrest.2⟩
        have hafter : Traced request.executionId (Operation.From 1) 3 32 289 rest := hrest.1
        have hjoined : Traced request.executionId Operation.OfPlan 4 32 289
            ((start ++ [.planning (firstPlanningInput request context) a]) ++ rest) := by
          refine (hplanned a).append hafter ?_ hmono (fun o ho => .inr (.inr ho)) (Nat.le_refl _) (Nat.le_refl _) (by omega)
          rintro o (rfl | rfl) ho
          · exact ho
          · exact absurd ho.1 (Nat.lt_irrefl 1)
        rw [List.nil_append, ← List.append_assoc]
        exact hjoined

/-- The operations that are allowed to an execution. -/
def Operation.Allowed (request : AgentRunInput) (o : Operation) : Prop :=
  if request.strategy = strategyReact then o.OfReact request.maxTurns.toNat else o.OfPlan

/-- The exchanges stay within the bounds of the execution. -/
structure Within (request : AgentRunInput) (log : List Exchange) : Prop where
  operations : ∀ x ∈ log, x.Performs request.executionId (Operation.Allowed request)
  plannings : log.countP Exchange.isPlanning ≤ 4
  evaluations : log.countP Exchange.isEvaluation ≤ 32
  decisions : log.countP Exchange.isDecision ≤ if request.strategy = strategyReact then request.maxTurns.toNat + 1 else 289

/-- What every run of an agent adds. -/
theorem agentRun_adds {passes : ℕ} (hpasses : 4 ≤ passes) : (agentRun env passes request).Adds fun added r =>
    Traced request.executionId (Operation.Allowed request) 4 32
      (if request.strategy = strategyReact then request.maxTurns.toNat + 1 else 289) added ∧ r ≠ .ok none := by
  refine (validate_adds request).bind ?_ ?_
  · rintro added e rfl
    exact ⟨Traced.nil, by simp⟩
  · rintro added u rfl
    unfold Operation.Allowed
    by_cases hreact : request.strategy = strategyReact
    · simp only [if_pos hreact]
      refine (reactAgent_adds hreact).bind ?_ ?_
      · exact fun added e h => ⟨h.mono (fun _ ho => ho) (by omega) (by omega) (Nat.le_refl _), by simp⟩
      · intro added result h
        refine Adds.pure ?_
        rw [List.append_nil]
        exact ⟨h.mono (fun _ ho => ho) (by omega) (by omega) (Nat.le_refl _), by simp⟩
    · simp only [if_neg hreact]
      by_cases hplan : request.strategy = strategyPlan
      · rw [if_pos hplan]
        exact planAndExecute_adds hpasses hplan
      · rw [if_neg hplan]
        exact Adds.raise ⟨Traced.nil, by simp⟩

end workflows

/-! ### The executions of a Run -/

/-- An execution of a Run: the root, or a branch of a delegation. -/
structure Execution where
  request : AgentRunInput
  env : Environment
  passes : ℕ

def Execution.log (x : Execution) : List Exchange := (agentRun x.env x.passes x.request []).1

def Execution.outcome (x : Execution) : Except Failure (Option AgentResult) := (agentRun x.env x.passes x.request []).2

/-- The ids of everything that the executions asked for. -/
def operationIds (executions : List Execution) : List String := (executions.flatMap Execution.log).map Exchange.operationId

/-- **The workflows of a Run end within their bounds; their operations have distinct ids when no decision repeats the id of
a tool call, and, where no tool failed, only then.**  The executions of a Run have distinct ids, each of them a UUID. -/
theorem agent_runs_bounded (executions : List Execution) (hpasses : ∀ x ∈ executions, 4 ≤ x.passes)
    (huuid : ∀ x ∈ executions, x.request.executionId.length = 36)
    (hdistinct : (executions.map fun x => x.request.executionId).Nodup) :
    (∀ x ∈ executions, x.outcome ≠ .ok none ∧ Within x.request x.log) ∧
    ((∀ x ∈ executions, ∀ e ∈ x.log, e.Distinct) → (operationIds executions).Nodup) ∧
    ((∀ x ∈ executions, ∀ e ∈ x.log, e.Answered) → (operationIds executions).Nodup →
      ∀ x ∈ executions, ∀ e ∈ x.log, e.Distinct) := by
  have hadds : ∀ x ∈ executions, Traced x.request.executionId (Operation.Allowed x.request) 4 32
      (if x.request.strategy = strategyReact then x.request.maxTurns.toNat + 1 else 289) x.log ∧ x.outcome ≠ .ok none :=
    fun x hx => agentRun_adds (hpasses x hx) []
  have hfresh : Fresh Exchange.operationId Exchange.Distinct Exchange.Answered
      (fun e => ∃ x ∈ executions, e.Performs x.request.executionId (Operation.Allowed x.request))
      (executions.flatMap Execution.log) := by
    refine Fresh.flatMap (List.Nodup.of_map _ hdistinct) (fun x hx => (hadds x hx).1.fresh) ?_
    rintro x hx y hy hne e e' ⟨o, -, -, hid⟩ ⟨o', -, -, hid'⟩ heq
    rw [hid, hid'] at heq
    have hsame := operationId_execution ((huuid x hx).trans (huuid y hy).symm) heq
    exact hne (List.inj_on_of_nodup_map hdistinct hx hy hsame)
  refine ⟨fun x hx => ?_, fun hgood => ?_, fun hanswered hnodup x hx e he => ?_⟩
  · obtain ⟨htraced, houtcome⟩ := hadds x hx
    exact ⟨houtcome, htraced.fresh.within, htraced.plannings, htraced.evaluations, htraced.decisions⟩
  · refine hfresh.nodup fun e he => ?_
    obtain ⟨x, hx, hmem⟩ := List.mem_flatMap.mp he
    exact hgood x hx e hmem
  · refine hfresh.good_of_nodup (fun e' he' => ?_) hnodup e (List.mem_flatMap.mpr ⟨x, hx, he⟩)
    obtain ⟨y, hy, hmem⟩ := List.mem_flatMap.mp he'
    exact hanswered y hy e' hmem

/-! ### Two calls with one id -/

/-- A root execution of ReAct. -/
def rootRequest : AgentRunInput where
  schemaVersion := 4
  runId := "r"
  accountId := "a"
  source := ⟨"work", "w"⟩
  strategy := "react"
  executionId := "0d1f62a9-5b7c-4d8e-9f10-2a3b4c5d6e7f"

/-- A model that asks for these tools, and then answers. -/
def modelAsking (requests : List ActionRequest) : Environment where
  host := ⟨fun _ => .error .value, fun _ => []⟩
  contextBootstrap _ _ := .ok ⟨"t", 1⟩
  modelDecision _ input := .ok ⟨false, ["fs_read"], if input.turn = 1 then requests else [], input.transcriptVersion + 1, .rejected 0⟩
  toolExecution _ input := .ok ⟨"result", input.transcriptVersion + 1⟩
  planning _ input := .ok ⟨"", "", input.transcriptVersion + 1⟩
  evaluatePlan _ _ := .ok ""

/-- Two calls under two ids. -/
def separateCalls : Execution := ⟨rootRequest, modelAsking [⟨"call-1", "fs_read"⟩, ⟨"call-2", "fs_read"⟩], 4⟩

/-- Two calls without an id. -/
def namelessCalls : Execution := ⟨rootRequest, modelAsking [⟨"", "fs_read"⟩, ⟨"", "fs_read"⟩], 4⟩

theorem agent_runs_bounded_separate : (separateCalls.outcome ≠ .ok none ∧ Within rootRequest separateCalls.log) ∧
    (operationIds [separateCalls]).Nodup := by
  have h := agent_runs_bounded [separateCalls] (by decide) (by decide) (by decide)
  exact ⟨h.1 separateCalls (List.mem_singleton.mpr rfl), h.2.1 (by decide +kernel)⟩

/-- The two calls have one operation. -/
theorem nameless_calls_share : ¬(operationIds [namelessCalls]).Nodup := by decide +kernel

end HpAgent.Agents
