import HpAgent.Library.Table
import HpAgent.Models.Protocol

/-! # Turns

The activities by which an agent talks to a model, over the transcript of one Execution: the model decides, the calls it
made are executed one after the other, and the model decides again.

* `modelDecision`: what the model answered is recorded; the only action of a Main agent that answers is executed here.
* `toolExecution`: a call is executed and its result is recorded.
* `Step`: the workflow of a run, with attempts that are repeated or lost.

A completed operation is not executed again: its activity returns the result that was recorded. -/

namespace HpAgent.Models

open Library
open Requirements (isSpace strip)

/-! ### Messages that the runtime writes -/

/-- `ActionRequest`. -/
structure ActionRequest where
  id : List Char
  name : List Char
  arguments : List (List Char × Json)

/-- `ActionRequest.from_tool_call`: arguments that are no object are refused unless they are empty. -/
def ActionRequest.fromToolCall (c : ToolCall) : Option ActionRequest :=
  match c.arguments with
  | .obj fields => some ⟨c.id, c.name, fields⟩
  | arguments => if arguments.truthy then none else some ⟨c.id, c.name, []⟩

/-- A call in the message of the model. -/
def ActionRequest.dict (c : ActionRequest) : CallDict :=
  ⟨some (.str c.id), some (.str c.name), some (.obj c.arguments), none, none⟩

def assistantMessage (content : List Char) (calls : List ActionRequest) : MessageDict :=
  ⟨some "assistant", some (.text content), if calls.isEmpty then .falsy else .items (calls.map fun c => some c.dict), none⟩

def toolMessage (id : List Char) (content : List Char) : MessageDict :=
  ⟨some "tool", some (.text content), .falsy, some id⟩

/-- The speakers of the context of a run. -/
inductive Speaker where
  | system
  | user
  | assistant
deriving DecidableEq, Repr

def Speaker.role : Speaker → String
  | .system => "system"
  | .user => "user"
  | .assistant => "assistant"

/-- A message of the context: a text. -/
def contextMessage (m : Speaker × List Char) : MessageDict := ⟨some m.1.role, some (.text m.2), .falsy, none⟩

/-! ### The store -/

/-- The operations of a run, as their identities name them; the decisions are counted, and so are the plans. -/
inductive Operation where
  | context
  | model (n : ℕ)
  | respond (n : ℕ)
  | tool (n : ℕ) (toolCallId : List Char)
  | planner (n : ℕ)
deriving DecidableEq, Repr

/-- `CompactToolCall`; the reference of its arguments is the decision and the identity, separated by `#`. -/
structure CompactToolCall where
  toolCallId : List Char
  name : List Char
deriving DecidableEq, Repr

/-- The result of a model decision. -/
structure DecisionPayload where
  final : Bool
  toolCalls : List CompactToolCall
  toolCallArguments : List (List Char × List (List Char × Json))
  responseAction : Bool
  transcriptVersion : ℕ

/-- The result of an operation. -/
inductive Payload where
  | context
  | decision (d : DecisionPayload)
  | response (final : Bool) (transcriptVersion : ℕ)
  | tool (success : Bool) (transcriptVersion : ℕ)
  | plan (transcriptVersion : ℕ)

structure Event where
  operation : Operation
  messages : List MessageDict

structure Store where
  events : List Event
  completed : Operation → Option Payload

/-- `load_messages`. -/
def Store.messages (s : Store) : List MessageDict := s.events.flatMap Event.messages

def Store.version (s : Store) : ℕ := s.events.length

/-- The exceptions of the activities. -/
inductive Failure where
  | transcriptVersionConflict
  | integrityError
  | valueError (message : String)
  | protocol (e : ProtocolError)
  | mainToolProtocolInvalid
  | attemptFailed
deriving DecidableEq, Repr

/-- `complete_operation_with_event`: the event and the result are committed together. -/
def Store.complete (s : Store) (expected : ℕ) (op : Operation) (messages : List MessageDict) (payload : ℕ → Payload) :
    Except Failure (ℕ × Store) :=
  if s.version ≠ expected then
    match s.events.findIdx? fun e => e.operation = op with
    | some i => .ok (i + 1, s)
    | none => .error .transcriptVersionConflict
  else if op ∈ s.events.map Event.operation then .error .integrityError
  else if (s.completed op).isSome then .error (.valueError "completed operation result conflict")
  else .ok (s.version + 1, ⟨s.events ++ [⟨op, messages⟩], Function.update s.completed op (some (payload (s.version + 1)))⟩)

/-! ### Model decisions -/

/-- The two workflows. -/
inductive Strategy where
  | react
  | planExecute
deriving DecidableEq, Repr

/-- What is fixed for a run: its provider, whether it is a Main agent that answers by a tool, and its workflow. -/
structure Agent where
  host : Host
  openAi : Bool
  toolFirst : Bool
  strategy : Strategy

/-- The provider's serializer takes the messages. -/
def Agent.serialize (a : Agent) (messages : List MessageDict) : Checked Unit :=
  if a.openAi then (openAiMessages a.host (messages.map some)).map fun _ => ()
  else (anthropicMessages a.host (messages.map some)).map fun _ => ()

/-- `respond_directly`. -/
def respondDirectly : List Char := "respond_directly".toList

/-- Which decision of a workflow: one of its turns, the last one when the turns are used up, or the one about a whole
plan. -/
inductive Occasion where
  | turn
  | forcedFinal
  | synthesis
deriving DecidableEq, Repr

def Occasion.finalOnly : Occasion → Bool
  | .turn => false
  | _ => true

/-- A Main agent has to choose one of its tools, and the answer when the decision is the last one. -/
def invalidAction (a : Agent) (o : Occasion) (offered : List (List Char)) (actions : List ActionRequest) : Bool :=
  a.toolFirst &&
    match actions with
    | [c] => !offered.contains c.name || (o.finalOnly && c.name != respondDirectly)
    | _ => true

/-- The calls that are recorded. -/
def recordedCalls (a : Agent) (o : Occasion) (offered : List (List Char)) (actions : List ActionRequest) :
    List ActionRequest := if invalidAction a o offered actions then [] else actions

/-- A call in the text, for `_safe_final_content`. -/
def textCall (text : List Char) : Option (Unit × List Char) := do
  let opened ← after "<tool_call>".toList text
  let (_, left) ← breakOn "</tool_call>".toList opened
  some ((), left)

def apology : List Char := "抱歉，我暂时无法处理这个消息，请稍后重试。".toList

def rejection : List Char := "本轮没有执行任何动作：Main 必须选择一个结构化工具；回答请调用 respond_directly。".toList

/-- `_safe_final_content`. -/
def safeFinalContent (content : List Char) : List Char :=
  let value := if (breakOn "<tool_call>".toList content).isSome then strip (findAll textCall 0 content).2 else content
  if value = [] then apology else value

/-- The text of the message that is recorded. -/
def recordedContent (a : Agent) (o : Occasion) (offered : List (List Char)) (actions : List ActionRequest)
    (content : List Char) : List Char :=
  if invalidAction a o offered actions then rejection else if actions.isEmpty then safeFinalContent content else content

/-- The result that is recorded, without its position. -/
def decisionPayload (a : Agent) (o : Occasion) (offered : List (List Char)) (actions : List ActionRequest) (version : ℕ) :
    DecisionPayload :=
  let calls := recordedCalls a o offered actions
  { final := calls.isEmpty && !a.toolFirst
    toolCalls := calls.map fun c => ⟨c.id, c.name⟩
    toolCallArguments := actions.map fun c => (c.id, c.arguments)
    responseAction := a.toolFirst && (calls.head?.map fun c => c.name == respondDirectly).getD false
    transcriptVersion := version }

/-- How the answer of a Main agent ends: its attempt fails, or it is accepted, or its arguments are not. -/
inductive Answer where
  | failed
  | accepted (receipt : List Char)
  | rejected (error : List Char)

/-- The result of a decision, for the workflow; `answered` when it is an accepted answer of a Main agent. -/
structure DecisionResult where
  final : Bool
  toolCalls : List CompactToolCall
  transcriptVersion : ℕ
  answered : Bool

/-- `_main_response`: the answer is the result of the only call. -/
def mainResponse (o : Occasion) (n : ℕ) (d : DecisionPayload) (answer : Answer) (s : Store) :
    Except Failure DecisionResult × Store :=
  let finish (final : Bool) (version : ℕ) : Except Failure DecisionResult :=
    if o.finalOnly && !final then .error .mainToolProtocolInvalid else .ok ⟨final, [], version, final⟩
  match s.completed (.respond n) with
  | some (.response final version) => (finish final version, s)
  | some _ => (.error (.valueError "operation_id identity mismatch"), s)
  | none =>
      match answer, d.toolCalls with
      | .failed, _ => (.error .attemptFailed, s)
      | _, [] => (.error .attemptFailed, s)
      | .accepted receipt, c :: _ =>
          match s.complete d.transcriptVersion (.respond n) [toolMessage c.toolCallId receipt] (.response true) with
          | .ok (version, s') => (finish true version, s')
          | .error e => (.error e, s)
      | .rejected error, c :: _ =>
          match s.complete d.transcriptVersion (.respond n) [toolMessage c.toolCallId error] (.response false) with
          | .ok (version, s') => (finish false version, s')
          | .error e => (.error e, s)

/-- `model_decision`: `response` is what the model would answer, for the tools offered. -/
def modelDecision (a : Agent) (o : Occasion) (n version : ℕ) (offered : List (List Char)) (response : ModelResponse)
    (answer : Answer) (s : Store) : Except Failure DecisionResult × Store :=
  match s.completed (.model n) with
  | some (.decision d) =>
      if d.responseAction then mainResponse o n d answer s
      else (.ok ⟨d.final, d.toolCalls, d.transcriptVersion, false⟩, s)
  | some _ => (.error (.valueError "operation_id identity mismatch"), s)
  | none =>
      if s.version ≠ version then (.error .transcriptVersionConflict, s)
      else
        match a.serialize s.messages, (response.toolCalls.getD []).mapM ActionRequest.fromToolCall with
        | .error e, _ => (.error (.protocol e), s)
        | .ok _, none => (.error .attemptFailed, s)
        | .ok _, some actions =>
            if invalidAction a o offered actions && o.finalOnly then (.error .mainToolProtocolInvalid, s)
            else if actions.any fun c => !(Json.obj c.arguments).finite then (.error .attemptFailed, s)
            else
              match s.complete version (.model n)
                [assistantMessage (recordedContent a o offered actions (response.content.getD []))
                  (recordedCalls a o offered actions)]
                (fun v => .decision (decisionPayload a o offered actions v)) with
              | .error e => (.error e, s)
              | .ok (v, s') =>
                  let d := decisionPayload a o offered actions v
                  if d.responseAction then mainResponse o n d answer s'
                  else (.ok ⟨d.final, d.toolCalls, v, false⟩, s')

/-! ### Tools -/

/-- `tool_call_arguments`: a reference is cut at its last `#`. -/
def toolCallArguments (s : Store) (n : ℕ) (toolCallId : List Char) : Except Failure (List (List Char × Json)) :=
  if '#' ∈ toolCallId then .error (.valueError "invalid tool arguments reference")
  else
    match s.completed (.model n) with
    | some (.decision d) =>
        match d.toolCallArguments.reverse.lookup toolCallId with
        | some arguments => .ok arguments
        | none => .error (.valueError "tool call arguments not found")
    | _ => .error (.valueError "model decision reference not found")

/-- How a tool ends: its attempt fails, or it has a result, be it a success or an error. -/
inductive ToolOutcome where
  | failed
  | result (success : Bool) (content : List Char)

/-- `tool_execution`. -/
def toolExecution (n : ℕ) (c : CompactToolCall) (version : ℕ) (outcome : ToolOutcome) (s : Store) :
    Except Failure ℕ × Store :=
  match s.completed (.tool n c.toolCallId) with
  | some (.tool _ v) => (.ok v, s)
  | some _ => (.error (.valueError "operation_id identity mismatch"), s)
  | none =>
      if s.version ≠ version then (.error .transcriptVersionConflict, s)
      else
        match toolCallArguments s n c.toolCallId, outcome with
        | .error e, _ => (.error e, s)
        | .ok _, .failed => (.error .attemptFailed, s)
        | .ok _, .result success content =>
            match s.complete version (.tool n c.toolCallId) [toolMessage c.toolCallId content] (.tool success) with
            | .error e => (.error e, s)
            | .ok (v, s') => (.ok v, s')

/-! ### Plans -/

/-- `planning`: its event holds no message. -/
def planning (a : Agent) (n version : ℕ) (s : Store) : Except Failure ℕ × Store :=
  match s.completed (.planner n) with
  | some (.plan v) => (.ok v, s)
  | some _ => (.error (.valueError "operation_id identity mismatch"), s)
  | none =>
      if s.version ≠ version then (.error .transcriptVersionConflict, s)
      else
        match a.serialize s.messages with
        | .error e => (.error (.protocol e), s)
        | .ok _ =>
            match s.complete version (.planner n) [] .plan with
            | .error e => (.error e, s)
            | .ok (v, s') => (.ok v, s')

/-! ### The workflows -/

/-- Where the workflow is; `between` the steps of a plan it is evaluated. -/
inductive Phase where
  | deciding (n : ℕ) (o : Occasion)
  | tools (n : ℕ) (toolCalls : List CompactToolCall)
  | planning (n : ℕ)
  | between (n : ℕ)
  | ended

structure World where
  store : Store
  phase : Phase
  version : ℕ

/-- A ReAct run ends with its last decision, and so does a plan with an answer; else a step of the plan is over. -/
def Agent.stepOver (a : Agent) (n : ℕ) (r : DecisionResult) : Phase :=
  if a.strategy = .react ∨ r.answered = true then .ended else .between (n + 1)

def Agent.afterDecision (a : Agent) (o : Occasion) (n : ℕ) (r : DecisionResult) : Phase :=
  match o with
  | .turn => if r.final then a.stepOver n r else .tools n r.toolCalls
  | .forcedFinal => a.stepOver n r
  | .synthesis => .ended

/-- What a model may answer, by the decision and the tools offered. -/
abbrev Answers := Occasion → List (List Char) → List ActionRequest → Prop

/-- The response of a model, as the actions it requests, is one of these; a response without actions always is. -/
def Answers.Allows (P : Answers) (o : Occasion) (offered : List (List Char)) (response : ModelResponse) : Prop :=
  ∀ actions, (response.toolCalls.getD []).mapM ActionRequest.fromToolCall = some actions → P o offered actions

/-- A step of a run.  The result of an attempt can be lost: its activity is then executed again. -/
inductive Step (a : Agent) (P : Answers) : World → World → Prop
  | decide {s n o v} (offered : List (List Char)) (response : ModelResponse) (answer : Answer) (r : DecisionResult)
      (h : P.Allows o offered response) (hr : (modelDecision a o n v offered response answer s).1 = .ok r) :
      Step a P ⟨s, .deciding n o, v⟩
        ⟨(modelDecision a o n v offered response answer s).2, a.afterDecision o n r, r.transcriptVersion⟩
  | decideLost {s n o v} (offered : List (List Char)) (response : ModelResponse) (answer : Answer)
      (h : P.Allows o offered response) :
      Step a P ⟨s, .deciding n o, v⟩ ⟨(modelDecision a o n v offered response answer s).2, .deciding n o, v⟩
  | tool {s n c rest v} (outcome : ToolOutcome) (v' : ℕ) (hr : (toolExecution n c v outcome s).1 = .ok v') :
      Step a P ⟨s, .tools n (c :: rest), v⟩ ⟨(toolExecution n c v outcome s).2, .tools n rest, v'⟩
  | toolLost {s n c rest v} (outcome : ToolOutcome) :
      Step a P ⟨s, .tools n (c :: rest), v⟩ ⟨(toolExecution n c v outcome s).2, .tools n (c :: rest), v⟩
  | nextTurn {s n v} (o : Occasion) (ho : o ≠ .synthesis) :
      Step a P ⟨s, .tools n [], v⟩ ⟨s, .deciding (n + 1) o, v⟩
  | plan {s n v} (v' : ℕ) (hr : (planning a n v s).1 = .ok v') :
      Step a P ⟨s, .planning n, v⟩ ⟨(planning a n v s).2, .between (n + 1), v'⟩
  | planLost {s n v} : Step a P ⟨s, .planning n, v⟩ ⟨(planning a n v s).2, .planning n, v⟩
  | replan {s n v} : Step a P ⟨s, .between n, v⟩ ⟨s, .planning n, v⟩
  | nextStep {s n v} (o : Occasion) : Step a P ⟨s, .between n, v⟩ ⟨s, .deciding n o, v⟩
  | fail {s p v} : Step a P ⟨s, p, v⟩ ⟨s, .ended, v⟩

/-- The store after `create_transcript`. -/
def opened (context : List (Speaker × List Char)) : Store where
  events := [⟨.context, context.map contextMessage⟩]
  completed op := if op = .context then some .context else none

/-- A run begins with a turn, or with its plan. -/
def Agent.begin (a : Agent) (context : List (Speaker × List Char)) : World :=
  ⟨opened context, if a.strategy = .react then .deciding 1 .turn else .planning 1, 1⟩

/-- The worlds of the runs in which the model answers as allowed. -/
def Reach (a : Agent) (P : Answers) (context : List (Speaker × List Char)) : World → Prop :=
  Relation.ReflTransGen (Step a P) (a.begin context)

/-- A model is about to be asked: the messages of the transcript are loaded. -/
def World.Loads (w : World) : Prop :=
  match w.phase with
  | .deciding n _ => w.store.completed (.model n) = none
  | .planning n => w.store.completed (.planner n) = none
  | .between _ => True
  | _ => False

end HpAgent.Models
