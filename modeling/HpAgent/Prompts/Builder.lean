import HpAgent.Prompts.Tokens
import Mathlib.Data.Char
import Mathlib.Data.List.Lex
import Mathlib.Data.List.Sort

/-! # The messages of a model call

The events of a conversation become the messages a model is called with: a system prompt, and as much of the history as the
token budget leaves room for.

* `buildSystemPrompt`: the parts of the system prompt.
* `collect`: the events that are kept, from the newest one backwards.
* `emit`: the message of an event.
* `build`: all of it. -/

namespace HpAgent.Prompts

open Library

/-- A text of the source. -/
abbrev Text := List Char

/-! ### Events -/

inductive EventType where
  | userMessage
  | modelMessage
  | toolCall
  | toolResult
  | error
  | configChange
  | sessionStart
  | sessionComplete
  | sessionArchived
  | loopStarted
  | loopCompleted
  | turnCompleted
  | memoryRecall
  | memoryRetain
  | memoryReflect
  | contextInherit
  | toolRetrieval
  | toolSummary
deriving DecidableEq, Repr

/-- A tool call in the content of a model message. -/
structure ToolCall where
  id : Json
  name : Json
  arguments : Json

/-- The members of `Event.content` that are read, with the defaults of `dict.get`; or the text of a content that is no dict. -/
inductive Content where
  | dict (content text summary : Text) (result : Json) (error : Json) (toolCalls : List ToolCall)
  | other (shown : Text)

structure Event where
  eventType : EventType
  content : Content
  metadata : List (Text × Json)

/-! ### Messages -/

inductive Role where
  | system
  | user
  | assistant
deriving DecidableEq, Repr

inductive Part where
  | text (text : Text)
  | toolUse (id name input : Json)

inductive MessageContent where
  | text (text : Text)
  | parts (parts : List Part)

structure Message where
  role : Role
  content : MessageContent

/-- Only the texts of a structured message are estimated. -/
def partTokens : Part → ℕ
  | .text t => estimateText t
  | .toolUse _ _ _ => 0

/-- `estimate_messages_tokens` for one message. -/
def messageTokens (m : Message) : ℕ :=
  (match m.content with
    | .text t => estimateText t
    | .parts parts => (parts.map partTokens).sum) + 4

def messagesTokens (messages : List Message) : ℕ := (messages.map messageTokens).sum

/-! ### The system prompt -/

inductive ContextError where
  | valueError (message : String)
  | typeError
deriving DecidableEq, Repr

/-- `PromptLoader`: the texts of the configuration. -/
structure PromptLoader where
  identities : List (Text × Text)
  guidance : List (Text × Text)
  environment : List (Text × Text)
  system : List (Text × Text)

/-- Functions of the library: `str` of a value, and `str.format` of a template with the channels. -/
structure StdLib where
  repr : Json → Text
  format : Text → Text → Text

/-- `str(value)`. -/
def StdLib.str (std : StdLib) : Json → Text
  | .str s => s
  | value => std.repr value

/-- `DEFAULT_IDENTITY`. -/
def defaultIdentity : Text :=
  "你是一个智能 AI 聊天助手。你友善、博学、直接，能协助用户处理广泛的任务。请始终使用中文与用户交流，除非用户明确要求使用其他语言。".toList

def PromptLoader.getIdentity (p : PromptLoader) (channel : Text) : Text :=
  match if channel = [] then none else p.identities.lookup channel with
  | some identity => identity
  | none => (p.identities.lookup "default".toList).getD defaultIdentity

def PromptLoader.getGuidance (p : PromptLoader) (name : Text) : Text := (p.guidance.lookup name).getD []

def PromptLoader.getEnvironment (p : PromptLoader) (name : Text) : Text := (p.environment.lookup name).getD []

def PromptLoader.formatCrossChannel (std : StdLib) (p : PromptLoader) (channels : Text) : Text :=
  let template := (p.system.lookup "cross_channel".toList).getD []
  if template = [] then [] else std.format template channels

/-- `_IDENTITY_KEYS`. -/
def identityKeys : List (Text × Text) :=
  [("web_chat".toList, "web".toList), ("web_plan".toList, "web".toList), ("qq_private".toList, "qq".toList),
    ("qq_group".toList, "qq".toList), ("console".toList, "console".toList)]

/-- `identity_key_for_profile`. -/
def identityKeyForProfile (profile : Text) : Except ContextError Text :=
  match identityKeys.lookup profile with
  | some key => .ok key
  | none => .error (.valueError ("unsupported interaction profile: " ++ String.ofList profile))

/-- `HarnessContextBuilder`. -/
structure HarnessContextBuilder where
  prompts : Option PromptLoader
  systemPrompt : Text
  enableToolGuidance : Bool

/-- The arguments of `build`. -/
structure BuildArgs where
  maxTurns : ℤ
  recalledMemories : Text
  interactionProfile : Text
  tokenBudget : ℤ
  generationHeadroom : ℤ
  inSessionSummary : Text
  extraContext : Text
  remainingTurns : ℤ
  maxToolTurns : ℤ
  groupContextText : Text

/-- `_pick_identity`. -/
def pickIdentity (b : HarnessContextBuilder) (profile : Text) : Except ContextError Text :=
  if b.systemPrompt ≠ [] then .ok b.systemPrompt
  else match b.prompts with
    | some prompts =>
        if profile ≠ [] then do
          let identity := prompts.getIdentity (← identityKeyForProfile profile)
          pure (if identity ≠ [] then identity else prompts.getIdentity "default".toList)
        else .ok (prompts.getIdentity "default".toList)
    | none =>
        if profile = "qq_private".toList ∨ profile = "qq_group".toList then .ok "你是 nono，一只有趣的猫。".toList
        else if profile = "web_chat".toList ∨ profile = "web_plan".toList then .ok "你是 HpAgent，一个 Web 智能助手。".toList
        else .ok "你是 HpAgent，一个智能 AI 助手。".toList

/-- `sep.join(parts)`. -/
def join (sep : Text) (parts : List Text) : Text := sep.intercalate parts

/-- `_build_cross_channel_hint`. -/
def crossChannelHint (std : StdLib) (b : HarnessContextBuilder) (events : List Event) : Text :=
  match b.prompts with
  | none => []
  | some prompts =>
      let sources := ((events.filter fun e => e.eventType = .userMessage).filterMap fun e =>
        ((e.metadata.lookup "interaction_source".toList).filter truthy).map std.str).dedup
      if 1 < sources.length then prompts.formatCrossChannel std (join ", ".toList (sources.insertionSort (· ≤ ·))) else []

/-- The guidance on tools: that of the profile, or the general one. -/
def toolGuidance (b : HarnessContextBuilder) (profile : Text) : Except ContextError Text :=
  match b.enableToolGuidance, b.prompts with
  | true, some prompts => do
      let guidance ← if profile ≠ [] then do
          pure (prompts.getGuidance ("tool_enforcement_".toList ++ (← identityKeyForProfile profile)))
        else pure []
      pure (if guidance = [] then prompts.getGuidance "tool_enforcement".toList else guidance)
  | _, _ => .ok []

/-- A part that is only there with its text. -/
def optionalPart (front text : Text) : List Text := if text = [] then [] else [front ++ text]

/-- `_build_system_prompt`. -/
def buildSystemPrompt (std : StdLib) (b : HarnessContextBuilder) (events : List Event) (a : BuildArgs) : Except ContextError Text := do
  let identity ← pickIdentity b a.interactionProfile
  let guidance ← toolGuidance b a.interactionProfile
  let environment := (b.prompts.map fun p => p.getEnvironment "docker".toList).getD []
  let turns := if 0 < a.remainingTurns ∧ 0 < a.maxToolTurns then
      [("## 轮次限制\n\n当前对话最多允许 " ++ toString a.maxToolTurns ++ " 轮工具调用，剩余可用轮次：" ++ toString a.remainingTurns ++
        "。\n请在剩余轮次内完成当前任务。如果剩余轮次较少，优先给出结论而不是继续探索。").toList]
    else []
  pure (join "\n\n".toList ([identity] ++ optionalPart [] (crossChannelHint std b events) ++ optionalPart [] guidance ++
    optionalPart [] environment ++ optionalPart [] a.recalledMemories ++
    optionalPart "## 历史摘要\n\n以下为早轮对话的摘要（而非完整记录），仅作背景参考：\n".toList a.inSessionSummary ++
    optionalPart [] a.extraContext ++ turns ++
    optionalPart "## 群聊近期对话\n\n以下是本群最近的消息记录，用于理解当前对话背景：\n".toList a.groupContextText))

/-- What earlier sessions left, in front of the extra context. -/
def inheritedContext (events : List Event) (extraContext : Text) : Text :=
  let parts := (events.filter fun e => e.eventType = .contextInherit).filterMap fun e =>
    match e.content with
    | .dict _ _ summary _ _ _ => if summary = [] then none else some summary
    | .other _ => none
  if parts = [] then extraContext
  else "## 跨会话上下文\n\n以下信息继承自之前的会话：\n".toList ++ join "\n".toList parts ++
    if extraContext = [] then [] else "\n\n".toList ++ extraContext

/-! ### The history -/

/-- The events a model is shown. -/
def consumed (events : List Event) : List Event :=
  events.filter fun e => e.eventType = .userMessage || e.eventType = .modelMessage || e.eventType = .toolResult

/-- The estimate an event is charged with, without the overhead. -/
def chargedText (e : Event) : Option ℕ :=
  match e.content with
  | .other shown => some (estimateText shown)
  | .dict content text _ result _ _ =>
      match e.eventType with
      | .toolResult => estimateTokens result
      | .userMessage => some (estimateText content)
      | .modelMessage => some (estimateText text)
      | _ => some 0

/-- `cost`. -/
def charge (e : Event) : Option ℕ := (chargedText e).map (· + 4)

/-- The events that are kept, read from the newest one backwards; an event that cannot be estimated raises. -/
def collect (remaining : ℤ) : List Event → ℕ → List Event → Option (List Event)
  | usable, _, [] => some usable
  | usable, runningCost, event :: rest =>
      match charge event with
      | none => none
      | some cost =>
          if remaining < runningCost + cost ∧ usable ≠ [] then some usable
          else collect remaining (event :: usable) (runningCost + cost) rest

/-- `_extract_user_content`: the metadata, and the message. -/
def metadataText (std : StdLib) (metadata : List (Text × Json)) : Text :=
  join ", ".toList (metadata.map fun m => m.1 ++ ": ".toList ++ std.str m.2)

/-- `_extract_tool_result` of a result without an error. -/
def resultText (std : StdLib) (result : Json) : Text :=
  let text := std.str result
  if 50000 < text.length then
    text.take 50000 ++ ("\n...[工具输出过长已截断：完整内容 " ++ toString text.length ++ " 字符]").toList
  else text

/-- The text of an error. -/
def errorText (std : StdLib) (error : Json) : Text := "工具执行失败：".toList ++ std.str error

/-- `_extract_model_content`. -/
def modelContent (text : Text) (toolCalls : List ToolCall) : MessageContent :=
  if toolCalls.isEmpty then .text text
  else .parts ((if text = [] then [] else [.text text]) ++ toolCalls.map fun tc => .toolUse tc.id tc.name tc.arguments)

/-- The message of an event. -/
def emit (std : StdLib) (e : Event) : Message :=
  match e.eventType with
  | .modelMessage =>
      ⟨.assistant, match e.content with
        | .dict _ text _ _ _ toolCalls => modelContent text toolCalls
        | .other shown => .text shown⟩
  | .toolResult =>
      ⟨.user, match e.content with
        | .dict _ _ _ result error _ => .text (if truthy error then errorText std error else resultText std result)
        | .other shown => .text shown⟩
  | _ =>
      ⟨.user, match e.content with
        | .dict content _ _ _ _ _ => .text (metadataText std e.metadata ++ content)
        | .other shown => .text shown⟩

/-- `list[start:]`. -/
def sliceFrom (l : List Event) (start : ℤ) : List Event :=
  if 0 ≤ start then l.drop start.toNat else l.drop (l.length - (-start).toNat)

/-- What the budget leaves for the system prompt and the history. -/
def available (a : BuildArgs) : ℤ :=
  if a.tokenBudget - a.generationHeadroom ≤ 0 then a.tokenBudget / 2 else a.tokenBudget - a.generationHeadroom

/-- The system prompt of a call. -/
def systemContent (std : StdLib) (b : HarnessContextBuilder) (events : List Event) (a : BuildArgs) : Except ContextError Text :=
  buildSystemPrompt std b events { a with extraContext := inheritedContext events a.extraContext }

/-- The events of the history that are kept. -/
def history (events : List Event) (a : BuildArgs) (system : Text) : Except ContextError (List Event) :=
  if 0 < a.tokenBudget then
    match collect (available a - estimateText system) [] 0 (consumed events).reverse with
    | some kept => .ok kept
    | none => .error .typeError
  else if a.maxTurns * 2 < (consumed events).length then .ok (sliceFrom (consumed events) (-a.maxTurns * 2))
  else .ok (consumed events)

/-- `build`. -/
def build (std : StdLib) (b : HarnessContextBuilder) (events : List Event) (a : BuildArgs) : Except ContextError (List Message) := do
  let system ← systemContent std b events a
  let kept ← history events a system
  pure ((if system = [] then [] else [⟨.system, .text system⟩]) ++ kept.map (emit std))

end HpAgent.Prompts
