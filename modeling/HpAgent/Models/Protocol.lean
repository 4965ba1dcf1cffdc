import HpAgent.Models.Responses

/-! # Messages for a provider

The serializers that turn a transcript into the messages of a provider, and refuse one whose tool calls and results do
not match.

* `openAiMessages`: a call must be answered, once, before the next message.
* `anthropicMessages`: the same messages as blocks of two speakers.
* `openAiMessage_plain`, `openAiMessage_calls`, `openAiMessage_result`: the messages that the runtime writes.

An object of a message is a record of the fields that the serializers read. -/

namespace HpAgent.Models

open Library

/-! ### Objects -/

/-- The `function` of a call, or the call itself where it has none. -/
structure FunctionDict where
  name : Option Json
  arguments : Option Json

/-- A tool call as a message holds it; its `function` can be something else than an object. -/
structure CallDict where
  id : Option Json
  name : Option Json
  arguments : Option Json
  input : Option Json
  function : Option (Option FunctionDict)

/-- A content block, with what the serializers read of it. -/
structure BlockDict where
  value : Json
  type : Option String
  text : Option Json
  asCall : CallDict
  toolUseId : Option (List Char)
  content : Json

/-- An item among the blocks, which can be something else than an object. -/
inductive ContentBlock where
  | dict (block : BlockDict)
  | other (value : Json)

/-- The content of a message. -/
inductive Content where
  | null
  | text (text : List Char)
  | blocks (blocks : List ContentBlock)
  | other (value : Json)

/-- The `tool_calls` of a message. -/
inductive RawCalls where
  | falsy
  | items (items : List (Option CallDict))
  | other

/-- A message; an identity is there when it is a text. -/
structure MessageDict where
  role : Option String
  content : Option Content
  toolCalls : RawCalls
  toolCallId : Option (List Char)

/-! ### OpenAI messages -/

/-- A serialized call: its arguments are a text. -/
structure WireToolCall where
  id : List Char
  name : List Char
  arguments : List Char
deriving DecidableEq, Repr

structure WireMessage where
  role : String
  content : Content
  toolCalls : List WireToolCall
  toolCallId : List Char

/-- `ModelRequestInvalid`, and the exceptions of the standard library. -/
inductive ProtocolError where
  | modelRequestInvalid (message : String)
  | decodeError
deriving DecidableEq, Repr

abbrev Checked := Except ProtocolError

def invalid {α : Type} (message : String) : Checked α := .error (.modelRequestInvalid message)

/-- `json.dumps(arguments, ensure_ascii=False, allow_nan=False)`. -/
def encode (arguments : Json) : Option (List Char) :=
  if arguments.finite then some (arguments.dumps [',', ' '] [':', ' ']) else none

/-- The arguments of a call: a text is read. -/
def callArguments (host : Host) : Json → Checked Json
  | .str text =>
      match host.loads text with
      | some arguments => .ok arguments
      | none => invalid "invalid function arguments"
  | arguments => .ok arguments

/-- The checks of `_call` on its three parts. -/
def checkCall (arguments : Json) (id name : Option Json) : Checked WireToolCall :=
  match arguments, id, name with
  | .obj fields, some (.str i), some (.str n) =>
      if i = [] ∨ n = [] then invalid "invalid tool call"
      else
        match encode (.obj fields) with
        | some text => .ok ⟨i, n, text⟩
        | none => invalid "non-JSON function arguments"
  | _, _, _ => invalid "invalid tool call"

/-- `_call`. -/
def call (host : Host) (value : CallDict) : Checked WireToolCall := do
  let function ←
    match value.function with
    | none => .ok ⟨value.name, value.arguments⟩
    | some none => invalid "invalid function object"
    | some (some function) => .ok function
  let arguments ← callArguments host (function.arguments.getD (value.input.getD (.obj [])))
  checkCall arguments value.id function.name

/-- The messages so far, and the calls that wait for their result. -/
structure Serialized where
  result : List WireMessage
  pending : List (List Char)

/-- `append` of a tool result. -/
def appendResult (s : Serialized) (identity : Option (List Char)) (content : Content) : Checked Serialized :=
  match identity with
  | some i =>
      if i ∈ s.pending then .ok ⟨s.result ++ [⟨"tool", content, [], i⟩], s.pending.erase i⟩
      else invalid "orphan or duplicate tool result"
  | none => invalid "orphan or duplicate tool result"

/-- `append` of another message. -/
def appendMessage (s : Serialized) (m : WireMessage) : Checked Serialized :=
  if s.pending ≠ [] then invalid "missing tool results before next message"
  else if ¬ (m.toolCalls.map WireToolCall.id).Nodup then invalid "duplicate tool call IDs"
  else .ok ⟨s.result ++ [m], m.toolCalls.map WireToolCall.id⟩

/-- The blocks of an assistant message: its calls and its texts. -/
def assistantBlock (host : Host) (s : List WireToolCall × List (List Char)) :
    ContentBlock → Checked (List WireToolCall × List (List Char))
  | .other _ => invalid "invalid assistant content block"
  | .dict block =>
      if block.type = some "tool_use" then do
        let c ← call host block.asCall
        .ok (s.1 ++ [c], s.2)
      else if block.type = some "text" then
        match block.text.getD (.str []) with
        | .str text => .ok (s.1, s.2 ++ [text])
        | _ => invalid "invalid assistant text"
      else invalid "unsupported assistant content block"

/-- `"\n".join`. -/
def joinLines (texts : List (List Char)) : List Char := ['\n'].intercalate texts

/-- The calls of an assistant message. -/
def rawCalls (host : Host) : RawCalls → Checked (List WireToolCall)
  | .falsy => .ok []
  | .other => invalid "invalid tool calls list"
  | .items items => do
      let calls ← (items.filterMap id).mapM (call host)
      if calls.length = items.length then .ok calls else invalid "invalid tool call object"

/-- The text of an assistant message, with the calls of its blocks. -/
def assistantContent (host : Host) (calls : List WireToolCall) :
    Content → Checked (List WireToolCall × List Char)
  | .null => .ok (calls, [])
  | .text text => .ok (calls, text)
  | .blocks blocks => do
      let s ← blocks.foldlM (assistantBlock host) (calls, [])
      .ok (s.1, joinLines s.2)
  | .other _ => invalid "invalid assistant content"

/-- The blocks of a user message: tool results are messages of their own. -/
def userBlock (s : Serialized × List ContentBlock) (block : ContentBlock) : Checked (Serialized × List ContentBlock) :=
  match block with
  | .dict b =>
      if b.type = some "tool_result" then do
        let next ← appendResult s.1 b.toolUseId (.other b.content)
        .ok (next, s.2)
      else .ok (s.1, s.2 ++ [block])
  | .other _ => .ok (s.1, s.2 ++ [block])

/-- The loop of `openai_messages`. -/
def openAiMessage (host : Host) (s : Serialized) (message : Option MessageDict) : Checked Serialized :=
  match message with
  | none => invalid "invalid message object"
  | some m =>
      match m.role with
      | some "assistant" => do
          let calls ← rawCalls host m.toolCalls
          let output ← assistantContent host calls (m.content.getD (.text []))
          appendMessage s ⟨"assistant", .text output.2, output.1, []⟩
      | some "user" =>
          match m.content.getD (.text []) with
          | .blocks blocks => do
              let next ← blocks.foldlM userBlock (s, [])
              if next.2 = [] then .ok next.1 else appendMessage next.1 ⟨"user", .blocks next.2, [], []⟩
          | content => appendMessage s ⟨"user", content, [], []⟩
      | some "tool" => appendResult s m.toolCallId (m.content.getD (.text []))
      | some "system" => appendMessage s ⟨"system", m.content.getD (.text []), [], []⟩
      | some "developer" => appendMessage s ⟨"developer", m.content.getD (.text []), [], []⟩
      | _ => invalid "invalid message role"

/-- `openai_messages`. -/
def openAiMessages (host : Host) (messages : List (Option MessageDict)) : Checked (List WireMessage) := do
  let s ← messages.foldlM (openAiMessage host) ⟨[], []⟩
  if s.pending = [] then .ok s.result else invalid "incomplete tool round trip"

/-! ### Anthropic messages -/

/-- A block of an Anthropic message. -/
inductive OutBlock where
  | text (content : Content)
  | toolUse (id name : List Char) (input : Json)
  | toolResult (id : List Char) (content : Content)
  | same (block : ContentBlock)

/-- `content or ""`. -/
def contentOrEmpty : Content → Content
  | .null => .text []
  | .text text => .text text
  | .blocks [] => .text []
  | .blocks blocks => .blocks blocks
  | .other value => if value.truthy then .other value else .text []

def toolUseBlock (host : Host) (c : WireToolCall) : Checked OutBlock :=
  match host.loads c.arguments with
  | some input => .ok (.toolUse c.id c.name input)
  | none => .error .decodeError

/-- The speaker and the blocks of a message. -/
def blocksOf (host : Host) (m : WireMessage) : Checked (String × List OutBlock) :=
  match m.role with
  | "assistant" => do
      let uses ← m.toolCalls.mapM (toolUseBlock host)
      let texts := match contentOrEmpty m.content with
        | .text [] => []
        | content => [OutBlock.text content]
      .ok ("assistant", texts ++ uses)
  | "tool" => .ok ("user", [.toolResult m.toolCallId (contentOrEmpty m.content)])
  | role =>
      match contentOrEmpty m.content with
      | .blocks blocks => .ok (role, blocks.map .same)
      | content => .ok (role, [.text content])

/-- A message of the same speaker as the last one is joined to it. -/
def joinSpeaker (result : List (String × List OutBlock)) (m : String × List OutBlock) : List (String × List OutBlock) :=
  match result.getLast? with
  | some last => if last.1 = m.1 then result.dropLast ++ [(last.1, last.2 ++ m.2)] else result ++ [m]
  | none => result ++ [m]

/-- The loop of `anthropic_messages`. -/
def anthropicMessage (host : Host) (s : List (String × List OutBlock) × List (List Char)) (m : WireMessage) :
    Checked (List (String × List OutBlock) × List (List Char)) :=
  if m.role = "system" ∨ m.role = "developer" then
    match contentOrEmpty m.content with
    | .text text => .ok (s.1, s.2 ++ [text])
    | _ => invalid "invalid system content"
  else do
    let blocks ← blocksOf host m
    .ok (joinSpeaker s.1 blocks, s.2)

/-- `anthropic_messages`. -/
def anthropicMessages (host : Host) (messages : List (Option MessageDict)) :
    Checked (List (String × List OutBlock) × List Char) := do
  let normalized ← openAiMessages host messages
  let s ← normalized.foldlM (anthropicMessage host) ([], [])
  .ok (s.1, ['\n', '\n'].intercalate s.2)

end HpAgent.Models
