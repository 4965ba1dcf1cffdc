import HpAgent.Requirements.Requirement

/-! # Model responses

What the agent reads from the answer of a model provider.  Both formats give a `ModelResponse`: a text, the tool calls
and the reason why the model stopped.

* `extractXmlToolCalls`: the tool calls that some models write into their text.
* `parseAnthropicResponse`, `parseOpenAiResponse`: a complete answer.

A provider's object is a record whose fields are optional where the parser has a default for them. -/

namespace HpAgent.Models

open Library
open Requirements (isSpace strip)

inductive StopReason where
  | endTurn
  | toolUse
  | maxTokens
  | refusal
  | error
deriving DecidableEq, Repr

/-- `ToolCall`. -/
structure ToolCall where
  id : List Char
  name : List Char
  arguments : Json

/-- `ModelResponse`. -/
structure ModelResponse where
  content : Option (List Char)
  toolCalls : Option (List ToolCall)
  stopReason : StopReason

/-- What the parsers ask of others: `json.loads`, and which characters `\\w` matches. -/
structure Host where
  loads : List Char → Option Json
  word : Char → Bool

/-- `items or None`. -/
def orNone {α : Type} (items : List α) : Option (List α) := if items.isEmpty then none else some items

@[simp] theorem orNone_nil {α : Type} : orNone ([] : List α) = none := rfl

@[simp] theorem orNone_cons {α : Type} (a : α) (items : List α) : orNone (a :: items) = some (a :: items) := rfl

theorem orNone_inj {α : Type} {xs ys : List α} : orNone xs = orNone ys ↔ xs = ys := by
  cases xs with
  | nil => cases ys <;> simp
  | cons x xs => cases ys <;> simp

def respond (content : List Char) (toolCalls : List ToolCall) (stop : StopReason) : ModelResponse :=
  ⟨orNone content, orNone toolCalls, stop⟩

theorem respond_inj {s t : List Char} {cs ds : List ToolCall} {p q : StopReason} :
    respond s cs p = respond t ds q ↔ s = t ∧ cs = ds ∧ p = q := by
  unfold respond
  rw [ModelResponse.mk.injEq, orNone_inj, orNone_inj]

/-! ### Stop reasons -/

def anthropicStopReasons : List (String × StopReason) :=
  [("end", .endTurn), ("end_turn", .endTurn), ("max_tokens", .maxTokens), ("stop", .endTurn), ("stop_sequence", .endTurn),
    ("tool_use", .toolUse)]

/-- `_map_anthropic_stop_reason`. -/
def mapAnthropicStopReason (reason : Option String) : StopReason :=
  (reason.bind fun r => anthropicStopReasons.lookup r).getD .error

def openAiFinishReasons : List (String × StopReason) :=
  [("stop", .endTurn), ("length", .maxTokens), ("content_filter", .refusal), ("tool_calls", .toolUse),
    ("function_call", .toolUse)]

/-- `_map_openai_finish_reason`. -/
def mapOpenAiFinishReason (reason : Option String) : StopReason :=
  (reason.bind fun r => openAiFinishReasons.lookup r).getD .error

/-! ### Tool calls in the text -/

/-- The first occurrence of a text: what stands before it, and after it. -/
def breakOn (mark : List Char) : List Char → Option (List Char × List Char)
  | [] => if mark.isPrefixOf [] then some ([], []) else none
  | c :: rest =>
      if mark.isPrefixOf (c :: rest) then some ([], (c :: rest).drop mark.length)
      else (breakOn mark rest).map fun p => (c :: p.1, p.2)

/-- The rest of the text after a prefix. -/
def after (mark text : List Char) : Option (List Char) :=
  if mark.isPrefixOf text then some (text.drop mark.length) else none

/-- `finditer` and `sub('')` of a pattern: `k` characters of the last match are still to be passed. -/
def findAll {α : Type} (pattern : List Char → Option (α × List Char)) : ℕ → List Char → List α × List Char
  | _, [] => ([], [])
  | k + 1, _ :: rest => findAll pattern k rest
  | 0, c :: rest =>
      match pattern (c :: rest) with
      | some (found, left) =>
          let others := findAll pattern (rest.length - left.length) rest
          (found :: others.1, others.2)
      | none =>
          let others := findAll pattern 0 rest
          (others.1, c :: others.2)

/-- `_TOOL_CALL_XML_RE` at the start of the text: the name and the inner text. -/
def toolCallXml (host : Host) (text : List Char) : Option ((List Char × List Char) × List Char) := do
  let opened ← after "<tool_call>".toList text
  let body ← after "<function=".toList (opened.dropWhile isSpace)
  match body with
  | [] => none
  | c :: rest =>
      let more := rest.takeWhile fun d => host.word d || d == '-'
      let closed ← after ['>'] (rest.drop more.length)
      let (inner, left) ← breakOn "</tool_call>".toList closed
      if host.word c then some ((c :: more, inner), left) else none

/-- `_PARAM_XML_RE` at the start of the text: the name and the value. -/
def paramXml (host : Host) (text : List Char) : Option ((List Char × List Char) × List Char) := do
  let opened ← after "<parameter=".toList text
  let name := opened.takeWhile host.word
  let closed ← after ['>'] (opened.drop name.length)
  let (value, left) ← breakOn "</parameter>".toList closed
  if name.isEmpty then none else some ((name, value), left)

/-- `arguments[key] = value`. -/
def setArgument (key : List Char) (value : Json) : List (List Char × Json) → List (List Char × Json)
  | [] => [(key, value)]
  | (k, v) :: rest => if k = key then (k, value) :: rest else (k, v) :: setArgument key value rest

/-- The value of a parameter: JSON where it is, else the text. -/
def paramValue (host : Host) (text : List Char) : Json := (host.loads (strip text)).getD (.str (strip text))

def xmlArguments (host : Host) (inner : List Char) : List (List Char × Json) :=
  (findAll (paramXml host) 0 inner).1.foldl (fun args p => setArgument p.1 (paramValue host p.2) args) []

/-- `_extract_xml_tool_calls`. -/
def extractXmlToolCalls (host : Host) (text : List Char) : List ToolCall × List Char :=
  let found := findAll (toolCallXml host) 0 text
  let toolCalls := found.1.zipIdx.map fun p =>
    ⟨"xml_".toList ++ (toString p.2).toList, p.1.1, .obj (xmlArguments host p.1.2)⟩
  (toolCalls, if toolCalls.isEmpty then text else strip found.2)

/-- The text holds tool calls that the fallback takes out of it. -/
def holdsXmlCalls (host : Host) (text : List Char) : Bool :=
  (breakOn "<tool_call>".toList text).isSome && !(extractXmlToolCalls host text).1.isEmpty

/-- How both parsers end: a turn with tool calls goes on, and without any the text is searched for some. -/
def conclude (host : Host) (content : List Char) (toolCalls : List ToolCall) (stop : StopReason) : ModelResponse :=
  if toolCalls.isEmpty && holdsXmlCalls host content then
    respond (extractXmlToolCalls host content).2 (extractXmlToolCalls host content).1 .toolUse
  else respond content toolCalls (if !toolCalls.isEmpty && stop = .endTurn then .toolUse else stop)

/-! ### Complete answers -/

/-- An item of the `content` of an Anthropic message. -/
inductive Block where
  | text (text : Option (List Char))
  | toolUse (id name : Option (List Char)) (input : Option Json)
  | other

/-- An Anthropic message; a stop reason can be null. -/
structure AnthropicBody where
  content : List Block
  stopReason : Option (Option String)

/-- The loop of `_parse_anthropic_response`. -/
def readBlock (s : List Char × List ToolCall) : Block → List Char × List ToolCall
  | .text text => (text.getD [], s.2)
  | .toolUse id name input => (s.1, s.2 ++ [⟨id.getD [], name.getD [], input.getD (.obj [])⟩])
  | .other => s

/-- `_parse_anthropic_response`. -/
def parseAnthropicResponse (host : Host) (result : AnthropicBody) : ModelResponse :=
  let s := result.content.foldl readBlock ([], [])
  conclude host s.1 s.2 (mapAnthropicStopReason (result.stopReason.getD (some "end")))

/-- The `arguments` of a function: a text, or what it stands for. -/
inductive Arguments where
  | text (text : List Char)
  | value (value : Json)

/-- The arguments of a function, or nothing where they are not JSON. -/
def readArguments (host : Host) (args : Option Arguments) : Option Json :=
  match args.getD (.text ['{', '}']) with
  | .text text => host.loads text
  | .value value => some value

/-- The `function` of a tool call. -/
structure FunctionPart where
  name : Option (List Char)
  arguments : Option Arguments

structure OpenAiCall where
  id : Option (List Char)
  function : FunctionPart

/-- A choice; a finish reason can be null. -/
structure OpenAiChoice where
  content : Option (List Char)
  toolCalls : List OpenAiCall
  finishReason : Option (Option String)

structure OpenAiBody where
  choices : List OpenAiChoice

def readCall (host : Host) (tc : OpenAiCall) : ToolCall :=
  ⟨tc.id.getD [], tc.function.name.getD [], (readArguments host tc.function.arguments).getD (.obj [])⟩

/-- `_parse_openai_response`. -/
def parseOpenAiResponse (host : Host) (result : OpenAiBody) : ModelResponse :=
  let choice := result.choices.headD ⟨none, [], none⟩
  conclude host (choice.content.getD []) (choice.toolCalls.map (readCall host))
    (mapOpenAiFinishReason (choice.finishReason.getD (some "stop")))

/-! ### When a conclusion keeps what it was given -/

/-- With tool calls the answer keeps its text and calls. -/
theorem conclude_of_calls {host : Host} {content : List Char} {toolCalls : List ToolCall} {stop : StopReason}
    (h : toolCalls ≠ []) :
    conclude host content toolCalls stop = respond content toolCalls (if stop = .endTurn then .toolUse else stop) := by
  have hempty : toolCalls.isEmpty = false := by
    rw [List.isEmpty_eq_false_iff]
    exact h
  unfold conclude
  rw [hempty]
  simp

/-- Without tool calls and without any in the text the answer is the text. -/
theorem conclude_text {host : Host} {content : List Char} {stop : StopReason} (h : holdsXmlCalls host content = false) :
    conclude host content [] stop = respond content [] stop := by
  unfold conclude
  rw [h]
  rfl

/-- Tool calls in the text become the tool calls of the answer. -/
theorem conclude_xml {host : Host} {content : List Char} {stop : StopReason} (h : holdsXmlCalls host content = true) :
    (conclude host content [] stop).toolCalls ≠ none := by
  have hcalls : (extractXmlToolCalls host content).1 ≠ [] := by
    unfold holdsXmlCalls at h
    rw [Bool.and_eq_true, Bool.not_eq_true', List.isEmpty_eq_false_iff] at h
    exact h.2
  unfold conclude
  rw [h]
  intro hnone
  exact hcalls (orNone_inj.mp hnone)

end HpAgent.Models
