import HpAgent.Models.Responses
import Mathlib.Data.List.Forall2

/-! # Streamed model responses

The stream parsers of both formats, and how they compare with the parsers of complete answers.

* `parseAnthropicStream`, `parseOpenAiStream`: the lines of a stream, event by event.
* `AnthropicSent`, `OpenAiSent`: a message, and the events into which a provider cuts it.
* `parse_stream_agrees_iff`: when a stream gives what the complete message gives. -/

namespace HpAgent.Models

open Library

/-! ### Lines -/

/-- A line of a server-sent stream: blank or without data, with empty data, the end mark, no JSON, or an event. -/
inductive Line (ε : Type) where
  | skipped
  | empty
  | done
  | undecodable
  | event (e : ε)

def Line.event? {ε : Type} : Line ε → Option ε
  | .event e => some e
  | _ => none

/-! ### Anthropic events -/

inductive AnthropicEvent where
  | toolUseStart (id name : Option (List Char))
  | textDelta (text : Option (List Char))
  | inputJsonDelta (partialJson : List Char)
  | messageDelta (stopReason : Option (Option String))
  | other

structure StreamState where
  content : List Char
  toolCalls : List ToolCall
  stopReason : StopReason

/-- `arguments or {}`. -/
def argumentsOrEmpty (c : ToolCall) : ToolCall :=
  { c with arguments := if c.arguments.truthy then c.arguments else .obj [] }

/-- The loop of `_parse_anthropic_stream`. -/
def anthropicStep (s : StreamState) : AnthropicEvent → StreamState
  | .toolUseStart id name => { s with toolCalls := s.toolCalls ++ [⟨id.getD [], name.getD [], .obj []⟩] }
  | .textDelta text => { s with content := s.content ++ text.getD [] }
  | .inputJsonDelta _ => { s with toolCalls := s.toolCalls.modify (s.toolCalls.length - 1) argumentsOrEmpty }
  | .messageDelta stop => { s with stopReason := mapAnthropicStopReason (stop.getD (some "end")) }
  | .other => s

def finishStream (s : StreamState) : ModelResponse :=
  respond s.content s.toolCalls (if s.toolCalls.isEmpty then s.stopReason else .toolUse)

/-- `_parse_anthropic_stream`. -/
def parseAnthropicStream (lines : List (Line AnthropicEvent)) : ModelResponse :=
  finishStream ((lines.filterMap Line.event?).foldl anthropicStep ⟨[], [], .endTurn⟩)

/-! ### OpenAI events -/

/-- A fragment of a tool call. -/
structure Fragment where
  index : Option ℕ
  id : Option (List Char)
  function : Option FunctionPart

/-- A choice of a chunk. -/
structure ChunkChoice where
  content : Option (List Char)
  toolCalls : List Fragment
  finishReason : Option String

structure Chunk where
  choices : List ChunkChoice

def Chunk.choice (e : Chunk) : ChunkChoice := e.choices.headD ⟨none, [], none⟩

def Fragment.at (tc : Fragment) : ℕ := tc.index.getD 0

def emptyCall : ToolCall := ⟨[], [], .obj []⟩

/-- A function with a name or arguments. -/
def FunctionPart.truthy (f : FunctionPart) : Bool := f.name.isSome || f.arguments.isSome

def takeFunction (host : Host) (f : FunctionPart) (c : ToolCall) : ToolCall :=
  { c with name := f.name.getD [], arguments := (readArguments host f.arguments).getD c.arguments }

def takeId (id : Option (List Char)) (c : ToolCall) : ToolCall :=
  { c with id := if id.getD [] = [] then c.id else id.getD [] }

/-- What a fragment writes into its tool call. -/
def takeFragment (host : Host) (tc : Fragment) (c : ToolCall) : ToolCall :=
  match tc.function with
  | some f => if f.truthy then takeFunction host f (takeId tc.id c) else takeId tc.id c
  | none => takeId tc.id c

/-- A fragment: the list is filled up to its index. -/
def fragmentStep (host : Host) (toolCalls : List ToolCall) (tc : Fragment) : List ToolCall :=
  (toolCalls ++ List.replicate (tc.at + 1 - toolCalls.length) emptyCall).modify tc.at (takeFragment host tc)

/-- The loop of `_parse_openai_stream`. -/
def openAiStep (host : Host) (s : StreamState) (e : Chunk) : StreamState where
  content := s.content ++ e.choice.content.getD []
  toolCalls := e.choice.toolCalls.foldl (fragmentStep host) s.toolCalls
  stopReason :=
    match e.choice.finishReason with
    | some reason => if reason = "" ∨ reason = "stop" then s.stopReason else mapOpenAiFinishReason (some reason)
    | none => s.stopReason

def openAiLoop (host : Host) : List (Line Chunk) → StreamState → StreamState
  | [], s => s
  | .empty :: _, s => s
  | .done :: _, s => s
  | .skipped :: rest, s => openAiLoop host rest s
  | .undecodable :: rest, s => openAiLoop host rest s
  | .event e :: rest, s => openAiLoop host rest (openAiStep host s e)

/-- `_parse_openai_stream`. -/
def parseOpenAiStream (host : Host) (lines : List (Line Chunk)) : ModelResponse :=
  finishStream (openAiLoop host lines ⟨[], [], .endTurn⟩)

/-! ### Messages as an Anthropic stream carries them -/

/-- A block of a message, with the pieces into which its text or its arguments are cut. -/
inductive SentBlock where
  | text (pieces : List (List Char))
  | toolUse (id name : List Char) (input : Json) (pieces : List (List Char))

/-- The block in the complete message. -/
def SentBlock.block : SentBlock → Block
  | .text pieces => .text (some pieces.flatten)
  | .toolUse id name input _ => .toolUse (some id) (some name) (some input)

/-- The events of a block. -/
def SentBlock.events : SentBlock → List AnthropicEvent
  | .text pieces => pieces.map fun p => .textDelta (some p)
  | .toolUse id name _ pieces => .toolUseStart (some id) (some name) :: pieces.map .inputJsonDelta

/-- The pieces of arguments are the text of the arguments; no text stands for no arguments. -/
def SentBlock.Written (host : Host) : SentBlock → Prop
  | .text _ => True
  | .toolUse _ _ input pieces => host.loads pieces.flatten = some input ∨ pieces.flatten = [] ∧ input = .obj []

structure AnthropicMessage where
  blocks : List SentBlock
  stopReason : Option String

/-- The complete message. -/
def AnthropicMessage.body (m : AnthropicMessage) : AnthropicBody :=
  ⟨m.blocks.map SentBlock.block, some m.stopReason⟩

def SentBlock.texts : SentBlock → List (List Char)
  | .text pieces => [pieces.flatten]
  | .toolUse .. => []

def SentBlock.calls : SentBlock → List ToolCall
  | .text _ => []
  | .toolUse id name input _ => [⟨id, name, input⟩]

/-- The text blocks of the message. -/
def AnthropicMessage.texts (m : AnthropicMessage) : List (List Char) := m.blocks.flatMap SentBlock.texts

/-- The tool calls of the message. -/
def AnthropicMessage.calls (m : AnthropicMessage) : List ToolCall := m.blocks.flatMap SentBlock.calls

/-- Events that carry nothing of the message: its start and end, the ends of blocks, the starts of text blocks. -/
def AnthropicEvent.carries : AnthropicEvent → Bool
  | .other => false
  | _ => true

/-- The lines are a stream of the message. -/
structure AnthropicSent (host : Host) (m : AnthropicMessage) (lines : List (Line AnthropicEvent)) : Prop where
  written : ∀ b ∈ m.blocks, b.Written host
  events : (lines.filterMap Line.event?).filter AnthropicEvent.carries =
    m.blocks.flatMap SentBlock.events ++ [.messageDelta (some m.stopReason)]

/-! ### Messages as an OpenAI stream carries them -/

/-- A tool call, with the pieces into which the text of its arguments is cut. -/
structure SentCall where
  id : List Char
  name : List Char
  first : List Char
  rest : List (List Char)

/-- The text of the arguments. -/
def SentCall.arguments (c : SentCall) : List Char := c.first ++ c.rest.flatten

def SentCall.call (c : SentCall) : OpenAiCall := ⟨some c.id, ⟨some c.name, some (.text c.arguments)⟩⟩

/-- The fragments of a call: the first one names it. -/
def SentCall.fragments (i : ℕ) (c : SentCall) : List Fragment :=
  ⟨some i, some c.id, some ⟨some c.name, some (.text c.first)⟩⟩ ::
    c.rest.map fun p => ⟨some i, none, some ⟨none, some (.text p)⟩⟩

structure OpenAiMessage where
  content : List Char
  calls : List SentCall
  finishReason : String

/-- The complete message. -/
def OpenAiMessage.body (m : OpenAiMessage) : OpenAiBody :=
  ⟨[⟨some m.content, m.calls.map SentCall.call, some (some m.finishReason)⟩]⟩

/-- The line ends an OpenAI stream. -/
def Line.ends {ε : Type} : Line ε → Bool
  | .empty => true
  | .done => true
  | _ => false

/-- The choices of the chunks before the end of the stream. -/
def chunks (lines : List (Line Chunk)) : List ChunkChoice :=
  ((lines.takeWhile fun l => !l.ends).filterMap Line.event?).map Chunk.choice

/-- The lines are a stream of the message: the fragments of the calls can be mixed, each call's in their order. -/
structure OpenAiSent (m : OpenAiMessage) (lines : List (Line Chunk)) : Prop where
  content : (chunks lines).flatMap (fun c => c.content.getD []) = m.content
  fragments : ∀ i, ((chunks lines).flatMap ChunkChoice.toolCalls).filter (fun tc => tc.at = i) =
    (m.calls[i]?.map (SentCall.fragments i)).getD []
  finish : (chunks lines).filterMap ChunkChoice.finishReason = [m.finishReason]

/-! ### Any message -/

/-- A complete message of one of the two formats, and its stream. -/
inductive Exchange where
  | anthropic (m : AnthropicMessage) (lines : List (Line AnthropicEvent))
  | openAi (m : OpenAiMessage) (lines : List (Line Chunk))

namespace Exchange

/-- `_parse_non_stream` on the complete message. -/
def parseNonStream (host : Host) : Exchange → ModelResponse
  | .anthropic m _ => parseAnthropicResponse host m.body
  | .openAi m _ => parseOpenAiResponse host m.body

/-- `_parse_stream`. -/
def parseStream (host : Host) : Exchange → ModelResponse
  | .anthropic _ lines => parseAnthropicStream lines
  | .openAi _ lines => parseOpenAiStream host lines

/-- The concatenation of the texts of the message. -/
def text : Exchange → List Char
  | .anthropic m _ => m.texts.flatten
  | .openAi m _ => m.content

/-- The stream is one of the message. -/
def Sent (host : Host) : Exchange → Prop
  | .anthropic m lines => AnthropicSent host m lines
  | .openAi m lines => OpenAiSent m lines

/-- Both parsers give the same answer, with the whole text. -/
def Agrees (host : Host) (x : Exchange) : Prop :=
  x.parseStream host = x.parseNonStream host ∧ (x.parseNonStream host).content = orNone x.text

end Exchange

/-- The value of the last piece that is JSON by itself. -/
def lastValue (host : Host) (pieces : List (List Char)) : Json :=
  ((pieces.filterMap host.loads).getLast?).getD (.obj [])

/-- The fragments of the call leave its name and its arguments. -/
def SentCall.Survives (host : Host) (c : SentCall) : Prop :=
  (c.rest = [] ∨ c.name = []) ∧ lastValue host (c.first :: c.rest) = (host.loads c.arguments).getD (.obj [])

/-- The messages on which the two parsers agree. -/
def Exchange.Plain (host : Host) : Exchange → Prop
  | .anthropic m _ =>
      (∀ t ∈ m.texts.dropLast, t = []) ∧ (∀ c ∈ m.calls, c.arguments = .obj []) ∧
        (m.calls ≠ [] → mapAnthropicStopReason m.stopReason = .endTurn ∨ mapAnthropicStopReason m.stopReason = .toolUse) ∧
        (m.calls = [] → holdsXmlCalls host (m.texts.getLast?.getD []) = false)
  | .openAi m _ =>
      (∀ c ∈ m.calls, c.Survives host) ∧
        (m.calls ≠ [] → mapOpenAiFinishReason (some m.finishReason) = .endTurn ∨
          mapOpenAiFinishReason (some m.finishReason) = .toolUse) ∧
        (m.calls = [] → m.finishReason ≠ "" ∧ holdsXmlCalls host m.content = false)

/-! ### What an Anthropic stream gives -/

/-- A call as an Anthropic stream leaves it. -/
def ToolCall.bare (c : ToolCall) : ToolCall := { c with arguments := .obj [] }

theorem foldl_carries (events : List AnthropicEvent) (s : StreamState) :
    (events.filter AnthropicEvent.carries).foldl anthropicStep s = events.foldl anthropicStep s := by
  induction events generalizing s with
  | nil => rfl
  | cons e rest ih =>
      rw [List.filter_cons]
      cases e with
      | other => exact ih s
      | toolUseStart id name => exact ih _
      | textDelta text => exact ih _
      | inputJsonDelta piece => exact ih _
      | messageDelta stop => exact ih _

theorem foldl_textDelta (pieces : List (List Char)) (s : StreamState) :
    (pieces.map fun p => AnthropicEvent.textDelta (some p)).foldl anthropicStep s =
      { s with content := s.content ++ pieces.flatten } := by
  induction pieces generalizing s with
  | nil => simp
  | cons p rest ih =>
      rw [List.map_cons, List.foldl_cons, ih]
      simp [anthropicStep]

/-- Pieces of arguments leave empty arguments empty. -/
theorem foldl_inputJsonDelta (pieces : List (List Char)) {s : StreamState} {cs : List ToolCall} {c : ToolCall}
    (h : s.toolCalls = cs ++ [c.bare]) : (pieces.map AnthropicEvent.inputJsonDelta).foldl anthropicStep s = s := by
  have hstep : ∀ p, anthropicStep s (.inputJsonDelta p) = s := by
    intro p
    have hlast : (s.toolCalls.modify (s.toolCalls.length - 1) argumentsOrEmpty) = s.toolCalls := by
      rw [h, List.modify_eq_set_getElem?]
      simp [ToolCall.bare, argumentsOrEmpty, Json.truthy]
    show { s with toolCalls := s.toolCalls.modify (s.toolCalls.length - 1) argumentsOrEmpty } = s
    rw [hlast]
  induction pieces with
  | nil => rfl
  | cons p rest ih =>
      rw [List.map_cons, List.foldl_cons, hstep]
      exact ih

theorem foldl_block (b : SentBlock) (s : StreamState) :
    b.events.foldl anthropicStep s =
      { s with content := s.content ++ b.texts.flatten, toolCalls := s.toolCalls ++ b.calls.map ToolCall.bare } := by
  cases b with
  | text pieces =>
      rw [SentBlock.events, foldl_textDelta]
      simp [SentBlock.texts, SentBlock.calls]
  | toolUse id name input pieces =>
      rw [SentBlock.events, List.foldl_cons, @foldl_inputJsonDelta pieces _ s.toolCalls ⟨id, name, input⟩ rfl]
      simp [SentBlock.texts, SentBlock.calls, anthropicStep, ToolCall.bare]

theorem foldl_blocks (blocks : List SentBlock) (s : StreamState) :
    (blocks.flatMap SentBlock.events).foldl anthropicStep s =
      { s with
        content := s.content ++ (blocks.flatMap SentBlock.texts).flatten
        toolCalls := s.toolCalls ++ (blocks.flatMap SentBlock.calls).map ToolCall.bare } := by
  induction blocks generalizing s with
  | nil => simp
  | cons b rest ih =>
      rw [List.flatMap_cons, List.foldl_append, foldl_block, ih]
      simp

/-- An Anthropic stream gives the whole text, the calls without their arguments, and their presence as the reason. -/
theorem parseAnthropicStream_eq {host : Host} {m : AnthropicMessage} {lines : List (Line AnthropicEvent)}
    (h : AnthropicSent host m lines) :
    parseAnthropicStream lines = respond m.texts.flatten (m.calls.map ToolCall.bare)
      (if m.calls.isEmpty then mapAnthropicStopReason m.stopReason else .toolUse) := by
  unfold parseAnthropicStream
  rw [← foldl_carries, h.events, List.foldl_append, foldl_blocks]
  simp [finishStream, anthropicStep, AnthropicMessage.texts, AnthropicMessage.calls]

/-! ### What an Anthropic message gives -/

theorem foldl_readBlock (blocks : List SentBlock) (s : List Char × List ToolCall) :
    (blocks.map SentBlock.block).foldl readBlock s =
      ((blocks.flatMap SentBlock.texts).getLast?.getD s.1, s.2 ++ blocks.flatMap SentBlock.calls) := by
  induction blocks generalizing s with
  | nil => simp
  | cons b rest ih =>
      rw [List.map_cons, List.foldl_cons, ih]
      cases b with
      | text pieces =>
          simp only [SentBlock.block, readBlock, SentBlock.texts, SentBlock.calls, List.flatMap_cons, List.nil_append,
            Option.getD_some, List.singleton_append, Prod.mk.injEq, and_true]
          rw [List.getLast?_cons]
          cases (rest.flatMap SentBlock.texts).getLast? <;> rfl
      | toolUse id name input pieces =>
          simp [SentBlock.block, readBlock, SentBlock.texts, SentBlock.calls]

/-- A complete Anthropic message gives its last text and its calls. -/
theorem parseAnthropicResponse_eq (host : Host) (m : AnthropicMessage) :
    parseAnthropicResponse host m.body =
      conclude host (m.texts.getLast?.getD []) m.calls (mapAnthropicStopReason m.stopReason) := by
  unfold parseAnthropicResponse AnthropicMessage.body
  rw [foldl_readBlock]
  rfl

/-! ### What an OpenAI stream gives -/

theorem openAiLoop_eq (host : Host) (lines : List (Line Chunk)) (s : StreamState) :
    openAiLoop host lines s =
      ((lines.takeWhile fun l => !l.ends).filterMap Line.event?).foldl (openAiStep host) s := by
  induction lines generalizing s with
  | nil => rfl
  | cons l rest ih =>
      cases l with
      | skipped => exact ih s
      | empty => rfl
      | done => rfl
      | undecodable => exact ih s
      | event e => exact ih _

/-- What a finish reason makes of the reason so far. -/
def stopStep (stop : StopReason) (reason : String) : StopReason :=
  if reason = "" ∨ reason = "stop" then stop else mapOpenAiFinishReason (some reason)

/-- The three parts of the state go their own ways. -/
theorem foldl_openAiStep (host : Host) (events : List Chunk) (s : StreamState) :
    events.foldl (openAiStep host) s =
      { content := s.content ++ (events.map Chunk.choice).flatMap fun c => c.content.getD []
        toolCalls := ((events.map Chunk.choice).flatMap ChunkChoice.toolCalls).foldl (fragmentStep host) s.toolCalls
        stopReason := ((events.map Chunk.choice).filterMap ChunkChoice.finishReason).foldl stopStep s.stopReason } := by
  induction events generalizing s with
  | nil => simp
  | cons e rest ih =>
      rw [List.foldl_cons, ih]
      unfold openAiStep
      cases hreason : e.choice.finishReason with
      | none => simp [hreason]
      | some reason => simp [hreason, stopStep]

/-- The call of an index, as padding would leave it where there is none. -/
def callAt (toolCalls : List ToolCall) (i : ℕ) : ToolCall := toolCalls[i]?.getD emptyCall

@[simp] theorem length_fragmentStep (host : Host) (toolCalls : List ToolCall) (tc : Fragment) :
    (fragmentStep host toolCalls tc).length = max toolCalls.length (tc.at + 1) := by
  unfold fragmentStep
  simp
  omega

/-- A fragment changes the call of its index alone. -/
theorem callAt_fragmentStep (host : Host) (toolCalls : List ToolCall) (tc : Fragment) (i : ℕ) :
    callAt (fragmentStep host toolCalls tc) i =
      if tc.at = i then takeFragment host tc (callAt toolCalls i) else callAt toolCalls i := by
  have hpad : ∀ n, (toolCalls ++ List.replicate n emptyCall)[i]?.getD emptyCall = callAt toolCalls i := by
    intro n
    unfold callAt
    rw [List.getElem?_append]
    split_ifs with hlt
    · rfl
    · have hnone : toolCalls[i]? = none := List.getElem?_eq_none (by omega)
      rw [hnone, List.getElem?_replicate]
      split_ifs <;> rfl
  have hcall := hpad (tc.at + 1 - toolCalls.length)
  show ((toolCalls ++ List.replicate (tc.at + 1 - toolCalls.length) emptyCall).modify tc.at
    (takeFragment host tc))[i]?.getD emptyCall = _
  rw [List.getElem?_modify, ← hcall]
  cases hpadded : (toolCalls ++ List.replicate (tc.at + 1 - toolCalls.length) emptyCall)[i]? with
  | some c => rfl
  | none =>
      have hlength := List.getElem?_eq_none_iff.mp hpadded
      have hne : tc.at ≠ i := by
        intro heq
        simp only [List.length_append, List.length_replicate] at hlength
        omega
      rw [if_neg hne]
      rfl

theorem callAt_foldl (host : Host) (fragments : List Fragment) (toolCalls : List ToolCall) (i : ℕ) :
    callAt (fragments.foldl (fragmentStep host) toolCalls) i =
      (fragments.filter fun tc => tc.at = i).foldl (fun c tc => takeFragment host tc c) (callAt toolCalls i) := by
  induction fragments generalizing toolCalls with
  | nil => rfl
  | cons tc rest ih =>
      rw [List.foldl_cons, ih, callAt_fragmentStep]
      by_cases h : tc.at = i
      · rw [if_pos h, List.filter_cons_of_pos (by simpa using h), List.foldl_cons]
      · rw [if_neg h, List.filter_cons_of_neg (by simpa using h)]

theorem length_le_foldl (host : Host) (fragments : List Fragment) (toolCalls : List ToolCall) :
    toolCalls.length ≤ (fragments.foldl (fragmentStep host) toolCalls).length := by
  induction fragments generalizing toolCalls with
  | nil => exact Nat.le_refl _
  | cons tc rest ih =>
      have hstep := length_fragmentStep host toolCalls tc
      have hrest := ih (fragmentStep host toolCalls tc)
      rw [List.foldl_cons]
      omega

theorem at_lt_length_foldl (host : Host) {fragments : List Fragment} {tc : Fragment} (h : tc ∈ fragments)
    (toolCalls : List ToolCall) : tc.at < (fragments.foldl (fragmentStep host) toolCalls).length := by
  induction fragments generalizing toolCalls with
  | nil => exact absurd h List.not_mem_nil
  | cons head rest ih =>
      rw [List.foldl_cons]
      cases List.mem_cons.mp h with
      | inl heq =>
          have hstep := length_fragmentStep host toolCalls head
          have hrest := length_le_foldl host rest (fragmentStep host toolCalls head)
          rw [heq]
          omega
      | inr hrest => exact ih hrest _

theorem length_foldl_le (host : Host) {fragments : List Fragment} {n : ℕ} (h : ∀ tc ∈ fragments, tc.at < n)
    {toolCalls : List ToolCall} (hle : toolCalls.length ≤ n) :
    (fragments.foldl (fragmentStep host) toolCalls).length ≤ n := by
  induction fragments generalizing toolCalls with
  | nil => exact hle
  | cons tc rest ih =>
      rw [List.foldl_cons]
      apply ih fun tc' hmem => h tc' (List.mem_cons_of_mem _ hmem)
      have hhead := h tc List.mem_cons_self
      rw [length_fragmentStep]
      omega

/-- A call as an OpenAI stream leaves it: a second fragment takes its name away. -/
def SentCall.streamed (host : Host) (c : SentCall) : ToolCall :=
  ⟨c.id, if c.rest = [] then c.name else [], lastValue host (c.first :: c.rest)⟩

theorem takeFragment_later (host : Host) (i : ℕ) (p : List Char) (c : ToolCall) :
    takeFragment host ⟨some i, none, some ⟨none, some (.text p)⟩⟩ c =
      { c with name := [], arguments := (host.loads p).getD c.arguments } := rfl

theorem takeFragment_first (host : Host) (i : ℕ) (c : SentCall) :
    takeFragment host ⟨some i, some c.id, some ⟨some c.name, some (.text c.first)⟩⟩ emptyCall =
      ⟨c.id, c.name, (host.loads c.first).getD (.obj [])⟩ := by
  have hid : (takeId (some c.id) emptyCall).id = c.id := by
    by_cases hnil : c.id = [] <;> simp [takeId, emptyCall, hnil]
  show (⟨(takeId (some c.id) emptyCall).id, c.name, (host.loads c.first).getD (.obj [])⟩ : ToolCall) = _
  rw [hid]

theorem foldl_later (host : Host) (i : ℕ) (pieces : List (List Char)) (c : ToolCall) :
    (pieces.map fun p => (⟨some i, none, some ⟨none, some (.text p)⟩⟩ : Fragment)).foldl
        (fun c tc => takeFragment host tc c) c =
      ⟨c.id, if pieces = [] then c.name else [], ((pieces.filterMap host.loads).getLast?).getD c.arguments⟩ := by
  induction pieces generalizing c with
  | nil => rfl
  | cons p rest ih =>
      rw [List.map_cons, List.foldl_cons, ih, takeFragment_later, List.filterMap_cons]
      cases host.loads p with
      | none => simp
      | some value =>
          rw [List.getLast?_cons]
          cases (rest.filterMap host.loads).getLast? <;> simp

theorem foldl_fragments (host : Host) (i : ℕ) (c : SentCall) :
    (c.fragments i).foldl (fun c tc => takeFragment host tc c) emptyCall = c.streamed host := by
  unfold SentCall.fragments
  rw [List.foldl_cons, takeFragment_first, foldl_later]
  unfold SentCall.streamed lastValue
  rw [List.filterMap_cons]
  cases host.loads c.first with
  | none => rfl
  | some value =>
      rw [List.getLast?_cons]
      cases (c.rest.filterMap host.loads).getLast? <;> rfl

/-- The fragments of a stream give each call of the message as its own fragments leave it. -/
theorem foldl_sent (host : Host) {m : OpenAiMessage} {fragments : List Fragment}
    (h : ∀ i, (fragments.filter fun tc => tc.at = i) = (m.calls[i]?.map (SentCall.fragments i)).getD []) :
    fragments.foldl (fragmentStep host) [] = m.calls.map (SentCall.streamed host) := by
  have hbound : ∀ tc ∈ fragments, tc.at < m.calls.length := by
    intro tc hmem
    have hfilter : tc ∈ fragments.filter fun tc' => tc'.at = tc.at := List.mem_filter.mpr ⟨hmem, by simp⟩
    rw [h tc.at] at hfilter
    by_contra hge
    rw [List.getElem?_eq_none (by omega)] at hfilter
    exact absurd hfilter List.not_mem_nil
  have hlength : (fragments.foldl (fragmentStep host) []).length = m.calls.length := by
    apply Nat.le_antisymm
    · exact length_foldl_le host hbound (Nat.zero_le _)
    · by_contra hlt
      have hi : (fragments.foldl (fragmentStep host) []).length < m.calls.length := by omega
      have hfilter := h (fragments.foldl (fragmentStep host) []).length
      rw [List.getElem?_eq_getElem hi] at hfilter
      obtain ⟨tc, hmem⟩ : ∃ tc, tc ∈ fragments.filter
          fun tc => tc.at = (fragments.foldl (fragmentStep host) []).length := by
        rw [hfilter]
        exact ⟨_, List.mem_cons_self⟩
      have hmem' := List.mem_filter.mp hmem
      have hat : tc.at = (fragments.foldl (fragmentStep host) []).length := by simpa using hmem'.2
      have := at_lt_length_foldl host hmem'.1 []
      omega
  apply List.ext_getElem?
  intro i
  by_cases hi : i < m.calls.length
  · have hcall := callAt_foldl host fragments [] i
    rw [h i] at hcall
    unfold callAt at hcall
    rw [List.getElem?_eq_getElem (by omega)] at hcall ⊢
    rw [List.getElem?_map, List.getElem?_eq_getElem hi] at *
    simp only [Option.map_some, Option.getD_some, List.getElem?_nil, Option.getD_none] at hcall
    rw [hcall, foldl_fragments]
    rfl
  · rw [List.getElem?_eq_none (by omega), List.getElem?_eq_none (by simp; omega)]

/-- An OpenAI stream gives the whole text and each call as its own fragments leave it. -/
theorem parseOpenAiStream_eq {host : Host} {m : OpenAiMessage} {lines : List (Line Chunk)} (h : OpenAiSent m lines) :
    parseOpenAiStream host lines = respond m.content (m.calls.map (SentCall.streamed host))
      (if m.calls.isEmpty then stopStep .endTurn m.finishReason else .toolUse) := by
  have hcontent := h.content
  have hfragments := foldl_sent host h.fragments
  have hfinish := h.finish
  unfold parseOpenAiStream
  unfold chunks at hcontent hfragments hfinish
  rw [openAiLoop_eq, foldl_openAiStep, hcontent, hfragments, hfinish]
  simp [finishStream]

/-- A complete OpenAI message gives its text and its calls. -/
theorem parseOpenAiResponse_eq (host : Host) (m : OpenAiMessage) :
    parseOpenAiResponse host m.body =
      conclude host m.content (m.calls.map fun c => ⟨c.id, c.name, (host.loads c.arguments).getD (.obj [])⟩)
        (mapOpenAiFinishReason (some m.finishReason)) := by
  show conclude host m.content ((m.calls.map SentCall.call).map (readCall host)) _ = _
  rw [List.map_map]
  rfl

/-! ### Agreement -/

/-- A streamed answer is the one of the complete message, with the whole text. -/
theorem respond_eq_conclude {host : Host} {text last : List Char} {streamed calls : List ToolCall} {p q : StopReason}
    (hnil : streamed = [] ↔ calls = []) :
    (respond text streamed (if calls.isEmpty then p else .toolUse) = conclude host last calls q ∧
      (conclude host last calls q).content = orNone text) ↔
    last = text ∧ streamed = calls ∧ (calls ≠ [] → q = .endTurn ∨ q = .toolUse) ∧
      (calls = [] → p = q ∧ holdsXmlCalls host last = false) := by
  by_cases hcalls : calls = []
  · have hstreamed := hnil.mpr hcalls
    subst hcalls hstreamed
    cases hxml : holdsXmlCalls host last with
    | true =>
        constructor
        · intro h
          apply absurd _ (@conclude_xml host last q hxml)
          rw [← h.1]
          rfl
        · intro h
          exact absurd (h.2.2.2 rfl).2 (by simp)
    | false =>
        rw [conclude_text hxml, respond_inj]
        show ((text = last ∧ _ ∧ p = q) ∧ orNone last = orNone text) ↔ _
        rw [orNone_inj]
        constructor
        · intro h
          exact ⟨h.2, rfl, fun hne => absurd rfl hne, fun _ => ⟨h.1.2.2, rfl⟩⟩
        · intro h
          exact ⟨⟨h.1.symm, rfl, (h.2.2.2 rfl).1⟩, h.1⟩
  · have hempty : calls.isEmpty = false := by
      rw [List.isEmpty_eq_false_iff]
      exact hcalls
    rw [conclude_of_calls hcalls, respond_inj, hempty]
    show ((text = last ∧ streamed = calls ∧ StopReason.toolUse = _) ∧ orNone last = orNone text) ↔ _
    rw [orNone_inj]
    have hstop : StopReason.toolUse = (if q = .endTurn then .toolUse else q) ↔ q = .endTurn ∨ q = .toolUse := by
      cases q <;> decide
    rw [hstop]
    constructor
    · intro h
      exact ⟨h.2, h.1.2.1, fun _ => h.1.2.2, fun heq => absurd heq hcalls⟩
    · intro h
      exact ⟨⟨h.1.symm, h.2.1, h.2.2.1 hcalls⟩, h.1⟩

/-- The last text is the whole text when the others are empty. -/
theorem getLast_eq_flatten {α : Type} (texts : List (List α)) :
    texts.getLast?.getD [] = texts.flatten ↔ ∀ t ∈ texts.dropLast, t = [] := by
  induction texts using List.reverseRecOn with
  | nil => simp
  | append_singleton init last _ =>
      rw [List.getLast?_concat, List.dropLast_concat, List.flatten_append, List.flatten_singleton, Option.getD_some,
        List.self_eq_append_left, List.flatten_eq_nil_iff]

theorem map_bare_eq (calls : List ToolCall) :
    calls.map ToolCall.bare = calls ↔ ∀ c ∈ calls, c.arguments = .obj [] := by
  have hid : calls.map ToolCall.bare = calls.map id ↔ ∀ c ∈ calls, c.bare = id c := List.map_inj_left
  rw [List.map_id] at hid
  rw [hid]
  constructor
  · intro h c hc
    exact (congrArg ToolCall.arguments (h c hc)).symm
  · intro h c hc
    show { c with arguments := .obj [] } = c
    rw [← h c hc]

theorem anthropic_agrees_iff {host : Host} {m : AnthropicMessage} {lines : List (Line AnthropicEvent)}
    (h : AnthropicSent host m lines) :
    (Exchange.anthropic m lines).Agrees host ↔ (Exchange.anthropic m lines).Plain host := by
  show (parseAnthropicStream lines = parseAnthropicResponse host m.body ∧
    (parseAnthropicResponse host m.body).content = orNone m.texts.flatten) ↔ _
  rw [parseAnthropicStream_eq h, parseAnthropicResponse_eq, respond_eq_conclude List.map_eq_nil_iff, getLast_eq_flatten,
    map_bare_eq]
  unfold Exchange.Plain
  simp only [true_and]

/-- Without tool calls an OpenAI stream keeps every reason but the empty one. -/
theorem stopStep_eq (reason : String) :
    stopStep .endTurn reason = mapOpenAiFinishReason (some reason) ↔ reason ≠ "" := by
  unfold stopStep
  by_cases hempty : reason = ""
  · subst hempty
    decide
  · by_cases hstop : reason = "stop"
    · subst hstop
      decide
    · rw [if_neg (not_or.mpr ⟨hempty, hstop⟩)]
      exact ⟨fun _ => hempty, fun _ => rfl⟩

theorem streamed_eq (host : Host) (c : SentCall) :
    c.streamed host = ⟨c.id, c.name, (host.loads c.arguments).getD (.obj [])⟩ ↔ c.Survives host := by
  unfold SentCall.streamed SentCall.Survives
  rw [ToolCall.mk.injEq]
  have hname : (if c.rest = [] then c.name else []) = c.name ↔ c.rest = [] ∨ c.name = [] := by
    by_cases hrest : c.rest = []
    · simp [hrest]
    · simp [hrest, eq_comm]
  rw [hname]
  simp

theorem openAi_agrees_iff {host : Host} {m : OpenAiMessage} {lines : List (Line Chunk)} (h : OpenAiSent m lines) :
    (Exchange.openAi m lines).Agrees host ↔ (Exchange.openAi m lines).Plain host := by
  show (parseOpenAiStream host lines = parseOpenAiResponse host m.body ∧
    (parseOpenAiResponse host m.body).content = orNone m.content) ↔ _
  have hempty : m.calls.isEmpty =
      (m.calls.map fun c => (⟨c.id, c.name, (host.loads c.arguments).getD (.obj [])⟩ : ToolCall)).isEmpty := by
    rw [List.isEmpty_map]
  rw [parseOpenAiStream_eq h, parseOpenAiResponse_eq, hempty, respond_eq_conclude (by simp), List.map_inj_left,
    stopStep_eq, List.map_eq_nil_iff]
  unfold Exchange.Plain
  simp only [streamed_eq, true_and, ne_eq, List.map_eq_nil_iff]

/-- A stream gives the answer of the complete message exactly when the message is plain: no text is overwritten, no
arguments and no name are lost, and neither the stop reason nor calls in the text are read in the complete message
only. -/
theorem parse_stream_agrees_iff (host : Host) (x : Exchange) (h : x.Sent host) : x.Agrees host ↔ x.Plain host := by
  cases x with
  | anthropic m lines => exact anthropic_agrees_iff h
  | openAi m lines => exact openAi_agrees_iff h

/-- `json.loads` and `\\w` on the texts of the two exchanges below. -/
def sampleHost : Host where
  loads text :=
    if text = ['{', '}'] then some (.obj [])
    else if text = ['{', '"', 'a', '"', ':', '1', '}'] then some (.obj [(['a'], .int 1)])
    else none
  word c := c.isAlphanum || c == '_'

/-- A call without arguments in a single fragment. -/
def plainExchange : Exchange :=
  .openAi ⟨['o', 'k'], [⟨['c'], ['f'], ['{', '}'], []⟩], "tool_calls"⟩
    [.skipped, .event ⟨[⟨some ['o'], [], none⟩]⟩,
      .event ⟨[⟨some ['k'], [⟨some 0, some ['c'], some ⟨some ['f'], some (.text ['{', '}'])⟩⟩], none⟩]⟩,
      .event ⟨[⟨none, [], some "tool_calls"⟩]⟩, .done]

theorem plainExchange_sent : plainExchange.Sent sampleHost where
  content := by decide
  fragments i := by
    cases i with
    | zero => rfl
    | succ n => rfl
  finish := by decide

theorem parse_stream_agrees_iff_plain : plainExchange.Agrees sampleHost := by
  apply (parse_stream_agrees_iff sampleHost plainExchange plainExchange_sent).mpr
  refine ⟨?_, fun _ => .inr (by decide), fun h => absurd h (by simp)⟩
  intro c hc
  rw [List.mem_singleton.mp hc]
  exact ⟨.inl rfl, rfl⟩

/-- A call with arguments, after a text. -/
def calledExchange : Exchange :=
  .anthropic ⟨[.text [['H'], ['i']], .toolUse ['t'] ['f'] (.obj [(['a'], .int 1)]) [['{', '"', 'a', '"'], [':', '1', '}']]],
      some "tool_use"⟩
    [.event .other, .event (.textDelta (some ['H'])), .event (.textDelta (some ['i'])), .skipped, .event .other,
      .event (.toolUseStart (some ['t']) (some ['f'])), .event (.inputJsonDelta ['{', '"', 'a', '"']),
      .event (.inputJsonDelta [':', '1', '}']), .event .other, .event (.messageDelta (some (some "tool_use"))),
      .event .other]

theorem calledExchange_sent : calledExchange.Sent sampleHost where
  written := by
    intro b hb
    cases List.mem_cons.mp hb with
    | inl htext =>
        rw [htext]
        exact trivial
    | inr hcall =>
        rw [List.mem_singleton.mp hcall]
        exact .inl rfl
  events := rfl

/-- The streamed call has lost its arguments. -/
theorem not_stream_agrees : ¬ ∀ x : Exchange, x.Sent sampleHost → x.Agrees sampleHost := by
  intro hall
  have hplain := (anthropic_agrees_iff calledExchange_sent).mp (hall calledExchange calledExchange_sent)
  have harguments := hplain.2.1 ⟨['t'], ['f'], .obj [(['a'], .int 1)]⟩ (by simp [AnthropicMessage.calls, SentBlock.calls])
  simp at harguments

end HpAgent.Models
