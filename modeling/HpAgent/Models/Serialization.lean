import HpAgent.Library.Outcomes
import HpAgent.Library.Stretches
import HpAgent.Models.Protocol

/-! # What serialization keeps

A transcript that `openai_messages` takes is cut into rounds: a message, and the results of its calls.  The same messages
are then joined by speaker for the other provider.

* `RoundTrips`: every call is answered once, before the next message.
* `Replied`: every block that uses a tool is answered once, at the start of the next message.
* `Voiced`: in every run of messages of the assistant something is said.
* `messages_serialized`: the rounds, reading the own output, and what the joined messages keep; they are well formed
  exactly for the transcripts that are voiced and in which only the assistant uses tools.
* `silent_turn`: a transcript that is not. -/

namespace HpAgent.Models

open Library Library.Outcome

variable {blocks : List ContentBlock} {s s' : Serialized} {w : WireMessage} {ws : List WireMessage} {m : MessageDict}
  {wss : List (List WireMessage)} {dicts : List MessageDict} {speaker : String}

/-! ### Reading values -/

/-- The objects that a program holds: they can be written and read back. -/
structure Host.Decodes (host : Host) (value : List (List Char × Json) → Prop) : Prop where
  empty : value []
  read : ∀ {text fields}, host.loads text = some (.obj fields) → value fields
  again : ∀ {text fields}, value fields → encode (.obj fields) = some text → host.loads text = some (.obj fields)

/-- The arguments of a call are such an object, where they are an object. -/
structure CallDict.Valued (value : List (List Char × Json) → Prop) (c : CallDict) : Prop where
  arguments : ∀ fields, c.arguments = some (.obj fields) → value fields
  input : ∀ fields, c.input = some (.obj fields) → value fields
  function : ∀ f fields, c.function = some (some f) → f.arguments = some (.obj fields) → value fields

/-- So are those of all calls of a message. -/
structure MessageDict.Valued (value : List (List Char × Json) → Prop) (m : MessageDict) : Prop where
  calls : ∀ items, m.toolCalls = .items items → ∀ c, some c ∈ items → c.Valued value
  blocks : ∀ blocks, m.content = some (.blocks blocks) → ∀ b, .dict b ∈ blocks → b.asCall.Valued value

/-! ### Calls -/

variable {host : Host} {value : List (List Char × Json) → Prop}

/-- A serialized call as it is read. -/
def WireToolCall.dict (c : WireToolCall) : CallDict :=
  ⟨some (.str c.id), none, none, none, some (some ⟨some (.str c.name), some (.str c.arguments)⟩)⟩

/-- A call that was serialized. -/
structure WireToolCall.Written (value : List (List Char × Json) → Prop) (c : WireToolCall) : Prop where
  id : c.id ≠ []
  name : c.name ≠ []
  arguments : ∃ fields, value fields ∧ encode (.obj fields) = some c.arguments

theorem checkCall_ok {arguments : Json} {id name : Option Json} {c : WireToolCall} (h : checkCall arguments id name = .ok c) :
    ∃ fields, arguments = .obj fields ∧ c.id ≠ [] ∧ c.name ≠ [] ∧ encode (.obj fields) = some c.arguments := by
  unfold checkCall at h
  split at h
  · next fields i n =>
      split at h
      · cases h
      · next hne =>
          split at h
          · next text htext =>
              obtain rfl := Except.ok.inj h
              obtain ⟨hid, hname⟩ := not_or.mp hne
              exact ⟨fields, rfl, hid, hname, htext⟩
          · cases h
  · cases h

theorem callArguments_ok (hdecodes : host.Decodes value) {arguments : Json} {fields : List (List Char × Json)}
    (hvalue : ∀ fields, arguments = .obj fields → value fields) (h : callArguments host arguments = .ok (.obj fields)) :
    value fields := by
  unfold callArguments at h
  split at h
  · split at h
    · next hloads =>
        obtain rfl := Except.ok.inj h
        exact hdecodes.read hloads
    · cases h
  · exact hvalue fields (Except.ok.inj h)

/-- The steps of `_call`. -/
theorem call_ok {c : CallDict} {w : WireToolCall} (h : call host c = .ok w) :
    ∃ function arguments, (c.function = none ∧ function = ⟨c.name, c.arguments⟩ ∨ c.function = some (some function)) ∧
      callArguments host (function.arguments.getD (c.input.getD (.obj []))) = .ok arguments ∧
      checkCall arguments c.id function.name = .ok w := by
  unfold call at h
  cases hfunction : c.function with
  | none =>
      rw [hfunction] at h
      obtain ⟨function, hread, h⟩ := bind_ok.mp h
      obtain rfl := Except.ok.inj hread
      obtain ⟨arguments, harguments, hcheck⟩ := bind_ok.mp h
      exact ⟨_, arguments, .inl ⟨rfl, rfl⟩, harguments, hcheck⟩
  | some function =>
      rw [hfunction] at h
      cases function with
      | none => cases h
      | some function =>
          obtain ⟨read, hread, h⟩ := bind_ok.mp h
          obtain rfl := Except.ok.inj hread
          obtain ⟨arguments, harguments, hcheck⟩ := bind_ok.mp h
          exact ⟨_, arguments, .inr rfl, harguments, hcheck⟩

/-- What `_call` returns is written. -/
theorem call_written (hdecodes : host.Decodes value) {c : CallDict} (hvalue : c.Valued value) {w : WireToolCall}
    (h : call host c = .ok w) : w.Written value := by
  obtain ⟨function, arguments, hfunction, harguments, hcheck⟩ := call_ok h
  obtain ⟨fields, rfl, hid, hname, htext⟩ := checkCall_ok hcheck
  refine ⟨hid, hname, fields, callArguments_ok hdecodes ?_ harguments, htext⟩
  intro object hobject
  cases hgiven : function.arguments with
  | some given =>
      rw [hgiven, Option.getD_some] at hobject
      subst hobject
      obtain ⟨-, rfl⟩ | hdict := hfunction
      · exact hvalue.arguments object hgiven
      · exact hvalue.function function object hdict hgiven
  | none =>
      rw [hgiven, Option.getD_none] at hobject
      cases hinput : c.input with
      | some given =>
          rw [hinput, Option.getD_some] at hobject
          exact hvalue.input object (by rw [hinput, hobject])
      | none =>
          rw [hinput, Option.getD_none] at hobject
          obtain rfl := Json.obj.inj hobject
          exact hdecodes.empty

/-- **A written call is read as it is.** -/
theorem call_again (hdecodes : host.Decodes value) {c : WireToolCall} (h : c.Written value) : call host c.dict = .ok c := by
  obtain ⟨fields, hvalue, htext⟩ := h.arguments
  have hnone : ¬ (c.id = [] ∨ c.name = []) := not_or.mpr ⟨h.id, h.name⟩
  have hread : callArguments host (.str c.arguments) = .ok (.obj fields) := by
    simp only [callArguments, hdecodes.again hvalue htext]
  show (callArguments host (.str c.arguments) >>= fun arguments =>
    checkCall arguments (some (.str c.id)) (some (.str c.name))) = _
  rw [hread]
  show checkCall (.obj fields) (some (.str c.id)) (some (.str c.name)) = _
  simp only [checkCall]
  rw [if_neg hnone, htext]

/-! ### Messages of the OpenAI form -/

/-- A block that is the result of a tool. -/
def ContentBlock.isResult : ContentBlock → Bool
  | .dict b => b.type = some "tool_result"
  | .other _ => false

/-- A block that uses a tool. -/
def ContentBlock.isUse : ContentBlock → Bool
  | .dict b => b.type = some "tool_use"
  | .other _ => false

/-- The content of a message, as `message.get("content", "")` reads it. -/
def MessageDict.contentOf (m : MessageDict) : Content := m.content.getD (.text [])

/-- A serialized message as it is read. -/
def WireMessage.dict (m : WireMessage) : MessageDict where
  role := some m.role
  content := some m.content
  toolCalls := if m.toolCalls = [] then .falsy else .items (m.toolCalls.map fun c : WireToolCall => some c.dict)
  toolCallId := if m.role = "tool" then some m.toolCallId else none

/-- The calls of a message and its text, as `openai_messages` reads them of the assistant. -/
def spoken (host : Host) (m : MessageDict) : Checked (List WireToolCall × List Char) := do
  let calls ← rawCalls host m.toolCalls
  assistantContent host calls m.contentOf

/-- The results among the blocks of a user message, as messages. -/
inductive ResultOf : ContentBlock → WireMessage → Prop
  | result {b : BlockDict} {i : List Char} : b.type = some "tool_result" → b.toolUseId = some i →
      ResultOf (.dict b) ⟨"tool", .other b.content, [], i⟩

theorem results_tools {results : List WireMessage} (h : List.Forall₂ ResultOf blocks results) :
    ∀ w ∈ results, ∃ content i, w = ⟨"tool", content, [], i⟩ := by
  induction h with
  | nil => exact fun w hw => absurd hw List.not_mem_nil
  | cons hone _ ih =>
      intro w hw
      obtain rfl | hw := List.mem_cons.mp hw
      · cases hone
        exact ⟨_, _, rfl⟩
      · exact ih w hw

/-- The message of the blocks that are no results. -/
def ordinary (blocks : List ContentBlock) : List WireMessage :=
  let rest := blocks.filter fun b => !b.isResult
  if rest = [] then [] else [⟨"user", .blocks rest, [], []⟩]

/-- The messages that one message becomes. -/
inductive Outputs (host : Host) (m : MessageDict) : List WireMessage → Prop
  | assistant {calls : List WireToolCall} {text : List Char} : m.role = some "assistant" → spoken host m = .ok (calls, text) →
      Outputs host m [⟨"assistant", .text text, calls, []⟩]
  | blocks {blocks : List ContentBlock} {results : List WireMessage} : m.role = some "user" → m.contentOf = .blocks blocks →
      List.Forall₂ ResultOf (blocks.filter ContentBlock.isResult) results → Outputs host m (results ++ ordinary blocks)
  | user : m.role = some "user" → (∀ blocks, m.contentOf ≠ .blocks blocks) → Outputs host m [⟨"user", m.contentOf, [], []⟩]
  | tool {i : List Char} : m.role = some "tool" → m.toolCallId = some i → Outputs host m [⟨"tool", m.contentOf, [], i⟩]
  | system : m.role = some "system" → Outputs host m [⟨"system", m.contentOf, [], []⟩]
  | developer : m.role = some "developer" → Outputs host m [⟨"developer", m.contentOf, [], []⟩]

/-- `append`. -/
def append (s : Serialized) (w : WireMessage) : Checked Serialized :=
  if w.role = "tool" then appendResult s (some w.toolCallId) w.content else appendMessage s w

theorem appendResult_ok {identity : Option (List Char)} {content : Content}
    (h : appendResult s identity content = .ok s') :
    ∃ i, identity = some i ∧ i ∈ s.pending ∧ s' = ⟨s.result ++ [⟨"tool", content, [], i⟩], s.pending.erase i⟩ := by
  unfold appendResult at h
  split at h
  · next i =>
      split at h
      · next hmem => exact ⟨i, rfl, hmem, (Except.ok.inj h).symm⟩
      · cases h
  · cases h

theorem appendMessage_ok (h : appendMessage s w = .ok s') :
    s.pending = [] ∧ (w.toolCalls.map WireToolCall.id).Nodup ∧ s' = ⟨s.result ++ [w], w.toolCalls.map WireToolCall.id⟩ := by
  unfold appendMessage at h
  split at h
  · cases h
  · next hpending =>
      split at h
      · cases h
      · next hnodup => exact ⟨not_not.mp hpending, not_not.mp hnodup, (Except.ok.inj h).symm⟩

/-- The loop over the blocks of a user message. -/
theorem foldlM_userBlock {before rest : List ContentBlock}
    (h : blocks.foldlM userBlock (s, before) = .ok (s', rest)) :
    rest = before ++ (blocks.filter fun b => !b.isResult) ∧
      ∃ results, List.Forall₂ ResultOf (blocks.filter ContentBlock.isResult) results ∧ results.foldlM append s = .ok s' := by
  induction blocks generalizing s before with
  | nil =>
      obtain ⟨rfl, rfl⟩ := Prod.mk.inj (Except.ok.inj h)
      exact ⟨by simp, [], .nil, rfl⟩
  | cons b blocks ih =>
      rw [List.foldlM_cons, bind_ok] at h
      obtain ⟨⟨s₁, before₁⟩, hblock, h⟩ := h
      obtain ⟨hrest, results, hresults, hfold⟩ := ih h
      cases b with
      | other v =>
          obtain ⟨rfl, rfl⟩ := Prod.mk.inj (Except.ok.inj hblock)
          refine ⟨?_, results, hresults, hfold⟩
          rw [hrest, List.append_assoc]
          rfl
      | dict b =>
          by_cases htype : b.type = some "tool_result"
          · have hresult : (ContentBlock.dict b).isResult = true := decide_eq_true htype
            simp only [userBlock] at hblock
            rw [if_pos htype, bind_ok] at hblock
            obtain ⟨next, hnext, hblock⟩ := hblock
            obtain ⟨rfl, rfl⟩ := Prod.mk.inj (Except.ok.inj hblock)
            obtain ⟨i, hi, hmem, hstate⟩ := appendResult_ok hnext
            refine ⟨?_, ⟨"tool", .other b.content, [], i⟩ :: results, ?_, ?_⟩
            · rw [hrest, List.filter_cons, hresult]
              rfl
            · rw [List.filter_cons_of_pos hresult]
              exact .cons (.result htype hi) hresults
            · rw [List.foldlM_cons]
              have happend : append s ⟨"tool", .other b.content, [], i⟩ = .ok next := by
                show appendResult s (some i) (.other b.content) = _
                rw [← hi, hnext]
              rw [happend]
              exact hfold
          · have hresult : (ContentBlock.dict b).isResult = false := decide_eq_false htype
            simp only [userBlock] at hblock
            rw [if_neg htype] at hblock
            obtain ⟨rfl, rfl⟩ := Prod.mk.inj (Except.ok.inj hblock)
            refine ⟨?_, results, ?_, hfold⟩
            · rw [hrest, List.filter_cons, hresult, List.append_assoc]
              rfl
            · rw [List.filter_cons_of_neg (by rw [hresult]; decide)]
              exact hresults

/-- One message: the messages that it becomes are appended. -/
theorem openAiMessage_ok {message : Option MessageDict} (h : openAiMessage host s message = .ok s') :
    ∃ m ws, message = some m ∧ Outputs host m ws ∧ ws.foldlM append s = .ok s' := by
  have hone : ∀ {w : WireMessage}, append s w = .ok s' → [w].foldlM append s = .ok s' := by
    intro w hw
    rw [List.foldlM_cons, hw]
    rfl
  unfold openAiMessage at h
  cases message with
  | none => cases h
  | some m =>
      refine ⟨m, ?_⟩
      dsimp only at h
      split at h
      · next hrole =>
          have hspoken : (spoken host m >>= fun output =>
              appendMessage s ⟨"assistant", .text output.2, output.1, []⟩) = .ok s' := by
            unfold spoken
            rw [bind_assoc]
            exact h
          rw [bind_ok] at hspoken
          obtain ⟨⟨calls, text⟩, hcalls, happend⟩ := hspoken
          exact ⟨_, rfl, .assistant hrole hcalls, hone happend⟩
      · next hrole =>
          split at h
          · next blocks hblocks =>
              rw [bind_ok] at h
              obtain ⟨⟨s₁, rest⟩, hfold, h⟩ := h
              obtain ⟨hrest, results, hresults, happend⟩ := foldlM_userBlock hfold
              rw [List.nil_append] at hrest
              refine ⟨results ++ ordinary blocks, rfl, .blocks hrole hblocks hresults, ?_⟩
              rw [List.foldlM_append, happend]
              unfold ordinary
              dsimp only at h ⊢
              rw [← hrest]
              split at h
              · next hnil =>
                  rw [if_pos hnil]
                  exact h
              · next hne =>
                  rw [if_neg hne]
                  show [_].foldlM append s₁ = _
                  rw [List.foldlM_cons]
                  have hordinary : append s₁ ⟨"user", .blocks rest, [], []⟩ = .ok s' := h
                  rw [hordinary]
                  rfl
          · next hblocks =>
              exact ⟨_, rfl, .user hrole hblocks, hone h⟩
      · next hrole =>
          obtain ⟨i, hi, -, -⟩ := appendResult_ok h
          refine ⟨_, rfl, .tool hrole hi, hone ?_⟩
          show appendResult s (some i) m.contentOf = _
          rw [← hi]
          exact h
      · next hrole => exact ⟨_, rfl, .system hrole, hone h⟩
      · next hrole => exact ⟨_, rfl, .developer hrole, hone h⟩
      · cases h

/-- All messages, each with those it becomes. -/
theorem foldlM_openAiMessage {messages : List (Option MessageDict)}
    (h : messages.foldlM (openAiMessage host) s = .ok s') :
    ∃ dicts wss, messages = dicts.map some ∧ List.Forall₂ (Outputs host) dicts wss ∧
      wss.flatten.foldlM append s = .ok s' := by
  induction messages generalizing s with
  | nil => exact ⟨[], [], rfl, .nil, h⟩
  | cons message messages ih =>
      rw [List.foldlM_cons, bind_ok] at h
      obtain ⟨s₁, hone, h⟩ := h
      obtain ⟨m, ws, rfl, houtputs, happend⟩ := openAiMessage_ok hone
      obtain ⟨dicts, wss, rfl, hall, hrest⟩ := ih h
      refine ⟨m :: dicts, ws :: wss, rfl, .cons houtputs hall, ?_⟩
      rw [List.flatten_cons, List.foldlM_append, happend]
      exact hrest

/-! ### Rounds -/

/-- A message that is no result; the calls are the assistant's, and they are different. -/
structure Opens (m : WireMessage) : Prop where
  role : m.role ≠ "tool"
  calls : m.toolCalls ≠ [] → m.role = "assistant"
  nodup : (m.toolCalls.map WireToolCall.id).Nodup

/-- These are results. -/
def Tools (results : List WireMessage) : Prop := ∀ r ∈ results, r.role = "tool" ∧ r.toolCalls = []

/-- Every message is followed by the results of its calls, one for each. -/
inductive RoundTrips : List WireMessage → Prop
  | nil : RoundTrips []
  | round {m : WireMessage} {results rest : List WireMessage} : Opens m → Tools results →
      (results.map WireMessage.toolCallId).Perm (m.toolCalls.map WireToolCall.id) → RoundTrips rest →
      RoundTrips (m :: (results ++ rest))

theorem RoundTrips.append {before after : List WireMessage} (h : RoundTrips before) (hafter : RoundTrips after) :
    RoundTrips (before ++ after) := by
  induction h with
  | nil => exact hafter
  | round hopens htools hperm _ ih =>
      rw [List.cons_append, List.append_assoc]
      exact .round hopens htools hperm ih

/-- The last round may lack the results that are pending. -/
structure Underway (s : Serialized) (before : List WireMessage) (m : WireMessage) (results : List WireMessage) : Prop where
  result_eq : s.result = before ++ m :: results
  rounds : RoundTrips before
  opens : Opens m
  tools : Tools results
  pending : (results.map WireMessage.toolCallId ++ s.pending).Perm (m.toolCalls.map WireToolCall.id)

/-- What holds while the messages are appended. -/
def InRounds (s : Serialized) : Prop :=
  (s.result = [] ∧ s.pending = []) ∨ ∃ before m results, Underway s before m results

theorem InRounds.rounds (h : InRounds s) (hpending : s.pending = []) : RoundTrips s.result := by
  obtain ⟨hnil, -⟩ | ⟨before, m, results, hresult, hrounds, hopens, htools, hperm⟩ := h
  · rw [hnil]
    exact .nil
  · rw [hpending, List.append_nil] at hperm
    rw [hresult]
    refine hrounds.append ?_
    have hround := RoundTrips.round hopens htools hperm .nil
    rwa [List.append_nil] at hround

/-- A message as it is written, in each of its kinds. -/
inductive WireMessage.Written (value : List (List Char × Json) → Prop) : WireMessage → Prop
  | assistant {text : List Char} {calls : List WireToolCall} : (∀ c ∈ calls, c.Written value) →
      Written value ⟨"assistant", .text text, calls, []⟩
  | blocks {blocks : List ContentBlock} : blocks ≠ [] → (∀ b ∈ blocks, b.isResult = false) →
      Written value ⟨"user", .blocks blocks, [], []⟩
  | user {content : Content} : (∀ blocks, content ≠ .blocks blocks) → Written value ⟨"user", content, [], []⟩
  | tool {content : Content} {i : List Char} : Written value ⟨"tool", content, [], i⟩
  | system {content : Content} : Written value ⟨"system", content, [], []⟩
  | developer {content : Content} : Written value ⟨"developer", content, [], []⟩

theorem inRounds_append (hs : InRounds s) (hw : w.Written value)
    (h : append s w = .ok s') : InRounds s' := by
  have hmessage : appendMessage s w = .ok s' → w.role ≠ "tool" → (w.toolCalls ≠ [] → w.role = "assistant") →
      InRounds s' := by
    intro happend hrole hcalls
    obtain ⟨hpending, hnodup, rfl⟩ := appendMessage_ok happend
    exact .inr ⟨s.result, w, [], rfl, hs.rounds hpending, ⟨hrole, hcalls, hnodup⟩, fun r hr => absurd hr List.not_mem_nil,
      List.Perm.refl _⟩
  have hnone : w.toolCalls = [] → w.toolCalls ≠ [] → w.role = "assistant" := fun hnil hne => absurd hnil hne
  cases hw with
  | assistant hcalls => exact hmessage h (show "assistant" ≠ "tool" by decide) fun _ => rfl
  | blocks hne hresult => exact hmessage h (show "user" ≠ "tool" by decide) (hnone rfl)
  | user hcontent => exact hmessage h (show "user" ≠ "tool" by decide) (hnone rfl)
  | system => exact hmessage h (show "system" ≠ "tool" by decide) (hnone rfl)
  | developer => exact hmessage h (show "developer" ≠ "tool" by decide) (hnone rfl)
  | @tool content i =>
      obtain ⟨j, hj, hmem, rfl⟩ := appendResult_ok (show appendResult s (some i) content = .ok s' from h)
      obtain rfl := Option.some.inj hj
      obtain ⟨-, hpending⟩ | ⟨before, m, results, hresult, hrounds, hopens, htools, hperm⟩ := hs
      · rw [hpending] at hmem
        exact absurd hmem List.not_mem_nil
      · refine .inr ⟨before, m, results ++ [⟨"tool", content, [], i⟩], ?_, hrounds, hopens, ?_, ?_⟩
        · rw [hresult, List.append_assoc]
          rfl
        · intro r hr
          obtain hr | hr := List.mem_append.mp hr
          · exact htools r hr
          · obtain rfl := List.mem_singleton.mp hr
            exact ⟨rfl, rfl⟩
        · rw [List.map_append, List.append_assoc]
          exact ((List.perm_cons_erase hmem).symm.append_left _).trans hperm

theorem inRounds_foldlM (hs : InRounds s) (hws : ∀ w ∈ ws, w.Written value)
    (h : ws.foldlM append s = .ok s') : InRounds s' :=
  foldlM_keeps (fun _ w _ hw hs happend => inRounds_append hs (hws w hw) happend) hs h

/-- Whatever is appended stays, in its order. -/
theorem result_append (hw : w.Written value) (h : append s w = .ok s') :
    s'.result = s.result ++ [w] := by
  have hmessage : appendMessage s w = .ok s' → s'.result = s.result ++ [w] := by
    intro happend
    obtain ⟨-, -, rfl⟩ := appendMessage_ok happend
    rfl
  cases hw with
  | @tool content i =>
      obtain ⟨j, hj, -, rfl⟩ := appendResult_ok (show appendResult s (some i) content = .ok s' from h)
      obtain rfl := Option.some.inj hj
      rfl
  | _ => exact hmessage h

theorem result_foldlM (hws : ∀ w ∈ ws, w.Written value)
    (h : ws.foldlM append s = .ok s') : s'.result = s.result ++ ws := by
  induction ws generalizing s with
  | nil =>
      obtain rfl := Except.ok.inj h
      exact (List.append_nil _).symm
  | cons w ws ih =>
      rw [List.foldlM_cons, bind_ok] at h
      obtain ⟨s₁, happend, h⟩ := h
      rw [ih (fun v hv => hws v (List.mem_cons_of_mem w hv)) h, result_append (hws w List.mem_cons_self) happend,
        List.append_assoc]
      rfl

/-! ### Reading the own output -/

theorem rawCalls_written (hdecodes : host.Decodes value) (hvalued : m.Valued value)
    {calls : List WireToolCall} (h : rawCalls host m.toolCalls = .ok calls) : ∀ c ∈ calls, c.Written value := by
  unfold rawCalls at h
  split at h
  · obtain rfl := Except.ok.inj h
    exact fun c hc => absurd hc List.not_mem_nil
  · cases h
  · next items hitems =>
      rw [bind_ok] at h
      obtain ⟨calls', hcalls, h⟩ := h
      split at h
      · obtain rfl := Except.ok.inj h
        intro c hc
        obtain ⟨d, hd, hcall⟩ := mem_mapM hcalls c hc
        obtain ⟨o, ho, hsome⟩ := List.mem_filterMap.mp hd
        rw [show o = some d from hsome] at ho
        exact call_written hdecodes (hvalued.calls items hitems d ho) hcall
      · cases h

theorem assistantBlock_written (hdecodes : host.Decodes value) {b : ContentBlock} (hvalued : ∀ d, b = .dict d → d.asCall.Valued value)
    {s s' : List WireToolCall × List (List Char)} (hs : ∀ c ∈ s.1, c.Written value) (h : assistantBlock host s b = .ok s') :
    ∀ c ∈ s'.1, c.Written value := by
  unfold assistantBlock at h
  split at h
  · cases h
  · next d =>
      split at h
      · rw [bind_ok] at h
        obtain ⟨c', hcall, h⟩ := h
        obtain rfl := Except.ok.inj h
        intro c hc
        obtain hc | hc := List.mem_append.mp hc
        · exact hs c hc
        · obtain rfl := List.mem_singleton.mp hc
          exact call_written hdecodes (hvalued d rfl) hcall
      · split at h
        · split at h
          · obtain rfl := Except.ok.inj h
            exact hs
          · cases h
        · cases h

theorem spoken_written (hdecodes : host.Decodes value) (hvalued : m.Valued value)
    {calls : List WireToolCall} {text : List Char} (h : spoken host m = .ok (calls, text)) : ∀ c ∈ calls, c.Written value := by
  unfold spoken at h
  rw [bind_ok] at h
  obtain ⟨raw, hraw, h⟩ := h
  have hraw := rawCalls_written hdecodes hvalued hraw
  unfold assistantContent at h
  split at h
  · obtain ⟨rfl, -⟩ := Prod.mk.inj (Except.ok.inj h)
    exact hraw
  · obtain ⟨rfl, -⟩ := Prod.mk.inj (Except.ok.inj h)
    exact hraw
  · next blocks hblocks =>
      rw [bind_ok] at h
      obtain ⟨s, hfold, h⟩ := h
      obtain ⟨rfl, -⟩ := Prod.mk.inj (Except.ok.inj h)
      have hgiven : m.content = some (.blocks blocks) := by
        unfold MessageDict.contentOf at hblocks
        cases hcontent : m.content with
        | none =>
            rw [hcontent] at hblocks
            cases hblocks
        | some c =>
            rw [hcontent] at hblocks
            exact congrArg some hblocks
      refine foldlM_keeps (P := fun s : List WireToolCall × List (List Char) => ∀ c ∈ s.1, c.Written value) ?_ hraw hfold
      intro s b s' hb hs hblock
      refine assistantBlock_written hdecodes (fun d hd => ?_) hs hblock
      rw [hd] at hb
      exact hvalued.blocks blocks hgiven d hb
  · cases h

/-- What a message becomes is written. -/
theorem outputs_written (hdecodes : host.Decodes value) (hvalued : m.Valued value)
    (h : Outputs host m ws) : ∀ w ∈ ws, w.Written value := by
  have hone : ∀ {v : WireMessage}, v.Written value → ∀ w ∈ [v], w.Written value := by
    intro v hv w hw
    obtain rfl := List.mem_singleton.mp hw
    exact hv
  cases h with
  | assistant _ hspoken => exact hone (.assistant (spoken_written hdecodes hvalued hspoken))
  | @blocks blocks results _ _ hresults =>
      intro w hw
      obtain hw | hw := List.mem_append.mp hw
      · obtain ⟨content, i, rfl⟩ := results_tools hresults w hw
        exact .tool
      · unfold ordinary at hw
        dsimp only at hw
        split at hw
        · exact absurd hw List.not_mem_nil
        · next hne =>
            refine hone (.blocks hne fun b hb => ?_) w hw
            simpa using (List.mem_filter.mp hb).2
  | user _ hcontent => exact hone (.user hcontent)
  | tool => exact hone .tool
  | system => exact hone .system
  | developer => exact hone .developer

theorem rawCalls_again (hdecodes : host.Decodes value) {calls : List WireToolCall} (h : ∀ c ∈ calls, c.Written value) :
    rawCalls host (if calls = [] then .falsy else .items (calls.map fun c : WireToolCall => some c.dict)) = .ok calls := by
  split
  · next hnil =>
      rw [hnil]
      rfl
  · have hdicts : (calls.map fun c : WireToolCall => some c.dict).filterMap id = calls.map WireToolCall.dict := by
      rw [List.filterMap_map]
      exact congrFun (@List.filterMap_eq_map _ _ WireToolCall.dict) calls
    have hmap : (calls.map WireToolCall.dict).mapM (call host) = .ok calls := by
      rw [List.mapM_map]
      have hall : calls.mapM (fun c => call host c.dict) = .ok (calls.map id) :=
        mapM_ok fun c hc => call_again hdecodes (h c hc)
      rwa [List.map_id] at hall
    show (do
      let written ← ((calls.map fun c : WireToolCall => some c.dict).filterMap id).mapM (call host)
      if written.length = (calls.map fun c : WireToolCall => some c.dict).length then Except.ok written
      else invalid "invalid tool call object") = _
    rw [hdicts, hmap]
    show (if calls.length = _ then _ else _) = _
    rw [if_pos (List.length_map _).symm]

theorem userBlock_plain (h : ∀ b ∈ blocks, b.isResult = false) (s : Serialized)
    (before : List ContentBlock) : blocks.foldlM userBlock (s, before) = .ok (s, before ++ blocks) := by
  induction blocks generalizing before with
  | nil => rw [List.append_nil]; rfl
  | cons b blocks ih =>
      have hone : userBlock (s, before) b = .ok (s, before ++ [b]) := by
        cases b with
        | other v => rfl
        | dict d =>
            have htype : ¬d.type = some "tool_result" := of_decide_eq_false (h _ List.mem_cons_self)
            simp only [userBlock]
            rw [if_neg htype]
      rw [List.foldlM_cons, hone]
      show blocks.foldlM userBlock (s, before ++ [b]) = _
      rw [ih (fun c hc => h c (List.mem_cons_of_mem b hc)), List.append_assoc]
      rfl

/-- **A written message is read as it is.** -/
theorem openAiMessage_again (hdecodes : host.Decodes value) (h : w.Written value) (s : Serialized) :
    openAiMessage host s (some w.dict) = append s w := by
  cases h with
  | @assistant text calls hcalls =>
      show (do
        let raw ← rawCalls host (if calls = [] then .falsy else .items (calls.map fun c : WireToolCall => some c.dict))
        let output ← assistantContent host raw (.text text)
        appendMessage s ⟨"assistant", .text output.2, output.1, []⟩) = _
      rw [rawCalls_again hdecodes hcalls]
      rfl
  | @blocks blocks hne hplain =>
      show (do
        let next ← blocks.foldlM userBlock (s, [])
        if next.2 = [] then .ok next.1 else appendMessage next.1 ⟨"user", .blocks next.2, [], []⟩) = _
      rw [userBlock_plain hplain]
      show (if blocks = [] then _ else _) = _
      rw [if_neg hne]
      rfl
  | @user content hcontent =>
      cases content with
      | blocks blocks => exact absurd rfl (hcontent blocks)
      | null => rfl
      | text t => rfl
      | other v => rfl
  | tool => rfl
  | system => rfl
  | developer => rfl

theorem foldlM_again (hdecodes : host.Decodes value) (h : ∀ w ∈ ws, w.Written value) (s : Serialized) :
    (ws.map fun w => some w.dict).foldlM (openAiMessage host) s = ws.foldlM append s := by
  induction ws generalizing s with
  | nil => rfl
  | cons w ws ih =>
      rw [List.map_cons, List.foldlM_cons, List.foldlM_cons, openAiMessage_again hdecodes (h w List.mem_cons_self)]
      exact bind_congr fun s₁ => ih (fun v hv => h v (List.mem_cons_of_mem w hv)) s₁

/-! ### Messages joined by speaker -/

/-- What a message says to the other provider. -/
inductive Said where
  | text (content : Content)
  | block (block : ContentBlock)
  | call (id name : List Char) (input : Json)
  | result (id : List Char) (content : Content)

/-- What a block says; an empty text says nothing. -/
def OutBlock.said : OutBlock → List Said
  | .text (.text []) => []
  | .text content => [.text content]
  | .toolUse id name input => [.call id name input]
  | .toolResult id content => [.result id content]
  | .same block => [.block block]

/-- What the content of a message says. -/
def Content.said (content : Content) : List Said :=
  match contentOrEmpty content with
  | .text [] => []
  | .blocks items => items.map .block
  | content => [.text content]

/-- The arguments of a call, read. -/
def WireToolCall.input (host : Host) (c : WireToolCall) : Json := (host.loads c.arguments).getD .null

/-- What a message of the OpenAI form says; the system is quoted elsewhere. -/
def WireMessage.said (host : Host) (w : WireMessage) : List Said :=
  if w.role = "system" ∨ w.role = "developer" then []
  else if w.role = "tool" then [.result w.toolCallId (contentOrEmpty w.content)]
  else w.content.said ++ w.toolCalls.map fun c => .call c.id c.name (c.input host)

/-- What a message adds to the system text. -/
def WireMessage.systemText (w : WireMessage) : List (List Char) :=
  if w.role = "system" ∨ w.role = "developer" then
    match contentOrEmpty w.content with
    | .text text => [text]
    | _ => []
  else []

/-- A system text is a text. -/
def WireMessage.SystemIsText (w : WireMessage) : Prop :=
  w.role = "system" ∨ w.role = "developer" → ∃ text, contentOrEmpty w.content = .text text

/-- The blocks of a call. -/
def WireToolCall.block (host : Host) (c : WireToolCall) : OutBlock := .toolUse c.id c.name (c.input host)

/-- The blocks of a content. -/
def Content.outBlocks (content : Content) : List OutBlock :=
  match contentOrEmpty content with
  | .blocks items => items.map .same
  | content => [.text content]

/-- The text of a content; an empty one is left out. -/
def Content.textBlocks (content : Content) : List OutBlock :=
  match contentOrEmpty content with
  | .text [] => []
  | content => [.text content]

/-- The speaker of a message and its blocks. -/
def WireMessage.entry (host : Host) (w : WireMessage) : List (String × List OutBlock) :=
  if w.role = "system" ∨ w.role = "developer" then []
  else if w.role = "tool" then [("user", [.toolResult w.toolCallId (contentOrEmpty w.content)])]
  else if w.role = "assistant" then
    [("assistant", w.content.textBlocks ++ w.toolCalls.map (WireToolCall.block host))]
  else [("user", w.content.outBlocks)]

theorem joinSpeaker_eq : joinSpeaker = joinLast := by
  funext result m
  unfold joinSpeaker joinLast
  cases result.getLast? with
  | none => rfl
  | some last => rfl

theorem toolUseBlock_written (hdecodes : host.Decodes value) {c : WireToolCall} (h : c.Written value) :
    toolUseBlock host c = .ok (c.block host) := by
  obtain ⟨fields, hvalue, htext⟩ := h.arguments
  unfold toolUseBlock WireToolCall.block WireToolCall.input
  rw [hdecodes.again hvalue htext]
  rfl

/-- One message of the second pass. -/
theorem anthropicMessage_ok (hdecodes : host.Decodes value) (hw : w.Written value)
    {s s' : List (String × List OutBlock) × List (List Char)} :
    anthropicMessage host s w = .ok s' ↔
      w.SystemIsText ∧ s' = ((w.entry host).foldl joinLast s.1, s.2 ++ w.systemText) := by
  have hsystem : (w.role = "system" ∨ w.role = "developer") → (anthropicMessage host s w = .ok s' ↔
      w.SystemIsText ∧ s' = ((w.entry host).foldl joinLast s.1, s.2 ++ w.systemText)) := by
    intro hrole
    unfold anthropicMessage WireMessage.SystemIsText WireMessage.entry WireMessage.systemText
    rw [if_pos hrole, if_pos hrole, if_pos hrole]
    cases hcontent : contentOrEmpty w.content with
    | text text =>
        constructor
        · exact fun h => ⟨fun _ => ⟨text, rfl⟩, (Except.ok.inj h).symm⟩
        · rintro ⟨-, rfl⟩
          rfl
    | _ => exact ⟨nofun, fun h => nomatch h.1 hrole⟩
  have hother : ∀ blocks, ¬(w.role = "system" ∨ w.role = "developer") → blocksOf host w = .ok blocks →
      w.entry host = [blocks] → (anthropicMessage host s w = .ok s' ↔
        w.SystemIsText ∧ s' = ((w.entry host).foldl joinLast s.1, s.2 ++ w.systemText)) := by
    intro blocks hrole hblocks hentry
    unfold anthropicMessage WireMessage.SystemIsText WireMessage.systemText
    rw [if_neg hrole, if_neg hrole, hblocks, hentry, List.append_nil]
    constructor
    · intro h
      refine ⟨fun h => absurd h hrole, ?_⟩
      rw [← Except.ok.inj h, joinSpeaker_eq]
      rfl
    · rintro ⟨-, rfl⟩
      rw [List.foldl_cons, List.foldl_nil, ← joinSpeaker_eq]
      rfl
  cases hw with
  | @assistant text calls hcalls =>
      refine hother ("assistant", Content.textBlocks (.text text) ++ calls.map (WireToolCall.block host)) (by simp) ?_ rfl
      · have hmap : calls.mapM (toolUseBlock host) = .ok (calls.map (WireToolCall.block host)) :=
          mapM_ok fun c hc => toolUseBlock_written hdecodes (hcalls c hc)
        show (calls.mapM (toolUseBlock host) >>= fun uses => Except.ok ("assistant", _ ++ uses)) = _
        rw [hmap]
        cases text <;> rfl
  | @blocks blocks hne hplain =>
      refine hother ("user", Content.outBlocks (.blocks blocks)) (by simp) ?_ rfl
      cases blocks with
      | nil => exact absurd rfl hne
      | cons b blocks => rfl
  | @user content hcontent =>
      refine hother ("user", content.outBlocks) (by simp) ?_ rfl
      unfold Content.outBlocks
      show (match contentOrEmpty content with
        | .blocks blocks => (Except.ok ("user", blocks.map .same) : Checked (String × List OutBlock))
        | content => .ok ("user", [.text content])) = _
      cases contentOrEmpty content <;> rfl
  | @tool content i => exact hother ("user", [.toolResult i (contentOrEmpty content)]) (by simp) rfl rfl
  | system => exact hsystem (.inl rfl)
  | developer => exact hsystem (.inr rfl)

theorem foldlM_anthropicMessage (hdecodes : host.Decodes value) (hws : ∀ w ∈ ws, w.Written value)
    {s s' : List (String × List OutBlock) × List (List Char)} :
    ws.foldlM (anthropicMessage host) s = .ok s' ↔ (∀ w ∈ ws, w.SystemIsText) ∧
      s' = ((ws.flatMap (WireMessage.entry host)).foldl joinLast s.1, s.2 ++ ws.flatMap WireMessage.systemText) := by
  induction ws generalizing s with
  | nil =>
      constructor
      · intro h
        refine ⟨fun w hw => absurd hw List.not_mem_nil, ?_⟩
        rw [← Except.ok.inj h]
        simp
      · rintro ⟨-, rfl⟩
        show Except.ok s = _
        simp
  | cons w ws ih =>
      rw [List.foldlM_cons, bind_ok, List.forall_mem_cons, List.flatMap_cons, List.flatMap_cons, List.foldl_append]
      constructor
      · rintro ⟨s₁, hone, hrest⟩
        obtain ⟨htext, rfl⟩ := (anthropicMessage_ok hdecodes (hws w List.mem_cons_self)).mp hone
        obtain ⟨htexts, rfl⟩ := (ih fun v hv => hws v (List.mem_cons_of_mem w hv)).mp hrest
        exact ⟨⟨htext, htexts⟩, by rw [List.append_assoc]⟩
      · rintro ⟨⟨htext, htexts⟩, rfl⟩
        refine ⟨_, (anthropicMessage_ok hdecodes (hws w List.mem_cons_self)).mpr ⟨htext, rfl⟩, ?_⟩
        refine (ih fun v hv => hws v (List.mem_cons_of_mem w hv)).mpr ⟨htexts, ?_⟩
        rw [List.append_assoc]

/-! ### What is said -/

theorem entry_said (hw : w.Written value) :
    (w.entry host).flatMap (fun m => m.2.flatMap OutBlock.said) = w.said host := by
  have hcalls : ∀ calls : List WireToolCall, (calls.map (WireToolCall.block host)).flatMap OutBlock.said =
      calls.map fun c => Said.call c.id c.name (c.input host) := by
    intro calls
    induction calls with
    | nil => rfl
    | cons c calls ih =>
        rw [List.map_cons, List.flatMap_cons, ih]
        rfl
  have hplain : ∀ content : Content, content.outBlocks.flatMap OutBlock.said = content.said := by
    intro content
    unfold Content.outBlocks Content.said
    cases contentOrEmpty content with
    | blocks items =>
        show (items.map OutBlock.same).flatMap OutBlock.said = items.map .block
        rw [List.flatMap_map]
        induction items with
        | nil => rfl
        | cons b items ih => rw [List.flatMap_cons, ih]; rfl
    | text t => cases t <;> rfl
    | null => rfl
    | other v => rfl
  cases hw with
  | @assistant text calls _ =>
      show ((Content.textBlocks (.text text) ++ calls.map (WireToolCall.block host)).flatMap OutBlock.said) ++ [] =
        Content.said (.text text) ++ calls.map _
      rw [List.append_nil, List.flatMap_append, hcalls]
      cases text <;> rfl
  | @blocks blocks hne _ =>
      show (Content.outBlocks (.blocks blocks)).flatMap OutBlock.said ++ [] = Content.said (.blocks blocks) ++ []
      rw [hplain]
  | @user content _ =>
      show content.outBlocks.flatMap OutBlock.said ++ [] = content.said ++ []
      rw [hplain]
  | tool => rfl
  | system => rfl
  | developer => rfl

theorem flatMap_parts {κ β γ : Type} (f : β → List γ) (items : List (κ × List β)) :
    items.flatMap (fun m => m.2.flatMap f) = (tagged items).flatMap fun p => f p.2 := by
  induction items with
  | nil => rfl
  | cons m items ih =>
      rw [List.flatMap_cons, tagged_cons, List.flatMap_append, ih, List.flatMap_map]

/-! ### Voices -/

/-- Who speaks in a message, and whether something is said; nobody where it becomes no message of a speaker. -/
def voice (host : Host) (m : MessageDict) : List (String × Bool) :=
  match m.role with
  | some "assistant" =>
      match spoken host m with
      | .ok (calls, text) => [("assistant", !calls.isEmpty || !text.isEmpty)]
      | .error _ => []
  | some "user" =>
      match m.contentOf with
      | .blocks [] => []
      | _ => [("user", true)]
  | some "tool" => [("user", true)]
  | _ => []

/-- In every run of messages of one speaker something is said. -/
def Voiced (host : Host) (messages : List (Option MessageDict)) : Prop :=
  ∀ run ∈ ((messages.filterMap id).flatMap (voice host)).splitBy fun a b => decide (a.1 = b.1), ∃ x ∈ run, x.2 = true

theorem results_entries {blocks : List ContentBlock} {results : List WireMessage} (h : List.Forall₂ ResultOf blocks results) :
    results.flatMap (WireMessage.entry host) =
      results.map fun w => ("user", [OutBlock.toolResult w.toolCallId (contentOrEmpty w.content)]) := by
  induction h with
  | nil => rfl
  | cons hone _ ih =>
      cases hone
      rw [List.flatMap_cons, List.map_cons, ih]
      rfl

/-- The entries of the messages that one message becomes. -/
theorem outputs_flags (h : Outputs host m ws) :
    Flags (ws.flatMap (WireMessage.entry host)) (voice host m) := by
  have hone : ∀ (k : String) (blocks : List OutBlock), Flags [(k, blocks)] [(k, !blocks.isEmpty)] := by
    intro k blocks
    refine .inr ⟨k, List.cons_ne_nil _ _, ?_, ?_⟩
    · intro m hm
      rw [List.mem_singleton.mp hm]
    · simp
  have hcontent : ∀ content : Content, content.outBlocks ≠ [] := by
    intro content
    unfold Content.outBlocks
    cases hread : contentOrEmpty content with
    | blocks items =>
        cases items with
        | nil =>
            cases content with
            | blocks items => cases items <;> cases hread
            | other v =>
                simp only [contentOrEmpty] at hread
                split_ifs at hread
            | null => cases hread
            | text t => cases hread
        | cons b items => exact List.cons_ne_nil _ _
    | _ => exact List.cons_ne_nil _ _
  have huser : ∀ content : Content, Flags [("user", content.outBlocks)] [("user", true)] := by
    intro content
    have hflag : (!content.outBlocks.isEmpty) = true := by simpa using hcontent content
    have h := hone "user" content.outBlocks
    rwa [hflag] at h
  cases h with
  | @assistant calls text hrole hspoken =>
      unfold voice
      rw [hrole]
      simp only [hspoken]
      have h := hone "assistant" (Content.textBlocks (.text text) ++ calls.map (WireToolCall.block host))
      have hflag : (!(Content.textBlocks (.text text) ++ calls.map (WireToolCall.block host)).isEmpty) =
          (!calls.isEmpty || !text.isEmpty) := by
        cases text <;> cases calls <;> rfl
      rw [hflag] at h
      exact h
  | @blocks blocks results hrole hblocks hresults =>
      have hentries := @results_entries host _ _ hresults
      have hordinary : ∀ x ∈ (ordinary blocks).flatMap (WireMessage.entry host), x.1 = "user" ∧ x.2 ≠ [] := by
        intro x hx
        obtain ⟨w, hw, hx⟩ := List.mem_flatMap.mp hx
        unfold ordinary at hw
        dsimp only at hw
        split at hw
        · exact absurd hw List.not_mem_nil
        · obtain rfl := List.mem_singleton.mp hw
          obtain rfl := List.mem_singleton.mp hx
          exact ⟨rfl, hcontent _⟩
      have hall : ∀ x ∈ (results ++ ordinary blocks).flatMap (WireMessage.entry host), x.1 = "user" ∧ x.2 ≠ [] := by
        intro x hx
        rw [List.flatMap_append] at hx
        obtain hx | hx := List.mem_append.mp hx
        · rw [hentries] at hx
          obtain ⟨w, -, rfl⟩ := List.mem_map.mp hx
          exact ⟨rfl, List.cons_ne_nil _ _⟩
        · exact hordinary x hx
      unfold voice
      rw [hrole]
      simp only [hblocks]
      cases blocks with
      | nil =>
          cases hresults
          exact .inl ⟨rfl, rfl⟩
      | cons b blocks =>
          have hne : (results ++ ordinary (b :: blocks)).flatMap (WireMessage.entry host) ≠ [] := by
            rw [List.flatMap_append, hentries]
            cases hb : b.isResult with
            | true =>
                rw [List.filter_cons_of_pos hb] at hresults
                cases hresults
                exact List.cons_ne_nil _ _
            | false =>
                have hfirst : ((b :: blocks).filter fun b => !b.isResult) = b :: blocks.filter fun b => !b.isResult := by
                  rw [List.filter_cons_of_pos]
                  rw [hb]
                  rfl
                unfold ordinary
                dsimp only
                rw [hfirst, if_neg (List.cons_ne_nil _ _)]
                exact fun hnil => absurd (List.append_eq_nil_iff.mp hnil).2 (List.cons_ne_nil _ _)
          refine .inr ⟨"user", hne, fun x hx => (hall x hx).1, ?_⟩
          obtain ⟨x, hx⟩ := List.exists_mem_of_ne_nil _ hne
          have hparts : ((results ++ ordinary (b :: blocks)).flatMap (WireMessage.entry host)).flatMap Prod.snd ≠ [] := by
            intro hnil
            exact (hall x hx).2 (List.flatMap_eq_nil_iff.mp hnil x hx)
          have hflag : (!(((results ++ ordinary (b :: blocks)).flatMap (WireMessage.entry host)).flatMap Prod.snd).isEmpty) =
              true := by
            simpa using hparts
          rw [hflag]
  | user hrole hcontent =>
      unfold voice
      rw [hrole]
      cases hread : m.contentOf with
      | blocks items => exact absurd hread (hcontent items)
      | null => exact huser .null
      | text t => exact huser (.text t)
      | other v => exact huser (.other v)
  | tool hrole _ =>
      unfold voice
      rw [hrole]
      exact hone "user" [_]
  | system hrole =>
      unfold voice
      rw [hrole]
      exact .inl ⟨rfl, rfl⟩
  | developer hrole =>
      unfold voice
      rw [hrole]
      exact .inl ⟨rfl, rfl⟩

theorem outputs_all_flags (h : List.Forall₂ (Outputs host) dicts wss) :
    List.Forall₂ Flags (wss.map (List.flatMap (WireMessage.entry host))) (dicts.map (voice host)) := by
  induction h with
  | nil => exact .nil
  | cons hone _ ih => exact .cons (outputs_flags hone) ih

/-! ### Replies -/

def OutBlock.isResult : OutBlock → Bool
  | .toolResult _ _ => true
  | .same b => b.isResult
  | _ => false

def OutBlock.isUse : OutBlock → Bool
  | .toolUse _ _ _ => true
  | .same b => b.isUse
  | _ => false

def OutBlock.resultId : OutBlock → Option (List Char)
  | .toolResult i _ => some i
  | _ => none

def OutBlock.useId : OutBlock → Option (List Char)
  | .toolUse i _ _ => some i
  | _ => none

/-- A message after one that used tools under these identities. -/
structure Reply (pending : List (List Char)) (speaker : String) (blocks : List OutBlock) : Prop where
  results : ∃ results others, blocks = results ++ others ∧ (∀ b ∈ results, b.isResult = true) ∧
    (∀ b ∈ others, b.isResult = false) ∧ (results.filterMap OutBlock.resultId).Perm pending
  once : pending.Nodup
  answers : (∃ b ∈ blocks, b.isResult = true) → speaker = "user"
  uses : ∀ b ∈ blocks, b.isUse = true → speaker = "assistant"

/-- Every use of a tool is answered once, at the start of the next message, which is the user's. -/
def Replied : List (List Char) → List (String × List OutBlock) → Prop
  | pending, [] => pending = []
  | pending, (speaker, blocks) :: rest => Reply pending speaker blocks ∧ Replied (blocks.filterMap OutBlock.useId) rest

theorem Replied.uses {pending : List (List Char)} {messages : List (String × List OutBlock)} (h : Replied pending messages) :
    ∀ p ∈ tagged messages, p.2.isUse = true → p.1 = "assistant" := by
  induction messages generalizing pending with
  | nil => exact fun p hp => absurd hp List.not_mem_nil
  | cons m rest ih =>
      obtain ⟨hreply, hrest⟩ := h
      intro p hp huse
      rw [tagged_cons] at hp
      obtain hp | hp := List.mem_append.mp hp
      · obtain ⟨b, hb, rfl⟩ := List.mem_map.mp hp
        exact hreply.uses b hb huse
      · exact ih hrest p hp huse

/-- No tool is used in the blocks of a user message. -/
def PlainUser (w : WireMessage) : Prop :=
  w.role = "user" → ∀ blocks, w.content = .blocks blocks → ∀ b ∈ blocks, b.isUse = false

/-- Blocks without results follow. -/
theorem Reply.extend {pending : List (List Char)} {blocks more : List OutBlock}
    (h : Reply pending speaker blocks) (hresult : ∀ b ∈ more, b.isResult = false)
    (huse : ∀ b ∈ more, b.isUse = true → speaker = "assistant") : Reply pending speaker (blocks ++ more) := by
  obtain ⟨⟨results, others, rfl, hresults, hothers, hperm⟩, honce, hanswers, huses⟩ := h
  refine ⟨⟨results, others ++ more, List.append_assoc _ _ _, hresults, ?_, hperm⟩, honce, ?_, ?_⟩
  · intro b hb
    obtain hb | hb := List.mem_append.mp hb
    · exact hothers b hb
    · exact hresult b hb
  · rintro ⟨b, hb, hbresult⟩
    obtain hb | hb := List.mem_append.mp hb
    · exact hanswers ⟨b, hb, hbresult⟩
    · rw [hresult b hb] at hbresult
      cases hbresult
  · intro b hb
    obtain hb | hb := List.mem_append.mp hb
    · exact huses b hb
    · exact huse b hb

/-- Blocks without results after a message without uses. -/
theorem Reply.fresh {blocks : List OutBlock} (hresult : ∀ b ∈ blocks, b.isResult = false)
    (huse : ∀ b ∈ blocks, b.isUse = true → speaker = "assistant") : Reply [] speaker blocks := by
  have hempty : Reply [] speaker [] :=
    ⟨⟨[], [], rfl, by simp, by simp, List.Perm.refl _⟩, List.nodup_nil, by simp, by simp⟩
  exact hempty.extend hresult huse

/-- The results of a round. -/
theorem Reply.tools {pending : List (List Char)} {results : List WireMessage} (honce : pending.Nodup)
    (hperm : (results.map WireMessage.toolCallId).Perm pending) :
    Reply pending "user" (results.map fun w => OutBlock.toolResult w.toolCallId (contentOrEmpty w.content)) := by
  refine ⟨⟨_, [], (List.append_nil _).symm, ?_, by simp, ?_⟩, honce, fun _ => rfl, ?_⟩
  · intro b hb
    obtain ⟨w, -, rfl⟩ := List.mem_map.mp hb
    rfl
  · have hids : (results.map fun w => OutBlock.toolResult w.toolCallId (contentOrEmpty w.content)).filterMap
        OutBlock.resultId = results.map WireMessage.toolCallId := by
      rw [List.filterMap_map]
      exact congrFun (@List.filterMap_eq_map _ _ WireMessage.toolCallId) results
    rwa [hids]
  · intro b hb huse
    obtain ⟨w, -, rfl⟩ := List.mem_map.mp hb
    cases huse

theorem outBlocks_mem {content : Content} {b : OutBlock} (h : b ∈ content.outBlocks) :
    (∃ c, b = .text c) ∨ ∃ items item, content = .blocks items ∧ item ∈ items ∧ b = .same item := by
  unfold Content.outBlocks at h
  split at h
  · next items hitems =>
      obtain ⟨item, hitem, rfl⟩ := List.mem_map.mp h
      refine .inr ⟨items, item, ?_, hitem, rfl⟩
      cases content with
      | blocks items' =>
          cases items' with
          | nil => cases hitems
          | cons c items' => exact hitems
      | null => cases hitems
      | text t => cases hitems
      | other v =>
          simp only [contentOrEmpty] at hitems
          split_ifs at hitems
  · exact .inl ⟨_, List.mem_singleton.mp h⟩

theorem tools_entries {results : List WireMessage} (h : Tools results) : results.flatMap (WireMessage.entry host) =
    results.map fun w => ("user", [OutBlock.toolResult w.toolCallId (contentOrEmpty w.content)]) := by
  induction results with
  | nil => rfl
  | cons r results ih =>
      have hentry : r.entry host = [("user", [.toolResult r.toolCallId (contentOrEmpty r.content)])] := by
        unfold WireMessage.entry
        rw [(h r List.mem_cons_self).1]
        rfl
      rw [List.flatMap_cons, hentry, ih fun w hw => h w (List.mem_cons_of_mem r hw)]
      rfl

theorem tools_useIds (results : List WireMessage) :
    (results.map fun w => OutBlock.toolResult w.toolCallId (contentOrEmpty w.content)).filterMap OutBlock.useId = [] := by
  induction results with
  | nil => rfl
  | cons r results ih =>
      rw [List.map_cons, List.filterMap_cons_none rfl]
      exact ih

/-- The entries go on well behind blocks that use no tool. -/
def Continues (entries : List (String × List OutBlock)) : Prop :=
  ∀ pending speaker blocks, Reply pending speaker blocks → blocks.filterMap OutBlock.useId = [] →
    Replied pending (stretchesFrom speaker blocks entries)

/-- Blocks that use no tool come first. -/
theorem Continues.quiet {rest : List (String × List OutBlock)} (h : Continues rest) {more : List OutBlock}
    (hresult : ∀ b ∈ more, b.isResult = false) (huse : ∀ b ∈ more, b.isUse = true → speaker = "assistant")
    (hmore : more.filterMap OutBlock.useId = []) : Continues ((speaker, more) :: rest) := by
  intro pending before blocks hopen hquiet
  rw [stretchesFrom]
  split
  · next heq =>
      refine h _ _ _ (hopen.extend hresult fun b hb hbuse => heq.trans (huse b hb hbuse)) ?_
      rw [List.filterMap_append, hquiet, hmore]
      rfl
  · refine ⟨hopen, ?_⟩
    rw [hquiet]
    exact h _ _ _ (.fresh hresult huse) hmore

/-- The results of a round open the next message. -/
theorem Continues.results {rest : List (String × List OutBlock)} (h : Continues rest) {results : List WireMessage}
    {ids pending : List (List Char)} {blocks : List OutBlock} (hperm : (results.map WireMessage.toolCallId).Perm ids)
    (honce : ids.Nodup) (hne : ids ≠ []) (hreply : Reply pending "assistant" blocks)
    (huses : blocks.filterMap OutBlock.useId = ids) :
    Replied pending (stretchesFrom "assistant" blocks
      ((results.map fun w => ("user", [OutBlock.toolResult w.toolCallId (contentOrEmpty w.content)])) ++ rest)) := by
  have hreply_results := Reply.tools honce hperm
  cases results with
  | nil => exact absurd hperm.symm.eq_nil hne
  | cons r results =>
      have hkeys : ∀ x ∈ results.map fun w =>
          (("user" : String), [OutBlock.toolResult w.toolCallId (contentOrEmpty w.content)]), x.1 = "user" := by
        intro x hx
        obtain ⟨w, -, rfl⟩ := List.mem_map.mp hx
        rfl
      have hparts : (results.map fun w =>
          (("user" : String), [OutBlock.toolResult w.toolCallId (contentOrEmpty w.content)])).flatMap Prod.snd =
            results.map fun w => OutBlock.toolResult w.toolCallId (contentOrEmpty w.content) := by
        rw [List.flatMap_map, List.map_eq_flatMap]
      rw [List.map_cons, List.cons_append, stretchesFrom, if_neg (by decide)]
      refine ⟨hreply, ?_⟩
      rw [huses, stretchesFrom_run hkeys, hparts]
      exact h _ _ _ hreply_results (tools_useIds (r :: results))

/-- Calls come first, and their results. -/
theorem Continues.calls {rest : List (String × List OutBlock)} (h : Continues rest) {results : List WireMessage}
    {ids : List (List Char)} {more : List OutBlock} (hperm : (results.map WireMessage.toolCallId).Perm ids) (honce : ids.Nodup)
    (hne : ids ≠ []) (hresult : ∀ b ∈ more, b.isResult = false) (hids : more.filterMap OutBlock.useId = ids) :
    Continues (("assistant", more) ::
      ((results.map fun w => ("user", [OutBlock.toolResult w.toolCallId (contentOrEmpty w.content)])) ++ rest)) := by
  intro pending speaker blocks hopen hquiet
  rw [stretchesFrom]
  split
  · next heq =>
      subst heq
      refine h.results hperm honce hne (hopen.extend hresult fun _ _ _ => rfl) ?_
      rw [List.filterMap_append, hquiet, hids]
      rfl
  · refine ⟨hopen, ?_⟩
    rw [hquiet]
    exact h.results hperm honce hne (.fresh hresult fun _ _ _ => rfl) hids

/-- What a user says. -/
theorem Continues.user {rest : List (String × List OutBlock)} (h : Continues rest) {content : Content}
    (huse : ∀ items, content = .blocks items → ∀ b ∈ items, b.isUse = false)
    (hresult : ∀ items, content = .blocks items → ∀ b ∈ items, b.isResult = false) :
    Continues (("user", content.outBlocks) :: rest) := by
  refine h.quiet ?_ ?_ ?_
  · intro b hb
    obtain ⟨c, rfl⟩ | ⟨items, item, hitems, hitem, rfl⟩ := outBlocks_mem hb
    · rfl
    · exact hresult items hitems item hitem
  · intro b hb hbuse
    obtain ⟨c, rfl⟩ | ⟨items, item, hitems, hitem, rfl⟩ := outBlocks_mem hb
    · cases hbuse
    · have hnone := huse items hitems item hitem
      rw [show item.isUse = true from hbuse] at hnone
      cases hnone
  · rw [List.filterMap_eq_nil_iff]
    intro b hb
    obtain ⟨c, rfl⟩ | ⟨items, item, hitems, hitem, rfl⟩ := outBlocks_mem hb
    · rfl
    · rfl

/-- The blocks of an assistant's message. -/
theorem assistant_blocks (text : List Char) (calls : List WireToolCall) :
    (∀ b ∈ Content.textBlocks (.text text) ++ calls.map (WireToolCall.block host), b.isResult = false) ∧
      (Content.textBlocks (.text text) ++ calls.map (WireToolCall.block host)).filterMap OutBlock.useId =
        calls.map WireToolCall.id := by
  have htext : ∀ b ∈ Content.textBlocks (.text text), b.isResult = false ∧ b.useId = none := by
    intro b hb
    cases text with
    | nil => exact absurd hb List.not_mem_nil
    | cons c text =>
        obtain rfl := List.mem_singleton.mp hb
        exact ⟨rfl, rfl⟩
  constructor
  · intro b hb
    obtain hb | hb := List.mem_append.mp hb
    · exact (htext b hb).1
    · obtain ⟨c, -, rfl⟩ := List.mem_map.mp hb
      rfl
  · rw [List.filterMap_append, List.filterMap_eq_nil_iff.mpr fun b hb => (htext b hb).2, List.filterMap_map]
    exact congrFun (@List.filterMap_eq_map _ _ WireToolCall.id) calls

/-- **The joined messages answer all uses.** -/
theorem replied_from {ws : List WireMessage} (hrounds : RoundTrips ws) (hws : ∀ w ∈ ws, w.Written value)
    (hplain : ∀ w ∈ ws, PlainUser w) : Continues (ws.flatMap (WireMessage.entry host)) := by
  induction hrounds with
  | nil =>
      intro pending speaker blocks hopen hquiet
      refine ⟨hopen, ?_⟩
      rw [hquiet]
      rfl
  | @round m results rest hopens htools hperm _ ih =>
      have ih := ih (fun w hw => hws w (List.mem_cons_of_mem m (List.mem_append_right results hw)))
        fun w hw => hplain w (List.mem_cons_of_mem m (List.mem_append_right results hw))
      have hmplain := hplain m List.mem_cons_self
      rw [List.flatMap_cons, List.flatMap_append, tools_entries htools]
      -- a message without calls has no results after it
      have hsilent : m.toolCalls = [] → results = [] := by
        intro hcalls
        rw [hcalls] at hperm
        exact List.map_eq_nil_iff.mp hperm.eq_nil
      cases hws m List.mem_cons_self with
      | tool => exact absurd rfl hopens.role
      | system =>
          rw [hsilent rfl]
          exact ih
      | developer =>
          rw [hsilent rfl]
          exact ih
      | @blocks items hne hresult =>
          rw [hsilent rfl]
          refine ih.user (hmplain rfl) ?_
          rintro items' hitems
          obtain rfl := Content.blocks.inj hitems
          exact hresult
      | @user content hcontent =>
          rw [hsilent rfl]
          exact ih.user (hmplain rfl) fun items hitems => absurd hitems (hcontent items)
      | @assistant text calls hcalls =>
          obtain ⟨hresult, hids⟩ := @assistant_blocks host text calls
          by_cases hnone : calls = []
          · subst hnone
            rw [hsilent rfl]
            exact ih.quiet hresult (fun _ _ _ => rfl) hids
          · exact ih.calls hperm hopens.nodup (fun hnil => hnone (List.map_eq_nil_iff.mp hnil)) hresult hids

/-- The joined messages answer all uses, from the first one on. -/
theorem replied_stretches (hrounds : RoundTrips ws) (hws : ∀ w ∈ ws, w.Written value)
    (hplain : ∀ w ∈ ws, PlainUser w) : Replied [] (stretches (ws.flatMap (WireMessage.entry host))) := by
  -- nobody speaks before the first message
  have hnobody : Reply [] "" [] := .fresh (by simp) (by simp)
  have hfrom := @replied_from host value ws hrounds hws hplain [] "" [] hnobody rfl
  have hkey : ∀ m ∈ (ws.flatMap (WireMessage.entry host)).head?, m.1 ≠ "" := by
    intro m hm
    obtain ⟨w, -, hentry⟩ := List.mem_flatMap.mp (List.mem_of_head? hm)
    unfold WireMessage.entry at hentry
    split_ifs at hentry
    · exact absurd hentry List.not_mem_nil
    · rw [List.mem_singleton.mp hentry]
      exact (by decide : ("user" : String) ≠ "")
    · rw [List.mem_singleton.mp hentry]
      exact (by decide : ("assistant" : String) ≠ "")
    · rw [List.mem_singleton.mp hentry]
      exact (by decide : ("user" : String) ≠ "")
  rw [stretchesFrom_new hkey] at hfrom
  exact hfrom.2

/-! ### The whole -/

/-- No tool is used in a message of the user. -/
def PlainUsers (messages : List (Option MessageDict)) : Prop :=
  ∀ m, some m ∈ messages → m.role = some "user" → ∀ blocks, m.contentOf = .blocks blocks → ∀ b ∈ blocks, b.isUse = false

theorem outputs_plain (h : Outputs host m ws) :
    (∀ w ∈ ws, PlainUser w) ↔
      (m.role = some "user" → ∀ blocks, m.contentOf = .blocks blocks → ∀ b ∈ blocks, b.isUse = false) := by
  have hother : ∀ w : WireMessage, w.role ≠ "user" → m.role ≠ some "user" → ((∀ v ∈ [w], PlainUser v) ↔
      (m.role = some "user" → ∀ blocks, m.contentOf = .blocks blocks → ∀ b ∈ blocks, b.isUse = false)) := by
    intro w hw hm
    refine ⟨fun _ hrole => absurd hrole hm, fun _ v hv hrole => ?_⟩
    rw [List.mem_singleton.mp hv] at hrole
    exact absurd hrole hw
  have hdistinct : ∀ role : String, m.role = some role → role ≠ "user" → m.role ≠ some "user" := by
    intro role hrole hne heq
    exact hne (Option.some.inj (hrole.symm.trans heq))
  cases h with
  | assistant hrole => exact hother _ (show "assistant" ≠ "user" by decide) (hdistinct _ hrole (by decide))
  | tool hrole => exact hother _ (show "tool" ≠ "user" by decide) (hdistinct _ hrole (by decide))
  | system hrole => exact hother _ (show "system" ≠ "user" by decide) (hdistinct _ hrole (by decide))
  | developer hrole => exact hother _ (show "developer" ≠ "user" by decide) (hdistinct _ hrole (by decide))
  | user hrole hcontent =>
      refine ⟨fun _ _ blocks hblocks => absurd hblocks (hcontent blocks), fun _ v hv _ blocks hblocks => ?_⟩
      rw [List.mem_singleton.mp hv] at hblocks
      exact absurd hblocks (hcontent blocks)
  | @blocks blocks results hrole hblocks hresults =>
      constructor
      · intro h _ items hitems b hb
        rw [hblocks] at hitems
        obtain rfl := Content.blocks.inj hitems
        by_contra huse
        rw [Bool.not_eq_false] at huse
        have hresult : b.isResult = false := by
          cases b with
          | other v => rfl
          | dict d =>
              have htype : d.type = some "tool_use" := of_decide_eq_true huse
              refine decide_eq_false fun hresult => ?_
              exact absurd (Option.some.inj (htype.symm.trans hresult)) (by decide)
        have hmem : b ∈ blocks.filter fun b => !b.isResult := List.mem_filter.mpr ⟨hb, by rw [hresult]; rfl⟩
        have hmessage : (⟨"user", .blocks (blocks.filter fun b => !b.isResult), [], []⟩ : WireMessage) ∈ ordinary blocks := by
          unfold ordinary
          dsimp only
          rw [if_neg (List.ne_nil_of_mem hmem)]
          exact List.mem_singleton.mpr rfl
        have hnone := h _ (List.mem_append_right results hmessage) rfl _ rfl b hmem
        rw [huse] at hnone
        cases hnone
      · intro h w hw hrole' items hitems b hb
        obtain hw | hw := List.mem_append.mp hw
        · obtain ⟨content, i, rfl⟩ := results_tools hresults w hw
          exact absurd hrole' (show "tool" ≠ "user" by decide)
        · unfold ordinary at hw
          dsimp only at hw
          split at hw
          · exact absurd hw List.not_mem_nil
          · rw [List.mem_singleton.mp hw] at hitems
            obtain rfl := Content.blocks.inj hitems
            exact h hrole blocks hblocks b (List.mem_filter.mp hb).1

theorem outputs_all_plain
    (h : List.Forall₂ (Outputs host) dicts wss) : (∀ w ∈ wss.flatten, PlainUser w) ↔ PlainUsers (dicts.map some) := by
  induction h with
  | nil => exact ⟨fun _ m hm => absurd hm (by simp), fun _ w hw => absurd hw (by simp)⟩
  | @cons m ws dicts wss hone _ ih =>
      have hsplit : PlainUsers ((m :: dicts).map some) ↔
          (m.role = some "user" → ∀ blocks, m.contentOf = .blocks blocks → ∀ b ∈ blocks, b.isUse = false) ∧
            PlainUsers (dicts.map some) := by
        unfold PlainUsers
        simp
      rw [hsplit, ← ih, ← outputs_plain hone, List.flatten_cons, List.forall_mem_append]

theorem outputs_all_written (hdecodes : host.Decodes value)
    (hvalued : ∀ m ∈ dicts, m.Valued value) (h : List.Forall₂ (Outputs host) dicts wss) :
    ∀ w ∈ wss.flatten, w.Written value := by
  induction h with
  | nil => exact fun w hw => absurd hw (by simp)
  | @cons m ws dicts wss hone _ ih =>
      rw [List.flatten_cons, List.forall_mem_append]
      exact ⟨outputs_written hdecodes (hvalued m List.mem_cons_self) hone, ih fun d hd => hvalued d (List.mem_cons_of_mem m hd)⟩

theorem plain_of_replied (h : Replied [] (stretches (ws.flatMap (WireMessage.entry host)))) :
    ∀ w ∈ ws, PlainUser w := by
  intro w hw hrole blocks hblocks b hb
  by_contra huse
  rw [Bool.not_eq_false] at huse
  have hcontent : contentOrEmpty w.content = .blocks blocks := by
    rw [hblocks]
    cases blocks with
    | nil => exact absurd hb List.not_mem_nil
    | cons c blocks => rfl
  have hmem : ("user", OutBlock.same b) ∈ tagged (ws.flatMap (WireMessage.entry host)) := by
    refine List.mem_flatMap.mpr ⟨("user", w.content.outBlocks), List.mem_flatMap.mpr ⟨w, hw, ?_⟩, ?_⟩
    · unfold WireMessage.entry
      rw [hrole]
      exact List.mem_singleton.mpr rfl
    · refine List.mem_map.mpr ⟨.same b, ?_, rfl⟩
      unfold Content.outBlocks
      rw [hcontent]
      exact List.mem_map.mpr ⟨b, hb, rfl⟩
  rw [← stretches_parts] at hmem
  exact absurd (h.uses _ hmem huse) (show "user" ≠ "assistant" by decide)

/-- **What serialization keeps**, for every transcript that is taken. -/
theorem messages_serialized (hdecodes : host.Decodes value) {messages : List (Option MessageDict)}
    (hvalued : ∀ m, some m ∈ messages → m.Valued value) {out : List WireMessage} (h : openAiMessages host messages = .ok out) :
    RoundTrips out ∧ openAiMessages host (out.map fun w => some w.dict) = .ok out ∧
      ((∃ result, anthropicMessages host messages = .ok result) ↔ ∀ w ∈ out, w.SystemIsText) ∧
      ∀ joined system, anthropicMessages host messages = .ok (joined, system) →
        (joined.map Prod.fst).IsChain (· ≠ ·) ∧
        joined.flatMap (fun m => m.2.flatMap OutBlock.said) = out.flatMap (WireMessage.said host) ∧
        system = ['\n', '\n'].intercalate (out.flatMap WireMessage.systemText) ∧
        ((∀ m ∈ joined, m.2 ≠ []) ∧ Replied [] joined ↔ Voiced host messages ∧ PlainUsers messages) := by
  unfold openAiMessages at h
  rw [bind_ok] at h
  obtain ⟨s, hfold, h⟩ := h
  obtain ⟨dicts, wss, rfl, houtputs, happend⟩ := foldlM_openAiMessage hfold
  have hdicts : ∀ m ∈ dicts, m.Valued value := fun m hm => hvalued m (List.mem_map.mpr ⟨m, hm, rfl⟩)
  have hwritten := outputs_all_written hdecodes hdicts houtputs
  have hrounds := inRounds_foldlM (.inl ⟨rfl, rfl⟩) hwritten happend
  have hresult := result_foldlM hwritten happend
  rw [List.nil_append] at hresult
  split at h
  · next hpending =>
      obtain rfl := Except.ok.inj h
      have hrounds := hrounds.rounds hpending
      have hws : ∀ w ∈ s.result, w.Written value := by
        rw [hresult]
        exact hwritten
      have hopenAi : openAiMessages host (dicts.map some) = .ok s.result := by
        unfold openAiMessages
        rw [hfold]
        exact if_pos hpending
      have hout : s.result.flatMap (WireMessage.entry host) = (wss.map (List.flatMap (WireMessage.entry host))).flatten := by
        rw [hresult, List.flatMap_def, List.map_flatten, List.flatten_flatten, List.map_map]
        rfl
      have hanthropic : ∀ result, anthropicMessages host (dicts.map some) = .ok result ↔ (∀ w ∈ s.result, w.SystemIsText) ∧
          result = (stretches (s.result.flatMap (WireMessage.entry host)),
            ['\n', '\n'].intercalate (s.result.flatMap WireMessage.systemText)) := by
        intro result
        unfold anthropicMessages
        rw [hopenAi, bind_ok]
        constructor
        · rintro ⟨out, hout, hpass⟩
          obtain rfl := Except.ok.inj hout
          obtain ⟨pass, hpass, hread⟩ := bind_ok.mp hpass
          obtain ⟨htexts, rfl⟩ := (foldlM_anthropicMessage hdecodes hws).mp hpass
          refine ⟨htexts, ?_⟩
          rw [← Except.ok.inj hread, foldl_joinLast]
          rfl
        · rintro ⟨htexts, rfl⟩
          refine ⟨_, rfl, bind_ok.mpr ⟨_, (foldlM_anthropicMessage hdecodes hws).mpr ⟨htexts, rfl⟩, ?_⟩⟩
          rw [foldl_joinLast]
          rfl
      refine ⟨hrounds, ?_, ?_, ?_⟩
      · unfold openAiMessages
        rw [hresult, foldlM_again hdecodes hwritten, happend]
        show (if s.pending = [] then Except.ok s.result else _) = _
        rw [if_pos hpending, hresult]
      · constructor
        · rintro ⟨result, hjoined⟩
          exact ((hanthropic result).mp hjoined).1
        · exact fun htexts => ⟨_, (hanthropic _).mpr ⟨htexts, rfl⟩⟩
      · intro joined system hjoined
        obtain ⟨rfl, rfl⟩ := Prod.mk.inj ((hanthropic _).mp hjoined).2
        refine ⟨stretches_keys _, ?_, rfl, ?_⟩
        · rw [flatMap_parts, stretches_parts, ← flatMap_parts, List.flatMap_assoc]
          refine List.flatMap_congr fun w hw => entry_said (hwritten w ?_)
          rwa [← hresult]
        · have hvoiced : (∀ m ∈ stretches (s.result.flatMap (WireMessage.entry host)), m.2 ≠ []) ↔
              Voiced host (dicts.map some) := by
            rw [hout, stretches_flagged (outputs_all_flags houtputs)]
            unfold Voiced
            rw [List.filterMap_map, show (id ∘ some : MessageDict → Option MessageDict) = some from rfl, List.filterMap_some,
              List.flatMap_def]
          have hplain := outputs_all_plain houtputs
          rw [← hresult] at hplain
          rw [hvoiced, ← hplain]
          exact and_congr_right fun _ =>
            ⟨fun hreplied => plain_of_replied hreplied, fun hplain => replied_stretches hrounds hws hplain⟩
  · cases h

/-! ### Two transcripts -/

/-- A decoder of the empty object. -/
def emptyObjectHost : Host := ⟨fun text => if text = ['\x7b', '\x7d'] then some (.obj []) else none, fun _ => false⟩

theorem emptyObjectHost_decodes : emptyObjectHost.Decodes (· = []) where
  empty := rfl
  read {text fields} h := by
    simp only [emptyObjectHost] at h
    split at h
    · exact (Json.obj.inj (Option.some.inj h)).symm
    · cases h
  again {text fields} hvalue h := by
    subst hvalue
    obtain rfl := Option.some.inj (show some ['\x7b', '\x7d'] = some text from h)
    rfl

/-- A question, a call without arguments, and its result. -/
def lookedUp : List (Option MessageDict) :=
  [some ⟨some "user", some (.text ['?']), .falsy, none⟩,
    some ⟨some "assistant", some .null, .items [some ⟨some (.str ['1']), some (.str ['f']), some (.obj []), none, none⟩], none⟩,
    some ⟨some "tool", some (.text ['!']), .falsy, some ['1']⟩]

/-- The same, serialized. -/
def lookedUpWire : List WireMessage :=
  [⟨"user", .text ['?'], [], []⟩, ⟨"assistant", .text [], [⟨['1'], ['f'], ['\x7b', '\x7d']⟩], []⟩,
    ⟨"tool", .text ['!'], [], ['1']⟩]

theorem lookedUp_valued : ∀ m, some m ∈ lookedUp → m.Valued (· = []) := by
  intro m hm
  simp only [lookedUp, List.mem_cons, Option.some.injEq, List.not_mem_nil, or_false] at hm
  have hcall : ∀ c, some c ∈ [some (⟨some (.str ['1']), some (.str ['f']), some (.obj []), none, none⟩ : CallDict)] →
      c.Valued (· = []) := by
    intro c hc
    obtain rfl := Option.some.inj (List.mem_singleton.mp hc)
    exact ⟨fun fields h => (Json.obj.inj (Option.some.inj h)).symm, nofun, nofun⟩
  obtain rfl | rfl | rfl := hm
  · exact ⟨nofun, nofun⟩
  · refine ⟨fun items h => ?_, nofun⟩
    obtain rfl := RawCalls.items.inj h
    exact hcall
  · exact ⟨nofun, nofun⟩

theorem messages_serialized_call :
    RoundTrips lookedUpWire ∧
      openAiMessages emptyObjectHost (lookedUpWire.map fun w => some w.dict) = .ok lookedUpWire :=
  have h := messages_serialized emptyObjectHost_decodes lookedUp_valued
    (show openAiMessages emptyObjectHost lookedUp = .ok lookedUpWire from rfl)
  ⟨h.1, h.2.1⟩

/-- An assistant message that says nothing, after a question. -/
def silentTurn : List (Option MessageDict) :=
  [some ⟨some "user", some (.text ['?']), .falsy, none⟩, some ⟨some "assistant", some (.text []), .falsy, none⟩]

theorem silent_turn : ∃ joined system, anthropicMessages emptyObjectHost silentTurn = .ok (joined, system) ∧
    ¬∀ m ∈ joined, m.2 ≠ [] := by
  refine ⟨[("user", [.text (.text ['?'])]), ("assistant", [])], [], rfl, fun h => ?_⟩
  exact h ("assistant", []) (List.mem_cons_of_mem _ List.mem_cons_self) rfl

end HpAgent.Models
