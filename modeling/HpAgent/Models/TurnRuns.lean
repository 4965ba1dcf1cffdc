import HpAgent.Models.Turns

/-! # Transcripts that a provider takes

`Waiting` describes the transcripts that the runtime writes: every message of a model is followed by the results of its
calls, in their order, before the next message.  `Waiting.serialize` says that both serializers take such a transcript.

* `modelDecision_inv`, `toolExecution_inv`, `planning_inv`: what the activities keep.
* `transcript_sendable`: in every run whose responses are `WellIdentified`, the messages that are loaded for a model are
  such a transcript with no call left to answer. -/

namespace HpAgent.Models

open Library

variable {s : Store} {n v : ℕ} {a : Agent} {o : Occasion} {offered : List (List Char)} {content : List Char}

/-! ### Serialized messages -/

/-- A call that a provider takes. -/
structure ActionRequest.Good (c : ActionRequest) : Prop where
  id : c.id ≠ []
  name : c.name ≠ []
  finite : (Json.obj c.arguments).finite = true

/-- A good call, serialized. -/
def ActionRequest.wire (c : ActionRequest) : WireToolCall :=
  ⟨c.id, c.name, (Json.obj c.arguments).dumps [',', ' '] [':', ' ']⟩

theorem call_dict (host : Host) {c : ActionRequest} (h : c.Good) : call host c.dict = .ok c.wire := by
  have hnone : ¬ (c.id = [] ∨ c.name = []) := not_or.mpr ⟨h.id, h.name⟩
  have hencode : encode (.obj c.arguments) = some c.wire.arguments := if_pos h.finite
  show checkCall (.obj c.arguments) (some (.str c.id)) (some (.str c.name)) = _
  simp only [checkCall]
  rw [if_neg hnone, hencode]
  rfl

/-- A loop whose items all pass. -/
theorem mapM_ok {ε α β : Type} {f : α → Except ε β} {g : α → β} {items : List α} (h : ∀ x ∈ items, f x = .ok (g x)) :
    items.mapM f = .ok (items.map g) := by
  induction items with
  | nil => rfl
  | cons x rest ih =>
      rw [List.mapM_cons, h x List.mem_cons_self, ih fun y hy => h y (List.mem_cons_of_mem x hy)]
      rfl

theorem openAiMessage_context (host : Host) (m : Speaker × List Char) {s : Serialized} (h : s.pending = []) :
    openAiMessage host s (some (contextMessage m)) = .ok ⟨s.result ++ [⟨m.1.role, .text m.2, [], []⟩], []⟩ := by
  obtain ⟨speaker, text⟩ := m
  cases speaker with
  | system =>
      show appendMessage s ⟨"system", .text text, [], []⟩ = _
      simp [appendMessage, h, Speaker.role]
  | user =>
      show appendMessage s ⟨"user", .text text, [], []⟩ = _
      simp [appendMessage, h, Speaker.role]
  | assistant =>
      show appendMessage s ⟨"assistant", .text text, [], []⟩ = _
      simp [appendMessage, h, Speaker.role]

theorem rawCalls_good (host : Host) {calls : List ActionRequest} (h : ∀ c ∈ calls, c.Good) (content : List Char) :
    rawCalls host (assistantMessage content calls).toolCalls = .ok (calls.map ActionRequest.wire) := by
  unfold assistantMessage
  cases calls with
  | nil => rfl
  | cons c rest =>
      have hdicts : ((c :: rest).map fun c => some c.dict).filterMap id = (c :: rest).map ActionRequest.dict := by
        rw [List.filterMap_map]
        exact congrFun (@List.filterMap_eq_map _ _ ActionRequest.dict) (c :: rest)
      have hmap : ((c :: rest).map ActionRequest.dict).mapM (call host) = .ok ((c :: rest).map ActionRequest.wire) := by
        rw [List.mapM_map]
        exact mapM_ok fun x hx => call_dict host (h x hx)
      show (do
        let calls ← (((c :: rest).map fun c : ActionRequest => some c.dict).filterMap id).mapM (call host)
        if calls.length = ((c :: rest).map fun c : ActionRequest => some c.dict).length then Except.ok calls
        else invalid "invalid tool call object") = _
      rw [hdicts, hmap]
      show (if ((c :: rest).map ActionRequest.wire).length = _ then _ else _) = _
      rw [if_pos (by simp)]

theorem openAiMessage_calls (host : Host) {s : Serialized} (h : s.pending = []) {calls : List ActionRequest}
    (hgood : ∀ c ∈ calls, c.Good) (hnodup : (calls.map ActionRequest.id).Nodup) (content : List Char) :
    openAiMessage host s (some (assistantMessage content calls)) =
      .ok ⟨s.result ++ [⟨"assistant", .text content, calls.map ActionRequest.wire, []⟩], calls.map ActionRequest.id⟩ := by
  have hids : (calls.map ActionRequest.wire).map WireToolCall.id = calls.map ActionRequest.id := by
    rw [List.map_map]
    rfl
  show (do
    let raw ← rawCalls host (assistantMessage content calls).toolCalls
    let output ← assistantContent host raw (.text content)
    appendMessage s ⟨"assistant", .text output.2, output.1, []⟩) = _
  rw [rawCalls_good host hgood]
  show appendMessage s ⟨"assistant", .text content, calls.map ActionRequest.wire, []⟩ = _
  unfold appendMessage
  rw [hids, if_neg (by simp [h]), if_neg (by simpa using hnodup)]

theorem openAiMessage_result (host : Host) {s : Serialized} {id : List Char} {rest : List (List Char)}
    (h : s.pending = id :: rest) (content : List Char) :
    openAiMessage host s (some (toolMessage id content)) = .ok ⟨s.result ++ [⟨"tool", .text content, [], id⟩], rest⟩ := by
  show appendResult s (some id) (.text content) = _
  simp [appendResult, h]

/-! ### Transcripts -/

/-- The messages of a transcript, of which these calls still wait for their results. -/
inductive Waiting : List MessageDict → List ActionRequest → Prop
  | nil : Waiting [] []
  | context {ms} (h : Waiting ms []) (m : Speaker × List Char) : Waiting (ms ++ [contextMessage m]) []
  | calls {ms} (h : Waiting ms []) (content : List Char) {calls : List ActionRequest} (hgood : ∀ c ∈ calls, c.Good)
      (hnodup : (calls.map ActionRequest.id).Nodup) : Waiting (ms ++ [assistantMessage content calls]) calls
  | result {ms c rest} (h : Waiting ms (c :: rest)) (content : List Char) : Waiting (ms ++ [toolMessage c.id content]) rest

variable {ms : List MessageDict}

theorem Waiting.opened (context : List (Speaker × List Char)) : Waiting (context.map contextMessage) [] := by
  induction context using List.reverseRecOn with
  | nil => exact .nil
  | append_singleton init m ih =>
      rw [List.map_append]
      exact .context ih m

theorem Waiting.nodup {calls : List ActionRequest} (h : Waiting ms calls) :
    (calls.map ActionRequest.id).Nodup := by
  induction h with
  | nil => exact List.nodup_nil
  | context _ _ _ => exact List.nodup_nil
  | calls _ _ _ hnodup _ => exact hnodup
  | result _ _ ih => exact (List.nodup_cons.mp ih).2

/-- Messages that the second serializer takes from the first. -/
def WireMessage.Readable (host : Host) (m : WireMessage) : Prop :=
  (∃ text, m.content = .text text) ∧ ∀ c ∈ m.toolCalls, (host.loads c.arguments).isSome = true

/-- `json.loads` reads what `json.dumps` writes. -/
def Host.Reads (host : Host) : Prop := ∀ arguments text, encode arguments = some text → (host.loads text).isSome = true

theorem wire_readable {host : Host} (h : host.Reads) {c : ActionRequest} (hc : c.Good) :
    (host.loads c.wire.arguments).isSome = true := by
  apply h (.obj c.arguments)
  unfold encode
  rw [if_pos hc.finite]
  rfl

/-- The first serializer takes the messages, and leaves these calls without a result. -/
def Taken (host : Host) (ms : List MessageDict) (pending : List (List Char)) : Prop :=
  ∃ result, (ms.map some).foldlM (openAiMessage host) ⟨[], []⟩ = .ok ⟨result, pending⟩ ∧ ∀ m ∈ result, m.Readable host

theorem Taken.append {host : Host} {m : MessageDict} {pending next : List (List Char)}
    (h : Taken host ms pending) {w : WireMessage} (hw : w.Readable host)
    (hstep : ∀ result, openAiMessage host ⟨result, pending⟩ (some m) = .ok ⟨result ++ [w], next⟩) :
    Taken host (ms ++ [m]) next := by
  obtain ⟨result, hfold, hall⟩ := h
  refine ⟨result ++ [w], ?_, ?_⟩
  · rw [List.map_append, List.foldlM_append, hfold]
    show (openAiMessage host ⟨result, pending⟩ (some m)).bind (fun s => .ok s) = _
    rw [hstep]
    rfl
  · intro m' hm'
    cases List.mem_append.mp hm' with
    | inl hold => exact hall m' hold
    | inr hnew =>
        rw [List.mem_singleton.mp hnew]
        exact hw

theorem Waiting.taken {host : Host} (hreads : host.Reads) {calls : List ActionRequest}
    (h : Waiting ms calls) : Taken host ms (calls.map ActionRequest.id) := by
  induction h with
  | nil => exact ⟨[], rfl, fun m hm => absurd hm List.not_mem_nil⟩
  | context _ m ih =>
      have hreadable : (⟨m.1.role, .text m.2, [], []⟩ : WireMessage).Readable host :=
        ⟨⟨m.2, rfl⟩, fun c hc => absurd hc List.not_mem_nil⟩
      apply ih.append hreadable
      intro result
      exact openAiMessage_context host m rfl
  | @calls _ _ content calls hgood hnodup ih =>
      have hreadable : (⟨"assistant", .text content, calls.map ActionRequest.wire, []⟩ : WireMessage).Readable host := by
        refine ⟨⟨content, rfl⟩, ?_⟩
        intro c hc
        obtain ⟨action, haction, rfl⟩ := List.mem_map.mp hc
        exact wire_readable hreads (hgood action haction)
      apply ih.append hreadable
      intro result
      exact openAiMessage_calls host rfl hgood hnodup content
  | @result _ c _ _ content ih =>
      have hreadable : (⟨"tool", .text content, [], c.id⟩ : WireMessage).Readable host :=
        ⟨⟨content, rfl⟩, fun d hd => absurd hd List.not_mem_nil⟩
      apply ih.append hreadable
      intro result
      exact openAiMessage_result host rfl content

/-- A readable message is taken by the second serializer. -/
theorem anthropicMessage_readable {host : Host} {m : WireMessage} (h : m.Readable host)
    (s : List (String × List OutBlock) × List (List Char)) : ∃ s', anthropicMessage host s m = .ok s' := by
  obtain ⟨⟨text, htext⟩, hcalls⟩ := h
  have huses : ∃ uses, m.toolCalls.mapM (toolUseBlock host) = .ok uses := by
    have hok : ∀ c ∈ m.toolCalls,
        toolUseBlock host c = .ok (.toolUse c.id c.name ((host.loads c.arguments).getD .null)) := by
      intro c hc
      obtain ⟨input, hinput⟩ := Option.isSome_iff_exists.mp (hcalls c hc)
      unfold toolUseBlock
      rw [hinput]
      rfl
    exact ⟨_, mapM_ok hok⟩
  obtain ⟨uses, huses⟩ := huses
  have hblocks : ∃ blocks, blocksOf host m = .ok blocks := by
    unfold blocksOf
    split
    · rw [huses]
      exact ⟨_, rfl⟩
    · exact ⟨_, rfl⟩
    · rw [htext]
      exact ⟨_, rfl⟩
  obtain ⟨blocks, hblocks⟩ := hblocks
  unfold anthropicMessage
  rw [htext, hblocks]
  split_ifs with hsystem
  · exact ⟨_, rfl⟩
  · exact ⟨_, rfl⟩

theorem anthropic_readable {host : Host} {result : List WireMessage} (h : ∀ m ∈ result, m.Readable host)
    (s : List (String × List OutBlock) × List (List Char)) : ∃ s', result.foldlM (anthropicMessage host) s = .ok s' := by
  induction result generalizing s with
  | nil => exact ⟨s, rfl⟩
  | cons m rest ih =>
      obtain ⟨s', hs'⟩ := anthropicMessage_readable (h m List.mem_cons_self) s
      rw [List.foldlM_cons, hs']
      exact ih (fun m' hm' => h m' (List.mem_cons_of_mem m hm')) s'

/-- **Both serializers take a transcript whose calls are all answered.** -/
theorem Waiting.serialized {host : Host} (hreads : host.Reads) (h : Waiting ms []) :
    (∃ result, openAiMessages host (ms.map some) = .ok result) ∧
      ∃ result, anthropicMessages host (ms.map some) = .ok result := by
  obtain ⟨result, hfold, hall⟩ := h.taken hreads
  have hopenAi : openAiMessages host (ms.map some) = .ok result := by
    unfold openAiMessages
    rw [hfold]
    rfl
  refine ⟨⟨result, hopenAi⟩, ?_⟩
  obtain ⟨s, hs⟩ := anthropic_readable hall ([], [])
  unfold anthropicMessages
  rw [hopenAi]
  show ∃ r, (result.foldlM (anthropicMessage host) ([], [])).bind _ = .ok r
  rw [hs]
  exact ⟨_, rfl⟩

/-! ### Stages of a run -/

/-- What the model may answer: the calls that are recorded have identities, all different, and names; and no calls when
it ends a step of a plan. -/
def WellIdentified (a : Agent) : Answers := fun o offered actions =>
  (∀ c ∈ recordedCalls a o offered actions, c.id ≠ [] ∧ c.name ≠ []) ∧
    ((recordedCalls a o offered actions).map ActionRequest.id).Nodup ∧
    (a.strategy = .planExecute → o = .forcedFinal → a.toolFirst = false → recordedCalls a o offered actions = [])

def Operation.number : Operation → ℕ
  | .context => 0
  | .model n => n
  | .respond n => n
  | .tool n _ => n
  | .planner n => n

/-- Nothing is recorded from the `n`-th decision on. -/
def Store.Fresh (s : Store) (n : ℕ) : Prop := ∀ op : Operation, n ≤ op.number → s.completed op = none

def ActionRequest.compact (c : ActionRequest) : CompactToolCall := ⟨c.id, c.name⟩

/-- A recorded decision: its calls wait for their results. -/
structure Decided (a : Agent) (o : Occasion) (n : ℕ) (s : Store) (d : DecisionPayload) (calls : List ActionRequest) :
    Prop where
  recorded : s.completed (.model n) = some (.decision d)
  toolCalls : d.toolCalls = calls.map ActionRequest.compact
  waiting : Waiting s.messages calls
  version : d.transcriptVersion = s.version
  others : ∀ op : Operation, n ≤ op.number → op ≠ .model n → s.completed op = none
  final : d.final = true → calls = []
  answer : d.responseAction = true → ∃ c, calls = [c]
  forced : a.strategy = .planExecute → o = .forcedFinal → d.responseAction = false → calls = []

/-- A recorded answer of a Main agent. -/
structure Answered (n : ℕ) (s : Store) (final : Bool) (version : ℕ) : Prop where
  recorded : ∃ d, s.completed (.model n) = some (.decision d) ∧ d.responseAction = true
  answer : s.completed (.respond n) = some (.response final version)
  waiting : Waiting s.messages []
  others : s.Fresh (n + 1)

/-- Where a decision is. -/
inductive Deciding (a : Agent) (o : Occasion) (n : ℕ) (s : Store) : Prop
  | fresh (hw : Waiting s.messages []) (hfresh : s.Fresh n)
  | decided {d calls} (h : Decided a o n s d calls)
  | answered {final version} (h : Answered n s final version)

/-- Where the calls of a decision are: the first one can have its result already. -/
inductive Executing (n : ℕ) (s : Store) : List CompactToolCall → Prop
  | ready {calls : List ActionRequest} (hw : Waiting s.messages calls)
      (hnone : ∀ c ∈ calls, s.completed (.tool n c.id) = none) (hrest : s.Fresh (n + 1)) :
      Executing n s (calls.map ActionRequest.compact)
  | done {c : CompactToolCall} {calls : List ActionRequest} {success version} (hw : Waiting s.messages calls)
      (hc : s.completed (.tool n c.toolCallId) = some (.tool success version))
      (hnone : ∀ c ∈ calls, s.completed (.tool n c.id) = none) (hrest : s.Fresh (n + 1)) :
      Executing n s (c :: calls.map ActionRequest.compact)

/-- Where a plan is. -/
inductive Planning (n : ℕ) (s : Store) : Prop
  | fresh (hw : Waiting s.messages []) (hfresh : s.Fresh n)
  | planned {version} (hw : Waiting s.messages []) (hp : s.completed (.planner n) = some (.plan version))
      (hrest : s.Fresh (n + 1))

/-- What holds in every world of a run. -/
def World.Inv (a : Agent) (w : World) : Prop :=
  match w.phase with
  | .deciding n o => Deciding a o n w.store
  | .tools n toolCalls => Executing n w.store toolCalls
  | .planning n => Planning n w.store
  | .between n => Waiting w.store.messages [] ∧ w.store.Fresh n
  | .ended => True

/-- What a commit leaves behind. -/
theorem complete_ok {s' : Store} {op : Operation} {payload : ℕ → Payload}
    (h : s.complete s.version op ms payload = .ok (v, s')) :
    s'.messages = s.messages ++ ms ∧ s'.version = v ∧
      s'.completed = Function.update s.completed op (some (payload v)) := by
  unfold Store.complete at h
  rw [if_neg (by simp)] at h
  split_ifs at h with hevent hdone
  cases h
  refine ⟨?_, ?_, rfl⟩
  · simp [Store.messages]
  · simp [Store.version]

/-! ### Decisions -/

theorem stepOver_cases (a : Agent) (n : ℕ) (r : DecisionResult) :
    a.stepOver n r = .ended ∨ a.stepOver n r = .between (n + 1) := by
  unfold Agent.stepOver
  split_ifs with h
  · exact .inl rfl
  · exact .inr rfl

/-- After a decision without an answer of its own, the workflow goes on with the calls that wait. -/
theorem Decided.after {d : DecisionPayload} {calls : List ActionRequest}
    (h : Decided a o n s d calls) (hanswer : d.responseAction = false) (v : ℕ) :
    World.Inv a ⟨s, a.afterDecision o n ⟨d.final, d.toolCalls, v, false⟩, v⟩ := by
  have hrest : s.Fresh (n + 1) := by
    intro op hop
    apply h.others op (by omega)
    intro heq
    rw [heq] at hop
    exact absurd hop (by simp [Operation.number])
  have hover : calls = [] → World.Inv a ⟨s, a.stepOver n ⟨d.final, d.toolCalls, v, false⟩, v⟩ := by
    intro hnil
    have hw := h.waiting
    rw [hnil] at hw
    cases stepOver_cases a n ⟨d.final, d.toolCalls, v, false⟩ with
    | inl hphase =>
        rw [hphase]
        exact trivial
    | inr hphase =>
        rw [hphase]
        exact ⟨hw, hrest⟩
  cases o with
  | synthesis => exact trivial
  | forcedFinal =>
      by_cases hreact : a.strategy = .react
      · show World.Inv a ⟨s, a.stepOver n _, v⟩
        unfold Agent.stepOver
        rw [if_pos (.inl hreact)]
        exact trivial
      · have hplan : a.strategy = .planExecute := by
          cases hs : a.strategy with
          | react => exact absurd hs hreact
          | planExecute => rfl
        exact hover (h.forced hplan rfl hanswer)
  | turn =>
      show World.Inv a ⟨s, if d.final then _ else _, v⟩
      split_ifs with hfinal
      · exact hover (h.final hfinal)
      · show Executing n s d.toolCalls
        rw [h.toolCalls]
        exact .ready h.waiting (fun c _ => h.others _ (Nat.le_refl n) (by simp)) hrest

/-- After an answer the run is over, or the next turn begins. -/
theorem Answered.after {final : Bool} {version : ℕ}
    (h : Answered n s final version) (hfinal : o.finalOnly = true → final = true) :
    World.Inv a ⟨s, a.afterDecision o n ⟨final, [], version, final⟩, version⟩ := by
  have hover : final = true → World.Inv a ⟨s, a.stepOver n ⟨final, [], version, final⟩, version⟩ := by
    intro hf
    unfold Agent.stepOver
    rw [if_pos (.inr hf)]
    exact trivial
  cases o with
  | synthesis => exact trivial
  | forcedFinal => exact hover (hfinal rfl)
  | turn =>
      show World.Inv a ⟨s, if final then _ else _, version⟩
      split_ifs with hf
      · exact hover hf
      · exact @Executing.ready n s [] h.waiting (fun c hc => absurd hc List.not_mem_nil) h.others

/-- What a call of an activity leaves behind: the stage, and where the workflow is with its result. -/
structure Keeps (a : Agent) (o : Occasion) (n : ℕ) (out : Except Failure DecisionResult × Store) : Prop where
  stage : Deciding a o n out.2
  after : ∀ r, out.1 = .ok r → World.Inv a ⟨out.2, a.afterDecision o n r, r.transcriptVersion⟩

theorem Keeps.error {e : Failure} (h : Deciding a o n s) :
    Keeps a o n (.error e, s) := by
  constructor
  · exact h
  · intro r hr
    cases hr

theorem Answered.keeps {final : Bool} {version : ℕ}
    (h : Answered n s final version) :
    Keeps a o n (if o.finalOnly && !final then .error .mainToolProtocolInvalid else .ok ⟨final, [], version, final⟩, s) := by
  split_ifs with hrejected
  · exact .error (.answered h)
  · constructor
    · exact .answered h
    · intro r hr
      cases hr
      apply h.after
      intro ho
      simpa [ho] using hrejected

/-- The result of the only call is recorded. -/
theorem Decided.answered {a : Agent} {o : Occasion} {n : ℕ} {s s' : Store} {d : DecisionPayload} {c : ActionRequest}
    (h : Decided a o n s d [c]) (hanswer : d.responseAction = true) {text : List Char} {final : Bool} {v : ℕ}
    (hcommit : s.complete d.transcriptVersion (.respond n) [toolMessage c.id text] (.response final) = .ok (v, s')) :
    Answered n s' final v := by
  rw [h.version] at hcommit
  obtain ⟨hmessages, -, hcompleted⟩ := complete_ok hcommit
  constructor
  · refine ⟨d, ?_, hanswer⟩
    rw [hcompleted, Function.update_of_ne (by simp), h.recorded]
  · rw [hcompleted, Function.update_self]
  · rw [hmessages]
    exact h.waiting.result text
  · intro op hop
    have hmodel : op ≠ .model n := by
      intro heq
      rw [heq] at hop
      exact absurd hop (by simp [Operation.number])
    have hrespond : op ≠ .respond n := by
      intro heq
      rw [heq] at hop
      exact absurd hop (by simp [Operation.number])
    rw [hcompleted, Function.update_of_ne hrespond]
    exact h.others op (by omega) hmodel

theorem mainResponse_decided {d : DecisionPayload}
    {calls : List ActionRequest} (h : Decided a o n s d calls) (hanswer : d.responseAction = true) (answer : Answer) :
    Keeps a o n (mainResponse o n d answer s) := by
  obtain ⟨c, rfl⟩ := h.answer hanswer
  have hnone : s.completed (.respond n) = none := h.others _ (Nat.le_refl n) (by simp)
  have hcalls : d.toolCalls = [c.compact] := h.toolCalls
  unfold mainResponse
  rw [hnone, hcalls]
  cases answer with
  | failed => exact .error (.decided h)
  | accepted receipt =>
      cases hcommit : s.complete d.transcriptVersion (.respond n) [toolMessage c.id receipt] (.response true) with
      | error e =>
          simp only [ActionRequest.compact, hcommit]
          exact .error (.decided h)
      | ok p =>
          simp only [ActionRequest.compact, hcommit]
          exact (h.answered hanswer hcommit).keeps
  | rejected text =>
      cases hcommit : s.complete d.transcriptVersion (.respond n) [toolMessage c.id text] (.response false) with
      | error e =>
          simp only [ActionRequest.compact, hcommit]
          exact .error (.decided h)
      | ok p =>
          simp only [ActionRequest.compact, hcommit]
          exact (h.answered hanswer hcommit).keeps

theorem mainResponse_answered {final : Bool} {version : ℕ}
    (h : Answered n s final version) (d : DecisionPayload) (answer : Answer) :
    Keeps a o n (mainResponse o n d answer s) := by
  unfold mainResponse
  rw [h.answer]
  exact h.keeps

/-- What is recorded of well-identified actions. -/
theorem decided_commit {s' : Store}
    {actions : List ActionRequest} (hw : Waiting s.messages []) (hfresh : s.Fresh n)
    (hids : WellIdentified a o offered actions)
    (hfinite : (actions.any fun c => !(Json.obj c.arguments).finite) = false)
    (hvalid : (invalidAction a o offered actions && o.finalOnly) = false)
    (hcommit : s.complete s.version (.model n)
      [assistantMessage (recordedContent a o offered actions content) (recordedCalls a o offered actions)]
      (fun v => .decision (decisionPayload a o offered actions v)) = .ok (v, s')) :
    Decided a o n s' (decisionPayload a o offered actions v) (recordedCalls a o offered actions) := by
  obtain ⟨hmessages, hversion, hcompleted⟩ := complete_ok hcommit
  have hgood : ∀ c ∈ recordedCalls a o offered actions, c.Good := by
    intro c hc
    have hmem : c ∈ actions := by
      unfold recordedCalls at hc
      split_ifs at hc
      · exact absurd hc List.not_mem_nil
      · exact hc
    have hfin := List.any_eq_false.mp hfinite c hmem
    exact ⟨(hids.1 c hc).1, (hids.1 c hc).2, by simpa using hfin⟩
  constructor
  · rw [hcompleted, Function.update_self]
  · rfl
  · rw [hmessages]
    exact .calls hw _ hgood hids.2.1
  · exact hversion.symm
  · intro op hop hne
    rw [hcompleted, Function.update_of_ne hne]
    exact hfresh op hop
  · intro hfinal
    have hempty : (recordedCalls a o offered actions).isEmpty = true := (Bool.and_eq_true_iff.mp hfinal).1
    exact List.isEmpty_iff.mp hempty
  · intro hanswer
    -- an answer comes from a valid choice, which is a single call
    have htool : a.toolFirst = true := (Bool.and_eq_true_iff.mp hanswer).1
    have hhead := (Bool.and_eq_true_iff.mp hanswer).2
    unfold recordedCalls at hhead ⊢
    split_ifs at hhead ⊢ with hinvalid
    · exact absurd hhead (by simp)
    · unfold invalidAction at hinvalid
      rw [htool] at hinvalid
      match actions, hinvalid with
      | [c], _ => exact ⟨c, rfl⟩
      | [], hinvalid => exact absurd rfl hinvalid
      | _ :: _ :: _, hinvalid => exact absurd rfl hinvalid
  · intro hplan hforced hanswer
    by_cases htool : a.toolFirst = true
    · -- the last choice of a Main agent is its answer
      have hinvalid : invalidAction a o offered actions = false := by
        rw [hforced] at hvalid ⊢
        simpa [Occasion.finalOnly] using hvalid
      exfalso
      have hanswer' : (a.toolFirst && ((recordedCalls a o offered actions).head?.map
        fun c => c.name == respondDirectly).getD false) = false := hanswer
      unfold recordedCalls at hanswer'
      rw [hinvalid, htool] at hanswer'
      unfold invalidAction at hinvalid
      rw [htool, hforced] at hinvalid
      match actions, hinvalid, hanswer' with
      | [c], hinvalid, hanswer' =>
          have hname : c.name = respondDirectly := by
            have hparts := (Bool.or_eq_false_iff.mp hinvalid).2
            simpa [Occasion.finalOnly] using hparts
          simp [hname] at hanswer'
      | [], hinvalid, _ => exact absurd hinvalid (by simp)
      | _ :: _ :: _, hinvalid, _ => exact absurd hinvalid (by simp)
    · exact hids.2.2 hplan hforced (by simpa using htool)

/-- **A decision keeps the stage, and its result is where the workflow goes on.** -/
theorem modelDecision_keeps (h : Deciding a o n s)
    {response : ModelResponse} (hids : (WellIdentified a).Allows o offered response)
    (answer : Answer) : Keeps a o n (modelDecision a o n v offered response answer s) := by
  cases h with
  | @decided d calls hd =>
      unfold modelDecision
      rw [hd.recorded]
      show Keeps a o n (if d.responseAction then _ else _)
      split_ifs with hanswer
      · exact mainResponse_decided hd hanswer answer
      · exact ⟨.decided hd, fun r hr => by cases hr; exact hd.after (by simpa using hanswer) _⟩
  | @answered final version ha =>
      obtain ⟨d, hd, hanswer⟩ := ha.recorded
      unfold modelDecision
      rw [hd]
      show Keeps a o n (if d.responseAction then _ else _)
      rw [if_pos hanswer]
      exact mainResponse_answered ha d answer
  | fresh hw hfresh =>
      have hstage : Deciding a o n s := .fresh hw hfresh
      unfold modelDecision
      rw [hfresh (.model n) (Nat.le_refl n)]
      by_cases hversion : s.version = v
      · subst hversion
        simp only [ne_eq, not_true_eq_false, if_false]
        cases hserialize : a.serialize s.messages with
        | error e => exact .error hstage
        | ok u =>
            cases hactions : (response.toolCalls.getD []).mapM ActionRequest.fromToolCall with
            | none => exact .error hstage
            | some actions =>
                show Keeps a o n (if invalidAction a o offered actions && o.finalOnly then _ else _)
                split_ifs with hvalid hfinite
                · exact .error hstage
                · exact .error hstage
                · cases hcommit : s.complete s.version (.model n)
                    [assistantMessage (recordedContent a o offered actions (response.content.getD []))
                      (recordedCalls a o offered actions)]
                    (fun v => .decision (decisionPayload a o offered actions v)) with
                  | error e => exact .error hstage
                  | ok p =>
                      obtain ⟨v, s'⟩ := p
                      have hdecided := decided_commit hw hfresh (hids actions hactions) (by simpa using hfinite)
                        (by simpa using hvalid) hcommit
                      show Keeps a o n (if (decisionPayload a o offered actions v).responseAction then _ else _)
                      split_ifs with hanswer
                      · exact mainResponse_decided hdecided hanswer answer
                      · exact ⟨.decided hdecided, fun r hr => by
                          cases hr
                          exact hdecided.after (by simpa using hanswer) _⟩
      · rw [if_pos hversion]
        exact .error hstage

/-! ### Tools and plans -/

/-- The first call has its result: the others go on waiting. -/
theorem Executing.rest {c : CompactToolCall} {rest : List CompactToolCall} {success : Bool}
    (h : Executing n s (c :: rest)) (hc : s.completed (.tool n c.toolCallId) = some (.tool success v)) :
    Executing n s rest := by
  generalize hcs : c :: rest = cs at h
  cases h with
  | @ready calls hw hnone hrest =>
      cases calls with
      | nil => cases hcs
      | cons action others =>
          cases hcs
          have hne := hnone action List.mem_cons_self
          rw [show s.completed (.tool n action.id) = _ from hc] at hne
          cases hne
  | done hw _ hnone hrest =>
      cases hcs
      exact .ready hw hnone hrest

/-- The result of the first call is recorded. -/
theorem executing_commit {s' : Store} {action : ActionRequest} {others : List ActionRequest}
    (hw : Waiting s.messages (action :: others)) (hnone : ∀ c ∈ action :: others, s.completed (.tool n c.id) = none)
    (hrest : s.Fresh (n + 1)) {success : Bool}
    (hcommit : s.complete s.version (.tool n action.id) [toolMessage action.id content] (.tool success) = .ok (v, s')) :
    Executing n s' (action.compact :: others.map ActionRequest.compact) ∧
      s'.completed (.tool n action.id) = some (.tool success v) := by
  obtain ⟨hmessages, -, hcompleted⟩ := complete_ok hcommit
  have hself : s'.completed (.tool n action.id) = some (.tool success v) := by
    rw [hcompleted, Function.update_self]
  refine ⟨.done ?_ hself ?_ ?_, hself⟩
  · rw [hmessages]
    exact hw.result content
  · intro c hc
    have hid : c.id ≠ action.id := by
      intro heq
      have hmem : c.id ∈ others.map ActionRequest.id := List.mem_map_of_mem hc
      rw [heq] at hmem
      exact (List.nodup_cons.mp hw.nodup).1 hmem
    rw [hcompleted, Function.update_of_ne (by simpa using hid)]
    exact hnone c (List.mem_cons_of_mem action hc)
  · intro op hop
    have hne : op ≠ .tool n action.id := by
      intro heq
      rw [heq] at hop
      exact absurd hop (by simp [Operation.number])
    rw [hcompleted, Function.update_of_ne hne]
    exact hrest op hop

/-- **A tool keeps the calls that wait, and its result takes the first one away.** -/
theorem toolExecution_keeps {c : CompactToolCall} {rest : List CompactToolCall}
    (h : Executing n s (c :: rest)) (outcome : ToolOutcome) :
    Executing n (toolExecution n c v outcome s).2 (c :: rest) ∧
      ∀ v', (toolExecution n c v outcome s).1 = .ok v' → Executing n (toolExecution n c v outcome s).2 rest := by
  have hsame : ∀ e : Failure, Executing n s (c :: rest) ∧ ∀ v', (Except.error e : Except Failure ℕ) = .ok v' →
      Executing n s rest := by
    intro e
    refine ⟨h, ?_⟩
    intro v' hv'
    cases hv'
  generalize hcs : c :: rest = cs at h
  cases h with
  | done hw hc hnone hrest =>
      cases hcs
      unfold toolExecution
      rw [hc]
      refine ⟨.done hw hc hnone hrest, ?_⟩
      intro v' _
      exact .ready hw hnone hrest
  | @ready calls hw hnone hrest =>
      cases calls with
      | nil => cases hcs
      | cons action others =>
          cases hcs
          have hfirst : s.completed (.tool n action.compact.toolCallId) = none := hnone action List.mem_cons_self
          unfold toolExecution
          rw [hfirst]
          by_cases hversion : s.version = v
          · subst hversion
            simp only [ne_eq, not_true_eq_false, if_false]
            cases harguments : toolCallArguments s n action.compact.toolCallId with
            | error e => exact hsame e
            | ok arguments =>
                cases outcome with
                | failed => exact hsame _
                | result success content =>
                    cases hcommit : s.complete s.version (.tool n action.id) [toolMessage action.id content]
                      (.tool success) with
                    | error e =>
                        simp only [ActionRequest.compact, hcommit]
                        exact hsame e
                    | ok p =>
                        obtain ⟨v', s'⟩ := p
                        obtain ⟨hstage, hself⟩ := executing_commit hw hnone hrest hcommit
                        simp only [ActionRequest.compact, hcommit]
                        refine ⟨hstage, ?_⟩
                        intro _ _
                        exact hstage.rest hself
          · rw [if_pos hversion]
            exact hsame _

/-- **A plan keeps the transcript without waiting calls.** -/
theorem planning_keeps (a : Agent) (h : Planning n s) :
    Planning n (planning a n v s).2 ∧ ∀ v', (planning a n v s).1 = .ok v' →
      Waiting (planning a n v s).2.messages [] ∧ (planning a n v s).2.Fresh (n + 1) := by
  have hsame : ∀ e : Failure, Planning n s ∧ ∀ v', (Except.error e : Except Failure ℕ) = .ok v' →
      Waiting s.messages [] ∧ s.Fresh (n + 1) := by
    intro e
    refine ⟨h, ?_⟩
    intro v' hv'
    cases hv'
  cases h with
  | planned hw hp hrest =>
      unfold planning
      rw [hp]
      exact ⟨.planned hw hp hrest, fun _ _ => ⟨hw, hrest⟩⟩
  | fresh hw hfresh =>
      unfold planning
      rw [hfresh (.planner n) (Nat.le_refl n)]
      by_cases hversion : s.version = v
      · subst hversion
        simp only [ne_eq, not_true_eq_false, if_false]
        cases hserialize : a.serialize s.messages with
        | error e => exact hsame _
        | ok u =>
            cases hcommit : s.complete s.version (.planner n) [] .plan with
            | error e => exact hsame e
            | ok p =>
                obtain ⟨v', s'⟩ := p
                obtain ⟨hmessages, -, hcompleted⟩ := complete_ok hcommit
                have hw' : Waiting s'.messages [] := by
                  rw [hmessages, List.append_nil]
                  exact hw
                have hrest : s'.Fresh (n + 1) := by
                  intro op hop
                  have hne : op ≠ .planner n := by
                    intro heq
                    rw [heq] at hop
                    exact absurd hop (by simp [Operation.number])
                  rw [hcompleted, Function.update_of_ne hne]
                  exact hfresh op (by omega)
                have hself : s'.completed (.planner n) = some (.plan v') := by
                  rw [hcompleted, Function.update_self]
                exact ⟨.planned hw' hself hrest, fun _ _ => ⟨hw', hrest⟩⟩
      · rw [if_pos hversion]
        exact hsame _

/-! ### Runs -/

theorem inv_begin (a : Agent) (context : List (Speaker × List Char)) : World.Inv a (a.begin context) := by
  have hw : Waiting (opened context).messages [] := by
    have hmessages : (opened context).messages = context.map contextMessage := by
      simp [Store.messages, HpAgent.Models.opened]
    rw [hmessages]
    exact Waiting.opened context
  have hfresh : (opened context).Fresh 1 := by
    intro op hop
    show (if op = .context then some Payload.context else none) = none
    rw [if_neg]
    intro heq
    rw [heq] at hop
    exact absurd hop (by simp [Operation.number])
  unfold Agent.begin
  split_ifs
  · exact .fresh hw hfresh
  · exact .fresh hw hfresh

theorem Step.inv {w w' : World} (h : Step a (WellIdentified a) w w') (hinv : w.Inv a) : w'.Inv a := by
  cases h with
  | decide offered response answer r hids hr => exact (modelDecision_keeps hinv hids answer).after r hr
  | decideLost offered response answer hids => exact (modelDecision_keeps hinv hids answer).stage
  | tool outcome v' hr => exact (toolExecution_keeps hinv outcome).2 v' hr
  | toolLost outcome => exact (toolExecution_keeps hinv outcome).1
  | @nextTurn s n v o ho =>
      generalize hcs : ([] : List CompactToolCall) = cs at hinv
      have hexecuting : Executing n s cs := hinv
      cases hexecuting with
      | @ready calls hw hnone hrest =>
          cases calls with
          | nil => exact .fresh hw hrest
          | cons c rest => cases hcs
      | done => cases hcs
  | plan v' hr => exact (planning_keeps a hinv).2 v' hr
  | planLost => exact (planning_keeps a hinv).1
  | replan => exact .fresh hinv.1 hinv.2
  | nextStep o => exact .fresh hinv.1 hinv.2
  | fail => exact trivial

theorem Reach.inv {context : List (Speaker × List Char)} {w : World}
    (h : Reach a (WellIdentified a) context w) : w.Inv a := by
  induction h with
  | refl => exact inv_begin a context
  | tail _ hstep ih => exact hstep.inv ih

/-- A model is asked when no call waits. -/
theorem Reach.waiting {context : List (Speaker × List Char)} {w : World}
    (h : Reach a (WellIdentified a) context w) (hloads : w.Loads) : Waiting w.store.messages [] := by
  have hinv := h.inv
  obtain ⟨s, phase, v⟩ := w
  cases phase with
  | deciding n o =>
      have hnone : s.completed (.model n) = none := hloads
      have hstage : Deciding a o n s := hinv
      cases hstage with
      | fresh hw => exact hw
      | decided hd =>
          rw [hd.recorded] at hnone
          cases hnone
      | answered ha =>
          obtain ⟨d, hd, -⟩ := ha.recorded
          rw [hd] at hnone
          cases hnone
  | tools n toolCalls => exact absurd hloads id
  | planning n =>
      have hstage : Planning n s := hinv
      cases hstage with
      | fresh hw => exact hw
      | planned hw => exact hw
  | between n => exact hinv.1
  | ended => exact absurd hloads id

/-- In a run whose model answers are well identified, a model is asked with a transcript in which every call has been
answered, once and before the next message, and which both serializers take. -/
theorem transcript_sendable (a : Agent) (hreads : a.host.Reads) (context : List (Speaker × List Char)) (w : World)
    (h : Reach a (WellIdentified a) context w) (hloads : w.Loads) :
    Waiting w.store.messages [] ∧ (∃ result, openAiMessages a.host (w.store.messages.map some) = .ok result) ∧
      ∃ result, anthropicMessages a.host (w.store.messages.map some) = .ok result :=
  ⟨h.waiting hloads, (h.waiting hloads).serialized hreads⟩

/-- A ReAct agent; its host reads an empty object. -/
def sampleAgent : Agent := ⟨⟨fun _ => some (.obj []), fun c => c.isAlphanum⟩, true, false, .react⟩

def sampleContext : List (Speaker × List Char) := [(.user, ['h', 'i'])]

/-- A response with one call. -/
def sampleResponse (id : List Char) : ModelResponse := ⟨none, some [⟨id, ['f'], .obj []⟩], .toolUse⟩

/-- The store after the response, and after its call. -/
def sampleDecided (id : List Char) : Store :=
  (modelDecision sampleAgent .turn 1 1 [] (sampleResponse id) .failed (opened sampleContext)).2

def sampleExecuted (id : List Char) : Store :=
  (toolExecution 1 ⟨id, ['f']⟩ 2 (.result true ['o', 'k']) (sampleDecided id)).2

/-- The run of one turn. -/
theorem sample_reach {P : Answers} {id : List Char} (hP : P.Allows .turn [] (sampleResponse id))
    (hdecision : (modelDecision sampleAgent .turn 1 1 [] (sampleResponse id) .failed (opened sampleContext)).1 =
      .ok ⟨false, [⟨id, ['f']⟩], 2, false⟩)
    (htool : (toolExecution 1 ⟨id, ['f']⟩ 2 (.result true ['o', 'k']) (sampleDecided id)).1 = .ok 3) :
    Reach sampleAgent P sampleContext ⟨sampleExecuted id, .deciding 2 .turn, 3⟩ :=
  ((Relation.ReflTransGen.refl.tail (.decide [] (sampleResponse id) .failed _ hP hdecision)).tail
    (.tool (.result true ['o', 'k']) 3 htool)).tail (.nextTurn .turn (by decide))

theorem transcript_sendable_sample : Waiting (sampleExecuted ['c']).messages [] ∧
    (∃ result, openAiMessages sampleAgent.host ((sampleExecuted ['c']).messages.map some) = .ok result) ∧
      ∃ result, anthropicMessages sampleAgent.host ((sampleExecuted ['c']).messages.map some) = .ok result := by
  have hidentified : (WellIdentified sampleAgent).Allows .turn [] (sampleResponse ['c']) := by
    intro actions hactions
    cases hactions
    refine ⟨?_, by decide, fun hplan => absurd hplan (by decide)⟩
    intro c hc
    rw [List.mem_singleton.mp hc]
    exact ⟨by decide, by decide⟩
  exact transcript_sendable sampleAgent (fun _ _ _ => rfl) sampleContext ⟨sampleExecuted ['c'], .deciding 2 .turn, 3⟩
    (sample_reach hidentified rfl rfl) rfl

/-- A call without identity is recorded, and the next decision cannot be sent. -/
theorem not_transcript_sendable : ¬ ∀ w, Reach sampleAgent (fun _ _ _ => True) sampleContext w → w.Loads →
    ∃ result, openAiMessages sampleAgent.host (w.store.messages.map some) = .ok result := by
  intro hall
  obtain ⟨result, hresult⟩ := hall ⟨sampleExecuted [], .deciding 2 .turn, 3⟩ (sample_reach (fun _ _ => trivial) rfl rfl) rfl
  have hrefused : openAiMessages sampleAgent.host ((sampleExecuted []).messages.map some) =
      .error (.modelRequestInvalid "invalid tool call") := rfl
  rw [hrefused] at hresult
  cases hresult

end HpAgent.Models
