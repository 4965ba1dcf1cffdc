import HpAgent.Stream.RunFeed
import HpAgent.Stream.GatewayRuns

/-! # The event sinks of a Run

The activities of a Run publish its online events through sinks.  A sink numbers the events under a stream id of its own; a
worker process keeps the sink of a Run and gives it to every activity that asks, until the Run's root trace has ended or its
terminal commit has been seen.

* `Emission.draft`, `RedisSink.envelope`: the events.
* `Publishing.step`: one step of an activity, or of a process.
* `gateway`: what a client is sent that subscribed before the first event.
* `Healthy`: such a client has been told of every delta, and the stream is not degraded. -/

namespace HpAgent.Stream

open Library

/-! ### Events -/

/-- What an activity publishes; the metadata of a trace event is what was left of it for the trace. -/
inductive Emission where
  | started (status startedAt : List Char)
  | status (status : List Char) (runVersion : Option ℕ)
  | delta (deltaText messageId : List Char)
  | progress (phase summary : List Char)
  | traceStart (nodeId : List Char) (parentId : Option (List Char)) (name nodeType : List Char) (metadata : List (List Char × Json))
  | traceEnd (nodeId status : List Char) (metadata : List (List Char × Json)) (durationMs : Option ℕ)

/-- `_RUN_STATUSES`. -/
def runStatuses : List (List Char) := ["queued".toList, "running".toList, "cancelling".toList]

/-- `PROGRESS_PHASES`. -/
def progressPhases : List (List Char) :=
  ["assembling_context".toList, "recalling_memory".toList, "calling_model".toList, "selecting_tools".toList, "executing_tool".toList,
    "finalizing".toList, "starting".toList, "generating".toList, "planning".toList, "plan_ready".toList, "executing_step".toList,
    "evaluating_step".toList, "replanning".toList, "synthesizing".toList, "waiting_for_account_execution".toList]

/-- An event without its envelope. -/
structure Draft where
  eventType : List Char
  messageId : Option (List Char)
  payload : List (List Char × Json)
  online : Bool

def textOrNull (text : Option (List Char)) : Json := (text.map Json.str).getD .null

/-- The event, unless an argument is refused. -/
def Emission.draft : Emission → Option Draft
  | .started value startedAt =>
      if value ∉ runStatuses then none
      else some ⟨"run.started".toList, none, [("status".toList, .str value), ("started_at".toList, .str startedAt)], true⟩
  | .status value runVersion =>
      if value ∉ runStatuses then none
      else some ⟨"run.status".toList, none,
        ("status".toList, .str value) :: (runVersion.map fun n : ℕ => ("run_version".toList, Json.int (n : ℤ))).toList, false⟩
  | .delta deltaText messageId =>
      if messageId = [] then none else some ⟨"message.delta".toList, some messageId, [("delta".toList, .str deltaText)], true⟩
  | .progress phase summary =>
      if phase ∉ progressPhases then none
      else some ⟨"run.progress".toList, none, [("phase".toList, .str phase), ("summary".toList, .str (summary.take 120))], true⟩
  | .traceStart nodeId parentId name nodeType metadata =>
      some ⟨"trace.event".toList, none,
        [("action".toList, .str "start".toList), ("node_id".toList, .str nodeId), ("parent_id".toList, textOrNull parentId),
          ("name".toList, .str name), ("type".toList, .str nodeType), ("metadata".toList, .obj metadata)], true⟩
  | .traceEnd nodeId value metadata durationMs =>
      some ⟨"trace.event".toList, none,
        [("action".toList, .str "end".toList), ("node_id".toList, .str nodeId), ("status".toList, .str value),
          ("metadata".toList, .obj metadata)] ++ (durationMs.map fun n : ℕ => ("duration_ms".toList, Json.int (n : ℤ))).toList, true⟩

/-- The delta of an emission that is not refused. -/
def Emission.delta? : Emission → Option (List Char × List Char)
  | .delta deltaText messageId => if messageId = [] then none else some (messageId, deltaText)
  | _ => none

/-- An event on the channel. -/
def SseEnvelope.body (e : SseEnvelope) : List (List Char × Json) :=
  [("schema_version".toList, .int 1), ("event_id".toList, .str e.eventId), ("event_type".toList, .str e.eventType),
    ("run_id".toList, .str e.runId), ("message_id".toList, textOrNull e.messageId), ("stream_id".toList, textOrNull e.streamId),
    ("event_seq".toList, (e.eventSeq.map fun n : ℕ => Json.int (n : ℤ)).getD .null), ("occurred_at".toList, .str e.occurredAt),
    ("payload".toList, .obj e.payload)]

def SseEnvelope.text (e : SseEnvelope) : List Char := Json.dumps [','] [':'] (.obj e.body)

/-! ### Sinks -/

/-- A Run, the node of its root trace, and the ids that are drawn for it. -/
structure RunContext where
  runId : List Char
  rootNode : List Char
  eventId : ℕ → List Char
  streamId : ℕ → List Char
  gatewayId : ℕ → List Char
  eventId_injective : ∀ m n, eventId m = eventId n → m = n
  streamId_injective : ∀ m n, streamId m = streamId n → m = n
  gatewayId_injective : ∀ m n, gatewayId m = gatewayId n → m = n
  gatewayId_ne : ∀ m n, gatewayId m ≠ eventId n

/-- A sink, in the process that made it; the sink for the trace and the one that publishes are closed together. -/
structure RedisSink where
  worker : ℕ
  streamId : List Char
  eventSeq : ℕ
  closed : Bool

/-- `_envelope`. -/
def RedisSink.envelope (ctx : RunContext) (sink : RedisSink) (drawn : ℕ) (now : List Char) (draft : Draft) : RedisSink × SseEnvelope :=
  let sink := if draft.online then { sink with eventSeq := sink.eventSeq + 1 } else sink
  (sink,
    { eventId := ctx.eventId drawn
      eventType := draft.eventType
      runId := ctx.runId
      messageId := draft.messageId
      streamId := if draft.online then some sink.streamId else none
      eventSeq := if draft.online then some sink.eventSeq else none
      occurredAt := now
      payload := draft.payload })

/-- The sinks of a Run, which of them a process keeps and an activity holds, and what has been published.  `deltas` are those
that the activities asked to publish, `fenced` those among them whose sink was closed. -/
structure Publishing where
  sinks : List RedisSink
  active : ℕ → Option ℕ
  held : ℕ → Option ℕ
  drawn : ℕ
  published : List SseEnvelope
  deltas : List (List Char × List Char)
  fenced : List (List Char × List Char)

def Publishing.start : Publishing := ⟨[], fun _ => none, fun _ => none, 0, [], [], []⟩

/-- What an activity or a process does. -/
inductive SinkStep where
  /-- `for_run` -/
  | forRun (activity worker : ℕ)
  | emit (activity : ℕ) (emission : Emission) (now : List Char)
  /-- `detach_run` -/
  | detach (worker : ℕ)

namespace Publishing

/-- `for_run`. -/
def forRun (ctx : RunContext) (s : Publishing) (activity worker : ℕ) : Publishing :=
  match s.active worker with
  | some i => { s with held := Function.update s.held activity (some i) }
  | none =>
      { s with
        sinks := s.sinks ++ [⟨worker, ctx.streamId s.sinks.length, 0, false⟩]
        active := Function.update s.active worker (some s.sinks.length)
        held := Function.update s.held activity (some s.sinks.length) }

def closeSink (s : Publishing) (i : ℕ) : Publishing := { s with sinks := s.sinks.modify i fun sink => { sink with closed := true } }

/-- `close_run`: the sink that the process keeps is closed. -/
def closeRun (s : Publishing) (worker : ℕ) : Publishing :=
  match s.active worker with
  | none => s
  | some i => { s with active := Function.update s.active worker none }.closeSink i

/-- `_terminal_close`. -/
def terminalClose (s : Publishing) (i : ℕ) : Publishing :=
  match s.sinks[i]? with
  | some sink => if sink.closed then s else (s.closeSink i).closeRun sink.worker
  | none => s

/-- An event is numbered, and published unless the sink is closed. -/
def publish (ctx : RunContext) (s : Publishing) (i : ℕ) (emission : Emission) (now : List Char) : Publishing :=
  match s.sinks[i]?, emission.draft with
  | some sink, some draft =>
      let (sink', event) := sink.envelope ctx s.drawn now draft
      { s with
        sinks := s.sinks.set i sink'
        drawn := s.drawn + 1
        published := if sink.closed then s.published else s.published ++ [event]
        deltas := s.deltas ++ emission.delta?.toList
        fenced := if sink.closed then s.fenced ++ emission.delta?.toList else s.fenced }
  | _, _ => s

/-- An activity publishes; the end of the root trace closes its sink. -/
def emit (ctx : RunContext) (s : Publishing) (activity : ℕ) (emission : Emission) (now : List Char) : Publishing :=
  match s.held activity with
  | none => s
  | some i =>
      match emission with
      | .traceEnd nodeId _ _ _ => if nodeId = ctx.rootNode then (s.publish ctx i emission now).terminalClose i else s.publish ctx i emission now
      | _ => s.publish ctx i emission now

def step (ctx : RunContext) (s : Publishing) : SinkStep → Publishing
  | .forRun activity worker => s.forRun ctx activity worker
  | .emit activity emission now => s.emit ctx activity emission now
  | .detach worker => { s with active := Function.update s.active worker none }

end Publishing

/-- The steps of a Run. -/
def publishing (ctx : RunContext) (steps : List SinkStep) : Publishing := steps.foldl (Publishing.step ctx) .start

/-! ### Client -/

variable {κ : Type} [DecidableEq κ]

/-- A frame of the gateway itself. -/
def gatewayEvent (ctx : RunContext) (drawn : ℕ) (eventType now : List Char) (payload : List (List Char × Json)) : SseEnvelope :=
  ⟨ctx.gatewayId drawn, eventType, ctx.runId, none, none, none, now, payload⟩

/-- What the writer sends of the frames: the events, until it sees a second stream. -/
def relay (ctx : RunContext) (d : Decoding κ) (now : List Char) (seen : List κ) : List SseEnvelope → List SseEnvelope
  | [] => []
  | event :: rest =>
      match seenAfter d seen event.text with
      | none => [gatewayEvent ctx 1 "stream.degraded".toList now
          [("reason".toList, .str "sequence_gap".toList), ("recovery".toList, .str "query_run".toList), ("retry_after_ms".toList, .int 2000)]]
      | some seen => event :: relay ctx d now seen rest

/-- `stream`, for a client that subscribed before the first event; nothing is lost and no buffer is full. -/
def gateway (ctx : RunContext) (d : Decoding κ) (snapshot : Json) (now : List Char) (published : List SseEnvelope) : List SseEnvelope :=
  gatewayEvent ctx 0 "run.snapshot".toList now [("snapshot".toList, snapshot)] :: relay ctx d now [] published

/-- What the page has been told when everything published has arrived. -/
def client (ctx : RunContext) (d : Decoding κ) (snapshot : Json) (now : List Char) (published : List SseEnvelope) : RunFeed :=
  RunFeed.read ((gateway ctx d snapshot now published).map some)

/-- The client has been told of every delta, in order, and neither the gateway nor the sequencer has degraded the stream. -/
def Healthy (ctx : RunContext) (d : Decoding κ) (snapshot : Json) (now : List Char) (s : Publishing) : Prop :=
  (client ctx d snapshot now s.published).degraded = false ∧ (client ctx d snapshot now s.published).deltas = s.deltas

/-- `json.loads` reads what was published, and distinct strings are distinct in a set. -/
structure Reads (d : Decoding κ) (published : List SseEnvelope) : Prop where
  loads : ∀ event ∈ published, d.loads event.text = some (.obj event.body)
  key : ∀ s, (d.key (.str s)).isSome
  key_injective : ∀ s t, d.key (.str s) = d.key (.str t) → s = t

end HpAgent.Stream
