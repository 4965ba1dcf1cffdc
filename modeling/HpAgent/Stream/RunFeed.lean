import HpAgent.Library.Json

/-! # The feed of a Run in the browser

The browser takes the frames of a stream one by one, drops those it has seen, and puts the online events of the Run in the order
of their sequence numbers.  A gap that cannot be filled, or an event of another stream, ends the feed.

* `StreamSequencer.accept`: the order of the online events.
* `RunFeed.handleFrame`: a frame, and what the page is told about it.
* `RunFeed.read`: the frames of a stream. -/

namespace HpAgent.Stream

open Library

/-! ### Events -/

/-- An event as it is published and sent. -/
structure SseEnvelope where
  eventId : List Char
  eventType : List Char
  runId : List Char
  messageId : Option (List Char)
  streamId : Option (List Char)
  eventSeq : Option ℕ
  occurredAt : List Char
  payload : List (List Char × Json)

/-- What the page is told about a node of the trace. -/
structure TraceEventUpdate where
  action : List Char
  nodeId : List Char
  parentId : Option (List Char)
  name : Option (List Char)
  nodeType : Option (List Char)
  status : Option (List Char)
  metadata : List (List Char × Json)
  durationMs : Option Json
  occurredAt : List Char

/-- The handlers of a feed. -/
inductive Callback where
  | snapshot (snapshot : Json)
  | delta (messageId : List Char) (delta : List Char)
  | progress (phase : List Char) (summary : List Char)
  | status (status : List Char)
  | trace (update : TraceEventUpdate)
  | terminal (snapshot : Json)
  | degraded (reason : List Char)
  | authExpired

def Callback.delta? : Callback → Option (List Char × List Char)
  | .delta messageId text => some (messageId, text)
  | _ => none

/-! ### Sequence numbers -/

/-- The order of the online events of one stream. -/
structure StreamSequencer where
  streamId : Option (List Char)
  nextSeq : Option ℕ
  buffered : List (ℕ × SseEnvelope)

namespace StreamSequencer

def start : StreamSequencer := ⟨none, none, []⟩

/-- `MAX_GAP`. -/
def maxGap : ℕ := 16

/-- The buffered events that follow, at most so many: each of them leaves the buffer. -/
def drain : ℕ → ℕ → List (ℕ × SseEnvelope) → List SseEnvelope × ℕ × List (ℕ × SseEnvelope)
  | 0, next, buffered => ([], next, buffered)
  | fuel + 1, next, buffered =>
      match buffered.find? fun entry => entry.1 = next with
      | none => ([], next, buffered)
      | some entry =>
          let (events, last, rest) := drain fuel (next + 1) (buffered.filter fun entry => entry.1 ≠ next)
          (entry.2 :: events, last, rest)

/-- What becomes of an event. -/
inductive Accepted where
  | delivered (events : List SseEnvelope)
  | duplicate
  | degraded

/-- `accept`. -/
def accept (s : StreamSequencer) (event : SseEnvelope) : StreamSequencer × Accepted :=
  match event.streamId, event.eventSeq with
  | some id, some seq =>
      match s.streamId with
      | none => ({ s with streamId := some id, nextSeq := some (seq + 1) }, .delivered [event])
      | some own =>
          if id ≠ own then (s, .degraded)
          else
            let expected := s.nextSeq.getD 0
            if seq < expected then (s, .duplicate)
            else if seq = expected then
              let (events, next, buffered) := drain s.buffered.length (seq + 1) s.buffered
              ({ s with nextSeq := some next, buffered := buffered }, .delivered (event :: events))
            else if maxGap < seq - expected ∨ s.buffered.any (fun entry => entry.1 = seq) then (s, .degraded)
            else
              let s := { s with buffered := s.buffered ++ [(seq, event)] }
              if maxGap < s.buffered.length then (s, .degraded) else (s, .delivered [])
  | _, _ => (s, .delivered [event])

end StreamSequencer

/-! ### The feed -/

structure RunFeed where
  degraded : Bool
  ended : Bool
  seenEventIds : List (List Char)
  sequencer : StreamSequencer
  callbacks : List Callback

namespace RunFeed

def start : RunFeed := ⟨false, false, [], .start, []⟩

def tell (f : RunFeed) (callback : Callback) : RunFeed := { f with callbacks := f.callbacks ++ [callback] }

/-- `degrade`. -/
def degrade (f : RunFeed) (reason : List Char) : RunFeed :=
  if f.degraded ∨ f.ended then f else { f with degraded := true, ended := true }.tell (.degraded reason)

/-- `isRunSnapshot`. -/
def isRunSnapshot : Json → Bool
  | .obj fields => (fields.lookup "run".toList).isSome && (fields.lookup "assistant_message".toList).isSome
  | _ => false

/-- `isRunStatus`. -/
def isRunStatus (status : List Char) : Prop :=
  status ∈ ["queued".toList, "running".toList, "cancelling".toList, "succeeded".toList, "failed".toList, "cancelled".toList]

instance (status : List Char) : Decidable (isRunStatus status) := inferInstanceAs (Decidable (_ ∈ _))

def text? : Json → Option (List Char)
  | .str s => some s
  | _ => none

/-- `dispatchOnline`. -/
def dispatchOnline (event : SseEnvelope) : Option Callback :=
  if event.eventType = "message.delta".toList then
    match event.messageId, Json.get event.payload "delta" with
    | some messageId, .str delta => if messageId = [] then none else some (.delta messageId delta)
    | _, _ => none
  else if event.eventType = "run.progress".toList then
    match Json.get event.payload "phase", Json.get event.payload "summary" with
    | .str phase, .str summary => some (.progress phase summary)
    | _, _ => none
  else if event.eventType = "run.started".toList ∨ event.eventType = "run.status".toList then
    match Json.get event.payload "status" with
    | .str status => if isRunStatus status then some (.status status) else none
    | _ => none
  else if event.eventType = "trace.event".toList then
    match Json.get event.payload "action", Json.get event.payload "node_id" with
    | .str action, .str nodeId =>
        if action = "start".toList ∨ action = "end".toList then
          some (.trace
            { action := action
              nodeId := nodeId
              parentId := text? (Json.get event.payload "parent_id")
              name := text? (Json.get event.payload "name")
              nodeType := text? (Json.get event.payload "type")
              status := text? (Json.get event.payload "status")
              metadata := match Json.get event.payload "metadata" with
                | .obj fields => fields
                | _ => []
              durationMs := match Json.get event.payload "duration_ms" with
                | .int n => some (.int n)
                | .float t => some (.float t)
                | _ => none
              occurredAt := event.occurredAt })
        else none
    | _, _ => none
  else none

/-- The online events that the sequencer hands on. -/
def dispatch (f : RunFeed) (events : List SseEnvelope) : RunFeed :=
  { f with callbacks := f.callbacks ++ events.filterMap dispatchOnline }

/-- An online event. -/
def sequence (f : RunFeed) (event : SseEnvelope) : RunFeed :=
  let (sequencer, accepted) := f.sequencer.accept event
  let f := { f with sequencer := sequencer }
  match accepted with
  | .delivered events => f.dispatch events
  | .duplicate => f
  | .degraded => f.degrade "sequence_gap".toList

/-- `route`. -/
def route (f : RunFeed) (event : SseEnvelope) : RunFeed :=
  if event.eventType = "stream.degraded".toList then
    f.degrade ((text? (Json.get event.payload "reason")).getD "upstream_disconnected".toList)
  else if event.eventType = "auth.expired".toList then { f with ended := true }.tell .authExpired
  else if event.eventType = "run.snapshot".toList then
    if isRunSnapshot (Json.get event.payload "snapshot") then f.tell (.snapshot (Json.get event.payload "snapshot")) else f
  else if event.eventType ∈ ["run.succeeded".toList, "run.failed".toList, "run.cancelled".toList] then
    if isRunSnapshot (Json.get event.payload "snapshot") then
      { f with ended := true }.tell (.terminal (Json.get event.payload "snapshot"))
    else f
  else f.sequence event

/-- `handleFrame`: a comment and a frame that is no event are passed over. -/
def handleFrame (f : RunFeed) (frame : Option SseEnvelope) : RunFeed :=
  if f.degraded ∨ f.ended then f
  else match frame with
    | none => f
    | some event =>
        if event.eventType = [] then f
        else if event.eventId ∈ f.seenEventIds then f
        else { f with seenEventIds := event.eventId :: f.seenEventIds }.route event

/-- The frames of a stream, in the order in which they arrive. -/
def read (frames : List (Option SseEnvelope)) : RunFeed := frames.foldl handleFrame .start

/-- The deltas that the page is told of. -/
def deltas (f : RunFeed) : List (List Char × List Char) := f.callbacks.filterMap Callback.delta?

end RunFeed

end HpAgent.Stream
