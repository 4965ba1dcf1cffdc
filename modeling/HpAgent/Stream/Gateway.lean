import HpAgent.Library.Json
import HpAgent.Library.Utf8

/-! # An event stream of the gateway

A connection has a reader, which puts the published frames into a bounded queue, and a writer, which takes them out and
sends them to the client.  Both limits of the queue are those of the handshake buffer.

* `Connection.readPubsub`: one message of the reader.
* `Connection.step`: one move of the reader, of the writer or of the client.
* `Connection.backlog`: what has been received and not yet sent. -/

namespace HpAgent.Stream

open Library

/-- The limits of the handshake buffer. -/
structure Settings where
  sseHandshakeBufferEvents : ℕ
  sseHandshakeBufferBytes : ℕ
  events_pos : 0 < sseHandshakeBufferEvents
  bytes_pos : 0 < sseHandshakeBufferBytes

/-- `json.loads`, and what a value is as an element of a set; some values cannot be one. -/
structure Decoding (κ : Type) where
  loads : List Char → Option Json
  key : Json → Option κ

/-! ### Events -/

structure Event where
  eventType : List Char
  streamId : Json

/-- `_normalize_event`. -/
def normalizeEvent (loads : List Char → Option Json) (raw : List Char) : Option Event :=
  match loads raw with
  | some (.obj data) =>
      match if (Json.get data "event_type").truthy then Json.get data "event_type" else Json.get data "type" with
      | .str eventType => if eventType = [] then none else some ⟨eventType, Json.get data "stream_id"⟩
      | _ => none
  | _ => none

/-- `_TERMINAL_EVENT_TYPES`. -/
def terminalEventTypes : List (List Char) :=
  ["run.succeeded".toList, "run.failed".toList, "run.cancelled".toList]

/-! ### Connections -/

/-- Why a stream is degraded. -/
inductive DegradedReason where
  | redisUnavailable
  | handshakeBufferOverflow
deriving DecidableEq, Repr

/-- Where the writer stands. -/
inductive Phase where
  | subscribing
  /-- the snapshot is being read -/
  | reading
  /-- the snapshot is being sent -/
  | greeting (terminal : Bool)
  /-- at the top of the loop -/
  | checking
  | waiting
  | handling (raw : List Char)
  /-- the snapshot is being read for a terminal event -/
  | confirming (event : Event)
  | sending (event : Event) (last : Bool)
  /-- a comment is being sent -/
  | ticking
  /-- the last frame is being sent, for another reason than a terminal event -/
  | leaving
  | closed

/-- A connection, with the frames that will still be published, those that were received, and how many of them were
sent or dropped. -/
structure Connection (κ : Type) where
  incoming : List (List Char)
  received : List (List Char)
  settled : ℕ
  queue : List (List Char)
  bytesUsed : ℕ
  degradedReason : Option DegradedReason
  reader : Bool
  seenStreamIds : List κ
  phase : Phase

variable {κ : Type} [DecidableEq κ]

namespace Connection

def start (frames : List (List Char)) : Connection κ := ⟨frames, [], 0, [], 0, none, false, [], .subscribing⟩

/-- The frames that were received and not yet sent. -/
def backlog (s : Connection κ) : List (List Char) := s.received.drop s.settled

def closeWith (s : Connection κ) : Connection κ := { s with reader := false, phase := .closed }

/-- The head of the backlog has been sent, or dropped. -/
def settle (s : Connection κ) : Connection κ := { s with settled := s.settled + 1, phase := .checking }

/-- `_degrade`: the empty string wakes the writer. -/
def degrade (c : Settings) (s : Connection κ) (reason : DegradedReason) : Connection κ :=
  { s with
    degradedReason := some reason
    queue := if s.queue.length < c.sseHandshakeBufferEvents then s.queue ++ [[]] else s.queue }

/-- One message of `_read_pubsub`. -/
def readPubsub (c : Settings) (s : Connection κ) : Connection κ :=
  match s.incoming with
  | [] => s
  | data :: rest =>
      let s := { s with incoming := rest, received := s.received ++ [data], bytesUsed := s.bytesUsed + data.length }
      if c.sseHandshakeBufferBytes < s.bytesUsed then s.degrade c .handshakeBufferOverflow
      else if s.queue.length < c.sseHandshakeBufferEvents then { s with queue := s.queue ++ [data] }
      else s.degrade c .handshakeBufferOverflow

/-- `seen_stream_ids.add`. -/
def addStreamId (key : Json → Option κ) (seen : List κ) : Json → Option (List κ)
  | .null => some seen
  | id => (key id).map fun k => if k ∈ seen then seen else seen ++ [k]

/-- What the writer does with a frame. -/
def handle (d : Decoding κ) (s : Connection κ) (raw : List Char) : Connection κ :=
  match normalizeEvent d.loads raw with
  | none => s.settle
  | some event =>
      match addStreamId d.key s.seenStreamIds event.streamId with
      | none => s.closeWith
      | some seen =>
          let s := { s with seenStreamIds := seen }
          if 1 < seen.length then { s with phase := .leaving }
          else if event.eventType ∈ terminalEventTypes then { s with phase := .confirming event }
          else { s with phase := .sending event false }

end Connection

/-- What can happen on a connection.  A snapshot is missing, terminal or not terminal. -/
inductive Move where
  | subscribe (ok : Bool)
  | receive
  | lose
  | read (snapshot : Option Bool)
  | check
  | take
  | timeout (valid : Bool)
  | handle
  | resume
  | disconnect

namespace Connection

/-- A move of the connection; one that is not possible changes nothing. -/
def step (c : Settings) (d : Decoding κ) (s : Connection κ) : Move → Connection κ
  | .subscribe ok =>
      match s.phase with
      | .subscribing =>
          { s with reader := ok, degradedReason := if ok then s.degradedReason else some .redisUnavailable, phase := .reading }
      | _ => s
  | .receive => if s.reader ∧ s.degradedReason = none then s.readPubsub c else s
  | .lose => if s.reader ∧ s.degradedReason = none then s.degrade c .redisUnavailable else s
  | .read snapshot =>
      match s.phase, snapshot with
      | .reading, none => { s with phase := .leaving }
      | .reading, some terminal => { s with phase := .greeting terminal }
      | .confirming _, none => s.settle
      | .confirming event, some true => { s with phase := .sending event true }
      | .confirming _, some false => s.settle
      | _, _ => s
  | .check =>
      match s.phase with
      | .checking => { s with phase := if s.degradedReason = none then .waiting else .leaving }
      | _ => s
  | .take =>
      match s.phase, s.queue with
      | .waiting, raw :: rest => { s with queue := rest, phase := .handling raw }
      | _, _ => s
  | .timeout valid =>
      match s.phase with
      | .waiting => { s with phase := if valid then .ticking else .leaving }
      | _ => s
  | .handle =>
      match s.phase with
      | .handling raw => s.handle d raw
      | _ => s
  | .resume =>
      match s.phase with
      | .greeting true => s.closeWith
      | .greeting false => { s with phase := if s.reader then .checking else .leaving }
      | .sending _ false => s.settle
      | .sending _ true => { s.settle with reader := false, phase := .closed }
      | .ticking => { s with phase := .checking }
      | .leaving => s.closeWith
      | _ => s
  | .disconnect => s.closeWith

/-- A run of the connection. -/
def run (c : Settings) (d : Decoding κ) (frames : List (List Char)) (moves : List Move) : Connection κ :=
  moves.foldl (step c d) (start frames)

end Connection

/-- A backlog is over one of the limits. -/
def Exceeds (c : Settings) (backlog : List (List Char)) : Prop :=
  c.sseHandshakeBufferEvents < backlog.length ∨
    c.sseHandshakeBufferBytes < (backlog.map fun data => (Utf8.encode data).length).sum

instance (c : Settings) (backlog : List (List Char)) : Decidable (Exceeds c backlog) := inferInstanceAs (Decidable (_ ∨ _))

/-- In a run, the stream overflows only if the backlog is over a limit at some moment. -/
def OverflowsByBacklog (c : Settings) (d : Decoding κ) (frames : List (List Char)) (moves : List Move) : Prop :=
  (Connection.run c d frames moves).degradedReason = some .handshakeBufferOverflow →
    ∃ n ≤ moves.length, Exceeds c (Connection.run c d frames (moves.take n)).backlog

instance (c : Settings) (d : Decoding κ) (frames : List (List Char)) (moves : List Move) :
    Decidable (OverflowsByBacklog c d frames moves) := inferInstanceAs (Decidable (_ → ∃ n ≤ _, _))

end HpAgent.Stream
