import HpAgent.Library.Json
import HpAgent.Library.Utf8

/-! # The event stream on the wire

The gateway writes an envelope as three lines and a blank one (`sseFrame`), and comments to keep the connection alive.
The client decodes the bytes as they arrive, cuts the text at blank lines, and reads the fields of every block.

* `sseFrame`, `keepaliveFrame`: what the gateway writes.
* `parseSseEventBlock`, `extractSseFrames`: what the client reads in a text.
* `Reader`: the loop of the client over the chunks of the response body. -/

namespace HpAgent.Stream

open Library

/-! ### The gateway -/

/-- An envelope as a JSON object, with its `event_id` and its `event_type`. -/
structure Envelope where
  body : List (List Char × Json)
  eventId : List Char
  eventType : List Char
  eventId_eq : body.lookup "event_id".toList = some (.str eventId)
  eventType_eq : body.lookup "event_type".toList = some (.str eventType)

/-- The JSON text of an envelope. -/
def Envelope.data (e : Envelope) : List Char := Json.dumps [','] [':'] (.obj e.body)

/-- `sse_frame`. -/
def sseFrame (e : Envelope) : List Char :=
  "id: ".toList ++ e.eventId ++ '\n' :: ("event: ".toList ++ e.eventType ++ '\n' ::
    ("data: ".toList ++ e.data ++ ['\n', '\n']))

/-- `KEEPALIVE_FRAME`. -/
def keepaliveFrame : List Char := ": keepalive\n\n".toList

/-- What the gateway sends. -/
inductive Item where
  | envelope (e : Envelope)
  | keepalive

def Item.text : Item → List Char
  | .envelope e => sseFrame e
  | .keepalive => keepaliveFrame

/-- The text of a response body. -/
def body (items : List Item) : List Char := items.flatMap Item.text

/-- The same text with some of its line ends written as CRLF. -/
inductive LineEnds : List Char → List Char → Prop
  | nil : LineEnds [] []
  | lf {text wire : List Char} (h : LineEnds text wire) : LineEnds ('\n' :: text) ('\n' :: wire)
  | crlf {text wire : List Char} (h : LineEnds text wire) : LineEnds ('\n' :: text) ('\r' :: '\n' :: wire)
  | other {c : Char} {text wire : List Char} (hn : c ≠ '\n') (hr : c ≠ '\r') (h : LineEnds text wire) :
      LineEnds (c :: text) (c :: wire)

/-! ### The client -/

/-- `SseFrame`. -/
structure SseFrame where
  id : Option (List Char)
  event : Option (List Char)
  data : List Char
deriving DecidableEq, Repr

/-- The white space and line terminators that `trimStart` removes. -/
def isSpace (c : Char) : Bool :=
  (9 ≤ c.toNat && c.toNat ≤ 13) || c.toNat = 0x20 || c.toNat = 0xA0 || c.toNat = 0x1680
    || (0x2000 ≤ c.toNat && c.toNat ≤ 0x200A) || c.toNat = 0x2028 || c.toNat = 0x2029 || c.toNat = 0x202F
    || c.toNat = 0x205F || c.toNat = 0x3000 || c.toNat = 0xFEFF

def trimStart (s : List Char) : List Char := s.dropWhile isSpace

/-- `split("\n")`. -/
def splitLines : List Char → List (List Char)
  | [] => [[]]
  | c :: rest =>
      if c = '\n' then [] :: splitLines rest
      else match splitLines rest with
        | [] => [[c]]
        | l :: ls => (c :: l) :: ls

/-- The fields that the lines of a block have set. -/
structure Fields where
  id : Option (List Char)
  event : Option (List Char)
  data : List (List Char)

def Fields.line (f : Fields) (line : List Char) : Fields :=
  if ":".toList.isPrefixOf line then f
  else if "id:".toList.isPrefixOf line then { f with id := some (trimStart (line.drop 3)) }
  else if "event:".toList.isPrefixOf line then { f with event := some (trimStart (line.drop 6)) }
  else if "data:".toList.isPrefixOf line then { f with data := f.data ++ [trimStart (line.drop 5)] }
  else f

/-- `parseSseEventBlock`. -/
def parseSseEventBlock (block : List Char) : Option SseFrame :=
  let f := (splitLines block).foldl Fields.line ⟨none, none, []⟩
  if f.id = none ∧ f.event = none ∧ f.data = [] then none
  else some ⟨f.id, f.event, List.intercalate ['\n'] f.data⟩

/-- `replace(/\r\n/g, "\n")`. -/
def replaceCrlf : List Char → List Char
  | [] => []
  | [c] => [c]
  | c :: d :: rest => if c = '\r' ∧ d = '\n' then '\n' :: replaceCrlf rest else c :: replaceCrlf (d :: rest)

/-- `split("\n\n")`. -/
def splitBlocks : List Char → List (List Char)
  | [] => [[]]
  | [c] => [[c]]
  | c :: d :: rest =>
      if c = '\n' ∧ d = '\n' then [] :: splitBlocks rest
      else match splitBlocks (d :: rest) with
        | [] => [[c]]
        | b :: bs => (c :: b) :: bs

/-- `extractSseFrames`. -/
def extractSseFrames (text : List Char) : List SseFrame × List Char :=
  let blocks := splitBlocks (replaceCrlf text)
  (blocks.dropLast.filterMap parseSseEventBlock, blocks.getLastD [])

/-- The read loop: the decoder, whether it has decoded anything yet, the unfinished text, and the frames that were
dispatched. -/
structure Reader where
  decoder : Utf8.State
  started : Bool
  buffer : List Char
  frames : List SseFrame
deriving DecidableEq, Repr

def Reader.start : Reader := ⟨Utf8.ready, false, [], []⟩

/-- The decoder drops a byte order mark at the start. -/
def dropMark (started : Bool) (text : List Char) : List Char :=
  match started, text with
  | false, c :: rest => if c.toNat = 0xFEFF then rest else c :: rest
  | _, text => text

/-- Text has arrived. -/
def Reader.take (r : Reader) (decoder : Utf8.State) (text : List Char) : Reader :=
  let e := extractSseFrames (r.buffer ++ dropMark r.started text)
  ⟨decoder, r.started || !text.isEmpty, e.2, r.frames ++ e.1⟩

/-- One `read`. -/
def Reader.read (r : Reader) (chunk : List ℕ) : Reader :=
  let d := Utf8.feedAll r.decoder chunk
  r.take d.1 d.2

/-- The end of the body. -/
def Reader.finish (r : Reader) : Reader := r.take Utf8.ready (Utf8.flush r.decoder)

/-- The frames that the client is given for the chunks of a response body. -/
def receive (chunks : List (List ℕ)) : List SseFrame := (chunks.foldl Reader.read .start).finish.frames

/-- The frame that an item should arrive as. -/
def Item.frame : Item → Option SseFrame
  | .envelope e => some ⟨some e.eventId, some e.eventType, e.data⟩
  | .keepalive => none

end HpAgent.Stream
