import HpAgent.Memory.Sources

/-! # The deletion of a source at the backend

One source: the action that retains it, the action that deletes it, what the memory backend knows, and the requests on
their way.  At most one worker holds the sender guard of the source, and only its holder sends.

* `Phase`: where the holder is; a phase with a request out has the answer in it, once there is one.
* `Backend.apply`, `Backend.finish`, `Backend.spawn`: what the backend does with a request, and on its own.
* `proceed`, `received`, `rejected`, `faulted`: what the holder does next, by what it gets.
* `step`: one event; a request whose sender has gone stays in flight, and is delivered at any time or never.

The retain row is the only one that has ever been sent for the source: `freeze` refuses a second one.  Whether a worker
that has no guard reads something does not matter here; that it has lost its claim, or that the source is not in force,
is a fault of the phase in which it finds out. -/

namespace HpAgent.Memory.Deletion

open Governance (SendState ActionStatus)

/-! ### The backend -/

inductive RemoteStatus where
  | pending | processing | completed | failed | cancelled
deriving DecidableEq, Repr

def RemoteStatus.terminal : RemoteStatus → Bool
  | pending | processing => false
  | completed | failed | cancelled => true

/-- An operation as the backend reports it. -/
structure Operation where
  status : RemoteStatus
  children : List Uuid
deriving DecidableEq, Repr

/-- What the backend has of the source: the operations it knows, and whether the document is there. -/
structure Backend where
  operations : Uuid → Option Operation
  document : Bool

/-- A request that changes something at the backend. -/
inductive Request where
  | retain
  | retry
  | deleteDocument
  | deleteOperation (operation : Uuid)
deriving DecidableEq, Repr

/-- The request may make the backend write the document. -/
def Request.writes : Request → Bool
  | retain | retry => true
  | _ => false

inductive Verdict where
  | accepted
  | rejected (status : ℕ)
deriving DecidableEq, Repr

namespace Backend

variable (operation : Uuid) (b : Backend)

def set (o : Uuid) (p : Option Operation) : Backend := { b with operations := Function.update b.operations o p }

/-- A request is delivered with a verdict, if the backend may give that one: a Retain is one and the same request as
long as its operation is known. -/
def apply : Request → Verdict → Option Backend
  | .retain, .accepted => match b.operations operation with
      | some _ => some b
      | none => some (b.set operation (some ⟨.pending, []⟩))
  | .retry, .accepted => match b.operations operation with
      | some p => if p.status = .failed then some (b.set operation (some { p with status := .pending })) else none
      | none => none
  | .deleteDocument, .accepted => if b.document then some { b with document := false } else none
  | .deleteDocument, .rejected status => if status = 404 ∧ b.document = true then none else some b
  | .deleteOperation o, .accepted => some (b.set o none)
  | .retain, .rejected _ => some b
  | .retry, .rejected _ => some b
  | .deleteOperation _, .rejected _ => some b

/-- An operation that is not over moves on, and may write the document. -/
def finish (o : Uuid) (status : RemoteStatus) (written : Bool) : Option Backend :=
  match b.operations o with
  | some p =>
      if p.status.terminal then none
      else some { b.set o (some { p with status := status }) with document := b.document || written }
  | none => none

/-- An operation that is not over opens a child of its own. -/
def spawn (o child : Uuid) : Option Backend :=
  match b.operations o, b.operations child with
  | some p, none =>
      if p.status.terminal || child = operation then none
      else some ((b.set o (some { p with children := p.children ++ [child] })).set child (some ⟨.pending, []⟩))
  | _, _ => none

end Backend

/-! ### The rows -/

/-- The row of the Retain, with the columns about its sender. -/
structure RetainRow where
  sendState : SendState
  sendUncertain : Bool
  legacySender : Bool
deriving DecidableEq, Repr

/-- `send_state` of a row. -/
def RetainRow.send (row : RetainRow) (state : SendState) : RetainRow :=
  { row with sendUncertain := row.sendUncertain || state = .unknown, sendState := state }

/-- `mark_sending`, on the row. -/
def RetainRow.mark (row : RetainRow) : RetainRow :=
  { row with sendUncertain := row.sendUncertain || row.sendState = .sending, sendState := .sending }

/-- What a deletion has found before it removes anything. -/
structure Found where
  operations : List Uuid
  factIds : List String
deriving DecidableEq, Repr

/-- The row of the deletion; the evidence is there once it is reconciled. -/
structure DeletionRow where
  status : ActionStatus
  evidence : Option Found
deriving DecidableEq, Repr

def DeletionRow.isOver (row : DeletionRow) : Bool := row.status = .verified || row.status = .failed

/-! ### The holder of the guard -/

/-- A call of `collect` that is to be made, and the end of one that has been made. -/
inductive Task where
  | enter (operation : Uuid)
  | leave (operation : Uuid)
deriving DecidableEq, Repr

/-- Where the holder of the guard is. -/
inductive Phase where
  /-- `process_event`: the request to send, before `mark_sending`. -/
  | sender (request : Request)
  | marked (request : Request)
  | sent (request : Request) (reply : Option Verdict)
  | settling (state : SendState)
  /-- `delete`: the action has been loaded. -/
  | loaded
  | asking (old : RetainRow)
  | doubting
  | resending
  | resent (reply : Option Verdict)
  | resendFailed (status : ActionStatus)
  | collecting (todo : List Task) (operations : List Uuid)
  | gathering (operations : List Uuid)
  | recording (found : Found)
  | looking (found : Found)
  | removing (found : Found) (reply : Option Verdict)
  | rechecking (found : Found)
  | proving (found : Found)
  | cleaning (operations : List Uuid)
  | forgetting (operation : Uuid) (rest : List Uuid) (reply : Option Verdict)
  | confirming (operation : Uuid) (rest : List Uuid)
  /-- `advance` saves a status. -/
  | ending (status : ActionStatus)
deriving DecidableEq, Repr

/-- The request that is out. -/
def Phase.call : Phase → Option (Request × Option Verdict)
  | sent request reply => some (request, reply)
  | resent reply => some (.retain, reply)
  | removing _ reply => some (.deleteDocument, reply)
  | forgetting o _ reply => some (.deleteOperation o, reply)
  | _ => none

/-- The request has been answered. -/
def Phase.answered (v : Verdict) : Phase → Phase
  | sent request _ => sent request (some v)
  | resent _ => resent (some v)
  | removing found _ => removing found (some v)
  | forgetting o rest _ => forgetting o rest (some v)
  | phase => phase

structure World where
  retain : RetainRow
  deletion : Option DeletionRow
  payloads : Bool
  backend : Backend
  flight : List Request
  holder : Option Phase

namespace World

variable (w : World)

/-- The holder gets to a phase. -/
def goes (phase : Phase) : World := { w with holder := some phase }

/-- The guard is released. -/
def release : World := { w with holder := none }

/-- A request that has not been delivered stays on its way when its sender stops waiting. -/
def orphan (phase : Phase) : World :=
  match phase.call with
  | some (request, none) => { w with flight := request :: w.flight }
  | _ => w

/-- `save` of the deletion; its event is processed once the status is final. -/
def saved (status : ActionStatus) : World :=
  match w.deletion with
  | some row =>
      if row.isOver then w
      else { w with deletion := some { row with status := status },
                    payloads := if status = .verified then false else w.payloads }
  | none => w

end World

section steps

variable (operation : Uuid)

/-- One call of `collect`: the operation has to be over, and its children are next. -/
def World.collect (w : World) (o : Uuid) (p : Operation) (todo : List Task) (operations : List Uuid) : World :=
  if p.status.terminal then w.goes (.collecting (p.children.map Task.enter ++ .leave o :: todo) operations)
  else w.goes (.ending .verifying)

/-- What the holder does by itself: it writes, sends, or reads what the backend has. -/
def proceed (w : World) : Phase → Option World
  | .sender request =>
      if w.deletion.isSome then some w.release
      else some { w with retain := w.retain.mark, holder := some (.marked request) }
  | .marked request => some (w.goes (.sent request none))
  | .settling state => some { w with retain := w.retain.send state, holder := none }
  | .loaded => match w.deletion with
      | some ⟨_, some found⟩ => some (w.goes (.looking found))
      | some ⟨_, none⟩ =>
          if w.retain.legacySender then some (w.goes (.ending .uncertain))
          else if w.retain.sendState = .idle then some (w.goes (.gathering []))
          else some (w.goes (.asking w.retain))
      | none => none
  | .asking old => match w.backend.operations operation with
      | none => some (w.goes (if old.sendState = .sending ∨ old.sendState = .unknown then .doubting else .resending))
      | some p =>
          if old.sendState ≠ .settled ∨ old.sendUncertain = true then some (w.goes (.ending .uncertain))
          else some (w.collect operation p [] [])
  | .doubting => some { w with retain := w.retain.send .unknown, holder := some .resending }
  | .resending => some (w.goes (.resent none))
  | .resendFailed status => some { w with retain := w.retain.send .unknown, holder := some (.ending status) }
  | .collecting [] operations => some (w.goes (.gathering operations))
  | .collecting (.leave o :: todo) operations =>
      some (w.goes (.collecting todo (if o ∈ operations then operations else operations ++ [o])))
  | .collecting (.enter o :: todo) operations => match w.backend.operations o with
      | some p => some (w.collect o p todo operations)
      | none => some (w.goes (.ending .verifying))
  | .recording found => some { w with
      deletion := w.deletion.map fun row => { row with evidence := some found }, holder := some (.looking found) }
  | .looking found => some (w.goes (if w.backend.document then .removing found none else .proving found))
  | .rechecking found => some (w.goes (if w.backend.document then .ending .uncertain else .proving found))
  | .proving found => some (w.goes (.cleaning found.operations))
  | .cleaning [] => some (w.goes (.ending .verified))
  | .cleaning (o :: rest) =>
      some (w.goes (if (w.backend.operations o).isSome then .forgetting o rest none else .confirming o rest))
  | .confirming o rest => some (w.goes (if (w.backend.operations o).isSome then .ending .uncertain else .cleaning rest))
  | .ending status => some (w.saved status).release
  | _ => none

/-- What `maintenance_evidence` answers. -/
def gathered (w : World) (factIds : List String) : Phase → Option World
  | .gathering operations => some (w.goes (.recording ⟨operations, factIds⟩))
  | _ => none

/-- The request of the holder has been answered. -/
def received (w : World) : Phase → Option World
  | .sent .retain (some _) => some (w.goes (.settling .settled))
  | .sent _ (some .accepted) => some (w.goes (.settling .settled))
  | .sent _ (some (.rejected _)) => some (w.goes (.settling .unknown))
  | .resent (some .accepted) => some (w.goes (.ending .verifying))
  | .resent (some (.rejected _)) => some (w.goes (.resendFailed .failed))
  | .removing found (some .accepted) => some (w.goes (.rechecking found))
  | .removing found (some (.rejected status)) => some (w.goes (if status = 404 then .rechecking found else .ending .failed))
  | .forgetting o rest (some .accepted) => some (w.goes (.confirming o rest))
  | .forgetting _ _ (some (.rejected _)) => some (w.goes (.ending .failed))
  | _ => none

/-- A read, or a request before it is sent, is rejected. -/
def rejected (w : World) (status : ℕ) : Phase → Option World
  | .marked .retain => some (w.goes (.settling .settled))
  | .marked _ => some (w.goes (.settling .unknown))
  | .asking _ => some (w.goes (.ending .failed))
  | .resending => some (w.goes (.resendFailed .failed))
  | .collecting (.enter _ :: _) _ => some (w.goes (.ending .failed))
  | .gathering operations =>
      some (w.goes (if status = 404 ∧ operations = [] then .recording ⟨[], []⟩ else .ending .failed))
  | .looking _ => if status = 404 then none else some (w.goes (.ending .failed))
  | .rechecking _ => if status = 404 then none else some (w.goes (.ending .failed))
  | .proving found => some (w.goes
      (if status = 404 ∧ found.operations = [] ∧ found.factIds = [] then .cleaning [] else .ending .failed))
  | .cleaning (_ :: _) => some (w.goes (.ending .failed))
  | .confirming _ _ => some (w.goes (.ending .failed))
  | _ => none

/-- Anything else is raised: an error on the way, a check that fails. -/
def faulted (w : World) (waiting : Bool) : Phase → Option World
  | .sender _ => some w.release
  | .marked _ => some (w.goes (.settling .unknown))
  | .sent request reply => some ((w.orphan (.sent request reply)).goes (.settling .unknown))
  | .settling _ => none
  | .resending => some (w.goes (.resendFailed .uncertain))
  | .resent reply => some ((w.orphan (.resent reply)).goes (.resendFailed .uncertain))
  | .resendFailed _ => none
  | .ending _ => none
  | phase => some ((w.orphan phase).goes (.ending (if waiting then .verifying else .uncertain)))

/-- What may happen next. -/
inductive Event where
  /-- The delete command. -/
  | forget
  /-- A worker takes the guard for an event of the Retain. -/
  | startSender (retry : Bool)
  /-- A worker takes the guard for the event of the deletion. -/
  | startDelete
  /-- A worker for the deletion finds the guard taken. -/
  | busy
  | proceed
  | gathered (factIds : List String)
  | received
  | rejected (status : ℕ)
  | faulted (waiting : Bool)
  /-- The process of the holder dies; or it ends without a save. -/
  | die
  /-- The request of the holder reaches the backend. -/
  | deliver (v : Verdict)
  /-- A request that nobody waits for reaches the backend. -/
  | deliverLate (i : ℕ) (v : Verdict)
  | finish (o : Uuid) (status : RemoteStatus) (written : Bool)
  | spawn (o child : Uuid)
deriving DecidableEq, Repr

/-- One event. -/
def step (w : World) : Event → Option World
  | .forget => if w.deletion.isNone then some { w with deletion := some ⟨.queued, none⟩ } else none
  | .startSender retry =>
      if w.holder.isNone then some (w.goes (.sender (if retry then .retry else .retain))) else none
  | .startDelete =>
      if w.holder.isNone && w.deletion.any (fun row => !row.isOver) then some (w.goes .loaded) else none
  | .busy => if w.holder.isSome && w.deletion.any (fun row => !row.isOver) then some (w.saved .uncertain) else none
  | .proceed => w.holder.bind (proceed operation w)
  | .gathered factIds => w.holder.bind (gathered w factIds)
  | .received => w.holder.bind (received w)
  | .rejected status => w.holder.bind (rejected w status)
  | .faulted waiting => w.holder.bind (faulted w waiting)
  | .die => w.holder.map fun phase => (w.orphan phase).release
  | .deliver v => do
      let phase ← w.holder
      match phase.call with
      | some (request, none) => do
          let b ← w.backend.apply operation request v
          pure { w with backend := b, holder := some (phase.answered v) }
      | _ => none
  | .deliverLate i v => do
      let request ← w.flight[i]?
      let b ← w.backend.apply operation request v
      pure { w with backend := b, flight := w.flight.eraseIdx i }
  | .finish o status written => do
      let b ← w.backend.finish o status written
      pure { w with backend := b }
  | .spawn o child => do
      let b ← w.backend.spawn operation o child
      pure { w with backend := b }

/-- Events one after the other, each of them checked first. -/
def run (check : World → Event → Bool) (w : World) : List Event → Option World
  | [] => some w
  | e :: rest => if check w e then (step operation w e).bind fun w' => run check w' rest else none

end steps

end HpAgent.Memory.Deletion
