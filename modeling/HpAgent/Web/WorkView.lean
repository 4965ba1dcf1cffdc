import HpAgent.Domain.Authority
import Mathlib.Logic.Function.Basic

/-! # The Works a browser shows

The browser keeps the Works it has loaded, each as the newest response showed it.  An event of a Work carries a sequence number
and makes the browser ask for the Work again; requests for one Work that overlap share one answer.

* `upsert`, `refresh`, `receive`, `load`: the store of the browser.
* `Request`: what has been asked and, once the server has read it, answered.
* `step`: one step of the server, of the network or of the browser.

A response reflects what the server had when it answered, which may be any moment between request and arrival. -/

namespace HpAgent.Web

/-! ### The store -/

/-- A Work as a response shows it. -/
structure HpWork where
  workId : Uuid
  rowVersion : ℕ
deriving DecidableEq, Repr

/-- An event of a Work, and the row version that the server had when it sent it, which the event does not carry. -/
structure HpWorkEvent where
  workId : Uuid
  eventSeq : ℕ
  emittedAt : ℕ
deriving DecidableEq, Repr

/-- What a scan of all Works carries from page to page. -/
structure Scan where
  generation : ℕ
  token : ℕ
  before : Option ℕ
  cursors : List ℕ
  seen : List Uuid
deriving DecidableEq, Repr

/-- A request, and its answer once the server has read it.  A refresh that has landed is still shared until it is forgotten. -/
inductive Request where
  | refresh (id : Uuid) (generation : ℕ) (answer : Option ℕ) (landed : Bool)
  | page (scan : Scan) (answer : Option (List HpWork × Option ℕ))
  | command (id : Uuid) (answer : Option (Option HpWork))
deriving DecidableEq, Repr

/-- The store, the requests that were sent, and the events it was handed since it was last reset. -/
structure View where
  generation : ℕ
  items : List HpWork
  cursors : Uuid → ℕ
  refreshes : Uuid → Option ℕ
  scanId : ℕ
  scanPromise : Option ℕ
  nextBefore : Option ℕ
  requests : ℕ → Option Request
  sent : ℕ
  received : List HpWorkEvent

def View.start : View := ⟨0, [], fun _ => 0, fun _ => none, 0, none, none, fun _ => none, 0, []⟩

namespace View

/-- The Work as it is shown. -/
def shown (s : View) (id : Uuid) : Option HpWork := s.items.find? fun w => w.workId = id

/-- `upsert`. -/
def upsert (s : View) (work : HpWork) : View :=
  match s.shown work.workId with
  | none => { s with items := s.items ++ [work] }
  | some old =>
      if work.rowVersion < old.rowVersion then s
      else { s with items := s.items.map fun w => if w.workId = work.workId then work else w }

def send (s : View) (r : Request) : View :=
  { s with requests := Function.update s.requests s.sent (some r), sent := s.sent + 1 }

def settle (s : View) (r : ℕ) : View := { s with requests := Function.update s.requests r none }

/-- `refresh`: a request for the Work that is on its way is shared. -/
def refresh (s : View) (id : Uuid) : View :=
  match s.refreshes id with
  | some _ => s
  | none => { s with refreshes := Function.update s.refreshes id (some s.sent) }.send (.refresh id s.generation none false)

/-- A refresh has its answer, or has failed. -/
def land (s : View) (r : ℕ) (request : Request) : View := { s with requests := Function.update s.requests r (some request) }

/-- The next refresh of the Work is a request of its own. -/
def forget (s : View) (r : ℕ) : View :=
  match s.requests r with
  | some (.refresh id _ _ true) =>
      { s with refreshes := if s.refreshes id = some r then Function.update s.refreshes id none else s.refreshes }.settle r
  | _ => s

/-- `receive`. -/
def receive (s : View) (e : HpWorkEvent) : View :=
  let s := { s with received := s.received ++ [e] }
  if e.eventSeq ≤ s.cursors e.workId then s
  else { s with cursors := Function.update s.cursors e.workId e.eventSeq }.refresh e.workId

/-- `load`. -/
def load (s : View) (resume : Bool) : View :=
  match s.scanPromise with
  | some _ => s
  | none => { s with scanId := s.scanId + 1, scanPromise := some (s.scanId + 1) }.send
      (.page ⟨s.generation, s.scanId + 1, if resume then s.nextBefore else none, [], []⟩ none)

/-- `cancelScan`. -/
def cancelScan (s : View) : View := { s with scanId := s.scanId + 1, scanPromise := none }

/-- The scan is over, if it is still the current one. -/
def endScan (s : View) (token : ℕ) : View := { s with scanPromise := if s.scanPromise = some token then none else s.scanPromise }

/-- A page of the scan arrives. -/
def page (s : View) (scan : Scan) (works : List HpWork) (next : Option ℕ) : View :=
  if scan.generation ≠ s.generation ∨ scan.token ≠ s.scanId then s.endScan scan.token
  else
    let fresh := works.filter fun w => w.workId ∉ scan.seen
    let s := works.foldl upsert s
    match next with
    | none => { s with nextBefore := none }.endScan scan.token
    | some cursor =>
        if cursor ∈ scan.cursors ∨ some cursor = scan.before ∨ fresh = [] then { s with nextBefore := none }.endScan scan.token
        else { s with nextBefore := some cursor }.send
          (.page { scan with before := some cursor, cursors := cursor :: scan.cursors, seen := works.map HpWork.workId ++ scan.seen } none)

/-- `reset`: the requests on their way are forgotten. -/
def reset (s : View) : View :=
  { s.cancelScan with
    generation := s.generation + 1, items := [], cursors := fun _ => 0, refreshes := fun _ => none, nextBefore := none, received := [] }

end View

/-! ### The server and the network -/

structure System where
  versions : Uuid → ℕ
  eventSeqs : Uuid → ℕ
  emitted : List HpWorkEvent
  view : View

def System.start : System := ⟨fun _ => 0, fun _ => 0, [], .start⟩

/-- What can happen. -/
inductive Action where
  /-- a row version is committed -/
  | commit (id : Uuid)
  /-- an event of the Work is sent -/
  | emit (id : Uuid)
  | receive (e : HpWorkEvent)
  | refresh (id : Uuid)
  | load (resume : Bool)
  | cancelScan
  | command (id : Uuid)
  /-- the server answers a request; a page lists some Works, and a command may return its Work -/
  | answer (r : ℕ) (listed : List Uuid) (next : Option ℕ) (snapshot : Bool)
  /-- the answer arrives; a command is followed up if its intent is still the current one -/
  | arrive (r : ℕ) (valid : Bool)
  /-- a refresh that has landed is no longer shared -/
  | forget (r : ℕ)
  /-- the request fails; a command that was refused is followed up by a refresh -/
  | fail (r : ℕ) (refused : Bool)
  /-- the Work is not there any more -/
  | unavailable (r : ℕ)
  | reset

namespace System

/-- The server reads what a request asks for. -/
def answerOf (s : System) (listed : List Uuid) (next : Option ℕ) (snapshot : Bool) : Request → Request
  | .refresh id generation none false => .refresh id generation (some (s.versions id)) false
  | .page scan none => .page scan (some (listed.map fun id => ⟨id, s.versions id⟩, next))
  | .command id none => .command id (some (if snapshot then some ⟨id, s.versions id⟩ else none))
  | r => r

/-- An answer arrives. -/
def arrive (v : View) (r : ℕ) (valid : Bool) : View :=
  match v.requests r with
  | some (.refresh id generation (some version) false) =>
      (if generation = v.generation then v.upsert ⟨id, version⟩ else v).land r (.refresh id generation (some version) true)
  | some (.page scan (some (works, next))) => (v.settle r).page scan works next
  | some (.command id (some snapshot)) =>
      if valid = false then v.settle r
      else match snapshot with
        | some work => (v.settle r).upsert work
        | none => (v.settle r).refresh id
  | _ => v

/-- A request fails. -/
def fail (v : View) (r : ℕ) (refused : Bool) : View :=
  match v.requests r with
  | some (.refresh id generation answer false) => v.land r (.refresh id generation answer true)
  | some (.refresh _ _ _ true) => v
  | some (.page scan _) => (v.settle r).endScan scan.token
  | some (.command id _) => if refused then (v.settle r).refresh id else v.settle r
  | none => v

/-- A refresh finds the Work gone. -/
def unavailable (v : View) (r : ℕ) : View :=
  match v.requests r with
  | some (.refresh id generation answer false) =>
      (if generation = v.generation then { v with items := v.items.filter fun w => w.workId ≠ id } else v).land r
        (.refresh id generation answer true)
  | _ => v

/-- A step; one that is not possible changes nothing. -/
def step (s : System) : Action → System
  | .commit id => { s with versions := Function.update s.versions id (s.versions id + 1) }
  | .emit id =>
      { s with
        eventSeqs := Function.update s.eventSeqs id (s.eventSeqs id + 1)
        emitted := s.emitted ++ [⟨id, s.eventSeqs id + 1, s.versions id⟩] }
  | .receive e => if e ∈ s.emitted then { s with view := s.view.receive e } else s
  | .refresh id => { s with view := s.view.refresh id }
  | .load resume => { s with view := s.view.load resume }
  | .cancelScan => { s with view := s.view.cancelScan }
  | .command id => { s with view := s.view.send (.command id none) }
  | .answer r listed next snapshot =>
      { s with view := { s.view with
          requests := Function.update s.view.requests r ((s.view.requests r).map (s.answerOf listed next snapshot)) } }
  | .arrive r valid => { s with view := arrive s.view r valid }
  | .forget r => { s with view := s.view.forget r }
  | .fail r refused => { s with view := fail s.view r refused }
  | .unavailable r => { s with view := unavailable s.view r }
  | .reset => { s with view := s.view.reset }

end System

/-- A run. -/
def run (actions : List Action) : System := actions.foldl System.step .start

end HpAgent.Web
