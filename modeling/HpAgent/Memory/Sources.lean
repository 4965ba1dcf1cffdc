import HpAgent.Library.Saturation
import HpAgent.Memory.Context
import HpAgent.Requirements.Requirement
import Mathlib

/-! # Memory sources

A source is a document of the memory backend that a Run has produced; an action is a request about it.  The row of a
source says what may be done with it and which action is its current one.

* `register`, `freeze`: a completed Run becomes a source, with the action that retains it.
* `command`, `reconcileScope`, `revoke`: what users, the scope policy and resource revocations ask for.
* `loadAction`, `markSending`, `markVerifying`, `sendState`, `progress`, `save`: the transactions of the workers.
* `readableDocuments`: the documents a reader may see.

The claim of a worker on its outbox event is a parameter here; the outbox half of these transactions is in the module of
the outbox.  Every transaction but those of the workers locks the account row first, and those lock the source. -/

namespace HpAgent.Memory.Governance

open Library
open Requirements (strip)

/-! ### Rows -/

inductive SourceKind where
  | chat | work | promotion
deriving DecidableEq, Repr

inductive SourceState where
  | active | blocked | forgotten | quarantined
deriving DecidableEq, Repr

inductive ActionKind where
  | retain | correct | invalidate | restore | delete | replace | reprocess
deriving DecidableEq, Repr

inductive ActionStatus where
  | queued | submitted | verifying | verified | uncertain | failed
deriving DecidableEq, Repr

inductive SendState where
  | idle | sending | settled | unknown
deriving DecidableEq, Repr

/-- The verdict of `admission`. -/
inductive Decision where
  | allow | reject | evidenceRequired
deriving DecidableEq, Repr

/-- `messages.origin`, as far as scopes depend on it. -/
structure Origin where
  scope : Option String
  channelType : Option String
  contextKey : String
deriving DecidableEq, Repr

/-- The `kind` of a command. -/
inductive CommandKind where
  | correct | invalidate | restore | delete
deriving DecidableEq, Repr

def CommandKind.action : CommandKind → ActionKind
  | correct => .correct
  | invalidate => .invalidate
  | restore => .restore
  | delete => .delete

/-- `MemoryActionRequest`. -/
structure CommandPayload where
  kind : CommandKind
  generation : ℕ
  reason : String
  memoryId : Option String
  text : Option String
deriving DecidableEq, Repr

/-- The frozen request of a Retain: its document, the digest of what it says, and its quality profile. -/
structure RetainRequest where
  documentId : String
  content : ℕ
  qualitySnapshot : Option ℕ
deriving DecidableEq, Repr

/-- `request_payload`. -/
inductive Payload where
  | retain (request : RetainRequest)
  | command (payload : CommandPayload)
  | childDelete (root : Uuid)
  | newScope (scope : Scope)
deriving DecidableEq, Repr

def Payload.newScope? : Payload → Option Scope
  | newScope scope => some scope
  | _ => none

def Payload.qualitySnapshot : Payload → Option ℕ
  | retain request => request.qualitySnapshot
  | _ => none

/-- What `request_hash` is taken of. -/
inductive Hashed where
  | payload (p : Payload)
  | command (source : Uuid) (payload : CommandPayload)
  | reason (text : String)
deriving DecidableEq, Repr

/-- `verification`, as far as it is read again. -/
structure Evidence where
  sourceIds : List Uuid
  descendantActions : List Uuid
  operations : List Uuid
  reconciled : Bool
  factIds : List String
  observationIds : List String
deriving DecidableEq, Repr

def Evidence.empty : Evidence := ⟨[], [], [], false, [], []⟩

/-- `memory_sources`; the key is `source_id`. -/
structure Source where
  accountId : Uuid
  kind : SourceKind
  key : String
  originRunId : Uuid
  parent : Option Uuid
  documentId : String
  scope : Scope
  sourceHash : ℕ
  policyVersion : String
  generation : ℕ
  state : SourceState
  manualCuration : Bool
  currentActionId : Option Uuid
deriving DecidableEq, Repr

/-- `memory_actions`; the key is `action_id`. -/
structure Action where
  accountId : Uuid
  sourceId : Uuid
  generation : ℕ
  kind : ActionKind
  actor : String
  reason : String
  actionKey : String
  requestHash : ℕ
  requestPayload : Option Payload
  targetMemoryId : Option String
  operationId : Option Uuid
  invalidationEpoch : Option ℕ
  affectedScopes : Option Affected
  status : ActionStatus
  failureCount : ℕ
  errorCode : Option String
  verification : Option Evidence
  sendState : SendState
  sendUncertain : Bool
  createdAt : Instant
deriving DecidableEq, Repr

/-- A Run with the origin of the message that triggered it. -/
structure MemoryRun where
  accountId : Uuid
  conversationId : Option Uuid
  workId : Option Uuid
  origin : Option Origin
  retentionBlocked : Bool
deriving DecidableEq, Repr

structure MemoryAccount where
  active : Bool
  memoryEpoch : ℕ
deriving DecidableEq, Repr

/-- The answer to a command. -/
structure CommandResult where
  actionId : Uuid
  sourceIds : List Uuid
  descendantActions : List Uuid
deriving DecidableEq, Repr

/-- `idempotency_commands` of the operation `memory_action`. -/
structure Receipt where
  requestHash : ℕ
  response : Option CommandResult
deriving DecidableEq, Repr

structure Store where
  accounts : Uuid → Option MemoryAccount
  runs : Uuid → Option MemoryRun
  sources : Table Uuid Source
  actions : Table Uuid Action
  receipts : Table (Uuid × String) Receipt

inductive GovernanceError where
  | resourceNotFound
  | versionConflict (current : ℕ)
  | conversationBusy
  | idempotencyConflict
  | memoryScopeError (code : String)
  | memoryRequestConflict
  | valueError (message : String)
  | typeError
  | outboxLeaseLost
  | integrityError
deriving DecidableEq, Repr

abbrev GovernanceTx := Tx GovernanceError Store

/-! ### Scopes -/

/-- `memory_scope`, for an account identifier. -/
def memoryScope (scope groupId : String) : Except GovernanceError Scope :=
  if scope = "private" ∧ groupId = "" then .ok ["scope:private"]
  else if (scope = "group" ∨ scope = "guild") ∧ groupId ≠ "" ∧ groupId.toList = strip groupId.toList then
    .ok ["scope:group", "group:" ++ groupId]
  else .error (.memoryScopeError "memory_scope_required")

/-- `chat_scope`. -/
def chatScope (origin : Origin) : Except GovernanceError Scope :=
  let scope := match origin.scope with
    | some scope => some scope
    | none => if origin.channelType.getD "web" = "web" then some "private" else none
  memoryScope (scope.getD "") (if scope = some "group" ∨ scope = some "guild" then origin.contextKey else "")

/-- A set of affected scopes meets a scope, as the containment of JSON arrays has it. -/
def covers (affected : Option Affected) (scope : Scope) : Bool :=
  match affected with
  | none | some .account => true
  | some (.scopes scopes) => scopes.any fun hit => scope.all fun tag => hit.contains tag

/-! ### Statements -/

/-- `account_epoch`. -/
def lockAccount (account : Uuid) : GovernanceTx MemoryAccount := do
  let found ← Tx.query fun db => db.accounts account
  Tx.demand found .resourceNotFound

/-- `INSERT INTO memory_actions`, with the keys of the table. -/
def insertAction (id : Uuid) (a : Action) : GovernanceTx Unit := do
  let taken ← Tx.query fun db => (db.actions.lookup id).isSome ||
    db.actions.entries.any fun e =>
      (e.2.accountId = a.accountId && e.2.actionKey = a.actionKey) || (a.operationId.isSome && e.2.operationId = a.operationId)
  Tx.check (taken = false) .integrityError
  let owner ← Tx.query fun db => (db.sources.lookup a.sourceId).map Source.accountId
  Tx.check (owner = some a.accountId) .integrityError
  Tx.update fun db => { db with actions := db.actions.insert id a }

/-- `UPDATE memory_sources … WHERE account_id AND source_id`. -/
def updateSource (account source : Uuid) (f : Source → Source) : GovernanceTx Unit :=
  Tx.update fun db => { db with sources := db.sources.updateWhere (fun k s => k = source && s.accountId = account) f }

/-- `UPDATE memory_actions … WHERE account_id AND action_id`. -/
def updateAction (account id : Uuid) (f : Action → Action) : GovernanceTx Unit :=
  Tx.update fun db => { db with actions := db.actions.updateWhere (fun k a => k = id && a.accountId = account) f }

/-- The row of a source of the account. -/
def sourceOf (db : Store) (account source : Uuid) : Option Source :=
  (db.sources.lookup source).filter fun s => s.accountId = account

/-- The row of an action of the account. -/
def actionOf (db : Store) (account id : Uuid) : Option Action :=
  (db.actions.lookup id).filter fun a => a.accountId = account

/-- The action of the account under a key. -/
def actionByKey (db : Store) (account : Uuid) (key : String) : Option (Uuid × Action) :=
  (db.actions.entries.find? fun e => e.2.accountId = account && e.2.actionKey = key).map fun e => (e.1, e.2)

/-- The Run a source of the account comes from. -/
def originRun (db : Store) (account : Uuid) (s : Source) : Option MemoryRun :=
  (db.runs s.originRunId).filter fun r => r.accountId = account

/-- `invalidate`. -/
def invalidate (account id : Uuid) (affected : Affected) : GovernanceTx Unit := do
  let found ← Tx.query fun db => db.accounts account
  let row ← Tx.demand found .typeError
  Tx.update fun db => { db with
    accounts := Function.update db.accounts account (some { row with memoryEpoch := row.memoryEpoch + 1 }) }
  updateAction account id fun a =>
    { a with invalidationEpoch := some (row.memoryEpoch + 1), affectedScopes := some affected }

/-- The columns of a new action that have their defaults. -/
def Action.new (now : Instant) (account source : Uuid) (generation : ℕ) (kind : ActionKind) (actor reason actionKey : String)
    (requestHash : ℕ) (requestPayload : Option Payload) : Action :=
  ⟨account, source, generation, kind, actor, reason, actionKey, requestHash, requestPayload, none, none, none, none, .queued,
    0, none, none, .idle, false, now⟩

/-! ### Commands -/

/-- `authorize`. -/
def authorize (account source : Uuid) : GovernanceTx Source := do
  let found ← Tx.query fun db => do
    let s ← sourceOf db account source
    let r ← originRun db account s
    let origin ← r.origin
    if r.conversationId.isSome && (db.accounts account).any MemoryAccount.active then some (s, origin) else none
  let (s, origin) ← Tx.demand found .resourceNotFound
  Tx.check (s.kind = .chat) .resourceNotFound
  let tags ← Tx.ofExcept (chatScope origin)
  Tx.check (tags = s.scope) .resourceNotFound
  pure s

/-- The later of two actions, the first of them when they are of one time. -/
def later (best : Option Action) (a : Action) : Option Action :=
  match best with
  | none => some a
  | some b => if b.createdAt < a.createdAt then some a else some b

/-- The latest action of the source on a fact. -/
def latestOn (db : Store) (account source : Uuid) (memoryId : Option String) : Option Action :=
  ((db.actions.entries.map Sigma.snd).filter fun a =>
    a.accountId = account && a.sourceId = source && a.targetMemoryId.isSome && a.targetMemoryId = memoryId).foldl later none

/-- The sources of an account. -/
def sourcesOf (db : Store) (account : Uuid) : List (Uuid × Source) :=
  (db.sources.entries.map fun e => (e.1, e.2)).filter fun e => e.2.accountId = account

/-- The parent of a row is the root or a row found already. -/
def below (root : Uuid) (found : List (Uuid × Source)) (e : Uuid × Source) : Bool :=
  e.2.parent = some root || found.any fun p => e.2.parent = some p.1

/-- `WITH RECURSIVE descendants … ORDER BY source_id`. -/
def descendants (db : Store) (account source : Uuid) : List (Uuid × Source) :=
  (grow (below source) (sourcesOf db account) (sourcesOf db account).length).insertionSort fun a b => a.1 ≤ b.1

/-- What a deletion has gathered. -/
structure Deletion where
  sourceIds : List Uuid
  childActions : List Uuid
  scopes : List Scope
  unknownScope : Bool

/-- A child is part of the deletion. -/
def Deletion.visit (acc : Deletion) (child : Uuid × Source) : Deletion where
  sourceIds := acc.sourceIds ++ [child.1]
  childActions := acc.childActions
  scopes := if acc.scopes.contains child.2.scope then acc.scopes else acc.scopes ++ [child.2.scope]
  unknownScope := acc.unknownScope || child.2.policyVersion ≠ "chat-v2"

/-- What the action of a deletion remembers of it. -/
def Deletion.evidence (acc : Deletion) : Evidence :=
  { Evidence.empty with sourceIds := acc.sourceIds, descendantActions := acc.childActions }

section commands

variable (requestHash : Hashed → ℕ)

/-- One iteration of the loop over the descendants; `fresh` draws the new identifier. -/
def forgetChild (fresh : Uuid → Uuid) (now : Instant) (account source : Uuid) (key reason : String) (acc : Deletion)
    (child : Uuid × Source) : GovernanceTx Deletion :=
  if child.2.state = .forgotten then
    pure { acc.visit child with childActions := acc.childActions ++ child.2.currentActionId.toList }
  else do
    let payload := Payload.childDelete source
    insertAction (fresh child.1)
      { Action.new now account child.1 (child.2.generation + 1) .delete "parent_delete" reason
          ("command:" ++ key ++ ":" ++ toString child.1) (requestHash (.payload payload)) (some payload) with
        affectedScopes := some (.scopes [child.2.scope]) }
    updateSource account child.1 fun s =>
      { s with state := .forgotten, manualCuration := true, generation := s.generation + 1,
               currentActionId := some (fresh child.1) }
    let run ← Tx.query fun db => originRun db account child.2
    let _ ← Tx.demand run .typeError
    pure { acc.visit child with childActions := acc.childActions ++ [fresh child.1] }

/-- The children of a deletion, and what the command has gathered of the source and them. -/
def gatherDeletion (fresh : Uuid → Uuid) (id : Uuid) (now : Instant) (account source : Uuid) (key : String)
    (payload : CommandPayload) (s : Source) : GovernanceTx Deletion :=
  let start : Deletion := ⟨[source], [], [s.scope], s.policyVersion ≠ "chat-v2"⟩
  if payload.kind = .delete then do
    let children ← Tx.query fun db => descendants db account source
    let gathered ← children.foldlM (forgetChild requestHash fresh now account source key payload.reason) start
    updateAction account id fun a => { a with verification := some gathered.evidence }
    pure gathered
  else pure start

/-- What a command invalidates. -/
def invalidateFound (account id : Uuid) (kind : CommandKind) (found : Deletion) : GovernanceTx Unit :=
  if kind ≠ .restore then invalidate account id (if found.unknownScope then .account else .scopes found.scopes)
  else pure ()

/-- The action of a command that is not a replay. -/
def openCommand (fresh : Uuid → Uuid) (id : Uuid) (now : Instant) (account source : Uuid) (key : String)
    (payload : CommandPayload) (s : Source) : GovernanceTx CommandResult := do
  Tx.check (s.generation = payload.generation) (.versionConflict s.generation)
  Tx.check (s.state ≠ .forgotten) .conversationBusy
  Tx.check (¬(s.state = .quarantined ∧ payload.kind ≠ .delete)) .conversationBusy
  let current ← Tx.query fun db => s.currentActionId.bind (actionOf db account)
  Tx.check (payload.kind = .delete ∨ current.any (fun a => a.status = .verified) = true) .conversationBusy
  let previous ← Tx.query fun db => latestOn db account source payload.memoryId
  Tx.check (payload.kind ≠ .restore ∨ previous.any (fun a => a.kind = .invalidate && a.status = .verified) = true)
    .conversationBusy
  insertAction id
    { Action.new now account source (s.generation + 1) payload.kind.action "account" payload.reason ("command:" ++ key)
        (requestHash (.command source payload)) (some (.command payload)) with targetMemoryId := payload.memoryId }
  updateSource account source fun s' =>
    { s' with generation := s.generation + 1, state := if payload.kind = .delete then .forgotten else .blocked,
              manualCuration := true, currentActionId := some id }
  updateAction account id fun a => { a with affectedScopes := some (.scopes [s.scope]) }
  let found ← gatherDeletion requestHash fresh id now account source key payload s
  invalidateFound account id payload.kind found
  pure ⟨id, found.sourceIds, found.childActions⟩

/-- `MemoryGovernanceService.command`; the result and whether it is a replay. -/
def command (fresh : Uuid → Uuid) (id : Uuid) (now : Instant) (account source : Uuid) (key : String)
    (payload : CommandPayload) : GovernanceTx (CommandResult × Bool) := do
  let row ← Tx.query fun db => db.accounts account
  Tx.check (row.any MemoryAccount.active = true) .resourceNotFound
  let _ ← lockAccount account
  let s ← authorize account source
  let digest := requestHash (.command source payload)
  let old ← Tx.query fun db => db.receipts.lookup (account, key)
  match old with
  | some receipt => do
      Tx.check (receipt.requestHash = digest) .idempotencyConflict
      let response ← Tx.demand receipt.response .typeError
      pure (response, true)
  | none => do
      let earlier ← Tx.query fun db => actionByKey db account ("command:" ++ key)
      let result ← match earlier with
        | some (earlierId, a) => do
            Tx.check (a.requestHash = digest) .idempotencyConflict
            pure ⟨earlierId, (a.verification.map Evidence.sourceIds).getD [source],
              (a.verification.map Evidence.descendantActions).getD []⟩
        | none => openCommand requestHash fresh id now account source key payload s
      Tx.update fun db => { db with receipts := db.receipts.insert (account, key) ⟨digest, some result⟩ }
      pure (result, false)

/-- `reconcile_scope`. -/
def reconcileScope (id : Uuid) (now : Instant) (account source : Uuid) (generation : ℕ) :
    GovernanceTx (Option Uuid) := do
  let _ ← lockAccount account
  let found ← Tx.query fun db => do
    let s ← sourceOf db account source
    let r ← originRun db account s
    let origin ← r.origin
    some (s, origin)
  let (s, origin) ← Tx.demand found .resourceNotFound
  Tx.check (s.kind = .chat) .resourceNotFound
  let destination ← Tx.ofExcept (chatScope origin)
  Tx.check (s.generation = generation) (.versionConflict s.generation)
  if destination = s.scope then pure none
  else do
    let current ← Tx.query fun db => s.currentActionId.bind (actionOf db account)
    Tx.check (s.state = .active ∧ current.any (fun a => a.status = .verified) = true) .conversationBusy
    let payload := Payload.newScope destination
    insertAction id (Action.new now account source (generation + 1) .replace "system" "source_scope_reconciled" (toString id)
      (requestHash (.payload payload)) (some payload))
    updateSource account source fun s' =>
      { s' with generation := s'.generation + 1, state := .blocked, currentActionId := some id }
    invalidate account id (if s.policyVersion = "chat-v2" then .scopes [s.scope, destination] else .account)
    pure (some id)

/-! ### Resource revocations -/

/-- `record_revocation`. -/
def recordRevocation (id : Uuid) (now : Instant) (account : Uuid) (source : Uuid × Source) (reason : String)
    (affected : Affected) : GovernanceTx Unit :=
  if source.2.state = .forgotten then pure ()
  else do
    let row ← lockAccount account
    Tx.update fun db => { db with
      accounts := Function.update db.accounts account (some { row with memoryEpoch := row.memoryEpoch + 1 }) }
    insertAction id
      { Action.new now account source.1 (source.2.generation + 1) .invalidate "system" reason (toString id)
          (requestHash (.reason reason)) none with
        status := .verified, invalidationEpoch := some (row.memoryEpoch + 1), affectedScopes := some affected }
    updateSource account source.1 fun s =>
      { s with state := .quarantined, manualCuration := true, generation := s.generation + 1, currentActionId := some id }
    updateAction account id fun a => { a with verification := some Evidence.empty }

/-- The subject of a grant. -/
inductive Subject where
  | conversation (id : Uuid)
  | work (id : Uuid)
deriving DecidableEq, Repr

/-- The Run works for the subject. -/
def Subject.runs : Subject → MemoryRun → Bool
  | conversation id, r => r.conversationId = some id
  | work id, r => r.workId = some id

/-- The sources of the account that Runs of the subject have produced. -/
def sourcesFrom (db : Store) (account : Uuid) (subject : Subject) : List (Uuid × Source) :=
  (sourcesOf db account).filter fun e => (originRun db account e.2).any subject.runs

/-- `revoke` of a grant, once it has been found to be in force. -/
def revoke (fresh : Uuid → Uuid) (now : Instant) (account : Uuid) (subject : Subject) : GovernanceTx Unit := do
  let _ ← lockAccount account
  Tx.update fun db => { db with
    runs := fun k => (db.runs k).map fun r =>
      if r.accountId = account && subject.runs r then { r with retentionBlocked := true } else r }
  let sources ← Tx.query fun db => sourcesFrom db account subject
  sources.forM fun e => recordRevocation requestHash (fresh e.1) now account e "resource_grant_revoked"
    (if e.2.policyVersion ≠ "chat-v2" then .account else .scopes [e.2.scope])

/-! ### Registration -/

/-- `freeze`. -/
def freeze (id operation : Uuid) (now : Instant) (source : Uuid × Source) (request : RetainRequest) (actionKey : String) :
    GovernanceTx Unit := do
  let digest := requestHash (.payload (.retain request))
  let earlier ← Tx.query fun db => actionByKey db source.2.accountId actionKey
  match earlier with
  | some (_, a) => Tx.check (a.requestHash = digest ∧ a.sourceId = source.1) .memoryRequestConflict
  | none => do
      Tx.check (source.2.state = .active ∧ source.2.manualCuration = false) (.valueError "memory_source_blocked")
      Tx.check (source.2.currentActionId = none) (.valueError "memory_source_busy")
      insertAction id
        { Action.new now source.2.accountId source.1 source.2.generation .retain "system" "chat_completed" actionKey digest
            (some (.retain request)) with operationId := some operation }
      updateSource source.2.accountId source.1 fun s => { s with currentActionId := some id }

/-- The state a source is registered in. -/
def registeredState (blocked : Bool) : Decision → SourceState
  | decision =>
    if blocked then .quarantined
    else match decision with
      | .allow => .active
      | .reject => .blocked
      | .evidenceRequired => .quarantined

/-- `INSERT INTO memory_sources … ON CONFLICT DO NOTHING`. -/
def insertSource (id : Uuid) (s : Source) : GovernanceTx Unit :=
  Tx.update fun db =>
    if (db.sources.lookup id).isSome || db.sources.entries.any (fun e => e.2.accountId = s.accountId &&
        (e.2.documentId = s.documentId || (e.2.kind = s.kind && e.2.originRunId = s.originRunId && e.2.key = s.key))) then db
    else { db with sources := db.sources.insert id s }

/-- The source of a Run under its key. -/
def chatSource (db : Store) (account run : Uuid) (key : String) : Option (Uuid × Source) :=
  (db.sources.entries.find? fun e =>
    e.2.accountId = account && e.2.kind = .chat && e.2.originRunId = run && e.2.key = key).map fun e => (e.1, e.2)

/-- `register`; the identifiers are those of a new source, its action and the backend's operation, and `run` is the
account and the identifier of the Run that was loaded. -/
def register (id actionId operation : Uuid) (now : Instant) (owned : Bool) (eventAccount eventRun : Uuid)
    (run : Option (Uuid × Uuid)) (request : RetainRequest) (scope : Scope) (decision : Decision)
    (qualitySnapshot : Option ℕ) : GovernanceTx Unit := do
  let _ ← lockAccount eventAccount
  Tx.check (owned = true) .outboxLeaseLost
  match run with
  | none => pure ()
  | some (account, runId) => do
      Tx.check (eventAccount = account ∧ eventRun = runId) (.valueError "memory_source_owner_mismatch")
      let digest := requestHash (.payload (.retain request))
      let actionKey := "retain:" ++ toString runId
      let old ← Tx.query fun db => actionByKey db account actionKey
      let snapshot := match old with
        | some (_, a) => a.requestPayload.bind Payload.qualitySnapshot
        | none => qualitySnapshot
      let request := if decision = .allow ∧ snapshot.isSome = true then { request with qualitySnapshot := snapshot } else request
      let row ← Tx.query fun db => (db.runs runId).filter fun r => r.accountId = account
      let r ← Tx.demand row .typeError
      insertSource id ⟨account, .chat, request.documentId, runId, none, request.documentId, scope, digest, "chat-v2", 1,
        registeredState r.retentionBlocked decision, false, none⟩
      let found ← Tx.query fun db => chatSource db account runId request.documentId
      let source ← Tx.demand found .memoryRequestConflict
      Tx.check (source.2.sourceHash = digest) .memoryRequestConflict
      if r.retentionBlocked = false ∧ decision = .allow ∧ source.2.state = .active ∧ source.2.manualCuration = false then
        freeze requestHash actionId operation now source request actionKey
      else pure ()

end commands

/-! ### Workers -/

/-- What `load_action` returns: the action, its source, and whether the account and the Run permit it. -/
structure Loaded where
  id : Uuid
  action : Action
  source : Source
  accountActive : Bool
  retentionPermitted : Bool
deriving DecidableEq, Repr

/-- `load_action`, for an event of the Run. -/
def loadAction (db : Store) (account id run : Uuid) : Option Loaded := do
  let a ← actionOf db account id
  let s ← sourceOf db account a.sourceId
  let r ← originRun db account s
  let row ← db.accounts account
  if s.originRunId = run then some ⟨id, a, s, row.active, !r.retentionBlocked⟩ else none

/-- The source still stands where the action was opened. -/
def Source.isAt (s : Source) (l : Loaded) : Bool := s.generation = l.action.generation && s.currentActionId = some l.id

/-- `send_state`. -/
def sendState (l : Loaded) (state : SendState) : GovernanceTx Unit :=
  updateAction l.action.accountId l.id fun a =>
    { a with sendUncertain := a.sendUncertain || state = .unknown, sendState := state }

/-- `progress`. -/
def progress (l : Loaded) (evidence : Evidence) : GovernanceTx Unit :=
  updateAction l.action.accountId l.id fun a => { a with verification := some evidence }

/-- `mark_sending`. -/
def markSending (owned : Bool) (l : Loaded) : GovernanceTx Unit := do
  let row ← lockAccount l.action.accountId
  Tx.check (owned = true) .outboxLeaseLost
  Tx.check (row.active = true) .outboxLeaseLost
  let found ← Tx.query fun db => sourceOf db l.action.accountId l.action.sourceId
  let s ← Tx.demand found .typeError
  let run ← Tx.query fun db => originRun db l.action.accountId s
  let r ← Tx.demand run .typeError
  Tx.check (¬(r.retentionBlocked = true ∨ s.state ≠ .active ∨ s.manualCuration = true ∨ s.isAt l = false)) .outboxLeaseLost
  updateAction l.action.accountId l.id fun a =>
    { a with status := .submitted, sendUncertain := a.sendUncertain || a.sendState = .sending, sendState := .sending }

/-- `mark_verifying`. -/
def markVerifying (owned : Bool) (l : Loaded) : GovernanceTx Unit := do
  Tx.check (owned = true) .outboxLeaseLost
  updateAction l.action.accountId l.id fun a => { a with status := .verifying }

/-- A result counts as verified for the source only where the action was opened; a Retain needs more. -/
def outdated (s : Source) (l : Loaded) : Bool :=
  !s.isAt l || (l.action.kind = .retain && (s.state ≠ .active || s.manualCuration))

/-- What a verified action other than a Retain does to its source and to the frozen requests. -/
def applyVerified (l : Loaded) : GovernanceTx Unit :=
  if l.action.kind = .delete then
    Tx.update fun db => { db with
      actions := db.actions.updateWhere (fun _ a => a.accountId = l.action.accountId && a.sourceId = l.action.sourceId)
        fun a => { a with requestPayload := none, reason := "source_deleted" } }
  else do
    match l.action.kind, l.action.requestPayload.bind Payload.newScope? with
    | .replace, some scope => updateSource l.action.accountId l.action.sourceId fun s => { s with scope := scope }
    | _, _ => pure ()
    updateSource l.action.accountId l.action.sourceId fun s => { s with state := .active }
    updateAction l.action.accountId l.id fun a => { a with requestPayload := none }

/-- `save`. -/
def save (owned : Bool) (l : Loaded) (status : ActionStatus) (errorCode : Option String) (failure : Bool)
    (verification : Option Evidence) : GovernanceTx Unit := do
  Tx.check (owned = true) .outboxLeaseLost
  let found ← Tx.query fun db => sourceOf db l.action.accountId l.action.sourceId
  let s ← Tx.demand found .typeError
  let demoted : Bool := status = .verified && outdated s l
  let status := if demoted then .uncertain else status
  let errorCode := if demoted then some "memory_source_changed" else errorCode
  updateAction l.action.accountId l.id fun a =>
    { a with status := status, errorCode := errorCode, failureCount := a.failureCount + if failure then 1 else 0,
             verification := verification.orElse fun _ => a.verification }
  if status = .verified ∧ l.action.kind ≠ .retain then applyVerified l else pure ()

/-! ### Reading -/

/-- The current action of a source is an unverified governance action whose scopes meet the given one. -/
def withholds (db : Store) (account : Uuid) (scope : Scope) (b : Source) : Bool :=
  b.accountId = account && (b.currentActionId.bind (actionOf db account)).any fun c =>
    c.kind ≠ .retain && c.status ≠ .verified && covers c.affectedScopes scope

/-- One row of the query of `readable_documents`. -/
def readable (db : Store) (account : Uuid) (scope : Scope) (documents : List String) (id : Uuid) (s : Source) : Bool :=
  s.accountId = account && s.scope = scope && documents.contains s.documentId && s.state = .active &&
    (originRun db account s).any (fun r => !r.retentionBlocked) &&
    (s.currentActionId.bind (actionOf db account)).any (fun a =>
      a.sourceId = id && a.status = .verified && a.generation = s.generation) &&
    !db.sources.entries.any fun b => withholds db account s.scope b.2

/-- `readable_documents`. -/
def readableDocuments (db : Store) (account : Uuid) (scope : Scope) (documents : List String) : List String :=
  if documents = [] then []
  else (db.sources.entries.filter fun e => readable db account scope documents e.1 e.2).map fun e => e.2.documentId

end HpAgent.Memory.Governance
