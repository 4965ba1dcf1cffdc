import HpAgent.Workspace.VersionRuns

/-! # What an account owns

A Web account that owns nothing may be merged into the account of a QQ identity.  Whether it owns something is decided by
seven tables; a Workspace has tables of its own.

* `createConversation`, `acceptWork`, `createArtifact`: commands that write rows of the seven tables.
* `openAccountWorkspace`, `createWorkspaceUpload`: the Workspace, and an upload to it; the other commands of the catalog are
  those of `Workspace.Action`.
* `consolidateEmptyWebAccount`: the merge.
* `Step`, `run`: what can happen to the accounts.

A row of another table belongs, by its foreign keys, to a conversation, a Work, an artifact or a Workspace. -/

namespace HpAgent.Accounts

open Library

/-! ### Rows -/

inductive Provider where
  | web
  | qq
deriving DecidableEq, Repr

/-- `identity_bindings`. -/
structure Identity where
  accountId : Uuid
  provider : Provider
  active : Bool
deriving DecidableEq, Repr

/-- `web_auth_sessions`. -/
structure Session where
  accountId : Uuid
  bindingId : Uuid
deriving DecidableEq, Repr

inductive ChallengeStatus where
  | pending
  | completed
  | cancelled
deriving DecidableEq, Repr

/-- `identity_binding_challenges`. -/
structure Challenge where
  accountId : Uuid
  status : ChallengeStatus
deriving DecidableEq, Repr

/-- The tables that are asked for user data, apart from the receipts. -/
inductive DataTable where
  | conversations
  | outboxEvents
  | artifacts
  | works
  | deliveryTargets
  | notifications
deriving DecidableEq, Repr

def DataTable.all : List DataTable := [.conversations, .outboxEvents, .artifacts, .works, .deliveryTargets, .notifications]

/-- The accounts, and what they own: the rows of the data tables with their account, the receipts of commands (an account, an
operation and a key) with the hash of the request, and the Workspaces.  `initial` are the nodes that a Workspace starts with. -/
structure AccountStore (δ : Type) where
  accounts : Table Uuid Bool
  identities : Table Uuid Identity
  credentials : List Uuid
  sessions : Table Uuid Session
  challenges : Table Uuid Challenge
  rows : DataTable → Table Uuid Uuid
  receipts : Table (Uuid × String × String) δ
  catalog : Workspace.CatalogStore δ
  initial : List Uuid

inductive AccountError where
  | identityConflict (message : String)
  | idempotencyConflict
  | resourceNotFound
  | integrityError
  | catalog (e : Workspace.CatalogError)
deriving DecidableEq, Repr

section accounts

variable {δ : Type} [DecidableEq δ]

abbrev AccountTx (δ : Type) := Tx AccountError (AccountStore δ)

/-! ### Commands -/

/-- A new row of a data table. -/
def insertRow (table : DataTable) (id account : Uuid) : AccountTx δ Unit := do
  let taken ← Tx.query fun db => ((db.rows table).lookup id).isSome
  Tx.check (taken = false) .integrityError
  Tx.update fun db => { db with rows := Function.update db.rows table ((db.rows table).insert id account) }

/-- `claim`: whether the command is to be executed. -/
def claim (account : Uuid) (operation key : String) (digest : δ) : AccountTx δ Bool := do
  let existing ← Tx.query fun db => db.receipts.lookup (account, operation, key)
  match existing with
  | none => do
      Tx.update fun db => { db with receipts := db.receipts.insert (account, operation, key) digest }
      pure true
  | some found => do
      Tx.check (found = digest) .idempotencyConflict
      pure false

/-- The creation of a conversation. -/
def createConversation (account : Uuid) (key : String) (digest : δ) (conversation : Uuid) : AccountTx δ Unit := do
  let fresh ← claim account "create_conversation" key digest
  if fresh = true then insertRow .conversations conversation account else pure ()

/-- The acceptance of a Work. -/
def acceptWork (account work : Uuid) : AccountTx δ Unit := insertRow .works work account

/-- The creation of an artifact from a message of the account. -/
def createArtifact (account : Uuid) (key : String) (digest : δ) (artifact : Uuid) : AccountTx δ Unit := do
  let fresh ← claim account "create_artifact" key digest
  if fresh = true then insertRow .artifacts artifact account else pure ()

/-- `WorkspaceCatalog.initialize`, with the directories that a Workspace starts with. -/
def openAccountWorkspace (account workspace root : Uuid) (first second third : Uuid) : AccountTx δ Unit := do
  let active ← Tx.query fun db => db.accounts.lookup account
  Tx.check (active = some true) .resourceNotFound
  let existing ← Tx.query fun db => db.catalog.workspaces account
  match existing with
  | some _ => pure ()
  | none => do
      Tx.within AccountStore.catalog (fun c db => { db with catalog := c }) .catalog (do
        Workspace.openWorkspace account workspace root
        Workspace.insertNode first ⟨account, workspace, some root, .directory, "资料", "资料", none, none, false⟩
        Workspace.insertNode second ⟨account, workspace, some root, .directory, "任务", "任务", none, none, false⟩
        Workspace.insertNode third ⟨account, workspace, some root, .directory, "成果", "成果", none, none, false⟩)
      Tx.update fun db => { db with initial := root :: first :: second :: third :: db.initial }

/-- `create_workspace_upload`, for an account that has a Workspace. -/
def createWorkspaceUpload (account : Uuid) (key : String) (digest : δ) (file : Uuid) (expiresAt : Instant) : AccountTx δ Unit := do
  let fresh ← claim account "create_workspace_upload" key digest
  if fresh = true then do
    let found ← Tx.query fun db => db.catalog.workspaces account
    let workspace ← Tx.demand found .resourceNotFound
    let taken ← Tx.query fun db => (db.catalog.files.lookup file).isSome
    Tx.check (taken = false) .integrityError
    Tx.update fun db => { db with catalog := { db.catalog with
      files := db.catalog.files.insert file ⟨account, false, "", .input, none, some workspace, some expiresAt⟩ } }
  else pure ()

/-! ### Consolidation -/

/-- A data table or the receipts have a row of the account. -/
def AccountStore.holds (db : AccountStore δ) (account : Uuid) : Bool :=
  DataTable.all.any (fun table => (db.rows table).entries.any fun e => e.2 = account) || db.receipts.entries.any fun e => e.1.1 = account

/-- The identities of an account. -/
def AccountStore.identitiesOf (db : AccountStore δ) (account : Uuid) : List (Sigma fun _ : Uuid => Identity) :=
  db.identities.entries.filter fun e => e.2.accountId = account

def activeWeb (identities : List (Sigma fun _ : Uuid => Identity)) : List (Sigma fun _ : Uuid => Identity) :=
  identities.filter fun e => e.2.provider = .web && e.2.active

/-- The sessions and the Web identity go to the target, and the source is disabled. -/
def AccountStore.merged (source target challenge binding : Uuid) (db : AccountStore δ) : AccountStore δ :=
  { db with
    sessions := Table.updateWhere (fun _ x => x.accountId = source && x.bindingId = binding) (fun x => { x with accountId := target }) db.sessions
    identities := Table.modify binding (fun x => { x with accountId := target }) db.identities
    challenges := Table.modify challenge (fun x => { x with accountId := target })
      (Table.updateWhere (fun id x => x.accountId = source && x.status = .pending && id ≠ challenge)
        (fun x => { x with status := .cancelled }) db.challenges)
    accounts := Table.modify source (fun _ => false) db.accounts }

/-- `_consolidate_empty_web_account`. -/
def consolidateEmptyWebAccount (source target challenge : Uuid) : AccountTx δ Unit := do
  let identities ← Tx.query fun db => db.identitiesOf source
  Tx.check (identities.length = 1 ∧ (activeWeb identities).length = 1) (.identityConflict "Web account is not safe to consolidate")
  let other ← Tx.query fun db => activeWeb (db.identitiesOf target)
  Tx.check (other = []) (.identityConflict "existing QQ account already has a Web identity")
  let binding ← Tx.demand ((activeWeb identities).head?.map Sigma.fst) (.identityConflict "Web account is not safe to consolidate")
  let credential ← Tx.query fun db => db.credentials.contains binding
  Tx.check (credential = true) (.identityConflict "Web account has no credential")
  let data ← Tx.query fun db => db.holds source
  Tx.check (data = false) (.identityConflict "Web account contains user data")
  Tx.update (AccountStore.merged source target challenge binding)

/-! ### Runs -/

/-- What can happen to the accounts. -/
inductive Step (δ : Type) where
  | register (account binding : Uuid)
  | bindQq (account binding : Uuid)
  | createChallenge (id account : Uuid)
  | createConversation (account : Uuid) (key : String) (digest : δ) (conversation : Uuid)
  | acceptWork (account work : Uuid)
  | createArtifact (account : Uuid) (key : String) (digest : δ) (artifact : Uuid)
  /-- a service enqueues an event, adds a delivery target or notifies -/
  | write (table : DataTable) (id account : Uuid)
  | openWorkspace (account workspace root first second third : Uuid)
  | createWorkspaceUpload (account : Uuid) (key : String) (digest : δ) (file : Uuid) (expiresAt : Instant)
  /-- a command of the catalog, or a file that is stored, finished or cleaned up -/
  | catalog (a : Workspace.Action)
  /-- receipts are removed -/
  | expireReceipts (gone : List (Uuid × String × String))
  | consolidate (source target challenge : Uuid)

/-- A new account with a Web identity. -/
def register (account binding : Uuid) : AccountTx δ Unit := do
  let taken ← Tx.query fun db => (db.accounts.lookup account).isSome || (db.identities.lookup binding).isSome
  Tx.check (taken = false) .integrityError
  Tx.update fun db => { db with
    accounts := db.accounts.insert account true
    identities := db.identities.insert binding ⟨account, .web, true⟩
    credentials := binding :: db.credentials }

/-- A QQ identity of its own account. -/
def bindQq (account binding : Uuid) : AccountTx δ Unit := do
  let taken ← Tx.query fun db => (db.accounts.lookup account).isSome || (db.identities.lookup binding).isSome
  Tx.check (taken = false) .integrityError
  Tx.update fun db => { db with
    accounts := db.accounts.insert account true
    identities := db.identities.insert binding ⟨account, .qq, true⟩ }

variable (host : Workspace.Host δ)

/-- The transaction of a step. -/
def Step.tx : Step δ → AccountTx δ Unit
  | .register account binding => Accounts.register account binding
  | .bindQq account binding => Accounts.bindQq account binding
  | .createChallenge id account => Tx.update fun db => { db with
      challenges := if (db.challenges.lookup id).isSome then db.challenges else db.challenges.insert id ⟨account, .pending⟩ }
  | .createConversation account key digest conversation => Accounts.createConversation account key digest conversation
  | .acceptWork account work => Accounts.acceptWork account work
  | .createArtifact account key digest artifact => Accounts.createArtifact account key digest artifact
  | .write table id account => insertRow table id account
  | .openWorkspace account workspace root first second third => openAccountWorkspace account workspace root first second third
  | .createWorkspaceUpload account key digest file expiresAt => Accounts.createWorkspaceUpload account key digest file expiresAt
  | .catalog a => Tx.update fun db => { db with catalog := Workspace.act host db.catalog a }
  | .expireReceipts gone => Tx.update fun db => { db with receipts := gone.foldl (fun t k => t.erase k) db.receipts }
  | .consolidate source target challenge => consolidateEmptyWebAccount source target challenge

def step (db : AccountStore δ) (x : Step δ) : AccountStore δ := (x.tx host).commit db

def start : AccountStore δ := ⟨∅, ∅, [], ∅, ∅, fun _ => ∅, ∅, Workspace.start, []⟩

def run (steps : List (Step δ)) : AccountStore δ := steps.foldl (step host) start

end accounts

end HpAgent.Accounts
