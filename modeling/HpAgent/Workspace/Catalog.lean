import HpAgent.Domain.Authority
import HpAgent.Library.Table
import HpAgent.Library.Transaction

/-! # The workspace catalog

A workspace is a tree of directories and file entries.  An entry names a stored file, or, once it has been upgraded, a
destination with a chain of immutable revisions.  An update carries the revision and the hash it was made from, and
becomes the next revision when they are the current ones.

* `saveFile`, `upgradeFile`, `updateFile`, `move`, `remove`: the commands on entries.
* `insertNode`, `placeNode`: the constraints and the trigger of `workspace_nodes`.

Every command locks the workspace of the account first, so commands of one account do not overlap.  The intent of an
operation is stored by its digest; `digest` stands for the hash of its JSON. -/

namespace HpAgent.Workspace

open Library

/-! ### Rows -/

inductive NodeKind where
  | directory
  | file
deriving DecidableEq, Repr

/-- `workspace_nodes`. -/
structure Node where
  accountId : Uuid
  workspaceId : Uuid
  parentId : Option Uuid
  kind : NodeKind
  name : String
  nameKey : String
  fileId : Option Uuid
  destinationId : Option Uuid
  deleted : Bool
deriving DecidableEq, Repr

inductive Purpose where
  | input
  | output
deriving DecidableEq, Repr

/-- `stored_files`. -/
structure StoredFile where
  accountId : Uuid
  ready : Bool
  sha256 : String
  purpose : Purpose
  conversationId : Option Uuid
  sourceWorkspaceId : Option Uuid
  expiresAt : Option Instant
deriving DecidableEq, Repr

/-- `persistent_file_destinations`. -/
structure Destination where
  accountId : Uuid
  currentRevision : ℕ
  currentFileId : Uuid
  currentSha256 : String
deriving DecidableEq, Repr

/-- `persistent_file_revisions`; the key is the destination and the revision. -/
structure Revision where
  accountId : Uuid
  fileId : Uuid
  sha256 : String
  operationId : String
deriving DecidableEq, Repr

/-- `workspace_save_operations`; the key is the account and the operation. -/
structure SaveOperation (δ : Type) where
  intent : δ
  nodeId : Uuid
  sourceRunId : Option Uuid

/-- What a caller of `update_file` is told. -/
structure Version where
  nodeId : Uuid
  destinationId : Uuid
  revision : ℕ
  fileId : Uuid
deriving DecidableEq, Repr

/-- `workspace_version_operations`; the key is the account and the operation. -/
structure VersionOperation (δ : Type) where
  intent : δ
  version : Version
  sourceRunId : Option Uuid

/-- The workspaces of the accounts with their `topology_version`, the files, the published outputs, and the rows of the catalog. -/
structure CatalogStore (δ : Type) where
  workspaces : Uuid → Option Uuid
  topologyVersions : Uuid → ℕ
  nodes : Table Uuid Node
  files : Table Uuid StoredFile
  outputs : Uuid → Uuid → Bool
  destinations : Table Uuid Destination
  revisions : Table (Uuid × ℕ) Revision
  saveOperations : Table (Uuid × String) (SaveOperation δ)
  versionOperations : Table (Uuid × String) (VersionOperation δ)

/-- The intents that are hashed. -/
inductive Intent where
  | save (parentId fileId : Uuid) (name : String)
  | update (nodeId runId fileId : Uuid) (expectedRevision : ℕ) (expectedSha256 : String)
deriving DecidableEq, Repr

/-- The result of `_current_in_uow`. -/
structure Current where
  nodeId : Uuid
  destinationId : Option Uuid
  revision : Option ℕ
  fileId : Option Uuid
  sha256 : Option String
deriving DecidableEq, Repr

/-- The exceptions of the catalog. -/
inductive CatalogError where
  | conflict (message reason : String)
  | notFound (message : String)
  | versionConflict (current : Current)
  | resourceDenied (message : String)
  /-- `RAISE EXCEPTION` in a trigger. -/
  | raiseException (message : String)
  /-- A unique, foreign key or check constraint rejected the row. -/
  | integrityError
  /-- What a check of another subsystem raises. -/
  | refused (e : Error)
deriving DecidableEq, Repr

/-- `WorkspaceConflict` with its default reason. -/
def operationConflict (message : String) : CatalogError := .conflict message "operation_conflict"

/-! ### Names -/

section names

variable (nfc casefold : String → String) (strip : String → String)

/-- `normalize_name`; Unicode normalization, case folding and stripping are those of the standard library. -/
def normalizeName (value : String) : Except CatalogError (String × String) :=
  let name := nfc value
  if name = "" ∨ name ≠ strip name ∨ name = "." ∨ name = ".." ∨ name.toList.any (fun c => c = '/' || c = '\\' || c.toNat < 32) = true
      ∨ 255 < name.length then
    .error (.conflict "invalid Workspace name" "invalid_name")
  else
    let key := casefold name
    if 255 < key.length then .error (.conflict "normalized Workspace name is too long" "invalid_name")
    else .ok (name, key)

end names

section catalog

variable {δ : Type}

abbrev CatalogTx (δ : Type) := Tx CatalogError (CatalogStore δ)

/-- The verdict of another subsystem. -/
abbrev Verdict := Except CatalogError Unit

/-! ### The tree -/

/-- `_workspace`. -/
def workspaceOf (account : Uuid) : CatalogTx δ Uuid := do
  let found ← Tx.query fun db => db.workspaces account
  Tx.demand found (.notFound "")

/-- `uq_workspace_nodes__siblings`. -/
def siblingTaken (db : CatalogStore δ) (id : Uuid) (n : Node) : Bool :=
  db.nodes.entries.any fun e => e.1 ≠ id && e.2.workspaceId = n.workspaceId && e.2.parentId = n.parentId
    && e.2.nameKey = n.nameKey && !e.2.deleted

/-- The node and its ancestors. -/
def ancestors (db : CatalogStore δ) : ℕ → Uuid → List Uuid
  | 0, _ => []
  | n + 1, id =>
      match db.nodes.lookup id with
      | none => []
      | some x =>
          match x.parentId with
          | none => [id]
          | some p => id :: ancestors db n p

/-- An active directory of the workspace. -/
def activeDirectory (db : CatalogStore δ) (n : Node) (parent : Uuid) : Bool :=
  (db.nodes.lookup parent).any fun p =>
    p.accountId = n.accountId && p.workspaceId = n.workspaceId && p.kind = .directory && !p.deleted

/-- A file entry that is upgraded in place keeps its content as the first revision. -/
def upgrades (db : CatalogStore δ) (old new : Node) : Bool :=
  old.kind = .file && old.fileId.isSome && old.destinationId.isNone && new.fileId.isNone && new.destinationId.isSome
    && !new.deleted && !old.deleted
    && ((new.destinationId.bind fun d => db.revisions.lookup (d, 1)).any fun r =>
      r.accountId = new.accountId && some r.fileId = old.fileId)

/-- `enforce_workspace_node` below the root: the new row of the node, and the one it replaces. -/
def enforceNode (db : CatalogStore δ) (id : Uuid) (old : Option Node) (new : Node) : Except CatalogError Unit :=
  match new.parentId with
  | none => .ok ()
  | some parent =>
      if old.any (fun o => (o.accountId, o.workspaceId, o.kind) ≠ (new.accountId, new.workspaceId, new.kind)) = true then
        .error (.raiseException "Workspace node identity is immutable")
      else if old.any (fun o => (o.fileId ≠ new.fileId || o.destinationId ≠ new.destinationId) && !upgrades db o new) = true then
        .error (.raiseException "Workspace content identity is immutable")
      else if old.any (fun o => o.deleted && !new.deleted) = true then
        .error (.raiseException "Workspace tombstone cannot be revived")
      else if activeDirectory db new parent = false then
        .error (.raiseException "Parent must be an active directory in this Workspace")
      else if id = parent then .error (.raiseException "Workspace cycle")
      else if old.any (fun o => o.parentId ≠ new.parentId) = true ∧ id ∈ ancestors db db.nodes.entries.length parent then
        .error (.raiseException "Workspace cycle")
      else if new.kind = .directory ∧ new.deleted = true ∧ old.all (fun o => !o.deleted) = true ∧
          db.nodes.entries.any (fun e => e.2.parentId = some id && !e.2.deleted) = true then
        .error (.raiseException "Directory is not empty")
      else if new.kind = .file ∧ new.deleted = false ∧ new.fileId.any (fun f =>
          !((db.files.lookup f).any fun x => x.accountId = new.accountId && x.ready)) = true then
        .error (.raiseException "Workspace file is unavailable")
      else .ok ()

/-- A row of `workspace_nodes` is written, and `bump_workspace_topology` counts the write. -/
def CatalogStore.writeNode (db : CatalogStore δ) (id : Uuid) (n : Node) : CatalogStore δ :=
  { db with
    nodes := db.nodes.insert id n
    topologyVersions := Function.update db.topologyVersions n.accountId (db.topologyVersions n.accountId + 1) }

/-- Write a node where the trigger and the unique indexes allow it. -/
def placeNode (id : Uuid) (old : Option Node) (new : Node) : CatalogTx δ Unit := do
  let verdict ← Tx.query fun db => enforceNode db id old new
  Tx.ofExcept verdict
  let taken ← Tx.query fun db => siblingTaken db id new
  Tx.check (new.deleted = true ∨ taken = false) .integrityError
  Tx.update fun db => db.writeNode id new

/-- A new row of `workspace_nodes`. -/
def insertNode (id : Uuid) (n : Node) : CatalogTx δ Unit := do
  let taken ← Tx.query fun db => (db.nodes.lookup id).isSome
  Tx.check (taken = false) .integrityError
  placeNode id none n

/-- A live node of the account. -/
def liveNode (db : CatalogStore δ) (account id : Uuid) : Option Node :=
  (db.nodes.lookup id).filter fun n => n.accountId = account && !n.deleted

/-- A file of the account that is ready. -/
def readyFile (db : CatalogStore δ) (account id : Uuid) : Option StoredFile :=
  (db.files.lookup id).filter fun f => f.accountId = account && f.ready

/-- `_current_in_uow`. -/
def currentOf (account id : Uuid) : CatalogTx δ Current := do
  let found ← Tx.query fun db => (liveNode db account id).filter fun n => n.kind = .file
  let n ← Tx.demand found (.notFound "")
  let d ← Tx.query fun db => n.destinationId.bind fun d => (db.destinations.lookup d).filter fun x => x.accountId = account
  let direct ← Tx.query fun db => n.fileId.bind fun f => (db.files.lookup f).filter fun x => x.accountId = account
  pure ⟨id, n.destinationId, d.map Destination.currentRevision, (d.map Destination.currentFileId).or n.fileId,
    (d.map Destination.currentSha256).or (direct.map StoredFile.sha256)⟩

/-! ### Saving -/

variable [DecidableEq δ] (digest : Intent → δ)

/-- The operation ids the commands accept. -/
def checkOperationId (operation : String) : CatalogTx δ Unit :=
  Tx.check (operation ≠ "" ∧ operation.length ≤ 200) (operationConflict "invalid operation ID")

/-- The source of a file that is saved. -/
def checkSource (db : CatalogStore δ) (account workspace id : Uuid) (f : StoredFile) : Except CatalogError Unit :=
  if f.purpose = .input ∧ ¬(f.conversationId.isSome ∨ f.sourceWorkspaceId = some workspace) then
    .error (operationConflict "upload source is unavailable")
  else if f.purpose = .output ∧ db.outputs account id = false then .error (.notFound "output is not published")
  else .ok ()

/-- `save_file`; `caller` is the verdict of the fence and of the delegation, `granted` that of the Run's policy. -/
def saveFile (caller granted : Verdict) (name : Except CatalogError (String × String)) (fresh account parent file : Uuid)
    (operation : String) (agentRun : Option Uuid) : CatalogTx δ Uuid := do
  checkOperationId operation
  let (display, key) ← Tx.ofExcept name
  Tx.ofExcept caller
  let workspace ← workspaceOf account
  let previous ← Tx.query fun db => db.saveOperations.lookup (account, operation)
  match previous with
  | some p => do
      Tx.check (p.intent = digest (.save parent file display)) (operationConflict "operation ID has another intent")
      pure p.nodeId
  | none => do
      Tx.ofExcept (if agentRun.isSome then granted else .ok ())
      let found ← Tx.query fun db => readyFile db account file
      let f ← Tx.demand found (.notFound "file is not ready in this account")
      let source ← Tx.query fun db => checkSource db account workspace file f
      Tx.ofExcept source
      insertNode fresh ⟨account, workspace, some parent, .file, display, key, some file, none, false⟩
      Tx.update fun db => { db with
        saveOperations := db.saveOperations.insert (account, operation)
          ⟨digest (.save parent file display), fresh, agentRun⟩ }
      Tx.update fun db => { db with
        files := if f.purpose = .input then Table.modify file (fun x => { x with expiresAt := none }) db.files
                 else db.files }
      pure fresh

/-! ### Versions -/

/-- A row of `persistent_file_revisions`: its keys are new, and its hash is that of a ready file. -/
def insertRevision (d : Uuid) (n : ℕ) (r : Revision) : CatalogTx δ Unit := do
  let file ← Tx.query fun db => readyFile db r.accountId r.fileId
  Tx.check (file.any (fun f => f.sha256 = r.sha256) = true) (.raiseException "revision file hash does not match ready object")
  let taken ← Tx.query fun db => (db.revisions.lookup (d, n)).isSome ||
    db.revisions.entries.any fun e => e.1.1 = d && e.2.operationId = r.operationId
  Tx.check (taken = false) .integrityError
  Tx.update fun db => { db with revisions := db.revisions.insert (d, n) r }

/-- `upgrade_file`. -/
def upgradeFile (caller : Verdict) (fresh account id : Uuid) (initialOperation : String) : CatalogTx δ Current := do
  Tx.ofExcept caller
  let _ ← workspaceOf account
  let found ← Tx.query fun db => (liveNode db account id).filter fun n => n.kind = .file
  let n ← Tx.demand found (.notFound "")
  if n.destinationId.isSome then currentOf account id
  else do
    let file ← Tx.demand n.fileId (.notFound "initial file is unavailable")
    let ready ← Tx.query fun db => readyFile db account file
    let f ← Tx.demand ready (.notFound "initial file is unavailable")
    let taken ← Tx.query fun db => (db.destinations.lookup fresh).isSome
    Tx.check (taken = false) .integrityError
    Tx.update fun db => { db with destinations := db.destinations.insert fresh ⟨account, 1, file, f.sha256⟩ }
    insertRevision fresh 1 ⟨account, file, f.sha256, initialOperation⟩
    placeNode id (some n) { n with fileId := none, destinationId := some fresh }
    pure ⟨id, some fresh, some 1, some file, some f.sha256⟩

/-- The arguments of `update_file`. -/
structure Update where
  accountId : Uuid
  nodeId : Uuid
  runId : Uuid
  fileId : Uuid
  expectedRevision : ℕ
  expectedSha256 : String
  operationId : String
  workAuto : Bool
deriving DecidableEq, Repr

/-- The intent of an update. -/
def Update.intent (u : Update) : Intent := .update u.nodeId u.runId u.fileId u.expectedRevision u.expectedSha256

/-- `UPDATE persistent_file_destinations`. -/
def setCurrent (account d : Uuid) (revision : ℕ) (file : Uuid) (sha : String) (db : CatalogStore δ) : CatalogStore δ :=
  { db with
    destinations := db.destinations.updateWhere (fun k x => k = d && x.accountId = account)
      fun x => { x with currentRevision := revision, currentFileId := file, currentSha256 := sha } }

/-- `update_file`; `granted` is the verdict on the Run, its policy, its base revision and its result. -/
def updateFile (caller granted : Verdict) (u : Update) : CatalogTx δ Version := do
  checkOperationId u.operationId
  Tx.ofExcept caller
  let _ ← workspaceOf u.accountId
  let prior ← Tx.query fun db => db.versionOperations.lookup (u.accountId, u.operationId)
  match prior with
  | some p => do
      Tx.check (p.intent = digest u.intent) (operationConflict "operation ID has another intent")
      pure p.version
  | none => do
      let found ← Tx.query fun db => (liveNode db u.accountId u.nodeId).filter fun n => n.kind = .file
      let d ← Tx.demand (found.bind Node.destinationId) (.notFound "versioned entry is unavailable")
      let current ← currentOf u.accountId u.nodeId
      Tx.check (current.revision = some u.expectedRevision ∧ current.sha256 = some u.expectedSha256) (.versionConflict current)
      Tx.ofExcept granted
      let published ← Tx.query fun db => readyFile db u.accountId u.fileId
      let f ← Tx.demand published (.resourceDenied "result bytes unavailable")
      insertRevision d (u.expectedRevision + 1) ⟨u.accountId, u.fileId, f.sha256, u.operationId⟩
      Tx.update (setCurrent u.accountId d (u.expectedRevision + 1) u.fileId f.sha256)
      let version : Version := ⟨u.nodeId, d, u.expectedRevision + 1, u.fileId⟩
      Tx.update fun db => { db with
        versionOperations := db.versionOperations.insert (u.accountId, u.operationId)
          ⟨digest u.intent, version, if u.workAuto then some u.runId else none⟩ }
      pure version

/-! ### The tree commands -/

/-- `create_directory`. -/
def createDirectory (caller : Verdict) (name : Except CatalogError (String × String)) (fresh account parent : Uuid) :
    CatalogTx δ Uuid := do
  let (display, key) ← Tx.ofExcept name
  Tx.ofExcept caller
  let workspace ← workspaceOf account
  insertNode fresh ⟨account, workspace, some parent, .directory, display, key, none, none, false⟩
  pure fresh

/-- A node that `move` and `remove` may change: live, in the workspace and not its root. -/
def movable (db : CatalogStore δ) (account workspace id : Uuid) : Option Node :=
  (liveNode db account id).filter fun n => n.workspaceId = workspace && n.parentId.isSome

/-- `move`; `stale` says that the preview token is not the current one, and `stopped` is the verdict of stopping the Runs
that lose access. -/
def move (caller stopped : Verdict) (stale : Bool) (name : Except CatalogError (String × String)) (account id parent : Uuid) :
    CatalogTx δ Unit := do
  let (display, key) ← Tx.ofExcept name
  Tx.ofExcept caller
  let workspace ← workspaceOf account
  Tx.check (stale = false) (operationConflict "Workspace impact preview is stale")
  let found ← Tx.query fun db => movable db account workspace id
  let n ← Tx.demand found (.notFound "")
  placeNode id (some n) { n with parentId := some parent, name := display, nameKey := key }
  Tx.ofExcept stopped

/-- `remove`; `bound` says that an open Work writes to the directory. -/
def remove (caller stopped : Verdict) (bound stale : Bool) (account id : Uuid) : CatalogTx δ Unit := do
  Tx.ofExcept caller
  let workspace ← workspaceOf account
  Tx.check (bound = false) (operationConflict "Work output directory is still bound")
  Tx.check (stale = false) (operationConflict "Workspace impact preview is stale")
  let found ← Tx.query fun db => movable db account workspace id
  let n ← Tx.demand found (.notFound "")
  placeNode id (some n) { n with deleted := true }
  Tx.ofExcept stopped

end catalog

end HpAgent.Workspace
