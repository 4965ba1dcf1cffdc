import HpAgent.Library.Paging
import HpAgent.Library.Saturation
import HpAgent.Workspace.Catalog
import Mathlib.Data.List.Sort
import Mathlib.Data.String.Basic

/-! # Resource grants and the candidates of a Run

A conversation or a Work is granted operations on nodes of the workspace, on one node or on everything below a directory.
The files a Run may list are fixed when it is admitted, and listed page by page while the grants still allow them.

* `grantsOf`: the grants of a subject that reach a node, from the node upwards.
* `allowedRows`, `snapshotInUow`: what the grants reach, from the grants downwards, and the candidates of a Run.
* `candidatesInUow`: one page of the candidates.

Text is ordered by the database; `collate` stands for its collation.  A recursive query selects rows until a round adds
nothing (`grow`). -/

namespace HpAgent.Workspace

open Library

/-! ### Rows -/

inductive SubjectKind where
  | conversation
  | work
deriving DecidableEq, Repr

inductive Operation where
  | listMetadata
  | readContent
  | createChild
  | updateContent
  | deleteEntry
deriving DecidableEq, Repr

/-- `resource_grants`. -/
structure Grant where
  accountId : Uuid
  subjectKind : SubjectKind
  subjectId : Uuid
  nodeId : Uuid
  operation : Operation
  recursive : Bool
  createdAt : Instant
  revoked : Bool
deriving DecidableEq, Repr

/-- The columns of `stored_files` that are shown. -/
structure FileInfo where
  contentType : Option String
  sizeBytes : ℕ
  originalName : String
deriving DecidableEq, Repr

/-- `work_input_refs`. -/
structure WorkInput where
  accountId : Uuid
  workId : Uuid
  fileId : Uuid
  available : Bool
deriving DecidableEq, Repr

/-- The columns of `runs` that are read; `executable` says that the status is queued or running. -/
structure RunRow where
  accountId : Uuid
  subjectKind : SubjectKind
  subjectId : Uuid
  executable : Bool
deriving DecidableEq, Repr

/-- `run_resource_snapshots`. -/
structure SnapshotRow where
  accountId : Uuid
  subjectKind : SubjectKind
  subjectId : Uuid
  policyVersion : ℕ
  topologyVersion : ℕ
  ready : Bool
  candidateCount : ℕ
  candidateLimit : ℕ
deriving DecidableEq, Repr

/-- `run_resource_candidates`; the key is the Run and the node. -/
structure Candidate where
  logicalName : String
  displayName : String
  contentType : Option String
  sizeBytes : Option ℕ
  fixedFileId : Option Uuid
  firstRead : Bool
deriving DecidableEq, Repr

/-- The catalog, the grants on it, and the rows of the Runs. -/
structure ResourceStore (δ : Type) where
  catalog : CatalogStore δ
  subjects : SubjectKind → Uuid → Uuid → Bool
  policyVersions : Table (Uuid × SubjectKind × Uuid) ℕ
  grants : Table Uuid Grant
  fileInfo : Table Uuid FileInfo
  workInputs : Table Uuid WorkInput
  runs : Table Uuid RunRow
  snapshots : Table Uuid SnapshotRow
  candidates : Table (Uuid × Uuid) Candidate
  runFiles : Table (Uuid × Uuid) String
  attachments : Table (Uuid × Uuid) Unit

inductive ResourceError where
  | resourceNotFound
  | snapshotLimitExceeded (message : String)
  /-- `RAISE EXCEPTION` in a trigger. -/
  | raiseException (message : String)
  /-- A unique or foreign key constraint rejected the row. -/
  | integrityError
  /-- What a check of another subsystem raises. -/
  | refused (e : Error)
deriving DecidableEq, Repr

abbrev ResourceTx (δ : Type) := Tx ResourceError (ResourceStore δ)

section resources

variable {δ : Type}

/-! ### Grants -/

/-- The nodes of an account. -/
def nodesOf (db : CatalogStore δ) (account : Uuid) : List (Uuid × Node) :=
  (db.nodes.entries.map fun e => (e.1, e.2)).filter fun e => e.2.accountId = account

/-- `ancestors`: the node, and the parents of what is selected. -/
def ancestorRows (db : CatalogStore δ) (account node : Uuid) : List (Uuid × Node) :=
  grow (fun seen e => e.1 = node || seen.any fun s => s.2.parentId = some e.1) (nodesOf db account) (nodesOf db account).length

/-- A grant of the operation to the subject that has not been revoked. -/
def Grant.holds (g : Grant) (account : Uuid) (kind : SubjectKind) (subject : Uuid) (operation : Operation) : Bool :=
  g.accountId = account && g.subjectKind = kind && g.subjectId = subject && g.operation = operation && !g.revoked

/-- `_grants`. -/
def grantsOf (db : ResourceStore δ) (account : Uuid) (kind : SubjectKind) (subject node : Uuid) (operation : Operation) :
    List (Uuid × Grant) :=
  ((db.grants.entries.map fun e => (e.1, e.2)).filter fun g =>
    g.2.holds account kind subject operation &&
      ((ancestorRows db.catalog account node).any fun a => a.1 = g.2.nodeId && !a.2.deleted &&
        (g.2.nodeId = node || g.2.recursive && a.2.kind = .directory)) &&
      !(ancestorRows db.catalog account node).any fun dead => dead.2.deleted).insertionSort
    fun a b => a.2.createdAt < b.2.createdAt ∨ a.2.createdAt = b.2.createdAt ∧ a.1 ≤ b.1

/-! ### The snapshot -/

/-- A live node of the workspace with a grant to list it, or what is below it. -/
def listable (db : ResourceStore δ) (account : Uuid) (kind : SubjectKind) (subject : Uuid) (workspace : Option Uuid)
    (e : Uuid × Node) : Bool :=
  workspace = some e.2.workspaceId && db.grants.entries.any fun g =>
    g.2.holds account kind subject .listMetadata && g.2.nodeId = e.1 && (e.2.kind = .file || g.2.recursive)

/-- The live nodes of an account. -/
def liveNodes (db : CatalogStore δ) (account : Uuid) : List (Uuid × Node) := (nodesOf db account).filter fun e => !e.2.deleted

/-- `allowed`: the nodes with a grant, and the children of the directories among what is selected. -/
def allowedRows (db : ResourceStore δ) (account : Uuid) (kind : SubjectKind) (subject : Uuid) (workspace : Option Uuid) :
    List (Uuid × Node) :=
  grow (fun seen e => listable db account kind subject workspace e ||
    seen.any fun s => s.2.kind = .directory && e.2.parentId = some s.1) (liveNodes db.catalog account)
    (liveNodes db.catalog account).length

/-- The file of an entry, or the current one of its destination. -/
def currentFile (db : CatalogStore δ) (account : Uuid) (n : Node) : Option Uuid :=
  n.fileId.or ((n.destinationId.bind fun d => (db.destinations.lookup d).filter fun x => x.accountId = account).map
    Destination.currentFileId)

def candidateLimit : ℕ := 500

def metadataLimit : ℕ := 512000

/-- `_version`: the row of the policy, which a subject gets when it is first asked for. -/
def policyVersion (account : Uuid) (kind : SubjectKind) (subject : Uuid) : ResourceTx δ ℕ := do
  let found ← Tx.query fun db => db.policyVersions.lookup (account, kind, subject)
  match found with
  | some version => pure version
  | none => do
      Tx.update fun db => { db with policyVersions := db.policyVersions.insert (account, kind, subject) 1 }
      pure 1

variable (collate : String → String → Bool) (casefold : String → String) (hex : Uuid → String)

/-- The files that are allowed, by name and node. -/
def candidateRows (db : ResourceStore δ) (account : Uuid) (kind : SubjectKind) (subject : Uuid) : List (Uuid × Node) :=
  ((allowedRows db account kind subject (db.catalog.workspaces account)).filter fun e => e.2.kind = .file).insertionSort
    fun a b => (a.2.name ≠ b.2.name ∧ collate a.2.name b.2.name = true) ∨ a.2.name = b.2.name ∧ a.1 ≤ b.1

/-- `name[:255]`. -/
def clip (name : String) : String := String.ofList (name.toList.take 255)

/-- An input file of a Run: one name and one row each. -/
def insertRunFile (run file : Uuid) (name : String) : ResourceTx δ Unit := do
  let taken ← Tx.query fun db => (db.runFiles.lookup (run, file)).isSome || (db.attachments.lookup (run, file)).isSome ||
    db.runFiles.entries.any fun e => e.1.1 = run && e.2 = name
  Tx.check (taken = false) .integrityError
  Tx.update fun db => { db with
    runFiles := db.runFiles.insert (run, file) name
    attachments := db.attachments.insert (run, file) () }

/-- The inputs of a Work that are available, by their references. -/
def workAttachments (db : ResourceStore δ) (account work : Uuid) : List (Uuid × Uuid) :=
  ((db.workInputs.entries.map fun e => (e.1, e.2.fileId, e.2)).filter fun e =>
    e.2.2.accountId = account && e.2.2.workId = work && e.2.2.available && (readyFile db.catalog account e.2.1).isSome).insertionSort
      (fun a b => a.1 ≤ b.1) |>.map fun e => (e.1, e.2.1)

/-- The attachments become input files of the Run. -/
def bindAttachments (run : Uuid) (attachments : List (Uuid × Uuid)) : ResourceTx δ Unit :=
  attachments.foldlM (fun _ a => do
    let info ← Tx.query fun db => db.fileInfo.lookup a.2
    insertRunFile run a.2 (clip (hex a.2 ++ "_" ++ (info.map FileInfo.originalName).getD ""))) ()

/-- A new row of `run_resource_candidates`. -/
def insertCandidate (run node : Uuid) (c : Candidate) : ResourceTx δ Unit := do
  let taken ← Tx.query fun db => (db.candidates.lookup (run, node)).isSome ||
    db.candidates.entries.any fun e => e.1.1 = run && e.2.logicalName = c.logicalName
  Tx.check (taken = false) .integrityError
  Tx.update fun db => { db with candidates := db.candidates.insert (run, node) c }

/-- The name of a candidate; a name that is taken gets the node in front. -/
def logicalName (names : List String) (node : Uuid) (base : String) : String :=
  if casefold base ∈ names then clip (hex node ++ "_" ++ base) else base

/-- The candidates, one after the other; the names that are taken are carried along. -/
def insertCandidates (run account : Uuid) (rows : List (Uuid × Node)) (names : List String) : ResourceTx δ (List String) :=
  rows.foldlM (fun names row => do
    let name := logicalName casefold hex names row.1 row.2.name
    let info ← Tx.query fun db => (currentFile db.catalog account row.2).bind db.fileInfo.lookup
    insertCandidate run row.1 ⟨name, row.2.name, info.bind FileInfo.contentType, info.map FileInfo.sizeBytes, none, false⟩
    pure (casefold name :: names)) names

/-- `snapshot_in_uow`. -/
def snapshotInUow (account run : Uuid) (kind : SubjectKind) (subject : Uuid) : ResourceTx δ Unit := do
  let known ← Tx.query fun db => db.subjects kind account subject
  Tx.check (known = true) .resourceNotFound
  let version ← policyVersion account kind subject
  let topology ← Tx.query fun db => if (db.catalog.workspaces account).isSome then db.catalog.topologyVersions account else 0
  let rows ← Tx.query fun db => (candidateRows collate db account kind subject).take (candidateLimit + 1)
  Tx.check (rows.length ≤ candidateLimit) (.snapshotLimitExceeded "candidate count exceeds 500; narrow the grant")
  Tx.check ((rows.map fun r => r.2.name.utf8ByteSize + 128).sum ≤ metadataLimit)
    (.snapshotLimitExceeded "candidate metadata exceeds 512 KiB")
  let owned ← Tx.query fun db => (db.runs.lookup run).any fun r =>
    r.accountId = account && r.subjectKind = kind && r.subjectId = subject
  Tx.check (owned = true) (.raiseException "Run resource subject mismatch")
  let taken ← Tx.query fun db => (db.snapshots.lookup run).isSome
  Tx.check (taken = false) .integrityError
  Tx.update fun db => { db with
    snapshots := db.snapshots.insert run ⟨account, kind, subject, version, topology, true, rows.length, candidateLimit⟩ }
  let attachments ← Tx.query fun db => if kind = .work then workAttachments db account subject else []
  bindAttachments hex run attachments
  let names ← Tx.query fun db => (db.runFiles.entries.filter fun e => e.1.1 = run).map fun e => casefold e.2
  let _ ← insertCandidates casefold hex run account rows names
  pure ()

/-! ### Pages -/

/-- What `candidates_in_uow` returns. -/
structure CandidatePage where
  count : ℕ
  next : Option String
  candidates : List (Uuid × Candidate)
deriving DecidableEq, Repr

/-- The candidates of a Run in the order of the database. -/
def listing (db : ResourceStore δ) (run : Uuid) : List (Uuid × Candidate) :=
  ((db.candidates.entries.map fun e => (e.1, e.2)).filter fun e => e.1.1 = run).map (fun e => (e.1.2, e.2)) |>.insertionSort
    fun a b => collate a.2.logicalName b.2.logicalName

/-- The candidates that the grants, and the scope of a branch, still allow. -/
def allowedCandidates (db : ResourceStore δ) (account run : Uuid) (s : SnapshotRow) (scope : Option (List Uuid)) :
    List (Uuid × Candidate) :=
  (listing collate db run).filter fun c =>
    !(grantsOf db account s.subjectKind s.subjectId c.1 .listMetadata).isEmpty && scope.all fun nodes => nodes.contains c.1

/-- The size of a page. -/
def pageSize (limit : ℤ) : ℕ := (min (max limit 1) 100).toNat

/-- `candidates_in_uow`; `fence` is the verdict on the Execution, and `scope` are the nodes of its branch. -/
def candidatesInUow (fence : Except ResourceError Unit) (scope : Option (List Uuid)) (account run : Uuid) (after : Option String)
    (limit : ℤ) : ResourceTx δ CandidatePage := do
  Tx.ofExcept fence
  let executable ← Tx.query fun db => (db.runs.lookup run).any fun r => r.accountId = account && r.executable
  let found ← Tx.query fun db => (db.snapshots.lookup run).filter fun s => s.accountId = account && s.ready && executable
  let snapshot ← Tx.demand found .resourceNotFound
  let allowed ← Tx.query fun db => allowedCandidates collate db account run snapshot scope
  let cut := page (fun c : Uuid × Candidate => c.2.logicalName) (pageSize limit) (after.getD "") allowed
  pure ⟨allowed.length, cut.2, cut.1⟩

end resources

end HpAgent.Workspace
