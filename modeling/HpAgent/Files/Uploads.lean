import HpAgent.Domain.Authority
import Mathlib.Logic.Function.Basic

/-! # Uploads of one file

A file has a row, a staging path and an object path.  Each PUT stages its bytes under the staging path, publishes them under
the object path, and marks the row ready.  Rows and paths are changed by separate steps, and any number of PUTs, deletions and
cleanup passes take theirs in any order; a process may die between two of them.

* `Upload`, `Cleaning`: where a PUT or a cleanup of the row stands.
* `FileState`: the row, the two paths, the bytes each PUT wrote, and who is at work.
* `step`: one step of anybody.

A file on disk is known by the PUT that created it: moving it does not change what it is. -/

namespace HpAgent.Files

/-! ### Rows -/

abbrev Bytes := List UInt8

inductive FileStatus where
  | uploading
  | ready
  | rejected
  | deleted
deriving DecidableEq, Repr

/-- The row of `stored_files`; `storageKey` says whether it names the object path. -/
structure FileRow (δ : Type) where
  status : FileStatus
  storageKey : Bool
  sizeBytes : ℕ
  sha256 : Option δ
  declaredSha256 : Option δ
  failureCode : Option String
  expiresAt : Option Instant

/-- `insert_upload`. -/
def newRow {δ : Type} (declaredSize : ℕ) (declaredSha256 : Option δ) (expiresAt : Instant) : FileRow δ :=
  ⟨.uploading, false, declaredSize, none, declaredSha256, none, some expiresAt⟩

/-! ### Who is at work -/

/-- Where an upload stands. -/
inductive Upload (δ : Type) where
  | idle
  /-- the row was `uploading` -/
  | admitted (declaredSize : ℕ) (declaredSha256 : Option δ)
  | writing (declaredSize : ℕ) (declaredSha256 : Option δ)
  | staged (size : ℕ) (sha256 : δ)
  /-- `publish` knows whether the object path was taken -/
  | looked (size : ℕ) (sha256 : δ) (taken : Bool)
  | published (size : ℕ) (sha256 : δ)
  /-- `mark_ready` changed no row -/
  | late
  | rejecting (code : String)
  | finished

/-- Where a cleanup of the row stands; it knows the storage key that it read. -/
inductive Cleaning where
  | claimed (storageKey : Bool)
  | unstaged
  | removed
deriving DecidableEq, Repr

structure FileState (δ : Type) where
  row : FileRow δ
  staging : Option ℕ
  object : Option ℕ
  contents : ℕ → Bytes
  uploads : ℕ → Upload δ
  cleanings : ℕ → Option Cleaning

def FileState.start {δ : Type} (declaredSize : ℕ) (declaredSha256 : Option δ) (expiresAt : Instant) : FileState δ :=
  ⟨newRow declaredSize declaredSha256 expiresAt, none, none, fun _ => [], fun _ => .idle, fun _ => none⟩

/-! ### Steps -/

/-- What a PUT may read, the limits, and the hash function; the decoder accepts what it has seen so far, and at the end. -/
structure Intake (δ : Type) where
  maxBytes : ℕ
  accepts : Bytes → Bool
  complete : Bytes → Bool
  sha256 : Bytes → δ
  unboundReadyTtl : ℤ

/-- A step of an upload, of a deletion or of a cleanup. -/
inductive Action where
  | read (p : ℕ)
  | stage (p : ℕ)
  | write (p : ℕ) (chunk : Bytes)
  | finish (p : ℕ)
  /-- the client goes away -/
  | abort (p : ℕ)
  | look (p : ℕ)
  | publish (p : ℕ)
  | markReady (p : ℕ) (now : Instant)
  | compensate (p : ℕ)
  | reject (p : ℕ)
  | die (p : ℕ)
  /-- a durable reference to the file is made -/
  | bind
  | delete (retained : Bool) (now : Instant)
  | claim (c : ℕ) (retained : Bool) (now : Instant)
  | clean (c : ℕ)
  | dieCleaning (c : ℕ)

section steps

variable {δ : Type}

def FileState.setUpload (s : FileState δ) (p : ℕ) (u : Upload δ) : FileState δ :=
  { s with uploads := Function.update s.uploads p u }

def FileState.setCleaning (s : FileState δ) (c : ℕ) (k : Option Cleaning) : FileState δ :=
  { s with cleanings := Function.update s.cleanings c k }

/-- `claim_file_deletion`; `retained` says that something refers to the file.  Also whether the row is deleted. -/
def claimDeletion (row : FileRow δ) (retained : Bool) (now : Instant) : FileRow δ × Bool :=
  if row.status = .deleted then (row, true)
  else if retained = true then (row, false)
  else ({ row with status := .deleted, expiresAt := some now }, true)

/-- `stage_async` fails: the staging path is removed, and the row will be rejected. -/
def FileState.refuse (s : FileState δ) (p : ℕ) (code : String) : FileState δ :=
  { s with staging := none }.setUpload p (.rejecting code)

/-- `mark_ready`. -/
def FileState.markReady (s : FileState δ) (ttl : ℤ) (p size : ℕ) (sha256 : δ) (now : Instant) : FileState δ :=
  if s.row.status = .uploading then
    { s with row := { s.row with status := .ready, storageKey := true, sizeBytes := size, sha256 := some sha256, expiresAt := some (now + ttl) } }.setUpload
      p .finished
  else s.setUpload p .late

/-- `mark_rejected`. -/
def rejectRow (row : FileRow δ) (code : String) : FileRow δ :=
  if row.status = .uploading then { row with status := .rejected, failureCode := some code, storageKey := false, sha256 := none } else row

/-- `publish`, when the object path was taken: the object stays, if it has the size of what was staged. -/
def FileState.adopt (k : Intake δ) (s : FileState δ) (p size : ℕ) : FileState δ :=
  match s.object with
  | none => s.setUpload p .finished
  | some q =>
      if (s.contents q).length ≠ size then s.setUpload p (.rejecting "file_upload_invalid")
      else { s with staging := none }.setUpload p (.published (s.contents q).length (k.sha256 (s.contents q)))

/-- `_complete`. -/
def completeRow (row : FileRow δ) : FileRow δ :=
  if row.status = .deleted then { row with storageKey := false, expiresAt := none } else row

/-- A step; one that is not possible changes nothing. -/
def step [DecidableEq δ] (k : Intake δ) (s : FileState δ) : Action → FileState δ
  | .read p =>
      match s.uploads p with
      | .idle =>
          if s.row.status = .uploading then s.setUpload p (.admitted s.row.sizeBytes s.row.declaredSha256)
          else s.setUpload p .finished
      | _ => s
  | .stage p =>
      match s.uploads p with
      | .admitted declaredSize declaredSha256 =>
          if k.maxBytes < declaredSize then s.setUpload p (.rejecting "file_too_large")
          else if s.staging.isSome = true then s.setUpload p .finished
          else { s with staging := some p, contents := Function.update s.contents p [] }.setUpload p
            (.writing declaredSize declaredSha256)
      | _ => s
  | .write p chunk =>
      match s.uploads p with
      | .writing _ _ =>
          if k.maxBytes < (s.contents p ++ chunk).length then s.refuse p "file_too_large"
          else if k.accepts (s.contents p ++ chunk) = false then s.refuse p "file_encoding_unsupported"
          else { s with contents := Function.update s.contents p (s.contents p ++ chunk) }
      | _ => s
  | .finish p =>
      match s.uploads p with
      | .writing declaredSize declaredSha256 =>
          if k.complete (s.contents p) = false then s.refuse p "file_encoding_unsupported"
          else if (s.contents p).length ≠ declaredSize then s.refuse p "file_upload_invalid"
          else if declaredSha256.any (fun h => h ≠ k.sha256 (s.contents p)) = true then s.refuse p "file_hash_mismatch"
          else s.setUpload p (.staged (s.contents p).length (k.sha256 (s.contents p)))
      | _ => s
  | .abort p =>
      match s.uploads p with
      | .writing _ _ => { s with staging := none }.setUpload p .finished
      | _ => s
  | .look p =>
      match s.uploads p with
      | .staged size sha256 => s.setUpload p (.looked size sha256 s.object.isSome)
      | _ => s
  | .publish p =>
      match s.uploads p with
      | .looked size _ true => s.adopt k p size
      | .looked size sha256 false =>
          match s.staging with
          | none => s.setUpload p .finished
          | some q => { s with staging := none, object := some q }.setUpload p (.published size sha256)
      | _ => s
  | .markReady p now =>
      match s.uploads p with
      | .published size sha256 => s.markReady k.unboundReadyTtl p size sha256 now
      | _ => s
  | .compensate p =>
      match s.uploads p with
      | .late => { s with object := none }.setUpload p .finished
      | _ => s
  | .reject p =>
      match s.uploads p with
      | .rejecting code => { s with row := rejectRow s.row code }.setUpload p .finished
      | _ => s
  | .die p => s.setUpload p .finished
  | .bind => if s.row.status = .ready then { s with row := { s.row with expiresAt := none } } else s
  | .delete retained now => { s with row := (claimDeletion s.row retained now).1 }
  | .claim c retained now =>
      match s.cleanings c with
      | none =>
          if s.row.expiresAt.any (fun t => t ≤ now) = true ∧ (claimDeletion s.row retained now).2 = true then
            { s with row := (claimDeletion s.row retained now).1 }.setCleaning c (some (.claimed s.row.storageKey))
          else s
      | some _ => s
  | .clean c =>
      match s.cleanings c with
      | none => s
      | some (.claimed true) => { s with object := none }.setCleaning c (some .removed)
      | some (.claimed false) => { s with staging := none }.setCleaning c (some .unstaged)
      | some .unstaged => { s with object := none }.setCleaning c (some .removed)
      | some .removed => { s with row := completeRow s.row }.setCleaning c none
  | .dieCleaning c => s.setCleaning c none

/-- A run. -/
def run [DecidableEq δ] (k : Intake δ) (s : FileState δ) (actions : List Action) : FileState δ := actions.foldl (step k) s

end steps

end HpAgent.Files
