import HpAgent.Accounts.Holdings
import HpAgent.Library.Triples

/-! # Identity bindings

A Web account proves that a QQ subject is its own: it asks for a code (`createQqChallenge`), and the subject sends the code
back (`consumeQqChallenge`).  Where the subject has an account already, the Web account is merged into that one.

* `register`: a Web account.
* `Step`, `run`: what can happen.

Every command is a transaction.  A consumption locks the rows it decides by; the status of an account that asks for a code is
read without a lock. -/

namespace HpAgent.Accounts.Binding

open Library

/-- `identity_bindings`, with the normalized subject; nothing revokes an identity, so all of them are active. -/
structure Identity where
  accountId : Uuid
  provider : Provider
  subject : String
deriving DecidableEq

inductive Status where
  | pending
  | completed (subject : String)
  | cancelled
deriving DecidableEq

/-- `identity_binding_challenges`; a code is known by its digest. -/
structure Challenge (δ : Type) where
  accountId : Uuid
  code : δ
  expiresAt : Instant
  status : Status
deriving DecidableEq

/-- The accounts, active or disabled, with their identities, the Web identities with a credential, and the challenges. -/
structure Store (δ : Type) where
  accounts : Table Uuid Bool
  identities : Table Uuid Identity
  credentials : List Uuid
  challenges : Table Uuid (Challenge δ)

inductive BindingError where
  | challengeNotFound (message : String)
  | identityConflict (message : String)
  | uniqueViolation
deriving DecidableEq

section bindings

variable {δ : Type} [DecidableEq δ]

abbrev BindingTx (δ : Type) := Tx BindingError (Store δ)

omit [DecidableEq δ] in
/-- The account of a subject. -/
def Store.accountOf (db : Store δ) (provider : Provider) (subject : String) : Option Uuid :=
  (db.identities.entries.find? fun e => e.2.provider = provider && e.2.subject = subject).map fun e => e.2.accountId

omit [DecidableEq δ] in
def Store.identitiesOf (db : Store δ) (account : Uuid) : List (Sigma fun _ : Uuid => Identity) :=
  db.identities.entries.filter fun e => e.2.accountId = account

/-- `INSERT INTO identity_bindings`: a subject has one active identity. -/
def insertIdentity (id : Uuid) (x : Identity) : BindingTx δ Unit := do
  let taken ← Tx.query fun db => (db.identities.lookup id).isSome || (db.accountOf x.provider x.subject).isSome
  Tx.check (taken = false) .uniqueViolation
  Tx.update fun db => { db with identities := db.identities.insert id x }

/-- `RegistrationService.register`. -/
def register (account binding : Uuid) (subject : String) : BindingTx δ Unit := do
  let taken ← Tx.query fun db => (db.accounts.lookup account).isSome
  Tx.check (taken = false) .uniqueViolation
  Tx.update fun db => { db with accounts := db.accounts.insert account true }
  insertIdentity binding ⟨account, .web, subject⟩
  Tx.update fun db => { db with credentials := binding :: db.credentials }

/-- The pending challenges of an account are cancelled, but for `spared`. -/
def cancelPending (account : Uuid) (spared : Option Uuid) (t : Table Uuid (Challenge δ)) : Table Uuid (Challenge δ) :=
  Table.updateWhere (fun id x => x.accountId = account && x.status = .pending && some id ≠ spared)
    (fun x => { x with status := .cancelled }) t

/-- One attempt of `create_qq_challenge`, for an account that was `active` when it was read; after a collision of codes there
is another one, with a new code, up to three. -/
def createQqChallenge (active : Bool) (account id : Uuid) (code : δ) (expiresAt : Instant) : BindingTx δ Unit := do
  Tx.check (active = true) (.identityConflict "account is not active")
  Tx.update fun db => { db with challenges := cancelPending account none db.challenges }
  let taken ← Tx.query fun db => (db.challenges.lookup id).isSome || db.challenges.entries.any fun e => e.2.code = code
  Tx.check (taken = false) .uniqueViolation
  Tx.update fun db => { db with challenges := db.challenges.insert id ⟨account, code, expiresAt, .pending⟩ }

/-- The identity and the challenge go to the target, and the source is disabled. -/
def Store.merged (source target challenge binding : Uuid) (db : Store δ) : Store δ :=
  { db with
    identities := Table.modify binding (fun x => { x with accountId := target }) db.identities
    challenges := Table.modify challenge (fun x => { x with accountId := target })
      (cancelPending source (some challenge) db.challenges)
    accounts := Table.modify source (fun _ => false) db.accounts }

/-- `_consolidate_empty_web_account`; `data` says which accounts have rows in the tables of user data. -/
def consolidateEmptyWebAccount (source target challenge : Uuid) (data : Uuid → Bool) : BindingTx δ Unit := do
  let identities ← Tx.query fun db => db.identitiesOf source
  let web := identities.filter fun e => e.2.provider = .web
  Tx.check (identities.length = 1 ∧ web.length = 1) (.identityConflict "Web account is not safe to consolidate")
  let other ← Tx.query fun db => (db.identitiesOf target).any fun e => e.2.provider = .web
  Tx.check (other = false) (.identityConflict "existing QQ account already has a Web identity")
  let binding ← Tx.demand (web.head?.map Sigma.fst) (.identityConflict "Web account is not safe to consolidate")
  let credential ← Tx.query fun db => db.credentials.contains binding
  Tx.check (credential = true) (.identityConflict "Web account has no credential")
  Tx.check (data source = false) (.identityConflict "Web account contains user data")
  -- an account has one pending challenge, and the one that is consumed goes to the target before it is completed
  let clash ← Tx.query fun db => db.challenges.entries.any fun e => e.2.accountId = target && e.2.status = .pending
  Tx.check (clash = false) .uniqueViolation
  Tx.update (Store.merged source target challenge binding)

def complete (id : Uuid) (subject : String) : BindingTx δ Unit :=
  Tx.update fun db =>
    { db with challenges := Table.modify id (fun x => { x with status := .completed subject }) db.challenges }

/-- `ConsumeResult`. -/
structure Consumption where
  challengeId : Uuid
  accountId : Uuid
  consolidated : Bool
deriving DecidableEq

/-- `_consume_pending_qq_challenge`. -/
def consumePending (id : Uuid) (x : Challenge δ) (subject : String) (binding : Uuid) (data : Uuid → Bool) :
    BindingTx δ Consumption := do
  let source ← Tx.query fun db => db.accounts.lookup x.accountId
  Tx.check (source = some true) (.identityConflict "challenge account is not active")
  let bound ← Tx.query fun db => db.accountOf .qq subject
  match bound with
  | none => do
      let other ← Tx.query fun db => (db.identitiesOf x.accountId).any fun e => e.2.provider = .qq
      Tx.check (other = false) (.identityConflict "account already has a QQ identity")
      insertIdentity binding ⟨x.accountId, .qq, subject⟩
      complete id subject
      pure ⟨id, x.accountId, false⟩
  | some target =>
      if target = x.accountId then do
        complete id subject
        pure ⟨id, target, false⟩
      else do
        let active ← Tx.query fun db => db.accounts.lookup target
        Tx.check (active = some true) (.identityConflict "existing QQ account is not active")
        consolidateEmptyWebAccount x.accountId target id data
        complete id subject
        pure ⟨id, target, true⟩

/-- `consume_qq_challenge`; the subject is normalized, if it is one of QQ.  An expired challenge is cancelled for good, and
`ChallengeExpired` raised after it (none). -/
def consumeQqChallenge (code : δ) (subject : Option String) (binding : Uuid) (now : Instant) (data : Uuid → Bool) :
    BindingTx δ (Option Consumption) := do
  let subject ← Tx.demand subject (.challengeNotFound "unsupported QQ identity")
  let found ← Tx.query fun db => db.challenges.entries.find? fun e => e.2.code = code
  let challenge ← Tx.demand found (.challengeNotFound "invalid challenge code")
  match challenge.2.status with
  | .completed verified => do
      Tx.check (verified = subject) (.challengeNotFound "challenge already consumed")
      let bound ← Tx.query fun db => db.accountOf .qq subject
      let account ← Tx.demand bound (.challengeNotFound "challenge already consumed")
      pure (some ⟨challenge.1, account, false⟩)
  | .cancelled => Tx.raise (.challengeNotFound "challenge is not pending")
  | .pending =>
      if challenge.2.expiresAt ≤ now then do
        Tx.update fun db =>
          { db with challenges := Table.modify challenge.1 (fun x => { x with status := .cancelled }) db.challenges }
        pure none
      else do
        let result ← consumePending challenge.1 challenge.2 subject binding data
        pure (some result)

/-! ### Runs -/

inductive Step (δ : Type) where
  | register (account binding : Uuid) (subject : String)
  | create (active : Bool) (account id : Uuid) (code : δ) (expiresAt : Instant)
  | consume (code : δ) (subject : Option String) (binding : Uuid) (now : Instant) (data : Uuid → Bool)

def step (db : Store δ) : Step δ → Store δ
  | .register account binding subject => (register account binding subject).commit db
  | .create active account id code expiresAt => (createQqChallenge active account id code expiresAt).commit db
  | .consume code subject binding now data => (consumeQqChallenge code subject binding now data).commit db

def run (db : Store δ) (steps : List (Step δ)) : Store δ := steps.foldl step db

end bindings

end HpAgent.Accounts.Binding
