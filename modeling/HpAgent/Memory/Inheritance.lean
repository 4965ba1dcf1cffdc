import HpAgent.Memory.RevocationRuns

/-! # How chat Runs inherit memory

A chat Run reads the messages of its conversation.  An answer may repeat memory that its Run has read, so a context takes over the
scopes of the Runs whose answers it keeps, and drops an answer whose Run is refused by the check.  The Run binds these scopes
before it reasons, and binds the scope of the memory that it recalls before it reads it.

* `loadBase`: the context of a Run.
* `bindBase`, `bindRecalled`: the bindings of `bind_base` and `recall_long_term`.
* `ChatWorld`: the store, the conversations, the contexts that workers hold, and which memory has reached an Execution. -/

namespace HpAgent.Memory

open Library

/-! ### Contexts -/

/-- The manifest of the root Execution of a Run. -/
def rootContext (db : ContextStore) (account run : Uuid) : Option Manifest :=
  (findExecution db account run none).bind fun e => e.2.memoryContext

/-- The scopes, with those of another list that are not among them. -/
def addScopes (own more : List Scope) : List Scope := more.foldl (fun own scope => if scope ∈ own then own else own ++ [scope]) own

/-- What the messages that were read so far hand on, and the Runs whose answers are kept. -/
structure Inherited where
  scopes : Option (List Scope)
  documents : List String
  kept : List Uuid
deriving DecidableEq, Repr

/-- An answer of the conversation. -/
def inheritMessage (db : ContextStore) (account : Uuid) (epoch : ℕ) (acc : Inherited) (producer : Uuid) : Inherited :=
  match checkManifest db account (rootContext db account producer) epoch with
  | .error _ => acc
  | .ok none => { acc with scopes := none, kept := acc.kept ++ [producer] }
  | .ok (some m) =>
      ⟨acc.scopes.map fun own => addScopes own (m.scopes.getD []), acc.documents ++ m.documents, acc.kept ++ [producer]⟩

/-- The binding that the Execution has already. -/
def inheritOwn (acc : Inherited) : Option Manifest → Inherited
  | none => { acc with scopes := none }
  | some current =>
      { acc with
        scopes := match acc.scopes, current.scopes with
          | some own, some more => some (addScopes own more)
          | _, _ => none
        documents := acc.documents ++ current.documents }

/-- `WebContextBase`, as far as memory goes.  `seen` is the memory that had reached the Runs whose answers are kept, with the
epochs at which it did. -/
structure Base where
  account : Uuid
  run : Uuid
  execution : Uuid
  epoch : ℕ
  scopes : Option (List Scope)
  documents : List String
  kept : List Uuid
  seen : List (Scope × ℕ)
deriving DecidableEq, Repr

/-- `load_base`, for the Runs that produced the answers of the conversation up to the Run's watermark. -/
def loadBase (account run : Uuid) (producers : List Uuid) : ContextTx Base := do
  let found ← Tx.query fun db => findExecution db account run none
  let subject ← Tx.demand found (.runtimeError "run ownership chain is unavailable")
  let epoch ← accountEpoch account
  let inherited ← Tx.query fun db => producers.foldl (inheritMessage db account epoch) ⟨some [], [], []⟩
  let passed ← Tx.query fun db => checkManifest db account subject.2.memoryContext epoch
  let current ← Tx.ofExcept passed
  let all := inheritOwn inherited current
  pure ⟨account, run, subject.1, epoch, all.scopes, all.documents.dedup.mergeSort fun a b => a ≤ b, all.kept, []⟩

/-! ### Bindings -/

/-- The scopes of two manifests. -/
def mergeScopes (current base : Option (List Scope)) : Option (List Scope) :=
  match current, base with
  | some own, some more => some (addScopes own more)
  | _, _ => none

/-- `bind_base`; the value is what it binds. -/
def bindBase (base : Base) (fenced : Except Error Unit) : ContextTx (Option (List Scope)) := do
  assertFence base.account (some (base.run, base.execution)) fenced
  let current ← checkExecution base.account base.run (some base.execution) true
  let scopes := mergeScopes (current.bind Manifest.scopes) base.scopes
  let documents := (base.documents ++ (current.map Manifest.documents).getD []).dedup
  bindContext base.account base.execution scopes documents (min base.epoch ((current.map Manifest.epoch).getD 0))
  pure scopes

/-- The second binding of `recall_long_term`, for memory of the scope; the value is what it binds. -/
def bindRecalled (base : Base) (scope : Scope) (documents : List String) (fenced : Except Error Unit) :
    ContextTx (Option (List Scope)) := do
  assertFence base.account (some (base.run, base.execution)) fenced
  let found ← Tx.query fun db => (db.executions.lookup base.execution).filter fun x => x.accountId = base.account
  let x ← Tx.demand found .typeError
  let epoch ← accountEpoch base.account
  let passed ← Tx.query fun db => checkManifest db base.account x.memoryContext epoch
  let _ ← Tx.ofExcept passed
  let scopes := (x.memoryContext.bind Manifest.scopes).map fun own => addScopes own [scope]
  bindContext base.account base.execution scopes (((x.memoryContext.map Manifest.documents).getD [] ++ documents).dedup) base.epoch
  pure scopes

/-! ### Conversations -/

/-- A chat Run: its conversation, and the messages that it may see. -/
structure ChatRun where
  account : Uuid
  conversation : Uuid
  watermark : ℕ
deriving DecidableEq, Repr

/-- An accepted message of a user, or a completed answer of a Run. -/
structure ChatMessage where
  sequence : ℕ
  producer : Option Uuid
deriving DecidableEq, Repr

/-- The store with its bindings, the chat Runs and the messages of an account and a conversation, the contexts that were loaded,
and the memory that has reached an Execution, with the epochs of its account. -/
structure ChatWorld where
  world : World
  runs : Uuid → Option ChatRun
  messages : Uuid × Uuid → List ChatMessage
  loaded : List Base
  reached : Uuid → List (Scope × ℕ)

/-- What happens in conversations. -/
inductive ChatAction where
  /-- a transaction that binds nothing -/
  | memory (a : Action)
  /-- an Execution from before memory was recorded, with the memory that has reached it -/
  | legacyExecution (id account run : Uuid) (recalled : List Scope)
  /-- a message of a user and its chat Run -/
  | submit (run : Uuid) (chat : ChatRun)
  /-- a chat Run for a message that has one already -/
  | retry (run : Uuid) (chat : ChatRun)
  | load (run : Uuid)
  | bind (base : Base) (fenced : Except Error Unit)
  | recall (base : Base) (scope : Scope) (documents : List String) (fenced : Except Error Unit)
  /-- the answer of the Run -/
  | complete (run : Uuid)

namespace ChatWorld

/-- The Runs whose answers a Run may see. -/
def producers (s : ChatWorld) (chat : ChatRun) : List Uuid :=
  ((s.messages (chat.account, chat.conversation)).filter fun m => m.sequence ≤ chat.watermark).filterMap ChatMessage.producer

/-- One more message of a conversation. -/
def post (s : ChatWorld) (chat : ChatRun) (producer : Option Uuid) : ChatWorld :=
  let key := (chat.account, chat.conversation)
  { s with messages := Function.update s.messages key (s.messages key ++ [⟨(s.messages key).length + 1, producer⟩]) }

/-- The memory that has reached the Runs. -/
def reachedRuns (s : ChatWorld) (account : Uuid) (runs : List Uuid) : List (Scope × ℕ) :=
  runs.flatMap fun run => ((findExecution s.world.db account run none).map fun e => s.reached e.1).getD []

/-- The Execution of a context is bound, and memory reaches it. -/
def bound (s : ChatWorld) (base : Base) (db : ContextStore) (scopes : Option (List Scope)) (memory : List (Scope × ℕ)) : ChatWorld :=
  { s with
    world := ⟨db, Function.update s.world.bound (base.account, base.execution) ⟨memoryEpoch s.world.db base.account, scopes⟩, s.world.frozen⟩
    reached := if (db.executions.lookup base.execution).any (fun x => x.accountId = base.account) = true then
        Function.update s.reached base.execution (s.reached base.execution ++ memory)
      else s.reached }

/-- The memory that has reached the parent of a new Execution. -/
def handedOn (s : ChatWorld) (account : Uuid) (parent : Option Uuid) : List (Scope × ℕ) :=
  (parent.map fun p => if ((s.world.db.executions.lookup p).any fun x => x.accountId = account) = true then s.reached p else []).getD []

/-- A transaction of another subsystem.  A Run has one root; a subagent starts with what its parent knows. -/
def memory (s : ChatWorld) : Action → ChatWorld
  | .bindContext _ _ _ _ _ => s
  | .createExecution id account run root parent =>
      if root = true ∧ (findExecution s.world.db account run none).isSome = true then s
      else if (s.world.db.executions.lookup id).isSome = true then s
      else
        { s with
          world := s.world.act (.createExecution id account run root parent)
          reached := Function.update s.reached id (s.handedOn account parent) }
  | a => { s with world := s.world.act a }

/-- The row of an Execution from before memory was recorded. -/
def legacyRow (account run : Uuid) : ExecutionRow := ⟨account, run, true, true, none⟩

/-- An action; one that raises changes nothing. -/
def act (s : ChatWorld) : ChatAction → ChatWorld
  | .memory a => s.memory a
  | .legacyExecution id account run recalled =>
      if (s.world.db.executions.lookup id).isSome = true ∨ (findExecution s.world.db account run none).isSome = true then s
      else
        { s with
          world := { s.world with db := { s.world.db with executions := s.world.db.executions.insert id (legacyRow account run) } }
          reached := Function.update s.reached id (recalled.map fun scope => (scope, memoryEpoch s.world.db account)) }
  | .submit run chat =>
      if (s.runs run).isSome = true then s
      else ({ s with runs := Function.update s.runs run (some chat) } : ChatWorld).post chat none
  | .retry run chat =>
      if (s.runs run).isSome = true then s
      else { s with runs := Function.update s.runs run (some chat) }
  | .load run =>
      match s.runs run with
      | none => s
      | some chat =>
          match (loadBase chat.account run (s.producers chat)).run s.world.db with
          | .error _ => s
          | .ok (base, _) => { s with loaded := { base with seen := s.reachedRuns chat.account base.kept } :: s.loaded }
  | .bind base fenced =>
      if base ∉ s.loaded then s
      else match (bindBase base fenced).run s.world.db with
        | .error _ => s
        | .ok (scopes, db) => s.bound base db scopes base.seen
  | .recall base scope documents fenced =>
      if base ∉ s.loaded then s
      else match (bindRecalled base scope documents fenced).run s.world.db with
        | .error _ => s
        | .ok (scopes, db) => s.bound base db scopes [(scope, base.epoch)]
  | .complete run =>
      match s.runs run with
      | none => s
      | some chat => s.post chat (some run)

def start : ChatWorld := ⟨Memory.start, fun _ => none, fun _ => [], [], fun _ => []⟩

def run (actions : List ChatAction) : ChatWorld := actions.foldl act start

end ChatWorld

end HpAgent.Memory
