import HpAgent.Capabilities.FactRuns
import HpAgent.Capabilities.Inputs

/-! # Repeated calls of a capability

`prepare` is the call of the runtime with the arguments as JSON: when the operation has an invocation already, the arguments
are normalized under the definition the invocation was created with and compared with its inputs as they are read back.

* `prepare_known`: when a repeated call is taken for a replay; it changes no row either way.
* `inputs_replayed`: with what normalizing does to every value under every definition.

An empty text may be forbidden in other ways than by its length or its format; `forbidden_text_kept` is a `const` that is
another text. -/

namespace HpAgent.Capabilities.Inputs

open Library Library.Json Records

/-! ### Reading a schema -/

/-- The text of a keyword. -/
def textOf : Option Json → Option String
  | some (.str s) => some (String.ofList s)
  | _ => none

/-- The number of `minLength`; of a float only whether it is zero. -/
def minLengthOf : Option Json → ℕ
  | some (.int n) => n.toNat
  | some (.float text) => if (Json.float text).truthy then 1 else 0
  | _ => 0

/-- The schema of a property; `true` and `false` are schemas as well. -/
def fieldSchemaOf : Json → Option FieldSchema
  | .obj keywords => some ⟨textOf (keywords.lookup "type".toList), minLengthOf (keywords.lookup "minLength".toList),
      textOf (keywords.lookup "format".toList)⟩
  | _ => none

/-- The parts of a schema that `normalize_inputs` reads. -/
def schemaOf (schema : Members) : Schema where
  text := String.ofList (dumps [','] [':'] (.obj schema))
  required := match schema.lookup "required".toList with
    | some (.arr names) => names.filterMap fun j => textOf (some j)
    | _ => []
  properties := match schema.lookup "properties".toList with
    | some (.obj properties) => properties.map fun p => (String.ofList p.1, fieldSchemaOf p.2)
    | _ => []

/-- The schema of a text has a `const` that is another value than the empty text. -/
def ForbidsEmpty (keywords : Members) : Prop :=
  keywords.lookup "type".toList = some (.str "string".toList) ∧ ∃ s, keywords.lookup "const".toList = some (.str s) ∧ s ≠ []

/-! ### Preparing a call -/

/-- How inputs are stored, and how they are read back. -/
structure Column where
  write : Members → Payload
  read : Payload → Members

/-- `CapabilityBinding`, on JSON. -/
structure CallBinding where
  key : String
  contractVersion : ℕ
  scope : Members → Except FactError Scope
  inputSchema : Definition → Schema
  admits : Members → Verdict

/-- What `_prepare` is given: the binding of the tool and the arguments of the tool call with what reading them may raise,
the policy on the tool, the capacity and the headroom of the budgets. -/
structure CallInput where
  operationId : String
  executionId : Uuid
  binding : Option CallBinding
  arguments : Except FactError Members
  allowed : Verdict
  capacity : CapacityConfig
  headroom : Verdict

section calls

variable {δ : Type} (worth : List Char → ℚ) (column : Column) (host : Host δ)

/-- The branch of `_prepare` for an operation that has an invocation. -/
def replay (i : CallInput) (b : CallBinding) (arguments : Members) (c : Caller) (v : Invocation δ) :
    FactTx δ (Invocation δ) := do
  let inputs ← Tx.ofExcept (normalizeInputs (.obj arguments) v.descriptor.definition.inputSchema)
  admitInUow i.capacity i.headroom c i.operationId
  Tx.check (v.accountId = c.fence.accountId ∧ v.runId = c.fence.runId ∧ v.callerExecutionId = c.fence.executionId ∧
    v.capabilityKey = b.key ∧ v.contractVersion = b.contractVersion ∧
    same worth (.obj (column.read v.descriptor.inputs)) (.obj inputs) = true) (invalid "invocation identity input conflict")
  let wanted ← Tx.ofExcept (b.scope inputs)
  let scope ← Tx.ofExcept (resourceScope host wanted)
  Tx.check (v.descriptor.resourceScope = scope) (invalid "invocation identity input conflict")
  pure v

/-- The other branch of `_prepare`. -/
def invoke (clock : Readings) (fence : Option Fence) (facts : CapabilityFacts) (i : CallInput) (b : CallBinding)
    (registered : Definition) (arguments : Members) (c : Caller) : FactTx δ (Invocation δ) := do
  let inputs ← Tx.ofExcept (normalizeInputs (.obj arguments) registered.inputSchema)
  Tx.ofExcept i.allowed
  Tx.check (host.valid (b.inputSchema registered) (column.write inputs) = true) .validationError
  Tx.ofExcept (b.admits inputs)
  admitInUow i.capacity i.headroom c i.operationId
  let scope ← Tx.ofExcept (b.scope inputs)
  create host (fun n => clock (n + 1)) fence facts
    ⟨i.operationId, b.key, b.contractVersion, column.write inputs, scope, registered.limits⟩

/-- `_prepare`. -/
def prepare (clock : Readings) (fence : Option Fence) (facts : CapabilityFacts) (i : CallInput) :
    FactTx δ (Invocation δ) := do
  let b ← Tx.demand i.binding (.resourceDenied "capability is not registered")
  let arguments ← Tx.ofExcept i.arguments
  let registered ← Tx.ofExcept (facts.registry.get b.key b.contractVersion)
  let c ← context (clock 0) fence
  Tx.check (c.fence.executionId = i.executionId) (.resourceDenied "caller identity mismatch")
  let existing ← Tx.query fun db => db.invocations.lookup i.operationId
  match existing with
  | some v => replay worth column host i b arguments c v
  | none => invoke column host clock fence facts i b registered arguments c

end calls

/-! ### Repeating a call -/

section replays

variable {δ : Type} {worth : List Char → ℚ} {column : Column} {host : Host δ} {db db' : FactStore δ}
  {v w : Invocation δ} {i : CallInput} {b : CallBinding} {arguments : Members} {c : Caller}

/-- The call asks for what the invocation was created with. -/
structure Repeats (worth : List Char → ℚ) (column : Column) (host : Host δ) (b : CallBinding) (arguments : Members)
    (c : Caller) (v : Invocation δ) : Prop where
  account : v.accountId = c.fence.accountId
  run : v.runId = c.fence.runId
  caller : v.callerExecutionId = c.fence.executionId
  key : v.capabilityKey = b.key
  version : v.contractVersion = b.contractVersion
  inputs : ∃ inputs, normalizeInputs (.obj arguments) v.descriptor.definition.inputSchema = .ok inputs ∧
    same worth (.obj (column.read v.descriptor.inputs)) (.obj inputs) = true ∧
    ∃ wanted, b.scope inputs = .ok wanted ∧ resourceScope host wanted = .ok v.descriptor.resourceScope

/-- The call may go on: its tool is bound to a registered capability, its arguments are there, and the caller holds its
fence in a Run that is not blocked. -/
structure Admitted (clock : Readings) (fence : Option Fence) (facts : CapabilityFacts) (i : CallInput) (db : FactStore δ)
    (b : CallBinding) (arguments : Members) (c : Caller) : Prop where
  binding : i.binding = some b
  arguments : i.arguments = .ok arguments
  registered : ∃ d, facts.registry.get b.key b.contractVersion = .ok d
  caller : (context (clock 0) fence).run db = .ok (c, db)
  execution : c.fence.executionId = i.executionId
  work : admitWork db c = .ok ()

/-- A known operation takes no further room. -/
theorem admitInUow_known {capacity : CapacityConfig} {headroom : Verdict} {operation : String} {u : Unit}
    (hknown : db.invocations.lookup operation = some v) :
    (admitInUow capacity headroom c operation).run db = .ok (u, db') ↔ admitWork db c = .ok () ∧ db = db' := by
  unfold admitInUow
  rw [Tx.bind_query_ok, Tx.bind_ofExcept_ok]
  simp only [Tx.bind_query_ok, Tx.bind_check_ok, hknown, Option.isSome_some, true_or, true_and, if_true, Tx.ofExcept_ok]
  constructor
  · rintro ⟨_, hwork, rfl⟩
    exact ⟨hwork, rfl⟩
  · rintro ⟨hwork, rfl⟩
    exact ⟨(), hwork, rfl⟩

theorem replay_ok (hknown : db.invocations.lookup i.operationId = some v) :
    (replay worth column host i b arguments c v).run db = .ok (w, db') ↔
      w = v ∧ db' = db ∧ admitWork db c = .ok () ∧ Repeats worth column host b arguments c v := by
  unfold replay
  rw [Tx.bind_ofExcept_ok]
  constructor
  · rintro ⟨inputs, hinputs, h⟩
    obtain ⟨_, db₁, hadmit, h⟩ := Tx.bind_ok.mp h
    obtain ⟨hwork, rfl⟩ := (admitInUow_known hknown).mp hadmit
    obtain ⟨⟨haccount, hrun, hcaller, hkey, hversion, hsame⟩, h⟩ := Tx.bind_check_ok.mp h
    obtain ⟨wanted, hwanted, h⟩ := Tx.bind_ofExcept_ok.mp h
    obtain ⟨scope, hscope, h⟩ := Tx.bind_ofExcept_ok.mp h
    obtain ⟨hequal, h⟩ := Tx.bind_check_ok.mp h
    obtain ⟨hreturned, hstore⟩ := Tx.pure_ok.mp h
    refine ⟨hreturned.symm, hstore.symm, hwork, haccount, hrun, hcaller, hkey, hversion, inputs, hinputs, hsame, wanted, hwanted, ?_⟩
    rw [hequal]
    exact hscope
  · rintro ⟨rfl, rfl, hwork, haccount, hrun, hcaller, hkey, hversion, inputs, hinputs, hsame, wanted, hwanted, hscope⟩
    refine ⟨inputs, hinputs, Tx.bind_ok.mpr ⟨(), db', (admitInUow_known hknown).mpr ⟨hwork, rfl⟩, ?_⟩⟩
    refine Tx.bind_check_ok.mpr ⟨⟨haccount, hrun, hcaller, hkey, hversion, hsame⟩, ?_⟩
    refine Tx.bind_ofExcept_ok.mpr ⟨wanted, hwanted, Tx.bind_ofExcept_ok.mpr ⟨_, hscope, ?_⟩⟩
    exact Tx.bind_check_ok.mpr ⟨rfl, Tx.pure_ok.mpr ⟨rfl, rfl⟩⟩

/-- A call whose operation has an invocation. -/
theorem prepare_known {clock : Readings} {fence : Option Fence} {facts : CapabilityFacts}
    (hknown : db.invocations.lookup i.operationId = some v) :
    (prepare worth column host clock fence facts i).run db = .ok (w, db') ↔
      w = v ∧ db' = db ∧ ∃ b arguments c, Admitted clock fence facts i db b arguments c ∧
        Repeats worth column host b arguments c v := by
  unfold prepare
  rw [Tx.bind_demand_ok]
  constructor
  · rintro ⟨b, hbinding, h⟩
    obtain ⟨arguments, harguments, h⟩ := Tx.bind_ofExcept_ok.mp h
    obtain ⟨registered, hregistered, h⟩ := Tx.bind_ofExcept_ok.mp h
    obtain ⟨c, db₁, hcontext, h⟩ := Tx.bind_ok.mp h
    obtain ⟨rfl, -⟩ := context_ok hcontext
    obtain ⟨hexecution, h⟩ := Tx.bind_check_ok.mp h
    rw [Tx.bind_query_ok, hknown] at h
    obtain ⟨rfl, rfl, hwork, hrepeats⟩ := (replay_ok hknown).mp h
    exact ⟨rfl, rfl, b, arguments, c, ⟨hbinding, harguments, ⟨registered, hregistered⟩, hcontext, hexecution, hwork⟩, hrepeats⟩
  · rintro ⟨rfl, rfl, b, arguments, c, ⟨hbinding, harguments, ⟨registered, hregistered⟩, hcontext, hexecution, hwork⟩, hrepeats⟩
    refine ⟨b, hbinding, Tx.bind_ofExcept_ok.mpr ⟨arguments, harguments, ?_⟩⟩
    refine Tx.bind_ofExcept_ok.mpr ⟨registered, hregistered, Tx.bind_ok.mpr ⟨c, db', hcontext, ?_⟩⟩
    refine Tx.bind_check_ok.mpr ⟨hexecution, ?_⟩
    rw [Tx.bind_query_ok, hknown]
    exact (replay_ok hknown).mpr ⟨rfl, rfl, hwork, hrepeats⟩

/-- A repeated call on an operation with an invocation. -/
structure Replayed (worth : List Char → ℚ) (column : Column) (host : Host δ) (db : FactStore δ) (i : CallInput)
    (v : Invocation δ) : Prop where
  accepted : ∀ clock fence facts, (∃ w db', (prepare worth column host clock fence facts i).run db = .ok (w, db')) ↔
    ∃ b arguments c, Admitted clock fence facts i db b arguments c ∧ Repeats worth column host b arguments c v
  unchanged : ∀ clock fence facts w db', (prepare worth column host clock fence facts i).run db = .ok (w, db') →
    w = v ∧ db' = db
  refused : ∀ clock fence facts, (¬∃ w db', (prepare worth column host clock fence facts i).run db = .ok (w, db')) →
    (∃ e, (prepare worth column host clock fence facts i).run db = .error e) ∧
      (prepare worth column host clock fence facts i).commit db = db
  /-- The inputs of the first call in any order of keys, and its arguments in any order of keys. -/
  retried : ∀ arguments arguments' inputs, Keyed (.obj arguments) → Reordered (.obj arguments) (.obj arguments') →
    normalizeInputs (.obj arguments) v.descriptor.definition.inputSchema = .ok inputs →
    Reordered (.obj inputs) (.obj (column.read v.descriptor.inputs)) →
    ∃ inputs', normalizeInputs (.obj arguments') v.descriptor.definition.inputSchema = .ok inputs' ∧
      same worth (.obj (column.read v.descriptor.inputs)) (.obj inputs') = true

theorem replayed (hknown : db.invocations.lookup i.operationId = some v) : Replayed worth column host db i v where
  accepted clock fence facts := by
    constructor
    · rintro ⟨w, db', h⟩
      exact ((prepare_known hknown).mp h).2.2
    · intro h
      exact ⟨v, db, (prepare_known hknown).mpr ⟨rfl, rfl, h⟩⟩
  unchanged clock fence facts w db' h := by
    obtain ⟨hsame, hstore, -⟩ := (prepare_known hknown).mp h
    exact ⟨hsame, hstore⟩
  refused clock fence facts h := raises_of_not_ok fun w db' hrun => h ⟨w, db', hrun⟩
  retried arguments arguments' inputs hkeyed horder hinputs hstored := by
    refine ⟨inputs, (normalizeInputs_congr hkeyed horder).trans hinputs, ?_⟩
    exact same_of_reordered worth hstored.symm (keyed_inputs hkeyed hinputs)

/-- **Inputs are normalized once and replayed.**  For every schema and every value the order of keys makes no difference,
normalizing twice changes nothing, the optional texts that say nothing are left out and every other field keeps its value.
A repeated call is taken for a replay exactly when it is admitted and asks for what its invocation was created with, under
the definition of that time, and no call on a known operation changes a row. -/
theorem inputs_replayed (worth : List Char → ℚ) (column : Column) (host : Host δ) :
    (∀ schema value other, Keyed value → Reordered value other →
      normalizeInputs other schema = normalizeInputs value schema) ∧
    (∀ schema fields inputs, Keyed (.obj fields) → normalizeInputs (.obj fields) schema = .ok inputs →
      Normalized schema fields inputs) ∧
    ∀ (db : FactStore δ) i v, db.invocations.lookup i.operationId = some v → Replayed worth column host db i v := by
  refine ⟨?_, ?_, ?_⟩
  · intro schema value other hvalue h
    exact normalizeInputs_congr hvalue h
  · intro schema fields inputs hvalue h
    exact normalized hvalue h
  · intro db i v hknown
    exact replayed hknown

end replays

/-! ### One call -/

/-- A text that has to be `all`. -/
def modeKeywords : Members := [("type".toList, .str "string".toList), ("const".toList, .str "all".toList)]

def modeSchema : Members :=
  [("type".toList, .str "object".toList), ("additionalProperties".toList, .bool false),
    ("properties".toList, .obj [("mode".toList, .obj modeKeywords)])]

/-- An empty text is kept where only a `const` forbids it. -/
theorem forbidden_text_kept : ForbidsEmpty modeKeywords ∧
    normalizeInputs (.obj [("mode".toList, .str [])]) (schemaOf modeSchema) = .ok [("mode".toList, .str [])] := by
  refine ⟨⟨rfl, "all".toList, rfl, by decide⟩, ?_⟩
  rfl

/-- A query, and a note and a language that may be left out. -/
def searchSchema : Members :=
  [("properties".toList, .obj [("query".toList, .obj [("type".toList, .str "string".toList)]),
      ("note".toList, .obj [("type".toList, .str "string".toList), ("minLength".toList, .int 1)]),
      ("language".toList, .obj [("type".toList, .str "string".toList)])]),
    ("required".toList, .arr [.str "query".toList])]

def searchDefinition : Definition := { plainDefinition with inputSchema := schemaOf searchSchema }

/-- Two of the fields say nothing. -/
def searchArguments : Members :=
  [("query".toList, .str ['a']), ("note".toList, .str []), ("language".toList, .null)]

/-- How the one field that is left is stored. -/
def queryColumn : Column where
  write members := ((members.lookup "query".toList).bind fun j => textOf (some j)).elim ∅ fun s =>
    (∅ : Payload).insert "query" (.string s)
  read payload := match payload.lookup "query" with
    | some (.string s) => [("query".toList, .str s.toList)]
    | _ => []

/-- The tool of `searchDefinition`. -/
def searchBinding : CallBinding where
  key := "summary"
  contractVersion := 1
  scope _ := .ok ⟨1, [], [], [], []⟩
  inputSchema := Definition.inputSchema
  admits _ := .ok ()

def searchCall (arguments : Members) : CallInput where
  operationId := "tool"
  executionId := 5
  binding := some searchBinding
  arguments := .ok arguments
  allowed := .ok ()
  capacity := ⟨1, 1⟩
  headroom := .ok ()

/-- A call in the Run of `plainStart`. -/
def search (arguments : Members) : FactTx Payload (Invocation Payload) :=
  prepare (fun _ => 0) queryColumn plainHost (fun _ => 0) (some lateFence) ⟨[searchDefinition], [], []⟩ (searchCall arguments)

theorem inputs_replayed_search : ∃ v, ((search searchArguments).commit plainStart).invocations.lookup "tool" = some v ∧
    (search searchArguments.reverse).run ((search searchArguments).commit plainStart) =
      .ok (v, (search searchArguments).commit plainStart) ∧
    v.descriptor.inputs.lookup "query" = some (.string "a") ∧
    normalizeInputs (.obj searchArguments.reverse) (schemaOf searchSchema) = .ok [("query".toList, .str ['a'])] ∧
    Normalized (schemaOf searchSchema) searchArguments [("query".toList, .str ['a'])] := by
  obtain ⟨hordered, hnormalized, hreplayed⟩ := inputs_replayed (fun _ => 0) queryColumn plainHost
  have hkeyed : Keyed (.obj searchArguments) := by
    refine ⟨?_, trivial, trivial, trivial, trivial⟩
    decide +kernel
  have hinputs : normalizeInputs (.obj searchArguments) (schemaOf searchSchema) = .ok [("query".toList, .str ['a'])] := rfl
  have hcreated : (((search searchArguments).commit plainStart).invocations.lookup "tool").isSome = true := rfl
  obtain ⟨v, hv⟩ := Option.isSome_iff_exists.mp hcreated
  obtain ⟨w, db', hrun⟩ : ∃ w db', (search searchArguments.reverse).run ((search searchArguments).commit plainStart) =
      .ok (w, db') := ⟨_, _, rfl⟩
  obtain ⟨rfl, rfl⟩ := (hreplayed _ (searchCall searchArguments.reverse) v hv).unchanged _ _ _ w db' hrun
  refine ⟨w, hv, hrun, ?_, ?_, hnormalized _ _ _ hkeyed hinputs⟩
  · have hstored : (((search searchArguments).commit plainStart).invocations.lookup "tool").bind
        (fun v => v.descriptor.inputs.lookup "query") = some (.string "a") := rfl
    rw [hv] at hstored
    exact hstored
  · exact (hordered _ _ _ hkeyed (.keys (List.reverse_perm searchArguments).symm)).trans hinputs

end HpAgent.Capabilities.Inputs
