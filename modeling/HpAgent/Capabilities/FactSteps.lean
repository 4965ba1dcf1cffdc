import HpAgent.Capabilities.Facts
import HpAgent.Records.ReceiptRuns

/-! # What the calls do to the facts

`Identified` says which facts may stand in the store: an invocation belongs to the tool operation it is named after and has
one child Execution, a result was produced by that child in an operation that is completed with it, and an observation is
one of the caller.  `Evolves` is what a call can do: facts stay as they are, and `Identified` is kept; it is a preorder, and
every call keeps it.

`Beyond invocation` says that references and checks are only added under one invocation. -/

namespace HpAgent.Capabilities

open Library Records

variable {δ : Type} {v : Invocation δ} {clock : Readings} {facts : CapabilityFacts} {account : Uuid}

/-! ### Which facts may stand -/

/-- The columns of an Execution that never change. -/
def ExecutionRow.identity (x : ExecutionRow) : ExecutionRow := { x with resultRef := none }

/-- The Execution that works on an invocation. -/
def Invocation.child (operation : String) (i : Invocation δ) : ExecutionRow :=
  ⟨i.accountId, i.runId, .capability, some i.callerExecutionId, some operation, some i.descriptor.resourceScope, none⟩

/-- The operation has the invocation's account, Run and caller, and is one of a tool. -/
def Invocation.Owned (db : FactStore δ) (operation : String) (i : Invocation δ) : Prop :=
  ∃ o, db.records.operations.lookup operation = some o ∧ o.provenance.accountId = i.accountId ∧
    o.provenance.runId = i.runId ∧ o.provenance.executionId = i.callerExecutionId ∧ o.provenance.operationType = "tool"

/-- The invocation's child is the one of its operation, and there is such an Execution. -/
def Invocation.Parent (host : Host δ) (db : FactStore δ) (operation : String) (i : Invocation δ) : Prop :=
  i.childExecutionId = host.childId operation ∧
    ∃ x, db.executions.lookup i.childExecutionId = some x ∧ x.identity = i.child operation

/-- An Execution that works on an invocation is its child. -/
def ExecutionRow.Called (db : FactStore δ) (id : Uuid) (x : ExecutionRow) : Prop :=
  ∀ operation, x.invocationId = some operation →
    ∃ i, db.invocations.lookup operation = some i ∧ i.childExecutionId = id

/-- The result comes from the child, and its operation is completed with it. -/
def ResultRow.Produced (db : FactStore δ) (invocation : String) (r : ResultRow) : Prop :=
  (∃ i, db.invocations.lookup invocation = some i ∧ i.accountId = r.accountId ∧ i.runId = r.runId ∧
    i.childExecutionId = r.producingExecutionId) ∧
  ∃ o, db.records.operations.lookup r.producingOperationId = some o ∧ o.status = .completed ∧
    o.resultPayload = some r.payload.payload

/-- The caller has observed the result. -/
def Observation.Seen (db : FactStore δ) (invocation : String) (ob : Observation) : Prop :=
  ∃ i r, db.invocations.lookup invocation = some i ∧ db.results.lookup invocation = some r ∧
    ob.accountId = i.accountId ∧ ob.runId = i.runId ∧ ob.callerExecutionId = i.callerExecutionId ∧
    ob.producingOperationId = r.producingOperationId

/-- The adoption is bound to the revision and the control epoch of its Run. -/
def Adoption.Bound (db : FactStore δ) (a : Adoption) : Prop :=
  ∃ r, db.records.base.runs a.runId = some r ∧ r.accountId = a.accountId ∧
    a.requirementRevision = requirementRevisionOf r ∧ a.workControlEpoch = workControlEpochOf r

/-- The reference is an output of its result. -/
def RefRow.Published (db : FactStore δ) (refId : Uuid) (f : RefRow) : Prop :=
  ∃ r, db.results.lookup f.invocationId = some r ∧
    ∃ o ∈ r.payload.outputs, o.refId = refId ∧ o.row f.accountId f.invocationId = f

/-- The facts that stand in the store are in order. -/
structure Identified (host : Host δ) (db : FactStore δ) : Prop where
  owned : ∀ operation i, db.invocations.lookup operation = some i → i.Owned db operation
  parents : ∀ operation i, db.invocations.lookup operation = some i → i.Parent host db operation
  called : ∀ id x, db.executions.lookup id = some x → x.Called db id
  produced : ∀ invocation r, db.results.lookup invocation = some r → r.Produced db invocation
  producers : ∀ invocation invocation' r r', db.results.lookup invocation = some r →
    db.results.lookup invocation' = some r' → r.producingOperationId = r'.producingOperationId → invocation = invocation'
  seen : ∀ invocation ob, db.observations.lookup invocation = some ob → ob.Seen db invocation
  bound : ∀ key a, db.adoptions.lookup key = some a → a.Bound db
  published : ∀ refId f, db.resultRefs.lookup refId = some f → f.Published db refId

/-! ### What stays -/

/-- Facts stay; operations move; Executions and Runs keep what identifies them. -/
structure Grows (db db' : FactStore δ) : Prop where
  operations : Moves db.records db'.records
  runs : ∀ id r, db.records.base.runs id = some r →
    ∃ r', db'.records.base.runs id = some r' ∧ r'.accountId = r.accountId ∧ r'.source = r.source
  executions : ∀ id x, db.executions.lookup id = some x →
    ∃ x', db'.executions.lookup id = some x' ∧ x'.identity = x.identity
  invocations : Table.Extends db.invocations db'.invocations
  inputRefs : Table.Extends db.inputRefs db'.inputRefs
  results : Table.Extends db.results db'.results
  resultRefs : Table.Extends db.resultRefs db'.resultRefs
  checks : Table.Extends db.checks db'.checks
  adoptions : Table.Extends db.adoptions db'.adoptions
  observations : Table.Extends db.observations db'.observations

instance : IsPreorder (FactStore δ) Grows where
  refl db :=
    ⟨refl_of Moves db.records, fun _ r h => ⟨r, h, rfl, rfl⟩, fun _ x h => ⟨x, h, rfl⟩, refl_of Table.Extends _,
      refl_of Table.Extends _, refl_of Table.Extends _, refl_of Table.Extends _, refl_of Table.Extends _,
      refl_of Table.Extends _, refl_of Table.Extends _⟩
  trans _ _ _ h h' := by
    refine ⟨trans_of Moves h.operations h'.operations, ?_, ?_, trans_of Table.Extends h.invocations h'.invocations,
      trans_of Table.Extends h.inputRefs h'.inputRefs, trans_of Table.Extends h.results h'.results,
      trans_of Table.Extends h.resultRefs h'.resultRefs, trans_of Table.Extends h.checks h'.checks,
      trans_of Table.Extends h.adoptions h'.adoptions, trans_of Table.Extends h.observations h'.observations⟩
    · intro id r hr
      obtain ⟨r₁, h₁, haccount₁, hsource₁⟩ := h.runs id r hr
      obtain ⟨r₂, h₂, haccount₂, hsource₂⟩ := h'.runs id r₁ h₁
      exact ⟨r₂, h₂, haccount₂.trans haccount₁, hsource₂.trans hsource₁⟩
    · intro id x hx
      obtain ⟨x₁, h₁, hsame₁⟩ := h.executions id x hx
      obtain ⟨x₂, h₂, hsame₂⟩ := h'.executions id x₁ h₁
      exact ⟨x₂, h₂, hsame₂.trans hsame₁⟩

section mono

variable {host : Host δ} {db db' : FactStore δ} (hg : Grows db db')
include hg

theorem Invocation.Owned.mono {operation : String} {i : Invocation δ} (h : i.Owned db operation) : i.Owned db' operation := by
  obtain ⟨o, ho, hrest⟩ := h
  obtain ⟨o', ho', hprovenance, -⟩ := hg.operations operation o ho
  refine ⟨o', ho', ?_⟩
  rw [hprovenance]
  exact hrest

theorem Invocation.Parent.mono {operation : String} {i : Invocation δ} (h : i.Parent host db operation) :
    i.Parent host db' operation := by
  obtain ⟨hid, x, hx, hsame⟩ := h
  obtain ⟨x', hx', hsame'⟩ := hg.executions _ x hx
  exact ⟨hid, x', hx', hsame'.trans hsame⟩

theorem ExecutionRow.Called.mono {id : Uuid} {x : ExecutionRow} (h : x.Called db id) : x.Called db' id := by
  intro operation hoperation
  obtain ⟨i, hi, hchild⟩ := h operation hoperation
  exact ⟨i, hg.invocations _ _ hi, hchild⟩

theorem ResultRow.Produced.mono {invocation : String} {r : ResultRow} (h : r.Produced db invocation) :
    r.Produced db' invocation := by
  obtain ⟨⟨i, hi, hproducer⟩, o, ho, hcompleted, hpayload⟩ := h
  obtain ⟨o', ho', -, hsame⟩ := hg.operations _ o ho
  rw [hsame hcompleted] at ho'
  exact ⟨⟨i, hg.invocations _ _ hi, hproducer⟩, o, ho', hcompleted, hpayload⟩

theorem Observation.Seen.mono {invocation : String} {ob : Observation} (h : ob.Seen db invocation) :
    ob.Seen db' invocation := by
  obtain ⟨i, r, hi, hr, hrest⟩ := h
  exact ⟨i, r, hg.invocations _ _ hi, hg.results _ _ hr, hrest⟩

theorem Adoption.Bound.mono {a : Adoption} (h : a.Bound db) : a.Bound db' := by
  obtain ⟨r, hr, haccount, hrevision, hepoch⟩ := h
  obtain ⟨r', hr', haccount', hsource⟩ := hg.runs _ r hr
  refine ⟨r', hr', haccount'.trans haccount, ?_, ?_⟩
  · rw [hrevision]
    unfold requirementRevisionOf
    rw [hsource]
  · rw [hepoch]
    unfold workControlEpochOf
    rw [hsource]

theorem RefRow.Published.mono {refId : Uuid} {f : RefRow} (h : f.Published db refId) : f.Published db' refId := by
  obtain ⟨r, hr, hrest⟩ := h
  exact ⟨r, hg.results _ _ hr, hrest⟩

/-- Order is kept when every row that is new is in order. -/
theorem Identified.grow (h : Identified host db)
    (hinvocations : ∀ operation i, db'.invocations.lookup operation = some i →
      db.invocations.lookup operation = some i ∨ i.Owned db' operation ∧ i.Parent host db' operation)
    (hexecutions : ∀ id x', db'.executions.lookup id = some x' →
      (∃ x, db.executions.lookup id = some x ∧ x'.identity = x.identity) ∨ x'.Called db' id)
    (hresults : ∀ invocation r, db'.results.lookup invocation = some r →
      db.results.lookup invocation = some r ∨ r.Produced db' invocation ∧
        ∀ invocation' r', db.results.lookup invocation' = some r' → r'.producingOperationId ≠ r.producingOperationId)
    (hone : ∀ invocation invocation' r r', db'.results.lookup invocation = some r → db'.results.lookup invocation' = some r' →
      db.results.lookup invocation = none → db.results.lookup invocation' = none → invocation = invocation')
    (hobservations : ∀ invocation ob, db'.observations.lookup invocation = some ob →
      db.observations.lookup invocation = some ob ∨ ob.Seen db' invocation)
    (hadoptions : ∀ key a, db'.adoptions.lookup key = some a → db.adoptions.lookup key = some a ∨ a.Bound db')
    (hrefs : ∀ refId f, db'.resultRefs.lookup refId = some f → db.resultRefs.lookup refId = some f ∨ f.Published db' refId) :
    Identified host db' := by
  refine ⟨?_, ?_, ?_, ?_, ?_, ?_, ?_, ?_⟩
  · intro operation i hi
    rcases hinvocations operation i hi with hold | hnew
    · exact (h.owned operation i hold).mono hg
    · exact hnew.1
  · intro operation i hi
    rcases hinvocations operation i hi with hold | hnew
    · exact (h.parents operation i hold).mono hg
    · exact hnew.2
  · intro id x' hx'
    rcases hexecutions id x' hx' with ⟨x, hx, hsame⟩ | hnew
    · have hinvocation : x'.invocationId = x.invocationId := by
        show x'.identity.invocationId = x.identity.invocationId
        rw [hsame]
      intro operation hoperation
      rw [hinvocation] at hoperation
      exact (h.called id x hx).mono hg operation hoperation
    · exact hnew
  · intro invocation r hr
    rcases hresults invocation r hr with hold | hnew
    · exact (h.produced invocation r hold).mono hg
    · exact hnew.1
  · intro invocation invocation' r r' hr hr' hsame
    rcases hresults invocation r hr with hold | ⟨-, hother⟩
    · rcases hresults invocation' r' hr' with hold' | ⟨-, hother'⟩
      · exact h.producers _ _ r r' hold hold' hsame
      · exact absurd hsame (hother' _ _ hold)
    · rcases hresults invocation' r' hr' with hold' | -
      · exact absurd hsame.symm (hother _ _ hold')
      · cases hbefore : db.results.lookup invocation with
        | some r₀ => exact absurd (by rw [Option.some.inj ((hg.results _ _ hbefore).symm.trans hr)]) (hother _ _ hbefore)
        | none =>
            cases hbefore' : db.results.lookup invocation' with
            | some r₀ =>
                have heq : r₀ = r' := Option.some.inj ((hg.results _ _ hbefore').symm.trans hr')
                exact absurd (by rw [heq, hsame]) (hother _ _ hbefore')
            | none => exact hone _ _ r r' hr hr' hbefore hbefore'
  · intro invocation ob hob
    rcases hobservations invocation ob hob with hold | hnew
    · exact (h.seen invocation ob hold).mono hg
    · exact hnew
  · intro key a ha
    rcases hadoptions key a ha with hold | hnew
    · exact (h.bound key a hold).mono hg
    · exact hnew
  · intro refId f hf
    rcases hrefs refId f hf with hold | hnew
    · exact (h.published refId f hold).mono hg
    · exact hnew

end mono

/-- Facts stay as they are, and their order is kept. -/
structure Evolves (host : Host δ) (db db' : FactStore δ) : Prop where
  grows : Grows db db'
  identified : Identified host db → Identified host db'

instance (host : Host δ) : IsPreorder (FactStore δ) (Evolves host) where
  refl db := ⟨refl_of Grows db, id⟩
  trans _ _ _ h h' := ⟨trans_of Grows h.grows h'.grows, fun hdb => h'.identified (h.identified hdb)⟩

/-- References and checks are only added under this invocation. -/
structure Beyond (invocation : String) (db db' : FactStore δ) : Prop where
  refs : ∀ refId f, db'.resultRefs.lookup refId = some f → db.resultRefs.lookup refId = some f ∨ f.invocationId = invocation
  checks : ∀ key k, db'.checks.lookup key = some k → db.checks.lookup key = some k ∨ key.1 = invocation

instance (invocation : String) : IsPreorder (FactStore δ) (Beyond invocation) where
  refl _ := ⟨fun _ _ h => .inl h, fun _ _ h => .inl h⟩
  trans _ _ _ h h' := by
    constructor
    · intro refId f hf
      rcases h'.refs refId f hf with hmid | hhere
      · exact h.refs refId f hmid
      · exact .inr hhere
    · intro key k hk
      rcases h'.checks key k hk with hmid | hhere
      · exact h.checks key k hmid
      · exact .inr hhere

/-! ### Reading calls -/

section reads

variable {now : Instant} {fence : Option Fence} {db db' : FactStore δ}

theorem assertFence_reads (now : Instant) (fence : Option Fence) :
    Tx.Keeps (· = ·) (assertFence now fence : RecordTx δ Unit) := by
  unfold assertFence
  refine Tx.Keeps.bind (Tx.Keeps.query _) ?_
  intro passed
  exact Tx.Keeps.ofExcept _

theorem onRecords_reads {α : Type} {m : RecordTx δ α} (h : Tx.Keeps (· = ·) m) : Tx.Keeps (· = ·) (onRecords m) := by
  refine Tx.Keeps.within h ?_
  intro s t ht
  rw [← ht]

theorem context_reads (now : Instant) (fence : Option Fence) : Tx.Keeps (· = ·) (context now fence : FactTx δ Caller) := by
  unfold context
  refine Tx.Keeps.bind (Tx.Keeps.demand _ _) ?_
  intro f
  refine Tx.Keeps.bind (onRecords_reads (assertFence_reads _ _)) ?_
  intro _
  refine Tx.Keeps.bind (Tx.Keeps.query _) ?_
  intro locked
  refine Tx.Keeps.bind (Tx.Keeps.ofExcept _) ?_
  intro _
  refine Tx.Keeps.bind (Tx.Keeps.query _) ?_
  intro found
  refine Tx.Keeps.bind (Tx.Keeps.demand _ _) ?_
  intro run
  refine Tx.Keeps.bind (Tx.Keeps.query _) ?_
  intro row
  refine Tx.Keeps.bind (Tx.Keeps.demand _ _) ?_
  intro x
  exact Tx.Keeps.pure _

/-- The caller has the fence of the call, and its Run and its Execution are those of the store. -/
structure Caller.Found (db : FactStore δ) (fence : Option Fence) (c : Caller) : Prop where
  fence : fence = some c.fence
  run : db.records.base.runs c.fence.runId = some c.run
  account : c.run.accountId = c.fence.accountId
  execution : db.executions.lookup c.fence.executionId = some c.execution
  owner : c.execution.accountId = c.fence.accountId ∧ c.execution.runId = c.fence.runId

theorem context_ok {c : Caller} (h : (context now fence).run db = .ok (c, db')) : db = db' ∧ c.Found db fence := by
  have hsame : db = db' := context_reads _ _ _ _ _ h
  refine ⟨hsame, ?_⟩
  unfold context at h
  rw [Tx.bind_demand_ok] at h
  obtain ⟨f, rfl, h⟩ := h
  rw [Tx.bind_ok] at h
  obtain ⟨_, db₁, hfence, h⟩ := h
  obtain rfl : db = db₁ := onRecords_reads (assertFence_reads _ _) _ _ _ hfence
  rw [Tx.bind_query_ok, Tx.bind_ofExcept_ok] at h
  obtain ⟨_, -, h⟩ := h
  rw [Tx.bind_query_ok, Tx.bind_demand_ok] at h
  obtain ⟨run, hrun, h⟩ := h
  rw [Tx.bind_query_ok, Tx.bind_demand_ok] at h
  obtain ⟨x, hx, h⟩ := h
  obtain ⟨rfl, -⟩ := Tx.pure_ok.mp h
  obtain ⟨hrow, haccount⟩ := Option.filter_eq_some_iff.mp hrun
  obtain ⟨hexecution, howner⟩ := Option.filter_eq_some_iff.mp hx
  exact ⟨rfl, hrow, of_decide_eq_true haccount, hexecution, of_decide_eq_true howner⟩

theorem readRef_reads (now : Instant) (fence : Option Fence) (refId : Uuid) :
    Tx.Keeps (· = ·) (readRef now fence refId : FactTx δ RefRow) := by
  unfold readRef
  refine Tx.Keeps.bind (context_reads _ _) ?_
  intro c
  refine Tx.Keeps.bind (Tx.Keeps.query _) ?_
  intro found
  refine Tx.Keeps.bind (Tx.Keeps.demand _ _) ?_
  rintro ⟨f, r, i⟩
  refine Tx.Keeps.bind (Tx.Keeps.query _) ?_
  intro handed
  refine Tx.Keeps.bind (Tx.Keeps.check _ _) ?_
  intro _
  refine Tx.Keeps.bind (Tx.Keeps.query _) ?_
  intro adopted
  refine Tx.Keeps.bind (Tx.Keeps.check _ _) ?_
  intro _
  refine Tx.Keeps.bind (Tx.Keeps.query _) ?_
  intro w
  refine Tx.Keeps.bind (Tx.Keeps.ofExcept _) ?_
  intro _
  exact Tx.Keeps.pure _

theorem readRefs_reads (now : Instant) (fence : Option Fence) (refs : List Uuid) :
    Tx.Keeps (· = ·) (readRefs now fence refs : FactTx δ Unit) := by
  refine Tx.Keeps.foldlM ?_ refs ()
  intro _ refId
  refine Tx.Keeps.bind (readRef_reads _ _ _) ?_
  intro _
  exact Tx.Keeps.pure ()

theorem readResult_reads (now : Instant) (fence : Option Fence) (invocation : String) :
    Tx.Keeps (· = ·) (readResult now fence invocation : FactTx δ CapabilityResult) := by
  unfold readResult
  refine Tx.Keeps.bind (context_reads _ _) ?_
  intro c
  refine Tx.Keeps.bind (Tx.Keeps.query _) ?_
  intro found
  refine Tx.Keeps.bind (Tx.Keeps.demand _ _) ?_
  intro r
  refine Tx.Keeps.bind (readRefs_reads _ _ _) ?_
  intro _
  exact Tx.Keeps.pure _

theorem authorizeScope_reads (now : Instant) (c : Caller) (d : Descriptor) :
    Tx.Keeps (· = ·) (authorizeScope now c d : FactTx δ Unit) := by
  unfold authorizeScope
  refine Tx.Keeps.bind (Tx.Keeps.query _) ?_
  intro w
  refine Tx.Keeps.bind (Tx.Keeps.check _ _) ?_
  intro _
  refine Tx.Keeps.bind (Tx.Keeps.check _ _) ?_
  intro _
  exact readRefs_reads _ _ _

theorem admitInUow_reads (capacity : CapacityConfig) (headroom : Verdict) (c : Caller) (operation : String) :
    Tx.Keeps (· = ·) (admitInUow capacity headroom c operation : FactTx δ Unit) := by
  unfold admitInUow
  refine Tx.Keeps.bind (Tx.Keeps.query _) ?_
  intro admitted
  refine Tx.Keeps.bind (Tx.Keeps.ofExcept _) ?_
  intro _
  refine Tx.Keeps.bind (Tx.Keeps.query _) ?_
  intro known
  refine Tx.Keeps.bind (Tx.Keeps.query _) ?_
  intro free
  refine Tx.Keeps.bind (Tx.Keeps.check _ _) ?_
  intro _
  exact Tx.Keeps.ofExcept _

end reads

/-! ### Writing statements -/

section writes

variable {db db' : FactStore δ} {u : Unit}

theorem insertInvocation_ok {operation : String} {i : Invocation δ} (h : (insertInvocation operation i).run db = .ok (u, db')) :
    db.invocations.lookup operation = none ∧ i.Owned db operation ∧
      db' = { db with invocations := db.invocations.insert operation i } := by
  unfold insertInvocation at h
  rw [Tx.bind_query_ok, Tx.bind_check_ok] at h
  obtain ⟨hallowed, h⟩ := h
  rw [Tx.bind_query_ok, Tx.bind_check_ok] at h
  obtain ⟨hfree, h⟩ := h
  rw [Tx.bind_query_ok, Tx.bind_check_ok, Tx.update_ok] at h
  obtain ⟨howned, rfl⟩ := h
  have hnone : db.invocations.lookup operation = none := by
    rw [Bool.or_eq_false_iff] at hfree
    exact Option.isSome_eq_false_iff.mp hfree.1 |> Option.isNone_iff_eq_none.mp
  have htool : (db.records.operations.lookup operation).any (fun o => o.provenance.operationType = "tool") = true := by
    unfold invocationAllowed at hallowed
    simp only [Bool.and_eq_true] at hallowed
    obtain ⟨⟨⟨⟨-, -⟩, htool⟩, -⟩, -⟩ := hallowed
    rw [Option.any_eq_true] at htool ⊢
    obtain ⟨o, ho, htype⟩ := htool
    rw [Bool.and_eq_true] at htype
    exact ⟨o, ho, htype.1⟩
  refine ⟨hnone, ?_, rfl⟩
  obtain ⟨o, ho, howner⟩ := (Option.any_eq_true _ _).mp howned
  obtain ⟨o', ho', htype⟩ := (Option.any_eq_true _ _).mp htool
  obtain rfl := Option.some.inj (ho.symm.trans ho')
  obtain ⟨haccount, hrun, hexecution⟩ := of_decide_eq_true howner
  exact ⟨o, ho, haccount, hrun, hexecution, of_decide_eq_true htype⟩

theorem insertExecution_ok {child : Uuid} {operation : String} {x : ExecutionRow}
    (h : (insertExecution child operation x).run db = .ok (u, db')) :
    db.executions.lookup child = none ∧ db'.executions = db.executions.insert child x ∧
      db'.records.operations = db.records.operations ∧ db'.records.base.runs = db.records.base.runs ∧
      db'.invocations = db.invocations ∧ db'.inputRefs = db.inputRefs ∧ db'.results = db.results ∧
      db'.resultRefs = db.resultRefs ∧ db'.checks = db.checks ∧ db'.adoptions = db.adoptions ∧
      db'.observations = db.observations := by
  unfold insertExecution at h
  rw [Tx.bind_query_ok, Tx.bind_check_ok] at h
  obtain ⟨hfree, h⟩ := h
  rw [Tx.bind_query_ok, Tx.bind_check_ok, Tx.update_ok] at h
  obtain ⟨-, rfl⟩ := h
  rw [Bool.or_eq_false_iff] at hfree
  refine ⟨?_, rfl, rfl, rfl, rfl, rfl, rfl, rfl, rfl, rfl, rfl⟩
  exact Option.isSome_eq_false_iff.mp hfree.1 |> Option.isNone_iff_eq_none.mp

/-- Only the references handed to invocations change. -/
structure Notes (db db' : FactStore δ) : Prop where
  same : db' = { db with inputRefs := db'.inputRefs }
  inputRefs : Table.Extends db.inputRefs db'.inputRefs

instance : IsPreorder (FactStore δ) Notes where
  refl _ := ⟨rfl, refl_of Table.Extends _⟩
  trans _ _ c h h' :=
    ⟨h'.same.trans (congrArg (fun s : FactStore δ => { s with inputRefs := c.inputRefs }) h.same),
      trans_of Table.Extends h.inputRefs h'.inputRefs⟩

theorem insertInputRef_notes (account : Uuid) (operation : String) (refId : Uuid) :
    Tx.Keeps Notes (insertInputRef account operation refId : FactTx δ Unit) := by
  intro db u db' h
  unfold insertInputRef at h
  rw [Tx.bind_query_ok, Tx.bind_check_ok] at h
  obtain ⟨-, h⟩ := h
  rw [Tx.bind_query_ok, Tx.bind_check_ok, Tx.update_ok] at h
  obtain ⟨hfree, rfl⟩ := h
  rw [Bool.and_eq_true] at hfree
  exact ⟨rfl, Table.extends_insert (Option.isNone_iff_eq_none.mp hfree.1)⟩

/-- Rows outside the changed tables do not matter to what grows. -/
theorem Notes.grows (h : Notes db db') : Grows db db' := by
  rw [h.same]
  exact ⟨refl_of Moves _, fun _ r hr => ⟨r, hr, rfl, rfl⟩, fun _ x hx => ⟨x, hx, rfl⟩, refl_of Table.Extends _,
    h.inputRefs, refl_of Table.Extends _, refl_of Table.Extends _, refl_of Table.Extends _, refl_of Table.Extends _,
    refl_of Table.Extends _⟩

theorem Notes.evolves {host : Host δ} (h : Notes db db') : Evolves host db db' := by
  refine ⟨h.grows, ?_⟩
  intro hdb
  rw [h.same]
  exact ⟨hdb.owned, hdb.parents, hdb.called, hdb.produced, hdb.producers, hdb.seen, hdb.bound, hdb.published⟩

end writes

section calls

variable [DecidableEq δ] {host : Host δ} {db db' : FactStore δ} {u : Unit}

/-- What a call registered: its invocation under its operation, with the child and the references handed to it. -/
structure Registered (host : Host δ) (db db' : FactStore δ) (operation : String) (v : Invocation δ) : Prop where
  fresh : db.invocations.lookup operation = none
  stored : db'.invocations.lookup operation = some v
  evolves : Evolves host db db'
  refs : db'.resultRefs = db.resultRefs
  checks : db'.checks = db.checks

omit [DecidableEq δ] in
/-- A new invocation and its child. -/
theorem Registered.intro {db₁ db₂ : FactStore δ} {operation : String}
    (hchild : v.childExecutionId = host.childId operation)
    (h₁ : (insertInvocation operation v).run db = .ok (u, db₁))
    (h₂ : (insertExecution v.childExecutionId operation (v.child operation)).run db₁ = .ok (u, db₂)) :
    Registered host db db₂ operation v := by
  obtain ⟨hfresh, howned, rfl⟩ := insertInvocation_ok h₁
  obtain ⟨hfree, hexecutions, hoperations, hruns, hinvocations, hinputs, hresults, hrefs, hchecks, hadoptions,
    hobservations⟩ := insertExecution_ok h₂
  have hstored : db₂.invocations.lookup operation = some v := by
    rw [hinvocations]
    exact AList.lookup_insert _
  have hgrows : Grows db db₂ := by
    refine ⟨Moves.of_operations hoperations, ?_, ?_, ?_, .of_eq hinputs, .of_eq hresults, .of_eq hrefs, .of_eq hchecks,
      .of_eq hadoptions, .of_eq hobservations⟩
    · intro id r hr
      rw [hruns]
      exact ⟨r, hr, rfl, rfl⟩
    · intro id x hx
      rw [hexecutions]
      exact ⟨x, Table.extends_insert hfree id x hx, rfl⟩
    · rw [hinvocations]
      exact Table.extends_insert hfresh
  refine ⟨hfresh, hstored, ⟨hgrows, ?_⟩, hrefs, hchecks⟩
  intro hdb
  apply hdb.grow hgrows
  · intro j i hi
    rw [hinvocations, Table.lookup_insert_ite] at hi
    split at hi
    · next hj =>
        obtain rfl := Option.some.inj hi
        subst hj
        refine .inr ⟨howned.mono hgrows, hchild, v.child j, ?_, rfl⟩
        rw [hexecutions]
        exact AList.lookup_insert _
    · exact .inl hi
  · intro id x hx
    rw [hexecutions, Table.lookup_insert_ite] at hx
    split at hx
    · next hid =>
        obtain rfl := Option.some.inj hx
        right
        intro j hj
        obtain rfl := Option.some.inj hj
        exact ⟨v, hstored, hid.symm⟩
    · exact .inl ⟨x, hx, rfl⟩
  · intro invocation r hr
    rw [hresults] at hr
    exact .inl hr
  · intro invocation invocation' r r' hr hr' hnone
    rw [hresults] at hr
    exact absurd (hr.symm.trans hnone) (by simp)
  · intro invocation ob hob
    rw [hobservations] at hob
    exact .inl hob
  · intro key a ha
    rw [hadoptions] at ha
    exact .inl ha
  · intro refId f hf
    rw [hrefs] at hf
    exact .inl hf

omit [DecidableEq δ] in
theorem register_ok {now : Instant} {c : Caller} {i : CreateInput} {d : Descriptor}
    (h : (register host now c i d).run db = .ok (v, db')) :
    v = i.invocation host c d ∧ Registered host db db' i.operationId v := by
  unfold register at h
  rw [Tx.bind_query_ok, Tx.bind_ofExcept_ok] at h
  obtain ⟨_, -, h⟩ := h
  rw [Tx.bind_ok] at h
  obtain ⟨_, db₀, hscope, h⟩ := h
  obtain rfl : db = db₀ := authorizeScope_reads _ _ _ _ _ _ hscope
  rw [Tx.bind_ok] at h
  obtain ⟨_, db₁, h₁, h⟩ := h
  rw [Tx.bind_ok] at h
  obtain ⟨_, db₂, h₂, h⟩ := h
  rw [Tx.bind_ok] at h
  obtain ⟨_, db₃, hnotes, h⟩ := h
  obtain ⟨rfl, rfl⟩ := Tx.pure_ok.mp h
  have hnew : Registered host db db₂ i.operationId (i.invocation host c d) := Registered.intro rfl h₁ h₂
  have hlast : Notes db₂ db₃ :=
    Tx.Keeps.foldlM (fun _ refId => insertInputRef_notes _ _ refId) _ () _ _ _ hnotes
  refine ⟨rfl, hnew.fresh, hlast.grows.invocations _ _ hnew.stored, trans_of (Evolves host) hnew.evolves hlast.evolves, ?_, ?_⟩
  · rw [hlast.same]
    exact hnew.refs
  · rw [hlast.same]
    exact hnew.checks

/-- The invocation is the one these arguments describe, called by this fence. -/
def CreateInput.Describes (host : Host δ) (fence : Option Fence) (facts : CapabilityFacts) (i : CreateInput)
    (v : Invocation δ) : Prop :=
  (∃ f, fence = some f ∧ v.accountId = f.accountId ∧ v.runId = f.runId ∧ v.callerExecutionId = f.executionId) ∧
    ∃ d, facts.registry.get i.capabilityKey i.contractVersion = .ok d ∧
      ∃ descriptor, describe host facts.atomicTools d i = .ok descriptor ∧ sameDescriptor host v.descriptor descriptor

omit [DecidableEq δ] in
/-- `create` found the invocation, which is described by its arguments, or registered it. -/
theorem create_ok {fence : Option Fence} {i : CreateInput}
    (hdb : Identified host db) (h : (create host clock fence facts i).run db = .ok (v, db')) :
    i.Describes host fence facts v ∧
      (db.invocations.lookup i.operationId = some v ∧ db' = db ∨ Registered host db db' i.operationId v) := by
  unfold create at h
  rw [Tx.bind_ok] at h
  obtain ⟨c, db₀, hcontext, h⟩ := h
  obtain ⟨rfl, hfound⟩ := context_ok hcontext
  rw [Tx.bind_check_ok] at h
  obtain ⟨-, h⟩ := h
  rw [Tx.bind_check_ok] at h
  obtain ⟨-, h⟩ := h
  rw [Tx.bind_ofExcept_ok] at h
  obtain ⟨definition, hdefinition, h⟩ := h
  rw [Tx.bind_check_ok] at h
  obtain ⟨-, h⟩ := h
  rw [Tx.bind_check_ok] at h
  obtain ⟨-, h⟩ := h
  rw [Tx.bind_ofExcept_ok] at h
  obtain ⟨descriptor, hdescriptor, h⟩ := h
  rw [Tx.bind_query_ok, Tx.bind_check_ok] at h
  obtain ⟨htool, h⟩ := h
  rw [Tx.bind_ofExcept_ok] at h
  obtain ⟨_, -, h⟩ := h
  rw [Tx.bind_query_ok] at h
  split at h
  · next p hprior =>
      rw [Tx.bind_check_ok] at h
      obtain ⟨hsame, h⟩ := h
      obtain ⟨rfl, rfl⟩ := Tx.pure_ok.mp h
      refine ⟨⟨⟨c.fence, hfound.fence, ?_⟩, definition, hdefinition, descriptor, hdescriptor, hsame⟩, .inl ⟨hprior, rfl⟩⟩
      -- the operation of the caller is the one the invocation belongs to
      obtain ⟨o, ho, -⟩ := (Option.any_eq_true _ _).mp htool
      obtain ⟨hrow, howner⟩ := Option.filter_eq_some_iff.mp ho
      obtain ⟨haccount, hrun, hexecution⟩ := of_decide_eq_true howner
      obtain ⟨o', ho', haccount', hrun', hexecution', -⟩ := hdb.owned _ _ hprior
      obtain rfl := Option.some.inj (hrow.symm.trans ho')
      exact ⟨haccount'.symm.trans haccount, hrun'.symm.trans hrun, hexecution'.symm.trans hexecution⟩
  · obtain ⟨rfl, hregistered⟩ := register_ok h
    exact ⟨⟨⟨c.fence, hfound.fence, rfl, rfl, rfl⟩, definition, hdefinition, descriptor, hdescriptor, rfl, fun _ _ => rfl, rfl, rfl⟩,
      .inr hregistered⟩

/-- The invocation is the one these arguments of a tool call stand for, called by this fence. -/
def PrepareInput.Describes (host : Host δ) (fence : Option Fence) (i : PrepareInput) (v : Invocation δ) : Prop :=
  (∃ f, fence = some f ∧ v.accountId = f.accountId ∧ v.runId = f.runId ∧ v.callerExecutionId = f.executionId) ∧
    v.capabilityKey = i.binding.key ∧ v.contractVersion = i.binding.contractVersion ∧
    ∃ inputs, normalizeInputs host i.arguments v.descriptor.definition.inputSchema = .ok inputs ∧
      samePayload host v.descriptor.inputs inputs ∧ resourceScope host (i.binding.scope inputs) = .ok v.descriptor.resourceScope

omit [DecidableEq δ] in
/-- `_prepare` found the invocation its arguments stand for, or created one. -/
theorem prepare_ok {fence : Option Fence} {i : PrepareInput}
    (hdb : Identified host db) (h : (prepare host clock fence facts i).run db = .ok (v, db')) :
    (db.invocations.lookup i.operationId = some v ∧ db' = db ∧ i.Describes host fence v) ∨
      Registered host db db' i.operationId v := by
  unfold prepare at h
  rw [Tx.bind_ofExcept_ok] at h
  obtain ⟨registered, -, h⟩ := h
  rw [Tx.bind_ok] at h
  obtain ⟨c, db₀, hcontext, h⟩ := h
  obtain ⟨rfl, hfound⟩ := context_ok hcontext
  rw [Tx.bind_check_ok] at h
  obtain ⟨-, h⟩ := h
  rw [Tx.bind_query_ok] at h
  split at h
  · next p hprior =>
      rw [Tx.bind_ofExcept_ok] at h
      obtain ⟨inputs, hinputs, h⟩ := h
      rw [Tx.bind_ok] at h
      obtain ⟨_, db₁, hadmit, h⟩ := h
      obtain rfl : db = db₁ := admitInUow_reads _ _ _ _ _ _ _ hadmit
      rw [Tx.bind_check_ok] at h
      obtain ⟨⟨haccount, hrun, hcaller, hkey, hversion, hsame⟩, h⟩ := h
      rw [Tx.bind_ofExcept_ok] at h
      obtain ⟨scope, hscope, h⟩ := h
      rw [Tx.bind_check_ok] at h
      obtain ⟨hsameScope, h⟩ := h
      obtain ⟨rfl, rfl⟩ := Tx.pure_ok.mp h
      refine .inl ⟨hprior, rfl, ⟨c.fence, hfound.fence, haccount, hrun, hcaller⟩, hkey, hversion, inputs, hinputs, hsame, ?_⟩
      rw [hsameScope]
      exact hscope
  · next hnone =>
      rw [Tx.bind_ofExcept_ok] at h
      obtain ⟨inputs, -, h⟩ := h
      rw [Tx.bind_ofExcept_ok] at h
      obtain ⟨_, -, h⟩ := h
      rw [Tx.bind_check_ok] at h
      obtain ⟨-, h⟩ := h
      rw [Tx.bind_ofExcept_ok] at h
      obtain ⟨_, -, h⟩ := h
      rw [Tx.bind_ok] at h
      obtain ⟨_, db₁, hadmit, h⟩ := h
      obtain rfl : db = db₁ := admitInUow_reads _ _ _ _ _ _ _ hadmit
      rcases (create_ok hdb h).2 with ⟨hstored, -⟩ | hregistered
      · rw [hnone] at hstored
        cases hstored
      · exact .inr hregistered

/-! ### Publishing -/

/-- The operation of a result is completed with it, and only operations move. -/
theorem completeResult_ok {f : Fence} {operation ref : String} {payload : Payload}
    (h : (onRecords (completeOperation host.resultDigest clock (some f) operation ref payload)).run db = .ok (u, db')) :
    (∃ records : RecordStore δ, db' = { db with records := records } ∧ records.base = db.records.base ∧
      Moves db.records records) ∧
    ∃ o, db'.records.operations.lookup operation = some o ∧ o.status = .completed ∧ o.resultPayload = some payload := by
  obtain ⟨records, hrun, rfl⟩ := Tx.within_ok.mp h
  have hmoves := (completeOperation_quiet host.resultDigest _ _ _ _ _ _ _ _ hrun).moves
  obtain ⟨-, -, o, ho, ⟨hcompleted, -, hpayload, hsame⟩ | ⟨-, v, db₁, hreceipt, hsame⟩⟩ := completeOperation_parts _ hrun
  · rw [hsame] at hmoves ⊢
    exact ⟨⟨db.records, rfl, rfl, hmoves⟩, o, ho, hcompleted, hpayload⟩
  · have hbase : db₁.base = db.records.base := by
      obtain ⟨a, r, -, -, -, -, rfl | ⟨-, -, rfl⟩⟩ := receiptOf_ok _ hreceipt <;> rfl
    refine ⟨⟨records, rfl, ?_, hmoves⟩, o.complete ref payload, ?_, rfl, rfl⟩
    · rw [hsame]
      exact hbase
    · show records.operations.lookup operation = _
      rw [hsame]
      exact AList.lookup_insert _

omit [DecidableEq δ] in
/-- Operations that move keep everything else in order. -/
theorem evolves_records {records : RecordStore δ} (hmoves : Moves db.records records)
    (hruns : ∀ id r, db.records.base.runs id = some r →
      ∃ r', records.base.runs id = some r' ∧ r'.accountId = r.accountId ∧ r'.source = r.source) :
    Evolves host db { db with records := records } := by
  have hgrows : Grows db { db with records := records } :=
    ⟨hmoves, hruns, fun _ x hx => ⟨x, hx, rfl⟩, refl_of Table.Extends _, refl_of Table.Extends _, refl_of Table.Extends _,
      refl_of Table.Extends _, refl_of Table.Extends _, refl_of Table.Extends _, refl_of Table.Extends _⟩
  refine ⟨hgrows, ?_⟩
  intro hdb
  refine hdb.grow hgrows (fun _ _ h => .inl h) (fun _ x h => .inl ⟨x, h, rfl⟩) (fun _ _ h => .inl h) ?_
    (fun _ _ h => .inl h) (fun _ _ h => .inl h) (fun _ _ h => .inl h)
  intro invocation _ r _ hr _ hnone
  have hr : db.results.lookup invocation = some r := hr
  rw [hnone] at hr
  cases hr

variable (host) in
omit [DecidableEq δ] in
theorem insertResult_ok {invocation : String} {r : ResultRow}
    (h : (insertResult invocation r).run db = .ok (u, db')) :
    db.results.lookup invocation = none ∧ db' = { db with results := db.results.insert invocation r } ∧
      Evolves host db db' := by
  unfold insertResult at h
  rw [Tx.bind_query_ok, Tx.bind_check_ok] at h
  obtain ⟨hcommitted, h⟩ := h
  rw [Tx.bind_query_ok, Tx.bind_check_ok] at h
  obtain ⟨hfree, h⟩ := h
  rw [Tx.bind_query_ok, Tx.bind_check_ok, Tx.update_ok] at h
  obtain ⟨howned, rfl⟩ := h
  rw [Bool.or_eq_false_iff] at hfree
  have hnone : db.results.lookup invocation = none := Option.isNone_iff_eq_none.mp (Option.isSome_eq_false_iff.mp hfree.1)
  refine ⟨hnone, rfl, ?_⟩
  have hgrows : Grows db { db with results := db.results.insert invocation r } :=
    ⟨refl_of Moves _, fun _ r hr => ⟨r, hr, rfl, rfl⟩, fun _ x hx => ⟨x, hx, rfl⟩, refl_of Table.Extends _,
      refl_of Table.Extends _, Table.extends_insert hnone, refl_of Table.Extends _, refl_of Table.Extends _,
      refl_of Table.Extends _, refl_of Table.Extends _⟩
  have hproduced : r.Produced db invocation := by
    rw [Bool.and_eq_true] at howned
    obtain ⟨i, hi, howner⟩ := (Option.any_eq_true _ _).mp howned.1
    obtain ⟨o, ho, hdone⟩ := (Option.any_eq_true _ _).mp hcommitted
    obtain ⟨hcompleted, hpayload, -⟩ := of_decide_eq_true hdone
    exact ⟨⟨i, hi, of_decide_eq_true howner⟩, o, ho, hcompleted, hpayload⟩
  have hother : ∀ j r', db.results.lookup j = some r' → r'.producingOperationId ≠ r.producingOperationId := by
    intro j r' hr' hsame
    have hmem : (⟨j, r'⟩ : Sigma fun _ : String => ResultRow) ∈ db.results.entries := AList.mem_lookup_iff.mp hr'
    have hany : db.results.entries.any (fun e => e.2.producingOperationId = r.producingOperationId) = true :=
      List.any_eq_true.mpr ⟨_, hmem, decide_eq_true hsame⟩
    rw [hfree.2] at hany
    cases hany
  refine ⟨hgrows, ?_⟩
  intro hdb
  refine hdb.grow hgrows (fun _ _ h => .inl h) (fun _ x h => .inl ⟨x, h, rfl⟩) ?_ ?_ (fun _ _ h => .inl h)
    (fun _ _ h => .inl h) (fun _ _ h => .inl h)
  · intro j r' hr'
    have hr' : (db.results.insert invocation r).lookup j = some r' := hr'
    rw [Table.lookup_insert_ite] at hr'
    split at hr'
    · next hj =>
        obtain rfl := Option.some.inj hr'
        subst hj
        exact .inr ⟨hproduced.mono hgrows, hother⟩
    · exact .inl hr'
  · intro j j' r₁ r₂ h₁ h₂ hnone₁ hnone₂
    have h₁ : (db.results.insert invocation r).lookup j = some r₁ := h₁
    have h₂ : (db.results.insert invocation r).lookup j' = some r₂ := h₂
    rw [Table.lookup_insert_ite] at h₁ h₂
    split at h₁
    · next hj =>
        split at h₂
        · next hj' => exact hj.trans hj'.symm
        · rw [hnone₂] at h₂
          cases h₂
    · rw [hnone₁] at h₁
      cases h₁

variable (host) in
omit [DecidableEq δ] in
/-- Nothing but references, checks and the results of Executions changes, and these under one invocation. -/
theorem insertResultRef_ok {refId : Uuid} {f : RefRow} (h : (insertResultRef refId f).run db = .ok (u, db')) :
    Evolves host db db' ∧ Beyond f.invocationId db db' ∧ db'.results = db.results := by
  unfold insertResultRef at h
  rw [Tx.bind_query_ok, Tx.bind_check_ok] at h
  obtain ⟨hcommitted, h⟩ := h
  rw [Tx.bind_query_ok, Tx.bind_check_ok] at h
  obtain ⟨-, h⟩ := h
  rw [Tx.bind_query_ok, Tx.bind_check_ok, Tx.update_ok] at h
  obtain ⟨hfree, rfl⟩ := h
  have hnone : db.resultRefs.lookup refId = none := Option.isNone_iff_eq_none.mp (Option.isSome_eq_false_iff.mp hfree)
  have hgrows : Grows db { db with resultRefs := db.resultRefs.insert refId f } :=
    ⟨refl_of Moves _, fun _ r hr => ⟨r, hr, rfl, rfl⟩, fun _ x hx => ⟨x, hx, rfl⟩, refl_of Table.Extends _,
      refl_of Table.Extends _, refl_of Table.Extends _, Table.extends_insert hnone, refl_of Table.Extends _,
      refl_of Table.Extends _, refl_of Table.Extends _⟩
  have hpublished : f.Published db refId := by
    obtain ⟨r, hr, hrest⟩ := (Option.any_eq_true _ _).mp hcommitted
    rw [Bool.and_eq_true] at hrest
    obtain ⟨o, ho, hsame⟩ := List.any_eq_true.mp hrest.2
    rw [Bool.and_eq_true] at hsame
    exact ⟨r, hr, o, ho, of_decide_eq_true hsame.1, of_decide_eq_true hsame.2⟩
  have hlookup : ∀ j g, (db.resultRefs.insert refId f).lookup j = some g →
      db.resultRefs.lookup j = some g ∨ j = refId ∧ g = f := by
    intro j g hg
    rw [Table.lookup_insert_ite] at hg
    split at hg
    · next hj => exact .inr ⟨hj, (Option.some.inj hg).symm⟩
    · exact .inl hg
  refine ⟨⟨hgrows, ?_⟩, ⟨?_, fun _ _ hk => .inl hk⟩, rfl⟩
  · intro hdb
    refine hdb.grow hgrows (fun _ _ h => .inl h) (fun _ x h => .inl ⟨x, h, rfl⟩) (fun _ _ h => .inl h) ?_
      (fun _ _ h => .inl h) (fun _ _ h => .inl h) ?_
    · intro invocation _ r _ hr _ hnone
      have hr : db.results.lookup invocation = some r := hr
      rw [hnone] at hr
      cases hr
    · intro j g hg
      rcases hlookup j g hg with hold | ⟨rfl, rfl⟩
      · exact .inl hold
      · exact .inr (hpublished.mono hgrows)
  · intro j g hg
    rcases hlookup j g hg with hold | ⟨-, rfl⟩
    · exact .inl hold
    · exact .inr rfl

variable (host) in
omit [DecidableEq δ] in
theorem insertCheck_ok {invocation : String} {k : Check}
    (h : (insertCheck account invocation k).run db = .ok (u, db')) :
    Evolves host db db' ∧ Beyond invocation db db' := by
  unfold insertCheck at h
  rw [Tx.bind_query_ok, Tx.bind_check_ok] at h
  obtain ⟨-, h⟩ := h
  rw [Tx.bind_query_ok, Tx.bind_check_ok, Tx.update_ok] at h
  obtain ⟨hfree, rfl⟩ := h
  refine ⟨⟨?_, ?_⟩, ⟨fun _ _ hf => .inl hf, ?_⟩⟩
  · exact ⟨refl_of Moves _, fun _ r hr => ⟨r, hr, rfl, rfl⟩, fun _ x hx => ⟨x, hx, rfl⟩, refl_of Table.Extends _,
      refl_of Table.Extends _, refl_of Table.Extends _, refl_of Table.Extends _,
      Table.extends_insert (Option.isNone_iff_eq_none.mp (Option.isSome_eq_false_iff.mp hfree)), refl_of Table.Extends _,
      refl_of Table.Extends _⟩
  · intro hdb
    exact ⟨hdb.owned, hdb.parents, hdb.called, hdb.produced, hdb.producers, hdb.seen, hdb.bound, hdb.published⟩
  · intro key v hv
    have hv : (db.checks.insert (invocation, k.verifierKey, k.verifierVersion, k.subjectRef)
      ⟨account, k.evidenceRef, k.verdict⟩).lookup key = some v := hv
    rw [Table.lookup_insert_ite] at hv
    split at hv
    · next hkey => exact .inr (by rw [hkey])
    · exact .inl hv

omit [DecidableEq δ] in
/-- The result of an Execution is no part of what identifies it. -/
theorem setResultRef_evolves (execution : Uuid) (ref : String) :
    Evolves host db
      { db with executions := Table.modify execution (fun x => { x with resultRef := some ref }) db.executions } := by
  have hlookup : ∀ id, (Table.modify execution (fun x => { x with resultRef := some ref }) db.executions).lookup id =
      if id = execution then (db.executions.lookup execution).map fun x => { x with resultRef := some ref }
      else db.executions.lookup id := fun id => Table.lookup_modify _ _ _ _
  have hgrows : Grows db
      { db with executions := Table.modify execution (fun x => { x with resultRef := some ref }) db.executions } := by
    refine ⟨refl_of Moves _, fun _ r hr => ⟨r, hr, rfl, rfl⟩, ?_, refl_of Table.Extends _, refl_of Table.Extends _,
      refl_of Table.Extends _, refl_of Table.Extends _, refl_of Table.Extends _, refl_of Table.Extends _,
      refl_of Table.Extends _⟩
    intro id x hx
    dsimp only
    rw [hlookup]
    split
    · next hid =>
        rw [← hid, hx]
        exact ⟨_, rfl, rfl⟩
    · exact ⟨x, hx, rfl⟩
  refine ⟨hgrows, ?_⟩
  intro hdb
  refine hdb.grow hgrows (fun _ _ h => .inl h) ?_ (fun _ _ h => .inl h) ?_ (fun _ _ h => .inl h) (fun _ _ h => .inl h)
    (fun _ _ h => .inl h)
  · intro id x' hx'
    dsimp only at hx'
    rw [hlookup] at hx'
    left
    split at hx'
    · next hid =>
        obtain ⟨x, hx, rfl⟩ := Option.map_eq_some_iff.mp hx'
        rw [hid]
        exact ⟨x, hx, rfl⟩
    · exact ⟨x', hx', rfl⟩
  · intro invocation _ r _ hr _ hnone
    have hr : db.results.lookup invocation = some r := hr
    rw [hnone] at hr
    cases hr

variable (host) in
omit [DecidableEq δ] in
theorem insertResultRefs_ok {invocation : String} {outputs : List ResultRef}
    (h : (outputs.foldlM (fun _ o => insertResultRef o.refId (o.row account invocation)) ()).run db = .ok (u, db')) :
    Evolves host db db' ∧ Beyond invocation db db' := by
  constructor
  · exact Tx.Keeps.foldlM (R := Evolves host) (fun _ o s v s' hs => (insertResultRef_ok host hs).1) outputs () _ _ _ h
  · exact Tx.Keeps.foldlM (R := Beyond invocation) (fun _ o s v s' hs => (insertResultRef_ok host hs).2.1) outputs () _ _ _ h

variable (host) in
omit [DecidableEq δ] in
theorem insertChecks_ok {invocation : String} {checks : List Check}
    (h : (checks.foldlM (fun _ k => insertCheck account invocation k) ()).run db = .ok (u, db')) :
    Evolves host db db' ∧ Beyond invocation db db' := by
  constructor
  · exact Tx.Keeps.foldlM (R := Evolves host) (fun _ k s v s' hs => (insertCheck_ok host hs).1) checks () _ _ _ h
  · exact Tx.Keeps.foldlM (R := Beyond invocation) (fun _ k s v s' hs => (insertCheck_ok host hs).2) checks () _ _ _ h

/-- What a call published: its result under its invocation, with references and checks. -/
structure ResultPublished (host : Host δ) (db db' : FactStore δ) (invocation : String) (r : ResultRow) : Prop where
  fresh : db.results.lookup invocation = none
  stored : db'.results.lookup invocation = some r
  evolves : Evolves host db db'
  beyond : Beyond invocation db db'

theorem commitResult_ok {progress : Verdict} {c : Caller} {i : PublishInput}
    (h : (commitResult host clock progress c i).run db = .ok (u, db')) :
    ResultPublished host db db' i.invocationId
      ⟨c.fence.accountId, c.fence.runId, c.fence.executionId, i.producingOperationId, i.payload c.fence.executionId⟩ := by
  unfold commitResult at h
  rw [Tx.bind_ok] at h
  obtain ⟨_, db₁, hcomplete, h⟩ := h
  obtain ⟨⟨records, rfl, hbase, hmoves⟩, -⟩ := completeResult_ok hcomplete
  have hfirst : Evolves host db { db with records := records } := by
    refine evolves_records hmoves ?_
    intro id r hr
    rw [hbase]
    exact ⟨r, hr, rfl, rfl⟩
  rw [Tx.bind_ok] at h
  obtain ⟨_, db₂, hinsert, h⟩ := h
  obtain ⟨hfresh, rfl, hsecond⟩ := insertResult_ok host hinsert
  rw [Tx.bind_ok] at h
  obtain ⟨_, db₃, hrefs, h⟩ := h
  rw [Tx.bind_ok] at h
  obtain ⟨_, db₄, hchecks, h⟩ := h
  rw [Tx.bind_update_ok, Tx.ofExcept_ok] at h
  obtain ⟨-, rfl⟩ := h
  have hthird := insertResultRefs_ok host hrefs
  have hfourth := insertChecks_ok host hchecks
  have hafter := trans_of (Evolves host) hthird.1 hfourth.1
  refine ⟨hfresh, ?_, ?_, ?_⟩
  · exact hafter.grows.results _ _ (AList.lookup_insert _)
  · exact trans_of (Evolves host) hfirst (trans_of (Evolves host) hsecond (trans_of (Evolves host) hafter
      (setResultRef_evolves _ _)))
  · exact ⟨fun refId f hf => (trans_of (Beyond i.invocationId) hthird.2 hfourth.2).refs refId f hf,
      fun key k hk => (trans_of (Beyond i.invocationId) hthird.2 hfourth.2).checks key k hk⟩

/-- The row these arguments publish under this fence. -/
def PublishInput.row (i : PublishInput) (f : Fence) : ResultRow :=
  ⟨f.accountId, f.runId, f.executionId, i.producingOperationId, i.payload f.executionId⟩

/-- `publish_result` found the result of its arguments, or published it. -/
theorem publishResult_ok {fence : Option Fence} {progress : Verdict} {i : PublishInput}
    (hdb : Identified host db) (h : (publishResult host clock fence progress i).run db = .ok (u, db')) :
    ∃ f, fence = some f ∧
      (db.results.lookup i.invocationId = some (i.row f) ∧ db' = db ∨
        ResultPublished host db db' i.invocationId (i.row f)) := by
  unfold publishResult at h
  rw [Tx.bind_ok] at h
  obtain ⟨c, db₀, hcontext, h⟩ := h
  obtain ⟨rfl, hfound⟩ := context_ok hcontext
  rw [Tx.bind_check_ok] at h
  obtain ⟨⟨-, hinvocation⟩, h⟩ := h
  rw [Tx.bind_query_ok, Tx.bind_demand_ok] at h
  obtain ⟨v, hv, h⟩ := h
  rw [Tx.bind_ofExcept_ok] at h
  obtain ⟨_, -, h⟩ := h
  rw [Tx.bind_ofExcept_ok] at h
  obtain ⟨_, -, h⟩ := h
  rw [Tx.bind_check_ok] at h
  obtain ⟨-, h⟩ := h
  rw [Tx.bind_check_ok] at h
  obtain ⟨-, h⟩ := h
  rw [Tx.bind_check_ok] at h
  obtain ⟨-, h⟩ := h
  rw [Tx.bind_query_ok, Tx.bind_ofExcept_ok] at h
  obtain ⟨_, -, h⟩ := h
  rw [Tx.bind_query_ok] at h
  refine ⟨c.fence, hfound.fence, ?_⟩
  split at h
  · next r hprior =>
      obtain ⟨⟨hoperation, hpayload⟩, rfl⟩ := Tx.check_ok.mp h
      obtain ⟨hr, haccount⟩ := Option.filter_eq_some_iff.mp hprior
      refine .inl ⟨?_, rfl⟩
      -- the producer is the child of the invocation, which is this Execution
      obtain ⟨⟨j, hj, haccount', hrun', hproducer⟩, -⟩ := hdb.produced _ _ hr
      obtain ⟨j', hj', hchild⟩ := hdb.called _ _ hfound.execution _ hinvocation
      obtain rfl := Option.some.inj (hj.symm.trans hj')
      obtain ⟨-, x, hx, hidentity⟩ := hdb.parents _ _ hj
      rw [hchild, hfound.execution] at hx
      obtain rfl := Option.some.inj hx
      have hrun : r.runId = c.fence.runId := by
        have hsame : c.execution.runId = j.runId := congrArg ExecutionRow.runId hidentity
        rw [← hrun', ← hsame]
        exact hfound.owner.2
      have hrow : r = i.row c.fence := by
        obtain ⟨account, run, execution, operation, payload⟩ := r
        obtain rfl := of_decide_eq_true haccount
        obtain rfl : run = c.fence.runId := hrun
        obtain rfl : execution = c.fence.executionId := hproducer.symm.trans hchild
        obtain rfl : operation = i.producingOperationId := hoperation
        obtain rfl : payload = i.payload c.fence.executionId := hpayload
        rfl
      rw [← hrow]
      exact hr
  · exact .inr (commitResult_ok h)

end calls

end HpAgent.Capabilities
