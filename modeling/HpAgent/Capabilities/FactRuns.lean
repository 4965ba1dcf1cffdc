import HpAgent.Capabilities.FactSteps

/-! # The facts of capabilities over whole runs

Any number of Executions make the calls of `HpAgent.Capabilities.Facts`, in any order, again after a crash and with other
arguments or under other definitions, while the other services of the system go on: operations are begun and completed,
Runs and Works move, Executions start, files and grants come and go.

`capability_identity` collects what holds in every reachable store. -/

namespace HpAgent.Capabilities

open Library Records

variable {δ : Type} {host : Host δ} {db db' : FactStore δ}

/-! ### Observing and adopting -/

/-- `record_observation` found the observation of its arguments, or recorded it. -/
theorem recordObservation_ok {now : Instant} {fence : Option Fence} {i : ObservationInput} {u : Unit}
    (h : (recordObservation now fence i).run db = .ok (u, db')) :
    ∃ f, fence = some f ∧
      (db.observations.lookup i.invocationId = some (i.row f) ∧ db' = db ∨
        db.observations.lookup i.invocationId = none ∧ (i.row f).Seen db i.invocationId ∧
          db' = { db with observations := db.observations.insert i.invocationId (i.row f) }) := by
  unfold recordObservation at h
  rw [Tx.bind_ok] at h
  obtain ⟨c, db₀, hcontext, h⟩ := h
  obtain ⟨rfl, hfound⟩ := context_ok hcontext
  rw [Tx.bind_ok] at h
  obtain ⟨_, db₁, hread, h⟩ := h
  obtain rfl : db = db₁ := readResult_reads _ _ _ _ _ _ hread
  rw [Tx.bind_check_ok] at h
  obtain ⟨-, h⟩ := h
  rw [Tx.bind_query_ok] at h
  refine ⟨c.fence, hfound.fence, ?_⟩
  split at h
  · next ob hprior =>
      obtain ⟨rfl, rfl⟩ := Tx.check_ok.mp h
      exact .inl ⟨hprior, rfl⟩
  · next hnone =>
      rw [Tx.bind_query_ok, Tx.bind_check_ok, Tx.update_ok] at h
      obtain ⟨hallowed, rfl⟩ := h
      refine .inr ⟨hnone, ?_, rfl⟩
      unfold observationAllowed at hallowed
      simp only [Bool.and_eq_true] at hallowed
      obtain ⟨⟨⟨hcaller, hproducer⟩, -⟩, -⟩ := hallowed
      obtain ⟨v, hv, hsame⟩ := (Option.any_eq_true _ _).mp hcaller
      obtain ⟨r, hr, hoperation⟩ := (Option.any_eq_true _ _).mp hproducer
      simp only [Bool.and_eq_true, decide_eq_true_eq] at hsame
      obtain ⟨⟨haccount, hrun⟩, hexecution⟩ := hsame
      exact ⟨v, r, hv, hr, haccount.symm, hrun.symm, hexecution.symm, (of_decide_eq_true hoperation).symm⟩

theorem insertObservation_evolves {invocation : String} {ob : Observation} (hnone : db.observations.lookup invocation = none)
    (hseen : ob.Seen db invocation) :
    Evolves host db { db with observations := db.observations.insert invocation ob } := by
  have hgrows : Grows db { db with observations := db.observations.insert invocation ob } :=
    ⟨refl_of Moves _, fun _ r hr => ⟨r, hr, rfl, rfl⟩, fun _ x hx => ⟨x, hx, rfl⟩, refl_of Table.Extends _,
      refl_of Table.Extends _, refl_of Table.Extends _, refl_of Table.Extends _, refl_of Table.Extends _,
      refl_of Table.Extends _, Table.extends_insert hnone⟩
  refine ⟨hgrows, ?_⟩
  intro hdb
  refine hdb.grow hgrows (fun _ _ h => .inl h) (fun _ x h => .inl ⟨x, h, rfl⟩) (fun _ _ h => .inl h) ?_ ?_
    (fun _ _ h => .inl h) (fun _ _ h => .inl h)
  · intro j _ r _ hr _ hbefore
    have hr : db.results.lookup j = some r := hr
    rw [hbefore] at hr
    cases hr
  · intro j ob' hob
    have hob : (db.observations.insert invocation ob).lookup j = some ob' := hob
    rw [Table.lookup_insert_ite] at hob
    split at hob
    · next hj =>
        obtain rfl := Option.some.inj hob
        subst hj
        exact .inr (hseen.mono hgrows)
    · exact .inl hob

/-- `adopt` found the adoption of this Execution, or recorded it under the binding of the Run. -/
theorem adopt_ok {now : Instant} {fence : Option Fence} {refId : Uuid} {a : Adoption}
    (h : (adopt now fence refId).run db = .ok (a, db')) :
    ∃ f, fence = some f ∧
      (db.adoptions.lookup (f.executionId, refId) = some a ∧ db' = db ∨
        db.adoptions.lookup (f.executionId, refId) = none ∧ a.Bound db ∧
          db' = { db with adoptions := db.adoptions.insert (f.executionId, refId) a }) := by
  unfold adopt at h
  rw [Tx.bind_ok] at h
  obtain ⟨c, db₀, hcontext, h⟩ := h
  obtain ⟨rfl, hfound⟩ := context_ok hcontext
  rw [Tx.bind_check_ok] at h
  obtain ⟨-, h⟩ := h
  rw [Tx.bind_query_ok, Tx.bind_demand_ok] at h
  obtain ⟨target, -, h⟩ := h
  rw [Tx.bind_query_ok, Tx.bind_ofExcept_ok] at h
  obtain ⟨_, -, h⟩ := h
  rw [Tx.bind_query_ok, Tx.bind_check_ok] at h
  obtain ⟨-, h⟩ := h
  rw [Tx.bind_query_ok] at h
  refine ⟨c.fence, hfound.fence, ?_⟩
  split at h
  · next p hprior =>
      rw [Tx.bind_check_ok] at h
      obtain ⟨-, h⟩ := h
      obtain ⟨rfl, rfl⟩ := Tx.pure_ok.mp h
      exact .inl ⟨hprior, rfl⟩
  · next hnone =>
      rw [Tx.bind_update_ok] at h
      obtain ⟨rfl, rfl⟩ := Tx.pure_ok.mp h
      exact .inr ⟨hnone, ⟨c.run, hfound.run, hfound.account, rfl, rfl⟩, rfl⟩

theorem insertAdoption_grows {key : Uuid × Uuid} {a : Adoption} (hnone : db.adoptions.lookup key = none) :
    Grows db { db with adoptions := db.adoptions.insert key a } :=
  ⟨refl_of Moves _, fun _ r hr => ⟨r, hr, rfl, rfl⟩, fun _ x hx => ⟨x, hx, rfl⟩, refl_of Table.Extends _,
    refl_of Table.Extends _, refl_of Table.Extends _, refl_of Table.Extends _, refl_of Table.Extends _,
    Table.extends_insert hnone, refl_of Table.Extends _⟩

theorem insertAdoption_evolves {key : Uuid × Uuid} {a : Adoption} (hnone : db.adoptions.lookup key = none)
    (hbound : a.Bound db) : Evolves host db { db with adoptions := db.adoptions.insert key a } := by
  have hgrows := insertAdoption_grows (a := a) hnone
  refine ⟨hgrows, ?_⟩
  intro hdb
  refine hdb.grow hgrows (fun _ _ h => .inl h) (fun _ x h => .inl ⟨x, h, rfl⟩) (fun _ _ h => .inl h) ?_ (fun _ _ h => .inl h)
    ?_ (fun _ _ h => .inl h)
  · intro j _ r _ hr _ hbefore
    have hr : db.results.lookup j = some r := hr
    rw [hbefore] at hr
    cases hr
  · intro j a' ha
    have ha : (db.adoptions.insert key a).lookup j = some a' := ha
    rw [Table.lookup_insert_ite] at ha
    split at ha
    · obtain rfl := Option.some.inj ha
      exact .inr (hbound.mono hgrows)
    · exact .inl ha

/-! ### Steps and runs -/

/-- Executions are added by other services, and keep what identifies them. -/
structure Others (t t' : Table Uuid ExecutionRow) : Prop where
  kept : ∀ id x, t.lookup id = some x → ∃ x', t'.lookup id = some x' ∧ x'.identity = x.identity
  added : ∀ id x', t'.lookup id = some x' → t.lookup id = none → x'.invocationId = none

section runs

variable [DecidableEq δ] (host)

/-- One call, or a move of the rest of the system: of the operations and the surroundings, as every step of
`HpAgent.Records.ReceiptRuns` is one (`ReceiptStep.booked`), of the other Executions, or of files and grants. -/
inductive FactStep (db : FactStore δ) : FactStore δ → Prop
  | create (clock : Readings) (fence : Option Fence) (facts : CapabilityFacts) (i : CreateInput) :
      FactStep db ((Capabilities.create host clock fence facts i).commit db)
  | prepare (clock : Readings) (fence : Option Fence) (facts : CapabilityFacts) (i : PrepareInput) :
      FactStep db ((Capabilities.prepare host clock fence facts i).commit db)
  | publishResult (clock : Readings) (fence : Option Fence) (progress : Verdict) (i : PublishInput) :
      FactStep db ((Capabilities.publishResult host clock fence progress i).commit db)
  | recordObservation (now : Instant) (fence : Option Fence) (i : ObservationInput) :
      FactStep db ((Capabilities.recordObservation now fence i).commit db)
  | adopt (now : Instant) (fence : Option Fence) (refId : Uuid) :
      FactStep db ((Capabilities.adopt now fence refId).commit db)
  | records (records : RecordStore δ) (h : Holds db.records records) : FactStep db { db with records := records }
  | executions (executions : Table Uuid ExecutionRow) (h : Others db.executions executions) :
      FactStep db { db with executions := executions }
  | world (world : World) : FactStep db { db with world := world }

/-- The later stores of a history. -/
def FactLater (db db' : FactStore δ) : Prop := Relation.ReflTransGen (FactStep host) db db'

/-- A store without facts. -/
structure Unused (db : FactStore δ) : Prop where
  invocations : db.invocations = ∅
  results : db.results = ∅
  resultRefs : db.resultRefs = ∅
  checks : db.checks = ∅
  adoptions : db.adoptions = ∅
  observations : db.observations = ∅
  executions : ∀ id x, db.executions.lookup id = some x → x.invocationId = none

/-- The stores reached from one without facts. -/
def FactReachable (db : FactStore δ) : Prop := ∃ db₀, Unused db₀ ∧ FactLater host db₀ db

variable {host}

omit [DecidableEq δ] in
theorem Unused.identified (h : Unused db) : Identified host db := by
  refine ⟨?_, ?_, ?_, ?_, ?_, ?_, ?_, ?_⟩
  · intro operation i hi
    rw [h.invocations, AList.lookup_empty] at hi
    cases hi
  · intro operation i hi
    rw [h.invocations, AList.lookup_empty] at hi
    cases hi
  · intro id x hx operation hoperation
    rw [h.executions id x hx] at hoperation
    cases hoperation
  · intro invocation r hr
    rw [h.results, AList.lookup_empty] at hr
    cases hr
  · intro invocation invocation' r r' hr
    rw [h.results, AList.lookup_empty] at hr
    cases hr
  · intro invocation ob hob
    rw [h.observations, AList.lookup_empty] at hob
    cases hob
  · intro key a ha
    rw [h.adoptions, AList.lookup_empty] at ha
    cases ha
  · intro refId f hf
    rw [h.resultRefs, AList.lookup_empty] at hf
    cases hf

/-- The references and checks of a published result are what they were. -/
def Final (db db' : FactStore δ) : Prop :=
  ∀ invocation, (db.results.lookup invocation).isSome = true →
    (∀ refId f, f.invocationId = invocation → db'.resultRefs.lookup refId = some f → db.resultRefs.lookup refId = some f) ∧
    ∀ key k, key.1 = invocation → db'.checks.lookup key = some k → db.checks.lookup key = some k

omit [DecidableEq δ] in
theorem Final.of_beyond {invocation : String} (hfresh : db.results.lookup invocation = none) (h : Beyond invocation db db') :
    Final db db' := by
  intro j hj
  have hne : j ≠ invocation := by
    rintro rfl
    rw [hfresh] at hj
    cases hj
  constructor
  · intro refId f hf hlookup
    apply (h.refs refId f hlookup).resolve_right
    rw [hf]
    exact hne
  · intro key k hkey hlookup
    apply (h.checks key k hlookup).resolve_right
    rw [hkey]
    exact hne

omit [DecidableEq δ] in
theorem Final.of_eq (hrefs : db'.resultRefs = db.resultRefs) (hchecks : db'.checks = db.checks) : Final db db' := by
  intro invocation _
  rw [hrefs, hchecks]
  exact ⟨fun _ _ _ h => h, fun _ _ _ h => h⟩

/-- What one step does. -/
structure Advances (host : Host δ) (db db' : FactStore δ) : Prop where
  evolves : Evolves host db db'
  final : Final db db'

instance : IsPreorder (FactStore δ) (Advances host) where
  refl db := ⟨refl_of (Evolves host) db, .of_eq rfl rfl⟩
  trans a b c h h' := by
    refine ⟨trans_of (Evolves host) h.evolves h'.evolves, ?_⟩
    intro invocation hpublished
    obtain ⟨r, hr⟩ := Option.isSome_iff_exists.mp hpublished
    have hlater : (b.results.lookup invocation).isSome = true := by
      rw [h.evolves.grows.results _ _ hr]
      rfl
    obtain ⟨hrefs, hchecks⟩ := h.final invocation hpublished
    obtain ⟨hrefs', hchecks'⟩ := h'.final invocation hlater
    exact ⟨fun refId f hf hc => hrefs refId f hf (hrefs' refId f hf hc), fun key k hk hc => hchecks key k hk (hchecks' key k hk hc)⟩

omit [DecidableEq δ] in
theorem Registered.advances {operation : String} {v : Invocation δ} (h : Registered host db db' operation v) :
    Advances host db db' :=
  ⟨h.evolves, .of_eq h.refs h.checks⟩

omit [DecidableEq δ] in
theorem ResultPublished.advances {invocation : String} {r : ResultRow} (h : ResultPublished host db db' invocation r) :
    Advances host db db' :=
  ⟨h.evolves, .of_beyond h.fresh h.beyond⟩

omit [DecidableEq δ] in
/-- Executions of other services leave the facts in order. -/
theorem Others.evolves {executions : Table Uuid ExecutionRow} (h : Others db.executions executions) :
    Evolves host db { db with executions := executions } := by
  have hgrows : Grows db { db with executions := executions } :=
    ⟨refl_of Moves _, fun _ r hr => ⟨r, hr, rfl, rfl⟩, h.kept, refl_of Table.Extends _, refl_of Table.Extends _,
      refl_of Table.Extends _, refl_of Table.Extends _, refl_of Table.Extends _, refl_of Table.Extends _,
      refl_of Table.Extends _⟩
  refine ⟨hgrows, ?_⟩
  intro hdb
  refine hdb.grow hgrows (fun _ _ h => .inl h) ?_ (fun _ _ h => .inl h) ?_ (fun _ _ h => .inl h) (fun _ _ h => .inl h)
    (fun _ _ h => .inl h)
  · intro id x' hx'
    cases hbefore : db.executions.lookup id with
    | some x =>
        obtain ⟨x₁, hx₁, hsame⟩ := h.kept id x hbefore
        have hx' : executions.lookup id = some x' := hx'
        obtain rfl := Option.some.inj (hx₁.symm.trans hx')
        exact .inl ⟨x, rfl, hsame⟩
    | none =>
        right
        intro operation hoperation
        rw [h.added id x' hx' hbefore] at hoperation
        cases hoperation
  · intro invocation _ r _ hr _ hnone
    have hr : db.results.lookup invocation = some r := hr
    rw [hnone] at hr
    cases hr

/-- **One step** keeps every fact, and the references and checks of what is published. -/
theorem FactStep.advances (h : FactStep host db db') (hdb : Identified host db) : Advances host db db' := by
  cases h with
  | create clock fence facts i =>
      apply Tx.commit_rule (Advances host db) (refl_of (Advances host) db)
      intro v s hs
      obtain ⟨-, ⟨-, rfl⟩ | hregistered⟩ := create_ok hdb hs
      · exact refl_of (Advances host) _
      · exact hregistered.advances
  | prepare clock fence facts i =>
      apply Tx.commit_rule (Advances host db) (refl_of (Advances host) db)
      intro v s hs
      obtain ⟨-, rfl, -⟩ | hregistered := prepare_ok hdb hs
      · exact refl_of (Advances host) _
      · exact hregistered.advances
  | publishResult clock fence progress i =>
      apply Tx.commit_rule (Advances host db) (refl_of (Advances host) db)
      intro u s hs
      obtain ⟨f, -, ⟨-, rfl⟩ | hpublished⟩ := publishResult_ok hdb hs
      · exact refl_of (Advances host) _
      · exact hpublished.advances
  | recordObservation now fence i =>
      apply Tx.commit_rule (Advances host db) (refl_of (Advances host) db)
      intro u s hs
      obtain ⟨f, -, ⟨-, rfl⟩ | ⟨hnone, hseen, rfl⟩⟩ := recordObservation_ok hs
      · exact refl_of (Advances host) _
      · exact ⟨insertObservation_evolves hnone hseen, .of_eq rfl rfl⟩
  | adopt now fence refId =>
      apply Tx.commit_rule (Advances host db) (refl_of (Advances host) db)
      intro a s hs
      obtain ⟨f, -, ⟨-, rfl⟩ | ⟨hnone, hbound, rfl⟩⟩ := adopt_ok hs
      · exact refl_of (Advances host) _
      · exact ⟨insertAdoption_evolves hnone hbound, .of_eq rfl rfl⟩
  | records records h =>
      refine ⟨evolves_records h.moves ?_, .of_eq rfl rfl⟩
      intro id r hr
      obtain ⟨r', hr', haccount, hsource, -⟩ := h.forward.runs id r hr
      exact ⟨r', hr', haccount, hsource⟩
  | executions executions h => exact ⟨h.evolves, .of_eq rfl rfl⟩
  | world world =>
      refine ⟨⟨?_, ?_⟩, .of_eq rfl rfl⟩
      · exact ⟨refl_of Moves _, fun _ r hr => ⟨r, hr, rfl, rfl⟩, fun _ x hx => ⟨x, hx, rfl⟩, refl_of Table.Extends _,
          refl_of Table.Extends _, refl_of Table.Extends _, refl_of Table.Extends _, refl_of Table.Extends _,
          refl_of Table.Extends _, refl_of Table.Extends _⟩
      · intro hdb
        exact ⟨hdb.owned, hdb.parents, hdb.called, hdb.produced, hdb.producers, hdb.seen, hdb.bound, hdb.published⟩

theorem FactLater.advances (h : FactLater host db db') (hdb : Identified host db) : Advances host db db' := by
  induction h with
  | refl => exact refl_of (Advances host) db
  | tail _ hstep ih => exact trans_of (Advances host) ih (hstep.advances (ih.evolves.identified hdb))

theorem FactReachable.identified (h : FactReachable host db) : Identified host db := by
  obtain ⟨db₀, hunused, hlater⟩ := h
  exact (hlater.advances hunused.identified).evolves.identified hunused.identified

/-! ### Repeated identities -/

omit [DecidableEq δ] in
/-- A call that only succeeds without an effect has no effect at all. -/
theorem commit_eq_of_ok {α : Type} {m : FactTx δ α} (h : ∀ a s, m.run db = .ok (a, s) → s = db) : m.commit db = db :=
  Tx.commit_rule (· = db) rfl h

omit [DecidableEq δ] in
/-- A call that cannot succeed raises and leaves every row as it is. -/
theorem raises_of_not_ok {α : Type} {m : FactTx δ α} (h : ∀ a s, m.run db ≠ .ok (a, s)) :
    (∃ e, m.run db = .error e) ∧ m.commit db = db := by
  refine ⟨?_, commit_eq_of_ok fun a s hs => absurd hs (h a s)⟩
  cases hrun : m.run db with
  | ok p => exact absurd hrun (h p.1 p.2)
  | error e => exact ⟨e, rfl⟩

/-- What holds of the facts in a store and from then on. -/
structure FactLaws (host : Host δ) (db : FactStore δ) : Prop where
  /-- An invocation belongs to the tool operation it is named after, and has the child of that operation; there is such an
  Execution, and no other one works on the invocation. -/
  invocation : ∀ operation i, db.invocations.lookup operation = some i →
    i.Owned db operation ∧ i.Parent host db operation ∧
      ∀ id x, db.executions.lookup id = some x → x.invocationId = some operation → id = i.childExecutionId
  /-- `create` returns the invocation of the operation, which its arguments describe. -/
  create : ∀ clock fence facts i v db', (Capabilities.create host clock fence facts i).run db = .ok (v, db') →
    db'.invocations.lookup i.operationId = some v ∧ i.Describes host fence facts v ∧
      ∀ w, db.invocations.lookup i.operationId = some w → v = w ∧ db' = db
  createConflict : ∀ clock fence facts i w, db.invocations.lookup i.operationId = some w → ¬i.Describes host fence facts w →
    (∃ e, (Capabilities.create host clock fence facts i).run db = .error e) ∧
      (Capabilities.create host clock fence facts i).commit db = db
  prepare : ∀ clock fence facts i v db', (Capabilities.prepare host clock fence facts i).run db = .ok (v, db') →
    db'.invocations.lookup i.operationId = some v ∧
      ∀ w, db.invocations.lookup i.operationId = some w → v = w ∧ db' = db
  prepareConflict : ∀ clock fence facts i w, db.invocations.lookup i.operationId = some w → ¬i.Describes host fence w →
    (∃ e, (Capabilities.prepare host clock fence facts i).run db = .error e) ∧
      (Capabilities.prepare host clock fence facts i).commit db = db
  /-- A result was produced by the child of its invocation, in an operation of no other result. -/
  result : ∀ invocation r, db.results.lookup invocation = some r → r.Produced db invocation ∧
    ∀ invocation' r', db.results.lookup invocation' = some r' → r.producingOperationId = r'.producingOperationId →
      invocation = invocation'
  publishResult : ∀ clock fence progress i u db',
    (Capabilities.publishResult host clock fence progress i).run db = .ok (u, db') →
      ∃ f, fence = some f ∧ db'.results.lookup i.invocationId = some (i.row f) ∧
        ∀ r, db.results.lookup i.invocationId = some r → db' = db
  publishConflict : ∀ clock fence progress i r, db.results.lookup i.invocationId = some r →
    (∀ f, fence = some f → r ≠ i.row f) →
      (∃ e, (Capabilities.publishResult host clock fence progress i).run db = .error e) ∧
        (Capabilities.publishResult host clock fence progress i).commit db = db
  /-- An observation is one of the caller, of the one result; no two observe one producing operation. -/
  observation : ∀ invocation ob, db.observations.lookup invocation = some ob → ob.Seen db invocation ∧
    ∀ invocation' ob', db.observations.lookup invocation' = some ob' → ob.producingOperationId = ob'.producingOperationId →
      invocation = invocation'
  recordObservation : ∀ now fence i u db', (Capabilities.recordObservation now fence i).run db = .ok (u, db') →
    ∃ f, fence = some f ∧ db'.observations.lookup i.invocationId = some (i.row f) ∧
      ∀ ob, db.observations.lookup i.invocationId = some ob → db' = db
  observationConflict : ∀ now fence i ob, db.observations.lookup i.invocationId = some ob →
    (∀ f, fence = some f → ob ≠ i.row f) →
      (∃ e, (Capabilities.recordObservation now fence i).run db = .error e) ∧
        (Capabilities.recordObservation now fence i).commit db = db
  /-- An adoption is the one of its Execution and reference, under the binding of its Run. -/
  adopt : ∀ now fence refId a db', (Capabilities.adopt now fence refId).run db = .ok (a, db') →
    a.Bound db' ∧ ∃ f, fence = some f ∧ db'.adoptions.lookup (f.executionId, refId) = some a ∧
      ∀ a', db.adoptions.lookup (f.executionId, refId) = some a' → a = a' ∧ db' = db
  /-- Invocations, results, observations and adoptions never change, nor do the references and checks of a result. -/
  kept : ∀ db', FactLater host db db' → Table.Extends db.invocations db'.invocations ∧
    Table.Extends db.results db'.results ∧ Table.Extends db.observations db'.observations ∧
    Table.Extends db.adoptions db'.adoptions ∧ Table.Extends db.resultRefs db'.resultRefs ∧
    Table.Extends db.checks db'.checks ∧ Final db db'

/-- **Facts are identified.**  In every reachable store the laws of the facts hold: one operation has one invocation with one
child, an invocation has one result and one observation, a call that repeats an identity with anything else raises and
changes no row, and what is there stays as it is. -/
theorem capability_identity (h : FactReachable host db) : FactLaws host db := by
  have hdb := h.identified
  refine ⟨?_, ?_, ?_, ?_, ?_, ?_, ?_, ?_, ?_, ?_, ?_, ?_, ?_⟩
  · intro operation i hi
    refine ⟨hdb.owned operation i hi, hdb.parents operation i hi, ?_⟩
    intro id x hx hoperation
    obtain ⟨i', hi', hchild⟩ := hdb.called id x hx operation hoperation
    obtain rfl := Option.some.inj (hi.symm.trans hi')
    exact hchild.symm
  · intro clock fence facts i v db' hrun
    obtain ⟨hdescribes, ⟨hstored, rfl⟩ | hregistered⟩ := create_ok hdb hrun
    · refine ⟨hstored, hdescribes, ?_⟩
      intro w hw
      exact ⟨Option.some.inj (hstored.symm.trans hw), rfl⟩
    · refine ⟨hregistered.stored, hdescribes, ?_⟩
      intro w hw
      exact absurd (hregistered.fresh.symm.trans hw) (by simp)
  · intro clock fence facts i w hw hdiffers
    apply raises_of_not_ok
    intro v s hs
    obtain ⟨hdescribes, ⟨hstored, -⟩ | hregistered⟩ := create_ok hdb hs
    · obtain rfl := Option.some.inj (hstored.symm.trans hw)
      exact hdiffers hdescribes
    · exact absurd (hregistered.fresh.symm.trans hw) (by simp)
  · intro clock fence facts i v db' hrun
    obtain ⟨hstored, rfl, -⟩ | hregistered := prepare_ok hdb hrun
    · refine ⟨hstored, ?_⟩
      intro w hw
      exact ⟨Option.some.inj (hstored.symm.trans hw), rfl⟩
    · refine ⟨hregistered.stored, ?_⟩
      intro w hw
      exact absurd (hregistered.fresh.symm.trans hw) (by simp)
  · intro clock fence facts i w hw hdiffers
    apply raises_of_not_ok
    intro v s hs
    obtain ⟨hstored, -, hdescribes⟩ | hregistered := prepare_ok hdb hs
    · obtain rfl := Option.some.inj (hstored.symm.trans hw)
      exact hdiffers hdescribes
    · exact absurd (hregistered.fresh.symm.trans hw) (by simp)
  · intro invocation r hr
    refine ⟨hdb.produced invocation r hr, ?_⟩
    intro invocation' r' hr' hsame
    exact hdb.producers _ _ r r' hr hr' hsame
  · intro clock fence progress i u db' hrun
    obtain ⟨f, hf, ⟨hstored, rfl⟩ | hpublished⟩ := publishResult_ok hdb hrun
    · exact ⟨f, hf, hstored, fun _ _ => rfl⟩
    · refine ⟨f, hf, hpublished.stored, ?_⟩
      intro r hr
      exact absurd (hpublished.fresh.symm.trans hr) (by simp)
  · intro clock fence progress i r hr hdiffers
    apply raises_of_not_ok
    intro u s hs
    obtain ⟨f, hf, ⟨hstored, -⟩ | hpublished⟩ := publishResult_ok hdb hs
    · exact hdiffers f hf (Option.some.inj (hr.symm.trans hstored))
    · exact absurd (hpublished.fresh.symm.trans hr) (by simp)
  · intro invocation ob hob
    refine ⟨hdb.seen invocation ob hob, ?_⟩
    intro invocation' ob' hob' hsame
    obtain ⟨-, r, -, hr, -, -, -, hproducer⟩ := hdb.seen invocation ob hob
    obtain ⟨-, r', -, hr', -, -, -, hproducer'⟩ := hdb.seen invocation' ob' hob'
    exact hdb.producers _ _ r r' hr hr' (hproducer.symm.trans (hsame.trans hproducer'))
  · intro now fence i u db' hrun
    obtain ⟨f, hf, ⟨hstored, rfl⟩ | ⟨hnone, -, rfl⟩⟩ := recordObservation_ok hrun
    · exact ⟨f, hf, hstored, fun _ _ => rfl⟩
    · refine ⟨f, hf, AList.lookup_insert _, ?_⟩
      intro ob hob
      exact absurd (hnone.symm.trans hob) (by simp)
  · intro now fence i ob hob hdiffers
    apply raises_of_not_ok
    intro u s hs
    obtain ⟨f, hf, ⟨hstored, -⟩ | ⟨hnone, -, -⟩⟩ := recordObservation_ok hs
    · exact hdiffers f hf (Option.some.inj (hob.symm.trans hstored))
    · exact absurd (hnone.symm.trans hob) (by simp)
  · intro now fence refId a db' hrun
    obtain ⟨f, hf, ⟨hstored, rfl⟩ | ⟨hnone, hbound, rfl⟩⟩ := adopt_ok hrun
    · refine ⟨hdb.bound _ a hstored, f, hf, hstored, ?_⟩
      intro a' ha'
      exact ⟨Option.some.inj (hstored.symm.trans ha'), rfl⟩
    · refine ⟨hbound.mono (insertAdoption_grows hnone), f, hf, AList.lookup_insert _, ?_⟩
      intro a' ha'
      exact absurd (hnone.symm.trans ha') (by simp)
  · intro db' hlater
    obtain ⟨⟨hgrows, -⟩, hfinal⟩ := hlater.advances hdb
    exact ⟨hgrows.invocations, hgrows.results, hgrows.observations, hgrows.adoptions, hgrows.resultRefs, hgrows.checks, hfinal⟩

/-! ### One invocation -/

/-- A host on which every value is valid and short. -/
def plainHost : Host Payload where
  valid _ _ := true
  worth := id
  childId name := 1000 + name.length
  payloadBytes _ := 2
  scopeBytes _ := 2
  descriptorBytes _ := 2
  storedBytes _ := 2
  resultDigest := id
  descriptorDigest d := d.inputs

def plainLimits : Limits := ⟨1, 60, 1, 0⟩

/-- A capability for chats. -/
def plainDefinition : Definition where
  key := "summary"
  contractVersion := 1
  implementationVersion := "1"
  description := "Summarize."
  inputSchema := ⟨"\x7b\x7d", [], []⟩
  outputSchema := ⟨"\x7b\x7d", [], []⟩
  executorKind := .fixedWorkflow
  executionMode := .isolatedExecution
  allowedSurfaces := ["chat"]
  requiredServices := []
  resourceOperations := []
  sideEffectPolicy := "read_only"
  limits := plainLimits
  maxAttempts := 1
  cancellationPolicy := "cooperative_bounded"
  verifierKeys := []
  executionPolicy := none

/-- The root Execution of the Run in `lateBegun`, whose tool operation is under way. -/
def plainStart : FactStore Payload where
  records := lateBegun
  world := ⟨fun _ => none, fun _ => none, fun _ _ _ _ => false, fun _ _ _ => false, fun _ _ _ => false, fun _ => none⟩
  executions := (∅ : Table Uuid ExecutionRow).insert 5 ⟨1, 7, .root, none, none, none, none⟩
  invocations := ∅
  inputRefs := ∅
  results := ∅
  resultRefs := ∅
  checks := ∅
  adoptions := ∅
  observations := ∅

def plainInput : CreateInput := ⟨"tool", "summary", 1, ∅, ⟨1, [], [], [], []⟩, plainLimits⟩

/-- The store after the tool operation has invoked the capability. -/
def plainCalled : FactStore Payload :=
  (Capabilities.create plainHost (fun _ => 0) (some lateFence) ⟨[plainDefinition], [], []⟩ plainInput).commit plainStart

theorem plainStart_unused : Unused plainStart := by
  refine ⟨rfl, rfl, rfl, rfl, rfl, rfl, ?_⟩
  intro id x hx
  have hx : ((∅ : Table Uuid ExecutionRow).insert 5 ⟨1, 7, .root, none, none, none, none⟩).lookup id = some x := hx
  rw [Table.lookup_insert_ite] at hx
  split at hx
  · obtain rfl := Option.some.inj hx
    rfl
  · rw [AList.lookup_empty] at hx
    cases hx

theorem capability_identity_called :
    (plainCalled.invocations.lookup "tool").map Invocation.childExecutionId = some 1004 ∧ FactLaws plainHost plainCalled :=
  ⟨rfl, capability_identity ⟨plainStart, plainStart_unused, .single (.create _ _ _ _)⟩⟩

end runs

end HpAgent.Capabilities
