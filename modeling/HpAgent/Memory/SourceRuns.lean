import HpAgent.Memory.SourceWorkers
import Mathlib.Logic.Relation

/-! # Memory sources over time

The transactions on sources in any order, with workers that keep what they have loaded for as long as they like.

* `World`: the store, and everything that workers hold.
* `Step`, `Reaches`: one transaction, and any number of them.
* `Kept`: the invariant; `kept_step`, `kept_reaches`.
* `memory_sources`: the laws of the sources and of reading, in every world that is reached. -/

namespace HpAgent.Memory.Governance

open Library

/-- The store, and what workers have loaded from it at any time. -/
structure World where
  db : Store
  loaded : List Loaded

/-- A transaction of a worker. -/
inductive WorkerCall where
  | sendState (l : Loaded) (state : SendState)
  | progress (l : Loaded) (evidence : Evidence)
  | markSending (owned : Bool) (l : Loaded)
  | markVerifying (owned : Bool) (l : Loaded)
  | save (owned : Bool) (l : Loaded) (status : ActionStatus) (errorCode : Option String) (failure : Bool)
      (verification : Option Evidence)

def WorkerCall.loaded : WorkerCall → Loaded
  | sendState l _ => l
  | progress l _ => l
  | markSending _ l => l
  | markVerifying _ l => l
  | save _ l _ _ _ _ => l

def WorkerCall.tx : WorkerCall → GovernanceTx Unit
  | sendState l state => Governance.sendState l state
  | progress l evidence => Governance.progress l evidence
  | markSending owned l => Governance.markSending owned l
  | markVerifying owned l => Governance.markVerifying owned l
  | save owned l status errorCode failure verification => Governance.save owned l status errorCode failure verification

/-- One transaction of the system.  Accounts, Runs and receipts also change on their own. -/
inductive Step (requestHash : Hashed → ℕ) : World → World → Prop
  | command (w : World) (fresh : Uuid → Uuid) (id : Uuid) (now : Instant) (account source : Uuid) (key : String)
      (payload : CommandPayload) :
      Step requestHash w { w with db := (command requestHash fresh id now account source key payload).commit w.db }
  | reconcileScope (w : World) (id : Uuid) (now : Instant) (account source : Uuid) (generation : ℕ) :
      Step requestHash w { w with db := (reconcileScope requestHash id now account source generation).commit w.db }
  | revoke (w : World) (fresh : Uuid → Uuid) (now : Instant) (account : Uuid) (subject : Subject) :
      Step requestHash w { w with db := (revoke requestHash fresh now account subject).commit w.db }
  | register (w : World) (id actionId operation : Uuid) (now : Instant) (owned : Bool) (eventAccount eventRun : Uuid)
      (run : Option (Uuid × Uuid)) (request : RetainRequest) (scope : Scope) (decision : Decision)
      (qualitySnapshot : Option ℕ) :
      Step requestHash w { w with db := (register requestHash id actionId operation now owned eventAccount eventRun run
        request scope decision qualitySnapshot).commit w.db }
  | load (w : World) (account id run : Uuid) (l : Loaded) (h : loadAction w.db account id run = some l) :
      Step requestHash w { w with loaded := l :: w.loaded }
  | worker (w : World) (call : WorkerCall) (h : call.loaded ∈ w.loaded) :
      Step requestHash w { w with db := call.tx.commit w.db }
  | surroundings (w : World) (accounts : Uuid → Option MemoryAccount) (runs : Uuid → Option MemoryRun)
      (receipts : Table (Uuid × String) Receipt) :
      Step requestHash w { w with db := { w.db with accounts := accounts, runs := runs, receipts := receipts } }

/-- Any number of transactions. -/
def Reaches (requestHash : Hashed → ℕ) : World → World → Prop := Relation.ReflTransGen (Step requestHash)

/-! ### The invariant -/

/-- The tables are sound, and what workers hold is true of them. -/
structure Kept (w : World) : Prop where
  sound : Sound w.db
  loaded : ∀ l ∈ w.loaded, LoadedOk w.db l

/-- Before the first action: sources with any parents, none of them forgotten. -/
structure World.Start (w : World) : Prop where
  actions : ∀ aid, w.db.actions.lookup aid = none
  sources : ∀ id s, w.db.sources.lookup id = some s → s.currentActionId = none ∧ s.state ≠ .forgotten
  loaded : w.loaded = []

section runs

variable {requestHash : Hashed → ℕ} {w w' : World}

theorem World.Start.kept (h : w.Start) : Kept w := by
  have haction : ∀ {aid : Uuid} {a : Action}, w.db.actions.lookup aid = some a → False := by
    intro aid a ha
    rw [h.actions] at ha
    cases ha
  have hcurrent : ∀ {id : Uuid} {s : Source} {aid : Uuid}, w.db.sources.lookup id = some s →
      s.currentActionId = some aid → False := by
    intro id s aid hs hid
    rw [(h.sources id s hs).1] at hid
    cases hid
  refine ⟨⟨⟨fun _ _ ha => (haction ha).elim, fun _ _ _ hs hid => (hcurrent hs hid).elim, fun id s hs hstate => ?_,
    fun _ _ ha => (haction ha).elim, fun _ _ _ _ _ _ ha => (haction ha).elim, fun _ _ _ _ _ _ ha => (haction ha).elim,
    fun _ _ _ ha => (haction ha).elim⟩, fun id s p ps hs hp hps haccount hstate => ?_⟩, fun l hl => ?_⟩
  · exact absurd hstate (h.sources id s hs).2
  · exact absurd hstate (h.sources p ps hps).2
  · rw [h.loaded] at hl
    cases hl

/-- What a transaction does is what its successful run does. -/
theorem commit_governs {α : Type} {m : GovernanceTx α} {db : Store} (hsound : Sound db)
    (h : ∀ a db', m.run db = .ok (a, db') → Sound db' ∧ Evolves db db') : Sound (m.commit db) ∧ Evolves db (m.commit db) :=
  Tx.commit_rule (fun db' => Sound db' ∧ Evolves db db') ⟨hsound, .refl db⟩ h

/-- **A call of a worker** keeps the invariant. -/
theorem worker_governs (call : WorkerCall) {db : Store} (hsound : Sound db) (hloaded : LoadedOk db call.loaded) :
    Sound (call.tx.commit db) ∧ Evolves db (call.tx.commit db) := by
  refine commit_governs hsound fun u db' hrun => ?_
  cases call with
  | sendState l state =>
      have hquiet := sendState_quiet hsound hrun
      exact ⟨hquiet.sound, hquiet.evolves⟩
  | progress l evidence =>
      have hquiet := progress_quiet hsound hrun
      exact ⟨hquiet.sound, hquiet.evolves⟩
  | markSending owned l =>
      have hquiet := markSending_quiet hsound hrun
      exact ⟨hquiet.sound, hquiet.evolves⟩
  | markVerifying owned l =>
      have hquiet := markVerifying_quiet hsound hrun
      exact ⟨hquiet.sound, hquiet.evolves⟩
  | save owned l status errorCode failure verification => exact save_governs hsound hloaded hrun

/-- **A stale call** changes no source. -/
theorem worker_stale (call : WorkerCall) {db : Store} (hsound : Sound db)
    (hstale : ∀ s, sourceOf db call.loaded.action.accountId call.loaded.action.sourceId = some s →
      s.isAt call.loaded = false) : (call.tx.commit db).sources = db.sources := by
  refine Tx.commit_rule (fun db' : Store => db'.sources = db.sources) rfl fun u db' hrun => ?_
  cases call with
  | sendState l state => exact (sendState_quiet hsound hrun).sources
  | progress l evidence => exact (progress_quiet hsound hrun).sources
  | markSending owned l => exact (markSending_quiet hsound hrun).sources
  | markVerifying owned l => exact (markVerifying_quiet hsound hrun).sources
  | save owned l status errorCode failure verification => exact save_quiet hstale hrun

/-- **One transaction** keeps the invariant. -/
theorem kept_step (hw : Kept w) (h : Step requestHash w w') : Kept w' ∧ Evolves w.db w'.db := by
  have hkept : ∀ {db' : Store}, Sound db' ∧ Evolves w.db db' → Kept { w with db := db' } ∧ Evolves w.db db' :=
    fun hdb' => ⟨⟨hdb'.1, fun l hl => (hw.loaded l hl).evolves hdb'.2⟩, hdb'.2⟩
  cases h with
  | command fresh id now account source key payload =>
      refine hkept (commit_governs hw.sound fun a db' hrun => ?_)
      obtain ⟨hsound, hevolves, _⟩ := command_governs hw.sound hrun
      exact ⟨hsound, hevolves⟩
  | reconcileScope id now account source generation =>
      exact hkept (commit_governs hw.sound fun _ _ hrun => reconcileScope_governs hw.sound hrun)
  | revoke fresh now account subject =>
      exact hkept (commit_governs hw.sound fun _ _ hrun => revoke_governs hw.sound hrun)
  | register id actionId operation now owned eventAccount eventRun run request scope decision qualitySnapshot =>
      exact hkept (commit_governs hw.sound fun _ _ hrun => register_governs hw.sound hrun)
  | load account id run l h =>
      refine ⟨⟨hw.sound, fun l' hl' => ?_⟩, .refl _⟩
      rcases List.mem_cons.mp hl' with rfl | hl'
      · exact loadedOk_of_load hw.sound.toSoundRows h
      · exact hw.loaded l' hl'
  | worker call h => exact hkept (worker_governs call hw.sound (hw.loaded _ h))
  | surroundings accounts runs receipts => exact hkept ⟨hw.sound.congr rfl rfl, (Evolves.refl _).congr rfl rfl⟩

/-- **Any number of transactions**. -/
theorem kept_reaches (hw : Kept w) (h : Reaches requestHash w w') : Kept w' ∧ Evolves w.db w'.db := by
  induction h with
  | refl => exact ⟨hw, .refl _⟩
  | tail _ hstep ih =>
      obtain ⟨hkept, hevolves⟩ := kept_step ih.1 hstep
      exact ⟨hkept, ih.2.trans hevolves⟩

end runs

/-! ### The laws -/

/-- The source is forgotten. -/
def Forgotten (db : Store) (id : Uuid) : Prop := ∃ s, db.sources.lookup id = some s ∧ s.state = .forgotten

/-- The first source is a child of the second, in one account. -/
def ChildOf (db : Store) (child parent : Uuid) : Prop :=
  ∃ s ps, db.sources.lookup child = some s ∧ s.parent = some parent ∧ db.sources.lookup parent = some ps ∧
    ps.accountId = s.accountId

/-- The first source descends from the second. -/
def DescendantOf (db : Store) : Uuid → Uuid → Prop := Relation.TransGen (ChildOf db)

/-- A document of an account that may be read in a scope. -/
structure Readable (db : Store) (account : Uuid) (scope : Scope) (document : String) (id : Uuid) (s : Source) (a : Action) :
    Prop where
  row : db.sources.lookup id = some s
  owner : s.accountId = account
  document : s.documentId = document
  scope : s.scope = scope
  active : s.state = .active
  current : s.currentActionId.bind (actionOf db account) = some a
  source : a.sourceId = id
  verified : a.status = .verified
  generation : a.generation = s.generation

/-- What holds of the sources in a world, and from then on. -/
structure SourceLaws (requestHash : Hashed → ℕ) (w : World) : Prop where
  absorbing : ∀ w', Reaches requestHash w w' → ∀ id, Forgotten w.db id → Forgotten w'.db id
  stale : ∀ call : WorkerCall, call.loaded ∈ w.loaded →
    (∀ s, sourceOf w.db call.loaded.action.accountId call.loaded.action.sourceId = some s → s.isAt call.loaded = false) →
    (call.tx.commit w.db).sources = w.db.sources
  readable : ∀ account scope documents, ∀ document ∈ readableDocuments w.db account scope documents,
    (∃ id s a, Readable w.db account scope document id s a) ∧
      ∀ id b c, w.db.sources.lookup id = some b → b.accountId = account →
        b.currentActionId.bind (actionOf w.db account) = some c → c.kind ≠ .retain →
        b.scope = scope ∨ covers c.affectedScopes scope = true → c.status = .verified
  deleted : ∀ (fresh : Uuid → Uuid) id now account source key payload result db',
    (command requestHash fresh id now account source key payload).run w.db = .ok (result, db') → payload.kind = .delete →
    w.db.receipts.lookup (account, key) = none → actionByKey w.db account ("command:" ++ key) = none →
    Forgotten db' source ∧ ∀ child, DescendantOf db' child source → Forgotten db' child
  descendants : ∀ source child, Forgotten w.db source → DescendantOf w.db child source → Forgotten w.db child
  cleared : ∀ aid a, w.db.actions.lookup aid = some a → a.kind = .delete → a.status = .verified →
    ∀ bid b, w.db.actions.lookup bid = some b → b.sourceId = a.sourceId → b.requestPayload = none

section laws

variable {requestHash : Hashed → ℕ} {w w' : World} {db : Store}

theorem Sound.descendant_forgotten (hsound : Sound db) {source child : Uuid} (hsource : Forgotten db source)
    (h : DescendantOf db child source) : Forgotten db child := by
  induction h using Relation.TransGen.head_induction_on with
  | single h =>
      obtain ⟨s, ps, hs, hp, hps, haccount⟩ := h
      obtain ⟨ps', hps', hstate⟩ := hsource
      obtain rfl := Option.some.inj (hps.symm.trans hps')
      exact ⟨s, hs, hsound.children _ s _ ps hs hp hps haccount hstate⟩
  | head h _ ih =>
      obtain ⟨s, ps, hs, hp, hps, haccount⟩ := h
      obtain ⟨ps', hps', hstate⟩ := ih
      obtain rfl := Option.some.inj (hps.symm.trans hps')
      exact ⟨s, hs, hsound.children _ s _ ps hs hp hps haccount hstate⟩

/-- **What a reader sees** comes from a source that is in force, in a scope that nothing unverified concerns. -/
theorem readableDocuments_spec (hsound : Sound db) {account : Uuid} {scope : Scope} {documents : List String}
    {document : String} (h : document ∈ readableDocuments db account scope documents) :
    (∃ id s a, Readable db account scope document id s a) ∧
      ∀ id b c, db.sources.lookup id = some b → b.accountId = account →
        b.currentActionId.bind (actionOf db account) = some c → c.kind ≠ .retain →
        b.scope = scope ∨ covers c.affectedScopes scope = true → c.status = .verified := by
  unfold readableDocuments at h
  split at h
  · cases h
  obtain ⟨⟨id, s⟩, hmem, rfl⟩ := List.mem_map.mp h
  obtain ⟨hmem, hreadable⟩ := List.mem_filter.mp hmem
  have hrow : db.sources.lookup id = some s := AList.mem_lookup_iff.mpr hmem
  unfold readable at hreadable
  simp only [Bool.and_eq_true, decide_eq_true_eq, Bool.not_eq_true', Option.any_eq_true] at hreadable
  obtain ⟨⟨⟨⟨⟨⟨howner, hscope⟩, _⟩, hactive⟩, _⟩, a, ha, ⟨hsource, hverified⟩, hgeneration⟩, hfree⟩ := hreadable
  refine ⟨⟨id, s, a, hrow, howner, rfl, hscope, hactive, ha, hsource, hverified, hgeneration⟩,
    fun j b c hb hbowner hc hkind hon => ?_⟩
  by_contra hunverified
  rw [List.any_eq_false] at hfree
  refine hfree ⟨j, b⟩ (AList.mem_lookup_iff.mp hb) ?_
  have hcovers : covers c.affectedScopes scope = true := by
    rcases hon with hsame | hcovers
    · -- an action in force covers the scope of its own source
      obtain ⟨cid, hcid, hcrow⟩ := Option.bind_eq_some_iff.mp hc
      rw [← hsame]
      exact hsound.covered j b cid c hb hcid (actionOf_eq_some.mp hcrow).1 hkind
    · exact hcovers
  unfold withholds
  simp only [Bool.and_eq_true, decide_eq_true_eq, Option.any_eq_true]
  exact ⟨hbowner, c, hc, ⟨hkind, hunverified⟩, hscope ▸ hcovers⟩

/-- **The sources of every world that is reached.** -/
theorem memory_sources (hstart : w.Start) (h : Reaches requestHash w w') : SourceLaws requestHash w' := by
  have hkept := (kept_reaches hstart.kept h).1
  refine ⟨fun w'' h' id hforgotten => ?_, fun call _ hstale => worker_stale call hkept.sound hstale,
    fun account scope documents document hmem => readableDocuments_spec hkept.sound hmem,
    fun fresh id now account source key payload result db' hrun hdelete hreceipt hnone => ?_,
    fun source child hsource hdescends => hkept.sound.descendant_forgotten hsource hdescends,
    fun aid a ha hkind hstatus => (hkept.sound.cleared aid a ha hkind hstatus).2⟩
  · obtain ⟨s, hs, hstate⟩ := hforgotten
    obtain ⟨s', hs', _, _, hstays⟩ := (kept_reaches hkept h').2.sources id s hs
    exact ⟨s', hs', hstays hstate⟩
  · obtain ⟨hsound, _, hforgets⟩ := command_governs hkept.sound hrun
    have hforgotten : Forgotten db' source := hforgets hdelete hreceipt hnone
    exact ⟨hforgotten, fun child hdescends => hsound.descendant_forgotten hforgotten hdescends⟩

/-- A private source and a child of it. -/
def family : Store where
  accounts _ := some ⟨true, 0⟩
  runs _ := some ⟨0, some 9, none, some ⟨some "private", none, ""⟩, false⟩
  sources := (AList.insert 1 ⟨0, .chat, "root", 5, none, "root", ["scope:private"], 0, "chat-v2", 1, .active, false, none⟩ ∅).insert 2
    ⟨0, .promotion, "child", 5, some 1, "child", ["scope:private"], 0, "chat-v2", 1, .active, false, none⟩
  actions := ∅
  receipts := ∅

/-- The root is deleted. -/
def deletion : GovernanceTx (CommandResult × Bool) :=
  command (fun _ => 0) (fun source => source + 10) 7 0 0 1 "delete" ⟨.delete, 1, "", none, none⟩

theorem family_sources : ∀ e ∈ family.sources.entries, e.2.currentActionId = none ∧ e.2.state ≠ .forgotten := by decide

theorem memory_sources_deleted : SourceLaws (fun _ => 0) ⟨deletion.commit family, []⟩ ∧
    (((deletion.commit family).sources.lookup 2).map Source.state) = some .forgotten :=
  ⟨memory_sources ⟨fun _ => rfl, fun _ _ hs => family_sources _ (AList.mem_lookup_iff.mp hs), rfl⟩
     (.single (.command ⟨family, []⟩ _ _ _ _ _ _ _)), by decide⟩

end laws

end HpAgent.Memory.Governance
