import HpAgent.Memory.Revocations

/-! # Bindings, checks and dispatches between revocations

The transactions of an account in any order: revocations, bindings, checks that advance, model inputs and their
dispatches.

* `Refreshes`: what a check does to the manifests.
* `World`: the store with the epoch at which every manifest was bound.
* `Sound`: the numbers of the revocations, and the manifests of Executions and model inputs, as an invariant.
* `memory_revocation`: the laws over every history. -/

namespace HpAgent.Memory

open Library

variable {result : Option Manifest} {epoch : ℕ} {scopes : Option (List Scope)} {documents : List String}
  {admitted : Except Error Unit}

/-! ### What a check does -/

/-- The manifests of Executions stay or pass a check; nothing else changes. -/
structure Refreshes (db db' : ContextStore) : Prop where
  epochs : db'.epochs = db.epochs
  actions : db'.actions = db.actions
  snapshots : db'.snapshots = db.snapshots
  dispatches : db'.dispatches = db.dispatches
  executions : ∀ id x', db'.executions.lookup id = some x' →
    ∃ x, db.executions.lookup id = some x ∧ x'.accountId = x.accountId ∧
      (Recorded db → ∀ b m', x'.memoryContext = some m' →
        ∃ m, x.memoryContext = some m ∧ (Faithful db x.accountId m b → Faithful db x.accountId m' b))

theorem Refreshes.recorded {db db' : ContextStore} (h : Refreshes db db') (hdb : Recorded db) : Recorded db' := by
  refine hdb.congr (fun account => memoryEpoch_congr h.epochs) fun id => ?_
  unfold revocation
  rw [h.actions]

instance : IsPreorder ContextStore Refreshes where
  refl _ := ⟨rfl, rfl, rfl, rfl, fun _ x hx => ⟨x, hx, rfl, fun _ _ m hm => ⟨m, hm, fun h => h⟩⟩⟩
  trans db db₁ db₂ h h' := by
    refine ⟨h'.epochs.trans h.epochs, h'.actions.trans h.actions, h'.snapshots.trans h.snapshots,
      h'.dispatches.trans h.dispatches, fun id x₂ hx₂ => ?_⟩
    obtain ⟨x₁, hx₁, haccount₁, hmanifest₁⟩ := h'.executions id x₂ hx₂
    obtain ⟨x, hx, haccount, hmanifest⟩ := h.executions id x₁ hx₁
    refine ⟨x, hx, haccount₁.trans haccount, fun hdb b m₂ hm₂ => ?_⟩
    obtain ⟨m₁, hm₁, hfaithful₁⟩ := hmanifest₁ (h.recorded hdb) b m₂ hm₂
    obtain ⟨m, hm, hfaithful⟩ := hmanifest hdb b m₁ hm₁
    refine ⟨m, hm, fun hsince => ?_⟩
    have hmid := (hfaithful hsince).congr h.epochs h.actions
    rw [← haccount] at hmid
    have hlast := (hfaithful₁ hmid).congr h.epochs.symm h.actions.symm
    rw [haccount] at hlast
    exact hlast

section checks

variable {db db' : ContextStore} {account run : Uuid} {execution : Option Uuid} {advance : Bool}

theorem findExecution_spec {id : Uuid} {x : ExecutionRow} (h : findExecution db account run execution = some (id, x)) :
    db.executions.lookup id = some x ∧ x.accountId = account := by
  unfold findExecution at h
  cases execution with
  | some e =>
      obtain ⟨x', hx', heq⟩ := Option.map_eq_some_iff.mp h
      obtain ⟨hlookup, hmatch⟩ := Option.filter_eq_some_iff.mp hx'
      obtain ⟨rfl, rfl⟩ := Prod.mk.inj heq
      exact ⟨hlookup, (of_decide_eq_true hmatch).1⟩
  | none =>
      obtain ⟨e, he, heq⟩ := Option.map_eq_some_iff.mp h
      obtain ⟨rfl, rfl⟩ := Prod.mk.inj heq
      have hmatch := List.find?_some he
      simp only [Bool.and_eq_true, decide_eq_true_eq] at hmatch
      exact ⟨AList.mem_lookup_iff.mpr (List.mem_of_find?_eq_some he), hmatch.1.1⟩

/-- `check_execution` checks the manifest of the Execution it finds, and may store the outcome. -/
theorem checkExecution_ok (h : (checkExecution account run execution advance).run db = .ok (result, db')) :
    (∃ n, db.epochs account = some n) ∧
      ((findExecution db account run execution = none ∧ result = none ∧ db' = db) ∨
        ∃ id x, findExecution db account run execution = some (id, x) ∧
          checkManifest db account x.memoryContext (memoryEpoch db account) = .ok result ∧
          (db' = db ∨ db' = setContext id result db)) := by
  unfold checkExecution at h
  rw [Tx.bind_ok] at h
  obtain ⟨n, db₁, hepoch, h⟩ := h
  obtain ⟨rfl, hn, rfl⟩ := accountEpoch_ok hepoch
  refine ⟨⟨_, hn⟩, ?_⟩
  rw [Tx.bind_query_ok] at h
  cases hfound : findExecution db₁ account run execution with
  | none =>
      rw [hfound] at h
      obtain ⟨rfl, rfl⟩ := Tx.pure_ok.mp h
      exact .inl ⟨rfl, rfl, rfl⟩
  | some found =>
      obtain ⟨id, x⟩ := found
      rw [hfound] at h
      dsimp only at h
      rw [Tx.bind_query_ok, Tx.bind_ofExcept_ok] at h
      obtain ⟨m, hm, h⟩ := h
      refine .inr ⟨id, x, rfl, ?_⟩
      split at h
      · rw [Tx.bind_update_ok] at h
        obtain ⟨rfl, rfl⟩ := Tx.pure_ok.mp h
        exact ⟨hm, .inr rfl⟩
      · obtain ⟨rfl, rfl⟩ := Tx.pure_ok.mp h
        exact ⟨hm, .inl rfl⟩

/-- A manifest comes out of a check only when it went in. -/
theorem manifest_of_check {context : Option Manifest} {m' : Manifest}
    (h : checkManifest db account context epoch = .ok (some m')) : ∃ m, context = some m := by
  cases context with
  | none =>
      have hnone := (checkManifest_none.mp h).2
      cases hnone
  | some m => exact ⟨m, rfl⟩

theorem lookup_setContext (id j : Uuid) (manifest : Option Manifest) (db : ContextStore) :
    (setContext id manifest db).executions.lookup j =
      if j = id then (db.executions.lookup id).map fun x => { x with memoryContext := manifest }
      else db.executions.lookup j :=
  Table.lookup_modify db.executions id j _

theorem checkExecution_refreshes : Tx.Keeps Refreshes (checkExecution account run execution advance) := by
  intro db result db' h
  obtain ⟨-, ⟨-, -, rfl⟩ | ⟨id, x, hfound, hcheck, rfl | rfl⟩⟩ := checkExecution_ok h
  · exact refl_of Refreshes db'
  · exact refl_of Refreshes db'
  · obtain ⟨hx, rfl⟩ := findExecution_spec hfound
    refine ⟨rfl, rfl, rfl, rfl, fun j x' hx' => ?_⟩
    rw [lookup_setContext, hx] at hx'
    split at hx'
    · next hj =>
        subst hj
        obtain rfl := Option.some.inj hx'
        refine ⟨x, hx, rfl, fun hdb b m' hm' => ?_⟩
        dsimp only at hm'
        subst hm'
        obtain ⟨m, hm⟩ := manifest_of_check hcheck
        rw [hm] at hcheck
        exact ⟨m, hm, fun hsince => hsince.advance hdb hcheck⟩
    · exact ⟨x', hx', rfl, fun _ _ m hm => ⟨m, hm, fun hsince => hsince⟩⟩

theorem assertFence_refreshes (fence : Option (Uuid × Uuid)) (others : Except Error Unit) :
    Tx.Keeps Refreshes (assertFence account fence others) := by
  cases fence with
  | none => exact Tx.Keeps.pure _
  | some f => exact checkExecution_refreshes.bind fun _ => Tx.Keeps.ofExcept _

end checks

/-! ### Histories -/

/-- The store, the bindings of the Executions, and those of the model inputs. -/
structure World where
  db : ContextStore
  bound : Uuid × Uuid → Binding
  frozen : Uuid → Binding

/-- The transactions that touch accounts, Runs, memory actions, Executions and model inputs. -/
inductive Action where
  | openAccount (account : Uuid)
  | createRun (run account : Uuid)
  | createExecution (id account run : Uuid) (root : Bool) (parent : Option Uuid)
  | setStatus (id : Uuid) (executable : Bool)
  | retain (id account : Uuid) (affected : Option Affected)
  | recordRevocation (id account : Uuid) (forgotten : Bool) (affected : Affected)
  | command (account id : Uuid) (scope : Scope) (children : List (Uuid × Scope)) (invalidation : Option Affected)
  | reconcileScope (account id : Uuid) (affected : Affected)
  | bindContext (account execution : Uuid) (scopes : Option (List Scope)) (documents : List String) (epoch : ℕ)
  | checkExecution (account run : Uuid) (execution : Option Uuid) (advance : Bool)
  | insertSnapshot (id account run : Uuid) (operation : String) (execution : Option Uuid) (contentHash : String)
  | markDispatched (account id : Uuid) (fence : Option (Uuid × Uuid)) (fenced admitted : Except Error Unit)

/-- `INSERT INTO accounts`. -/
def openAccount (account : Uuid) : ContextTx Unit := do
  let taken ← Tx.query fun db => (db.epochs account).isSome
  Tx.check (taken = false) .integrityError
  Tx.update (setEpoch account 0)

/-- The transaction of an action. -/
def Action.tx : Action → ContextTx Unit
  | .openAccount account => Memory.openAccount account
  | .createRun run account => Tx.update fun db => { db with runs := Function.update db.runs run (some account) }
  | .createExecution id account run root parent => Memory.createExecution id account run root parent
  | .setStatus id executable => Tx.update fun db => { db with
      executions := Table.modify id (fun x => { x with executable := executable }) db.executions }
  | .retain id account affected => insertAction id ⟨account, none, affected⟩
  | .recordRevocation id account forgotten affected => Memory.recordRevocation id account forgotten affected
  | .command account id scope children invalidation => Memory.command account id scope children invalidation
  | .reconcileScope account id affected => Memory.reconcileScope account id affected
  | .bindContext account execution scopes documents epoch => Memory.bindContext account execution scopes documents epoch
  | .checkExecution account run execution advance => do
      let _ ← Memory.checkExecution account run execution advance
  | .insertSnapshot id account run operation execution contentHash => do
      let _ ← Memory.insertSnapshot id account run operation execution contentHash
  | .markDispatched account id fence fenced admitted => Memory.markDispatched account id fence fenced admitted

/-- The binding of memory that is not known. -/
def unknown : Binding := ⟨0, none⟩

/-- The revocation that an action makes when it commits: its account, its row and its scopes.  A source that is forgotten is
blocked already, and a restore invalidates nothing. -/
def Action.revokes : Action → Option (Uuid × Uuid × Affected)
  | .recordRevocation id account forgotten affected => if forgotten then none else some (account, id, affected)
  | .command account id _ _ invalidation => invalidation.map fun affected => (account, id, affected)
  | .reconcileScope account id affected => some (account, id, affected)
  | _ => none

/-- The bindings of the Executions; a child is bound as its parent was. -/
def Action.rebind (w : World) : Action → Uuid × Uuid → Binding
  | .createExecution id account _ _ parent => Function.update w.bound (account, id)
      (match parent with
       | none => ⟨memoryEpoch w.db account, some []⟩
       | some p => w.bound (account, p))
  | .bindContext account execution scopes _ _ =>
      Function.update w.bound (account, execution) ⟨memoryEpoch w.db account, scopes⟩
  | _ => w.bound

/-- The bindings of the model inputs: a new one has that of its Execution. -/
def Action.refreeze (w : World) : Action → Uuid → Binding
  | .insertSnapshot id account run _ execution _ =>
      if (w.db.snapshots.lookup id).isSome then w.frozen
      else Function.update w.frozen id
        (match findExecution w.db account run execution with
         | none => unknown
         | some (e, _) => w.bound (account, e))
  | _ => w.frozen

/-- An action that raises changes nothing. -/
def World.act (w : World) (a : Action) : World :=
  match a.tx.run w.db with
  | .ok (_, db') => ⟨db', a.rebind w, a.refreeze w⟩
  | .error _ => w

def start : World := ⟨⟨fun _ => none, fun _ => none, ∅, ∅, ∅, ∅⟩, fun _ => unknown, fun _ => unknown⟩

def run (actions : List Action) : World := actions.foldl World.act start

/-! ### The invariant -/

structure Sound (w : World) : Prop where
  recorded : Recorded w.db
  executions : ∀ id x m, w.db.executions.lookup id = some x → x.memoryContext = some m →
    Faithful w.db x.accountId m (w.bound (x.accountId, id))
  snapshots : ∀ id s m, w.db.snapshots.lookup id = some s → s.memoryContext = some m →
    Faithful w.db s.accountId m (w.frozen id)

theorem sound_start : Sound start := by
  refine ⟨⟨fun account k affected h => ?_, fun account k hpos hle => ?_, fun i j account k a b h => ?_⟩,
    fun id x m hx => ?_, fun id s m hs => ?_⟩
  · obtain ⟨id, hid⟩ := h
    cases hid
  · have hle : k ≤ 0 := hle
    omega
  · cases h
  · cases hx
  · cases hs

/-- A check never lets a context through that a revocation has met since it was bound. -/
theorem not_revokedSince_of_check {db : ContextStore} (hdb : Recorded db) {account : Uuid}
    {context : Option Manifest} {b : Binding} (hcontext : ∀ m, context = some m → Faithful db account m b)
    (h : checkManifest db account context (memoryEpoch db account) = .ok result) : ¬RevokedSince db account b := by
  cases context with
  | none =>
      rintro ⟨k, affected, hrevoked, -, -⟩
      have hzero := (checkManifest_none.mp h).1
      have hwithin := hdb.within account k affected hrevoked
      omega
  | some m => exact (((hcontext m rfl).checkManifest_ok hdb).mp h).1

/-- A step keeps the invariant, only adds revocations, and dispatches only what no revocation has met. -/
structure Moves (w w' : World) : Prop where
  sound : Sound w'
  later : Later w.db w'.db
  dispatches : ∀ account id, w'.db.dispatches.lookup (account, id) = some () →
    w.db.dispatches.lookup (account, id) = some () ∨
      ((∃ s, w.db.snapshots.lookup id = some s ∧ s.accountId = account) ∧ ¬RevokedSince w.db account (w.frozen id))

section steps

variable {w : World} {db' : ContextStore} {bound : Uuid × Uuid → Binding} {frozen : Uuid → Binding}
variable {execution : Option Uuid}
variable {account : Uuid} {db : ContextStore}

/-- A step of the log keeps every manifest as it is. -/
theorem Sound.of_logs (h : Sound w) {revoked : Option (Uuid × Uuid × Affected)} (hlogs : Logs revoked w.db db') :
    Moves w ⟨db', w.bound, w.frozen⟩ := by
  obtain ⟨hsame, hlog⟩ := hlogs
  have hkeep : (Recorded db' ∧ Later w.db db') ∧ ∀ account m b, Faithful w.db account m b → Faithful db' account m b := by
    cases revoked with
    | some r => exact ⟨⟨Revokes.recorded_of hlog h.recorded, Revokes.later hlog⟩, fun _ _ _ hm => Revokes.faithful hlog hm⟩
    | none =>
      obtain ⟨hepochs, hrevocations⟩ := hlog
      have hrevoked (account : Uuid) (k : ℕ) (affected : Option Affected) :
          Revoked db' account k affected ↔ Revoked w.db account k affected := by
        unfold Revoked
        simp only [hrevocations]
      refine ⟨⟨h.recorded.congr hepochs hrevocations, fun account => (hepochs account).ge, fun account k affected _ =>
        hrevoked account k affected⟩, fun account m b hm => ?_⟩
      refine ⟨hm.scopes, ?_, ?_, fun k affected hnow => hm.since k affected ((hrevoked account k affected).mp hnow)⟩
      · rw [hepochs]
        exact hm.checked
      · rw [hepochs]
        exact hm.bound
  refine ⟨⟨hkeep.1.1, fun id x m hx hm => ?_, fun id s m hs hm => ?_⟩, hkeep.1.2, fun account id hrow => .inl ?_⟩
  · have hx : db'.executions.lookup id = some x := hx
    rw [hsame.executions] at hx
    exact hkeep.2 _ m _ (h.executions id x m hx hm)
  · have hs : db'.snapshots.lookup id = some s := hs
    rw [hsame.snapshots] at hs
    exact hkeep.2 _ m _ (h.snapshots id s m hs hm)
  · rw [← hsame.dispatches]
    exact hrow

/-- The invariant holds of a store with the same log when the manifests in it are faithful. -/
theorem Sound.with_contexts (h : Sound w) (hepochs : db'.epochs = w.db.epochs) (hactions : db'.actions = w.db.actions)
    (hexecutions : ∀ id x m, db'.executions.lookup id = some x → x.memoryContext = some m →
      Faithful w.db x.accountId m (bound (x.accountId, id)))
    (hsnapshots : ∀ id s m, db'.snapshots.lookup id = some s → s.memoryContext = some m →
      Faithful w.db s.accountId m (frozen id)) : Sound ⟨db', bound, frozen⟩ := by
  refine ⟨h.recorded.congr (fun _ => memoryEpoch_congr hepochs) fun id => ?_, fun id x m hx hm => ?_,
    fun id s m hs hm => ?_⟩
  · unfold revocation
    rw [hactions]
  · exact (hexecutions id x m hx hm).congr hepochs hactions
  · exact (hsnapshots id s m hs hm).congr hepochs hactions

/-- A step that leaves the log and the dispatches alone. -/
theorem Sound.of_contexts (h : Sound w) (hepochs : db'.epochs = w.db.epochs) (hactions : db'.actions = w.db.actions)
    (hdispatches : db'.dispatches = w.db.dispatches)
    (hexecutions : ∀ id x m, db'.executions.lookup id = some x → x.memoryContext = some m →
      Faithful w.db x.accountId m (bound (x.accountId, id)))
    (hsnapshots : ∀ id s m, db'.snapshots.lookup id = some s → s.memoryContext = some m →
      Faithful w.db s.accountId m (frozen id)) : Moves w ⟨db', bound, frozen⟩ := by
  refine ⟨h.with_contexts hepochs hactions hexecutions hsnapshots, later_of_eq hepochs hactions, fun account id hrow => .inl ?_⟩
  rw [← hdispatches]
  exact hrow

theorem Sound.of_refreshes (h : Sound w) (hrefreshes : Refreshes w.db db') : Moves w ⟨db', w.bound, w.frozen⟩ := by
  refine h.of_contexts hrefreshes.epochs hrefreshes.actions hrefreshes.dispatches (fun id x' m' hx' hm' => ?_) fun id s m hs hm => ?_
  · obtain ⟨x, hx, haccount, hmanifest⟩ := hrefreshes.executions id x' hx'
    obtain ⟨m, hm, hfaithful⟩ := hmanifest h.recorded (w.bound (x.accountId, id)) m' hm'
    rw [haccount]
    exact hfaithful (h.executions id x m hx hm)
  · rw [hrefreshes.snapshots] at hs
    exact h.snapshots id s m hs hm

theorem Sound.createExecution (h : Sound w) {id run : Uuid} {root : Bool} {parent : Option Uuid} {u : Unit}
    (hrun : (Memory.createExecution id account run root parent).run w.db = .ok (u, db')) :
    Moves w ⟨db', (Action.createExecution id account run root parent).rebind w, w.frozen⟩ := by
  unfold Memory.createExecution at hrun
  rw [Tx.bind_query_ok, Tx.bind_check_ok, Tx.update_ok] at hrun
  obtain ⟨hfree, rfl⟩ := hrun
  refine h.of_contexts rfl rfl rfl (fun j x m hx hm => ?_) h.snapshots
  dsimp only at hx
  rw [Table.lookup_insert_ite] at hx
  unfold Action.rebind
  split at hx
  · next hj =>
      subst hj
      obtain rfl := Option.some.inj hx
      dsimp only at hm ⊢
      rw [Function.update_self]
      cases parent with
      | none =>
          obtain rfl := Option.some.inj hm
          exact ⟨rfl, Nat.zero_le _, Nat.le_refl _, fun _ _ _ hmeets => absurd rfl hmeets.1⟩
      | some p =>
          obtain ⟨y, hy, hcontext⟩ := Option.bind_eq_some_iff.mp hm
          obtain ⟨hlookup, haccount⟩ := Option.filter_eq_some_iff.mp hy
          have haccount := of_decide_eq_true haccount
          have hparent := h.executions p y m hlookup hcontext
          rw [haccount] at hparent
          exact hparent
  · next hj =>
      dsimp only
      rw [Function.update_of_ne (by simp [hj])]
      exact h.executions j x m hx hm

/-- `bind_context` checks the manifest that it stores. -/
theorem bindContext_ok {db' : ContextStore} {execution : Uuid}
    {u : Unit}
    (h : (Memory.bindContext account execution scopes documents epoch).run db = .ok (u, db')) :
    ∃ m result, m.epoch = epoch ∧ m.scopes = scopes ∧
      checkManifest db account (some m) (memoryEpoch db account) = .ok result ∧
      db' = if (db.executions.lookup execution).any (fun x => x.accountId = account) then setContext execution (some m) db else db := by
  unfold Memory.bindContext at h
  dsimp only at h
  rw [Tx.bind_ok] at h
  obtain ⟨n, db₁, hepoch, h⟩ := h
  obtain ⟨rfl, -, rfl⟩ := accountEpoch_ok hepoch
  rw [Tx.bind_query_ok, Tx.bind_ofExcept_ok] at h
  obtain ⟨result, hcheck, h⟩ := h
  exact ⟨_, result, rfl, rfl, hcheck, (Tx.update_ok.mp h).symm⟩

theorem Sound.bindContext (h : Sound w) {execution : Uuid}
    {u : Unit}
    (hrun : (Memory.bindContext account execution scopes documents epoch).run w.db = .ok (u, db')) :
    Moves w ⟨db', (Action.bindContext account execution scopes documents epoch).rebind w, w.frozen⟩ := by
  obtain ⟨m', result, -, rfl, hcheck, hrun⟩ := bindContext_ok hrun
  have hnew := faithful_of_check h.recorded hcheck
  have hother (j : Uuid) (x : ExecutionRow) (m : Manifest) (hx : w.db.executions.lookup j = some x)
      (hm : x.memoryContext = some m) (hne : ¬(x.accountId = account ∧ j = execution)) :
      Faithful w.db x.accountId m
        (Function.update w.bound (account, execution) ⟨memoryEpoch w.db account, m'.scopes⟩ (x.accountId, j)) := by
    rw [Function.update_of_ne (by simpa [Prod.mk.injEq] using hne)]
    exact h.executions j x m hx hm
  unfold Action.rebind
  split at hrun
  · next hrow =>
      obtain ⟨y, hy, hmatch⟩ := (Option.any_eq_true _ _).mp hrow
      subst hrun
      refine h.of_contexts rfl rfl rfl (fun j x m hx hm => ?_) h.snapshots
      rw [lookup_setContext] at hx
      split at hx
      · next hj =>
          subst hj
          obtain ⟨z, hz, rfl⟩ := Option.map_eq_some_iff.mp hx
          obtain rfl := Option.some.inj (hz.symm.trans hy)
          obtain rfl := Option.some.inj hm
          have haccount := of_decide_eq_true hmatch
          dsimp only
          rw [haccount, Function.update_self]
          exact hnew
      · next hj => exact hother j x m hx hm fun hboth => hj hboth.2
  · next hrow =>
      subst hrun
      refine h.of_contexts rfl rfl rfl (fun j x m hx hm => ?_) h.snapshots
      refine hother j x m hx hm fun hboth => hrow ?_
      rw [← hboth.2, hx, Option.any_some]
      exact decide_eq_true hboth.1

/-- `_insert` checks the Execution, and then returns the row of a replay or writes a new one. -/
theorem insertSnapshot_ok {db' : ContextStore} {id run : Uuid} {operation : String}
    {contentHash : String} {result : Uuid}
    (h : (insertSnapshot id account run operation execution contentHash).run db = .ok (result, db')) :
    ∃ manifest db₁, (checkExecution account run execution true).run db = .ok (manifest, db₁) ∧
      (db' = db₁ ∨ (db₁.snapshots.lookup id = none ∧ db' = { db₁ with
        snapshots := db₁.snapshots.insert id ⟨account, run, operation, execution, contentHash, manifest⟩ })) := by
  unfold insertSnapshot at h
  rw [Tx.bind_query_ok, Tx.bind_check_ok] at h
  obtain ⟨-, h⟩ := h
  rw [Tx.bind_ok] at h
  obtain ⟨manifest, db₁, hcheck, h⟩ := h
  refine ⟨manifest, db₁, hcheck, ?_⟩
  rw [Tx.bind_query_ok] at h
  split at h
  · rw [Tx.bind_check_ok] at h
    exact .inl (Tx.pure_ok.mp h.2).2.symm
  · rw [Tx.bind_query_ok, Tx.bind_check_ok] at h
    obtain ⟨hfree, h⟩ := h
    rw [Tx.bind_update_ok] at h
    exact .inr ⟨by simpa using hfree, (Tx.pure_ok.mp h).2.symm⟩

theorem Sound.insertSnapshot (h : Sound w) {id run : Uuid} {operation : String}
    {contentHash : String} {result : Uuid}
    (hrun : (Memory.insertSnapshot id account run operation execution contentHash).run w.db = .ok (result, db')) :
    Moves w ⟨db', w.bound, (Action.insertSnapshot id account run operation execution contentHash).refreeze w⟩ := by
  obtain ⟨manifest, db₁, hcheck, hdb'⟩ := insertSnapshot_ok hrun
  have hrefreshes := checkExecution_refreshes _ _ _ hcheck
  have hsound := (h.of_refreshes hrefreshes).sound
  unfold Action.refreeze
  dsimp only
  -- an existing model input keeps its own epoch, since a new one takes a key that no row has
  have hold (j : Uuid) (s : Snapshot) (m : Manifest) (hs : w.db.snapshots.lookup j = some s) (hm : s.memoryContext = some m)
      (b : Binding) : Faithful w.db s.accountId m
        ((if (w.db.snapshots.lookup id).isSome then w.frozen else Function.update w.frozen id b) j) := by
    split
    · exact h.snapshots j s m hs hm
    · next hfree =>
        have hne : j ≠ id := by
          rintro rfl
          rw [hs] at hfree
          exact hfree rfl
        rw [Function.update_of_ne hne]
        exact h.snapshots j s m hs hm
  obtain rfl | ⟨hfree, rfl⟩ := hdb'
  · refine h.of_contexts hrefreshes.epochs hrefreshes.actions hrefreshes.dispatches (fun j x m hx hm => ?_) fun j s m hs hm => ?_
    · exact (hsound.executions j x m hx hm).congr hrefreshes.epochs.symm hrefreshes.actions.symm
    · rw [hrefreshes.snapshots] at hs
      exact hold j s m hs hm _
  · refine h.of_contexts hrefreshes.epochs hrefreshes.actions hrefreshes.dispatches (fun j x m hx hm => ?_) fun j s m hs hm => ?_
    · exact (hsound.executions j x m hx hm).congr hrefreshes.epochs.symm hrefreshes.actions.symm
    · dsimp only at hs
      rw [hrefreshes.snapshots, Table.lookup_insert_ite] at hs
      split at hs
      · next hj =>
          subst hj
          obtain rfl := Option.some.inj hs
          dsimp only at hm ⊢
          subst hm
          rw [hrefreshes.snapshots] at hfree
          rw [hfree, if_neg (by simp), Function.update_self]
          obtain ⟨-, ⟨-, hnone, -⟩ | ⟨e, x, hfound, hpass, -⟩⟩ := checkExecution_ok hcheck
          · cases hnone
          · obtain ⟨hx, rfl⟩ := findExecution_spec hfound
            obtain ⟨m₀, hm₀⟩ := manifest_of_check hpass
            rw [hm₀] at hpass
            rw [hfound]
            exact (h.executions e x m₀ hx hm₀).advance h.recorded hpass
      · exact hold j s m hs hm _

/-- What a dispatch has seen: a model input of the account whose manifest passes its check. -/
theorem markDispatched_ok {db' : ContextStore} {id : Uuid} {fence : Option (Uuid × Uuid)}
    {fenced : Except Error Unit} {u : Unit}
    (h : (markDispatched account id fence fenced admitted).run db = .ok (u, db')) :
    ∃ s result db₁, Refreshes db db₁ ∧ db.snapshots.lookup id = some s ∧ s.accountId = account ∧
      checkManifest db₁ account s.memoryContext (memoryEpoch db₁ account) = .ok result ∧
      db' = { db₁ with dispatches := db₁.dispatches.insert (account, id) () } := by
  unfold markDispatched at h
  rw [Tx.bind_ok] at h
  obtain ⟨n, db₀, hepoch, h⟩ := h
  obtain ⟨-, -, rfl⟩ := accountEpoch_ok hepoch
  rw [Tx.bind_ok] at h
  obtain ⟨u₁, db₁, hfence, h⟩ := h
  have hfirst := assertFence_refreshes fence fenced _ _ _ hfence
  rw [Tx.bind_query_ok, Tx.bind_demand_ok] at h
  obtain ⟨s, hs, h⟩ := h
  obtain ⟨hlookup, haccount⟩ := Option.filter_eq_some_iff.mp hs
  rw [hfirst.snapshots] at hlookup
  rw [Tx.bind_query_ok, Tx.bind_demand_ok] at h
  obtain ⟨execution, -, h⟩ := h
  rw [Tx.bind_check_ok] at h
  obtain ⟨-, h⟩ := h
  rw [Tx.bind_ok] at h
  obtain ⟨checked, db₂, hcheck, h⟩ := h
  have hsecond := checkExecution_refreshes _ _ _ hcheck
  rw [Tx.bind_ok] at h
  obtain ⟨n', db₃, hepoch', h⟩ := h
  obtain ⟨rfl, -, rfl⟩ := accountEpoch_ok hepoch'
  rw [Tx.bind_query_ok, Tx.bind_ofExcept_ok] at h
  obtain ⟨result, hpass, h⟩ := h
  rw [Tx.bind_ofExcept_ok] at h
  obtain ⟨_, -, h⟩ := h
  rw [Tx.bind_query_ok, Tx.bind_check_ok, Tx.update_ok] at h
  exact ⟨s, result, db₃, trans_of Refreshes hfirst hsecond, hlookup, of_decide_eq_true haccount, hpass, h.2.symm⟩

theorem Sound.markDispatched (h : Sound w) {id : Uuid} {fence : Option (Uuid × Uuid)}
    {fenced : Except Error Unit} {u : Unit}
    (hrun : (Memory.markDispatched account id fence fenced admitted).run w.db = .ok (u, db')) :
    Moves w ⟨db', w.bound, w.frozen⟩ := by
  obtain ⟨s, result, db₁, hrefreshes, hs, rfl, hpass, rfl⟩ := markDispatched_ok hrun
  have hmid := h.of_refreshes hrefreshes
  have hs₁ : db₁.snapshots.lookup id = some s := by
    rw [hrefreshes.snapshots]
    exact hs
  refine ⟨hmid.sound.with_contexts rfl rfl hmid.sound.executions hmid.sound.snapshots,
    later_of_eq hrefreshes.epochs hrefreshes.actions, fun account j hrow => ?_⟩
  dsimp only at hrow
  rw [Table.lookup_insert_ite] at hrow
  split at hrow
  · next heq =>
      obtain ⟨rfl, rfl⟩ := Prod.mk.inj heq
      refine .inr ⟨⟨s, hs, rfl⟩, fun hsince => ?_⟩
      refine not_revokedSince_of_check hmid.sound.recorded (hmid.sound.snapshots j s · hs₁) hpass ?_
      obtain ⟨k, affected, hrevoked, hlt, hmeets⟩ := hsince
      exact ⟨k, affected, (revoked_congr hrefreshes.actions).mpr hrevoked, hlt, hmeets⟩
  · rw [hrefreshes.dispatches] at hrow
    exact .inl hrow

theorem openAccount_logs : Tx.Keeps (Logs none) (Memory.openAccount account) := by
  intro db u db' h
  unfold Memory.openAccount at h
  rw [Tx.bind_query_ok, Tx.bind_check_ok, Tx.update_ok] at h
  obtain ⟨hfree, rfl⟩ := h
  refine ⟨⟨rfl, rfl, rfl⟩, fun other => ?_, fun _ => rfl⟩
  rw [memoryEpoch_setEpoch]
  split
  · next heq =>
      subst heq
      have hnone : db.epochs other = none := by simpa using hfree
      unfold memoryEpoch
      rw [hnone]
      rfl
  · rfl

theorem logged_of_same (hepochs : db'.epochs = db.epochs) (hactions : db'.actions = db.actions) :
    Logged none db db' := by
  refine ⟨fun _ => memoryEpoch_congr hepochs, fun id => ?_⟩
  unfold revocation
  rw [hactions]

/-- **A revocation that commits is recorded**, and no other action moves the log. -/
theorem tx_logged (a : Action) {u : Unit} (h : a.tx.run db = .ok (u, db')) : Logged a.revokes db db' := by
  cases a with
  | openAccount account => exact (openAccount_logs _ _ _ h).2
  | createRun run account =>
      obtain rfl := Tx.update_ok.mp h
      exact logged_of_same rfl rfl
  | createExecution id account run root parent =>
      have h : (Memory.createExecution id account run root parent).run db = .ok (u, db') := h
      unfold Memory.createExecution at h
      rw [Tx.bind_query_ok, Tx.bind_check_ok, Tx.update_ok] at h
      obtain ⟨-, rfl⟩ := h
      exact logged_of_same rfl rfl
  | setStatus id executable =>
      obtain rfl := Tx.update_ok.mp h
      exact logged_of_same rfl rfl
  | retain id account affected => exact (insertAction_retains _ _ _ h).logs.2
  | recordRevocation id account forgotten affected => exact (recordRevocation_logs forgotten affected _ _ _ h).2
  | command account id scope children invalidation => exact (command_logs scope children invalidation _ _ _ h).2
  | reconcileScope account id affected => exact (reconcileScope_logs affected _ _ _ h).2
  | bindContext account execution scopes documents epoch =>
      obtain ⟨m, result, -, -, -, rfl⟩ := bindContext_ok h
      split
      · exact logged_of_same rfl rfl
      · exact logged_of_same rfl rfl
  | checkExecution account run execution advance =>
      obtain ⟨result, db₁, hcheck, h⟩ := Tx.bind_ok.mp h
      obtain ⟨-, rfl⟩ := Tx.pure_ok.mp h
      have hrefreshes := checkExecution_refreshes _ _ _ hcheck
      exact logged_of_same hrefreshes.epochs hrefreshes.actions
  | insertSnapshot id account run operation execution contentHash =>
      obtain ⟨result, db₁, hinsert, h⟩ := Tx.bind_ok.mp h
      obtain ⟨-, rfl⟩ := Tx.pure_ok.mp h
      obtain ⟨manifest, db₂, hcheck, rfl | ⟨-, rfl⟩⟩ := insertSnapshot_ok hinsert
      all_goals
        have hrefreshes := checkExecution_refreshes _ _ _ hcheck
        exact logged_of_same hrefreshes.epochs hrefreshes.actions
  | markDispatched account id fence fenced admitted =>
      obtain ⟨s, result, db₁, hrefreshes, -, -, -, rfl⟩ := markDispatched_ok h
      exact logged_of_same hrefreshes.epochs hrefreshes.actions

theorem moves_act (h : Sound w) (a : Action) : Moves w (w.act a) := by
  unfold World.act
  split
  · next u db' hrun =>
      cases a with
      | openAccount account =>
          exact h.of_logs (openAccount_logs _ _ _ hrun)
      | createRun run account =>
          have hrun := Tx.update_ok.mp hrun
          subst hrun
          exact h.of_contexts rfl rfl rfl h.executions h.snapshots
      | createExecution id account run root parent => exact h.createExecution hrun
      | setStatus id executable =>
          have hrun := Tx.update_ok.mp hrun
          subst hrun
          refine h.of_refreshes ⟨rfl, rfl, rfl, rfl, fun j x' hx' => ?_⟩
          dsimp only at hx'
          rw [Table.lookup_modify] at hx'
          split at hx'
          · next hj =>
              subst hj
              obtain ⟨x, hx, rfl⟩ := Option.map_eq_some_iff.mp hx'
              exact ⟨x, hx, rfl, fun _ _ m hm => ⟨m, hm, fun hsince => hsince⟩⟩
          · exact ⟨x', hx', rfl, fun _ _ m hm => ⟨m, hm, fun hsince => hsince⟩⟩
      | retain id account affected => exact h.of_logs (insertAction_retains _ _ _ hrun).logs
      | recordRevocation id account forgotten affected => exact h.of_logs (recordRevocation_logs forgotten affected _ _ _ hrun)
      | command account id scope children invalidation =>
          exact h.of_logs (command_logs scope children invalidation _ _ _ hrun)
      | reconcileScope account id affected => exact h.of_logs (reconcileScope_logs affected _ _ _ hrun)
      | bindContext account execution scopes documents epoch => exact h.bindContext hrun
      | checkExecution account run execution advance =>
          have hrun : (do let _ ← Memory.checkExecution account run execution advance : ContextTx Unit).run w.db = .ok (u, db') := hrun
          rw [Tx.bind_ok] at hrun
          obtain ⟨result, db₁, hcheck, hrun⟩ := hrun
          obtain ⟨-, rfl⟩ := Tx.pure_ok.mp hrun
          exact h.of_refreshes (checkExecution_refreshes _ _ _ hcheck)
      | insertSnapshot id account run operation execution contentHash =>
          have hrun : (do let _ ← Memory.insertSnapshot id account run operation execution contentHash : ContextTx Unit).run w.db = .ok (u, db') := hrun
          rw [Tx.bind_ok] at hrun
          obtain ⟨result, db₁, hinsert, hrun⟩ := hrun
          obtain ⟨-, rfl⟩ := Tx.pure_ok.mp hrun
          exact h.insertSnapshot hinsert
      | markDispatched account id fence fenced admitted => exact h.markDispatched hrun
  · exact ⟨h, refl_of Later w.db, fun _ _ hrow => .inl hrow⟩

end steps

theorem sound_run (actions : List Action) : Sound (run actions) := by
  unfold run
  induction actions using List.reverseRecOn with
  | nil => exact sound_start
  | append_singleton actions a ih =>
      rw [List.foldl_concat]
      exact (moves_act ih a).sound

theorem run_append (actions more : List Action) : run (actions ++ more) = more.foldl World.act (run actions) := by
  unfold run
  rw [List.foldl_append]

theorem later_run (actions more : List Action) : Later (run actions).db (run (actions ++ more)).db := by
  induction more using List.reverseRecOn with
  | nil =>
      rw [List.append_nil]
      exact refl_of Later _
  | append_singleton more a ih =>
      rw [← List.append_assoc, run_append (actions ++ more) [a]]
      exact trans_of Later ih (moves_act (sound_run (actions ++ more)) a).later

/-! ### Checking in steps -/

theorem checkManifest_error {db : ContextStore} {account : Uuid} {context : Option Manifest} {e : Error}
    (h : checkManifest db account context epoch = .error e) : e = .memoryContextRevoked := by
  unfold checkManifest at h
  cases context with
  | none =>
      dsimp only at h
      split at h
      · exact (Except.error.inj h).symm
      · cases h
  | some m =>
      dsimp only at h
      split at h
      · exact (Except.error.inj h).symm
      · split at h
        · cases h
        · split at h
          · exact (Except.error.inj h).symm
          · split at h
            · exact (Except.error.inj h).symm
            · cases h

/-- A check after an earlier check decides what the check alone decides. -/
theorem check_in_steps {db db' : ContextStore} (hdb : Recorded db) (hdb' : Recorded db') (hlater : Later db db')
    {account : Uuid} {context : Option Manifest} (hepoch : ∀ m, context = some m → m.epoch ≤ memoryEpoch db account) :
    (checkManifest db account context (memoryEpoch db account) >>= fun c =>
      checkManifest db' account c (memoryEpoch db' account)) = checkManifest db' account context (memoryEpoch db' account) := by
  have hgrows := hlater.epochs account
  cases hfirst : checkManifest db account context (memoryEpoch db account) with
  | error e =>
      obtain rfl := checkManifest_error hfirst
      cases hdirect : checkManifest db' account context (memoryEpoch db' account) with
      | error e =>
          obtain rfl := checkManifest_error hdirect
          rfl
      | ok result =>
          exfalso
          cases context with
          | none =>
              obtain ⟨hzero, rfl⟩ := checkManifest_none.mp hdirect
              have hpass : checkManifest db account none (memoryEpoch db account) = .ok none :=
                checkManifest_none.mpr ⟨by omega, rfl⟩
              rw [hfirst] at hpass
              cases hpass
          | some m =>
              obtain ⟨-, hnone, -⟩ := (checkManifest_ok hdb').mp hdirect
              have hpass : checkManifest db account (some m) (memoryEpoch db account) =
                  .ok (some { m with epoch := memoryEpoch db account }) := (checkManifest_ok hdb).mpr
                ⟨hepoch m rfl, fun k affected hrevoked => hnone k affected
                  ((hlater.revoked account k affected (hdb.within account k affected hrevoked).2).mpr hrevoked), rfl⟩
              rw [hfirst] at hpass
              cases hpass
  | ok c =>
      show checkManifest db' account c (memoryEpoch db' account) = _
      cases context with
      | none =>
          obtain ⟨-, rfl⟩ := checkManifest_none.mp hfirst
          rfl
      | some m =>
          obtain ⟨hle, hnone, rfl⟩ := (checkManifest_ok hdb).mp hfirst
          have hsame (result : Option Manifest) :
              checkManifest db' account (some { m with epoch := memoryEpoch db account }) (memoryEpoch db' account) = .ok result ↔
                checkManifest db' account (some m) (memoryEpoch db' account) = .ok result := by
            rw [checkManifest_ok hdb', checkManifest_ok hdb']
            dsimp only
            constructor
            · rintro ⟨-, hlast, hresult⟩
              refine ⟨hle.trans hgrows, fun k affected hrevoked hmeets => ?_, hresult⟩
              have hbefore := hlast k affected hrevoked hmeets
              exact hnone k affected ((hlater.revoked account k affected hbefore).mp hrevoked) hmeets
            · rintro ⟨-, hlast, hresult⟩
              exact ⟨hgrows, fun k affected hrevoked hmeets => (hlast k affected hrevoked hmeets).trans hle, hresult⟩
          cases hdirect : checkManifest db' account (some m) (memoryEpoch db' account) with
          | ok result => exact (hsame result).mpr hdirect
          | error e =>
              obtain rfl := checkManifest_error hdirect
              cases hstep : checkManifest db' account (some { m with epoch := memoryEpoch db account }) (memoryEpoch db' account) with
              | ok result =>
                  rw [(hsame result).mp hstep] at hdirect
                  cases hdirect
              | error e' =>
                  obtain rfl := checkManifest_error hstep
                  rfl

/-! ### The laws -/

/-- `check_execution` refuses what the check of the manifest refuses. -/
theorem checkExecution_refuses {db : ContextStore} {account run id : Uuid} {execution : Option Uuid} {advance : Bool}
    {x : ExecutionRow} {e : Error} {n : ℕ} (hn : db.epochs account = some n)
    (hfound : findExecution db account run execution = some (id, x))
    (hcheck : checkManifest db account x.memoryContext (memoryEpoch db account) = .error e) :
    (checkExecution account run execution advance).run db = .error e := by
  have hepoch : (accountEpoch account).run db = .ok (n, db) := by
    unfold accountEpoch
    rw [Tx.bind_query_ok, Tx.demand_ok]
    exact ⟨hn, rfl⟩
  obtain ⟨rfl, -, -⟩ := accountEpoch_ok hepoch
  unfold checkExecution
  rw [Tx.bind_error]
  refine .inr ⟨_, _, hepoch, ?_⟩
  rw [Tx.bind_query_error, hfound]
  dsimp only
  rw [Tx.bind_query_error, hcheck]
  rfl

/-- What holds after a history. -/
structure RevocationLaws (actions : List Action) : Prop where
  /-- A revocation that commits advances the epoch of its account by one and leaves its row, with this epoch and its scopes;
  any other action leaves the epochs and the revocations as they are. -/
  recorded : ∀ a u db', a.tx.run (run actions).db = .ok (u, db') →
    (run (actions ++ [a])).db = db' ∧ Logged a.revokes (run actions).db db'
  /-- The invalidation epochs of an account, in their order. -/
  numbered : ∀ account, (revocationsAfter (run actions).db account 0).map Prod.fst =
    List.range' 1 (memoryEpoch (run actions).db account)
  /-- `check_manifest` refuses an Execution that a revocation has met since its binding. -/
  manifest_refused : ∀ id x, (run actions).db.executions.lookup id = some x →
    RevokedSince (run actions).db x.accountId ((run actions).bound (x.accountId, id)) →
    checkManifest (run actions).db x.accountId x.memoryContext (memoryEpoch (run actions).db x.accountId) =
      .error .memoryContextRevoked
  /-- `check_execution` refuses it too. -/
  execution_refused : ∀ account runId execution advance id x,
    findExecution (run actions).db account runId execution = some (id, x) →
    RevokedSince (run actions).db account ((run actions).bound (account, id)) →
    (checkExecution account runId execution advance).run (run actions).db = .error .memoryContextRevoked
  /-- An Execution that no revocation has met since its binding passes. -/
  manifest_passes : ∀ id x m, (run actions).db.executions.lookup id = some x → x.memoryContext = some m →
    ¬RevokedSince (run actions).db x.accountId ((run actions).bound (x.accountId, id)) →
    checkManifest (run actions).db x.accountId (some m) (memoryEpoch (run actions).db x.accountId) =
      .ok (some { m with epoch := memoryEpoch (run actions).db x.accountId })
  /-- Checking now and after more actions decides what checking only then decides. -/
  steps : ∀ more account context, (∀ m, context = some m → m.epoch ≤ memoryEpoch (run actions).db account) →
    (checkManifest (run actions).db account context (memoryEpoch (run actions).db account) >>= fun c =>
      checkManifest (run (actions ++ more)).db account c (memoryEpoch (run (actions ++ more)).db account)) =
    checkManifest (run (actions ++ more)).db account context (memoryEpoch (run (actions ++ more)).db account)
  /-- A row of `model_dispatches` is for a model input that no revocation has met since its manifest was bound. -/
  dispatched : ∀ a account id, (run (actions ++ [a])).db.dispatches.lookup (account, id) = some () →
    (run actions).db.dispatches.lookup (account, id) = none →
    (∃ s, (run actions).db.snapshots.lookup id = some s ∧ s.accountId = account) ∧
      ¬RevokedSince (run actions).db account ((run actions).frozen id)

/-- An account with a revocation is there. -/
theorem epochs_of_revoked {db : ContextStore} (hdb : Recorded db) {account : Uuid} {b : Binding}
    (h : RevokedSince db account b) : ∃ n, db.epochs account = some n := by
  obtain ⟨k, affected, hrevoked, -, -⟩ := h
  have hwithin := hdb.within account k affected hrevoked
  cases hn : db.epochs account with
  | some n => exact ⟨n, rfl⟩
  | none =>
      have hzero : memoryEpoch db account = 0 := by
        unfold memoryEpoch
        rw [hn]
        rfl
      omega

theorem Sound.refused {w : World} (h : Sound w) {id : Uuid} {x : ExecutionRow} (hx : w.db.executions.lookup id = some x)
    (hsince : RevokedSince w.db x.accountId (w.bound (x.accountId, id))) :
    checkManifest w.db x.accountId x.memoryContext (memoryEpoch w.db x.accountId) = .error .memoryContextRevoked := by
  cases hcheck : checkManifest w.db x.accountId x.memoryContext (memoryEpoch w.db x.accountId) with
  | error e => rw [checkManifest_error hcheck]
  | ok result => exact absurd hsince (not_revokedSince_of_check h.recorded (h.executions id x · hx) hcheck)

/-- Memory revocation is never skipped. -/
theorem memory_revocation (actions : List Action) : RevocationLaws actions := by
  have hsound := sound_run actions
  refine ⟨fun a u db' hrun => ⟨?_, tx_logged a hrun⟩, fun account => ?_, fun id x hx hsince => hsound.refused hx hsince, ?_,
    fun id x m hx hm hnone => ?_, fun more account context hepoch => ?_, fun a account id hrow hbefore => ?_⟩
  · rw [run_append]
    show ((run actions).act a).db = db'
    unfold World.act
    rw [hrun]
  · exact hsound.recorded.revocationsAfter_epochs account 0
  · intro account runId execution advance id x hfound hsince
    obtain ⟨hx, rfl⟩ := findExecution_spec hfound
    obtain ⟨n, hn⟩ := epochs_of_revoked hsound.recorded hsince
    exact checkExecution_refuses hn hfound (hsound.refused hx hsince)
  · exact ((hsound.executions id x m hx hm).checkManifest_ok hsound.recorded).mpr ⟨hnone, rfl⟩
  · exact check_in_steps hsound.recorded (sound_run (actions ++ more)).recorded (later_run actions more) hepoch
  · rw [run_append] at hrow
    obtain hold | hnew := (moves_act hsound a).dispatches account id hrow
    · rw [hbefore] at hold
      cases hold
    · exact hnew

/-- An Execution is bound to what it has read of a chat; another scope is revoked and a check advances, and then the chat. -/
def revokedChat : List Action :=
  [.openAccount 1, .createRun 2 1, .createExecution 3 1 2 true none, .bindContext 1 3 (some [["chat"]]) [] 0,
    .recordRevocation 4 1 false (.scopes [["mail"]]), .checkExecution 1 2 (some 3) true, .command 1 5 ["chat"] [] (some (.scopes [["chat"]]))]

/-- Both revocations are recorded, and the next check of the Execution refuses it. -/
theorem memory_revocation_chat :
    revocation (run revokedChat).db 5 = some (1, 2, some (.scopes [["chat"]])) ∧
      (checkExecution 1 2 (some 3) true).run (run revokedChat).db = .error .memoryContextRevoked := by
  have hrevoked : revocation (run revokedChat).db 5 = some (1, 2, some (.scopes [["chat"]])) := by decide +kernel
  refine ⟨hrevoked, (memory_revocation revokedChat).execution_refused 1 2 (some 3) true 3
    ⟨1, 2, true, true, some ⟨1, some [["chat"]], []⟩⟩ (by decide +kernel) ⟨2, _, ⟨5, hrevoked⟩, by decide +kernel, ?_⟩⟩
  exact ⟨by decide +kernel, by decide +kernel⟩

end HpAgent.Memory
