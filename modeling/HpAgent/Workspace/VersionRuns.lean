import HpAgent.Workspace.Versions

/-! # Versions over whole histories

The commands of an account in any order, with files that are stored and retired in between.  The current revision of a
destination only moves when an update that expects it is made, and then by one.

* `Host`: the functions of the standard library that the commands use.
* `Advances`: the step that makes the revision after a given one.
* `version_chain`: the laws over every history. -/

namespace HpAgent.Workspace

open Library

/-- Unicode normalization, case folding, stripping, and the digest of an intent. -/
structure Host (δ : Type) where
  nfc : String → String
  casefold : String → String
  strip : String → String
  digest : Intent → δ

def Host.name {δ : Type} (host : Host δ) (value : String) : Except CatalogError (String × String) :=
  normalizeName host.nfc host.casefold host.strip value

/-! ### Histories -/

/-- The commands, and what happens to files around them. -/
inductive Action where
  | openWorkspace (account workspace root : Uuid)
  | storeFile (id : Uuid) (file : StoredFile)
  | retireFile (id : Uuid)
  | publish (account file : Uuid)
  | createDirectory (caller : Verdict) (name : String) (fresh account parent : Uuid)
  | saveFile (caller granted : Verdict) (name : String) (fresh account parent file : Uuid) (operation : String)
      (agentRun : Option Uuid)
  | upgradeFile (caller : Verdict) (fresh account id : Uuid) (initialOperation : String)
  | updateFile (caller granted : Verdict) (u : Update)
  | move (caller stopped : Verdict) (stale : Bool) (name : String) (account id parent : Uuid)
  | remove (caller stopped : Verdict) (bound stale : Bool) (account id : Uuid)

variable {a : Action}

section histories

variable {δ : Type}

/-- `WorkspaceCatalog.initialize`, up to the root; an account that has a workspace keeps it. -/
def openWorkspace (account workspace root : Uuid) : CatalogTx δ Unit := do
  let existing ← Tx.query fun db => db.workspaces account
  match existing with
  | some _ => pure ()
  | none => do
      Tx.update fun db => { db with workspaces := Function.update db.workspaces account (some workspace) }
      insertNode root ⟨account, workspace, none, .directory, "", "", none, none, false⟩

variable [DecidableEq δ] (host : Host δ)

/-- The transaction of an action. -/
def Action.tx : Action → CatalogTx δ Unit
  | .openWorkspace account workspace root => Workspace.openWorkspace account workspace root
  | .storeFile id file => Tx.update fun db => { db with
      files := if (db.files.lookup id).isSome then db.files else db.files.insert id file }
  | .retireFile id => Tx.update fun db => { db with
      files := Table.modify id (fun f => { f with ready := false }) db.files }
  | .publish account file => Tx.update fun db => { db with
      outputs := fun a f => (a = account && f = file) || db.outputs a f }
  | .createDirectory caller name fresh account parent => do
      let _ ← Workspace.createDirectory caller (host.name name) fresh account parent
  | .saveFile caller granted name fresh account parent file operation agentRun => do
      let _ ← Workspace.saveFile host.digest caller granted (host.name name) fresh account parent file operation agentRun
  | .upgradeFile caller fresh account id initialOperation => do
      let _ ← Workspace.upgradeFile caller fresh account id initialOperation
  | .updateFile caller granted u => do
      let _ ← Workspace.updateFile host.digest caller granted u
  | .move caller stopped stale name account id parent =>
      Workspace.move caller stopped stale (host.name name) account id parent
  | .remove caller stopped bound stale account id => Workspace.remove caller stopped bound stale account id

def act (db : CatalogStore δ) (a : Action) : CatalogStore δ := (a.tx host).commit db

def start : CatalogStore δ := ⟨fun _ => none, fun _ => 1, ∅, ∅, fun _ _ => false, ∅, ∅, ∅, ∅⟩

def run (actions : List Action) : CatalogStore δ := actions.foldl (act host) start

end histories

/-! ### What a step does -/

section steps

variable {δ : Type} [DecidableEq δ] {host : Host δ} {db db' : CatalogStore δ}

/-- What a step does to versions, and what it never takes back. -/
inductive Effect (host : Host δ) (db db' : CatalogStore δ) (a : Action) : Prop
  | same (h : SameVersions db db')
  | created (d : Uuid) (x : Destination) (r : Revision) (h : Created db db' d x r)
  | made (caller granted : Verdict) (u : Update) (ha : a = .updateFile caller granted u) (d : Uuid) (x : Destination)
      (r : Revision) (h : Made host.digest db db' u d x r)

theorem discard_ok {ε σ α : Type} {m : Tx ε σ α} {s s' : σ} {u : Unit}
    (h : (do let _ ← m : Tx ε σ Unit).run s = .ok (u, s')) : ∃ a, m.run s = .ok (a, s') := by
  rw [Tx.bind_ok] at h
  obtain ⟨a, s₁, hm, h⟩ := h
  obtain ⟨-, rfl⟩ := Tx.pure_ok.mp h
  exact ⟨a, hm⟩

variable (host) in
theorem effect_act (db : CatalogStore δ) (a : Action) : Effect host db (act host db a) a := by
  unfold act
  refine Tx.commit_rule (fun s => Effect host db s a) (.same (refl_of SameVersions db)) fun u db' h => ?_
  cases a with
  | openWorkspace account workspace root =>
      refine .same ?_
      have h : (Workspace.openWorkspace account workspace root).run db = .ok (u, db') := h
      unfold Workspace.openWorkspace at h
      rw [Tx.bind_query_ok] at h
      split at h
      · obtain ⟨-, rfl⟩ := Tx.pure_ok.mp h
        exact refl_of SameVersions db
      · next hnone =>
          rw [Tx.bind_update_ok] at h
          have hplace := insertNode_sameVersions _ _ _ _ _ h
          refine ⟨⟨fun a w hw => hplace.workspaces a w ?_, hplace.saveOperations⟩, hplace.destinations, hplace.revisions,
            hplace.versionOperations⟩
          have hne : a ≠ account := by
            rintro rfl
            rw [hnone] at hw
            cases hw
          exact (Function.update_of_ne hne _ _).trans hw
  | storeFile id file =>
      have h := Tx.update_ok.mp h
      subst h
      exact .same ⟨remembers_of_eq rfl rfl, rfl, rfl, rfl⟩
  | retireFile id =>
      have h := Tx.update_ok.mp h
      subst h
      exact .same ⟨remembers_of_eq rfl rfl, rfl, rfl, rfl⟩
  | publish account file =>
      have h := Tx.update_ok.mp h
      subst h
      exact .same ⟨remembers_of_eq rfl rfl, rfl, rfl, rfl⟩
  | createDirectory caller name fresh account parent =>
      obtain ⟨id, h⟩ := discard_ok h
      exact .same (createDirectory_sameVersions _ _ _ _ _ _ _ _ h)
  | saveFile caller granted name fresh account parent file operation agentRun =>
      obtain ⟨id, h⟩ := discard_ok h
      exact .same (saveFile_saved h).toSameVersions
  | upgradeFile caller fresh account id operation =>
      obtain ⟨current, h⟩ := discard_ok h
      obtain rfl | ⟨x, r, hcreated⟩ := upgradeFile_cases h
      · exact .same (refl_of SameVersions db')
      · exact .created fresh x r hcreated
  | updateFile caller granted u =>
      obtain ⟨version, h⟩ := discard_ok h
      obtain ⟨p, -, -, -, rfl⟩ | ⟨d, x, r, hmade, -⟩ := updateFile_cases h
      · exact .same (refl_of SameVersions db')
      · exact .made caller granted u rfl d x r hmade
  | move caller stopped stale name account id parent => exact .same (move_sameVersions _ _ _ _ _ _ _ _ _ _ h)
  | remove caller stopped bound stale account id => exact .same (remove_sameVersions _ _ _ _ _ _ _ _ _ h)

omit [DecidableEq δ] in
theorem Effect.chained (h : Effect host db db' a) (hdb : Chained db) : Chained db' := by
  cases h with
  | same hsame => exact hdb.of_same hsame
  | created d x r hcreated => exact hcreated.chained hdb
  | made caller granted u ha d x r hmade => exact hmade.toAppended.chained hdb

/-- The current revision of a destination. -/
def currentRevision (db : CatalogStore δ) (d : Uuid) : Option ℕ := (db.destinations.lookup d).map Destination.currentRevision

omit [DecidableEq δ] in
/-- The current revision stays, starts at one, or moves on by one when an update that expects it is made. -/
theorem Effect.currentRevision (h : Effect host db db' a) (d : Uuid) :
    currentRevision db' d = currentRevision db d ∨ (currentRevision db d = none ∧ currentRevision db' d = some 1) ∨
      ∃ caller granted u x r, a = .updateFile caller granted u ∧ Made host.digest db db' u d x r ∧
        currentRevision db d = some u.expectedRevision ∧ currentRevision db' d = some (u.expectedRevision + 1) := by
  unfold Workspace.currentRevision
  cases h with
  | same hsame =>
      rw [hsame.destinations]
      exact .inl rfl
  | created k x r hcreated =>
      rw [hcreated.destinations]
      split
      · next heq =>
          subst heq
          rw [hcreated.free]
          exact .inr (.inl ⟨rfl, congrArg some hcreated.first.1⟩)
      · exact .inl rfl
  | made caller granted u ha k x r hmade =>
      by_cases heq : d = k
      · subst heq
        rw [hmade.destinations, if_pos rfl, hmade.destination]
        exact .inr (.inr ⟨caller, granted, u, x, r, ha, hmade, congrArg some hmade.expected,
          congrArg (fun n => some (n + 1)) hmade.expected⟩)
      · rw [hmade.destinations, if_neg heq]
        exact .inl rfl

/-- Destinations move on, and recorded operations and workspaces stay. -/
structure Grows (db db' : CatalogStore δ) : Prop extends Remembers db db' where
  currentRevision : ∀ d n, currentRevision db d = some n → ∃ n', currentRevision db' d = some n' ∧ n ≤ n'
  versionOperations : ∀ k p, db.versionOperations.lookup k = some p → db'.versionOperations.lookup k = some p

instance : IsPreorder (CatalogStore δ) Grows where
  refl db := ⟨refl_of Remembers db, fun _ n h => ⟨n, h, Nat.le_refl n⟩, fun _ _ h => h⟩
  trans _ _ _ h h' := by
    refine ⟨trans_of Remembers h.toRemembers h'.toRemembers, fun d n hn => ?_, fun k p hp => h'.versionOperations k p (h.versionOperations k p hp)⟩
    obtain ⟨n₁, hn₁, hle₁⟩ := h.currentRevision d n hn
    obtain ⟨n₂, hn₂, hle₂⟩ := h'.currentRevision d n₁ hn₁
    exact ⟨n₂, hn₂, hle₁.trans hle₂⟩

omit [DecidableEq δ] in
theorem Effect.grows (h : Effect host db db' a) : Grows db db' := by
  refine ⟨?_, fun d n hn => ?_, fun k p hp => ?_⟩
  · cases h with
    | same hsame => exact hsame.toRemembers
    | created d x r hcreated => exact hcreated.toRemembers
    | made caller granted u ha d x r hmade => exact hmade.toRemembers
  · obtain heq | ⟨hnone, -⟩ | ⟨_, _, u, _, _, -, -, hold, hnew⟩ := h.currentRevision d
    · exact ⟨n, heq.trans hn, Nat.le_refl n⟩
    · rw [hnone] at hn
      cases hn
    · obtain rfl := Option.some.inj (hold.symm.trans hn)
      exact ⟨u.expectedRevision + 1, hnew, Nat.le_succ _⟩
  · cases h with
    | same hsame => rw [hsame.versionOperations, hp]
    | created d x r hcreated => rw [hcreated.versionOperations, hp]
    | made caller granted u ha d x r hmade =>
        rw [hmade.versionOperations, Table.lookup_insert_ite]
        split
        · next heq =>
            subst heq
            rw [hmade.unused] at hp
            cases hp
        · exact hp

end steps

section runs

variable {δ : Type} [DecidableEq δ] (host : Host δ)

theorem run_append (actions more : List Action) : run host (actions ++ more) = more.foldl (act host) (run host actions) := by
  unfold run
  rw [List.foldl_append]

theorem chained_run (actions : List Action) : Chained (run host actions) := by
  unfold run
  induction actions using List.reverseRecOn with
  | nil =>
      refine ⟨fun d k r h => ?_, fun d x k h => ?_, fun d x h => ?_⟩
      · cases h
      · cases h
      · cases h
  | append_singleton actions a ih =>
      rw [List.foldl_concat]
      exact (effect_act host _ a).chained ih

theorem grows_run (actions more : List Action) : Grows (run host actions) (run host (actions ++ more)) := by
  induction more using List.reverseRecOn with
  | nil =>
      rw [List.append_nil]
      exact refl_of Grows _
  | append_singleton more a ih =>
      rw [← List.append_assoc, run_append host (actions ++ more) [a]]
      exact trans_of Grows ih (effect_act host _ a).grows

theorem grows_take (actions : List Action) {i j : ℕ} (h : i ≤ j) :
    Grows (run host (actions.take i)) (run host (actions.take j)) := by
  have hsplit : actions.take j = actions.take i ++ (actions.drop i).take (j - i) := by
    rw [← List.take_add, Nat.add_sub_cancel' h]
  rw [hsplit]
  exact grows_run host _ _

theorem run_take_succ {actions : List Action} {i : ℕ} (h : actions[i]? = some a) :
    run host (actions.take (i + 1)) = act host (run host (actions.take i)) a := by
  rw [List.take_add_one, h, Option.toList_some, run_append]
  rfl

/-- The step with the given position makes the revision of the destination after `n`. -/
def Advances (actions : List Action) (i : ℕ) (d : Uuid) (n : ℕ) : Prop :=
  i < actions.length ∧ currentRevision (run host (actions.take i)) d = some n ∧
    currentRevision (run host (actions.take (i + 1))) d = some (n + 1)

variable {actions : List Action}

variable {host} in
/-- A revision is made by at most one step. -/
theorem Advances.unique {i j : ℕ} {d : Uuid} {n : ℕ} (hi : Advances host actions i d n) (hj : Advances host actions j d n) :
    i = j := by
  have hbefore {i j : ℕ} (hi : Advances host actions i d n) (hj : Advances host actions j d n) : ¬i < j := by
    intro hlt
    obtain ⟨n', hn', hle⟩ := (grows_take host actions (i := i + 1) (j := j) (by omega)).currentRevision d _ hi.2.2
    rw [hj.2.1] at hn'
    obtain rfl := Option.some.inj hn'
    omega
  have hij := hbefore hi hj
  have hji := hbefore hj hi
  omega

/-- Every revision after the first was made by a step. -/
theorem exists_advances {j : ℕ} (hj : j ≤ actions.length) {d : Uuid} {n m : ℕ} (hn : 1 ≤ n)
    (hm : currentRevision (run host (actions.take j)) d = some m) (hlt : n < m) :
    ∃ i, i < j ∧ Advances host actions i d n := by
  induction j generalizing m with
  | zero =>
      rw [List.take_zero] at hm
      cases hm
  | succ j ih =>
      obtain ⟨action, hstep⟩ : ∃ action, actions[j]? = some action := ⟨_, List.getElem?_eq_getElem hj⟩
      have heffect := (effect_act host (run host (actions.take j)) action).currentRevision d
      rw [← run_take_succ host hstep] at heffect
      obtain heq | ⟨-, hone⟩ | ⟨_, _, u, _, _, -, -, hold, hnew⟩ := heffect
      · obtain ⟨i, hi, hadvances⟩ := ih (by omega) (heq.symm.trans hm) hlt
        exact ⟨i, by omega, hadvances⟩
      · obtain rfl := Option.some.inj (hone.symm.trans hm)
        omega
      · obtain rfl := Option.some.inj (hnew.symm.trans hm)
        by_cases hlast : n = u.expectedRevision
        · subst hlast
          exact ⟨j, Nat.lt_succ_self j, by omega, hold, hnew⟩
        · obtain ⟨i, hi, hadvances⟩ := ih (by omega) hold (by omega)
          exact ⟨i, by omega, hadvances⟩

end runs

/-! ### The laws -/

section laws

variable {δ : Type} [DecidableEq δ] {host : Host δ} {db db' : CatalogStore δ}

/-- What holds of the catalog that a history has reached. -/
structure VersionLaws (host : Host δ) (actions : List Action) : Prop where
  /-- The revisions of a destination are those from one to its current revision. -/
  numbered : ∀ d k, (∃ r, (run host actions).revisions.lookup (d, k) = some r) ↔
    ∃ n, currentRevision (run host actions) d = some n ∧ 1 ≤ k ∧ k ≤ n
  /-- The current revision is the last one. -/
  current : ∀ d x, (run host actions).destinations.lookup d = some x → 1 ≤ x.currentRevision ∧
    ∃ r, (run host actions).revisions.lookup (d, x.currentRevision) = some r ∧ r.fileId = x.currentFileId ∧
      r.sha256 = x.currentSha256
  /-- An update changes nothing, or makes the revision after the one it expects. -/
  update : ∀ caller granted u, act host (run host actions) (.updateFile caller granted u) = run host actions ∨
    ∃ d x r, Made host.digest (run host actions) (act host (run host actions) (.updateFile caller granted u)) u d x r
  /-- Only an update that expects a revision makes the one after it. -/
  made : ∀ i d n, Advances host actions i d n → ∃ caller granted u x r,
    actions[i]? = some (.updateFile caller granted u) ∧ u.expectedRevision = n ∧
      Made host.digest (run host (actions.take i)) (run host (actions.take (i + 1))) u d x r
  /-- At most one step makes it. -/
  at_most_once : ∀ i j d n, Advances host actions i d n → Advances host actions j d n → i = j
  /-- Exactly one step makes each revision after the first. -/
  once : ∀ d n m, 1 ≤ n → currentRevision (run host actions) d = some m → n < m → ∃! i, Advances host actions i d n
  /-- When an update that may be made carries a revision with its hash, then it or one before it makes the next one. -/
  first_wins : ∀ i u d r, actions[i]? = some (.updateFile (.ok ()) (.ok ()) u) → Admissible (run host (actions.take i)) u d →
    (run host (actions.take i)).revisions.lookup (d, u.expectedRevision) = some r → r.sha256 = u.expectedSha256 →
    ∃! j, j ≤ i ∧ Advances host actions j d u.expectedRevision
  /-- An operation that has returned a version returns it again, and changes nothing; another intent is refused. -/
  replay : ∀ i caller granted u version db', actions[i]? = some (.updateFile caller granted u) →
    (updateFile host.digest caller granted u).run (run host (actions.take i)) = .ok (version, db') →
    ∀ permitted v, v.accountId = u.accountId → v.operationId = u.operationId →
      (v.intent = u.intent →
        (updateFile host.digest (.ok ()) permitted v).run (run host actions) = .ok (version, run host actions)) ∧
      (v.intent ≠ u.intent → (updateFile host.digest (.ok ()) permitted v).run (run host actions) =
        .error (operationConflict "operation ID has another intent"))
  /-- So does a save with the entry it has made. -/
  save_replay : ∀ i caller granted name fresh account parent file operation agentRun id db',
    actions[i]? = some (.saveFile caller granted name fresh account parent file operation agentRun) →
    (saveFile host.digest caller granted (host.name name) fresh account parent file operation agentRun).run
      (run host (actions.take i)) = .ok (id, db') →
    ∃ display key, host.name name = .ok (display, key) ∧ ∀ permitted fresh' name' display' key' parent' file' agentRun',
      host.name name' = .ok (display', key') →
      (Intent.save parent' file' display' = .save parent file display →
        (saveFile host.digest (.ok ()) permitted (host.name name') fresh' account parent' file' operation agentRun').run
          (run host actions) = .ok (id, run host actions)) ∧
      (Intent.save parent' file' display' ≠ .save parent file display →
        (saveFile host.digest (.ok ()) permitted (host.name name') fresh' account parent' file' operation agentRun').run
          (run host actions) = .error (operationConflict "operation ID has another intent"))
  /-- An upgraded entry is not upgraded again. -/
  upgraded : ∀ account id workspace fresh operation n d x, (run host actions).workspaces account = some workspace →
    entry (run host actions) account id = some n → n.destinationId = some d → joined (run host actions) account n = some x →
    (upgradeFile (.ok ()) fresh account id operation).run (run host actions) =
      .ok (⟨id, some d, some x.currentRevision, some x.currentFileId, some x.currentSha256⟩, run host actions)

theorem updateFile_pre {caller granted : Verdict} {u : Update} {version : Version}
    (h : (updateFile host.digest caller granted u).run db = .ok (version, db')) :
    (u.operationId ≠ "" ∧ u.operationId.length ≤ 200) ∧ ∃ workspace, db.workspaces u.accountId = some workspace := by
  unfold updateFile checkOperationId at h
  rw [Tx.bind_check_ok] at h
  obtain ⟨hid, h⟩ := h
  rw [Tx.bind_ofExcept_ok] at h
  obtain ⟨_, -, h⟩ := h
  rw [Tx.bind_ok] at h
  obtain ⟨workspace, db₁, hworkspace, h⟩ := h
  exact ⟨hid, workspace, (workspaceOf_ok hworkspace).1⟩

/-- An update that returns a version has recorded it. -/
theorem updateFile_recorded {caller granted : Verdict} {u : Update} {version : Version}
    (h : (updateFile host.digest caller granted u).run db = .ok (version, db')) :
    ∃ p, db'.versionOperations.lookup (u.accountId, u.operationId) = some p ∧ p.intent = host.digest u.intent ∧
      p.version = version := by
  obtain ⟨p, hp, hintent, rfl, rfl⟩ | ⟨d, x, r, hmade, rfl⟩ := updateFile_cases h
  · exact ⟨p, hp, hintent, rfl⟩
  · exact ⟨_, (congrArg (AList.lookup _) hmade.versionOperations).trans (AList.lookup_insert _), rfl, rfl⟩

theorem act_of_ok {β : Type} {m : CatalogTx δ β} {b : β}
    (ha : a.tx host = (do let _ ← m)) (h : m.run db = .ok (b, db')) : act host db a = db' := by
  have hrun : (a.tx host).run db = .ok ((), db') := by
    rw [ha, Tx.bind_ok]
    exact ⟨b, db', h, Tx.pure_ok.mpr ⟨rfl, rfl⟩⟩
  unfold act Tx.commit
  rw [hrun]

theorem act_of_run {caller granted : Verdict} {u : Update} {version : Version}
    (h : (updateFile host.digest caller granted u).run db = .ok (version, db')) :
    act host db (.updateFile caller granted u) = db' := act_of_ok rfl h

variable (host) in
/-- What is recorded after a step is there at the end. -/
theorem grows_after {actions : List Action} {i : ℕ} (hi : actions[i]? = some a) :
    Grows (act host (run host (actions.take i)) a) (run host actions) := by
  have hlt := (List.getElem?_eq_some_iff.mp hi).1
  have hgrows := grows_take host actions (i := i + 1) (j := actions.length) (by omega)
  rw [run_take_succ host hi, List.take_length] at hgrows
  exact hgrows

/-- File versions form a compare-and-set chain, as far as no two intents have one digest (SHA-256 is taken to have no collisions). -/
theorem version_chain (hdigest : Function.Injective host.digest) (actions : List Action) : VersionLaws host actions := by
  have hchain := chained_run host actions
  refine ⟨fun d k => ?_, hchain.current, fun caller granted u => ?_, fun i d n h => ?_, fun i j d n => Advances.unique,
    fun d n m hn hm hlt => ?_, fun i u d r hi hadmissible hr hsha => ?_,
    fun i caller granted u version db' hi hrun permitted v haccount hoperation => ?_,
    fun i caller granted name fresh account parent file operation agentRun id db' hi hrun => ?_,
    fun account id workspace fresh operation n d x hworkspace hn hd hx => upgradeFile_again hworkspace hn hd hx⟩
  · unfold currentRevision
    constructor
    · rintro ⟨r, hr⟩
      obtain ⟨x, hx, hbounds⟩ := hchain.owned d k r hr
      exact ⟨x.currentRevision, congrArg _ hx, hbounds⟩
    · rintro ⟨n, hn, hpos, hle⟩
      obtain ⟨x, hx, rfl⟩ := Option.map_eq_some_iff.mp hn
      exact hchain.complete d x k hx hpos hle
  · cases hrun : (updateFile host.digest caller granted u).run (run host actions) with
    | error e =>
        refine .inl ?_
        unfold act Tx.commit
        have herror : ((Action.updateFile caller granted u).tx host).run (run host actions) = .error e :=
          Tx.bind_error.mpr (.inl hrun)
        rw [herror]
    | ok p =>
        obtain ⟨version, db'⟩ := p
        rw [act_of_run hrun]
        obtain ⟨p, -, -, -, rfl⟩ | ⟨d, x, r, hmade, -⟩ := updateFile_cases hrun
        · exact .inl rfl
        · exact .inr ⟨d, x, r, hmade⟩
  · obtain ⟨hlt, hold, hnew⟩ := h
    have hi := List.getElem?_eq_getElem hlt
    have heffect := (effect_act host (run host (actions.take i)) actions[i]).currentRevision d
    rw [← run_take_succ host hi] at heffect
    obtain heq | ⟨hnone, -⟩ | ⟨caller, granted, u, x, r, ha, hmade, hbefore, -⟩ := heffect
    · rw [hold, hnew] at heq
      have hsucc := Option.some.inj heq
      omega
    · rw [hnone] at hold
      cases hold
    · refine ⟨caller, granted, u, x, r, by rw [hi, ha], ?_, hmade⟩
      exact Option.some.inj (hbefore.symm.trans hold)
  · have hfull : currentRevision (run host (actions.take actions.length)) d = some m := by
      rw [List.take_length]
      exact hm
    obtain ⟨i, -, hi⟩ := exists_advances host (Nat.le_refl actions.length) hn hfull hlt
    exact ⟨i, hi, fun j hj => Advances.unique hj hi⟩
  · have hlt := (List.getElem?_eq_some_iff.mp hi).1
    have hbefore := chained_run host (actions.take i)
    obtain ⟨x, hx, hpos, hle⟩ := hbefore.owned d _ r hr
    have hmade : ∃ j, j ≤ i ∧ Advances host actions j d u.expectedRevision := by
      by_cases hcurrent : x.currentRevision = u.expectedRevision
      · obtain ⟨-, r', hr', -, hsha'⟩ := hbefore.current d x hx
        rw [hcurrent, hr] at hr'
        obtain rfl := Option.some.inj hr'
        obtain ⟨db₁, hrun⟩ := updateFile_appends host.digest hadmissible hx hcurrent (hsha'.symm.trans hsha)
          (hcurrent ▸ hbefore.next_free hx)
        refine ⟨i, Nat.le_refl i, hlt, (congrArg _ hx).trans (congrArg some hcurrent), ?_⟩
        rw [run_take_succ host hi, act_of_run hrun]
        obtain ⟨p, hp, -, -, -⟩ | ⟨d', x', r', hnext, hversion⟩ := updateFile_cases hrun
        · rw [hadmissible.unused] at hp
          cases hp
        · obtain rfl := congrArg Version.destinationId hversion
          unfold currentRevision
          rw [hnext.destinations, if_pos rfl]
          exact congrArg (fun n => some (n + 1)) hnext.expected
      · obtain ⟨j, hj, hadvances⟩ := exists_advances host (Nat.le_of_lt hlt) hpos (congrArg _ hx)
          (show u.expectedRevision < x.currentRevision by omega)
        exact ⟨j, Nat.le_of_lt hj, hadvances⟩
    obtain ⟨j, hj⟩ := hmade
    exact ⟨j, hj, fun k hk => Advances.unique hk.2 hj.2⟩
  · obtain ⟨hid, workspace, hworkspace⟩ := updateFile_pre hrun
    obtain ⟨p, hp, hintent, rfl⟩ := updateFile_recorded hrun
    have hgrows := grows_after host hi
    have hstep := (effect_act host (run host (actions.take i)) (.updateFile caller granted u)).grows
    rw [act_of_run hrun] at hgrows hstep
    have hlater := hgrows.versionOperations _ p hp
    have hopen := hgrows.workspaces _ _ (hstep.workspaces _ _ hworkspace)
    rw [← haccount, ← hoperation] at hlater
    rw [← haccount] at hopen
    rw [← hoperation] at hid
    refine ⟨fun heq => updateFile_replay hid hopen hlater ?_, fun hne => updateFile_conflict hid hopen hlater fun heq => ?_⟩
    · rw [hintent, heq]
    · exact hne (hdigest (hintent.symm.trans heq)).symm
  · have hsaved := saveFile_saved hrun
    obtain ⟨workspace, hworkspace⟩ := hsaved.workspace
    obtain ⟨display, key, p, hname, hp, hintent, rfl⟩ := hsaved.recorded
    have hgrows := grows_after host hi
    rw [act_of_ok rfl hrun] at hgrows
    have hlater := hgrows.saveOperations _ p hp
    have hopen := hgrows.workspaces _ _ (hsaved.workspaces _ _ hworkspace)
    refine ⟨display, key, hname, fun permitted fresh' name' display' key' parent' file' agentRun' hname' => ⟨fun heq => ?_,
      fun hne => ?_⟩⟩
    · exact saveFile_replay hsaved.operationId hname' hopen hlater (by rw [hintent, heq])
    · exact saveFile_conflict hsaved.operationId hname' hopen hlater fun heq => hne (hdigest (hintent.symm.trans heq)).symm

/-- A file is saved and upgraded, and the first of two updates of its first revision makes the second one. -/
theorem version_chain_two_updates :
    VersionLaws (⟨id, id, id, id⟩ : Host Intent)
      [.openWorkspace 1 10 100, .storeFile 20 ⟨1, true, "a", .input, some 5, none, none⟩,
        .storeFile 21 ⟨1, true, "b", .output, none, none, none⟩, .storeFile 22 ⟨1, true, "c", .output, none, none, none⟩,
        .saveFile (.ok ()) (.ok ()) "notes" 101 1 100 20 "save" none, .upgradeFile (.ok ()) 30 1 101 "upgrade:101",
        .updateFile (.ok ()) (.ok ()) ⟨1, 101, 7, 21, 1, "a", "first", false⟩,
        .updateFile (.ok ()) (.ok ()) ⟨1, 101, 8, 22, 1, "a", "second", false⟩] ∧
    currentRevision (run (⟨id, id, id, id⟩ : Host Intent)
      [.openWorkspace 1 10 100, .storeFile 20 ⟨1, true, "a", .input, some 5, none, none⟩,
        .storeFile 21 ⟨1, true, "b", .output, none, none, none⟩, .storeFile 22 ⟨1, true, "c", .output, none, none, none⟩,
        .saveFile (.ok ()) (.ok ()) "notes" 101 1 100 20 "save" none, .upgradeFile (.ok ()) 30 1 101 "upgrade:101",
        .updateFile (.ok ()) (.ok ()) ⟨1, 101, 7, 21, 1, "a", "first", false⟩,
        .updateFile (.ok ()) (.ok ()) ⟨1, 101, 8, 22, 1, "a", "second", false⟩]) 30 = some 2 :=
  ⟨version_chain Function.injective_id _, by decide +kernel⟩

end laws

end HpAgent.Workspace
