import HpAgent.Workspace.Catalog

/-! # What the commands do to versions

A command creates a destination with its first revision, appends the next revision to one, or leaves destinations and
revisions alone (`SameVersions`, `Created`, `Appended`).

* `updateFile_cases`: an update replays an earlier one or appends the revision after the one it expects.
* `updateFile_appends`: an update that may be made is made.
* `Chained`: the revisions of a destination, as an invariant. -/

namespace HpAgent.Workspace

open Library

variable {δ : Type} {db db' : CatalogStore δ} {account d workspace : Uuid} {x : Destination} {granted : Verdict}
variable {current : Current} {caller : Verdict} {file parent : Uuid}

/-! ### The three effects -/

/-- Workspaces and recorded saves stay. -/
structure Remembers (db db' : CatalogStore δ) : Prop where
  workspaces : ∀ account w, db.workspaces account = some w → db'.workspaces account = some w
  saveOperations : ∀ k p, db.saveOperations.lookup k = some p → db'.saveOperations.lookup k = some p

instance : IsPreorder (CatalogStore δ) Remembers where
  refl _ := ⟨fun _ _ h => h, fun _ _ h => h⟩
  trans _ _ _ h h' := ⟨fun a w hw => h'.workspaces a w (h.workspaces a w hw),
    fun k p hp => h'.saveOperations k p (h.saveOperations k p hp)⟩

theorem remembers_of_eq (hworkspaces : db'.workspaces = db.workspaces) (hsaves : db'.saveOperations = db.saveOperations) :
    Remembers db db' := by
  refine ⟨fun a w hw => ?_, fun k p hp => ?_⟩
  · rw [hworkspaces]
    exact hw
  · rw [hsaves]
    exact hp

/-- Destinations, revisions and the operations that made them stay. -/
structure SameVersions (db db' : CatalogStore δ) : Prop extends Remembers db db' where
  destinations : db'.destinations = db.destinations
  revisions : db'.revisions = db.revisions
  versionOperations : db'.versionOperations = db.versionOperations

instance : IsPreorder (CatalogStore δ) SameVersions where
  refl db := ⟨refl_of Remembers db, rfl, rfl, rfl⟩
  trans _ _ _ h h' := ⟨trans_of Remembers h.toRemembers h'.toRemembers, h'.destinations.trans h.destinations,
    h'.revisions.trans h.revisions, h'.versionOperations.trans h.versionOperations⟩

/-- A new destination with its first revision. -/
structure Created (db db' : CatalogStore δ) (d : Uuid) (x : Destination) (r : Revision) : Prop extends
    Remembers db db' where
  free : db.destinations.lookup d = none
  first : x.currentRevision = 1 ∧ x.currentFileId = r.fileId ∧ x.currentSha256 = r.sha256
  destinations : ∀ k, db'.destinations.lookup k = if k = d then some x else db.destinations.lookup k
  revisions : ∀ k, db'.revisions.lookup k = if k = (d, 1) then some r else db.revisions.lookup k
  versionOperations : db'.versionOperations = db.versionOperations

/-- The next revision of a destination. -/
structure Appended (db db' : CatalogStore δ) (d : Uuid) (x : Destination) (r : Revision) : Prop extends
    Remembers db db' where
  destination : db.destinations.lookup d = some x
  destinations : ∀ k, db'.destinations.lookup k =
    if k = d then some { x with currentRevision := x.currentRevision + 1, currentFileId := r.fileId, currentSha256 := r.sha256 }
    else db.destinations.lookup k
  revisions : ∀ k, db'.revisions.lookup k = if k = (d, x.currentRevision + 1) then some r else db.revisions.lookup k

/-! ### Commands that leave versions alone -/

theorem placeNode_sameVersions (id : Uuid) (old : Option Node) (new : Node) :
    Tx.Keeps (@SameVersions δ) (placeNode id old new) :=
  (Tx.Keeps.query _).bind fun _ => (Tx.Keeps.ofExcept _).bind fun _ => (Tx.Keeps.query _).bind fun _ =>
    (Tx.Keeps.check _ _).bind fun _ => Tx.Keeps.update fun _ => ⟨remembers_of_eq rfl rfl, rfl, rfl, rfl⟩

theorem insertNode_sameVersions (id : Uuid) (n : Node) : Tx.Keeps (@SameVersions δ) (insertNode id n) :=
  (Tx.Keeps.query _).bind fun _ => (Tx.Keeps.check _ _).bind fun _ => placeNode_sameVersions id none n

/-- The tree is not where saves are recorded. -/
theorem insertNode_saveOperations {id : Uuid} {n : Node} {u : Unit} (h : (insertNode id n).run db = .ok (u, db')) :
    db'.saveOperations = db.saveOperations := by
  unfold insertNode placeNode at h
  rw [Tx.bind_query_ok, Tx.bind_check_ok] at h
  obtain ⟨-, h⟩ := h
  rw [Tx.bind_query_ok, Tx.bind_ofExcept_ok] at h
  obtain ⟨_, -, h⟩ := h
  rw [Tx.bind_query_ok, Tx.bind_check_ok, Tx.update_ok] at h
  obtain ⟨-, rfl⟩ := h
  rfl

theorem workspaceOf_sameVersions (account : Uuid) : Tx.Keeps (@SameVersions δ) (workspaceOf account) :=
  (Tx.Keeps.query _).bind fun _ => Tx.Keeps.demand _ _

theorem createDirectory_sameVersions (caller : Verdict) (name : Except CatalogError (String × String))
    (fresh account parent : Uuid) :
    Tx.Keeps (@SameVersions δ) (createDirectory caller name fresh account parent) :=
  (Tx.Keeps.ofExcept _).bind fun _ => (Tx.Keeps.ofExcept _).bind fun _ => (workspaceOf_sameVersions _).bind fun _ =>
    (insertNode_sameVersions _ _).bind fun _ => Tx.Keeps.pure _

theorem move_sameVersions (caller stopped : Verdict) (stale : Bool) (name : Except CatalogError (String × String))
    (account id parent : Uuid) : Tx.Keeps (@SameVersions δ) (move caller stopped stale name account id parent) :=
  (Tx.Keeps.ofExcept _).bind fun _ => (Tx.Keeps.ofExcept _).bind fun _ => (workspaceOf_sameVersions _).bind fun _ =>
    (Tx.Keeps.check _ _).bind fun _ => (Tx.Keeps.query _).bind fun _ => (Tx.Keeps.demand _ _).bind fun _ =>
    (placeNode_sameVersions _ _ _).bind fun _ => Tx.Keeps.ofExcept _

theorem remove_sameVersions (caller stopped : Verdict) (bound stale : Bool) (account id : Uuid) :
    Tx.Keeps (@SameVersions δ) (remove caller stopped bound stale account id) :=
  (Tx.Keeps.ofExcept _).bind fun _ => (workspaceOf_sameVersions _).bind fun _ => (Tx.Keeps.check _ _).bind fun _ =>
    (Tx.Keeps.check _ _).bind fun _ => (Tx.Keeps.query _).bind fun _ => (Tx.Keeps.demand _ _).bind fun _ =>
    (placeNode_sameVersions _ _ _).bind fun _ => Tx.Keeps.ofExcept _

/-! ### Reading -/

theorem workspaceOf_ok (h : (workspaceOf account).run db = .ok (workspace, db')) :
    db.workspaces account = some workspace ∧ db' = db := by
  unfold workspaceOf at h
  rw [Tx.bind_query_ok, Tx.demand_ok] at h
  exact ⟨h.1, h.2.symm⟩

theorem workspaceOf_run (h : db.workspaces account = some workspace) :
    (workspaceOf account).run db = .ok (workspace, db) := by
  unfold workspaceOf
  rw [Tx.bind_query_ok, Tx.demand_ok]
  exact ⟨h, rfl⟩

/-- The destination of an entry, as `_current_in_uow` joins it. -/
def joined (db : CatalogStore δ) (account : Uuid) (n : Node) : Option Destination :=
  n.destinationId.bind fun d => (db.destinations.lookup d).filter fun x => x.accountId = account

theorem joined_eq_some {n : Node} (hd : n.destinationId = some d)
    (hx : db.destinations.lookup d = some x) (haccount : x.accountId = account) : joined db account n = some x := by
  unfold joined
  rw [hd, Option.bind_some, hx, Option.filter_some, if_pos (decide_eq_true haccount)]

/-- The live file entry of the account. -/
def entry (db : CatalogStore δ) (account id : Uuid) : Option Node :=
  (liveNode db account id).filter fun n => n.kind = .file

theorem currentOf_ok {id : Uuid} :
    (currentOf account id).run db = .ok (current, db') ↔ db = db' ∧ ∃ n, entry db account id = some n ∧
      (⟨id, n.destinationId, (joined db account n).map Destination.currentRevision,
        ((joined db account n).map Destination.currentFileId).or n.fileId,
        ((joined db account n).map Destination.currentSha256).or
          ((n.fileId.bind fun f => (db.files.lookup f).filter fun x => x.accountId = account).map StoredFile.sha256)⟩
        : Current) = current := by
  unfold currentOf
  rw [Tx.bind_query_ok, Tx.bind_demand_ok]
  constructor
  · rintro ⟨n, hn, h⟩
    rw [Tx.bind_query_ok, Tx.bind_query_ok, Tx.pure_ok] at h
    exact ⟨h.2, n, hn, h.1⟩
  · rintro ⟨rfl, n, hn, h⟩
    refine ⟨n, hn, ?_⟩
    rw [Tx.bind_query_ok, Tx.bind_query_ok, Tx.pure_ok]
    exact ⟨h, rfl⟩

theorem insertRevision_ok {n : ℕ} {r : Revision} {u : Unit}
    (h : (insertRevision d n r).run db = .ok (u, db')) :
    db.revisions.lookup (d, n) = none ∧ db' = { db with revisions := db.revisions.insert (d, n) r } := by
  unfold insertRevision at h
  rw [Tx.bind_query_ok, Tx.bind_check_ok] at h
  obtain ⟨-, h⟩ := h
  rw [Tx.bind_query_ok, Tx.bind_check_ok, Tx.update_ok] at h
  obtain ⟨hfree, rfl⟩ := h
  rw [Bool.or_eq_false_iff] at hfree
  exact ⟨by simpa using hfree.1, rfl⟩

/-! ### Saves, upgrades and updates -/

section save

variable [DecidableEq δ] {digest : Intent → δ}

/-- What a save that returns has checked, and what it has recorded. -/
structure Saved (digest : Intent → δ) (db db' : CatalogStore δ) (name : Except CatalogError (String × String))
    (account parent file : Uuid) (operation : String) (id : Uuid) : Prop extends SameVersions db db' where
  operationId : operation ≠ "" ∧ operation.length ≤ 200
  workspace : ∃ workspace, db.workspaces account = some workspace
  recorded : ∃ display key p, name = .ok (display, key) ∧ db'.saveOperations.lookup (account, operation) = some p ∧
    p.intent = digest (.save parent file display) ∧ p.nodeId = id

/-- A save replays an operation, or inserts an entry and records the operation under a key that was free. -/
theorem saveFile_ok {granted : Verdict} {name : Except CatalogError (String × String)}
    {fresh account id : Uuid} {operation : String} {agentRun : Option Uuid}
    (h : (saveFile digest caller granted name fresh account parent file operation agentRun).run db = .ok (id, db')) :
    (operation ≠ "" ∧ operation.length ≤ 200) ∧ ∃ workspace display key, db.workspaces account = some workspace ∧
      name = .ok (display, key) ∧
      ((∃ p, db.saveOperations.lookup (account, operation) = some p ∧ p.intent = digest (.save parent file display) ∧
        p.nodeId = id ∧ db' = db) ∨
      ∃ u db₁ files, db.saveOperations.lookup (account, operation) = none ∧ id = fresh ∧
        (insertNode fresh ⟨account, workspace, some parent, .file, display, key, some file, none, false⟩).run db = .ok (u, db₁) ∧
        db' = { db₁ with
          saveOperations := db₁.saveOperations.insert (account, operation) ⟨digest (.save parent file display), fresh, agentRun⟩
          files := files }) := by
  unfold saveFile checkOperationId at h
  rw [Tx.bind_check_ok] at h
  obtain ⟨hid, h⟩ := h
  rw [Tx.bind_ofExcept_ok] at h
  obtain ⟨⟨display, key⟩, hname, h⟩ := h
  rw [Tx.bind_ofExcept_ok] at h
  obtain ⟨_, -, h⟩ := h
  rw [Tx.bind_ok] at h
  obtain ⟨workspace, db₁, hworkspace, h⟩ := h
  obtain ⟨hopen, rfl⟩ := workspaceOf_ok hworkspace
  rw [Tx.bind_query_ok] at h
  refine ⟨hid, workspace, display, key, hopen, hname, ?_⟩
  cases hprevious : db₁.saveOperations.lookup (account, operation) with
  | some p =>
      rw [hprevious] at h
      dsimp only at h
      rw [Tx.bind_check_ok] at h
      obtain ⟨hintent, h⟩ := h
      obtain ⟨hnode, rfl⟩ := Tx.pure_ok.mp h
      exact .inl ⟨p, rfl, hintent, hnode, rfl⟩
  | none =>
      rw [hprevious] at h
      dsimp only at h
      rw [Tx.bind_ofExcept_ok] at h
      obtain ⟨_, -, h⟩ := h
      rw [Tx.bind_query_ok, Tx.bind_demand_ok] at h
      obtain ⟨f, -, h⟩ := h
      rw [Tx.bind_query_ok, Tx.bind_ofExcept_ok] at h
      obtain ⟨_, -, h⟩ := h
      rw [Tx.bind_ok] at h
      obtain ⟨u, db₂, hinsert, h⟩ := h
      rw [Tx.bind_update_ok, Tx.bind_update_ok] at h
      obtain ⟨hnode, rfl⟩ := Tx.pure_ok.mp h
      exact .inr ⟨u, db₂, _, rfl, hnode.symm, hinsert, rfl⟩

theorem saveFile_saved {granted : Verdict} {name : Except CatalogError (String × String)}
    {fresh account id : Uuid} {operation : String} {agentRun : Option Uuid}
    (h : (saveFile digest caller granted name fresh account parent file operation agentRun).run db = .ok (id, db')) :
    Saved digest db db' name account parent file operation id := by
  obtain ⟨hid, workspace, display, key, hopen, hname, hcases⟩ := saveFile_ok h
  rcases hcases with ⟨p, hprevious, hintent, hnode, rfl⟩ | ⟨_, db₁, files, hfree, rfl, hinsert, rfl⟩
  · exact ⟨refl_of SameVersions db', hid, ⟨workspace, hopen⟩, display, key, p, hname, hprevious, hintent, hnode⟩
  · have hsame := insertNode_sameVersions _ _ _ _ _ hinsert
    refine ⟨⟨⟨hsame.workspaces, fun k p hp => ?_⟩, hsame.destinations, hsame.revisions, hsame.versionOperations⟩, hid,
      ⟨workspace, hopen⟩, display, key, _, hname, AList.lookup_insert _, rfl, rfl⟩
    show (db₁.saveOperations.insert (account, operation) _).lookup k = some p
    have hne : k ≠ (account, operation) := by
      rintro rfl
      rw [hfree] at hp
      cases hp
    rw [AList.lookup_insert_ne hne, insertNode_saveOperations hinsert]
    exact hp

end save

/-- An upgrade reads the current version, or opens a destination with its first revision and points the entry to it. -/
theorem upgradeFile_ok {fresh id : Uuid} {operation : String}
    (h : (upgradeFile caller fresh account id operation).run db = .ok (current, db')) :
    db' = db ∨ ∃ n file sha, entry db account id = some n ∧ db.destinations.lookup fresh = none ∧
      ∃ u, (placeNode id (some n) { n with fileId := none, destinationId := some fresh }).run
        { db with
          destinations := db.destinations.insert fresh ⟨account, 1, file, sha⟩
          revisions := db.revisions.insert (fresh, 1) ⟨account, file, sha, operation⟩ } = .ok (u, db') := by
  unfold upgradeFile at h
  rw [Tx.bind_ofExcept_ok] at h
  obtain ⟨_, -, h⟩ := h
  rw [Tx.bind_ok] at h
  obtain ⟨workspace, db₁, hworkspace, h⟩ := h
  obtain ⟨-, rfl⟩ := workspaceOf_ok hworkspace
  rw [Tx.bind_query_ok, Tx.bind_demand_ok] at h
  obtain ⟨n, hn, h⟩ := h
  split at h
  · exact .inl (currentOf_ok.mp h).1.symm
  · rw [Tx.bind_demand_ok] at h
    obtain ⟨file, -, h⟩ := h
    rw [Tx.bind_query_ok, Tx.bind_demand_ok] at h
    obtain ⟨f, -, h⟩ := h
    rw [Tx.bind_query_ok, Tx.bind_check_ok] at h
    obtain ⟨hfree, h⟩ := h
    rw [Tx.bind_update_ok, Tx.bind_ok] at h
    obtain ⟨_, db₂, hrevision, h⟩ := h
    obtain ⟨-, rfl⟩ := insertRevision_ok hrevision
    rw [Tx.bind_ok] at h
    obtain ⟨u, db₃, hplace, h⟩ := h
    obtain ⟨-, rfl⟩ := Tx.pure_ok.mp h
    exact .inr ⟨n, file, f.sha256, hn, by simpa using hfree, u, hplace⟩

theorem upgradeFile_cases {fresh id : Uuid} {operation : String}
    (h : (upgradeFile caller fresh account id operation).run db = .ok (current, db')) :
    db' = db ∨ ∃ x r, Created db db' fresh x r := by
  apply (upgradeFile_ok h).imp_right
  rintro ⟨n, file, sha, -, hfree, _, hplace⟩
  have hsame := placeNode_sameVersions _ _ _ _ _ _ hplace
  refine ⟨⟨account, 1, file, sha⟩, ⟨account, file, sha, operation⟩,
    ⟨hsame.workspaces, hsame.saveOperations⟩, hfree, ⟨rfl, rfl, rfl⟩, fun k => ?_, fun k => ?_, hsame.versionOperations⟩
  · rw [hsame.destinations]
    exact Table.lookup_insert_ite _ fresh k _
  · rw [hsame.revisions]
    exact Table.lookup_insert_ite _ (fresh, 1) k _

/-- An entry that has a destination is not upgraded again: the caller gets the current version. -/
theorem upgradeFile_again {fresh id : Uuid} {operation : String} {n : Node}
    (hworkspace : db.workspaces account = some workspace) (hn : entry db account id = some n)
    (hd : n.destinationId = some d) (hx : joined db account n = some x) :
    (upgradeFile (.ok ()) fresh account id operation).run db =
      .ok (⟨id, some d, some x.currentRevision, some x.currentFileId, some x.currentSha256⟩, db) := by
  unfold upgradeFile
  rw [Tx.bind_ofExcept_ok]
  refine ⟨(), rfl, ?_⟩
  rw [Tx.bind_ok]
  refine ⟨workspace, db, workspaceOf_run hworkspace, ?_⟩
  rw [Tx.bind_query_ok, Tx.bind_demand_ok]
  refine ⟨n, hn, ?_⟩
  rw [if_pos (by rw [hd]; rfl)]
  refine currentOf_ok.mpr ⟨rfl, n, hn, ?_⟩
  rw [hx, hd]
  rfl

section update

variable [DecidableEq δ] {digest : Intent → δ}

/-- What an update that is made writes. -/
structure Made (digest : Intent → δ) (db db' : CatalogStore δ) (u : Update) (d : Uuid) (x : Destination) (r : Revision) :
    Prop extends Appended db db' d x r where
  entry : ∃ n, entry db u.accountId u.nodeId = some n ∧ n.destinationId = some d
  account : x.accountId = u.accountId
  expected : x.currentRevision = u.expectedRevision
  sha256 : x.currentSha256 = u.expectedSha256
  file : r.fileId = u.fileId
  unused : db.versionOperations.lookup (u.accountId, u.operationId) = none
  versionOperations : db'.versionOperations = db.versionOperations.insert (u.accountId, u.operationId)
    ⟨digest u.intent, ⟨u.nodeId, d, u.expectedRevision + 1, u.fileId⟩, if u.workAuto then some u.runId else none⟩

/-- An update replays an operation of the same intent, or appends the revision after the one it expects. -/
theorem updateFile_cases {u : Update} {version : Version}
    (h : (updateFile digest caller granted u).run db = .ok (version, db')) :
    (∃ p, db.versionOperations.lookup (u.accountId, u.operationId) = some p ∧ p.intent = digest u.intent ∧
      version = p.version ∧ db' = db) ∨
    ∃ d x r, Made digest db db' u d x r ∧ version = ⟨u.nodeId, d, u.expectedRevision + 1, u.fileId⟩ := by
  unfold updateFile checkOperationId at h
  rw [Tx.bind_check_ok] at h
  obtain ⟨-, h⟩ := h
  rw [Tx.bind_ofExcept_ok] at h
  obtain ⟨_, -, h⟩ := h
  rw [Tx.bind_ok] at h
  obtain ⟨workspace, db₁, hworkspace, h⟩ := h
  obtain ⟨-, rfl⟩ := workspaceOf_ok hworkspace
  rw [Tx.bind_query_ok] at h
  cases hprior : db₁.versionOperations.lookup (u.accountId, u.operationId) with
  | some p =>
      rw [hprior] at h
      dsimp only at h
      rw [Tx.bind_check_ok] at h
      obtain ⟨hintent, h⟩ := h
      obtain ⟨rfl, rfl⟩ := Tx.pure_ok.mp h
      exact .inl ⟨p, rfl, hintent, rfl, rfl⟩
  | none =>
      rw [hprior] at h
      dsimp only at h
      rw [Tx.bind_query_ok, Tx.bind_demand_ok] at h
      obtain ⟨d, hd, h⟩ := h
      obtain ⟨n, hn, hdestination⟩ := Option.bind_eq_some_iff.mp hd
      rw [Tx.bind_ok] at h
      obtain ⟨current, db₂, hcurrent, h⟩ := h
      obtain ⟨rfl, n', hn', rfl⟩ := currentOf_ok.mp hcurrent
      obtain rfl := Option.some.inj (hn'.symm.trans hn)
      rw [Tx.bind_check_ok] at h
      obtain ⟨⟨hrevision, hsha⟩, h⟩ := h
      obtain ⟨x, hx, hexpected⟩ := Option.map_eq_some_iff.mp hrevision
      rw [Tx.bind_ofExcept_ok] at h
      obtain ⟨_, -, h⟩ := h
      rw [Tx.bind_query_ok, Tx.bind_demand_ok] at h
      obtain ⟨f, -, h⟩ := h
      rw [Tx.bind_ok] at h
      obtain ⟨_, db₃, hinsert, h⟩ := h
      obtain ⟨-, rfl⟩ := insertRevision_ok hinsert
      rw [Tx.bind_update_ok, Tx.bind_update_ok] at h
      obtain ⟨rfl, rfl⟩ := Tx.pure_ok.mp h
      have hx' := hx
      unfold joined at hx'
      rw [hdestination, Option.bind_some, Option.filter_eq_some_iff] at hx'
      obtain ⟨hlookup, haccount⟩ := hx'
      have haccount := of_decide_eq_true haccount
      dsimp only at hsha
      rw [hx] at hsha
      refine .inr ⟨d, x, ⟨u.accountId, u.fileId, f.sha256, u.operationId⟩,
        ⟨⟨⟨fun _ _ hw => hw, fun _ _ hp => hp⟩, hlookup, fun k => ?_, fun k => ?_⟩,
        ⟨n', hn', hdestination⟩, haccount, hexpected, Option.some.inj hsha, rfl, hprior, rfl⟩, rfl⟩
      · show (db₁.destinations.updateWhere (fun k x => k = d && x.accountId = u.accountId) _).lookup k = _
        rw [Table.lookup_updateWhere]
        by_cases hk : k = d
        · subst hk
          rw [hlookup, Option.map_some, if_pos (by simp [haccount]), if_pos rfl, hexpected]
        · rw [if_neg hk]
          cases db₁.destinations.lookup k with
          | none => rfl
          | some y => rw [Option.map_some, if_neg (by simp [hk])]
      · rw [hexpected]
        exact Table.lookup_insert_ite _ (d, u.expectedRevision + 1) k _

/-- An operation that was recorded is replayed. -/
theorem updateFile_replay {u : Update} {p : VersionOperation δ}
    (hid : u.operationId ≠ "" ∧ u.operationId.length ≤ 200) (hworkspace : db.workspaces u.accountId = some workspace)
    (hp : db.versionOperations.lookup (u.accountId, u.operationId) = some p) (hintent : p.intent = digest u.intent) :
    (updateFile digest (.ok ()) granted u).run db = .ok (p.version, db) := by
  unfold updateFile checkOperationId
  rw [Tx.bind_check_ok]
  refine ⟨hid, ?_⟩
  rw [Tx.bind_ofExcept_ok]
  refine ⟨(), rfl, ?_⟩
  rw [Tx.bind_ok]
  refine ⟨workspace, db, workspaceOf_run hworkspace, ?_⟩
  rw [Tx.bind_query_ok, hp]
  dsimp only
  rw [Tx.bind_check_ok, Tx.pure_ok]
  exact ⟨hintent, rfl, rfl⟩

/-- An operation that was recorded with another intent is refused. -/
theorem updateFile_conflict {u : Update} {p : VersionOperation δ}
    (hid : u.operationId ≠ "" ∧ u.operationId.length ≤ 200) (hworkspace : db.workspaces u.accountId = some workspace)
    (hp : db.versionOperations.lookup (u.accountId, u.operationId) = some p) (hintent : p.intent ≠ digest u.intent) :
    (updateFile digest (.ok ()) granted u).run db = .error (operationConflict "operation ID has another intent") := by
  unfold updateFile checkOperationId
  rw [Tx.bind_check_error]
  refine .inr ⟨hid, ?_⟩
  rw [Tx.bind_ofExcept_error rfl, Tx.bind_error]
  refine .inr ⟨workspace, db, workspaceOf_run hworkspace, ?_⟩
  rw [Tx.bind_query_error, hp]
  dsimp only
  rw [Tx.bind_check_error]
  exact .inl ⟨hintent, rfl⟩

/-- An update that every check but those of the revision and the hash lets pass. -/
structure Admissible (db : CatalogStore δ) (u : Update) (d : Uuid) : Prop where
  operation : u.operationId ≠ "" ∧ u.operationId.length ≤ 200
  workspace : ∃ workspace, db.workspaces u.accountId = some workspace
  unused : db.versionOperations.lookup (u.accountId, u.operationId) = none
  distinct : ∀ k r, db.revisions.lookup (d, k) = some r → r.operationId ≠ u.operationId
  entry : ∃ n, entry db u.accountId u.nodeId = some n ∧ n.destinationId = some d
  owned : ∃ x, db.destinations.lookup d = some x ∧ x.accountId = u.accountId
  file : ∃ f, readyFile db u.accountId u.fileId = some f

variable (digest) in
/-- An admissible update of the current revision is made. -/
theorem updateFile_appends {u : Update} (h : Admissible db u d)
    (hx : db.destinations.lookup d = some x) (hrevision : x.currentRevision = u.expectedRevision) (hsha : x.currentSha256 = u.expectedSha256)
    (hfree : db.revisions.lookup (d, u.expectedRevision + 1) = none) :
    ∃ db₁, (updateFile digest (.ok ()) (.ok ()) u).run db = .ok (⟨u.nodeId, d, u.expectedRevision + 1, u.fileId⟩, db₁) := by
  obtain ⟨workspace, hworkspace⟩ := h.workspace
  obtain ⟨n, hn, hd⟩ := h.entry
  obtain ⟨f, hf⟩ := h.file
  obtain ⟨x', hx', haccount⟩ := h.owned
  obtain rfl := Option.some.inj (hx.symm.trans hx')
  have hjoined := joined_eq_some hd hx haccount
  have hinsert : (insertRevision d (u.expectedRevision + 1) ⟨u.accountId, u.fileId, f.sha256, u.operationId⟩).run db =
      .ok ((), { db with revisions :=
        db.revisions.insert (d, u.expectedRevision + 1) ⟨u.accountId, u.fileId, f.sha256, u.operationId⟩ }) := by
    unfold insertRevision
    rw [Tx.bind_query_ok, Tx.bind_check_ok, Tx.bind_query_ok, Tx.bind_check_ok, Tx.update_ok]
    dsimp only
    rw [hf, hfree]
    refine ⟨decide_eq_true rfl, ?_, rfl⟩
    rw [Bool.or_eq_false_iff]
    refine ⟨rfl, List.any_eq_false.mpr ?_⟩
    rintro ⟨⟨d', k⟩, r⟩ hmem hboth
    simp only [Bool.and_eq_true, decide_eq_true_eq] at hboth
    obtain ⟨rfl, hop⟩ := hboth
    exact h.distinct k r (AList.mem_lookup_iff.mpr hmem) hop
  apply Exists.intro
  unfold updateFile checkOperationId
  rw [Tx.bind_check_ok]
  refine ⟨h.operation, ?_⟩
  rw [Tx.bind_ofExcept_ok]
  refine ⟨(), rfl, ?_⟩
  rw [Tx.bind_ok]
  refine ⟨workspace, db, workspaceOf_run hworkspace, ?_⟩
  rw [Tx.bind_query_ok, h.unused]
  dsimp only
  rw [Tx.bind_query_ok, Tx.bind_demand_ok]
  refine ⟨d, Option.bind_eq_some_iff.mpr ⟨n, hn, hd⟩, ?_⟩
  rw [Tx.bind_ok]
  refine ⟨_, db, currentOf_ok.mpr ⟨rfl, n, hn, rfl⟩, ?_⟩
  rw [hjoined, Tx.bind_check_ok]
  refine ⟨⟨congrArg some hrevision, congrArg some hsha⟩, ?_⟩
  rw [Tx.bind_ofExcept_ok]
  refine ⟨(), rfl, ?_⟩
  rw [Tx.bind_query_ok, Tx.bind_demand_ok]
  refine ⟨f, hf, ?_⟩
  rw [Tx.bind_ok]
  refine ⟨(), _, hinsert, ?_⟩
  rw [Tx.bind_update_ok, Tx.bind_update_ok, Tx.pure_ok]
  exact ⟨rfl, rfl⟩

/-! ### Saves -/

/-- A save that was recorded is replayed. -/
theorem saveFile_replay {name : Except CatalogError (String × String)} {display key operation : String}
    {fresh : Uuid} {agentRun : Option Uuid} {p : SaveOperation δ}
    (hid : operation ≠ "" ∧ operation.length ≤ 200) (hname : name = .ok (display, key))
    (hworkspace : db.workspaces account = some workspace) (hp : db.saveOperations.lookup (account, operation) = some p)
    (hintent : p.intent = digest (.save parent file display)) :
    (saveFile digest (.ok ()) granted name fresh account parent file operation agentRun).run db = .ok (p.nodeId, db) := by
  subst hname
  unfold saveFile checkOperationId
  rw [Tx.bind_check_ok]
  refine ⟨hid, ?_⟩
  rw [Tx.bind_ofExcept_ok]
  refine ⟨(display, key), rfl, ?_⟩
  rw [Tx.bind_ofExcept_ok]
  refine ⟨(), rfl, ?_⟩
  rw [Tx.bind_ok]
  refine ⟨workspace, db, workspaceOf_run hworkspace, ?_⟩
  rw [Tx.bind_query_ok, hp]
  dsimp only
  rw [Tx.bind_check_ok, Tx.pure_ok]
  exact ⟨hintent, rfl, rfl⟩

/-- A save that was recorded with another intent is refused. -/
theorem saveFile_conflict {name : Except CatalogError (String × String)} {display key operation : String}
    {fresh : Uuid} {agentRun : Option Uuid} {p : SaveOperation δ}
    (hid : operation ≠ "" ∧ operation.length ≤ 200) (hname : name = .ok (display, key))
    (hworkspace : db.workspaces account = some workspace) (hp : db.saveOperations.lookup (account, operation) = some p)
    (hintent : p.intent ≠ digest (.save parent file display)) :
    (saveFile digest (.ok ()) granted name fresh account parent file operation agentRun).run db =
      .error (operationConflict "operation ID has another intent") := by
  subst hname
  unfold saveFile checkOperationId
  rw [Tx.bind_check_error]
  refine .inr ⟨hid, ?_⟩
  rw [Tx.bind_ofExcept_error rfl, Tx.bind_ofExcept_error rfl, Tx.bind_error]
  refine .inr ⟨workspace, db, workspaceOf_run hworkspace, ?_⟩
  rw [Tx.bind_query_error, hp]
  dsimp only
  rw [Tx.bind_check_error]
  exact .inl ⟨hintent, rfl⟩

end update

/-! ### The chain of a destination -/

/-- The revisions of a destination are numbered from one to its current revision, which is the last one. -/
structure Chained (db : CatalogStore δ) : Prop where
  owned : ∀ d k r, db.revisions.lookup (d, k) = some r →
    ∃ x, db.destinations.lookup d = some x ∧ 1 ≤ k ∧ k ≤ x.currentRevision
  complete : ∀ d x k, db.destinations.lookup d = some x → 1 ≤ k → k ≤ x.currentRevision →
    ∃ r, db.revisions.lookup (d, k) = some r
  current : ∀ d x, db.destinations.lookup d = some x → 1 ≤ x.currentRevision ∧
    ∃ r, db.revisions.lookup (d, x.currentRevision) = some r ∧ r.fileId = x.currentFileId ∧ r.sha256 = x.currentSha256

theorem Chained.of_same (h : Chained db) (hsame : SameVersions db db') : Chained db' := by
  obtain ⟨-, hdestinations, hrevisions, -⟩ := hsame
  refine ⟨?_, ?_, ?_⟩
  · rw [hdestinations, hrevisions]
    exact h.owned
  · rw [hdestinations, hrevisions]
    exact h.complete
  · rw [hdestinations, hrevisions]
    exact h.current

/-- The number after the current one is free. -/
theorem Chained.next_free (h : Chained db) (hx : db.destinations.lookup d = some x) :
    db.revisions.lookup (d, x.currentRevision + 1) = none := by
  cases hr : db.revisions.lookup (d, x.currentRevision + 1) with
  | none => rfl
  | some r =>
      obtain ⟨y, hy, -, hle⟩ := h.owned d _ r hr
      obtain rfl := Option.some.inj (hx.symm.trans hy)
      omega

theorem Created.chained {r : Revision} (hnew : Created db db' d x r) (h : Chained db) :
    Chained db' := by
  obtain ⟨hone, hfile, hsha⟩ := hnew.first
  have hother {k : ℕ} {d' : Uuid} (hd : d' ≠ d) : db'.revisions.lookup (d', k) = db.revisions.lookup (d', k) := by
    rw [hnew.revisions, if_neg (by simp [hd])]
  refine ⟨fun d' k r' hr' => ?_, fun d' y k hy hpos hle => ?_, fun d' y hy => ?_⟩
  · rw [hnew.revisions] at hr'
    rw [hnew.destinations]
    split at hr'
    · next heq =>
        obtain ⟨rfl, rfl⟩ := Prod.mk.inj heq
        rw [if_pos rfl]
        exact ⟨x, rfl, Nat.le_refl 1, hone.ge⟩
    · obtain ⟨y, hy, hbounds⟩ := h.owned d' k r' hr'
      have hd : d' ≠ d := by
        rintro rfl
        rw [hnew.free] at hy
        cases hy
      rw [if_neg hd]
      exact ⟨y, hy, hbounds⟩
  · rw [hnew.destinations] at hy
    split at hy
    · next heq =>
        subst heq
        obtain rfl := Option.some.inj hy
        have hk : k = 1 := by omega
        subst hk
        exact ⟨r, by rw [hnew.revisions, if_pos rfl]⟩
    · next hd =>
        rw [hother hd]
        exact h.complete d' y k hy hpos hle
  · rw [hnew.destinations] at hy
    split at hy
    · next heq =>
        subst heq
        obtain rfl := Option.some.inj hy
        rw [hone]
        exact ⟨Nat.le_refl 1, r, by rw [hnew.revisions, if_pos rfl], hfile.symm, hsha.symm⟩
    · next hd =>
        rw [hother hd]
        exact h.current d' y hy

theorem Appended.chained {r : Revision} (hnext : Appended db db' d x r) (h : Chained db) :
    Chained db' := by
  have hother {k : ℕ} {d' : Uuid} (hd : d' ≠ d) : db'.revisions.lookup (d', k) = db.revisions.lookup (d', k) := by
    rw [hnext.revisions, if_neg (by simp [hd])]
  refine ⟨fun d' k r' hr' => ?_, fun d' y k hy hpos hle => ?_, fun d' y hy => ?_⟩
  · rw [hnext.revisions] at hr'
    rw [hnext.destinations]
    split at hr'
    · next heq =>
        obtain ⟨rfl, rfl⟩ := Prod.mk.inj heq
        rw [if_pos rfl]
        exact ⟨_, rfl, by omega, Nat.le_refl _⟩
    · obtain ⟨y, hy, hpos, hle⟩ := h.owned d' k r' hr'
      by_cases hd : d' = d
      · subst hd
        obtain rfl := Option.some.inj (hnext.destination.symm.trans hy)
        rw [if_pos rfl]
        exact ⟨_, rfl, hpos, hle.trans (Nat.le_succ _)⟩
      · rw [if_neg hd]
        exact ⟨y, hy, hpos, hle⟩
  · rw [hnext.destinations] at hy
    split at hy
    · next heq =>
        subst heq
        obtain rfl := Option.some.inj hy
        rw [hnext.revisions]
        split
        · exact ⟨r, rfl⟩
        · next hne =>
            have hle : k ≤ x.currentRevision + 1 := hle
            have hlt : k ≠ x.currentRevision + 1 := fun hk => hne (by rw [hk])
            exact h.complete d' x k hnext.destination hpos (by omega)
    · next hd =>
        rw [hother hd]
        exact h.complete d' y k hy hpos hle
  · rw [hnext.destinations] at hy
    split at hy
    · next heq =>
        subst heq
        obtain rfl := Option.some.inj hy
        exact ⟨Nat.succ_pos _, r, by rw [hnext.revisions, if_pos rfl], rfl, rfl⟩
    · next hd =>
        rw [hother hd]
        exact h.current d' y hy

end HpAgent.Workspace
