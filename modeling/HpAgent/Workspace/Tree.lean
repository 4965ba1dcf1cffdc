import HpAgent.Workspace.VersionRuns

/-! # The workspace tree

A step writes one node where the trigger allows it, opens a workspace, or leaves the tree alone.  In every history the
parent of a live node is a live directory of the same workspace.

* `Placed`, `Opened`: what a step writes to the tree.
* `act_tree`: the step lemma.
* `Tree`, `tree_run`: the invariant, over every history. -/

namespace HpAgent.Workspace

open Library

variable {account parent : Uuid} {old : Option Node} {u : Unit} {caller : Verdict}

section tree

variable {δ : Type} {db db' : CatalogStore δ}

/-! ### What is written -/

/-- A node is written under its parent, over the row that is there. -/
structure Placed (db db' : CatalogStore δ) (id : Uuid) (old : Option Node) (new : Node) : Prop where
  lookup : db.nodes.lookup id = old
  live : ∀ o, old = some o → o.deleted = false
  identity : ∀ o, old = some o → o.accountId = new.accountId ∧ o.workspaceId = new.workspaceId ∧ o.kind = new.kind
  root : new.parentId = none → new.deleted = false ∧ ∃ o, old = some o ∧ o.parentId = none ∧ o.kind = .file
  home : old = none → db.workspaces new.accountId = some new.workspaceId ∧ new.deleted = false
  parent : ∀ p, new.parentId = some p → id ≠ p ∧ activeDirectory db new p = true
  acyclic : ∀ o p, old = some o → new.parentId = some p → o.parentId ≠ new.parentId →
    id ∉ ancestors db db.nodes.entries.length p
  empty : new.kind = .directory → new.deleted = true → ∀ c m, db.nodes.lookup c = some m → m.parentId = some id → m.deleted = true
  sibling : new.deleted = true ∨ siblingTaken db id new = false
  workspaces : db'.workspaces = db.workspaces
  nodes : db'.nodes = db.nodes.insert id new

/-- A workspace is opened with its root. -/
structure Opened (db db' : CatalogStore δ) (account workspace root : Uuid) : Prop where
  closed : db.workspaces account = none
  free : db.nodes.lookup root = none
  sibling : siblingTaken db root ⟨account, workspace, none, .directory, "", "", none, none, false⟩ = false
  workspaces : db'.workspaces = Function.update db.workspaces account (some workspace)
  nodes : db'.nodes = db.nodes.insert root ⟨account, workspace, none, .directory, "", "", none, none, false⟩

/-- What a step does to the tree. -/
inductive TreeStep (db db' : CatalogStore δ) : Prop
  | same (hworkspaces : db'.workspaces = db.workspaces) (hnodes : db'.nodes = db.nodes)
  | placed (id : Uuid) (old : Option Node) (new : Node) (h : Placed db db' id old new)
  | opened (account workspace root : Uuid) (h : Opened db db' account workspace root)

/-- The trigger, when it lets a node below a parent pass. -/
theorem enforceNode_ok {id : Uuid} {new : Node} (hparent : new.parentId = some parent)
    (h : enforceNode db id old new = .ok u) :
    id ≠ parent ∧ activeDirectory db new parent = true ∧
      (∀ o, old = some o → o.parentId ≠ new.parentId → id ∉ ancestors db db.nodes.entries.length parent) ∧
      (new.kind = .directory → new.deleted = true → (∀ o, old = some o → o.deleted = false) →
        ∀ c m, db.nodes.lookup c = some m → m.parentId = some id → m.deleted = true) := by
  unfold enforceNode at h
  rw [hparent] at h
  dsimp only at h
  split_ifs at h with h₁ h₂ h₃ hactive hself hcycle hempty hfile
  refine ⟨hself, by simpa using hactive, fun o ho hne hmem => ?_, fun hkind hdeleted hold c m hc hm => ?_⟩
  · refine hcycle ⟨?_, hmem⟩
    rw [hparent] at hne
    rw [ho, Option.any_some]
    exact decide_eq_true hne
  · by_contra hlive
    refine hempty ⟨hkind, hdeleted, ?_, ?_⟩
    · cases old with
      | none => rfl
      | some o =>
          rw [Option.all_some, hold o rfl]
          rfl
    · refine List.any_eq_true.mpr ⟨⟨c, m⟩, AList.mem_lookup_iff.mp hc, ?_⟩
      rw [Bool.and_eq_true, decide_eq_true_eq, Bool.not_eq_true']
      exact ⟨hm, by simpa using hlive⟩

theorem placeNode_ok {id : Uuid} {new : Node} (h : (placeNode id old new).run db = .ok (u, db')) :
    enforceNode db id old new = .ok () ∧ (new.deleted = true ∨ siblingTaken db id new = false) ∧
      db' = db.writeNode id new := by
  unfold placeNode at h
  rw [Tx.bind_query_ok, Tx.bind_ofExcept_ok] at h
  obtain ⟨_, henforced, h⟩ := h
  rw [Tx.bind_query_ok, Tx.bind_check_ok, Tx.update_ok] at h
  exact ⟨henforced, h.1, h.2.symm⟩

theorem insertNode_ok {id : Uuid} {n : Node} (h : (insertNode id n).run db = .ok (u, db')) :
    db.nodes.lookup id = none ∧ (placeNode id none n).run db = .ok ((), db') := by
  unfold insertNode at h
  rw [Tx.bind_query_ok, Tx.bind_check_ok] at h
  exact ⟨by simpa using h.1, h.2⟩

/-- A new node below a parent. -/
theorem insertNode_placed {id : Uuid} {n : Node} (hparent : n.parentId = some parent)
    (hhome : db.workspaces n.accountId = some n.workspaceId) (hlive : n.deleted = false)
    (h : (insertNode id n).run db = .ok (u, db')) : Placed db db' id none n := by
  obtain ⟨hfree, h⟩ := insertNode_ok h
  obtain ⟨henforced, hsibling, rfl⟩ := placeNode_ok h
  obtain ⟨hself, hactive, -, -⟩ := enforceNode_ok hparent henforced
  refine ⟨hfree, nofun, nofun, fun hnone => ?_, fun _ => ⟨hhome, hlive⟩, fun p hp => ?_, nofun, fun _ hdeleted => ?_, hsibling,
    rfl, rfl⟩
  · rw [hparent] at hnone
    cases hnone
  · obtain rfl := Option.some.inj (hparent.symm.trans hp)
    exact ⟨hself, hactive⟩
  · rw [hlive] at hdeleted
    cases hdeleted

theorem liveNode_some {id : Uuid} {n : Node} (h : liveNode db account id = some n) :
    db.nodes.lookup id = some n ∧ n.accountId = account ∧ n.deleted = false := by
  unfold liveNode at h
  rw [Option.filter_eq_some_iff, Bool.and_eq_true, decide_eq_true_eq, Bool.not_eq_true'] at h
  exact ⟨h.1, h.2.1, h.2.2⟩

theorem movable_some {workspace id : Uuid} {n : Node} (h : movable db account workspace id = some n) :
    db.nodes.lookup id = some n ∧ n.deleted = false ∧ n.parentId.isSome = true := by
  unfold movable at h
  rw [Option.filter_eq_some_iff, Bool.and_eq_true] at h
  obtain ⟨hlookup, -, hlive⟩ := liveNode_some h.1
  exact ⟨hlookup, hlive, h.2.2⟩

/-- A live node below a parent is written over. -/
theorem placeNode_placed {id : Uuid} {old new : Node} (h : (placeNode id (some old) new).run db = .ok (u, db'))
    (hlookup : db.nodes.lookup id = some old) (hlive : old.deleted = false) (hparent : new.parentId = some parent)
    (hidentity : old.accountId = new.accountId ∧ old.workspaceId = new.workspaceId ∧ old.kind = new.kind) :
    Placed db db' id (some old) new := by
  obtain ⟨henforced, hsibling, rfl⟩ := placeNode_ok h
  obtain ⟨hself, hactive, hcycle, hempty⟩ := enforceNode_ok hparent henforced
  have hold : ∀ o, some old = some o → o.deleted = false := by
    rintro o ⟨⟩
    exact hlive
  refine ⟨hlookup, hold, ?_, fun hnone => ?_, nofun, fun p hp => ?_, fun o p ho hp hne => ?_,
    fun hkind hdeleted => hempty hkind hdeleted hold, hsibling, rfl, rfl⟩
  · rintro o ⟨⟩
    exact hidentity
  · rw [hparent] at hnone
    cases hnone
  · obtain rfl := Option.some.inj (hparent.symm.trans hp)
    exact ⟨hself, hactive⟩
  · obtain rfl := Option.some.inj (hparent.symm.trans hp)
    exact hcycle o ho hne

/-! ### The commands -/

theorem createDirectory_tree {name : Except CatalogError (String × String)} {fresh id : Uuid}
    (h : (createDirectory caller name fresh account parent).run db = .ok (id, db')) : TreeStep db db' := by
  unfold createDirectory at h
  rw [Tx.bind_ofExcept_ok] at h
  obtain ⟨⟨display, key⟩, -, h⟩ := h
  rw [Tx.bind_ofExcept_ok] at h
  obtain ⟨_, -, h⟩ := h
  rw [Tx.bind_ok] at h
  obtain ⟨workspace, db₁, hworkspace, h⟩ := h
  obtain ⟨hopen, rfl⟩ := workspaceOf_ok hworkspace
  rw [Tx.bind_ok] at h
  obtain ⟨_, db₂, hinsert, h⟩ := h
  obtain ⟨-, rfl⟩ := Tx.pure_ok.mp h
  exact .placed _ _ _ (insertNode_placed rfl hopen rfl hinsert)

theorem saveFile_tree [DecidableEq δ] {digest : Intent → δ} {granted : Verdict} {name : Except CatalogError (String × String)}
    {fresh file id : Uuid} {operation : String} {agentRun : Option Uuid}
    (h : (saveFile digest caller granted name fresh account parent file operation agentRun).run db = .ok (id, db')) :
    TreeStep db db' := by
  obtain ⟨-, workspace, display, key, hopen, -, hcases⟩ := saveFile_ok h
  rcases hcases with ⟨_, -, -, -, rfl⟩ | ⟨_, db₁, files, -, -, hinsert, rfl⟩
  · exact .same rfl rfl
  · -- the operation and the file are recorded outside the tree
    have hplaced := insertNode_placed rfl hopen rfl hinsert
    exact .placed _ _ _ { hplaced with workspaces := hplaced.workspaces, nodes := hplaced.nodes }

theorem upgradeFile_tree {fresh id : Uuid} {operation : String} {current : Current}
    (h : (upgradeFile caller fresh account id operation).run db = .ok (current, db')) : TreeStep db db' := by
  rcases upgradeFile_ok h with rfl | ⟨n, file, sha, hn, -, _, hplace⟩
  · exact .same rfl rfl
  · unfold entry at hn
    rw [Option.filter_eq_some_iff, decide_eq_true_eq] at hn
    obtain ⟨hlookup, -, hlive⟩ := liveNode_some hn.1
    -- the destination and its revision are written before, outside the tree
    cases hparent : n.parentId with
    | some parent =>
        have hplaced := placeNode_placed hplace hlookup hlive hparent ⟨rfl, rfl, rfl⟩
        refine .placed _ _ _ { hplaced with acyclic := ?_ }
        rintro o p ⟨⟩ - hne
        exact absurd rfl hne
    | none =>
        obtain ⟨-, hsibling, rfl⟩ := placeNode_ok hplace
        refine .placed id (some n) { n with fileId := none, destinationId := some fresh } ⟨hlookup, ?_, ?_, fun _ => ⟨hlive, n, rfl, hparent, hn.2⟩,
          (by intros; contradiction), fun p hp => ?_, fun o p _ hp => ?_, fun _ hdeleted => ?_, hsibling, rfl, rfl⟩
        · rintro o ⟨⟩
          exact hlive
        · rintro o ⟨⟩
          exact ⟨rfl, rfl, rfl⟩
        · cases hparent.symm.trans hp
        · cases hparent.symm.trans hp
        · cases hlive.symm.trans hdeleted

theorem move_tree {stopped : Verdict} {stale : Bool} {name : Except CatalogError (String × String)} {id : Uuid}
    (h : (move caller stopped stale name account id parent).run db = .ok (u, db')) : TreeStep db db' := by
  unfold move at h
  rw [Tx.bind_ofExcept_ok] at h
  obtain ⟨⟨display, key⟩, -, h⟩ := h
  rw [Tx.bind_ofExcept_ok] at h
  obtain ⟨_, -, h⟩ := h
  rw [Tx.bind_ok] at h
  obtain ⟨workspace, db₁, hworkspace, h⟩ := h
  obtain ⟨-, rfl⟩ := workspaceOf_ok hworkspace
  rw [Tx.bind_check_ok, Tx.bind_query_ok, Tx.bind_demand_ok] at h
  obtain ⟨-, n, hn, h⟩ := h
  obtain ⟨hlookup, hlive, -⟩ := movable_some hn
  rw [Tx.bind_ok] at h
  obtain ⟨_, db₂, hplace, h⟩ := h
  obtain ⟨-, rfl⟩ := Tx.ofExcept_ok.mp h
  exact .placed _ _ _ (placeNode_placed hplace hlookup hlive rfl ⟨rfl, rfl, rfl⟩)

theorem remove_tree {stopped : Verdict} {bound stale : Bool} {id : Uuid}
    (h : (remove caller stopped bound stale account id).run db = .ok (u, db')) : TreeStep db db' := by
  unfold remove at h
  rw [Tx.bind_ofExcept_ok] at h
  obtain ⟨_, -, h⟩ := h
  rw [Tx.bind_ok] at h
  obtain ⟨workspace, db₁, hworkspace, h⟩ := h
  obtain ⟨-, rfl⟩ := workspaceOf_ok hworkspace
  rw [Tx.bind_check_ok, Tx.bind_check_ok, Tx.bind_query_ok, Tx.bind_demand_ok] at h
  obtain ⟨-, -, n, hn, h⟩ := h
  obtain ⟨hlookup, hlive, hparent⟩ := movable_some hn
  obtain ⟨parent, hparent⟩ := Option.isSome_iff_exists.mp hparent
  rw [Tx.bind_ok] at h
  obtain ⟨_, db₂, hplace, h⟩ := h
  obtain ⟨-, rfl⟩ := Tx.ofExcept_ok.mp h
  exact .placed _ _ _ (placeNode_placed hplace hlookup hlive hparent ⟨rfl, rfl, rfl⟩)

theorem openWorkspace_tree {workspace root : Uuid}
    (h : (openWorkspace account workspace root).run db = .ok (u, db')) : TreeStep db db' := by
  unfold openWorkspace at h
  rw [Tx.bind_query_ok] at h
  split at h
  · obtain ⟨-, rfl⟩ := Tx.pure_ok.mp h
    exact .same rfl rfl
  · next hclosed =>
      rw [Tx.bind_update_ok] at h
      obtain ⟨hfree, h⟩ := insertNode_ok h
      obtain ⟨-, hsibling, rfl⟩ := placeNode_ok h
      exact .opened account workspace root ⟨hclosed, hfree, hsibling.resolve_left nofun, rfl, rfl⟩

/-- The nodes and the workspaces stay. -/
structure SameTree (db db' : CatalogStore δ) : Prop where
  workspaces : db'.workspaces = db.workspaces
  nodes : db'.nodes = db.nodes

instance : IsPreorder (CatalogStore δ) SameTree where
  refl _ := ⟨rfl, rfl⟩
  trans _ _ _ h h' := ⟨h'.workspaces.trans h.workspaces, h'.nodes.trans h.nodes⟩

/-- A file is recorded as it is, or rewritten without a change that the catalog sees. -/
theorem updateFile_sameTree [DecidableEq δ] (digest : Intent → δ) (caller granted : Verdict) (u : Update) :
    Tx.Keeps (@SameTree δ) (updateFile digest caller granted u) := by
  refine (Tx.Keeps.check _ _).bind fun _ => (Tx.Keeps.ofExcept _).bind fun _ =>
    ((Tx.Keeps.query _).bind fun _ => Tx.Keeps.demand _ _).bind fun _ => (Tx.Keeps.query _).bind fun prior => ?_
  cases prior with
  | some p => exact (Tx.Keeps.check _ _).bind fun _ => Tx.Keeps.pure _
  | none =>
      refine (Tx.Keeps.query _).bind fun _ => (Tx.Keeps.demand _ _).bind fun _ => Tx.Keeps.bind ?_ fun _ =>
        (Tx.Keeps.check _ _).bind fun _ => (Tx.Keeps.ofExcept _).bind fun _ => (Tx.Keeps.query _).bind fun _ =>
        (Tx.Keeps.demand _ _).bind fun _ => Tx.Keeps.bind ?_ fun _ => (Tx.Keeps.update fun _ => ⟨rfl, rfl⟩).bind fun _ =>
        (Tx.Keeps.update fun _ => ⟨rfl, rfl⟩).bind fun _ => Tx.Keeps.pure _
      · intro db current db' h
        obtain rfl := (currentOf_ok.mp h).1
        exact refl_of SameTree db
      · intro db _ db' h
        obtain ⟨-, rfl⟩ := insertRevision_ok h
        exact ⟨rfl, rfl⟩

/-- **Each action writes at most one node, or opens a workspace.** -/
theorem act_tree [DecidableEq δ] (host : Host δ) (db : CatalogStore δ) (a : Action) : TreeStep db (act host db a) := by
  unfold act
  refine Tx.commit_rule (fun s => TreeStep db s) (.same rfl rfl) fun u db' h => ?_
  cases a with
  | openWorkspace account workspace root =>
      have h : (openWorkspace account workspace root).run db = .ok (u, db') := h
      exact openWorkspace_tree h
  | storeFile id file =>
      obtain rfl := Tx.update_ok.mp h
      exact .same rfl rfl
  | retireFile id =>
      obtain rfl := Tx.update_ok.mp h
      exact .same rfl rfl
  | publish account file =>
      obtain rfl := Tx.update_ok.mp h
      exact .same rfl rfl
  | createDirectory caller name fresh account parent =>
      obtain ⟨id, h⟩ := discard_ok h
      exact createDirectory_tree h
  | saveFile caller granted name fresh account parent file operation agentRun =>
      obtain ⟨id, h⟩ := discard_ok h
      exact saveFile_tree h
  | upgradeFile caller fresh account id operation =>
      obtain ⟨current, h⟩ := discard_ok h
      exact upgradeFile_tree h
  | updateFile caller granted u =>
      obtain ⟨version, h⟩ := discard_ok h
      have hsame := updateFile_sameTree _ _ _ _ _ _ _ h
      exact .same hsame.workspaces hsame.nodes
  | move caller stopped stale name account id parent => exact move_tree h
  | remove caller stopped bound stale account id => exact remove_tree h

/-! ### The invariant -/

/-- The parent of a node is a directory of the same workspace, and a live one if the node is live. -/
def Under (db : CatalogStore δ) (n : Node) (p : Uuid) : Prop :=
  ∃ q, db.nodes.lookup p = some q ∧ q.accountId = n.accountId ∧ q.workspaceId = n.workspaceId ∧ q.kind = .directory ∧
    (n.deleted = false → q.deleted = false)

/-- The nodes of an account are in its workspace, and each but the root is under its parent. -/
structure Tree (db : CatalogStore δ) : Prop where
  home : ∀ id n, db.nodes.lookup id = some n → db.workspaces n.accountId = some n.workspaceId
  parent : ∀ id n p, db.nodes.lookup id = some n → n.parentId = some p → Under db n p
  root : ∀ id n, db.nodes.lookup id = some n → n.parentId = none → n.kind = .directory ∧ n.deleted = false

theorem under_of_activeDirectory {n : Node} {p : Uuid} (h : activeDirectory db n p = true) : Under db n p := by
  unfold activeDirectory at h
  rw [Option.any_eq_true] at h
  obtain ⟨q, hq, h⟩ := h
  simp only [Bool.and_eq_true, decide_eq_true_eq, Bool.not_eq_true', and_assoc] at h
  exact ⟨q, hq, h.1, h.2.1, h.2.2.1, fun _ => h.2.2.2⟩

theorem Under.of_lookup {n : Node} {p : Uuid} (hlookup : db'.nodes.lookup p = db.nodes.lookup p) (h : Under db n p) :
    Under db' n p := by
  unfold Under
  rw [hlookup]
  exact h

theorem Tree.of_opened {workspace root : Uuid} (ht : Tree db) (h : Opened db db' account workspace root) : Tree db' := by
  have hlookup : ∀ k, db'.nodes.lookup k = if k = root then some ⟨account, workspace, none, .directory, "", "", none, none, false⟩
      else db.nodes.lookup k := by
    intro k
    rw [h.nodes]
    exact Table.lookup_insert_ite _ root k _
  refine ⟨fun id n hn => ?_, fun id n p hn hparent => ?_, fun id n hn hparent => ?_⟩
  all_goals
    rw [hlookup] at hn
    split_ifs at hn with hid
  · obtain rfl := Option.some.inj hn
    rw [h.workspaces]
    exact Function.update_self _ _ _
  · have hold := ht.home id n hn
    have hne : n.accountId ≠ account := by
      intro heq
      rw [heq, h.closed] at hold
      cases hold
    rw [h.workspaces, Function.update_of_ne hne]
    exact hold
  · obtain rfl := Option.some.inj hn
    cases hparent
  · have hold := ht.parent id n p hn hparent
    refine hold.of_lookup ?_
    rw [hlookup, if_neg]
    rintro rfl
    obtain ⟨q, hq, -⟩ := hold
    rw [h.free] at hq
    cases hq
  · obtain rfl := Option.some.inj hn
    exact ⟨rfl, rfl⟩
  · exact ht.root id n hn hparent

theorem Placed.parent_some {id : Uuid} {new : Node} (ht : Tree db) (h : Placed db db' id old new) :
    ∃ p, new.parentId = some p := by
  cases hparent : new.parentId with
  | some p => exact ⟨p, rfl⟩
  | none =>
      obtain ⟨-, o, ho, hnone, hfile⟩ := h.root hparent
      have hdirectory := (ht.root id o (h.lookup.trans ho) hnone).1
      rw [hfile] at hdirectory
      cases hdirectory

theorem Tree.of_placed {id : Uuid} {new : Node} (ht : Tree db) (h : Placed db db' id old new) : Tree db' := by
  have hlookup : ∀ k, db'.nodes.lookup k = if k = id then some new else db.nodes.lookup k := by
    intro k
    rw [h.nodes]
    exact Table.lookup_insert_ite _ id k _
  refine ⟨fun k n hn => ?_, fun k n p hn hparent => ?_, fun k n hn hparent => ?_⟩
  all_goals
    rw [hlookup] at hn
    split_ifs at hn with hk
  · obtain rfl := Option.some.inj hn
    rw [h.workspaces]
    cases hold : old with
    | none => exact (h.home hold).1
    | some o =>
        obtain ⟨haccount, hworkspace, -⟩ := h.identity o hold
        have hhome := ht.home id o (h.lookup.trans hold)
        rwa [haccount, hworkspace] at hhome
  · rw [h.workspaces]
    exact ht.home k n hn
  · obtain rfl := Option.some.inj hn
    obtain ⟨hself, hactive⟩ := h.parent p hparent
    exact (under_of_activeDirectory hactive).of_lookup (by rw [hlookup, if_neg (Ne.symm hself)])
  · have hunder := ht.parent k n p hn hparent
    by_cases hp : p = id
    · -- the node that is written is the parent: it stays a directory, and live while it has a live child
      subst hp
      obtain ⟨q, hq, haccount, hworkspace, hkind, -⟩ := hunder
      obtain ⟨haccount', hworkspace', hkind'⟩ := h.identity q (h.lookup.symm.trans hq)
      refine ⟨new, (hlookup p).trans (if_pos rfl), haccount'.symm.trans haccount, hworkspace'.symm.trans hworkspace,
        hkind'.symm.trans hkind, fun hlive => ?_⟩
      by_contra hdeleted
      have hgone := h.empty (hkind'.symm.trans hkind) (by simpa using hdeleted) k n hn hparent
      rw [hlive] at hgone
      cases hgone
    · exact hunder.of_lookup (by rw [hlookup, if_neg hp])
  · obtain ⟨p, hp⟩ := h.parent_some ht
    obtain rfl := Option.some.inj hn
    cases hp.symm.trans hparent
  · exact ht.root k n hn hparent

theorem Tree.step (ht : Tree db) (h : TreeStep db db') : Tree db' := by
  cases h with
  | same hworkspaces hnodes =>
      obtain ⟨hhome, hparent, hroot⟩ := ht
      refine ⟨?_, ?_, ?_⟩
      · rw [hworkspaces, hnodes]
        exact hhome
      · unfold Under
        rw [hnodes]
        exact hparent
      · rw [hnodes]
        exact hroot
  | placed id old new hplaced => exact ht.of_placed hplaced
  | opened account workspace root hopened => exact ht.of_opened hopened

/-- **In every history the tree is well formed.** -/
theorem tree_run [DecidableEq δ] (host : Host δ) (actions : List Action) : Tree (run host actions) := by
  unfold run
  induction actions using List.reverseRecOn with
  | nil =>
      refine ⟨fun id n h => ?_, fun id n p h => ?_, fun id n h => ?_⟩
      all_goals cases h
  | append_singleton actions a ih =>
      rw [List.foldl_concat]
      exact ih.step (act_tree host _ a)

end tree

end HpAgent.Workspace
