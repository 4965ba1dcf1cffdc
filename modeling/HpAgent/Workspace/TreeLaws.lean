import HpAgent.Library.Lineage
import HpAgent.Workspace.Snapshots

/-! # The laws of the workspace tree

In every history an account that has a workspace has one root in it, everything in the workspace is on a line that leads
up to this root, and no two live entries of a directory have the same name.

* `initializeWorkspace`, `history`: the opening of a workspace with its first directories, among the commands.
* `Arranged`, `Kept`: the invariant, and what a step leaves as it is.
* `tree_laws`, `nodes_kept`, `workspace_tree`: every history. -/

namespace HpAgent.Workspace

open Library

variable {workspace : Uuid} {old : Option Node} {account root : Uuid}

section treeLaws

variable {δ : Type}

/-! ### Opening a workspace -/

section initial

variable (host : Host δ)

/-- A directory that a workspace starts with. -/
def initialDirectory (account workspace root : Uuid) (name : String) (fresh : Uuid) : CatalogTx δ Unit := do
  let (display, key) ← Tx.ofExcept (host.name name)
  insertNode fresh ⟨account, workspace, some root, .directory, display, key, none, none, false⟩

/-- `initialize`, up to what it returns; `active` is the verdict on the account. -/
def initializeWorkspace (caller active : Verdict) (account workspace root first second third : Uuid) :
    CatalogTx δ Unit := do
  Tx.ofExcept caller
  Tx.ofExcept active
  let existing ← Tx.query fun db => db.workspaces account
  match existing with
  | some _ => pure ()
  | none => do
      openWorkspace account workspace root
      initialDirectory host account workspace root "资料" first
      initialDirectory host account workspace root "任务" second
      initialDirectory host account workspace root "成果" third

/-- A command on the catalog, or the opening of a workspace. -/
inductive Command where
  | act (a : Action)
  | opening (caller active : Verdict) (account workspace root first second third : Uuid)

variable [DecidableEq δ]

def exec (db : CatalogStore δ) : Command → CatalogStore δ
  | .act a => act host db a
  | .opening caller active account workspace root first second third =>
      (initializeWorkspace host caller active account workspace root first second third).commit db

def history (commands : List Command) : CatalogStore δ := commands.foldl (exec host) start

/-- A command as one transaction. -/
def Command.tx : Command → CatalogTx δ Unit
  | .act a => a.tx host
  | .opening caller active account workspace root first second third =>
      initializeWorkspace host caller active account workspace root first second third

theorem exec_eq (db : CatalogStore δ) (c : Command) : exec host db c = (c.tx host).commit db := by
  cases c <;> rfl

theorem history_concat (commands : List Command) (c : Command) :
    history host (commands ++ [c]) = exec host (history host commands) c :=
  List.foldl_concat ..

end initial

/-! ### The invariant -/

section invariant

variable {db db' : CatalogStore δ}

/-- The parent of a node, if there is such a node. -/
def parentOf (db : CatalogStore δ) (id : Uuid) : Option (Option Uuid) := (db.nodes.lookup id).map Node.parentId

theorem parentOf_eq {id : Uuid} {n : Node} (h : db.nodes.lookup id = some n) : parentOf db id = some n.parentId := by
  unfold parentOf
  rw [h, Option.map_some]

theorem parentOf_some {id : Uuid} {parent : Option Uuid} (h : parentOf db id = some parent) :
    ∃ n, db.nodes.lookup id = some n ∧ n.parentId = parent := Option.map_eq_some_iff.mp h

theorem known_iff {id : Uuid} : (parentOf db id).isSome = true ↔ ∃ n, db.nodes.lookup id = some n := by
  unfold parentOf
  rw [Option.isSome_map, Option.isSome_iff_exists]

theorem known_mem {id : Uuid} (h : (parentOf db id).isSome = true) : id ∈ db.nodes.entries.map Sigma.fst := by
  obtain ⟨n, hn⟩ := known_iff.mp h
  exact List.mem_map.mpr ⟨⟨id, n⟩, AList.mem_lookup_iff.mp hn, rfl⟩

/-- The recursive query of the trigger climbs. -/
theorem ancestors_eq_climb (n : ℕ) (id : Uuid) : ancestors db n id = climb (parentOf db) n id := by
  induction n generalizing id with
  | zero => rfl
  | succ n ih =>
      cases hlookup : db.nodes.lookup id with
      | none => simp [ancestors, climb, parentOf, hlookup]
      | some x =>
          have hparent := parentOf_eq hlookup
          cases hx : x.parentId with
          | none => simp [ancestors, climb, hparent, hlookup, hx]
          | some p => simp [ancestors, climb, hparent, hlookup, hx, ih]

/-- The query has enough rounds. -/
theorem ancestors_of_line {id : Uuid} {l : List Uuid} (h : Line (parentOf db) id l) :
    ancestors db db.nodes.entries.length id = l := by
  have hle := h.length_le fun _ hb => known_mem hb
  rw [List.length_map] at hle
  rw [ancestors_eq_climb, climb_eq h hle]

/-- The nodes of a workspace hang below its only root, and live siblings have different names. -/
structure Arranged (db : CatalogStore δ) : Prop extends Tree db where
  rooted : Rooted (parentOf db)
  opened : ∀ account workspace, db.workspaces account = some workspace →
    ∃ r n, db.nodes.lookup r = some n ∧ n.accountId = account ∧ n.workspaceId = workspace ∧ n.parentId = none
  unnamed : ∀ id n, db.nodes.lookup id = some n → n.parentId = none → n.nameKey = ""
  siblings : ∀ i j n m, db.nodes.lookup i = some n → db.nodes.lookup j = some m → n.deleted = false → m.deleted = false →
    n.workspaceId = m.workspaceId → n.parentId = m.parentId → n.nameKey = m.nameKey → i = j

theorem siblingTaken_false {id : Uuid} {n : Node} (h : siblingTaken db id n = false) {j : Uuid} {m : Node}
    (hm : db.nodes.lookup j = some m) (hworkspace : m.workspaceId = n.workspaceId) (hparent : m.parentId = n.parentId)
    (hname : m.nameKey = n.nameKey) (hlive : m.deleted = false) : j = id := by
  by_contra hne
  have hall := List.any_eq_false.mp h ⟨j, m⟩ (AList.mem_lookup_iff.mp hm)
  simp [hne, hworkspace, hparent, hname, hlive] at hall

/-- A workspace has one root. -/
theorem Arranged.root_unique (h : Arranged db) {i j : Uuid} {n m : Node} (hn : db.nodes.lookup i = some n)
    (hm : db.nodes.lookup j = some m) (hworkspace : n.workspaceId = m.workspaceId) (hi : n.parentId = none)
    (hj : m.parentId = none) : i = j := by
  refine h.siblings i j n m hn hm (h.root i n hn hi).2 (h.root j m hm hj).2 hworkspace (hi.trans hj.symm) ?_
  rw [h.unnamed i n hn hi, h.unnamed j m hm hj]

theorem Arranged.owner (h : Arranged db) {a b : Uuid} (ha : db.workspaces a = some workspace)
    (hb : db.workspaces b = some workspace) : a = b := by
  obtain ⟨r, n, hn, rfl, hhome, hroot⟩ := h.opened a workspace ha
  obtain ⟨r', n', hn', rfl, hhome', hroot'⟩ := h.opened b workspace hb
  obtain rfl := h.root_unique hn hn' (hhome.trans hhome'.symm) hroot hroot'
  obtain rfl := Option.some.inj (hn.symm.trans hn')
  rfl

/-- Everything on a line is in the workspace, and live if the start is. -/
theorem Arranged.along (h : Arranged db) {id : Uuid} {n : Node} {l : List Uuid} (hn : db.nodes.lookup id = some n)
    (hl : Line (parentOf db) id l) : ∀ a ∈ l, ∃ m, db.nodes.lookup a = some m ∧ m.accountId = n.accountId ∧
      m.workspaceId = n.workspaceId ∧ (n.deleted = false → m.deleted = false) ∧ (a ≠ id → m.kind = .directory) := by
  refine hl.along ⟨n, hn, rfl, rfl, fun hlive => hlive, fun hne => absurd rfl hne⟩ ?_
  rintro c p hp ⟨m, hm, haccount, hworkspace, hlive, -⟩
  obtain ⟨m', hm', hparent⟩ := parentOf_some hp
  obtain rfl := Option.some.inj (hm.symm.trans hm')
  obtain ⟨q, hq, haccount', hworkspace', hkind, hlive'⟩ := h.parent c m p hm hparent
  exact ⟨q, hq, haccount'.trans haccount, hworkspace'.trans hworkspace, fun hn => hlive' (hlive hn), fun _ => hkind⟩

/-- The line of a node ends at the root of its workspace. -/
theorem Arranged.line (h : Arranged db) {id : Uuid} {n : Node} (hn : db.nodes.lookup id = some n) :
    ∃ above r m, Line (parentOf db) id (above ++ [r]) ∧ db.nodes.lookup r = some m ∧ m.workspaceId = n.workspaceId ∧
      m.parentId = none := by
  obtain ⟨l, hl⟩ := h.rooted id (known_iff.mpr ⟨n, hn⟩)
  obtain ⟨above, r, rfl, hr⟩ := hl.root_last
  obtain ⟨m, hm, hroot⟩ := parentOf_some hr
  obtain ⟨m', hm', -, hworkspace, -⟩ := h.along hn hl r (List.mem_append_right _ (List.mem_singleton_self r))
  obtain rfl := Option.some.inj (hm.symm.trans hm')
  exact ⟨above, r, m, hl, hm, hworkspace, hroot⟩

/-! ### What keeps it -/

theorem activeDirectory_some {n : Node} {p : Uuid} (h : activeDirectory db n p = true) :
    ∃ q, db.nodes.lookup p = some q ∧ q.accountId = n.accountId ∧ q.workspaceId = n.workspaceId ∧ q.kind = .directory ∧
      q.deleted = false := by
  unfold activeDirectory at h
  rw [Option.any_eq_true] at h
  obtain ⟨q, hq, h⟩ := h
  simp only [Bool.and_eq_true, decide_eq_true_eq, Bool.not_eq_true', and_assoc] at h
  exact ⟨q, hq, h⟩

theorem Placed.lookup_eq {id : Uuid} {new : Node} (h : Placed db db' id old new) (k : Uuid) :
    db'.nodes.lookup k = if k = id then some new else db.nodes.lookup k := by
  rw [h.nodes]
  exact Table.lookup_insert_ite _ id k _

theorem Opened.lookup_eq (h : Opened db db' account workspace root) (k : Uuid) :
    db'.nodes.lookup k = if k = root then some ⟨account, workspace, none, .directory, "", "", none, none, false⟩
      else db.nodes.lookup k := by
  rw [h.nodes]
  exact Table.lookup_insert_ite _ root k _

/-- The line of the parent goes past the node. -/
theorem Placed.off_line {id p : Uuid} {new : Node} (h : Placed db db' id old new) {line : List Uuid}
    (hline : Line (parentOf db) p line) (hp : new.parentId = some p) (hmoved : ∀ o, old = some o → o.parentId ≠ some p) :
    id ∉ line := by
  intro hmem
  obtain ⟨o, ho⟩ := known_iff.mp (hline.mem_known hmem)
  have hold := h.lookup.symm.trans ho
  refine h.acyclic o p hold hp ?_ ?_
  · rw [hp]
    exact hmoved o hold
  · rwa [ancestors_of_line hline]

/-- The root is not put under another node. -/
theorem Arranged.placed_child (h : Arranged db) {id : Uuid} {new : Node}
    (hplaced : Placed db db' id old new) {o : Node} (ho : old = some o) : o.parentId.isSome = true := by
  by_contra hnone
  rw [Bool.not_eq_true, Option.isSome_eq_false_iff, Option.isNone_iff_eq_none] at hnone
  obtain ⟨p, hp⟩ := hplaced.parent_some h.toTree
  obtain ⟨q, hq, -, hworkspace, -⟩ := activeDirectory_some (hplaced.parent p hp).2
  obtain ⟨above, r, m, hline, hm, hhome, hroot⟩ := h.line hq
  have hlookup := hplaced.lookup.trans ho
  -- the line of the parent ends at the root of the workspace, which is the node
  have hsame : r = id := by
    refine h.root_unique hm hlookup ?_ hroot hnone
    rw [hhome, hworkspace, (hplaced.identity o ho).2.1]
  refine hplaced.off_line hline hp (fun o' ho' => ?_) ?_
  · obtain rfl := Option.some.inj (ho.symm.trans ho')
    rw [hnone]
    exact Option.some_ne_none p |>.symm
  · rw [hsame]
    exact List.mem_append_right _ (List.mem_singleton_self id)

theorem Arranged.rooted_placed (h : Arranged db) {id : Uuid} {new : Node}
    (hplaced : Placed db db' id old new) : Rooted (parentOf db') := by
  obtain ⟨p, hp⟩ := hplaced.parent_some h.toTree
  have hup : ∀ b, parentOf db' b = if b = id then some (some p) else parentOf db b := by
    intro b
    unfold parentOf
    rw [hplaced.lookup_eq]
    split_ifs with hb
    · rw [Option.map_some, hp]
    · rfl
  by_cases hsame : parentOf db id = some (some p)
  · -- the node stays where it is
    have heq : parentOf db' = parentOf db := by
      funext b
      rw [hup]
      split_ifs with hb
      · rw [hb, hsame]
      · rfl
    rw [heq]
    exact h.rooted
  · obtain ⟨q, hq, -⟩ := activeDirectory_some (hplaced.parent p hp).2
    obtain ⟨line, hline⟩ := h.rooted p (known_iff.mpr ⟨q, hq⟩)
    refine h.rooted.place hline (hplaced.off_line hline hp fun o ho heq => hsame ?_) hup
    rw [parentOf_eq (hplaced.lookup.trans ho), heq]

theorem Arranged.of_placed (h : Arranged db) {id : Uuid} {new : Node}
    (hplaced : Placed db db' id old new) : Arranged db' := by
  have hlookup := hplaced.lookup_eq
  refine ⟨h.toTree.of_placed hplaced, h.rooted_placed hplaced, fun account workspace hworkspace => ?_,
    fun k n hn hparent => ?_, fun i j n m hn hm hlive hlive' hworkspace hparent hname => ?_⟩
  · rw [hplaced.workspaces] at hworkspace
    obtain ⟨r, n, hn, haccount, hhome, hroot⟩ := h.opened account workspace hworkspace
    refine ⟨r, n, ?_, haccount, hhome, hroot⟩
    rw [hlookup, if_neg]
    · exact hn
    · rintro rfl
      have hchild := h.placed_child hplaced (hplaced.lookup.symm.trans hn)
      rw [hroot] at hchild
      cases hchild
  · rw [hlookup] at hn
    split_ifs at hn with hk
    · obtain rfl := Option.some.inj hn
      obtain ⟨p, hp⟩ := hplaced.parent_some h.toTree
      cases hp.symm.trans hparent
    · exact h.unnamed k n hn hparent
  · rw [hlookup] at hn hm
    split_ifs at hn hm with hi hj hj
    · rw [hi, hj]
    · obtain rfl := Option.some.inj hn
      obtain hdeleted | htaken := hplaced.sibling
      · cases hlive.symm.trans hdeleted
      · rw [hi]
        exact (siblingTaken_false htaken hm hworkspace.symm hparent.symm hname.symm hlive').symm
    · obtain rfl := Option.some.inj hm
      obtain hdeleted | htaken := hplaced.sibling
      · cases hlive'.symm.trans hdeleted
      · rw [hj]
        exact siblingTaken_false htaken hn hworkspace hparent hname hlive
    · exact h.siblings i j n m hn hm hlive hlive' hworkspace hparent hname

theorem Arranged.of_opened (h : Arranged db) (hopened : Opened db db' account workspace root) :
    Arranged db' := by
  have hlookup := hopened.lookup_eq
  refine ⟨h.toTree.of_opened hopened, ?_, fun a w hw => ?_, fun k n hn hparent => ?_,
    fun i j n m hn hm hlive hlive' hworkspace hparent hname => ?_⟩
  · refine h.rooted.plant (a := root) ?_ fun b => ?_
    · unfold parentOf
      rw [hopened.free, Option.map_none]
    · unfold parentOf
      rw [hlookup]
      split_ifs with hb
      · rfl
      · rfl
  · rw [hopened.workspaces] at hw
    by_cases ha : a = account
    · subst ha
      rw [Function.update_self] at hw
      exact ⟨root, _, (hlookup root).trans (if_pos rfl), rfl, Option.some.inj hw, rfl⟩
    · rw [Function.update_of_ne ha] at hw
      obtain ⟨r, n, hn, haccount, hhome, hroot⟩ := h.opened a w hw
      refine ⟨r, n, ?_, haccount, hhome, hroot⟩
      rw [hlookup, if_neg]
      · exact hn
      · rintro rfl
        rw [hopened.free] at hn
        cases hn
  · rw [hlookup] at hn
    split_ifs at hn with hk
    · obtain rfl := Option.some.inj hn
      rfl
    · exact h.unnamed k n hn hparent
  · rw [hlookup] at hn hm
    split_ifs at hn hm with hi hj hj
    · rw [hi, hj]
    · obtain rfl := Option.some.inj hn
      rw [hi]
      exact (siblingTaken_false hopened.sibling hm hworkspace.symm hparent.symm hname.symm hlive').symm
    · obtain rfl := Option.some.inj hm
      rw [hj]
      exact siblingTaken_false hopened.sibling hn hworkspace hparent hname hlive
    · exact h.siblings i j n m hn hm hlive hlive' hworkspace hparent hname

theorem Arranged.step (h : Arranged db) (hstep : TreeStep db db') : Arranged db' := by
  have htree := h.toTree.step hstep
  cases hstep with
  | same hworkspaces hnodes =>
      obtain ⟨-, hrooted, hopened, hunnamed, hsiblings⟩ := h
      have hparents : parentOf db' = parentOf db := by
        unfold parentOf
        rw [hnodes]
      refine ⟨htree, ?_, ?_, ?_, ?_⟩
      · rw [hparents]
        exact hrooted
      · rw [hworkspaces, hnodes]
        exact hopened
      · rw [hnodes]
        exact hunnamed
      · rw [hnodes]
        exact hsiblings
  | placed id old new hplaced => exact h.of_placed hplaced
  | opened account workspace root hopened => exact h.of_opened hopened

end invariant

/-! ### Histories -/

section histories

variable [DecidableEq δ] {host : Host δ} {db db' : CatalogStore δ}

omit [DecidableEq δ] in
theorem initialDirectory_ok {fresh : Uuid} {name : String} {u : Unit}
    (h : (initialDirectory host account workspace root name fresh).run db = .ok (u, db')) :
    db'.workspaces = db.workspaces ∧ ∃ display key, host.name name = .ok (display, key) ∧
      (insertNode fresh ⟨account, workspace, some root, .directory, display, key, none, none, false⟩).run db = .ok ((), db') := by
  unfold initialDirectory at h
  rw [Tx.bind_ofExcept_ok] at h
  obtain ⟨⟨display, key⟩, hname, hinsert⟩ := h
  obtain ⟨-, -, rfl⟩ := placeNode_ok (insertNode_ok hinsert).2
  exact ⟨rfl, display, key, hname, hinsert⟩

/-- It is created as the command creates it. -/
theorem initialDirectory_act {fresh : Uuid} {name : String} {u : Unit}
    (hopen : db.workspaces account = some workspace)
    (h : (initialDirectory host account workspace root name fresh).run db = .ok (u, db')) :
    db'.workspaces account = some workspace ∧ act host db (.createDirectory (.ok ()) name fresh account root) = db' := by
  obtain ⟨hworkspaces, display, key, hname, hinsert⟩ := initialDirectory_ok h
  refine ⟨(congrFun hworkspaces account).trans hopen, ?_⟩
  have hcreate : (createDirectory (.ok ()) (host.name name) fresh account root).run db = .ok (fresh, db') := by
    unfold createDirectory
    rw [hname, Tx.bind_ofExcept_ok]
    refine ⟨_, rfl, ?_⟩
    rw [Tx.bind_ofExcept_ok]
    refine ⟨(), rfl, ?_⟩
    rw [Tx.bind_ok]
    refine ⟨workspace, db, ?_, ?_⟩
    · unfold workspaceOf
      rw [Tx.bind_query_ok, Tx.demand_ok]
      exact ⟨hopen, rfl⟩
    · rw [Tx.bind_ok]
      exact ⟨(), db', hinsert, Tx.pure_ok.mpr ⟨rfl, rfl⟩⟩
  exact act_of_ok rfl hcreate

/-- Opening a workspace does what commands do. -/
theorem exec_actions (host : Host δ) (db : CatalogStore δ) (c : Command) :
    ∃ actions : List Action, exec host db c = actions.foldl (act host) db := by
  cases c with
  | act a => exact ⟨[a], rfl⟩
  | opening caller active account workspace root first second third =>
      unfold exec
      refine Tx.commit_rule (fun s => ∃ actions : List Action, s = actions.foldl (act host) db) ⟨[], rfl⟩ fun u db' h => ?_
      unfold initializeWorkspace at h
      rw [Tx.bind_ofExcept_ok] at h
      obtain ⟨_, -, h⟩ := h
      rw [Tx.bind_ofExcept_ok] at h
      obtain ⟨_, -, h⟩ := h
      rw [Tx.bind_query_ok] at h
      cases hexisting : db.workspaces account with
      | some w =>
          rw [hexisting] at h
          obtain ⟨-, rfl⟩ := Tx.pure_ok.mp h
          exact ⟨[], rfl⟩
      | none =>
          rw [hexisting] at h
          dsimp only at h
          rw [Tx.bind_ok] at h
          obtain ⟨_, db₁, hopening, h⟩ := h
          rw [Tx.bind_ok] at h
          obtain ⟨_, db₂, hfirst, h⟩ := h
          rw [Tx.bind_ok] at h
          obtain ⟨_, db₃, hsecond, hthird⟩ := h
          have hopen : db₁.workspaces account = some workspace := by
            unfold openWorkspace at hopening
            rw [Tx.bind_query_ok, hexisting] at hopening
            dsimp only at hopening
            rw [Tx.bind_update_ok] at hopening
            obtain ⟨-, -, rfl⟩ := placeNode_ok (insertNode_ok hopening).2
            exact Function.update_self _ _ _
          obtain ⟨hopen₂, hact₁⟩ := initialDirectory_act hopen hfirst
          obtain ⟨hopen₃, hact₂⟩ := initialDirectory_act hopen₂ hsecond
          obtain ⟨-, hact₃⟩ := initialDirectory_act hopen₃ hthird
          refine ⟨[.openWorkspace account workspace root, .createDirectory (.ok ()) "资料" first account root,
            .createDirectory (.ok ()) "任务" second account root, .createDirectory (.ok ()) "成果" third account root], ?_⟩
          have hact₀ : act host db (.openWorkspace account workspace root) = db₁ := by
            unfold act Tx.commit
            rw [show ((Action.openWorkspace account workspace root).tx host).run db = .ok ((), db₁) from hopening]
          simp only [List.foldl_cons, List.foldl_nil, hact₀, hact₁, hact₂, hact₃]

/-! ### What stays -/

/-- Nodes keep what they are, and removed ones do not change any more. -/
def Kept (db db' : CatalogStore δ) : Prop :=
  ∀ id n, db.nodes.lookup id = some n → ∃ n', db'.nodes.lookup id = some n' ∧ n'.accountId = n.accountId ∧
    n'.workspaceId = n.workspaceId ∧ n'.kind = n.kind ∧ (n'.parentId = none ↔ n.parentId = none) ∧ (n.deleted = true → n' = n)

instance : IsPreorder (CatalogStore δ) Kept where
  refl _ id n hn := ⟨n, hn, rfl, rfl, rfl, Iff.rfl, fun _ => rfl⟩
  trans _ _ _ h h' := by
    intro id n hn
    obtain ⟨n₁, hn₁, haccount, hworkspace, hkind, hparent, hsame⟩ := h id n hn
    obtain ⟨n₂, hn₂, haccount', hworkspace', hkind', hparent', hsame'⟩ := h' id n₁ hn₁
    refine ⟨n₂, hn₂, haccount'.trans haccount, hworkspace'.trans hworkspace, hkind'.trans hkind, hparent'.trans hparent,
      fun hdeleted => ?_⟩
    obtain rfl := hsame hdeleted
    exact hsame' hdeleted

omit [DecidableEq δ] in
theorem Arranged.kept (h : Arranged db) (hstep : TreeStep db db') : Kept db db' := by
  intro k n hn
  cases hstep with
  | same hworkspaces hnodes => exact ⟨n, (congrArg (AList.lookup k) hnodes).trans hn, rfl, rfl, rfl, Iff.rfl, fun _ => rfl⟩
  | placed id old new hplaced =>
      rw [hplaced.lookup_eq]
      split_ifs with hk
      · subst hk
        have hold := hplaced.lookup.symm.trans hn
        obtain ⟨haccount, hworkspace, hkind⟩ := hplaced.identity n hold
        obtain ⟨p, hp⟩ := hplaced.parent_some h.toTree
        have hchild := h.placed_child hplaced hold
        refine ⟨new, rfl, haccount.symm, hworkspace.symm, hkind.symm, ?_, fun hdeleted => ?_⟩
        · rw [hp]
          exact iff_of_false (by simp) (Option.isSome_iff_ne_none.mp hchild)
        · cases hdeleted.symm.trans (hplaced.live n hold)
      · exact ⟨n, hn, rfl, rfl, rfl, Iff.rfl, fun _ => rfl⟩
  | opened account workspace root hopened =>
      rw [hopened.lookup_eq, if_neg]
      · exact ⟨n, hn, rfl, rfl, rfl, Iff.rfl, fun _ => rfl⟩
      · rintro rfl
        rw [hopened.free] at hn
        cases hn

theorem Arranged.foldl (h : Arranged db) (host : Host δ) (actions : List Action) :
    Arranged (actions.foldl (act host) db) ∧ Kept db (actions.foldl (act host) db) := by
  induction actions using List.reverseRecOn with
  | nil => exact ⟨h, refl_of Kept db⟩
  | append_singleton actions a ih =>
      rw [List.foldl_concat]
      exact ⟨ih.1.step (act_tree host _ a), trans_of Kept ih.2 (ih.1.kept (act_tree host _ a))⟩

theorem arranged_history (host : Host δ) (commands : List Command) : Arranged (history host commands) := by
  induction commands using List.reverseRecOn with
  | nil =>
      refine ⟨tree_run host [], fun a h => ?_, fun a w h => ?_, fun id n h => ?_, fun i j n m h => ?_⟩
      all_goals cases h
  | append_singleton commands c ih =>
      obtain ⟨actions, heq⟩ := exec_actions host (history host commands) c
      unfold history at heq ih ⊢
      rw [List.foldl_concat, heq]
      exact (ih.foldl host actions).1

/-! ### The laws -/

/-- What holds of a catalog. -/
structure TreeLaws (db : CatalogStore δ) : Prop where
  /-- A workspace belongs to one account. -/
  owner : ∀ a b workspace, db.workspaces a = some workspace → db.workspaces b = some workspace → a = b
  /-- It has one root, a live directory. -/
  root : ∀ account workspace, db.workspaces account = some workspace → ∃ r n, db.nodes.lookup r = some n ∧
    n.accountId = account ∧ n.workspaceId = workspace ∧ n.parentId = none ∧ n.kind = .directory ∧ n.deleted = false ∧
    ∀ r' n', db.nodes.lookup r' = some n' → n'.workspaceId = workspace → n'.parentId = none → r' = r
  /-- What is above a node is in its workspace, is met once, is live if the node is, and ends at the root. -/
  line : ∀ id n, db.nodes.lookup id = some n → db.workspaces n.accountId = some n.workspaceId ∧
    (ancestors db db.nodes.entries.length id).Nodup ∧
    (∃ above r m, ancestors db db.nodes.entries.length id = above ++ [r] ∧ db.nodes.lookup r = some m ∧ m.parentId = none) ∧
    ∀ a ∈ ancestors db db.nodes.entries.length id, ∃ m, db.nodes.lookup a = some m ∧ m.accountId = n.accountId ∧
      m.workspaceId = n.workspaceId ∧ (n.deleted = false → m.deleted = false) ∧ (a ≠ id → m.kind = .directory)
  /-- Live entries of a directory have different names. -/
  siblings : ∀ i j n m, db.nodes.lookup i = some n → db.nodes.lookup j = some m → n.deleted = false → m.deleted = false →
    n.workspaceId = m.workspaceId → n.parentId = m.parentId → n.nameKey = m.nameKey → i = j

/-- **In every history a workspace is one tree.** -/
theorem tree_laws (host : Host δ) (commands : List Command) : TreeLaws (history host commands) := by
  have h := arranged_history host commands
  refine ⟨fun a b workspace => h.owner, fun account workspace hopen => ?_, fun id n hn => ?_, h.siblings⟩
  · obtain ⟨r, n, hn, haccount, hhome, hroot⟩ := h.opened account workspace hopen
    obtain ⟨hkind, hlive⟩ := h.root r n hn hroot
    refine ⟨r, n, hn, haccount, hhome, hroot, hkind, hlive, fun r' n' hn' hhome' hroot' => ?_⟩
    exact h.root_unique hn' hn (hhome'.trans hhome.symm) hroot' hroot
  · obtain ⟨above, r, m, hline, hm, -, hroot⟩ := h.line hn
    rw [ancestors_of_line hline]
    exact ⟨h.home id n hn, hline.nodup, ⟨above, r, m, rfl, hm, hroot⟩, h.along hn hline⟩

theorem kept_history (host : Host δ) (commands more : List Command) :
    Kept (history host commands) (history host (commands ++ more)) := by
  induction more using List.reverseRecOn with
  | nil =>
      rw [List.append_nil]
      exact refl_of Kept _
  | append_singleton more c ih =>
      obtain ⟨actions, hactions⟩ := exec_actions host (history host (commands ++ more)) c
      refine trans_of Kept ih ?_
      rw [← List.append_assoc, history_concat, hactions]
      exact ((arranged_history host (commands ++ more)).foldl host actions).2

/-- **A node keeps its account, its workspace and its kind, a root stays one and nothing becomes one, and a removed node
does not change any more.** -/
theorem nodes_kept (host : Host δ) (commands more : List Command) :
    Kept (history host commands) (history host (commands ++ more)) :=
  kept_history host commands more

/-- The second node is the parent of the first one. -/
def IsParent (db : CatalogStore δ) (id p : Uuid) : Prop := parentOf db id = some (some p)

/-- **In every history a workspace has one root, parents have no cycle, what is above a live node is a live directory of the same
workspace, live siblings have different names, a removed node stays removed, and a command that raises changes nothing.** -/
theorem workspace_tree (host : Host δ) (commands : List Command) :
    let db := history host commands
    (∀ account workspace, db.workspaces account = some workspace → ∃! r, ∃ n, db.nodes.lookup r = some n ∧
      n.accountId = account ∧ n.workspaceId = workspace ∧ n.parentId = none) ∧
    (∀ id, ¬Relation.TransGen (IsParent db) id id) ∧
    (∀ id n a, db.nodes.lookup id = some n → n.deleted = false → Relation.TransGen (IsParent db) id a →
      ∃ m, db.nodes.lookup a = some m ∧ m.workspaceId = n.workspaceId ∧ m.kind = .directory ∧ m.deleted = false) ∧
    (∀ i j n m, db.nodes.lookup i = some n → db.nodes.lookup j = some m → n.deleted = false → m.deleted = false →
      n.workspaceId = m.workspaceId → n.parentId = m.parentId → n.nameKey = m.nameKey → i = j) ∧
    (∀ more id n, db.nodes.lookup id = some n → n.deleted = true →
      (history host (commands ++ more)).nodes.lookup id = some n) ∧
    ∀ c e, (c.tx host).run db = .error e → history host (commands ++ [c]) = db := by
  intro db
  have h : Arranged db := arranged_history host commands
  refine ⟨fun account workspace hopen => ?_, fun id hcycle => ?_, fun id n a hn hlive habove => ?_, h.siblings,
    fun more id n hn hdeleted => ?_, fun c e hraised => ?_⟩
  · obtain ⟨r, n, hn, haccount, hhome, hroot⟩ := h.opened account workspace hopen
    refine ⟨r, ⟨n, hn, haccount, hhome, hroot⟩, ?_⟩
    rintro r' ⟨n', hn', -, hhome', hroot'⟩
    exact h.root_unique hn' hn (hhome'.trans hhome.symm) hroot' hroot
  · obtain ⟨p, hp, -⟩ := Relation.TransGen.head'_iff.mp hcycle
    obtain ⟨l, hl⟩ := h.rooted id (by rw [hp]; rfl)
    exact (hl.above hcycle).2 rfl
  · obtain ⟨l, hl⟩ := h.rooted id (known_iff.mpr ⟨n, hn⟩)
    obtain ⟨hmem, hne⟩ := hl.above habove
    obtain ⟨m, hm, -, hworkspace, hlive', hdirectory⟩ := h.along hn hl a hmem
    exact ⟨m, hm, hworkspace, hdirectory hne, hlive' hlive⟩
  · obtain ⟨n', hn', -, -, -, -, hsame⟩ := kept_history host commands more id n hn
    rw [hn', hsame hdeleted]
  · rw [history_concat, exec_eq]
    unfold Tx.commit
    rw [hraised]

end histories

end treeLaws

end HpAgent.Workspace
