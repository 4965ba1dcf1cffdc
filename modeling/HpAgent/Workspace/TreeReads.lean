import HpAgent.Workspace.TreeLaws

/-! # Reading the workspace tree

* `treeInUow`: the listing of a workspace.
* `listing_exact`: in every history it is the tree of the workspace. -/

namespace HpAgent.Workspace

open Library

section treeReads

variable {δ : Type}

/-! ### What is read -/

/-- A row of `_tree_in_uow`. -/
structure TreeRow where
  nodeId : Uuid
  parentId : Option Uuid
  kind : NodeKind
  name : String
  fileId : Option Uuid
  destinationId : Option Uuid
  revision : Option ℕ
  source : Option (Purpose × Option Uuid × String)
deriving DecidableEq, Repr

structure TreeListing where
  workspaceId : Uuid
  rootId : Uuid
  nodes : List TreeRow
deriving DecidableEq, Repr

def treeRow (db : CatalogStore δ) (account : Uuid) (e : Uuid × Node) : TreeRow :=
  let destination := e.2.destinationId.bind fun d => (db.destinations.lookup d).filter fun x => x.accountId = account
  let source := (currentFile db account e.2).bind fun f => (db.files.lookup f).filter fun x => x.accountId = account
  { nodeId := e.1
    parentId := e.2.parentId
    kind := e.2.kind
    name := e.2.name
    fileId := currentFile db account e.2
    destinationId := e.2.destinationId
    revision := destination.map Destination.currentRevision
    source := source.map fun f => (f.purpose, f.conversationId, f.sha256) }

section reading

variable (collate : String → String → Bool)

/-- `ORDER BY n.parent_id NULLS FIRST, n.name_key, n.node_id`. -/
def listedBefore (a b : Uuid × Node) : Bool :=
  match a.2.parentId, b.2.parentId with
  | none, some _ => true
  | some _, none => false
  | p, q =>
      if p = q then (if a.2.nameKey = b.2.nameKey then a.1 ≤ b.1 else collate a.2.nameKey b.2.nameKey)
      else p.getD 0 ≤ q.getD 0

def treeNodes (db : CatalogStore δ) (account workspace : Uuid) : List (Uuid × Node) :=
  ((liveNodes db account).filter fun e => e.2.workspaceId = workspace).insertionSort
    fun a b => listedBefore collate a b = true

/-- `_tree_in_uow`; there is no listing when there is no first row. -/
def treeInUow (db : CatalogStore δ) (account workspace : Uuid) : Option TreeListing :=
  (treeNodes collate db account workspace).head?.map fun first =>
    ⟨workspace, first.1, (treeNodes collate db account workspace).map (treeRow db account)⟩

end reading

/-! ### The listing -/

section listing

variable {db : CatalogStore δ}

/-- The first of a list, sorted by insertion, is the one that comes before all others. -/
theorem head_insertionSort {α : Type} {r : α → α → Prop} [DecidableRel r] {first : α} {l : List α} (hfirst : first ∈ l)
    (hbefore : ∀ a ∈ l, a ≠ first → r first a ∧ ¬r a first) : ∃ t, l.insertionSort r = first :: t := by
  induction l with
  | nil => cases hfirst
  | cons a l ih =>
      rw [List.insertionSort_cons]
      by_cases ha : a = first
      · subst ha
        cases hsorted : l.insertionSort r with
        | nil => exact ⟨[], rfl⟩
        | cons b t =>
            by_cases hb : b = a
            · subst hb
              by_cases hr : r b b
              · exact ⟨b :: t, List.orderedInsert_cons_of_le r t hr⟩
              · exact ⟨_, List.orderedInsert_of_not_le r t hr⟩
            · have hmem : b ∈ l := by
                rw [← List.mem_insertionSort r, hsorted]
                exact List.mem_cons_self
              exact ⟨b :: t, List.orderedInsert_cons_of_le r t (hbefore b (List.mem_cons_of_mem a hmem) hb).1⟩
      · obtain ⟨t, ht⟩ := ih ((List.mem_cons.mp hfirst).resolve_left fun h => ha h.symm) fun b hb =>
          hbefore b (List.mem_cons_of_mem a hb)
        rw [ht]
        exact ⟨_, List.orderedInsert_of_not_le r t (hbefore a List.mem_cons_self ha).2⟩

/-- What a listing shows. -/
structure Listed (db : CatalogStore δ) (account workspace : Uuid) (listing : TreeListing) : Prop where
  /-- Its rows are the live nodes of the workspace. -/
  rows : ∀ row, row ∈ listing.nodes ↔
    ∃ id n, db.nodes.lookup id = some n ∧ n.workspaceId = workspace ∧ n.deleted = false ∧ row = treeRow db account (id, n)
  /-- Each is listed once. -/
  once : (listing.nodes.map TreeRow.nodeId).Nodup
  /-- The first row is the root, and the only one without a parent. -/
  root : ∃ row rest, listing.nodes = row :: rest ∧ row.nodeId = listing.rootId ∧ row.parentId = none ∧
    row.kind = .directory ∧ ∀ other ∈ rest, other.parentId.isSome = true
  /-- From every row the parents lead to the root over rows of the listing. -/
  line : ∀ row ∈ listing.nodes, ∃ above, ancestors db db.nodes.entries.length row.nodeId = above ++ [listing.rootId] ∧
    ∀ a ∈ ancestors db db.nodes.entries.length row.nodeId, ∃ other ∈ listing.nodes, other.nodeId = a

theorem mem_treeNodes {collate : String → String → Bool} {account workspace : Uuid} {e : Uuid × Node} :
    e ∈ treeNodes collate db account workspace ↔ (db.nodes.lookup e.1 = some e.2 ∧ e.2.accountId = account) ∧
      e.2.deleted = false ∧ e.2.workspaceId = workspace := by
  unfold treeNodes
  rw [List.mem_insertionSort, List.mem_filter, mem_liveNodes, mem_nodesOf, decide_eq_true_eq, and_assoc]

theorem nodup_treeNodes {collate : String → String → Bool} {account workspace : Uuid} :
    ((treeNodes collate db account workspace).map Prod.fst).Nodup := by
  have hkeys : (db.nodes.entries.map Sigma.fst).Nodup := db.nodes.nodupKeys
  have hsub : (((liveNodes db account).filter fun e => e.2.workspaceId = workspace).map Prod.fst).Sublist
      (db.nodes.entries.map Sigma.fst) := by
    have hmap : db.nodes.entries.map Sigma.fst = (db.nodes.entries.map fun e => (e.1, e.2)).map Prod.fst := by
      rw [List.map_map]
      rfl
    rw [hmap]
    exact ((List.filter_sublist.trans List.filter_sublist).trans List.filter_sublist).map Prod.fst
  exact ((List.perm_insertionSort _ _).map Prod.fst).nodup_iff.mpr (hsub.nodup hkeys)

/-- **The listing of a workspace is its tree, the root first.** -/
theorem listing_exact [DecidableEq δ] {host : Host δ} {collate : String → String → Bool} {commands : List Command}
    {account workspace : Uuid}
    (hopen : (history host commands).workspaces account = some workspace) :
    ∃ listing, treeInUow collate (history host commands) account workspace = some listing ∧
      Listed (history host commands) account workspace listing := by
  have h := arranged_history host commands
  generalize history host commands = db at h hopen ⊢
  obtain ⟨r, n, hn, haccount, hhome, hroot⟩ := h.opened account workspace hopen
  have hlive := h.root r n hn hroot
  -- the root comes before every other node
  have hfirst : ∃ t, treeNodes collate db account workspace = (r, n) :: t := by
    refine head_insertionSort ?_ fun e he hne => ?_
    · rw [List.mem_filter, mem_liveNodes, mem_nodesOf, decide_eq_true_eq]
      exact ⟨⟨⟨hn, haccount⟩, hlive.2⟩, hhome⟩
    · rw [List.mem_filter, mem_liveNodes, mem_nodesOf, decide_eq_true_eq] at he
      obtain ⟨⟨⟨hlookup, -⟩, -⟩, hworkspace⟩ := he
      cases hparent : e.2.parentId with
      | none =>
          have hsame := h.root_unique hlookup hn (hworkspace.trans hhome.symm) hparent hroot
          rw [hsame, hn] at hlookup
          exact absurd (Prod.ext hsame (Option.some.inj hlookup).symm) hne
      | some p => simp [listedBefore, hroot, hparent]
  obtain ⟨t, ht⟩ := hfirst
  have haccounts : ∀ id m, db.nodes.lookup id = some m → m.workspaceId = workspace → m.accountId = account := by
    intro id m hm hworkspace
    have hhome' := h.home id m hm
    rw [hworkspace] at hhome'
    exact h.owner hhome' hopen
  have hmem (e : Uuid × Node) : e ∈ treeNodes collate db account workspace ↔ _ := mem_treeNodes
  refine ⟨⟨workspace, r, (treeNodes collate db account workspace).map (treeRow db account)⟩, ?_, ?_, ?_, ?_, ?_⟩
  · unfold treeInUow
    rw [ht, List.head?_cons, Option.map_some]
  · intro row
    rw [List.mem_map]
    constructor
    · rintro ⟨⟨id, m⟩, he, rfl⟩
      obtain ⟨⟨hlookup, -⟩, hlive', hworkspace⟩ := (hmem _).mp he
      exact ⟨id, m, hlookup, hworkspace, hlive', rfl⟩
    · rintro ⟨id, m, hlookup, hworkspace, hlive', rfl⟩
      exact ⟨(id, m), (hmem _).mpr ⟨⟨hlookup, haccounts id m hlookup hworkspace⟩, hlive', hworkspace⟩, rfl⟩
  · rw [List.map_map]
    exact nodup_treeNodes
  · refine ⟨treeRow db account (r, n), t.map (treeRow db account), ?_, rfl, hroot, hlive.1, fun other hother => ?_⟩
    · rw [ht]
      rfl
    · obtain ⟨⟨id, m⟩, he, rfl⟩ := List.mem_map.mp hother
      have hnodup : ((treeNodes collate db account workspace).map Prod.fst).Nodup := nodup_treeNodes
      have hlisted : (id, m) ∈ treeNodes collate db account workspace := by
        rw [ht]
        exact List.mem_cons_of_mem _ he
      rw [ht, List.map_cons, List.nodup_cons] at hnodup
      obtain ⟨⟨hlookup, -⟩, -, hworkspace⟩ := (hmem _).mp hlisted
      change m.parentId.isSome = true
      by_contra hnone
      rw [Bool.not_eq_true, Option.isSome_eq_false_iff, Option.isNone_iff_eq_none] at hnone
      have hsame := h.root_unique hlookup hn (hworkspace.trans hhome.symm) hnone hroot
      subst hsame
      exact hnodup.1 (List.mem_map.mpr ⟨_, he, rfl⟩)
  · intro row hrow
    obtain ⟨⟨id, m⟩, he, rfl⟩ := List.mem_map.mp hrow
    obtain ⟨⟨hlookup, -⟩, hlive', hworkspace⟩ := (hmem _).mp he
    obtain ⟨above, r', m', hline, hm', hhome', hroot'⟩ := h.line hlookup
    obtain rfl := h.root_unique hm' hn ((hhome'.trans hworkspace).trans hhome.symm) hroot' hroot
    change ∃ above, ancestors db db.nodes.entries.length id = above ++ [r'] ∧
        ∀ a ∈ ancestors db db.nodes.entries.length id, _
    rw [ancestors_of_line hline]
    refine ⟨above, rfl, fun a ha => ?_⟩
    obtain ⟨q, hq, -, hworkspace', hlive'', -⟩ := h.along hlookup hline a ha
    have hhome'' := hworkspace'.trans hworkspace
    exact ⟨_, List.mem_map.mpr ⟨(a, q), (hmem _).mpr ⟨⟨hq, haccounts a q hq hhome''⟩, hlive'' hlive', hhome''⟩, rfl⟩, rfl⟩

def nestedCommands : List Command :=
  [.opening (.ok ()) (.ok ()) 1 10 100 101 102 103, .act (.createDirectory (.ok ()) "a" 104 1 101),
    .act (.createDirectory (.ok ()) "b" 105 1 104)]

def nestedHistory : CatalogStore Intent := history ⟨id, id, id, id⟩ nestedCommands

theorem listing_exact_nested : ∃ listing, treeInUow (fun a b => decide (a ≤ b)) nestedHistory 1 10 = some listing ∧
    Listed nestedHistory 1 10 listing :=
  @listing_exact Intent _ ⟨id, id, id, id⟩ _ nestedCommands 1 10 rfl

end listing

end treeReads

end HpAgent.Workspace
