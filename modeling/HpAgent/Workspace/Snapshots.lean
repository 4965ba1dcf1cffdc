import HpAgent.Workspace.Resources
import HpAgent.Workspace.Tree

/-! # The candidates of a Run are what it may list

The snapshot selects files from the grants downwards, and a check of one file looks for grants from the file upwards.  In a
well-formed tree they agree.

* `up_of_down`, `down_of_up`: a chain of live directories, read in both directions.
* `allowed_iff_granted`: the two queries, for one file.
* `snapshot_eq_grants`: what a snapshot puts down, for every history of the tree and all grants. -/

namespace HpAgent.Workspace

open Library

variable {e : Uuid × Node} {node : Uuid}
variable {workspace : Option Uuid} {hex : Uuid → String} {collate : String → String → Bool}

section chains

variable {δ : Type} {db : CatalogStore δ} {account : Uuid} {a b : Uuid × Node}

/-! ### Chains of nodes -/

theorem mem_nodesOf : e ∈ nodesOf db account ↔ db.nodes.lookup e.1 = some e.2 ∧ e.2.accountId = account := by
  unfold nodesOf
  rw [List.mem_filter, List.mem_map, decide_eq_true_eq]
  constructor
  · rintro ⟨⟨entry, hentry, rfl⟩, haccount⟩
    exact ⟨AList.mem_lookup_iff.mpr hentry, haccount⟩
  · rintro ⟨hlookup, haccount⟩
    exact ⟨⟨⟨e.1, e.2⟩, AList.mem_lookup_iff.mp hlookup, rfl⟩, haccount⟩

theorem mem_liveNodes : e ∈ liveNodes db account ↔ e ∈ nodesOf db account ∧ e.2.deleted = false := by
  unfold liveNodes
  rw [List.mem_filter, Bool.not_eq_true']

/-- From a node to its parent. -/
def Up (db : CatalogStore δ) (account : Uuid) (x y : Uuid × Node) : Prop := y ∈ nodesOf db account ∧ x.2.parentId = some y.1

/-- From a directory to a live child. -/
def Down (db : CatalogStore δ) (account : Uuid) (x y : Uuid × Node) : Prop :=
  y ∈ liveNodes db account ∧ x.2.kind = .directory ∧ y.2.parentId = some x.1

theorem up_of_down (hb : b ∈ nodesOf db account) (h : Relation.ReflTransGen (Down db account) b a) :
    Relation.ReflTransGen (Up db account) a b := by
  induction h with
  | refl => exact .refl
  | tail hbefore hstep ih =>
      refine .head ⟨?_, hstep.2.2⟩ ih
      -- every node of the chain is one of the account
      cases hbefore with
      | refl => exact hb
      | tail _ hlast => exact (mem_liveNodes.mp hlast.1).1

/-- Above a live node there are live directories only. -/
theorem down_of_up (ht : Tree db) (ha : a ∈ liveNodes db account) (h : Relation.ReflTransGen (Up db account) a b) :
    b ∈ liveNodes db account ∧ Relation.ReflTransGen (Down db account) b a := by
  induction h with
  | refl => exact ⟨ha, .refl⟩
  | @tail x y _ hstep ih =>
      obtain ⟨hx, hchain⟩ := ih
      obtain ⟨hnode, hlive⟩ := mem_liveNodes.mp hx
      obtain ⟨q, hq, -, -, hkind, hdeleted⟩ := ht.parent x.1 x.2 y.1 (mem_nodesOf.mp hnode).1 hstep.2
      have hrow : y.2 = q := Option.some.inj ((mem_nodesOf.mp hstep.1).1.symm.trans hq)
      subst hrow
      exact ⟨mem_liveNodes.mpr ⟨hstep.1, hdeleted hlive⟩, .head ⟨hx, hkind, hstep.2⟩ hchain⟩

theorem mem_ancestorRows : a ∈ ancestorRows db account node ↔
    ∃ b ∈ nodesOf db account, b.1 = node ∧ Relation.ReflTransGen (Up db account) b a := by
  have hgrow := mem_grow_iff (nodesOf db account) (fun e => decide (e.1 = node)) (fun s e => decide (s.2.parentId = some e.1))
    (a := a)
  simp only [decide_eq_true_eq] at hgrow
  exact hgrow

theorem up_of_mem_ancestorRows (ha : a ∈ nodesOf db account) (hb : b ∈ ancestorRows db account a.1) :
    Relation.ReflTransGen (Up db account) a b := by
  obtain ⟨c, hc, heq, hup⟩ := mem_ancestorRows.mp hb
  have hlookup := (mem_nodesOf.mp hc).1
  rw [heq, (mem_nodesOf.mp ha).1] at hlookup
  have hsame : c = a := Prod.ext heq (Option.some.inj hlookup).symm
  rwa [hsame] at hup

end chains

section snapshots

variable {δ : Type} {db db' : ResourceStore δ} {account subject run : Uuid} {kind : SubjectKind}

/-! ### The two queries -/

theorem mem_allowedRows {a : Uuid × Node} : a ∈ allowedRows db account kind subject workspace ↔
    ∃ b ∈ liveNodes db.catalog account, listable db account kind subject workspace b = true ∧
      Relation.ReflTransGen (Down db.catalog account) b a := by
  have hgrow := mem_grow_iff (liveNodes db.catalog account) (listable db account kind subject workspace)
    (fun s e => s.2.kind = .directory && e.2.parentId = some s.1) (a := a)
  simp only [Bool.and_eq_true, decide_eq_true_eq] at hgrow
  exact hgrow

/-- A grant to the subject that has not been revoked. -/
def GrantHolds (db : ResourceStore δ) (account : Uuid) (kind : SubjectKind) (subject : Uuid) (operation : Operation) (g : Grant) :
    Prop :=
  (∃ id, db.grants.lookup id = some g) ∧ g.holds account kind subject operation = true

theorem listable_iff : listable db account kind subject workspace e = true ↔
    workspace = some e.2.workspaceId ∧ ∃ g, GrantHolds db account kind subject .listMetadata g ∧ g.nodeId = e.1 ∧
      (e.2.kind = .file ∨ g.recursive = true) := by
  unfold listable GrantHolds
  rw [Bool.and_eq_true, decide_eq_true_eq, List.any_eq_true]
  simp only [Bool.and_eq_true, Bool.or_eq_true, decide_eq_true_eq]
  refine and_congr_right fun _ => ⟨?_, ?_⟩
  · rintro ⟨g, hg, ⟨hholds, hnode⟩, hreach⟩
    exact ⟨g.2, ⟨⟨g.1, AList.mem_lookup_iff.mpr hg⟩, hholds⟩, hnode, hreach⟩
  · rintro ⟨g, ⟨⟨id, hg⟩, hholds⟩, hnode, hreach⟩
    exact ⟨⟨id, g⟩, AList.mem_lookup_iff.mp hg, ⟨hholds, hnode⟩, hreach⟩

theorem grantsOf_ne_nil_iff {operation : Operation} : grantsOf db account kind subject node operation ≠ [] ↔
    (∃ g, GrantHolds db account kind subject operation g ∧ ∃ a ∈ ancestorRows db.catalog account node, a.1 = g.nodeId ∧
      (g.nodeId = node ∨ g.recursive = true ∧ a.2.kind = .directory)) ∧
    ∀ a ∈ ancestorRows db.catalog account node, a.2.deleted = false := by
  unfold grantsOf GrantHolds
  have hmem : ∀ l : List (Uuid × Grant), l ≠ [] ↔ ∃ g, g ∈ l :=
    fun l => ⟨List.exists_mem_of_ne_nil l, fun ⟨_, hg⟩ => List.ne_nil_of_mem hg⟩
  rw [hmem]
  simp only [List.mem_insertionSort, List.mem_filter, List.mem_map, Bool.and_eq_true, Bool.or_eq_true, Bool.not_eq_true',
    decide_eq_true_eq, List.any_eq_true, List.any_eq_false, Bool.not_eq_true]
  constructor
  · rintro ⟨_, ⟨e, he, rfl⟩, ⟨hholds, a, ha, ⟨hnode, -⟩, hreach⟩, hdead⟩
    exact ⟨⟨e.2, ⟨⟨e.1, AList.mem_lookup_iff.mpr he⟩, hholds⟩, a, ha, hnode, hreach⟩, hdead⟩
  · rintro ⟨⟨g, ⟨⟨id, hg⟩, hholds⟩, a, ha, hnode, hreach⟩, hdead⟩
    exact ⟨(id, g), ⟨⟨id, g⟩, AList.mem_lookup_iff.mp hg, rfl⟩, ⟨hholds, a, ha, ⟨hnode, hdead a ha⟩, hreach⟩, hdead⟩

/-- **For a live file of a well-formed tree, the query from the grants downwards and the check upwards agree.** -/
theorem allowed_iff_granted (ht : Tree db.catalog) (he : e ∈ liveNodes db.catalog account)
    (hfile : e.2.kind = .file) : e ∈ allowedRows db account kind subject (db.catalog.workspaces account) ↔
      grantsOf db account kind subject e.1 .listMetadata ≠ [] := by
  rw [mem_allowedRows, grantsOf_ne_nil_iff]
  have habove : ∀ a ∈ ancestorRows db.catalog account e.1, Relation.ReflTransGen (Up db.catalog account) e a :=
    fun a ha => up_of_mem_ancestorRows (mem_liveNodes.mp he).1 ha
  constructor
  · rintro ⟨b, hb, hlistable, hdown⟩
    obtain ⟨-, g, hg, hnode, hreach⟩ := listable_iff.mp hlistable
    have hup := up_of_down (mem_liveNodes.mp hb).1 hdown
    refine ⟨⟨g, hg, b, mem_ancestorRows.mpr ⟨e, (mem_liveNodes.mp he).1, rfl, hup⟩, hnode.symm, ?_⟩, fun a ha => ?_⟩
    · -- the chain is empty, or starts at a directory
      rcases hdown.cases_head with rfl | ⟨c, hstep, -⟩
      · exact .inl hnode
      · refine .inr ⟨hreach.resolve_left fun hbfile => ?_, hstep.2.1⟩
        rw [hstep.2.1] at hbfile
        cases hbfile
    · exact (mem_liveNodes.mp (down_of_up ht he (habove a ha)).1).2
  · rintro ⟨⟨g, hg, a, ha, hnode, hreach⟩, -⟩
    obtain ⟨hlive, hdown⟩ := down_of_up ht he (habove a ha)
    refine ⟨a, hlive, listable_iff.mpr ⟨?_, g, hg, hnode.symm, ?_⟩, hdown⟩
    · obtain ⟨hlookup, haccount⟩ := mem_nodesOf.mp (mem_liveNodes.mp hlive).1
      rw [← haccount]
      exact ht.home a.1 a.2 hlookup
    · rcases hreach with hsame | ⟨hrecursive, -⟩
      · have hlookup := (mem_nodesOf.mp (mem_liveNodes.mp hlive).1).1
        rw [hnode.trans hsame, (mem_nodesOf.mp (mem_liveNodes.mp he).1).1] at hlookup
        rw [← Option.some.inj hlookup]
        exact .inl hfile
      · exact .inr hrecursive

/-! ### What a snapshot puts down -/

/-- The rows of the candidates stay, and the catalog and the grants. -/
structure SameCandidates (old new : ResourceStore δ) : Prop where
  candidates : old.candidates = new.candidates
  catalog : old.catalog = new.catalog
  grants : old.grants = new.grants

instance : IsPreorder (ResourceStore δ) SameCandidates where
  refl _ := ⟨rfl, rfl, rfl⟩
  trans _ _ _ h h' := ⟨h.candidates.trans h'.candidates, h.catalog.trans h'.catalog, h.grants.trans h'.grants⟩

theorem insertRunFile_same {file : Uuid} {name : String} :
    Tx.Keeps SameCandidates (insertRunFile run file name : ResourceTx δ Unit) := by
  unfold insertRunFile
  refine .bind (.query _) fun _ => .bind (.check _ _) fun _ => .update fun db => ?_
  exact ⟨rfl, rfl, rfl⟩

theorem bindAttachments_same {attachments : List (Uuid × Uuid)} :
    Tx.Keeps SameCandidates (bindAttachments hex run attachments : ResourceTx δ Unit) := by
  unfold bindAttachments
  exact .foldlM (fun _ _ => .bind (.query _) fun _ => insertRunFile_same) _ _

theorem policyVersion_same : Tx.Keeps SameCandidates (policyVersion account kind subject : ResourceTx δ ℕ) := by
  unfold policyVersion
  refine .bind (.query _) fun found => ?_
  cases found with
  | some version => exact .pure version
  | none => exact .bind (.update fun db => ⟨rfl, rfl, rfl⟩) fun _ => .pure 1

theorem insertCandidate_ok {c : Candidate} {u : Unit} (h : (insertCandidate run node c).run db = .ok (u, db')) :
    db.candidates.lookup (run, node) = none ∧ db' = { db with candidates := db.candidates.insert (run, node) c } := by
  unfold insertCandidate at h
  rw [Tx.bind_query_ok, Tx.bind_check_ok, Tx.update_ok] at h
  obtain ⟨hfree, rfl⟩ := h
  rw [Bool.or_eq_false_iff] at hfree
  exact ⟨by simpa using hfree.1, rfl⟩

/-- A node was put down as a candidate of the Run between two stores. -/
def PutDown (old new : ResourceStore δ) (run node : Uuid) : Prop :=
  old.candidates.lookup (run, node) = none ∧ (new.candidates.lookup (run, node)).isSome = true

/-- The candidates are put down one after the other; none of them was there. -/
theorem insertCandidates_ok {casefold : String → String} {rows : List (Uuid × Node)} {names names' : List String}
    (h : (insertCandidates casefold hex run account rows names).run db = .ok (names', db')) :
    Table.Extends db.candidates db'.candidates ∧ ∀ node, PutDown db db' run node ↔ node ∈ rows.map Prod.fst := by
  unfold insertCandidates at h
  induction rows generalizing db names with
  | nil =>
      rw [List.foldlM_nil] at h
      obtain ⟨-, rfl⟩ := Tx.pure_ok.mp h
      refine ⟨fun _ _ hc => hc, fun node => iff_of_false ?_ List.not_mem_nil⟩
      rintro ⟨hnone, hsome⟩
      rw [hnone] at hsome
      cases hsome
  | cons row rest ih =>
      rw [List.foldlM_cons, Tx.bind_ok] at h
      obtain ⟨names₁, db₁, hrow, hrest⟩ := h
      obtain ⟨hextends, hput⟩ := ih hrest
      rw [Tx.bind_query_ok, Tx.bind_ok] at hrow
      obtain ⟨_, db₂, hinsert, hrow⟩ := hrow
      obtain ⟨-, rfl⟩ := Tx.pure_ok.mp hrow
      obtain ⟨hfree, rfl⟩ := insertCandidate_ok hinsert
      refine ⟨fun k c hc => hextends k c (Table.extends_insert hfree k c hc), fun node => ?_⟩
      rw [List.map_cons, List.mem_cons, ← hput node]
      unfold PutDown
      rw [Table.lookup_insert_ite]
      by_cases hnode : node = row.1
      · subst hnode
        refine iff_of_true ⟨hfree, ?_⟩ (.inl rfl)
        rw [hextends (run, row.1) _ (AList.lookup_insert _)]
        rfl
      · rw [if_neg fun heq => hnode (Prod.mk.inj heq).2]
        exact ⟨.inr, fun h => h.resolve_left hnode⟩

theorem snapshotInUow_ok {casefold : String → String} {u : Unit}
    (h : (snapshotInUow collate casefold hex account run kind subject).run db = .ok (u, db')) (node : Uuid) :
    PutDown db db' run node ↔ node ∈ (candidateRows collate db account kind subject).map Prod.fst := by
  unfold snapshotInUow at h
  rw [Tx.bind_query_ok, Tx.bind_check_ok, Tx.bind_ok] at h
  obtain ⟨-, version, db₁, hversion, h⟩ := h
  have hsame₁ := policyVersion_same _ _ _ hversion
  rw [Tx.bind_query_ok, Tx.bind_query_ok, Tx.bind_check_ok, Tx.bind_check_ok] at h
  obtain ⟨hlimit, -, h⟩ := h
  rw [Tx.bind_query_ok, Tx.bind_check_ok, Tx.bind_query_ok, Tx.bind_check_ok, Tx.bind_update_ok] at h
  obtain ⟨-, -, h⟩ := h
  rw [Tx.bind_query_ok, Tx.bind_ok] at h
  obtain ⟨_, db₂, hattachments, h⟩ := h
  have hsame₂ := bindAttachments_same _ _ _ hattachments
  rw [Tx.bind_query_ok, Tx.bind_ok] at h
  obtain ⟨names, db₃, hinsert, h⟩ := h
  obtain ⟨-, rfl⟩ := Tx.pure_ok.mp h
  have hput := (insertCandidates_ok hinsert).2 node
  unfold PutDown at hput ⊢
  have hcandidates : db.candidates = db₂.candidates := hsame₁.candidates.trans hsame₂.candidates
  rw [hcandidates, hput]
  -- the limit was not reached, so no row is cut off
  have hall : (candidateRows collate db₁ account kind subject).take (candidateLimit + 1) = candidateRows collate db₁ account kind subject := by
    rw [List.length_take] at hlimit
    exact List.take_of_length_le (by omega)
  rw [hall]
  unfold candidateRows allowedRows listable
  rw [hsame₁.catalog, hsame₁.grants]

/-! ### The law -/

/-- The row of a live file of the account. -/
def LiveFile (db : CatalogStore δ) (account node : Uuid) : Prop :=
  ∃ n, db.nodes.lookup node = some n ∧ n.accountId = account ∧ n.deleted = false ∧ n.kind = .file

theorem mem_candidateRows (ht : Tree db.catalog) :
    node ∈ (candidateRows collate db account kind subject).map Prod.fst ↔
      LiveFile db.catalog account node ∧ grantsOf db account kind subject node .listMetadata ≠ [] := by
  unfold candidateRows
  rw [List.mem_map]
  constructor
  · rintro ⟨e, he, rfl⟩
    rw [List.mem_insertionSort, List.mem_filter, decide_eq_true_eq] at he
    obtain ⟨hallowed, hfile⟩ := he
    have hlive := grow_subset _ _ hallowed
    obtain ⟨hnode, hdeleted⟩ := mem_liveNodes.mp hlive
    obtain ⟨hlookup, haccount⟩ := mem_nodesOf.mp hnode
    exact ⟨⟨e.2, hlookup, haccount, hdeleted, hfile⟩, (allowed_iff_granted ht hlive hfile).mp hallowed⟩
  · rintro ⟨⟨n, hlookup, haccount, hdeleted, hfile⟩, hgranted⟩
    have hlive : (node, n) ∈ liveNodes db.catalog account := mem_liveNodes.mpr ⟨mem_nodesOf.mpr ⟨hlookup, haccount⟩, hdeleted⟩
    refine ⟨(node, n), ?_, rfl⟩
    rw [List.mem_insertionSort, List.mem_filter, decide_eq_true_eq]
    exact ⟨(allowed_iff_granted ht hlive hfile).mpr hgranted, hfile⟩

/-- The node, or one above it. -/
def AtOrAbove (db : CatalogStore δ) (node above : Uuid) : Prop :=
  Relation.ReflTransGen (fun x y => ∃ n, db.nodes.lookup x = some n ∧ n.parentId = some y) node above

theorem mem_ancestorRows_iff {db : CatalogStore δ} (ht : Tree db) {a : Uuid × Node} :
    a ∈ ancestorRows db account node ↔
      (∃ n, db.nodes.lookup node = some n ∧ n.accountId = account) ∧ AtOrAbove db node a.1 ∧ db.nodes.lookup a.1 = some a.2 := by
  rw [mem_ancestorRows]
  constructor
  · rintro ⟨b, hb, rfl, hup⟩
    refine ⟨⟨b.2, mem_nodesOf.mp hb⟩, ?_⟩
    induction hup with
    | refl => exact ⟨.refl, (mem_nodesOf.mp hb).1⟩
    | tail _ hstep ih => exact ⟨ih.1.tail ⟨_, ih.2, hstep.2⟩, (mem_nodesOf.mp hstep.1).1⟩
  · rintro ⟨⟨n, hn, haccount⟩, habove, hlookup⟩
    refine ⟨(node, n), mem_nodesOf.mpr ⟨hn, haccount⟩, rfl, ?_⟩
    -- the account stays the same on the way up
    obtain ⟨above, row⟩ := a
    dsimp only at habove hlookup
    induction habove generalizing row with
    | refl =>
        obtain rfl := Option.some.inj (hn.symm.trans hlookup)
        exact .refl
    | tail _ hstep ih =>
        obtain ⟨m, hm, hparent⟩ := hstep
        have hbefore := ih m hm
        have hmem : m.accountId = account := by
          cases hbefore with
          | refl => exact haccount
          | tail _ hlast => exact (mem_nodesOf.mp hlast.1).2
        obtain ⟨q, hq, hqaccount, -⟩ := ht.parent _ m _ hm hparent
        obtain rfl := Option.some.inj (hlookup.symm.trans hq)
        exact hbefore.tail ⟨mem_nodesOf.mpr ⟨hlookup, hqaccount.trans hmem⟩, hparent⟩

/-- **A snapshot puts down exactly the live files that the check of one file lets the Run list.**  Nothing at or below a deleted
node is among them, and a grant on a folder reaches a file exactly if it is recursive. -/
theorem snapshot_eq_grants [DecidableEq δ] (host : Host δ) (actions : List Action) (hcatalog : db.catalog = Workspace.run host actions)
    {collate : String → String → Bool} {casefold : String → String} {hex : Uuid → String}
    (h : (snapshotInUow collate casefold hex account run kind subject).run db = .ok ((), db')) (node : Uuid) :
    (PutDown db db' run node ↔ LiveFile db.catalog account node ∧ grantsOf db account kind subject node .listMetadata ≠ []) ∧
    (∀ above q, AtOrAbove db.catalog node above → db.catalog.nodes.lookup above = some q → q.deleted = true →
      ¬PutDown db db' run node ∧ grantsOf db account kind subject node .listMetadata = []) ∧
    (LiveFile db.catalog account node → (grantsOf db account kind subject node .listMetadata ≠ [] ↔
      ∃ g, GrantHolds db account kind subject .listMetadata g ∧ (g.nodeId = node ∨
        g.recursive = true ∧ AtOrAbove db.catalog node g.nodeId))) := by
  have ht : Tree db.catalog := hcatalog ▸ tree_run host actions
  have hput := (snapshotInUow_ok h node).trans (mem_candidateRows ht)
  refine ⟨hput, fun above q habove hq hdeleted => ?_, fun ⟨n, hn, haccount, hlive, hfile⟩ => ?_⟩
  · have hnil : grantsOf db account kind subject node .listMetadata = [] := by
      by_contra hne
      obtain ⟨⟨g, -, a, ha, -⟩, hdead⟩ := grantsOf_ne_nil_iff.mp hne
      have hmem := (mem_ancestorRows_iff ht (a := (above, q))).mpr ⟨((mem_ancestorRows_iff ht).mp ha).1, habove, hq⟩
      have hfalse := hdead _ hmem
      rw [hdeleted] at hfalse
      cases hfalse
    exact ⟨fun hdown => (hput.mp hdown).2 hnil, hnil⟩
  · have hnode : (node, n) ∈ nodesOf db.catalog account := mem_nodesOf.mpr ⟨hn, haccount⟩
    have hdead : ∀ a ∈ ancestorRows db.catalog account node, a.2.deleted = false := fun a ha =>
      (mem_liveNodes.mp (down_of_up ht (mem_liveNodes.mpr ⟨hnode, hlive⟩) (up_of_mem_ancestorRows hnode ha)).1).2
    rw [grantsOf_ne_nil_iff]
    constructor
    · rintro ⟨⟨g, hg, a, ha, haid, hreach⟩, -⟩
      refine ⟨g, hg, hreach.imp id fun hr => ⟨hr.1, ?_⟩⟩
      rw [← haid]
      exact ((mem_ancestorRows_iff ht).mp ha).2.1
    · rintro ⟨g, hg, hreach⟩
      have hself : (node, n) ∈ ancestorRows db.catalog account node := (mem_ancestorRows_iff ht).mpr ⟨⟨n, hn, haccount⟩, .refl, hn⟩
      refine ⟨⟨g, hg, ?_⟩, hdead⟩
      rcases hreach with hsame | ⟨hrecursive, habove⟩
      · exact ⟨(node, n), hself, hsame.symm, .inl hsame⟩
      · rcases Relation.ReflTransGen.cases_tail habove with hsame | ⟨c, hchain, m, hm, hparent⟩
        · exact ⟨(node, n), hself, hsame.symm, .inl hsame⟩
        · -- a node with a child is a directory
          obtain ⟨q, hq, -, -, hkind, -⟩ := ht.parent c m g.nodeId hm hparent
          exact ⟨(g.nodeId, q), (mem_ancestorRows_iff ht).mpr ⟨⟨n, hn, haccount⟩, habove, hq⟩, rfl, .inr ⟨hrecursive, hkind⟩⟩

end snapshots

/-- A folder with a file in it, and another file that is removed again. -/
def filedActions : List Action :=
  [.openWorkspace 1 1 1, .storeFile 10 ⟨1, true, "a", .input, some 7, none, none⟩, .storeFile 11 ⟨1, true, "b", .input, some 7, none, none⟩,
    .createDirectory (.ok ()) "reports" 2 1 1, .saveFile (.ok ()) (.ok ()) "a.txt" 3 1 2 10 "op1" none,
    .saveFile (.ok ()) (.ok ()) "b.txt" 4 1 2 11 "op2" none, .remove (.ok ()) (.ok ()) false false 1 4]

/-- The folder is granted to a conversation that is about to get a Run. -/
def filed : ResourceStore Intent :=
  { catalog := run ⟨id, id, id, id⟩ filedActions
    subjects := fun _ _ _ => true
    policyVersions := ∅
    grants := AList.singleton 6 ⟨1, .conversation, 7, 2, .listMetadata, true, 0, false⟩
    fileInfo := ∅
    workInputs := ∅
    runs := AList.singleton 9 ⟨1, .conversation, 7, true⟩
    snapshots := ∅
    candidates := ∅
    runFiles := ∅
    attachments := ∅ }

theorem snapshot_eq_grants_filed :
    ∃ db', (snapshotInUow (fun a b => decide (a ≤ b)) id (fun _ => "") 1 9 .conversation 7).run filed = .ok ((), db') ∧
      (PutDown filed db' 9 3 ↔ LiveFile filed.catalog 1 3 ∧ grantsOf filed 1 .conversation 7 3 .listMetadata ≠ []) ∧
      PutDown filed db' 9 3 ∧ ¬PutDown filed db' 9 4 := by
  have hrun : ((snapshotInUow (fun a b => decide (a ≤ b)) id (fun _ => "") 1 9 .conversation 7).run filed).map Prod.fst = .ok () := by
    decide +kernel
  have hrun := Tx.run_commit hrun
  have hcatalog : filed.catalog = run ⟨id, id, id, id⟩ filedActions := rfl
  refine ⟨_, hrun, (snapshot_eq_grants ⟨id, id, id, id⟩ filedActions hcatalog hrun 3).1, ?_, ?_⟩
  · unfold PutDown
    decide +kernel
  · unfold PutDown
    decide +kernel

end HpAgent.Workspace
