import HpAgent.Library.Naming
import HpAgent.Workspace.Candidates
import Mathlib.Data.List.Zip

/-! # The logical names of a Run

A candidate is named like its file.  If that name is taken, with case ignored, it gets the identifier of the node in front, and
the name that results is not looked up again.

* `logicalNames`: the names of a list of files, as the snapshot assigns them.
* `Unprefixed`: no file has the name that another one gets.
* `logical_names_unique_iff`: the names of a Run are distinct exactly in that case, and never too long. -/

namespace HpAgent.Workspace

open Library

variable {collate : String → String → Bool}

/-! ### Identifiers and case -/

/-- `uuid.hex`: the 32 hexadecimal digits. -/
def hexDigits (id : Uuid) : List Char := (List.range 32).map fun i => Nat.digitChar (id / 16 ^ (31 - i) % 16)

def uuidHex (id : Uuid) : String := String.ofList (hexDigits id)

/-- `str.casefold` folds every character by itself; the hexadecimal digits stay. -/
structure FoldsCharacters (casefold : String → String) where
  fold : Char → List Char
  folds : ∀ s, casefold s = String.ofList (s.toList.flatMap fold)
  digit : ∀ n < 16, fold (Nat.digitChar n) = [Nat.digitChar n]

@[simp] theorem length_hexDigits (id : Uuid) : (hexDigits id).length = 32 := by
  unfold hexDigits
  rw [List.length_map, List.length_range]

theorem digitChar_inj {m n : ℕ} (hm : m < 16) (hn : n < 16) (h : Nat.digitChar m = Nat.digitChar n) : m = n := by
  have hall : ∀ m < 16, ∀ n < 16, Nat.digitChar m = Nat.digitChar n → m = n := by decide
  exact hall m hm n hn h

/-- Two numbers with the same hexadecimal digits are equal. -/
theorem eq_of_digits {k m n : ℕ} (hm : m < 16 ^ k) (hn : n < 16 ^ k) (h : ∀ i < k, m / 16 ^ i % 16 = n / 16 ^ i % 16) : m = n := by
  induction k generalizing m n with
  | zero =>
      rw [pow_zero] at hm hn
      omega
  | succ k ih =>
      rw [pow_succ] at hm hn
      have hfirst := h 0 (Nat.succ_pos k)
      rw [pow_zero, Nat.div_one, Nat.div_one] at hfirst
      have hrest : m / 16 = n / 16 := by
        refine ih (by omega) (by omega) fun i hi => ?_
        have hstep := h (i + 1) (by omega)
        rwa [pow_succ', ← Nat.div_div_eq_div_mul, ← Nat.div_div_eq_div_mul] at hstep
      omega

theorem hexDigits_inj {a b : Uuid} (ha : a < 2 ^ 128) (hb : b < 2 ^ 128) (h : hexDigits a = hexDigits b) : a = b := by
  refine eq_of_digits (k := 32) (by omega) (by omega) fun i hi => ?_
  unfold hexDigits at h
  have hdigit := List.map_inj_left.mp h (31 - i) (List.mem_range.mpr (by omega))
  have hindex : 31 - (31 - i) = i := by omega
  rw [hindex] at hdigit
  exact digitChar_inj (Nat.mod_lt _ (by decide)) (Nat.mod_lt _ (by decide)) hdigit

/-- A name with an identifier in front: `f"{id.hex}_{name}"[:255]`. -/
def prefixed (id : Uuid) (name : String) : String := clip (uuidHex id ++ "_" ++ name)

theorem toList_prefixed (id : Uuid) (name : String) :
    (prefixed id name).toList = hexDigits id ++ ('_' :: name.toList).take 223 := by
  unfold prefixed clip uuidHex
  rw [String.toList_ofList, String.toList_append, String.toList_append, String.toList_ofList, List.append_assoc, List.take_append,
    length_hexDigits, List.take_of_length_le (by rw [length_hexDigits]; decide)]
  rfl

theorem length_prefixed (id : Uuid) (name : String) : (prefixed id name).length ≤ 255 := by
  unfold prefixed clip
  rw [String.length_ofList, List.length_take]
  omega

section folding

variable {casefold : String → String} (hfold : FoldsCharacters casefold)

include hfold

theorem fold_hexDigits (id : Uuid) : (hexDigits id).flatMap hfold.fold = hexDigits id := by
  unfold hexDigits
  rw [List.flatMap_map]
  have hdigit : ∀ i ∈ List.range 32, hfold.fold (Nat.digitChar (id / 16 ^ (31 - i) % 16)) = [Nat.digitChar (id / 16 ^ (31 - i) % 16)] :=
    fun i _ => hfold.digit _ (Nat.mod_lt _ (by decide))
  rw [List.flatMap_congr hdigit, ← List.map_eq_flatMap]

/-- The identifier of a prefixed name can be read back, whatever the case of the name. -/
theorem casefold_prefixed_inj {a b : Uuid} {name name' : String} (ha : a < 2 ^ 128) (hb : b < 2 ^ 128)
    (h : casefold (prefixed a name) = casefold (prefixed b name')) : a = b := by
  rw [hfold.folds, hfold.folds, String.ofList_inj, toList_prefixed, toList_prefixed, List.flatMap_append, List.flatMap_append,
    fold_hexDigits hfold, fold_hexDigits hfold] at h
  exact hexDigits_inj ha hb (List.append_inj_left h (by rw [length_hexDigits, length_hexDigits]))

end folding

/-! ### The names a snapshot assigns -/

/-- The names of the candidates, as the loop assigns them; `names` are those of the input files. -/
def logicalNames (casefold : String → String) (names : List String) (rows : List (Uuid × Node)) : List String :=
  Naming.assign casefold (fun r : Uuid × Node => r.2.name) (fun r => prefixed r.1 r.2.name) names rows

/-- No file that loses its name to one before it gets a name that, with case ignored, an input file or a file before it has. -/
def Unprefixed (casefold : String → String) (names : List String) (rows : List (Uuid × Node)) : Prop :=
  Naming.Clean casefold (fun r : Uuid × Node => r.2.name) (fun r => prefixed r.1 r.2.name) names rows

theorem logicalNames_cons (casefold : String → String) (names : List String) (r : Uuid × Node) (rest : List (Uuid × Node)) :
    logicalNames casefold names (r :: rest) = logicalName casefold uuidHex names r.1 r.2.name ::
      logicalNames casefold (casefold (logicalName casefold uuidHex names r.1 r.2.name) :: names) rest := rfl

theorem logicalNames_bounded {casefold : String → String} {names : List String} {rows : List (Uuid × Node)}
    (hrows : ∀ r ∈ rows, r.2.name.length ≤ 255) : ∀ n ∈ logicalNames casefold names rows, n.length ≤ 255 := by
  induction rows generalizing names with
  | nil => exact fun n hn => absurd hn List.not_mem_nil
  | cons r rest ih =>
      intro n hn
      rw [logicalNames_cons, List.mem_cons] at hn
      rcases hn with rfl | hn
      · unfold logicalName
        split
        · exact length_prefixed _ _
        · exact hrows r (by simp)
      · exact ih (fun r hr => hrows r (List.mem_cons_of_mem _ hr)) n hn

/-- **For every list of files: their names are distinct, and distinct from those of the input files, exactly if no file has the
name that another one gets.** -/
theorem logicalNames_distinct_iff {casefold : String → String} (hfold : FoldsCharacters casefold) {names : List String}
    {rows : List (Uuid × Node)} (hids : ∀ r ∈ rows, r.1 < 2 ^ 128) (hnodup : (rows.map Prod.fst).Nodup) :
    (((logicalNames casefold names rows).map casefold).Nodup ∧ ∀ n ∈ logicalNames casefold names rows, casefold n ∉ names) ↔
      Unprefixed casefold names rows := by
  refine Naming.assign_distinct_iff fun before a after hsplit b hb heq => ?_
  subst hsplit
  have hsame := casefold_prefixed_inj hfold (hids b (List.mem_append_left _ hb)) (hids a (by simp)) heq
  rw [List.map_append, List.map_cons, List.nodup_append] at hnodup
  exact hnodup.2.2 b.1 (List.mem_map_of_mem hb) a.1 (by simp) hsame

/-! ### The names that are put down -/

section store

variable {δ : Type} {db db' : ResourceStore δ} {account run subject : Uuid} {kind : SubjectKind} {casefold : String → String}

/-- A candidate of the Run has the name. -/
def HasName (db : ResourceStore δ) (run node : Uuid) (name : String) : Prop :=
  ∃ c, db.candidates.lookup (run, node) = some c ∧ c.logicalName = name

theorem insertCandidates_names {rows : List (Uuid × Node)} {names names' : List String}
    (h : (insertCandidates casefold uuidHex run account rows names).run db = .ok (names', db')) :
    db'.runFiles = db.runFiles ∧ ∀ node name, HasName db' run node name ↔
      HasName db run node name ∨ (node, name) ∈ (rows.map Prod.fst).zip (logicalNames casefold names rows) := by
  unfold insertCandidates at h
  induction rows generalizing db names with
  | nil =>
      rw [List.foldlM_nil] at h
      obtain ⟨-, rfl⟩ := Tx.pure_ok.mp h
      exact ⟨rfl, fun node name => (or_iff_left List.not_mem_nil).symm⟩
  | cons row rest ih =>
      rw [List.foldlM_cons, Tx.bind_ok] at h
      obtain ⟨names₁, db₁, hrow, hrest⟩ := h
      rw [Tx.bind_query_ok, Tx.bind_ok] at hrow
      obtain ⟨_, db₂, hinsert, hrow⟩ := hrow
      obtain ⟨rfl, rfl⟩ := Tx.pure_ok.mp hrow
      obtain ⟨hfiles, hnames⟩ := ih hrest
      obtain ⟨hfree, rfl⟩ := insertCandidate_ok hinsert
      refine ⟨hfiles, fun node name => ?_⟩
      rw [hnames, logicalNames_cons, List.map_cons, List.zip_cons_cons, List.mem_cons, ← or_assoc]
      refine or_congr_left ?_
      unfold HasName
      rw [Table.lookup_insert_ite]
      by_cases hnode : node = row.1
      · subst hnode
        rw [if_pos rfl, hfree]
        simp [eq_comm]
      · rw [if_neg fun heq => hnode (Prod.mk.inj heq).2]
        exact (or_iff_left fun heq => hnode (Prod.mk.inj heq).1).symm

/-- The name of an attachment. -/
def attachmentName (db : ResourceStore δ) (file : Uuid) : String :=
  prefixed file (((db.fileInfo.lookup file).map FileInfo.originalName).getD "")

theorem bindAttachments_names {attachments : List (Uuid × Uuid)} {u : Unit}
    (h : (bindAttachments uuidHex run attachments).run db = .ok (u, db')) :
    ∀ file name, db'.runFiles.lookup (run, file) = some name ↔
      db.runFiles.lookup (run, file) = some name ∨ file ∈ attachments.map Prod.snd ∧ name = attachmentName db file := by
  unfold bindAttachments at h
  induction attachments generalizing db u with
  | nil =>
      rw [List.foldlM_nil] at h
      obtain ⟨-, rfl⟩ := Tx.pure_ok.mp h
      exact fun file name => (or_iff_left fun hmem => absurd hmem.1 List.not_mem_nil).symm
  | cons a rest ih =>
      rw [List.foldlM_cons, Tx.bind_ok] at h
      obtain ⟨_, db₁, hfirst, hrest⟩ := h
      have hnames := ih hrest
      unfold insertRunFile at hfirst
      rw [Tx.bind_query_ok, Tx.bind_query_ok, Tx.bind_check_ok, Tx.update_ok] at hfirst
      obtain ⟨hfree, rfl⟩ := hfirst
      rw [Bool.or_eq_false_iff, Bool.or_eq_false_iff] at hfree
      intro file name
      rw [hnames, List.map_cons, List.mem_cons, or_and_right, ← or_assoc]
      refine or_congr_left ?_
      rw [Table.lookup_insert_ite]
      by_cases hfile : file = a.2
      · subst hfile
        have hnone : db.runFiles.lookup (run, a.2) = none := by simpa using hfree.1.1
        rw [if_pos rfl, hnone, Option.some.injEq]
        simp only [reduceCtorEq, true_and, false_or]
        exact eq_comm
      · rw [if_neg fun heq => hfile (Prod.mk.inj heq).2]
        exact (or_iff_left fun heq => hfile heq.1).symm

/-- The names of the input files the Run has when its candidates are named, with case ignored: those that are bound already, and
the attachments of its Work. -/
def inputNames (casefold : String → String) (db : ResourceStore δ) (account run : Uuid) (kind : SubjectKind) (subject : Uuid) :
    List String :=
  ((db.runFiles.entries.filter fun e => e.1.1 = run).map fun e => casefold e.2) ++
    ((if kind = .work then workAttachments db account subject else []).map fun a => casefold (attachmentName db a.2))

/-- What the columns promise: identifiers are UUIDs, a name has 255 characters at most, and a candidate belongs to a snapshot. -/
structure Columns (db : ResourceStore δ) : Prop where
  nodeIds : ∀ id n, db.catalog.nodes.lookup id = some n → id < 2 ^ 128
  fileIds : ∀ id i, db.workInputs.lookup id = some i → i.fileId < 2 ^ 128
  names : ∀ id n, db.catalog.nodes.lookup id = some n → n.name.length ≤ 255
  candidates : ∀ run node c, db.candidates.lookup (run, node) = some c → (db.snapshots.lookup run).isSome = true

/-- With case ignored, a name belongs to one candidate and to no input file; none is too long. -/
structure NamesUnique (casefold : String → String) (db : ResourceStore δ) (run : Uuid) : Prop where
  candidates : ∀ node node' c c', db.candidates.lookup (run, node) = some c → db.candidates.lookup (run, node') = some c' →
    casefold c.logicalName = casefold c'.logicalName → node = node'
  inputs : ∀ node c file name, db.candidates.lookup (run, node) = some c → db.runFiles.lookup (run, file) = some name →
    casefold c.logicalName ≠ casefold name
  bounded : ∀ node c, db.candidates.lookup (run, node) = some c → c.logicalName.length ≤ 255

theorem policyVersion_ok {version : ℕ} (h : (policyVersion account kind subject).run db = .ok (version, db')) :
    ∃ versions, db' = { db with policyVersions := versions } := by
  unfold policyVersion at h
  rw [Tx.bind_query_ok] at h
  split at h
  · obtain ⟨-, rfl⟩ := Tx.pure_ok.mp h
    exact ⟨_, rfl⟩
  · rw [Tx.bind_update_ok] at h
    obtain ⟨-, rfl⟩ := Tx.pure_ok.mp h
    exact ⟨_, rfl⟩

theorem mem_runNames {k : String} : (k ∈ (db.runFiles.entries.filter fun e => e.1.1 = run).map fun e => casefold e.2) ↔
    ∃ file name, db.runFiles.lookup (run, file) = some name ∧ casefold name = k := by
  rw [List.mem_map]
  constructor
  · rintro ⟨e, he, rfl⟩
    rw [List.mem_filter, decide_eq_true_eq] at he
    obtain ⟨he, rfl⟩ := he
    exact ⟨e.1.2, e.2, AList.mem_lookup_iff.mpr he, rfl⟩
  · rintro ⟨file, name, hlookup, rfl⟩
    exact ⟨⟨(run, file), name⟩, List.mem_filter.mpr ⟨AList.mem_lookup_iff.mp hlookup, decide_eq_true rfl⟩, rfl⟩

theorem mem_inputNames {k : String} : k ∈ inputNames casefold db account run kind subject ↔
    ∃ file name, (db.runFiles.lookup (run, file) = some name ∨
      file ∈ (if kind = .work then workAttachments db account subject else []).map Prod.snd ∧ name = attachmentName db file) ∧
        casefold name = k := by
  unfold inputNames
  rw [List.mem_append, mem_runNames, List.mem_map]
  constructor
  · rintro (⟨file, name, hlookup, rfl⟩ | ⟨a, ha, rfl⟩)
    · exact ⟨file, name, .inl hlookup, rfl⟩
    · exact ⟨a.2, _, .inr ⟨List.mem_map_of_mem ha, rfl⟩, rfl⟩
  · rintro ⟨file, name, hlookup | ⟨hmem, rfl⟩, rfl⟩
    · exact .inl ⟨file, name, hlookup, rfl⟩
    · obtain ⟨a, ha, rfl⟩ := List.mem_map.mp hmem
      exact .inr ⟨a, ha, rfl⟩

/-- What a snapshot writes: the attachments with their names, and the candidates with theirs. -/
theorem snapshotInUow_names {u : Unit}
    (h : (snapshotInUow collate casefold uuidHex account run kind subject).run db = .ok (u, db')) :
    db.snapshots.lookup run = none ∧
    (∀ k, (∃ file name, db'.runFiles.lookup (run, file) = some name ∧ casefold name = k) ↔
      k ∈ inputNames casefold db account run kind subject) ∧
    ∃ names, (∀ k, k ∈ names ↔ k ∈ inputNames casefold db account run kind subject) ∧
      ∀ node name, HasName db' run node name ↔ HasName db run node name ∨ (node, name) ∈
        ((candidateRows collate db account kind subject).map Prod.fst).zip
          (logicalNames casefold names (candidateRows collate db account kind subject)) := by
  unfold snapshotInUow at h
  rw [Tx.bind_query_ok, Tx.bind_check_ok, Tx.bind_ok] at h
  obtain ⟨-, version, db₁, hversion, h⟩ := h
  obtain ⟨versions, rfl⟩ := policyVersion_ok hversion
  rw [Tx.bind_query_ok, Tx.bind_query_ok, Tx.bind_check_ok, Tx.bind_check_ok] at h
  obtain ⟨hlimit, -, h⟩ := h
  rw [Tx.bind_query_ok, Tx.bind_check_ok, Tx.bind_query_ok, Tx.bind_check_ok, Tx.bind_update_ok] at h
  obtain ⟨-, hfree, h⟩ := h
  rw [Tx.bind_query_ok, Tx.bind_ok] at h
  obtain ⟨_, db₂, hattachments, h⟩ := h
  have hsame := bindAttachments_same _ _ _ hattachments
  have hfiles := bindAttachments_names hattachments
  rw [Tx.bind_query_ok, Tx.bind_ok] at h
  obtain ⟨names, db₃, hinsert, h⟩ := h
  obtain ⟨-, rfl⟩ := Tx.pure_ok.mp h
  obtain ⟨hrunFiles, hnames⟩ := insertCandidates_names hinsert
  have hinputs : ∀ k, (∃ file name, db₃.runFiles.lookup (run, file) = some name ∧ casefold name = k) ↔
      k ∈ inputNames casefold db account run kind subject := by
    intro k
    rw [mem_inputNames, hrunFiles]
    simp only [hfiles]
    rfl
  refine ⟨by simpa using hfree, hinputs, (db₂.runFiles.entries.filter fun e => e.1.1 = run).map fun e => casefold e.2, fun k => ?_, ?_⟩
  · rw [mem_runNames, ← hinputs, hrunFiles]
  · -- the limit was not reached, so no row is cut off
    have hall : (candidateRows collate { db with policyVersions := versions } account kind subject).take (candidateLimit + 1) =
        candidateRows collate db account kind subject := by
      rw [List.length_take] at hlimit
      exact List.take_of_length_le (by omega)
    intro node name
    have hcandidates : HasName db₂ run node name ↔ HasName db run node name := by
      unfold HasName
      rw [← hsame.candidates]
    rw [← hcandidates, hnames node name, hall]

/-! ### The law -/

theorem nodup_candidateRows :
    ((candidateRows collate db account kind subject).map Prod.fst).Nodup := by
  have hnodes : ((nodesOf db.catalog account).map Prod.fst).Nodup := by
    unfold nodesOf
    refine List.Nodup.sublist (List.filter_sublist.map _) ?_
    rw [List.map_map]
    exact db.catalog.nodes.keys_nodup
  have hallowed : ((allowedRows db account kind subject (db.catalog.workspaces account)).map Prod.fst).Nodup := by
    unfold allowedRows
    exact (hnodes.sublist (List.filter_sublist.map _)).sublist ((grow_sublist_rows _ _ _).map _)
  unfold candidateRows
  exact ((List.perm_insertionSort _ _).map _).nodup_iff.mpr (hallowed.sublist (List.filter_sublist.map _))

/-- A candidate is a node. -/
theorem lookup_of_mem_candidateRows {r : Uuid × Node}
    (h : r ∈ candidateRows collate db account kind subject) : db.catalog.nodes.lookup r.1 = some r.2 := by
  unfold candidateRows at h
  rw [List.mem_insertionSort, List.mem_filter] at h
  exact (mem_nodesOf.mp (mem_liveNodes.mp (grow_subset _ _ h.1)).1).1

/-- The rows of a committed snapshot have distinct names exactly if those that were assigned are. -/
theorem namesUnique_iff (hfold : FoldsCharacters casefold) (hcolumns : Columns db)
    (h : (snapshotInUow collate casefold uuidHex account run kind subject).run db = .ok ((), db')) :
    NamesUnique casefold db' run ↔
      Unprefixed casefold (inputNames casefold db account run kind subject) (candidateRows collate db account kind subject) := by
  obtain ⟨hfree, hinputs, names, hsame, hnames⟩ := snapshotInUow_names h
  have hrows : ∀ r ∈ candidateRows collate db account kind subject, db.catalog.nodes.lookup r.1 = some r.2 :=
    fun r hr => lookup_of_mem_candidateRows hr
  have hnodup : ((candidateRows collate db account kind subject).map Prod.fst).Nodup := nodup_candidateRows
  -- the Run had no candidate before
  have hhas : ∀ node name, HasName db' run node name ↔ (node, name) ∈ ((candidateRows collate db account kind subject).map Prod.fst).zip
      (logicalNames casefold names (candidateRows collate db account kind subject)) := by
    intro node name
    refine (hnames node name).trans (or_iff_right ?_)
    rintro ⟨c, hc, -⟩
    have hsnapshot := hcolumns.candidates run node c hc
    rw [hfree] at hsnapshot
    cases hsnapshot
  have hlength : ((candidateRows collate db account kind subject).map Prod.fst).length =
      (logicalNames casefold names (candidateRows collate db account kind subject)).length := by
    unfold logicalNames
    rw [List.length_map, Naming.length_assign]
  have hgiven : ∀ name, name ∈ logicalNames casefold names (candidateRows collate db account kind subject) ↔
      ∃ node, HasName db' run node name := by
    intro name
    simp only [hhas]
    constructor
    · intro hmem
      obtain ⟨i, hi, rfl⟩ := List.getElem_of_mem hmem
      refine ⟨((candidateRows collate db account kind subject).map Prod.fst)[i], ?_⟩
      rw [← List.getElem_zip (h := by rw [List.length_zip]; omega)]
      exact List.getElem_mem _
    · rintro ⟨node, hmem⟩
      exact (List.of_mem_zip hmem).2
  have hdistinct := @logicalNames_distinct_iff _ hfold names _ (fun r hr => hcolumns.nodeIds _ _ (hrows r hr)) hnodup
  unfold Unprefixed at hdistinct ⊢
  rw [Naming.clean_congr hsame, Naming.nodup_iff_zip hnodup hlength] at hdistinct
  rw [← hdistinct]
  constructor
  · intro hunique
    refine ⟨fun i j x y hi hj heq => ?_, fun name hname htaken => ?_⟩
    · obtain ⟨c, hc, rfl⟩ := (hhas i x).mpr hi
      obtain ⟨c', hc', rfl⟩ := (hhas j y).mpr hj
      exact hunique.candidates i j c c' hc hc' heq
    · obtain ⟨node, c, hc, rfl⟩ := (hgiven name).mp hname
      obtain ⟨file, other, hfile, heq⟩ := (hinputs _).mpr ((hsame _).mp htaken)
      exact hunique.inputs node c file other hc hfile heq.symm
  · rintro ⟨hzip, hfresh⟩
    refine ⟨fun i j c c' hc hc' heq => ?_, fun node c file other hc hfile heq => ?_, fun node c hc => ?_⟩
    · exact hzip i j _ _ ((hhas i _).mp ⟨c, hc, rfl⟩) ((hhas j _).mp ⟨c', hc', rfl⟩) heq
    · refine hfresh c.logicalName ((hgiven _).mpr ⟨node, c, hc, rfl⟩) ((hsame _).mpr ((hinputs _).mp ⟨file, other, hfile, heq.symm⟩))
    · exact logicalNames_bounded (fun r hr => hcolumns.names _ _ (hrows r hr)) _ ((hgiven _).mpr ⟨node, c, hc, rfl⟩)

/-! ### Selecting a candidate -/

inductive SelectError where
  /-- `ResourceDenied`. -/
  | denied (message : String)
  | refused (e : ResourceError)
deriving DecidableEq, Repr

/-- The file of a candidate; it is fixed when the candidate is first selected. -/
def fixFile (account run node : Uuid) (c : Candidate) : Tx SelectError (ResourceStore δ) Uuid :=
  match c.fixedFileId with
  | some file => pure file
  | none => do
      let current ← Tx.query fun db => ((liveNode db.catalog account node).filter fun n => n.kind = .file).bind
        (currentFile db.catalog account)
      let file ← Tx.demand current (.denied "resource has no ready file version")
      let ready ← Tx.query fun db => (readyFile db.catalog account file).isSome
      Tx.check (ready = true) (.denied "resource has no ready file version")
      Tx.update fun db => { db with candidates := db.candidates.insert (run, node) { c with fixedFileId := some file } }
      pure file

/-- One file has one name in a Run: the one it is bound under, or that of the candidate. -/
def bindFile (account run file : Uuid) (name : String) : Tx SelectError (ResourceStore δ) String := do
  let existing ← Tx.query fun db => db.runFiles.lookup (run, file)
  match existing with
  | some bound => pure bound
  | none => do
      let ready ← Tx.query fun db => (readyFile db.catalog account file).isSome
      Tx.check (ready = true) (.refused (.raiseException "Run file must be ready in the same account"))
      let taken ← Tx.query fun db => db.runFiles.entries.any fun e => e.1.1 = run && e.2 = name
      Tx.check (taken = false) (.refused .integrityError)
      Tx.update fun db => { db with runFiles := db.runFiles.insert (run, file) name }
      pure name

/-- `_select`, without the fact of access it records; `fence` is the verdict on the Execution, and `scope` are the nodes of its
branch. -/
def selectInUow (fence : Except SelectError Unit) (scope : Option (List Uuid)) (account run node : Uuid) :
    Tx SelectError (ResourceStore δ) (Uuid × String × Uuid) := do
  Tx.ofExcept fence
  let executable ← Tx.query fun db => (db.runs.lookup run).any fun r => r.accountId = account && r.executable
  Tx.check (executable = true) (.denied "Run is not active")
  Tx.check (scope.all (fun nodes => nodes.contains node) = true) (.denied "node is outside branch scope")
  let candidate ← Tx.query fun db => (db.candidates.lookup (run, node)).filter fun _ => (db.snapshots.lookup run).any SnapshotRow.ready
  let c ← Tx.demand candidate (.denied "resource is not a frozen Run candidate")
  let found ← Tx.query fun db => db.snapshots.lookup run
  let snapshot ← Tx.demand found (.refused .resourceNotFound)
  let listed ← Tx.query fun db => grantsOf db account snapshot.subjectKind snapshot.subjectId node .listMetadata
  Tx.check (listed ≠ []) (.denied "current list_metadata permission is absent")
  let grants ← Tx.query fun db => grantsOf db account snapshot.subjectKind snapshot.subjectId node .readContent
  let grant ← Tx.demand grants.head? (.denied "current read_content permission is absent")
  let file ← fixFile account run node c
  let name ← bindFile account run file c.logicalName
  pure (file, name, grant.1)

variable {file node : Uuid} {name : String}

theorem fixFile_ok {c : Candidate} (hc : db.candidates.lookup (run, node) = some c)
    (h : (fixFile account run node c).run db = .ok (file, db')) :
    db'.runFiles = db.runFiles ∧ (c.fixedFileId = none ∨ c.fixedFileId = some file) ∧
      ∀ k, db'.candidates.lookup k = if k = (run, node) then some { c with fixedFileId := some file } else db.candidates.lookup k := by
  unfold fixFile at h
  split at h
  · next fixed hfixed =>
      obtain ⟨rfl, rfl⟩ := Tx.pure_ok.mp h
      refine ⟨rfl, .inr hfixed, fun k => ?_⟩
      split
      · next hk => rw [hk, hc, ← hfixed]
      · rfl
  · next hfixed =>
      rw [Tx.bind_query_ok, Tx.bind_demand_ok] at h
      obtain ⟨file', -, h⟩ := h
      rw [Tx.bind_query_ok, Tx.bind_check_ok, Tx.bind_update_ok] at h
      obtain ⟨-, h⟩ := h
      obtain ⟨rfl, rfl⟩ := Tx.pure_ok.mp h
      exact ⟨rfl, .inl hfixed, fun k => Table.lookup_insert_ite _ _ _ _⟩

theorem bindFile_ok {own : String} (h : (bindFile account run file own).run db = .ok (name, db')) :
    db'.candidates = db.candidates ∧
      ((db.runFiles.lookup (run, file) = some name ∧ db' = db) ∨ (name = own ∧ db'.runFiles = db.runFiles.insert (run, file) own)) := by
  unfold bindFile at h
  rw [Tx.bind_query_ok] at h
  split at h
  · next bound hbound =>
      obtain ⟨rfl, rfl⟩ := Tx.pure_ok.mp h
      exact ⟨rfl, .inl ⟨hbound, rfl⟩⟩
  · rw [Tx.bind_query_ok, Tx.bind_check_ok, Tx.bind_query_ok, Tx.bind_check_ok, Tx.bind_update_ok] at h
    obtain ⟨-, -, h⟩ := h
    obtain ⟨rfl, rfl⟩ := Tx.pure_ok.mp h
    exact ⟨rfl, .inr ⟨rfl, rfl⟩⟩

/-- What a selection does: the candidate is fixed to the file, and the file is bound under the name that is returned. -/
theorem selectInUow_ok {fence : Except SelectError Unit} {scope : Option (List Uuid)} {grant : Uuid}
    (h : (selectInUow fence scope account run node).run db = .ok ((file, name, grant), db')) :
    ∃ c, db.candidates.lookup (run, node) = some c ∧ (c.fixedFileId = none ∨ c.fixedFileId = some file) ∧
      (∀ k, db'.candidates.lookup k = if k = (run, node) then some { c with fixedFileId := some file } else db.candidates.lookup k) ∧
      ((db.runFiles.lookup (run, file) = some name ∧ db'.runFiles = db.runFiles) ∨
        (name = c.logicalName ∧ db'.runFiles = db.runFiles.insert (run, file) name)) := by
  unfold selectInUow at h
  rw [Tx.bind_ofExcept_ok] at h
  obtain ⟨-, -, h⟩ := h
  rw [Tx.bind_query_ok, Tx.bind_check_ok, Tx.bind_check_ok, Tx.bind_query_ok, Tx.bind_demand_ok] at h
  obtain ⟨-, -, c, hc, h⟩ := h
  rw [Tx.bind_query_ok, Tx.bind_demand_ok] at h
  obtain ⟨snapshot, -, h⟩ := h
  rw [Tx.bind_query_ok, Tx.bind_check_ok, Tx.bind_query_ok, Tx.bind_demand_ok] at h
  obtain ⟨-, first, -, h⟩ := h
  rw [Tx.bind_ok] at h
  obtain ⟨file', db₁, hfix, h⟩ := h
  rw [Tx.bind_ok] at h
  obtain ⟨name', db₂, hbind, h⟩ := h
  obtain ⟨hresult, rfl⟩ := Tx.pure_ok.mp h
  obtain ⟨rfl, rfl, -⟩ : file' = file ∧ name' = name ∧ first.1 = grant := by simpa [eq_comm] using hresult
  have hcandidate := (Option.filter_eq_some_iff.mp hc).1
  obtain ⟨hfiles, hfixed, hcandidates⟩ := fixFile_ok hcandidate hfix
  obtain ⟨hsame, hbound⟩ := bindFile_ok hbind
  refine ⟨c, hcandidate, hfixed, fun k => by rw [hsame, hcandidates], ?_⟩
  rw [hfiles] at hbound
  rcases hbound with ⟨hlookup, rfl⟩ | ⟨rfl, hinsert⟩
  · exact .inl ⟨hlookup, hfiles⟩
  · exact .inr ⟨rfl, hinsert⟩

/-! ### Selecting over a run -/

/-- After the snapshot: candidates are selected, and whatever else happens leaves the names of the Run and the files that are fixed. -/
inductive Selects (run : Uuid) : ResourceStore δ → ResourceStore δ → Prop
  | select {old new : ResourceStore δ} {account node : Uuid} {r : Uuid × String × Uuid} (fence : Except SelectError Unit)
      (scope : Option (List Uuid)) (h : (selectInUow fence scope account run node).run old = .ok (r, new)) : Selects run old new
  | other {old new : ResourceStore δ} (hfiles : ∀ file, new.runFiles.lookup (run, file) = old.runFiles.lookup (run, file))
      (hcandidates : ∀ node, (new.candidates.lookup (run, node)).map (fun c => (c.logicalName, c.fixedFileId)) =
        (old.candidates.lookup (run, node)).map fun c => (c.logicalName, c.fixedFileId)) : Selects run old new

/-- A candidate of the Run with the name is fixed to the file. -/
def FixedTo (db : ResourceStore δ) (run file : Uuid) (name : String) : Prop :=
  ∃ node, (db.candidates.lookup (run, node)).map (fun c => (c.logicalName, c.fixedFileId)) = some (name, some file)

/-- Where the names of the input files come from, since the snapshot. -/
structure Named (start db : ResourceStore δ) (run : Uuid) : Prop where
  candidates : ∀ node, (db.candidates.lookup (run, node)).map Candidate.logicalName =
    (start.candidates.lookup (run, node)).map Candidate.logicalName
  files : ∀ file name, db.runFiles.lookup (run, file) = some name → start.runFiles.lookup (run, file) = some name ∨ FixedTo db run file name

theorem Named.step {start old new : ResourceStore δ} (hnamed : Named start old run) (hstep : Selects run old new) :
    Named start new run := by
  cases hstep with
  | @select account node r fence scope h =>
      obtain ⟨file, name, grant⟩ := r
      obtain ⟨c, hc, hfixed, hcandidates, hfiles⟩ := selectInUow_ok h
      refine ⟨fun other => ?_, fun f n hf => ?_⟩
      · rw [← hnamed.candidates other, hcandidates]
        split
        · next hk => rw [hk, hc]; rfl
        · rfl
      · -- a file that was fixed before stays fixed
        have hkept : FixedTo old run f n → FixedTo new run f n := by
          rintro ⟨other, hother⟩
          refine ⟨other, ?_⟩
          rw [hcandidates]
          split
          · next hk =>
              rw [hk, hc] at hother
              obtain ⟨hname, hfile⟩ := Prod.mk.inj (Option.some.inj hother)
              rw [hfile] at hfixed
              obtain rfl := Option.some.inj (hfixed.resolve_left nofun)
              rw [← hname]
              rfl
          · exact hother
        rcases hfiles with ⟨-, hsame⟩ | ⟨rfl, hinsert⟩
        · rw [hsame] at hf
          exact (hnamed.files f n hf).imp_right hkept
        · rw [hinsert, Table.lookup_insert_ite] at hf
          split at hf
          · next hk =>
              obtain ⟨-, rfl⟩ := Prod.mk.inj hk
              refine .inr ⟨node, ?_⟩
              rw [hcandidates, if_pos rfl, ← Option.some.inj hf]
              rfl
          · exact (hnamed.files f n hf).imp_right hkept
  | other hfiles hcandidates =>
      refine ⟨fun node => ?_, fun f n hf => ?_⟩
      · rw [← hnamed.candidates node]
        have hmap := congrArg (Option.map Prod.fst) (hcandidates node)
        rw [Option.map_map, Option.map_map] at hmap
        exact hmap
      · rw [hfiles] at hf
        refine (hnamed.files f n hf).imp_right ?_
        rintro ⟨node, hnode⟩
        exact ⟨node, (hcandidates node).trans hnode⟩

theorem named_of_selects {start db : ResourceStore δ} (h : Relation.ReflTransGen (Selects run) start db) : Named start db run := by
  induction h with
  | refl => exact ⟨fun _ => rfl, fun _ _ hf => .inl hf⟩
  | tail _ hstep ih => exact ih.step hstep

/-- While the names are distinct, a name of an input file stands for one file; only files that were bound before the snapshot ended
may share one. -/
theorem NamesUnique.one_file {start db : ResourceStore δ} (hunique : NamesUnique casefold start run)
    (h : Relation.ReflTransGen (Selects run) start db) {f g : Uuid} {n n' : String} (hf : db.runFiles.lookup (run, f) = some n)
    (hg : db.runFiles.lookup (run, g) = some n') (hsame : casefold n = casefold n') :
    f = g ∨ (start.runFiles.lookup (run, f) = some n ∧ start.runFiles.lookup (run, g) = some n') := by
  have hnamed := named_of_selects h
  -- a file that was selected has the name of a candidate of the snapshot
  have hcandidate : ∀ {file name}, FixedTo db run file name → ∃ node c, start.candidates.lookup (run, node) = some c ∧
      c.logicalName = name ∧ (db.candidates.lookup (run, node)).map Candidate.fixedFileId = some (some file) := by
    rintro file name ⟨node, hnode⟩
    have hname := congrArg (Option.map Prod.fst) hnode
    have hfixed := congrArg (Option.map Prod.snd) hnode
    rw [Option.map_map] at hname hfixed
    have hstart := (hnamed.candidates node).symm.trans hname
    obtain ⟨c, hc, rfl⟩ := Option.map_eq_some_iff.mp hstart
    exact ⟨node, c, hc, rfl, hfixed⟩
  rcases hnamed.files f n hf with hold | hfixed
  · rcases hnamed.files g n' hg with hold' | hfixed'
    · exact .inr ⟨hold, hold'⟩
    · obtain ⟨node, c, hc, rfl, -⟩ := hcandidate hfixed'
      exact absurd hsame.symm (hunique.inputs node c f n hc hold)
  · obtain ⟨node, c, hc, rfl, hfile⟩ := hcandidate hfixed
    rcases hnamed.files g n' hg with hold' | hfixed'
    · exact absurd hsame (hunique.inputs node c g n' hc hold')
    · obtain ⟨node', c', hc', rfl, hfile'⟩ := hcandidate hfixed'
      obtain rfl := hunique.candidates node node' c c' hc hc' hsame
      rw [hfile] at hfile'
      exact .inl (Option.some.inj (Option.some.inj hfile'))

/-- **The names a snapshot assigns are distinct, case ignored, and within the bound exactly if no file that loses its name gets the
name of an input file or of a file before it.**  The rows of a committed snapshot have these names; and while they are distinct,
a name of a file that is selected later stands for one file. -/
theorem logical_names_unique_iff {collate : String → String → Bool} (hfold : FoldsCharacters casefold) (hcolumns : Columns db) :
    ((((logicalNames casefold (inputNames casefold db account run kind subject) (candidateRows collate db account kind subject)).map
        casefold).Nodup ∧
      ∀ n ∈ logicalNames casefold (inputNames casefold db account run kind subject) (candidateRows collate db account kind subject),
        casefold n ∉ inputNames casefold db account run kind subject ∧ n.length ≤ 255) ↔
      Unprefixed casefold (inputNames casefold db account run kind subject) (candidateRows collate db account kind subject)) ∧
    ∀ db', (snapshotInUow collate casefold uuidHex account run kind subject).run db = .ok ((), db') →
      (NamesUnique casefold db' run ↔
        Unprefixed casefold (inputNames casefold db account run kind subject) (candidateRows collate db account kind subject)) ∧
      (Unprefixed casefold (inputNames casefold db account run kind subject) (candidateRows collate db account kind subject) →
        ∀ later, Relation.ReflTransGen (Selects run) db' later → ∀ f g n n', later.runFiles.lookup (run, f) = some n →
          later.runFiles.lookup (run, g) = some n' → casefold n = casefold n' →
          f = g ∨ (db'.runFiles.lookup (run, f) = some n ∧ db'.runFiles.lookup (run, g) = some n')) := by
  have hrows : ∀ r ∈ candidateRows collate db account kind subject, db.catalog.nodes.lookup r.1 = some r.2 :=
    fun r hr => lookup_of_mem_candidateRows hr
  refine ⟨?_, fun db' h => ?_⟩
  · rw [← logicalNames_distinct_iff hfold (fun r hr => hcolumns.nodeIds _ _ (hrows r hr)) nodup_candidateRows]
    refine and_congr_right fun _ => forall_congr' fun n => forall_congr' fun hn => and_iff_left ?_
    exact logicalNames_bounded (fun r hr => hcolumns.names _ _ (hrows r hr)) n hn
  · have hiff := namesUnique_iff hfold hcolumns h
    exact ⟨hiff, fun hclean later hlater f g n n' hf hg hsame => (hiff.mpr hclean).one_file hlater hf hg hsame⟩

end store

/-- Two folders with a file `a` each, and a file that is named like the second of them with its identifier in front. -/
def shadowedActions : List Action :=
  [.openWorkspace 1 1 1, .storeFile 20 ⟨1, true, "a", .input, some 7, none, none⟩, .storeFile 21 ⟨1, true, "a", .input, some 7, none, none⟩,
    .storeFile 22 ⟨1, true, "A", .input, some 7, none, none⟩, .createDirectory (.ok ()) "left" 2 1 1,
    .createDirectory (.ok ()) "right" 3 1 1, .saveFile (.ok ()) (.ok ()) "a" 10 1 2 20 "op1" none,
    .saveFile (.ok ()) (.ok ()) "a" 11 1 3 21 "op2" none,
    .saveFile (.ok ()) (.ok ()) "0000000000000000000000000000000b_A" 12 1 2 22 "op3" none]

def shadowed : ResourceStore Intent :=
  { catalog := run ⟨id, small, id, id⟩ shadowedActions
    subjects := fun _ _ _ => true
    policyVersions := ∅
    grants := AList.singleton 6 ⟨1, .conversation, 7, 1, .listMetadata, true, 0, false⟩
    fileInfo := ∅
    workInputs := ∅
    runs := AList.singleton 9 ⟨1, .conversation, 7, true⟩
    snapshots := ∅
    candidates := ∅
    runFiles := ∅
    attachments := ∅ }

def smallFolds : FoldsCharacters small where
  fold c := [c.toLower]
  folds s := by
    unfold small
    rw [List.map_eq_flatMap]
  digit := by decide

theorem shadowed_columns : Columns shadowed := by
  have hnodes : ∀ e ∈ shadowed.catalog.nodes.entries, e.1 < 2 ^ 128 ∧ e.2.name.length ≤ 255 := by decide +kernel
  refine ⟨fun id n h => (hnodes ⟨id, n⟩ (AList.mem_lookup_iff.mp h)).1, fun id i h => ?_,
    fun id n h => (hnodes ⟨id, n⟩ (AList.mem_lookup_iff.mp h)).2, fun run node c h => ?_⟩
  · cases h
  · cases h

/-- The snapshot of the Run 9. -/
def shadowedSnapshot : ResourceStore Intent :=
  (snapshotInUow (fun a b => decide (a ≤ b)) small uuidHex 1 9 .conversation 7).commit shadowed

theorem shadowed_commits : (snapshotInUow (fun a b => decide (a ≤ b)) small uuidHex 1 9 .conversation 7).run shadowed =
    .ok ((), shadowedSnapshot) := by
  have hok : ((snapshotInUow (fun a b => decide (a ≤ b)) small uuidHex 1 9 .conversation 7).run shadowed).map Prod.fst = .ok () := by
    decide +kernel
  exact Tx.run_commit hok

theorem logical_names_unique_iff_shadowed : NamesUnique small shadowedSnapshot 9 ↔
    Unprefixed small (inputNames small shadowed 1 9 .conversation 7)
      (candidateRows (fun a b => decide (a ≤ b)) shadowed 1 .conversation 7) :=
  ((logical_names_unique_iff smallFolds shadowed_columns).2 shadowedSnapshot shadowed_commits).1

/-- The second file `a` gets a name that differs from that of another file only in its case. -/
theorem prefixed_name_meets_file : (snapshotInUow (fun a b => decide (a ≤ b)) small uuidHex 1 9 .conversation 7).run shadowed =
    .ok ((), shadowedSnapshot) ∧ ¬NamesUnique small shadowedSnapshot 9 := by
  refine ⟨shadowed_commits, fun hunique => ?_⟩
  have hmeet : ∃ c c', shadowedSnapshot.candidates.lookup (9, 11) = some c ∧ shadowedSnapshot.candidates.lookup (9, 12) = some c' ∧
      small c.logicalName = small c'.logicalName :=
    ⟨⟨"0000000000000000000000000000000b_a", "a", none, none, none, false⟩,
      ⟨"0000000000000000000000000000000b_A", "0000000000000000000000000000000b_A", none, none, none, false⟩,
      by decide +kernel, by decide +kernel, by decide +kernel⟩
  obtain ⟨c, c', hc, hc', hsame⟩ := hmeet
  exact absurd (hunique.candidates 11 12 c c' hc hc' hsame) (by decide)

end HpAgent.Workspace
