import HpAgent.Workspace.Snapshots
import Mathlib.Data.Finset.Dedup

/-! # Following the cursor of the candidates

A reader asks for the candidates of a Run page by page, and hands each cursor back until there is none.  The pages are cut
from the order of the database, and the cursor is compared by code points.

* `follow`: all the pages.
* `Allowed`, `Separates`: what is to be listed, and that the two orders agree at the ends of the pages.
* `pages_enumerate_iff`: the pages list every allowed candidate once exactly if they do. -/

namespace HpAgent.Workspace

open Library

section candidates

variable {δ : Type} (collate : String → String → Bool)

/-- All the pages from a cursor on; the first argument bounds how many. -/
def follow (fence : Except ResourceError Unit) (scope : Option (List Uuid)) (account run : Uuid) (limit : ℤ) (db : ResourceStore δ) :
    ℕ → Option String → Option (List (Uuid × Candidate))
  | 0, _ => none
  | n + 1, after =>
      match (candidatesInUow collate fence scope account run after limit).run db with
      | .error _ => none
      | .ok (p, _) =>
          match p.next with
          | none => some p.candidates
          | some next => (follow fence scope account run limit db n (some next)).map (p.candidates ++ ·)

/-- The snapshot of a Run that may still be listed. -/
def openSnapshot (db : ResourceStore δ) (account run : Uuid) : Option SnapshotRow :=
  (db.snapshots.lookup run).filter fun s =>
    s.accountId = account && s.ready && (db.runs.lookup run).any fun r => r.accountId = account && r.executable

/-- The grants, and the scope of the branch, allow a node. -/
def allows (db : ResourceStore δ) (account : Uuid) (s : SnapshotRow) (scope : Option (List Uuid)) (node : Uuid) : Bool :=
  !(grantsOf db account s.subjectKind s.subjectId node .listMetadata).isEmpty && scope.all fun nodes => nodes.contains node

/-- A candidate of the Run that is allowed. -/
def Allowed (db : ResourceStore δ) (account run : Uuid) (s : SnapshotRow) (scope : Option (List Uuid)) (node : Uuid)
    (c : Candidate) : Prop :=
  db.candidates.lookup (run, node) = some c ∧ allows db account s scope node = true

/-- The rows list every allowed candidate once, and nothing else. -/
def ListsAllowed (db : ResourceStore δ) (account run : Uuid) (s : SnapshotRow) (scope : Option (List Uuid))
    (rows : List (Uuid × Candidate)) : Prop :=
  rows.Nodup ∧ ∀ node c, (node, c) ∈ rows ↔ Allowed db account run s scope node c

/-- How many allowed candidates come up to a name in the order of the database. -/
def upTo (db : ResourceStore δ) (account run : Uuid) (s : SnapshotRow) (scope : Option (List Uuid)) (name : String) : ℕ :=
  Table.countWhere (fun k c => k.1 = run ∧ allows db account s scope k.2 = true ∧ collate c.logicalName name = true) db.candidates

/-- The names are not empty, and the last candidate of every page but the last has before it in the order of the database
exactly the candidates that it has before it by code points. -/
structure Separates (db : ResourceStore δ) (account run : Uuid) (s : SnapshotRow) (scope : Option (List Uuid)) (size : ℕ) : Prop where
  named : ∀ node c, Allowed db account run s scope node c → c.logicalName ≠ ""
  boundary : ∀ node b, Allowed db account run s scope node b → size ∣ upTo collate db account run s scope b.logicalName →
    (∃ later c, Allowed db account run s scope later c ∧ collate c.logicalName b.logicalName = false) →
    ∀ other c, Allowed db account run s scope other c → (collate c.logicalName b.logicalName = true ↔ c.logicalName ≤ b.logicalName)

/-- What the database says of its collations: they are total orders, and only equal texts compare equal. -/
structure IsCollation : Prop where
  total : ∀ a b, collate a b = true ∨ collate b a = true
  trans : ∀ a b c, collate a b = true → collate b c = true → collate a c = true
  antisymm : ∀ a b, collate a b = true → collate b a = true → a = b

/-- `UNIQUE(run_id, logical_name)`. -/
def UniqueNames (db : ResourceStore δ) : Prop :=
  ∀ run node node' c c', db.candidates.lookup (run, node) = some c → db.candidates.lookup (run, node') = some c' →
    c.logicalName = c'.logicalName → node = node'

variable {collate} {db : ResourceStore δ} {account run : Uuid} {s : SnapshotRow} {scope : Option (List Uuid)}

/-! ### The listing -/

theorem mem_listing {c : Uuid × Candidate} : c ∈ listing collate db run ↔ db.candidates.lookup (run, c.1) = some c.2 := by
  unfold listing
  rw [List.mem_insertionSort, List.mem_map]
  constructor
  · rintro ⟨e, he, rfl⟩
    rw [List.mem_filter, List.mem_map, decide_eq_true_eq] at he
    obtain ⟨⟨entry, hentry, rfl⟩, hrun⟩ := he
    rw [← hrun]
    exact AList.mem_lookup_iff.mpr hentry
  · intro h
    refine ⟨((run, c.1), c.2), List.mem_filter.mpr ⟨?_, decide_eq_true rfl⟩, rfl⟩
    exact List.mem_map.mpr ⟨⟨(run, c.1), c.2⟩, AList.mem_lookup_iff.mp h, rfl⟩

theorem mem_allowedCandidates {c : Uuid × Candidate} :
    c ∈ allowedCandidates collate db account run s scope ↔ Allowed db account run s scope c.1 c.2 := by
  unfold allowedCandidates
  rw [List.mem_filter, mem_listing]
  exact Iff.rfl

/-- The order of the listing on rows. -/
def before (collate : String → String → Bool) (a b : Uuid × Candidate) : Bool := collate a.2.logicalName b.2.logicalName

theorem IsCollation.refl (h : IsCollation collate) (a : String) : collate a a = true := (h.total a a).elim id id

theorem nodup_listing : (listing collate db run).Nodup := by
  unfold listing
  refine (List.perm_insertionSort _ _).nodup_iff.mpr ?_
  refine List.Nodup.map_on ?_ ((List.Nodup.map ?_ db.candidates.nodupKeys.nodup).filter _)
  · intro e he e' he' heq
    rw [List.mem_filter, decide_eq_true_eq] at he he'
    obtain ⟨hnode, hrow⟩ := Prod.mk.inj heq
    exact Prod.ext (Prod.ext (he.2.trans he'.2.symm) hnode) hrow
  · rintro ⟨k, c⟩ ⟨k', c'⟩ heq
    obtain ⟨rfl, rfl⟩ := Prod.mk.inj heq
    rfl

theorem pairwise_listing (h : IsCollation collate) (hunique : UniqueNames db) :
    (listing collate db run).Pairwise fun a b => before collate a b = true ∧ before collate b a = false := by
  have : Std.Total fun a b : Uuid × Candidate => collate a.2.logicalName b.2.logicalName = true := ⟨fun a b => h.total _ _⟩
  have : IsTrans (Uuid × Candidate) fun a b => collate a.2.logicalName b.2.logicalName = true := ⟨fun a b c => h.trans _ _ _⟩
  have hsorted : (listing collate db run).Pairwise fun a b => collate a.2.logicalName b.2.logicalName = true :=
    List.pairwise_insertionSort _ _
  refine (hsorted.and nodup_listing).imp_of_mem fun {a b} ha hb hab => ⟨hab.1, ?_⟩
  rw [Bool.eq_false_iff]
  intro hback
  have hname := h.antisymm _ _ hab.1 hback
  have hnode := hunique run a.1 b.1 a.2 b.2 (mem_listing.mp ha) (mem_listing.mp hb) hname
  have hrow : a.2 = b.2 := by
    have hla := mem_listing.mp ha
    rw [hnode, mem_listing.mp hb] at hla
    exact (Option.some.inj hla).symm
  exact hab.2 (Prod.ext hnode hrow)

theorem countP_allowedCandidates (b : Uuid × Candidate) :
    (allowedCandidates collate db account run s scope).countP (before collate · b) =
      upTo collate db account run s scope b.2.logicalName := by
  unfold allowedCandidates listing upTo Table.countWhere
  rw [List.countP_filter, (List.perm_insertionSort _ _).countP_eq, List.countP_map, List.countP_filter, List.countP_map,
    List.countP_eq_length_filter]
  refine congrArg List.length (List.filter_congr fun e _ => ?_)
  show (before collate (e.1.2, e.2) b && allows db account s scope e.1.2 && decide (e.1.1 = run)) = _
  rw [Bool.eq_iff_iff]
  simp only [Bool.and_eq_true, decide_eq_true_eq]
  exact ⟨fun h => ⟨h.2, h.1.2, h.1.1⟩, fun h => ⟨⟨h.2.2, h.2.1⟩, h.1⟩⟩

theorem empty_le (name : String) : "" ≤ name := by
  refine not_lt.mp fun h => ?_
  rw [String.lt_iff_toList_lt] at h
  exact List.not_lt_nil _ h

/-- The ends of the pages, in terms of the allowed candidates. -/
theorem aligned_iff_separates (h : IsCollation collate) (hunique : UniqueNames db) {size : ℕ} :
    Aligned (fun c : Uuid × Candidate => c.2.logicalName) size "" (allowedCandidates collate db account run s scope) ↔
      Separates collate db account run s scope size := by
  have hordered : (allowedCandidates collate db account run s scope).Pairwise
      fun a b => before collate a b = true ∧ before collate b a = false := (pairwise_listing h hunique).filter _
  have hrefl : ∀ a, before collate a a = true := fun a => h.refl a.2.logicalName
  rw [aligned_iff_of_ordered hrefl hordered]
  constructor
  · rintro ⟨hfirst, hagree⟩
    refine ⟨fun node c hc => ?_, fun node b hb hdvd hlater other c hc => ?_⟩
    · exact (ne_of_lt (hfirst (node, c) (mem_allowedCandidates.mpr hc))).symm
    · obtain ⟨later, d, hd, hover⟩ := hlater
      rw [← countP_allowedCandidates (node, b)] at hdvd
      exact hagree (node, b) (mem_allowedCandidates.mpr hb) hdvd ⟨(later, d), mem_allowedCandidates.mpr hd, hover⟩ (other, c)
        (mem_allowedCandidates.mpr hc)
  · rintro ⟨hnamed, hboundary⟩
    refine ⟨fun c hc => ?_, fun b hb hdvd hlater c hc => ?_⟩
    · exact lt_of_le_of_ne (empty_le _) (hnamed c.1 c.2 (mem_allowedCandidates.mp hc)).symm
    · obtain ⟨d, hd, hover⟩ := hlater
      rw [countP_allowedCandidates] at hdvd
      exact hboundary b.1 b.2 (mem_allowedCandidates.mp hb) hdvd ⟨d.1, d.2, mem_allowedCandidates.mp hd, hover⟩ c.1 c.2
        (mem_allowedCandidates.mp hc)

/-! ### Pages -/

/-- The size of a page is at least one, whatever limit is asked for. -/
theorem pageSize_pos (limit : ℤ) : 0 < pageSize limit := by
  unfold pageSize
  omega

theorem run_candidates (hopen : openSnapshot db account run = some s) (after : Option String) (limit : ℤ) :
    (candidatesInUow collate (.ok ()) scope account run after limit).run db = .ok
      (⟨(allowedCandidates collate db account run s scope).length,
        (page (fun c : Uuid × Candidate => c.2.logicalName) (pageSize limit) (after.getD "")
          (allowedCandidates collate db account run s scope)).2,
        (page (fun c : Uuid × Candidate => c.2.logicalName) (pageSize limit) (after.getD "")
          (allowedCandidates collate db account run s scope)).1⟩, db) := by
  unfold candidatesInUow
  rw [Tx.bind_ofExcept_ok]
  refine ⟨(), rfl, ?_⟩
  rw [Tx.bind_query_ok, Tx.bind_query_ok, Tx.bind_demand_ok]
  refine ⟨s, hopen, ?_⟩
  rfl

theorem follow_eq (hopen : openSnapshot db account run = some s) (limit : ℤ) (n : ℕ) (after : Option String) :
    follow collate (.ok ()) scope account run limit db n after =
      readPages (fun c : Uuid × Candidate => c.2.logicalName) (pageSize limit) (allowedCandidates collate db account run s scope) n
        (after.getD "") := by
  induction n generalizing after with
  | zero => rfl
  | succ n ih =>
      unfold follow readPages
      rw [run_candidates hopen]
      dsimp only
      cases (page (fun c : Uuid × Candidate => c.2.logicalName) (pageSize limit) (after.getD "")
          (allowedCandidates collate db account run s scope)).2 with
      | none => rfl
      | some next =>
          dsimp only
          rw [ih (some next)]
          rfl

theorem listsAllowed_iff {rows : List (Uuid × Candidate)} :
    ListsAllowed db account run s scope rows ↔ rows.Perm (allowedCandidates collate db account run s scope) := by
  have hnodup : (allowedCandidates collate db account run s scope).Nodup := nodup_listing.filter _
  constructor
  · rintro ⟨hrows, hmem⟩
    refine (List.perm_ext_iff_of_nodup hrows hnodup).mpr fun c => ?_
    rw [mem_allowedCandidates]
    exact hmem c.1 c.2
  · intro hperm
    refine ⟨hperm.nodup_iff.mpr hnodup, fun node c => ?_⟩
    rw [hperm.mem_iff, mem_allowedCandidates]

theorem enumerates_iff (hopen : openSnapshot db account run = some s) (limit : ℤ) :
    (∃ n rows, follow collate (.ok ()) scope account run limit db n none = some rows ∧ ListsAllowed db account run s scope rows) ↔
      Aligned (fun c : Uuid × Candidate => c.2.logicalName) (pageSize limit) "" (allowedCandidates collate db account run s scope) := by
  have hnodup : (allowedCandidates collate db account run s scope).Nodup := nodup_listing.filter _
  rw [← exhaustive_iff (pageSize_pos limit) hnodup]
  refine exists_congr fun n => exists_congr fun rows => ?_
  rw [follow_eq hopen, listsAllowed_iff]
  exact Iff.rfl

/-! ### A collation that ignores case -/

/-- A text with its capitals made small. -/
def small (name : String) : String := String.ofList (name.toList.map Char.toLower)

/-- A dictionary order: case counts only between texts that are otherwise equal. -/
def dictionary (a b : String) : Bool := small a < small b || small a = small b && a ≤ b

theorem dictionary_iff {a b : String} : dictionary a b = true ↔ small a < small b ∨ small a = small b ∧ a ≤ b := by
  unfold dictionary
  rw [Bool.or_eq_true, Bool.and_eq_true, decide_eq_true_eq, decide_eq_true_eq, decide_eq_true_eq]

theorem dictionary_isCollation : IsCollation dictionary := by
  refine ⟨fun a b => ?_, fun a b c hab hbc => ?_, fun a b hab hba => ?_⟩
  · rw [dictionary_iff, dictionary_iff]
    rcases lt_trichotomy (small a) (small b) with hlt | heq | hgt
    · exact .inl (.inl hlt)
    · exact (le_total a b).imp (fun h => .inr ⟨heq, h⟩) (fun h => .inr ⟨heq.symm, h⟩)
    · exact .inr (.inl hgt)
  · rw [dictionary_iff] at hab hbc ⊢
    rcases hab with hab | ⟨hab, hle⟩
    · rcases hbc with hbc | ⟨hbc, -⟩
      · exact .inl (lt_trans hab hbc)
      · exact .inl (hbc ▸ hab)
    · rw [hab]
      exact hbc.imp id fun h => ⟨h.1, le_trans hle h.2⟩
  · rw [dictionary_iff] at hab hba
    rcases hab with hab | ⟨hab, hle⟩
    · rcases hba with hba | ⟨hba, -⟩
      · exact absurd (lt_trans hab hba) (lt_irrefl _)
      · exact absurd (hba ▸ hab) (lt_irrefl _)
    · rcases hba with hba | ⟨-, hge⟩
      · exact absurd (hab ▸ hba) (lt_irrefl _)
      · exact le_antisymm hle hge

/-- The constraint, checked on the rows. -/
theorem uniqueNames_of_entries {db : ResourceStore δ} (h : ∀ e ∈ db.candidates.entries, ∀ e' ∈ db.candidates.entries,
    e.1.1 = e'.1.1 → e.2.logicalName = e'.2.logicalName → e.1.2 = e'.1.2) : UniqueNames db :=
  fun _ _ _ _ _ hc hc' hname => h _ (AList.mem_lookup_iff.mp hc) _ (AList.mem_lookup_iff.mp hc') rfl hname

/-- A workspace with the files `a.txt` and `B.txt`, both granted through the root and both candidates of the Run 9. -/
def mixedCase : ResourceStore Unit :=
  let file (name : String) (id : Uuid) : Node := ⟨1, 1, some 1, .file, name, small name, some id, none, false⟩
  let candidate (name : String) : Candidate := ⟨name, name, none, none, none, false⟩
  { catalog := {
      workspaces := fun account => if account = 1 then some 1 else none
      topologyVersions := fun _ => 1
      nodes := ((AList.singleton 1 ⟨1, 1, none, .directory, "", "", none, none, false⟩).insert 2 (file "a.txt" 4)).insert 3
        (file "B.txt" 5)
      files := ∅
      outputs := fun _ _ => false
      destinations := ∅
      revisions := ∅
      saveOperations := ∅
      versionOperations := ∅ }
    subjects := fun _ _ _ => true
    policyVersions := ∅
    grants := AList.singleton 6 ⟨1, .conversation, 7, 1, .listMetadata, true, 0, false⟩
    fileInfo := ∅
    workInputs := ∅
    runs := AList.singleton 9 ⟨1, .conversation, 7, true⟩
    snapshots := AList.singleton 9 ⟨1, .conversation, 7, 1, 1, true, 2, 500⟩
    candidates := (AList.singleton (9, 2) (candidate "a.txt")).insert (9, 3) (candidate "B.txt")
    runFiles := ∅
    attachments := ∅ }

theorem mixedCase_unique : UniqueNames mixedCase := uniqueNames_of_entries (by decide)

/-! ### The pages of a Run -/

/-- **Following the cursor always ends.  For a limit it lists every allowed candidate once exactly if the order of the database
and the code points agree at the ends of its pages; for all limits, exactly if they agree on all the names.** -/
theorem pages_enumerate_iff (hcollate : IsCollation collate) (hunique : UniqueNames db) (hopen : openSnapshot db account run = some s)
    (scope : Option (List Uuid)) :
    (∀ limit, (∃ n, (follow collate (.ok ()) scope account run limit db n none).isSome = true) ∧
      ((∃ n rows, follow collate (.ok ()) scope account run limit db n none = some rows ∧
        ListsAllowed db account run s scope rows) ↔ Separates collate db account run s scope (pageSize limit))) ∧
    ((∀ limit, ∃ n rows, follow collate (.ok ()) scope account run limit db n none = some rows ∧
        ListsAllowed db account run s scope rows) ↔
      (∀ node c, Allowed db account run s scope node c → c.logicalName ≠ "") ∧
      ∀ node node' c c', Allowed db account run s scope node c → Allowed db account run s scope node' c' →
        (collate c.logicalName c'.logicalName = true ↔ c.logicalName ≤ c'.logicalName)) := by
  refine ⟨fun limit => ⟨?_, ?_⟩, ?_⟩
  · refine ⟨(remaining (fun c : Uuid × Candidate => c.2.logicalName) "" (allowedCandidates collate db account run s scope)).length + 1, ?_⟩
    rw [follow_eq hopen]
    exact readPages_isSome (Nat.lt_succ_self _)
  · rw [enumerates_iff hopen, aligned_iff_separates hcollate hunique]
  · constructor
    · intro h
      -- with pages of one row every candidate but the last ends a page
      have hone : Separates collate db account run s scope 1 :=
        (aligned_iff_separates hcollate hunique).mp ((enumerates_iff hopen 1).mp (h 1))
      refine ⟨hone.named, fun node node' c c' hc hc' => ?_⟩
      by_cases hlater : ∃ later d, Allowed db account run s scope later d ∧ collate d.logicalName c'.logicalName = false
      · exact hone.boundary node' c' hc' (Nat.one_dvd _) hlater node c hc
      · have hup : collate c.logicalName c'.logicalName = true := by
          rw [← Bool.not_eq_false]
          exact fun hnot => hlater ⟨node, c, hc, hnot⟩
        refine iff_of_true hup ?_
        cases hback : collate c'.logicalName c.logicalName with
        | true => exact le_of_eq (hcollate.antisymm _ _ hup hback)
        | false =>
            have hrow := hone.boundary node c hc (Nat.one_dvd _) ⟨node', c', hc', hback⟩ node' c' hc'
            rw [hback] at hrow
            exact le_of_lt (not_le.mp fun hle => Bool.false_ne_true (hrow.mpr hle))
    · rintro ⟨hnamed, hagree⟩ limit
      rw [enumerates_iff hopen, aligned_iff_separates hcollate hunique]
      exact ⟨hnamed, fun node b hb _ _ other c hc => hagree other node c b hc hb⟩

theorem pages_enumerate_iff_dictionary :
    (∃ n, (follow dictionary (.ok ()) none 1 9 1 mixedCase n none).isSome = true) ∧
      ((∃ n rows, follow dictionary (.ok ()) none 1 9 1 mixedCase n none = some rows ∧
        ListsAllowed mixedCase 1 9 ⟨1, .conversation, 7, 1, 1, true, 2, 500⟩ none rows) ↔
        Separates dictionary mixedCase 1 9 ⟨1, .conversation, 7, 1, 1, true, 2, 500⟩ none 1) :=
  (pages_enumerate_iff dictionary_isCollation mixedCase_unique (by decide) none).1 1

/-- With pages of one row the second page of `mixedCase` is empty: `B.txt` comes after `a.txt` in the listing, and its code
points come before. -/
theorem pages_skip_candidate : IsCollation dictionary ∧ UniqueNames mixedCase ∧
    openSnapshot mixedCase 1 9 = some ⟨1, .conversation, 7, 1, 1, true, 2, 500⟩ ∧
      ¬∃ n rows, follow dictionary (.ok ()) none 1 9 1 mixedCase n none = some rows ∧
        ListsAllowed mixedCase 1 9 ⟨1, .conversation, 7, 1, 1, true, 2, 500⟩ none rows := by
  have hopen : openSnapshot mixedCase 1 9 = some ⟨1, .conversation, 7, 1, 1, true, 2, 500⟩ := by decide
  refine ⟨dictionary_isCollation, mixedCase_unique, hopen, fun hlists => ?_⟩
  have haligned := (enumerates_iff hopen 1).mp hlists
  have hrows : allowedCandidates dictionary mixedCase 1 9 ⟨1, .conversation, 7, 1, 1, true, 2, 500⟩ none =
      [(2, ⟨"a.txt", "a.txt", none, none, none, false⟩), (3, ⟨"B.txt", "B.txt", none, none, none, false⟩)] := by decide
  rw [hrows] at haligned
  have hafter := (haligned.boundary [] _ _ rfl (by decide) (by decide)).2 _ (List.mem_singleton.mpr rfl)
  exact absurd hafter (by decide)

end candidates

end HpAgent.Workspace
