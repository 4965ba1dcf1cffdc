import HpAgent.Library.Pairing
import HpAgent.Library.Cut
import HpAgent.Research.Selections
import Mathlib.Data.List.MinMax

/-! # The comparison with the report before

Every claim of a report takes in turn a claim of the report before that nobody took yet: one that says the same, else the
one that is most alike, if it is alike enough.  How alike two texts are (`SequenceMatcher`) is a parameter.

* `compare_complete`: every claim of either report is listed once, under the right heading, and no claim that is listed as
  new would have matched one that is listed as gone.
* `compare_exact`: where nothing else is like a statement, as many of its claims are matched as both reports have.
* `report_again`: the section can be written anew, and the text before it stays but for a heading line that it ends in. -/

namespace HpAgent.Research

open Library Requirements

/-- The evidence of a claim in a snapshot. -/
structure Cited where
  evidenceId : List Char
  sourceId : List Char
  canonicalUri : List Char
  contentHash : Option (List Char)
deriving DecidableEq

/-- A claim in a snapshot. -/
structure SnapshotClaim where
  claimId : List Char
  statement : List Char
  importance : List Char
  evidence : List Cited
deriving DecidableEq

structure Diff where
  new : List SnapshotClaim
  changed : List (SnapshotClaim × SnapshotClaim)
  continuing : List (SnapshotClaim × SnapshotClaim)
  invalidated : List SnapshotClaim

/-- `[^\w]+`. -/
def nonWords (u : Unicode) : Matcher := fun _ s => some (run (fun c => !u.word c) s)

section Compare

variable {R : Type} [LinearOrder R] (u : Unicode) (ratio : List Char → List Char → R) (limit : R)
variable {unmatched : List SnapshotClaim}

def claimKey (statement : List Char) : List Char := strip (sub (nonWords u) [' '] (u.casefold statement))

/-- How alike the keys of two claims are. -/
def alike (claim old : SnapshotClaim) : R := ratio (claimKey u claim.statement) (claimKey u old.statement)

/-- What a claim is matched with. -/
def bestMatch (claim : SnapshotClaim) (unmatched : List SnapshotClaim) : Option SnapshotClaim :=
  match unmatched.find? fun old => claimKey u old.statement = claimKey u claim.statement with
  | some exact => some exact
  | none =>
      match unmatched.argmax (alike u ratio claim) with
      | some candidate => if limit ≤ alike u ratio claim candidate then some candidate else none
      | none => none

def sources (claim : SnapshotClaim) : List (List Char × Option (List Char)) :=
  claim.evidence.map fun item => (item.canonicalUri, item.contentHash)

/-- The two sets of sources are equal. -/
def sameSources (claim old : SnapshotClaim) : Bool :=
  (sources claim).all (· ∈ sources old) && (sources old).all (· ∈ sources claim)

/-- The statement and the sources are the same. -/
def continues (p : SnapshotClaim × SnapshotClaim) : Bool :=
  claimKey u p.2.statement = claimKey u p.1.statement && sameSources p.1 p.2

/-- One round of the loop; `invalidated` is what is not matched yet. -/
def compareStep (diff : Diff) (claim : SnapshotClaim) : Diff :=
  match bestMatch u ratio limit claim diff.invalidated with
  | none => { diff with new := diff.new ++ [claim] }
  | some best =>
      let unmatched := diff.invalidated.erase best
      if continues u (claim, best) then
        { diff with continuing := diff.continuing ++ [(claim, best)], invalidated := unmatched }
      else { diff with changed := diff.changed ++ [(claim, best)], invalidated := unmatched }

/-- `compare_previous_report`, of the claims of both reports. -/
def comparePrevious (current prior : List SnapshotClaim) : Diff :=
  current.foldl (compareStep u ratio limit) ⟨[], [], [], prior⟩

/-! ### The loop pairs the claims -/

variable {u ratio limit}

/-- The diff that the loop goes on to from `diff` when the rest of the claims is paired so. -/
def Diff.extend (diff : Diff) (p : Paired SnapshotClaim SnapshotClaim) : Diff where
  new := diff.new ++ p.alone
  changed := diff.changed ++ p.pairs.filter fun q => !continues u q
  continuing := diff.continuing ++ p.pairs.filter (continues u)
  invalidated := p.rest

theorem foldl_compareStep (current : List SnapshotClaim) (diff : Diff) :
    current.foldl (compareStep u ratio limit) diff =
      diff.extend (u := u) (pair (bestMatch u ratio limit) current diff.invalidated) := by
  induction current generalizing diff with
  | nil => simp [pair, Diff.extend]
  | cons claim current ih =>
      rw [List.foldl_cons, ih]
      cases hbest : bestMatch u ratio limit claim diff.invalidated with
      | none =>
          have hstep : compareStep u ratio limit diff claim = { diff with new := diff.new ++ [claim] } := by
            simp only [compareStep, hbest]
          rw [hstep, pair_none hbest]
          simp [Diff.extend]
      | some best =>
          rw [pair_some hbest]
          by_cases hsame : continues u (claim, best)
          · have hstep : compareStep u ratio limit diff claim =
                { diff with continuing := diff.continuing ++ [(claim, best)], invalidated := diff.invalidated.erase best } := by
              simp only [compareStep, hbest, hsame, if_true]
            rw [hstep]
            simp [Diff.extend, hsame]
          · have hstep : compareStep u ratio limit diff claim =
                { diff with changed := diff.changed ++ [(claim, best)], invalidated := diff.invalidated.erase best } := by
              simp only [compareStep, hbest, if_neg hsame]
            rw [hstep]
            simp [Diff.extend, hsame]

/-- The comparison is the pairing, the pairs taken apart. -/
theorem comparePrevious_eq (current prior : List SnapshotClaim) :
    comparePrevious u ratio limit current prior =
      (⟨[], [], [], prior⟩ : Diff).extend (u := u) (pair (bestMatch u ratio limit) current prior) :=
  foldl_compareStep current _

/-! ### What is matched -/

/-- Two claims say the same, or are alike enough. -/
def Similar (u : Unicode) (ratio : List Char → List Char → R) (limit : R) (claim old : SnapshotClaim) : Prop :=
  claimKey u old.statement = claimKey u claim.statement ∨ limit ≤ alike u ratio claim old

theorem bestMatch_some {claim old : SnapshotClaim}
    (h : bestMatch u ratio limit claim unmatched = some old) : old ∈ unmatched ∧ Similar u ratio limit claim old := by
  unfold bestMatch at h
  split at h
  next exact hfind =>
    injection h with hexact
    subst hexact
    exact ⟨List.mem_of_find?_eq_some hfind, .inl (by simpa using List.find?_some hfind)⟩
  next hfind =>
    split at h
    next candidate hmax =>
      split_ifs at h with hlimit
      injection h with hcandidate
      subst hcandidate
      exact ⟨List.argmax_mem hmax, .inr hlimit⟩
    next => cases h

theorem bestMatch_none {claim : SnapshotClaim}
    (h : bestMatch u ratio limit claim unmatched = none) : ∀ old ∈ unmatched, ¬Similar u ratio limit claim old := by
  unfold bestMatch at h
  split at h
  next => cases h
  next hfind =>
    intro old hold hsimilar
    cases hsimilar with
    | inl hkey => exact List.find?_eq_none.mp hfind old hold (by simpa using hkey)
    | inr hlimit =>
        split at h
        next candidate hmax =>
          split_ifs at h with hcandidate
          exact hcandidate (hlimit.trans (List.le_of_mem_argmax hold hmax))
        next hmax =>
          rw [List.argmax_eq_none.mp hmax] at hold
          cases hold

/-- A claim takes one with its own key where there is one. -/
theorem bestMatch_exact {claim : SnapshotClaim}
    (h : ∃ old ∈ unmatched, claimKey u old.statement = claimKey u claim.statement) :
    ∃ old, bestMatch u ratio limit claim unmatched = some old ∧ claimKey u old.statement = claimKey u claim.statement := by
  cases hfind : unmatched.find? fun old => claimKey u old.statement = claimKey u claim.statement with
  | none =>
      obtain ⟨old, hold, hkey⟩ := h
      exact absurd hkey (by simpa using List.find?_eq_none.mp hfind old hold)
  | some exact =>
      refine ⟨exact, ?_, by simpa using List.find?_some hfind⟩
      simp only [bestMatch, hfind]

theorem bestMatch_picks : Picks (bestMatch u ratio limit) := fun _ _ _ h => (bestMatch_some h).1

theorem perm_filter_map {α β : Type} (p : α → Bool) (f : α → β) (l : List α) :
    ((l.filter fun x => !p x).map f ++ (l.filter p).map f).Perm (l.map f) := by
  rw [← List.map_append]
  exact (List.perm_append_comm.trans (List.filter_append_perm p l)).map f

/-- Every claim of the report is new, changed or continuing, and every claim of the report before is matched by one of
these or gone, all of them once.  A pair is continuing if the statement and the sources are the same, else changed; its
claims say the same or are alike enough, and nothing new is so with anything that is gone. -/
theorem compare_complete (u : Unicode) (ratio : List Char → List Char → R) (limit : R) (current prior : List SnapshotClaim) :
    let diff := comparePrevious u ratio limit current prior
    (diff.new ++ (diff.changed.map Prod.fst ++ diff.continuing.map Prod.fst)).Perm current ∧
    (diff.invalidated ++ (diff.changed.map Prod.snd ++ diff.continuing.map Prod.snd)).Perm prior ∧
    (∀ p ∈ diff.continuing, claimKey u p.2.statement = claimKey u p.1.statement ∧
      ∀ x, x ∈ sources p.1 ↔ x ∈ sources p.2) ∧
    (∀ p ∈ diff.changed, Similar u ratio limit p.1 p.2 ∧
      (claimKey u p.2.statement = claimKey u p.1.statement → ¬∀ x, x ∈ sources p.1 ↔ x ∈ sources p.2)) ∧
    ∀ claim ∈ diff.new, ∀ old ∈ diff.invalidated, ¬Similar u ratio limit claim old := by
  have hcurrent := pair_current (bestMatch u ratio limit) current prior
  have hpicks : Picks (bestMatch u ratio limit) := bestMatch_picks
  have hprior := pair_previous hpicks current prior
  have hpairs := pair_all (bestMatch u ratio limit) (P := Similar u ratio limit)
    (fun _ _ _ h => (bestMatch_some h).2) current prior
  have hmaximal := pair_maximal (bestMatch u ratio limit) (P := Similar u ratio limit)
    (fun _ _ h => bestMatch_none h) current prior
  have hsources : ∀ p : SnapshotClaim × SnapshotClaim, sameSources p.1 p.2 = true ↔ ∀ x, x ∈ sources p.1 ↔ x ∈ sources p.2 := by
    intro p
    simp only [sameSources, Bool.and_eq_true, List.all_eq_true, decide_eq_true_eq]
    exact ⟨fun h x => ⟨h.1 x, h.2 x⟩, fun h => ⟨fun x => (h x).mp, fun x => (h x).mpr⟩⟩
  dsimp only
  rw [comparePrevious_eq]
  simp only [Diff.extend, List.nil_append]
  refine ⟨?_, ?_, ?_, ?_, hmaximal⟩
  · exact ((perm_filter_map (continues u) Prod.fst _).append_left _).trans hcurrent
  · exact ((perm_filter_map (continues u) Prod.snd _).append_left _).trans hprior
  · intro p hp
    have hcontinues := (List.mem_filter.mp hp).2
    simp only [continues, Bool.and_eq_true, decide_eq_true_eq] at hcontinues
    exact ⟨hcontinues.1, (hsources p).mp hcontinues.2⟩
  · intro p hp
    obtain ⟨hmem, hnot⟩ := List.mem_filter.mp hp
    refine ⟨hpairs p hmem, ?_⟩
    intro hkey hsame
    have hcontinues : continues u p = true := by
      simp only [continues, Bool.and_eq_true, decide_eq_true_eq]
      exact ⟨hkey, (hsources p).mpr hsame⟩
    rw [hcontinues] at hnot
    cases hnot

/-- How many claims say this. -/
def saying (u : Unicode) (k : List Char) (claims : List SnapshotClaim) : ℕ :=
  claims.countP fun claim => claimKey u claim.statement = k

/-- How many pairs of claims say this on both sides. -/
def bothSaying (u : Unicode) (k : List Char) (pairs : List (SnapshotClaim × SnapshotClaim)) : ℕ :=
  pairedUnder (fun claim => claimKey u claim.statement) (fun claim => claimKey u claim.statement) k pairs

theorem pairedUnder_filter (k : List Char) (p : SnapshotClaim × SnapshotClaim → Bool)
    (pairs : List (SnapshotClaim × SnapshotClaim)) :
    bothSaying u k (pairs.filter fun q => !p q) + bothSaying u k (pairs.filter p) = bothSaying u k pairs := by
  unfold bothSaying pairedUnder
  rw [← List.countP_append]
  exact (List.perm_append_comm.trans (List.filter_append_perm p pairs)).countP_eq _

/-- Where no other claim of the report is like a statement, its claims are matched with one another: as many pairs say it on
both sides as both reports have of it. -/
theorem compare_exact {u : Unicode} {ratio : List Char → List Char → R} {limit : R} (k : List Char)
    (current prior : List SnapshotClaim)
    (hother : ∀ claim ∈ current, claimKey u claim.statement ≠ k → ratio (claimKey u claim.statement) k < limit) :
    let diff := comparePrevious u ratio limit current prior
    bothSaying u k diff.changed + bothSaying u k diff.continuing = min (saying u k current) (saying u k prior) := by
  have hkeeps : Keeps (bestMatch u ratio limit) (fun claim => claimKey u claim.statement)
      (fun claim => claimKey u claim.statement) k current := by
    constructor
    · intro claim _ unmatched hkey hthere
      subst hkey
      exact bestMatch_exact hthere
    · intro claim hclaim unmatched old hbest hkey
      by_contra hne
      cases (bestMatch_some hbest).2 with
      | inl hsame => exact hne (hsame.symm.trans hkey)
      | inr hlimit =>
          rw [alike, hkey] at hlimit
          exact absurd (hother claim hclaim hne) (not_lt_of_ge hlimit)
  have hcount := pair_count bestMatch_picks current prior hkeeps
  dsimp only
  rw [comparePrevious_eq]
  simp only [Diff.extend, List.nil_append]
  rw [pairedUnder_filter]
  exact hcount

/-- Two claims of the report say what one of the report before says, and a third has no letter in common with them. -/
theorem compare_exact_repeated :
    let ratio := fun a b : List Char => if a = b then 10 else 0
    let claim := fun id statement : String => SnapshotClaim.mk id.toList statement.toList "normal".toList []
    let diff := comparePrevious asciiTables ratio 6 [claim "1" "xyz", claim "2" "Age.", claim "3" "(age)"] [claim "4" "AGE"]
    bothSaying asciiTables "age".toList diff.changed + bothSaying asciiTables "age".toList diff.continuing = min 2 1 := by
  intro ratio claim diff
  exact compare_exact "age".toList [claim "1" "xyz", claim "2" "Age.", claim "3" "(age)"] [claim "4" "AGE"] (by decide +kernel)

end Compare

/-! ### The section of the report -/

/-- `rstrip()`. -/
def rstrip (s : List Char) : List Char := s.rdropWhile isSpace

/-- The heading of the section. -/
def dailyDiff : List Char := "## Daily Diff".toList

/-- The lines under one label. -/
def sectionLines (label : String) (statements : List (List Char)) : List (List Char) :=
  ("### " ++ label).toList :: (statements.map fun s => "- ".toList ++ s) ++ if statements = [] then ["- 无".toList] else []

def Diff.lines (diff : Diff) : List (List Char) :=
  dailyDiff :: (sectionLines "新增" (diff.new.map (·.statement)) ++ sectionLines "变化" (diff.changed.map (·.1.statement)) ++
    sectionLines "持续关注" (diff.continuing.map (·.1.statement)) ++
    sectionLines "失效 / 撤回" (diff.invalidated.map (·.statement)))

/-- `"\n## Daily Diff\n"`. -/
def diffMarker : List Char := '\n' :: dailyDiff ++ ['\n']

/-- The text of the report with its section. -/
def reportMarkdown (markdown : List Char) (diff : Diff) : List Char :=
  rstrip (cut diffMarker markdown) ++ "\n\n".toList ++ List.intercalate ['\n'] diff.lines ++ ['\n']

theorem rstrip_begins (s : List Char) : rstrip s <+: s := List.rdropWhile_prefix _ _

theorem rstrip_newline (s : List Char) : rstrip (rstrip s ++ ['\n']) = rstrip s := by
  rw [rstrip, List.rdropWhile_concat_pos _ _ _ (by decide)]
  exact List.rdropWhile_idempotent _ _

/-- The section stands behind an empty line, and its heading is followed by more lines. -/
theorem reportMarkdown_eq (markdown : List Char) (diff : Diff) :
    ∃ rest, reportMarkdown markdown diff =
      rstrip (cut diffMarker markdown) ++ '\n' :: ('\n' :: dailyDiff ++ ['\n'] ++ rest) := by
  have hlines : ∃ line more, diff.lines = dailyDiff :: line :: more := ⟨_, _, rfl⟩
  obtain ⟨line, more, hlines⟩ := hlines
  refine ⟨List.intercalate ['\n'] (line :: more) ++ ['\n'], ?_⟩
  unfold reportMarkdown
  rw [hlines, List.intercalate_cons_cons]
  simp only [List.append_assoc, List.cons_append, List.nil_append]
  rfl

/-- The section is replaced by a later one, and what stands before it is kept, if and only if this does not end in a line
that is the heading: such a line is cut off with the section. -/
theorem report_again (markdown : List Char) (diff diff' : Diff) :
    (reportMarkdown (reportMarkdown markdown diff) diff' = reportMarkdown markdown diff' ↔
      ¬ '\n' :: dailyDiff <:+ rstrip (cut diffMarker markdown)) ∧
    ∀ start, rstrip (cut diffMarker markdown) = start ++ '\n' :: dailyDiff →
      reportMarkdown (reportMarkdown markdown diff) diff' =
        rstrip start ++ "\n\n".toList ++ List.intercalate ['\n'] diff'.lines ++ ['\n'] := by
  obtain ⟨rest, hreport⟩ := reportMarkdown_eq markdown diff
  have hfree : Unmarked diffMarker (rstrip (cut diffMarker markdown)) := (cut_unmarked _ _).beginning (rstrip_begins _)
  generalize hbody : rstrip (cut diffMarker markdown) = body at hreport hfree
  have hended : ∀ start, body = start ++ '\n' :: dailyDiff → cut diffMarker (reportMarkdown markdown diff) = start := by
    rintro start rfl
    rw [hreport, List.append_assoc]
    exact cut_ended ('\n' :: dailyDiff ++ ['\n'] ++ rest) hfree
  refine ⟨⟨?_, ?_⟩, ?_⟩
  · rintro hsame ⟨start, hstart⟩
    have hbodies : rstrip (cut diffMarker (reportMarkdown markdown diff)) = body := by
      unfold reportMarkdown at hsame ⊢
      rw [hbody] at hsame ⊢
      exact List.append_cancel_right (List.append_cancel_right (List.append_cancel_right hsame))
    rw [hended start hstart.symm] at hbodies
    have hle := (rstrip_begins start).length_le
    rw [hbodies, ← hstart, List.length_append, List.length_cons] at hle
    omega
  · intro hend
    have hcut : cut diffMarker (reportMarkdown markdown diff) = body ++ ['\n'] := by
      rw [hreport]
      exact cut_framed (by decide) (by decide) rest hfree hend
    have hbodies : rstrip (cut diffMarker (reportMarkdown markdown diff)) = body := by
      rw [hcut, ← hbody, rstrip_newline]
    rw [reportMarkdown, hbodies, reportMarkdown, hbody]
  · intro start hstart
    rw [reportMarkdown, hended start hstart]

end HpAgent.Research
