import HpAgent.Research.Passages
import Mathlib.Algebra.BigOperators.Group.List.Basic

/-! # What the selection returns

* `Source.step_spec`: what one round of the loop can do.
* `Source.rounds_lt`: a round lowers the number of rounds that can follow.
* `Good.step`: what every round keeps of the passages taken.
* `Untouched.step`: while nothing is taken, every passage that is gone was turned down.
* `evidence_spans_selects`: the result. -/

namespace HpAgent.Research

open Library Requirements

variable (u : Unicode) (S : Source) {maxSpans : ℕ} {shared : Option Span} {st : Selection} {st' : Selection}

/-! ### One round -/

/-- The units inside a passage that are not all of it. -/
def Source.smaller (s : Span) : List Span :=
  S.units.filter fun v => inside v s && (v.start, v.stop) ≠ (s.start, s.stop)

/-- What a round makes of the best passage. -/
inductive Source.Round (shared : Option Span) (st : Selection) (best : Span) : Selection → Prop
  | divided (more : List Span) (hsub : more.Sublist (S.smaller best))
      (hwhy : st.chosen ≠ [] ∨ (more = S.smaller best ∧ st.remaining < size S.text best)) :
      Source.Round shared st best { st with candidates := addNew st.candidates more }
  | passed (hwhy : st.chosen ≠ [] ∨ S.offTopic u shared st.covered best = true ∨ S.bare best = true ∨
      normalized u (fragment S.text best) = [] ∨ normalized u (fragment S.text best) ∈ st.seen) :
      Source.Round shared st best st
  | taken (seen covered : List (List Char)) (hapart : ∀ c ∈ st.chosen, overlaps best c = false)
      (hfits : size S.text best ≤ st.remaining) :
      Source.Round shared st best
        ⟨st.candidates, st.chosen ++ [best], seen, covered, st.remaining - size S.text best, st.context⟩

variable {u S}

theorem Source.consider_round (shared : Option Span) (st : Selection) (best : Span) :
    S.Round u shared st best (S.consider u shared st best) := by
  unfold Source.consider
  extract_lets text hits apart smaller
  split_ifs with hoverlap hoff hmiss hbare hseen hsize
  · obtain ⟨c, hc, hbest⟩ := List.any_eq_true.mp hoverlap
    refine .divided apart ?_ (.inl (List.ne_nil_of_mem hc))
    apply List.monotone_filter_right
    intro v hv
    rw [Bool.and_eq_true] at hv ⊢
    refine ⟨hv.1, ?_⟩
    -- the whole of the passage overlaps what the passage overlaps
    rw [decide_eq_true_eq]
    intro heq
    rw [Prod.mk.injEq] at heq
    have hv' : overlaps v c = true := by
      simp only [overlaps, heq.1, heq.2] at hbest ⊢
      exact hbest
    have hany : st.chosen.any (overlaps v) = true := List.any_eq_true.mpr ⟨c, hc, hv'⟩
    rw [hany] at hv
    exact absurd hv.2 (by simp)
  · exact .passed (.inr (.inl hoff))
  · exact .passed (.inl hmiss.2.2.2)
  · exact .passed (.inr (.inr (.inl hbare)))
  · exact .passed (.inr (.inr (.inr hseen)))
  · exact .divided smaller (List.Sublist.refl _) (.inr ⟨rfl, hsize⟩)
  all_goals
    refine .taken _ _ ?_ (by omega)
    intro c hc
    have hnone := List.any_eq_false.mp (Bool.not_eq_true _ ▸ hoverlap) c hc
    exact Bool.eq_false_iff.mpr hnone

theorem Source.best_mem (covered : List (List Char)) (first : Span) (rest : List Span) :
    S.best u covered first rest ∈ first :: rest := by
  unfold Source.best
  induction rest generalizing first with
  | nil => exact List.mem_singleton_self first
  | cons c rest ih =>
      rw [List.foldl_cons]
      split_ifs with hless
      · exact List.mem_cons_of_mem first (ih c)
      · cases List.mem_cons.mp (ih first) with
        | inl heq =>
            rw [heq]
            exact List.mem_cons_self
        | inr htail => exact List.mem_cons_of_mem first (List.mem_cons_of_mem c htail)

/-- What one turn of the loop does. -/
theorem Source.step_spec (h : S.step u maxSpans shared st = some st') :
    ∃ best ∈ st.candidates, st.chosen.length < maxSpans ∧
      S.Round u shared { st with candidates := st.candidates.erase best, context := none } best st' := by
  unfold Source.step at h
  split at h
  next => exact absurd h (by simp)
  next first rest hcandidates =>
    split_ifs at h with hroom
    have hround := Option.some.inj h
    subst hround
    refine ⟨_, ?_, hroom, Source.consider_round _ _ _⟩
    rw [hcandidates]
    split
    · split_ifs with hc
      · exact hc
      · exact Source.best_mem _ _ _
    · exact Source.best_mem _ _ _

theorem Source.step_none (h : S.step u maxSpans shared st = none) :
    st.candidates = [] ∨ maxSpans ≤ st.chosen.length := by
  unfold Source.step at h
  split at h
  next hcandidates => exact .inl hcandidates
  next =>
    split_ifs at h with hroom
    exact .inr (Nat.le_of_not_lt hroom)

/-! ### Candidates -/

theorem mem_addNew {candidates more : List Span} {s : Span} : s ∈ addNew candidates more ↔ s ∈ candidates ∨ s ∈ more := by
  unfold addNew
  induction more generalizing candidates with
  | nil => simp
  | cons v more ih =>
      rw [List.foldl_cons, ih, List.mem_cons]
      split_ifs with hv
      · constructor
        · intro h
          cases h with
          | inl h => exact .inl h
          | inr h => exact .inr (.inr h)
        · rintro (h | rfl | h)
          · exact .inl h
          · exact .inl hv
          · exact .inr h
      · rw [List.mem_append, List.mem_singleton, or_assoc]

/-- How many rounds a passage can take: its own, and those of the units in it. -/
def Source.weight (S : Source) (s : Span) : ℕ := 1 + (S.smaller s).length

/-- How many rounds the candidates can take. -/
def Source.rounds (S : Source) (candidates : List Span) : ℕ := (candidates.map S.weight).sum

theorem Source.rounds_addNew {candidates more : List Span} (hmore : ∀ v ∈ more, S.weight v = 1) :
    S.rounds (addNew candidates more) ≤ S.rounds candidates + more.length := by
  unfold addNew
  induction more generalizing candidates with
  | nil => simp
  | cons v more ih =>
      rw [List.foldl_cons, List.length_cons]
      have hrest := fun cs => @ih cs fun w hw => hmore w (List.mem_cons_of_mem v hw)
      split_ifs with hv
      · have := hrest candidates
        omega
      · have hstep := hrest (candidates ++ [v])
        have hone := hmore v List.mem_cons_self
        have hsum : S.rounds (candidates ++ [v]) = S.rounds candidates + 1 := by
          simp only [Source.rounds, List.map_append, List.map_cons, List.map_nil, List.sum_append, List.sum_cons, List.sum_nil,
            hone, Nat.add_zero]
        omega

theorem Source.rounds_erase {candidates : List Span} {best : Span} (h : best ∈ candidates) :
    S.rounds candidates = S.weight best + S.rounds (candidates.erase best) := by
  have hperm := (List.perm_cons_erase h).map S.weight
  unfold Source.rounds
  rw [hperm.sum_nat, List.map_cons, List.sum_cons]

/-! ### Units inside units -/

/-- The units of the source are laid out in its text. -/
def Source.Sound (S : Source) (limit : ℕ) : Prop := Laid S.text limit 0 S.text.length S.units

variable {limit : ℕ}

theorem Source.Sound.unit (hS : S.Sound limit) {v : Span} (hv : v ∈ S.units) :
    v.start < v.stop ∧ v.stop ≤ S.text.length ∧ v.stop - v.start ≤ limit ∧ Visible (fragment S.text v) := by
  have hin := hS.follow.inside v.place (List.mem_map_of_mem hv)
  exact ⟨hin.2.1, hin.2.2, hS.short v hv, hS.visible v hv⟩

/-- Two units are the same or one of them comes first. -/
theorem Source.Sound.apart (hS : S.Sound limit) {v w : Span} (hv : v ∈ S.units) (hw : w ∈ S.units) :
    v = w ∨ v.stop ≤ w.start ∨ w.stop ≤ v.start := by
  have hpair := List.pairwise_map.mp hS.follow.ordered
  obtain ⟨before, after, hunits⟩ := List.append_of_mem hv
  rw [hunits] at hpair hw
  have happend := List.pairwise_append.mp hpair
  cases List.mem_append.mp hw with
  | inl hbefore => exact .inr (.inr (happend.2.2 w hbefore v List.mem_cons_self))
  | inr hrest =>
      cases List.mem_cons.mp hrest with
      | inl heq => exact .inl heq.symm
      | inr hafter => exact .inr (.inl ((List.pairwise_cons.mp happend.2.1).1 w hafter))

/-- No unit is inside another. -/
theorem Source.Sound.weight_unit (hS : S.Sound limit) {v : Span} (hv : v ∈ S.units) : S.weight v = 1 := by
  have hnone : S.smaller v = [] := by
    apply List.filter_eq_nil_iff.mpr
    intro w hw hin
    rw [Bool.and_eq_true, inside, Bool.and_eq_true] at hin
    simp only [decide_eq_true_eq] at hin
    have hvplace := (hS.unit hv).1
    have hwplace := (hS.unit hw).1
    rcases hS.apart hv hw with rfl | h | h
    · exact hin.2 rfl
    · omega
    · omega
  rw [Source.weight, hnone]
  rfl

theorem mem_smaller {s v : Span} (h : v ∈ S.smaller s) : v ∈ S.units := List.mem_of_mem_filter h

/-- Every round lowers the number of rounds that can follow. -/
theorem Source.Sound.rounds_lt (hS : S.Sound limit)
    (h : S.step u maxSpans shared st = some st') : S.rounds st'.candidates < S.rounds st.candidates := by
  obtain ⟨best, hbest, -, hround⟩ := Source.step_spec h
  have herase := Source.rounds_erase (S := S) hbest
  have hweight : S.weight best = 1 + (S.smaller best).length := rfl
  cases hround with
  | divided more hsub hwhy =>
      have hunit : ∀ v ∈ more, S.weight v = 1 := fun v hv => hS.weight_unit (mem_smaller (hsub.subset hv))
      have hadd := @Source.rounds_addNew _ (st.candidates.erase best) _ hunit
      have hlength := hsub.length_le
      dsimp only
      omega
  | passed hwhy =>
      dsimp only
      omega
  | taken seen covered hapart hfits =>
      dsimp only
      omega

/-! ### What is taken -/

/-- A run of whole units that is no longer than the limit. -/
def Source.Passage (S : Source) (limit : ℕ) (s : Span) : Prop := Whole S.text S.units s ∧ s.stop - s.start ≤ limit

theorem Source.Sound.passage (hS : S.Sound limit) {s : Span} (hs : S.Passage limit s) :
    s.start < s.stop ∧ s.stop ≤ S.text.length ∧ Visible (fragment S.text s) := by
  obtain ⟨⟨before, first, more, after, last, hunits, hstart, -, hlast, hstop, -⟩, -⟩ := hs
  have hmem {v : Span} (hv : v ∈ first :: more) : v ∈ S.units := by
    rw [hunits]
    exact List.mem_append_left after (List.mem_append_right before hv)
  have hfirst := hS.unit (hmem List.mem_cons_self)
  have hend := hS.unit (hmem (List.mem_of_getLast? hlast))
  have horder : first.stop ≤ last.stop := by
    cases more with
    | nil =>
        rw [List.getLast?_singleton, Option.some.injEq] at hlast
        rw [hlast]
    | cons next more =>
        have hpair := List.pairwise_map.mp hS.follow.ordered
        rw [hunits] at hpair
        have hrun := (List.pairwise_append.mp (List.pairwise_append.mp hpair).1).2.1
        rw [List.getLast?_cons_cons] at hlast
        have hle : first.stop ≤ last.start := (List.pairwise_cons.mp hrun).1 last (List.mem_of_getLast? hlast)
        omega
  have hbegin : fragment S.text first <+: fragment S.text s := by
    rw [fragment, fragment, slice, slice, List.drop_take, List.drop_take, hstart]
    apply List.take_prefix_take_left
    omega
  refine ⟨by omega, by omega, ?_⟩
  obtain ⟨c, hc, hspace⟩ := hfirst.2.2.2
  obtain ⟨rest, hrest⟩ := hbegin
  refine ⟨c, ?_, hspace⟩
  rw [← hrest, List.head?_append, hc]
  rfl

/-- What every round keeps. -/
structure Good (S : Source) (limit maxSpans maxBytes : ℕ) (st : Selection) : Prop where
  candidates : ∀ s ∈ st.candidates, S.Passage limit s
  chosen : ∀ s ∈ st.chosen, S.Passage limit s
  apart : st.chosen.Pairwise fun s t => overlaps s t = false
  count : st.chosen.length ≤ maxSpans
  bytes : (st.chosen.map (size S.text)).sum + st.remaining = maxBytes

theorem overlaps_comm (s t : Span) : overlaps s t = overlaps t s := by
  unfold overlaps
  exact Bool.and_comm _ _

theorem Good.step (hS : S.Sound limit) {maxBytes : ℕ}
    (hgood : Good S limit maxSpans maxBytes st) (h : S.step u maxSpans shared st = some st') :
    Good S limit maxSpans maxBytes st' := by
  obtain ⟨best, hbest, hroom, hround⟩ := Source.step_spec h
  have herased : ∀ s ∈ st.candidates.erase best, S.Passage limit s := fun s hs =>
    hgood.candidates s (List.mem_of_mem_erase hs)
  cases hround with
  | divided more hsub hwhy =>
      refine ⟨?_, hgood.chosen, hgood.apart, hgood.count, hgood.bytes⟩
      intro s hs
      cases mem_addNew.mp hs with
      | inl hold => exact herased s hold
      | inr hnew =>
          have hunit := mem_smaller (hsub.subset hnew)
          exact ⟨Whole.unit hunit, (hS.unit hunit).2.2.1⟩
  | passed hwhy => exact ⟨herased, hgood.chosen, hgood.apart, hgood.count, hgood.bytes⟩
  | taken seen covered hapart hfits =>
      refine ⟨herased, ?_, ?_, ?_, ?_⟩
      · apply List.forall_mem_append.mpr ⟨hgood.chosen, ?_⟩
        exact List.forall_mem_singleton.mpr (hgood.candidates best hbest)
      · apply List.pairwise_append.mpr ⟨hgood.apart, List.pairwise_singleton _ best, ?_⟩
        intro s hs t ht
        rw [List.mem_singleton] at ht
        rw [ht, overlaps_comm]
        exact hapart s hs
      · dsimp only
        rw [List.length_append, List.length_singleton]
        exact hroom
      · have hbytes := hgood.bytes
        simp only [List.map_append, List.map_cons, List.map_nil, List.sum_append, List.sum_cons, List.sum_nil] at hfits ⊢
        omega

/-! ### What is turned down -/

theorem strip_ne_nil {s : List Char} {c : Char} (hc : c ∈ s) (hspace : isSpace c = false) : strip s ≠ [] := by
  intro hnil
  have hall := List.rdropWhile_eq_nil_iff.mp hnil
  rw [← List.takeWhile_append_dropWhile (p := isSpace) (l := s)] at hc
  have htrue : isSpace c = true := by
    cases List.mem_append.mp hc with
    | inl h => exact List.mem_takeWhile_imp h
    | inr h => exact hall c h
  rw [htrue] at hspace
  exact absurd hspace (by simp)

theorem casefold_ne_nil {s : List Char} (h : s ≠ []) : u.casefold s ≠ [] := by
  cases s with
  | nil => exact absurd rfl h
  | cons c s => simp [Unicode.casefold, u.fold_ne]

/-- A text with something in it has something in it when it is normalized. -/
theorem normalized_ne_nil {s : List Char} (h : Visible s) : normalized u s ≠ [] := by
  obtain ⟨c, hc, hspace⟩ := h
  obtain ⟨rest, rfl⟩ : ∃ rest, s = c :: rest := by
    cases s with
    | nil => exact absurd hc (by simp)
    | cons d rest =>
        rw [List.head?_cons, Option.some.injEq] at hc
        exact ⟨rest, by rw [hc]⟩
  have hzero : run isSpace (c :: rest) = 0 := by
    rw [run, List.takeWhile_cons_of_neg (by simp [hspace])]
    rfl
  have hspans : spans (fun _ t => some (run isSpace t)) (c :: rest)
      = finditer (fun _ t => some (run isSpace t)) (some c) 0 1 rest := by
    rw [spans, finditer, hzero]
  have hfits : Matcher.Fits fun _ t => some (run isSpace t) := by
    intro previous t n hn
    rw [← Option.some.inj hn]
    exact run_le isSpace t
  have hfollow := finditer_ordered hfits (some c) 0 1 rest (Nat.zero_le _)
  have hmem : c ∈ sub (fun _ t => some (run isSpace t)) [' '] (c :: rest) := by
    rw [sub, split, hspans]
    -- the first piece begins with the first character
    cases hms : finditer (fun _ t => some (run isSpace t)) (some c) 0 1 rest with
    | nil => simp [pieces, List.intercalate]
    | cons p ms =>
        have hp := (hfollow.inside p (by rw [hms]; exact List.mem_cons_self)).1
        obtain ⟨k, hk⟩ : ∃ k, p.1 = k + 1 := ⟨p.1 - 1, by omega⟩
        have hpiece : slice (c :: rest) 0 p.1 = c :: rest.take k := by
          rw [slice, hk, List.take_succ_cons, List.drop_zero]
        rw [pieces, hpiece, List.intercalate]
        apply List.mem_flatten.mpr
        refine ⟨c :: rest.take k, ?_, List.mem_cons_self⟩
        cases pieces (c :: rest) p.2 ms with
        | nil => simp
        | cons t ts => simp
  exact casefold_ne_nil (strip_ne_nil hmem hspace)

/-- What the loop turns down while nothing has been taken: a passage off the topic, a bare one, and one with too many bytes
whose units are turned down too. -/
def Source.Declined (u : Unicode) (S : Source) (maxBytes : ℕ) (shared : Option Span) (s : Span) : Prop :=
  S.offTopic u shared [] s = true ∨ S.bare s = true ∨ maxBytes < size S.text s

/-- A passage that is still a candidate, or was turned down. -/
def Source.Waits (u : Unicode) (S : Source) (maxBytes : ℕ) (shared : Option Span) (candidates : List Span) (s : Span) : Prop :=
  s ∈ candidates ∨ S.Declined u maxBytes shared s

/-- A passage that is still a candidate, or was turned down with all the units in it. -/
def Source.WaitsAll (u : Unicode) (S : Source) (maxBytes : ℕ) (shared : Option Span) (candidates : List Span) (s : Span) : Prop :=
  s ∈ candidates ∨ S.offTopic u shared [] s = true ∨ S.bare s = true ∨
    (maxBytes < size S.text s ∧ ∀ v ∈ S.smaller s, S.Waits u maxBytes shared candidates v)

/-- The loop has taken nothing yet: nothing is covered, and the passages `first` are turned down or wait. -/
structure Untouched (u : Unicode) (S : Source) (maxBytes : ℕ) (shared : Option Span) (first : List Span) (st : Selection) : Prop where
  seen : st.seen = []
  covered : st.covered = []
  remaining : st.remaining = maxBytes
  waits : ∀ s ∈ first, S.WaitsAll u maxBytes shared st.candidates s

/-- What a round does to a passage that waits, when it takes nothing. -/
theorem Untouched.step (hS : S.Sound limit) {maxBytes : ℕ} {first : List Span}
    (hcandidates : ∀ s ∈ st.candidates, S.Passage limit s) (hnone : st.chosen = [])
    (hun : Untouched u S maxBytes shared first st) (h : S.step u maxSpans shared st = some st') (hnone' : st'.chosen = []) :
    Untouched u S maxBytes shared first st' := by
  obtain ⟨best, hbest, hroom, hround⟩ := Source.step_spec h
  have hvisible := (hS.passage (hcandidates best hbest)).2.2
  -- what a round makes of the candidates, and of the best of them
  have hframe : st'.seen = [] ∧ st'.covered = [] ∧ st'.remaining = maxBytes ∧
      (∀ s ∈ st.candidates, s ≠ best → s ∈ st'.candidates) ∧
      (S.offTopic u shared [] best = true ∨ S.bare best = true ∨
        (maxBytes < size S.text best ∧ ∀ v ∈ S.smaller best, v ∈ st'.candidates)) := by
    cases hround with
    | divided more hsub hwhy =>
        refine ⟨hun.seen, hun.covered, hun.remaining, ?_, ?_⟩
        · intro s hs hne
          exact mem_addNew.mpr (.inl ((List.mem_erase_of_ne hne).mpr hs))
        · cases hwhy with
          | inl htaken => exact absurd hnone htaken
          | inr hlarge =>
              right
              right
              refine ⟨?_, ?_⟩
              · rw [← hun.remaining]
                exact hlarge.2
              · intro v hv
                apply mem_addNew.mpr
                rw [hlarge.1]
                exact .inr hv
    | passed hwhy =>
        refine ⟨hun.seen, hun.covered, hun.remaining, fun s hs hne => (List.mem_erase_of_ne hne).mpr hs, ?_⟩
        dsimp only at hwhy
        rw [hun.seen, hun.covered] at hwhy
        rcases hwhy with htaken | hoff | hbare | hempty | hseen
        · exact absurd hnone htaken
        · exact .inl hoff
        · exact .inr (.inl hbare)
        · exact absurd hempty (normalized_ne_nil hvisible)
        · exact absurd hseen List.not_mem_nil
    | taken seen covered hapart hfits => exact absurd hnone' (by simp)
  obtain ⟨hseen, hcovered, hremaining, hkept, hbestDown⟩ := hframe
  -- a unit that waits, waits on or is turned down
  have hunit (v : Span) (hv : S.Waits u maxBytes shared st.candidates v) : S.Waits u maxBytes shared st'.candidates v := by
    cases hv with
    | inr hdown => exact .inr hdown
    | inl hwait =>
        by_cases heq : v = best
        · subst heq
          right
          rcases hbestDown with hoff | hbare | hlarge
          · exact .inl hoff
          · exact .inr (.inl hbare)
          · exact .inr (.inr hlarge.1)
        · exact .inl (hkept v hwait heq)
  refine ⟨hseen, hcovered, hremaining, ?_⟩
  intro s hs
  rcases hun.waits s hs with hwait | hoff | hbare | ⟨hlarge, hunits⟩
  · by_cases heq : s = best
    · subst heq
      right
      rcases hbestDown with hoff | hbare | hlarge
      · exact .inl hoff
      · exact .inr (.inl hbare)
      · exact .inr (.inr ⟨hlarge.1, fun v hv => .inl (hlarge.2 v hv)⟩)
    · exact .inl (hkept s hwait heq)
  · exact .inr (.inl hoff)
  · exact .inr (.inr (.inl hbare))
  · exact .inr (.inr (.inr ⟨hlarge, fun v hv => hunit v (hunits v hv)⟩))

/-! ### The result -/

theorem context_mem {candidates : List Span} {c : Span} (h : S.context u limit candidates = some c) : c ∈ candidates := by
  unfold Source.context at h
  obtain ⟨head, -, h⟩ := Option.bind_eq_some_iff.mp h
  obtain ⟨span, hspan, h⟩ := Option.bind_eq_some_iff.mp h
  obtain ⟨first, -, h⟩ := Option.bind_eq_some_iff.mp h
  split_ifs at h with hcondition
  rw [← Option.some.inj h]
  exact List.mem_of_find?_eq_some hspan

/-- The loop begins with the passages of all units. -/
theorem start_perm (maxBytes : ℕ) : (S.start u limit maxBytes).candidates.Perm (S.passagesFrom u limit S.units) := by
  unfold Source.start
  dsimp only
  cases hcontext : S.context u limit (S.passagesFrom u limit S.units) with
  | none => exact List.Perm.refl _
  | some c => exact (List.perm_cons_erase (context_mem hcontext)).symm

theorem start_fresh (maxBytes : ℕ) : (S.start u limit maxBytes).chosen = [] ∧ (S.start u limit maxBytes).seen = [] ∧
    (S.start u limit maxBytes).covered = [] ∧ (S.start u limit maxBytes).remaining = maxBytes := by
  unfold Source.start
  dsimp only
  cases S.context u limit (S.passagesFrom u limit S.units) with
  | none => exact ⟨rfl, rfl, rfl, rfl⟩
  | some c => exact ⟨rfl, rfl, rfl, rfl⟩

theorem length_passagesFrom (us : List Span) : (S.passagesFrom u limit us).length = us.length := by
  induction us with
  | nil => rfl
  | cons first rest ih => rw [Source.passagesFrom, List.length_cons, List.length_cons, ih]

theorem rounds_le (candidates : List Span) : S.rounds candidates ≤ candidates.length * (S.units.length + 1) := by
  induction candidates with
  | nil => simp [Source.rounds]
  | cons s rest ih =>
      have hweight : S.weight s ≤ S.units.length + 1 := by
        have := List.length_filter_le (fun v => inside v s && (v.start, v.stop) ≠ (s.start, s.stop)) S.units
        unfold Source.weight Source.smaller
        omega
      have hsum : S.rounds (s :: rest) = S.weight s + S.rounds rest := by
        unfold Source.rounds
        rw [List.map_cons, List.sum_cons]
      rw [hsum, List.length_cons, Nat.succ_mul]
      omega

/-- As many rounds as the loop can take. -/
theorem rounds_start (maxBytes : ℕ) :
    S.rounds (S.start u limit maxBytes).candidates ≤ S.units.length * (S.units.length + 1) := by
  have h := rounds_le (S := S) (S.start u limit maxBytes).candidates
  rw [(start_perm maxBytes).length_eq, length_passagesFrom] at h
  exact h

instance : Std.Total bySpan := ⟨fun s t => by unfold bySpan; omega⟩

instance : IsTrans Span bySpan := ⟨fun s t r => by unfold bySpan; omega⟩

/-- The passages taken, in the order of the text. -/
theorem ordered_sort {chosen : List Span} (hplace : ∀ s ∈ chosen, s.start < s.stop)
    (hapart : chosen.Pairwise fun s t => overlaps s t = false) :
    (chosen.insertionSort bySpan).Pairwise fun s t => s.stop ≤ t.start := by
  have hperm := List.perm_insertionSort bySpan chosen
  have hsorted := List.pairwise_insertionSort bySpan chosen
  have hapart' : (chosen.insertionSort bySpan).Pairwise fun s t => overlaps s t = false :=
    hperm.symm.pairwise hapart fun {s t} h => by rw [overlaps_comm]; exact h
  apply (hsorted.and hapart').imp_of_mem
  intro s t hs ht h
  have hs' := hplace s (hperm.mem_iff.mp hs)
  have ht' := hplace t (hperm.mem_iff.mp ht)
  have horder : s.start ≤ t.start := by
    cases h.1 with
    | inl hlt => exact Nat.le_of_lt hlt
    | inr heq => exact Nat.le_of_eq heq.1
  have hnot := h.2
  simp only [overlaps, Bool.and_eq_false_iff, decide_eq_false_iff_not] at hnot
  omega

/-- A passage that the loop turns down while nothing is taken, and with it every unit in it that could be taken. -/
def Source.TurnedDown (u : Unicode) (S : Source) (maxBytes : ℕ) (shared : Option Span) (s : Span) : Prop :=
  S.offTopic u shared [] s = true ∨ S.bare s = true ∨
    (maxBytes < size S.text s ∧ ∀ v ∈ S.smaller s, S.Declined u maxBytes shared v)

/-- What is promised of the spans of a source. -/
structure Source.Selected (u : Unicode) (S : Source) (limit maxSpans maxBytes : ℕ) (spans : List Span) : Prop where
  ordered : spans.Pairwise fun s t => s.stop ≤ t.start
  count : spans.length ≤ maxSpans
  places : ∀ s ∈ spans, s.start < s.stop ∧ s.stop ≤ S.text.length ∧ s.stop - s.start ≤ limit
  whole : ∀ s ∈ spans, Whole S.text S.units s
  bytes : (spans.map (size S.text)).sum ≤ maxBytes
  empty : spans = [] → ∀ s ∈ S.passagesFrom u limit S.units, S.TurnedDown u maxBytes (S.start u limit maxBytes).context s

/-- The loop ends, with spans that keep every promise. -/
theorem Source.Sound.selects (hS : S.Sound limit) (hmax : 0 < maxSpans) (maxBytes : ℕ) :
    ∃ st, (∀ fuel, S.units.length * (S.units.length + 1) < fuel →
      loop (S.step u maxSpans (S.start u limit maxBytes).context) fuel (S.start u limit maxBytes) = some st) ∧
      S.Selected u limit maxSpans maxBytes (st.chosen.insertionSort bySpan) := by
  have hpassages : ∀ s ∈ S.passagesFrom u limit S.units, S.Passage limit s :=
    passagesFrom_whole [] S.units rfl hS.short
  generalize hfirst : S.start u limit maxBytes = first
  obtain ⟨hchosen, hseen, hcovered, hremaining⟩ := @start_fresh u S limit maxBytes
  have hperm := @start_perm u S limit maxBytes
  have hrounds := @rounds_start u S limit maxBytes
  rw [hfirst] at hchosen hseen hcovered hremaining hperm hrounds
  let P (st : Selection) := Good S limit maxSpans maxBytes st ∧
    (st.chosen = [] → Untouched u S maxBytes first.context (S.passagesFrom u limit S.units) st)
  have hstep (st st' : Selection) (hP : P st) (h : S.step u maxSpans first.context st = some st') :
      P st' ∧ S.rounds st'.candidates < S.rounds st.candidates := by
    refine ⟨⟨hP.1.step hS h, ?_⟩, hS.rounds_lt h⟩
    intro hnone'
    have hnone : st.chosen = [] := by
      obtain ⟨best, -, -, hround⟩ := Source.step_spec h
      cases hround with
      | divided more hsub hwhy => exact hnone'
      | passed hwhy => exact hnone'
      | taken seen covered hapart hfits => exact absurd hnone' (by simp)
    exact (hP.2 hnone).step hS hP.1.candidates hnone h hnone'
  have hbegin : P first := by
    refine ⟨⟨?_, ?_, ?_, ?_, ?_⟩, ?_⟩
    · exact fun s hs => hpassages s (hperm.mem_iff.mp hs)
    · rw [hchosen]
      exact fun s hs => absurd hs List.not_mem_nil
    · rw [hchosen]
      exact List.Pairwise.nil
    · rw [hchosen]
      exact Nat.zero_le _
    · rw [hchosen, hremaining]
      simp
    · exact fun _ => ⟨hseen, hcovered, hremaining, fun s hs => .inl (hperm.mem_iff.mpr hs)⟩
  obtain ⟨st, hloop, ⟨hgood, huntouched⟩, hend⟩ := @loop_ends _ _ _ (fun st : Selection => S.rounds st.candidates) hstep _ _ hbegin
    (Nat.lt_succ_self (S.rounds first.candidates))
  have hsort := List.perm_insertionSort bySpan st.chosen
  have hplaces : ∀ s ∈ st.chosen, s.start < s.stop ∧ s.stop ≤ S.text.length ∧ s.stop - s.start ≤ limit := by
    intro s hs
    have hplace := hS.passage (hgood.chosen s hs)
    exact ⟨hplace.1, hplace.2.1, (hgood.chosen s hs).2⟩
  refine ⟨st, ?_, ?_, ?_, ?_, ?_, ?_, ?_⟩
  · intro fuel hfuel
    apply loop_mono hloop
    omega
  · exact ordered_sort (fun s hs => (hplaces s hs).1) hgood.apart
  · rw [hsort.length_eq]
    exact hgood.count
  · exact fun s hs => hplaces s (hsort.mem_iff.mp hs)
  · exact fun s hs => (hgood.chosen s (hsort.mem_iff.mp hs)).1
  · rw [(hsort.map (size S.text)).sum_nat]
    have := hgood.bytes
    omega
  · intro hempty s hs
    have hnone : st.chosen = [] := by
      rw [hempty] at hsort
      exact List.nil_perm.mp hsort
    have hcandidates : st.candidates = [] := by
      cases Source.step_none hend with
      | inl h => exact h
      | inr h =>
          rw [hnone, List.length_nil] at h
          omega
    rw [hfirst]
    rcases (huntouched hnone).waits s hs with hwait | hoff | hbare | ⟨hlarge, hunits⟩
    · rw [hcandidates] at hwait
      exact absurd hwait List.not_mem_nil
    · exact .inl hoff
    · exact .inr (.inl hbare)
    · refine .inr (.inr ⟨hlarge, ?_⟩)
      intro v hv
      cases hunits v hv with
      | inl hwait =>
          rw [hcandidates] at hwait
          exact absurd hwait List.not_mem_nil
      | inr hdown => exact hdown

/-- The units of a source are laid out in its text. -/
theorem sourceOf_sound (text objective : List Char) (limit : ℕ) : (sourceOf u text objective limit).Sound limit :=
  units_laid text limit

/-- With limits that are not positive there is an error.  Otherwise the selection ends; its spans are in the order of the
text and apart, there are not too many of them, each is a run of whole units no longer than the limit, and all of them
have no more bytes than allowed.  There are none only if the passages of all units are turned down. -/
theorem evidence_spans_selects (u : Unicode) (text objective : List Char) (limit maxSpans maxBytes : ℤ) :
    if min limit (min maxSpans maxBytes) ≤ 0 then
      ∀ fuel, evidenceSpans u text objective limit maxSpans maxBytes fuel
        = some (.error (.valueError "positive excerpt limits required"))
    else
      ∃ spans, (∀ fuel, (units text limit.toNat).length * ((units text limit.toNat).length + 1) < fuel →
          evidenceSpans u text objective limit maxSpans maxBytes fuel = some (.ok spans)) ∧
        (sourceOf u text objective limit.toNat).Selected u limit.toNat maxSpans.toNat maxBytes.toNat spans := by
  split_ifs with hlimits
  · intro fuel
    rw [evidenceSpans, if_pos hlimits]
  · have hmax : 0 < maxSpans.toNat := by omega
    obtain ⟨st, hloop, hselected⟩ := (sourceOf_sound (u := u) text objective limit.toNat).selects (u := u) hmax maxBytes.toNat
    refine ⟨st.chosen.insertionSort bySpan, ?_, hselected⟩
    intro fuel hfuel
    have h := hloop fuel hfuel
    unfold evidenceSpans
    rw [if_neg hlimits]
    dsimp only
    split_ifs with hunits
    · -- a passage taken would be a run of units, and there are none
      have hnone : st.chosen.insertionSort bySpan = [] := by
        apply List.eq_nil_iff_forall_not_mem.mpr
        intro s hs
        obtain ⟨before, first, more, after, last, hrun, -⟩ := hselected.whole s hs
        rw [hunits] at hrun
        exact absurd hrun (by simp)
      rw [hnone]
    · rw [h]
      rfl

/-- The tables of ASCII. -/
def asciiTables : Unicode where
  word := isName
  same := fun a b => a.toLower = b.toLower
  fold := fun c => [c.toLower]
  fold_ne := fun _ => List.cons_ne_nil _ _

/-- A heading that names what was asked for, before a paragraph that is too long: it fits, it matches, and nothing is
returned. -/
theorem heading_passed_over : ¬∀ (u : Unicode) (text objective : List Char) (limit maxSpans maxBytes : ℤ) (fuel : ℕ),
    evidenceSpans u text objective limit maxSpans maxBytes fuel = some (.ok []) →
      ∀ s ∈ units text limit.toNat, maxBytes.toNat < size text s ∨
        coveredTerms u (fragment text s) (sourceOf u text objective limit.toNat).terms = [] := by
  intro h
  have hsome := h asciiTables ("StorageBox\n\n".toList ++ List.replicate 60 'x') "Describe StorageBox".toList 50 6 7200 3
    (by decide +kernel) ⟨0, 10, 0⟩ (by decide +kernel)
  revert hsome
  decide +kernel

end HpAgent.Research
