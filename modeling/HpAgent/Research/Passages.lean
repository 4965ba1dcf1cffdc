import HpAgent.Research.Excerpts
import Mathlib.Data.List.Infix

/-! # Units and passages

What the loop of `evidenceSpans` works on.

* `units_laid`: the units follow one another in the text, none is empty, and none is longer than the limit.
* `units_texts`: the units are whole paragraphs, and the sentences of those that are too long.
* `passagesFrom_whole`: every passage is a run of whole units with nothing but white space between them. -/

namespace HpAgent.Research

open Library Requirements

variable {s : List Char} {limit : ℕ} {index left : ℕ}

/-! ### White space -/

/-- The text begins with something that is not white space. -/
def Visible (s : List Char) : Prop := ∃ c, s.head? = some c ∧ isSpace c = false

theorem Visible.ne_nil (h : Visible s) : s ≠ [] := by
  obtain ⟨c, hc, -⟩ := h
  intro hnil
  rw [hnil] at hc
  exact absurd hc (by simp)

theorem Visible.beginning {t : List Char} (h : Visible s) (hne : t ≠ []) (hpre : t <+: s) : Visible t := by
  obtain ⟨c, hc, hspace⟩ := h
  obtain ⟨rest, rfl⟩ := hpre
  cases t with
  | nil => exact absurd rfl hne
  | cons d t => exact ⟨c, hc, hspace⟩

theorem visible_dropWhile (h : s.dropWhile isSpace ≠ []) : Visible (s.dropWhile isSpace) :=
  ⟨(s.dropWhile isSpace).head h, List.head?_eq_some_head h, List.head_dropWhile_not isSpace h⟩

theorem endsClause_not_space {c : Char} (h : endsClause c = true) : isSpace c = false := by
  have hmem : c ∈ ".!?。！？".toList := List.contains_iff_mem.mp h
  have hlist : ".!?。！？".toList = ['.', '!', '?', '。', '！', '？'] := rfl
  rw [hlist] at hmem
  simp only [List.mem_cons, List.not_mem_nil, or_false] at hmem
  obtain rfl | rfl | rfl | rfl | rfl | rfl := hmem <;> decide

theorem blankLine_fits : Matcher.Fits blankLine := by
  intro previous s n h
  cases s with
  | nil => exact absurd h (by simp [blankLine])
  | cons c rest =>
      simp only [blankLine] at h
      split at h
      next hblank =>
        have hn := Option.some.inj h
        have hrun := run_le (fun d => d = ' ' || d = '\t') rest
        have hshort : run (fun d => d = ' ' || d = '\t') rest < rest.length := by
          apply Nat.lt_of_le_of_ne hrun
          intro heq
          rw [heq, List.drop_length] at hblank
          exact absurd hblank.2 (by simp)
        simp only [List.length_cons]
        omega
      next => exact absurd h (by simp)

theorem sentenceBreak_fits : Matcher.Fits sentenceBreak := by
  intro previous s n h
  unfold sentenceBreak at h
  split at h
  · rw [← Option.some.inj h]
    exact run_le isSpace s
  · exact absurd h (by simp)

/-! ### Sentences -/

/-- A break comes after the end of a clause, and is white space. -/
theorem sentenceBreak_spec {p : ℕ × ℕ} (hp : p ∈ spans sentenceBreak s) :
    (∃ c, (s.take p.1).getLast? = some c ∧ isSpace c = false) ∧ p.2 - p.1 = run isSpace (s.drop p.1) := by
  have hmatch := spans_match hp
  unfold sentenceBreak at hmatch
  split at hmatch
  next hends =>
    cases hc : (s.take p.1).getLast? with
    | none => exact absurd hends (by simp [hc])
    | some c =>
        rw [hc] at hends
        exact ⟨⟨c, rfl, endsClause_not_space hends⟩, (Option.some.inj hmatch).symm⟩
  next => exact absurd hmatch (by simp)

/-- The character before a place that is inside or at the end of a break is white space. -/
theorem break_last {p : ℕ × ℕ} (hp : p ∈ spans sentenceBreak s) {c : Char}
    (hc : (s.take p.2).getLast? = some c) : isSpace c = true := by
  have hin := (spans_ordered sentenceBreak_fits s).inside p hp
  have hrun := (sentenceBreak_spec hp).2
  have hsplit : s.take p.2 = s.take p.1 ++ (s.drop p.1).take (run isSpace (s.drop p.1)) := by
    rw [← hrun, ← List.take_add]
    congr 1
    omega
  have hne : (s.drop p.1).take (run isSpace (s.drop p.1)) ≠ [] := by
    intro hnil
    have hlength := congrArg List.length hnil
    rw [List.length_take, List.length_drop, List.length_nil] at hlength
    omega
  rw [hsplit, List.getLast?_append_of_ne_nil _ hne] at hc
  exact take_run (List.mem_of_getLast? hc)

theorem sentences_ne_nil {c : Char} (hlast : s.getLast? = some c) (hspace : isSpace c = false) :
    ∀ t ∈ split sentenceBreak s, t ≠ [] := by
  have hfollow := spans_ordered sentenceBreak_fits s
  apply pieces_ne_nil hfollow
  · cases s with
    | nil => exact absurd hlast (by simp)
    | cons d rest => simp
  · intro p hp
    obtain ⟨⟨d, hd, -⟩, -⟩ := sentenceBreak_spec hp
    apply Nat.pos_of_ne_zero
    intro hzero
    rw [hzero] at hd
    exact absurd hd (by simp)
  · apply hfollow.ordered.imp_of_mem
    intro p q hp hq hle
    apply Nat.lt_of_le_of_ne hle
    intro heq
    -- the next break would follow white space, not the end of a clause
    obtain ⟨⟨d, hd, hds⟩, -⟩ := sentenceBreak_spec hq
    rw [← heq] at hd
    rw [break_last hp hd] at hds
    exact absurd hds (by simp)
  · intro p hp
    have hin := hfollow.inside p hp
    apply Nat.lt_of_le_of_ne hin.2.2
    intro heq
    have htake : (s.take p.2).getLast? = some c := by
      rw [heq, List.take_length]
      exact hlast
    rw [break_last hp htake] at hspace
    exact absurd hspace (by simp)

/-- A sentence begins with something that is not white space. -/
theorem sentences_visible (hfirst : Visible s) {t : List Char}
    (ht : t ∈ split sentenceBreak s) (hne : t ≠ []) :
    Visible t := by
  obtain ⟨j, hj, hpre⟩ := pieces_prefix ht
  cases List.mem_cons.mp hj with
  | inl heq =>
      subst heq
      exact hfirst.beginning hne hpre
  | inr hmem =>
      obtain ⟨p, hp, rfl⟩ := List.mem_map.mp hmem
      have hin := (spans_ordered sentenceBreak_fits s).inside p hp
      have hdrop : s.drop p.2 = (s.drop p.1).dropWhile isSpace := by
        rw [← drop_run, List.drop_drop, ← (sentenceBreak_spec hp).2]
        congr 1
        omega
      rw [hdrop] at hpre
      refine Visible.beginning (visible_dropWhile ?_) hne hpre
      intro hnil
      rw [hnil] at hpre
      exact hne (List.prefix_nil.mp hpre)

/-! ### Units -/

def Span.place (s : Span) : ℕ × ℕ := (s.start, s.stop)

/-- What is known of the units between two places of the text. -/
structure Laid (text : List Char) (limit low high : ℕ) (us : List Span) : Prop where
  follow : Follow low high (us.map Span.place)
  short : ∀ v ∈ us, v.stop - v.start ≤ limit
  visible : ∀ v ∈ us, Visible (fragment text v)

theorem Laid.nil (text : List Char) (limit low high : ℕ) : Laid text limit low high [] :=
  ⟨Follow.nil low high, by simp, by simp⟩

theorem Laid.cons {text : List Char} {limit low high : ℕ} {v : Span} {us : List Span} (hlow : low ≤ v.start)
    (hv : v.start < v.stop) (hhigh : v.stop ≤ high) (hshort : v.stop - v.start ≤ limit) (hvisible : Visible (fragment text v))
    (h : Laid text limit v.stop high us) : Laid text limit low high (v :: us) := by
  refine ⟨Follow.cons hlow hv hhigh h.follow, ?_, ?_⟩
  · exact List.forall_mem_cons.mpr ⟨hshort, h.short⟩
  · exact List.forall_mem_cons.mpr ⟨hvisible, h.visible⟩

theorem Laid.weaken {text : List Char} {low low' high : ℕ} {us : List Span} (h : Laid text limit low high us)
    (hle : low' ≤ low) : Laid text limit low' high us := ⟨h.follow.weaken hle, h.short, h.visible⟩

theorem Laid.append {text : List Char} {a b c : ℕ} {us vs : List Span} (hab : a ≤ b) (hbc : b ≤ c)
    (hu : Laid text limit a b us) (hv : Laid text limit b c vs) : Laid text limit a c (us ++ vs) := by
  refine ⟨?_, ?_, ?_⟩
  · rw [List.map_append]
    exact Follow.append hab hbc hu.follow hv.follow
  · exact List.forall_mem_append.mpr ⟨hu.short, hv.short⟩
  · exact List.forall_mem_append.mpr ⟨hu.visible, hv.visible⟩

theorem sentenceUnits_laid {text : List Char} {limit index stop offset : ℕ} {sentences : List (List Char)}
    (hne : ∀ t ∈ sentences, Visible t) : Laid text limit offset stop (sentenceUnits text limit index stop offset sentences) := by
  induction sentences generalizing offset with
  | nil => exact Laid.nil _ _ _ _
  | cons sentence rest ih =>
      have hvisible := hne sentence List.mem_cons_self
      have hlength := List.length_pos_iff.mpr hvisible.ne_nil
      unfold sentenceUnits
      cases hfind : find text sentence offset stop with
      | none => exact Laid.nil _ _ _ _
      | some position =>
          obtain ⟨hlow, hhigh, hslice⟩ := find_spec hfind
          have hrest := @ih (position + sentence.length) fun t ht => hne t (List.mem_cons_of_mem sentence ht)
          dsimp only
          split_ifs with hlimit
          · have hshort : position + sentence.length - position ≤ limit := by omega
            refine Laid.cons hlow ?_ hhigh hshort ?_ hrest
            · dsimp only
              omega
            · rw [fragment, hslice]
              exact hvisible
          · apply hrest.weaken
            omega

/-- Every sentence is found, so the units are the sentences that are not too long. -/
theorem sentences_found {text : List Char} {limit index start stop : ℕ} (hstop : stop ≤ text.length) {i offset : ℕ}
    {ms : List (ℕ × ℕ)} (hms : Follow i (stop - start) ms) (hi : i ≤ stop - start) (hle : start ≤ stop)
    (hoffset : offset ≤ start + i) :
    (sentenceUnits text limit index stop offset (pieces (slice text start stop) i ms)).map (fragment text)
      = (pieces (slice text start stop) i ms).filter fun t => t.length ≤ limit := by
  -- a piece that goes from `a` to `b` is found no later than at `start + a`
  have hfound {offset a b : ℕ} (hab : a ≤ b) (hb : b ≤ stop - start) (hoffset : offset ≤ start + a) :
      ∃ q, find text (slice (slice text start stop) a b) offset stop = some q ∧ q ≤ start + a ∧
        (slice (slice text start stop) a b).length = b - a := by
    have hslice : slice (slice text start stop) a b = slice text (start + a) (start + b) :=
      slice_slice text (by omega)
    have hlength : (slice text (start + a) (start + b)).length = b - a := by
      rw [length_slice (by omega)]
      omega
    rw [hslice]
    have hplace : start + a + (slice text (start + a) (start + b)).length = start + b := by omega
    obtain ⟨q, hq, hqle⟩ := @find_first text (slice text (start + a) (start + b)) _ stop (start + a)
      hoffset (by omega) (by rw [hplace])
    exact ⟨q, hq, hqle, hlength⟩
  have hunit {q offset a b : ℕ} (hq : find text (slice (slice text start stop) a b) offset stop = some q) :
      fragment text ⟨q, q + (slice (slice text start stop) a b).length, index⟩ = slice (slice text start stop) a b :=
    (find_spec hq).2.2
  have hwhole : (slice text start stop).length = stop - start := length_slice hstop
  induction ms generalizing i offset with
  | nil =>
      have hdrop : (slice text start stop).drop i = slice (slice text start stop) i (stop - start) := by
        rw [slice.eq_1 (slice text start stop), ← hwhole, List.take_length]
      obtain ⟨q, hq, -, -⟩ := hfound hi (Nat.le_refl _) hoffset
      rw [pieces, hdrop]
      unfold sentenceUnits
      rw [hq]
      dsimp only
      rw [sentenceUnits, List.append_nil]
      split_ifs with hlimit
      · rw [List.map_singleton, hunit hq, List.filter_cons_of_pos (by simpa using hlimit), List.filter_nil]
      · rw [List.map_nil, List.filter_cons_of_neg (by simpa using hlimit), List.filter_nil]
  | cons p ms ih =>
      have hp := hms.inside p List.mem_cons_self
      obtain ⟨q, hq, hqle, hlength⟩ := hfound (a := i) (b := p.1) hp.1 (by omega) hoffset
      rw [pieces]
      unfold sentenceUnits
      rw [hq]
      dsimp only
      rw [List.map_append, ih hms.tail hp.2.2 (by omega)]
      split_ifs with hlimit
      · rw [List.map_singleton, hunit hq, List.filter_cons_of_pos (by simpa using hlimit)]
        rfl
      · rw [List.map_nil, List.filter_cons_of_neg (by simpa using hlimit)]
        rfl

/-- A paragraph without the white space around it: where it is, and what it begins and ends with. -/
theorem stripped {text : List Char} {left right start stop : ℕ} (hle : left ≤ right) (hright : right ≤ text.length)
    (hstart : start = left + (slice text left right).length - ((slice text left right).dropWhile isSpace).length)
    (hstop : stop = right - (slice text left right).length + ((slice text left right).rdropWhile isSpace).length)
    (hlt : start < stop) : left ≤ start ∧ stop ≤ right ∧ Visible (slice text start stop) ∧
      ∃ c, (slice text start stop).getLast? = some c ∧ isSpace c = false := by
  generalize hraw : slice text left right = raw at hstart hstop
  have hlength : raw.length = right - left := by
    rw [← hraw]
    exact length_slice hright
  have hdrop := drop_run isSpace raw
  have hrun := run_le isSpace raw
  have hdropLength : (raw.dropWhile isSpace).length = raw.length - run isSpace raw := by
    rw [← hdrop, List.length_drop]
  have hpre : raw.rdropWhile isSpace <+: raw := List.rdropWhile_prefix _ _
  have hkept := hpre.length_le
  have hstart' : start = left + run isSpace raw := by omega
  have hstop' : stop = left + (raw.rdropWhile isSpace).length := by omega
  have hslice : slice text start stop = (raw.rdropWhile isSpace).drop (run isSpace raw) := by
    have htake : raw.take (raw.rdropWhile isSpace).length = raw.rdropWhile isSpace := (List.prefix_iff_eq_take.mp hpre).symm
    have hinner : slice raw (run isSpace raw) (raw.rdropWhile isSpace).length = slice text start stop := by
      rw [← hraw] at *
      rw [slice_slice text (by omega), ← hstart', ← hstop']
    rw [← hinner, slice, htake]
  have hne : slice text start stop ≠ [] := by
    intro hnil
    rw [hslice, List.drop_eq_nil_iff] at hnil
    omega
  refine ⟨by omega, by omega, ?_, ?_⟩
  · have hvisible : Visible (raw.drop (run isSpace raw)) := by
      rw [hdrop]
      apply visible_dropWhile
      rw [← List.length_pos_iff]
      omega
    apply hvisible.beginning hne
    rw [hslice]
    exact List.IsPrefix.drop hpre _
  · have hkeptne : raw.rdropWhile isSpace ≠ [] := by
      rw [← List.length_pos_iff]
      omega
    refine ⟨(raw.rdropWhile isSpace).getLast hkeptne, ?_, ?_⟩
    · rw [hslice, List.getLast?_drop, if_neg (by omega), List.getLast?_eq_some_getLast hkeptne]
    · exact Bool.eq_false_iff.mpr (List.rdropWhile_last_not isSpace raw hkeptne)

theorem paragraphUnits_laid {text : List Char} {right : ℕ} (hle : left ≤ right)
    (hright : right ≤ text.length) :
    Laid text limit left right (paragraphUnits text limit index left right) := by
  unfold paragraphUnits
  extract_lets raw start stop
  split_ifs with hempty hshort
  · exact Laid.nil _ _ _ _
  · obtain ⟨hlow, hhigh, hvisible, -⟩ := @stripped _ _ _ start stop hle hright rfl rfl (by omega)
    exact Laid.cons hlow (by dsimp only; omega) hhigh hshort hvisible (Laid.nil _ _ _ _)
  · obtain ⟨hlow, hhigh, hvisible, c, hlast, hspace⟩ := @stripped _ _ _ start stop hle hright rfl rfl (by omega)
    have hsentences : ∀ t ∈ split sentenceBreak (slice text start stop), Visible t := fun t ht =>
      sentences_visible hvisible ht (sentences_ne_nil hlast hspace t ht)
    have h := @sentenceUnits_laid text limit index stop start _ hsentences
    exact ⟨⟨fun p hp => ⟨Nat.le_trans hlow (h.follow.inside p hp).1, (h.follow.inside p hp).2.1,
      Nat.le_trans (h.follow.inside p hp).2.2 hhigh⟩, h.follow.ordered⟩, h.short, h.visible⟩

theorem unitsFrom_laid {text : List Char} {rest : List ℕ} (hle : left ≤ text.length)
    (hin : ∀ b ∈ rest, left ≤ b ∧ b ≤ text.length) (hrest : rest.Pairwise (· ≤ ·)) :
    Laid text limit left text.length (unitsFrom text limit index (left :: rest)) := by
  induction rest generalizing left index with
  | nil =>
      unfold unitsFrom
      rw [List.headD_nil, unitsFrom, List.append_nil]
      exact paragraphUnits_laid hle (Nat.le_refl _)
  | cons right rest ih =>
      have hpair := List.pairwise_cons.mp hrest
      have hright := hin right List.mem_cons_self
      unfold unitsFrom
      rw [List.headD_cons]
      apply Laid.append hright.1 hright.2 (paragraphUnits_laid hright.1 hright.2)
      apply ih hright.2 _ hpair.2
      exact fun b hb => ⟨hpair.1 b hb, (hin b (List.mem_cons_of_mem right hb)).2⟩

/-! ### What the units are -/

theorem rdropWhile_append {p : Char → Bool} {a b : List Char} (hb : b.rdropWhile p ≠ []) :
    (a ++ b).rdropWhile p = a ++ b.rdropWhile p := by
  have hb' : b.reverse.dropWhile p ≠ [] := by simpa [List.rdropWhile] using hb
  simp only [List.rdropWhile, List.reverse_append, List.dropWhile_append, List.isEmpty_iff, hb', if_false, List.reverse_append,
    List.reverse_reverse]

/-- The place of a paragraph without its white space is the place of its text. -/
theorem slice_stripped {text : List Char} {left right start stop : ℕ} (hright : right ≤ text.length) (hle : left ≤ right)
    (hstart : start = left + (slice text left right).length - ((slice text left right).dropWhile isSpace).length)
    (hstop : stop = right - (slice text left right).length + ((slice text left right).rdropWhile isSpace).length) :
    if stop ≤ start then strip (slice text left right) = []
    else slice text start stop = strip (slice text left right) := by
  generalize hraw : slice text left right = raw at hstart hstop
  have hlength : raw.length = right - left := by
    rw [← hraw]
    exact length_slice hright
  have happend := List.takeWhile_append_dropWhile (p := isSpace) (l := raw)
  have htaken : (raw.takeWhile isSpace).length + (raw.dropWhile isSpace).length = raw.length := by
    rw [← List.length_append, happend]
  have hkept : (raw.rdropWhile isSpace).length ≤ raw.length := (List.rdropWhile_prefix isSpace raw).length_le
  by_cases hempty : strip raw = []
  · -- a paragraph of white space only
    have hall : ∀ c ∈ raw, isSpace c = true := by
      have hd := List.rdropWhile_eq_nil_iff.mp hempty
      intro c hc
      rw [← happend] at hc
      cases List.mem_append.mp hc with
      | inl h => exact List.mem_takeWhile_imp h
      | inr h => exact hd c h
    have hnone : raw.rdropWhile isSpace = [] := List.rdropWhile_eq_nil_iff.mpr hall
    rw [hnone, List.length_nil] at hstop
    rw [if_pos (by omega)]
    exact hempty
  · have hrest : raw.rdropWhile isSpace = raw.takeWhile isSpace ++ strip raw := by
      conv_lhs => rw [← happend]
      exact rdropWhile_append hempty
    have hlong : (raw.rdropWhile isSpace).length = (raw.takeWhile isSpace).length + (strip raw).length := by
      rw [hrest, List.length_append]
    have hpos := List.length_pos_iff.mpr hempty
    rw [if_neg (by omega)]
    have hinner : slice text start stop = slice raw (raw.takeWhile isSpace).length (raw.rdropWhile isSpace).length := by
      rw [← hraw] at *
      rw [slice_slice text (by omega)]
      congr 1 <;> omega
    rw [hinner, slice, ← List.prefix_iff_eq_take.mp (List.rdropWhile_prefix isSpace raw), hrest, List.drop_left]

/-- The units of a paragraph: all of it, or those of its sentences that are not too long. -/
def completeTexts (limit : ℕ) (paragraph : List Char) : List (List Char) :=
  if paragraph = [] then []
  else if paragraph.length ≤ limit then [paragraph]
  else (split sentenceBreak paragraph).filter fun t => t.length ≤ limit

theorem paragraphUnits_texts {text : List Char} {right : ℕ} (hle : left ≤ right)
    (hright : right ≤ text.length) :
    (paragraphUnits text limit index left right).map (fragment text) = completeTexts limit (strip (slice text left right)) := by
  unfold paragraphUnits completeTexts
  extract_lets raw start stop
  have hslice := @slice_stripped _ _ _ start stop hright hle rfl rfl
  by_cases hempty : stop ≤ start
  · rw [if_pos hempty] at hslice
    rw [if_pos hempty, if_pos hslice, List.map_nil]
  · rw [if_neg hempty] at hslice
    obtain ⟨hlow, hhigh, hvisible, -⟩ := @stripped _ _ _ start stop hle hright rfl rfl (by omega)
    have hlength : (strip raw).length = stop - start := by
      rw [← hslice]
      exact length_slice (by omega)
    have hne : strip raw ≠ [] := by
      rw [← hslice]
      exact hvisible.ne_nil
    rw [if_neg hempty, if_neg hne, hlength]
    split_ifs with hlimit
    · rw [List.map_singleton, fragment, hslice]
    · have hfollow := spans_ordered sentenceBreak_fits (slice text start stop)
      have hwhole : (slice text start stop).length = stop - start := length_slice (by omega)
      rw [hwhole] at hfollow
      have hfound := @sentences_found text limit index _ _ (by omega) _ _ _ hfollow (Nat.zero_le _)
        (by omega) (Nat.le_refl start)
      rw [split, hfound, ← hslice, split]

/-- The paragraphs that begin at these places. -/
def paragraphsFrom (text : List Char) : List ℕ → List (List Char)
  | [] => []
  | left :: rest => strip (slice text left (rest.headD text.length)) :: paragraphsFrom text rest

theorem unitsFrom_texts {text : List Char} {rest : List ℕ} (hle : left ≤ text.length)
    (hin : ∀ b ∈ rest, left ≤ b ∧ b ≤ text.length) (hrest : rest.Pairwise (· ≤ ·)) :
    (unitsFrom text limit index (left :: rest)).map (fragment text)
      = (paragraphsFrom text (left :: rest)).flatMap (completeTexts limit) := by
  induction rest generalizing left index with
  | nil =>
      unfold unitsFrom paragraphsFrom
      rw [List.headD_nil, unitsFrom, List.append_nil, paragraphUnits_texts hle (Nat.le_refl _), paragraphsFrom,
        List.flatMap_singleton]
  | cons right rest ih =>
      have hpair := List.pairwise_cons.mp hrest
      have hright := hin right List.mem_cons_self
      unfold unitsFrom paragraphsFrom
      rw [List.headD_cons, List.map_append, paragraphUnits_texts hright.1 hright.2, List.flatMap_cons]
      congr 1
      apply ih hright.2 _ hpair.2
      exact fun b hb => ⟨hpair.1 b hb, (hin b (List.mem_cons_of_mem right hb)).2⟩

/-- The places where paragraphs begin are in order. -/
theorem boundaries_ordered (text : List Char) : (∀ b ∈ (spans blankLine text).map Prod.snd, 0 ≤ b ∧ b ≤ text.length) ∧
    ((spans blankLine text).map Prod.snd).Pairwise (· ≤ ·) := by
  have hfollow := spans_ordered blankLine_fits text
  constructor
  · intro b hb
    obtain ⟨p, hp, rfl⟩ := List.mem_map.mp hb
    exact ⟨Nat.zero_le _, (hfollow.inside p hp).2.2⟩
  · rw [List.pairwise_map]
    apply hfollow.ordered.imp_of_mem
    intro p q hp hq hpq
    have := hfollow.inside q hq
    omega

/-- The units follow one another in the text, none is empty, none is longer than the limit. -/
theorem units_laid (text : List Char) (limit : ℕ) : Laid text limit 0 text.length (units text limit) :=
  unitsFrom_laid (Nat.zero_le _) (boundaries_ordered text).1 (boundaries_ordered text).2

/-- The units are whole paragraphs, and the whole sentences of those paragraphs that are too long, each at a place of its
own. -/
theorem units_texts (text : List Char) (limit : ℕ) : (units text limit).map (fragment text) =
      (paragraphsFrom text (0 :: (spans blankLine text).map Prod.snd)).flatMap (completeTexts limit) ∧
    Laid text limit 0 text.length (units text limit) :=
  ⟨unitsFrom_texts (Nat.zero_le _) (boundaries_ordered text).1 (boundaries_ordered text).2, units_laid text limit⟩

/-! ### Passages -/

variable {u : Unicode}

/-- `s` is a run of the units `us`, one after the other with nothing but white space between them. -/
def Whole (text : List Char) (us : List Span) (s : Span) : Prop :=
  ∃ before first more after last, us = before ++ (first :: more) ++ after ∧ s.start = first.start ∧ s.index = first.index ∧
    (first :: more).getLast? = some last ∧ s.stop = last.stop ∧
    (first :: more).IsChain fun v w => strip (slice text v.stop w.start) = []

/-- A unit is a passage of its own. -/
theorem Whole.unit {text : List Char} {us : List Span} {v : Span} (hv : v ∈ us) : Whole text us v := by
  obtain ⟨before, after, rfl⟩ := List.append_of_mem hv
  exact ⟨before, v, [], after, v, by simp, rfl, rfl, rfl, rfl, List.IsChain.singleton v⟩

theorem growFrom_spec {S : Source} {first : Span} (rest : List Span) (last : Span)
    (hshort : last.stop - first.start ≤ limit) :
    ∃ more after final, rest = more ++ after ∧ (last :: more).getLast? = some final ∧
      S.growFrom u limit first last.stop rest = final.stop ∧ final.stop - first.start ≤ limit ∧
      (last :: more).IsChain fun v w => strip (slice S.text v.stop w.start) = [] := by
  induction rest generalizing last with
  | nil => exact ⟨[], [], last, rfl, rfl, rfl, hshort, List.IsChain.singleton last⟩
  | cons next rest ih =>
      have hhere : ∃ more after final, next :: rest = more ++ after ∧ (last :: more).getLast? = some final ∧
          last.stop = final.stop ∧ final.stop - first.start ≤ limit ∧
          (last :: more).IsChain fun v w => strip (slice S.text v.stop w.start) = [] :=
        ⟨[], next :: rest, last, rfl, rfl, rfl, hshort, List.IsChain.singleton last⟩
      unfold Source.growFrom
      split_ifs with hbridge hscope hnames
      · exact hhere
      · exact hhere
      · exact hhere
      · rw [not_or, not_not] at hbridge
        obtain ⟨more, after, final, rfl, hfinal, hgrow, hlimit, hchain⟩ := ih next (by omega)
        refine ⟨next :: more, after, final, rfl, ?_, hgrow, hlimit, ?_⟩
        · rw [List.getLast?_cons_cons]
          exact hfinal
        · exact List.IsChain.cons_cons hbridge.1 hchain

/-- Every passage is a run of whole units, no longer than the limit. -/
theorem passagesFrom_whole {S : Source} (before us : List Span) (hunits : S.units = before ++ us)
    (hshort : ∀ v ∈ us, v.stop - v.start ≤ limit) :
    ∀ s ∈ S.passagesFrom u limit us, Whole S.text S.units s ∧ s.stop - s.start ≤ limit := by
  induction us generalizing before with
  | nil => exact fun s hs => absurd hs List.not_mem_nil
  | cons first rest ih =>
      have hfirst := hshort first List.mem_cons_self
      intro s hs
      rw [Source.passagesFrom] at hs
      cases List.mem_cons.mp hs with
      | inr htail =>
          apply ih (before ++ [first]) (by simp [hunits]) _ s htail
          exact fun v hv => hshort v (List.mem_cons_of_mem first hv)
      | inl heq =>
          subst heq
          split_ifs with hterms
          · obtain ⟨more, after, final, hrest, hfinal, hgrow, hlimit, hchain⟩ := growFrom_spec (u := u) (S := S) rest first hfirst
            rw [hgrow]
            exact ⟨⟨before, first, more, after, final, by simp [hunits, hrest], rfl, rfl, hfinal, rfl, hchain⟩, hlimit⟩
          · exact ⟨Whole.unit (by simp [hunits]), hfirst⟩

end HpAgent.Research
