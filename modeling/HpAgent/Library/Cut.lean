import Mathlib.Data.List.Basic

/-! # A text cut at a marker

`cut marker s` is what stands before the first place where the marker begins, or the whole text.

* `cut_framed`: behind a text that neither has the marker nor could begin it, the text is cut off where the marker stands.
* `cut_ended`: where the text ends in all of the marker but its last letter, and this letter follows, it is cut there. -/

namespace HpAgent.Library

variable {α : Type} [DecidableEq α]

def cut (marker : List α) : List α → List α
  | [] => []
  | c :: s => if marker <+: c :: s then [] else c :: cut marker s

theorem cut_here {marker s : List α} {c : α} (h : marker <+: c :: s) : cut marker (c :: s) = [] := if_pos h

theorem cut_skip {marker s : List α} {c : α} (h : ¬marker <+: c :: s) : cut marker (c :: s) = c :: cut marker s := if_neg h

/-- The marker begins nowhere in the text. -/
def Unmarked (marker s : List α) : Prop := ∀ a t, s = a ++ t → t ≠ [] → ¬marker <+: t

theorem cut_begins (marker s : List α) : cut marker s <+: s := by
  induction s with
  | nil => exact List.prefix_refl _
  | cons c s ih =>
      unfold cut
      split
      · exact List.nil_prefix
      · exact (List.prefix_cons_inj c).mpr ih

omit [DecidableEq α] in
theorem Unmarked.tail {marker s : List α} {c : α} (h : Unmarked marker (c :: s)) : Unmarked marker s := by
  intro a t hs
  exact h (c :: a) t (by rw [hs, List.cons_append])

omit [DecidableEq α] in
theorem Unmarked.beginning {marker s s' : List α} (h : Unmarked marker s) (hs : s' <+: s) : Unmarked marker s' := by
  obtain ⟨rest, hrest⟩ := hs
  intro a t ht hne hmarker
  refine h a (t ++ rest) (by rw [← hrest, ht, List.append_assoc]) ?_ (hmarker.trans (List.prefix_append t rest))
  intro happend
  exact hne (List.append_eq_nil_iff.mp happend).1

/-- What is left has no marker. -/
theorem cut_unmarked (marker s : List α) : Unmarked marker (cut marker s) := by
  induction s with
  | nil =>
      intro a t ht hne
      exact absurd (List.append_eq_nil_iff.mp ht.symm).2 hne
  | cons c s ih =>
      unfold cut
      split
      next =>
        intro a t ht hne
        exact absurd (List.append_eq_nil_iff.mp ht.symm).2 hne
      next hnot =>
        intro a t ht hne hmarker
        cases a with
        | nil =>
            have hwhole : t <+: c :: s := by
              rw [← List.nil_append t, ← ht]
              exact (List.prefix_cons_inj c).mpr (cut_begins marker s)
            exact hnot (hmarker.trans hwhole)
        | cons d a =>
            rw [List.cons_append] at ht
            injection ht with _ htail
            exact ih a t htail hne hmarker

/-! ### A marker between two equal letters -/

section Framed

variable {n : α} {w : List α}

omit [DecidableEq α] in
/-- A proper beginning of the marker that is not all but its last letter is not followed by this letter. -/
theorem not_begun (hn : n ∉ w) {s t : List α} (hs : s ≠ []) (hshort : s.length ≤ w.length) :
    ¬n :: w ++ [n] <+: s ++ n :: t := by
  intro h
  obtain ⟨rest, hrest⟩ := h
  have hat : (n :: w ++ [n] ++ rest)[s.length]? = (s ++ n :: t)[s.length]? := by rw [hrest]
  rw [List.getElem?_append_right (Nat.le_refl _), Nat.sub_self, List.getElem?_cons_zero] at hat
  have hpos : 0 < s.length := List.length_pos_of_ne_nil hs
  rw [List.getElem?_append_left (by simp; omega), List.getElem?_append_left (by simp; omega)] at hat
  obtain ⟨i, hi⟩ : ∃ i, s.length = i + 1 := ⟨s.length - 1, by omega⟩
  rw [hi, List.getElem?_cons_succ] at hat
  exact hn (List.mem_of_getElem? hat)

theorem cut_framed (hn : n ∉ w) (hw : w ≠ []) {s : List α} (t : List α) (hfree : Unmarked (n :: w ++ [n]) s)
    (hend : ¬n :: w <:+ s) : cut (n :: w ++ [n]) (s ++ n :: (n :: w ++ [n] ++ t)) = s ++ [n] := by
  induction s with
  | nil =>
      have hnot : ¬n :: w ++ [n] <+: [n] ++ n :: (w ++ [n] ++ t) :=
        not_begun hn (List.cons_ne_nil n []) (List.length_pos_of_ne_nil hw)
      have hthere : n :: w ++ [n] <+: n :: (w ++ [n] ++ t) := by
        rw [List.cons_append, List.prefix_cons_inj]
        exact List.prefix_append _ _
      simp only [List.nil_append, List.cons_append] at hnot hthere ⊢
      rw [cut, if_neg hnot, cut, if_pos hthere]
  | cons c s ih =>
      have hnot : ¬n :: w ++ [n] <+: c :: s ++ n :: (n :: w ++ [n] ++ t) := by
        intro hbegun
        by_cases hlong : (n :: w ++ [n]).length ≤ (c :: s).length
        · exact hfree [] (c :: s) rfl (List.cons_ne_nil c s)
            (List.prefix_of_prefix_length_le hbegun (List.prefix_append _ _) hlong)
        · by_cases hall : (c :: s).length = w.length + 1
          · have hmarker : n :: w <+: c :: s ++ n :: (n :: w ++ [n] ++ t) := (List.prefix_append _ _).trans hbegun
            have hsame : n :: w <+: c :: s :=
              List.prefix_of_prefix_length_le hmarker (List.prefix_append _ _) (by simp at hall ⊢; omega)
            have heq : n :: w = c :: s := hsame.eq_of_length (by rw [hall]; rfl)
            rw [heq] at hend
            exact hend (List.suffix_refl _)
          · refine not_begun hn (List.cons_ne_nil c s) ?_ hbegun
            simp only [List.length_cons, List.length_append, List.length_nil] at hlong hall ⊢
            omega
      have htail := ih hfree.tail (fun hsuffix => hend (hsuffix.trans (List.suffix_cons c s)))
      have hskip := @cut_skip _ _ (n :: w ++ [n]) (s ++ n :: (n :: w ++ [n] ++ t)) c hnot
      rw [htail] at hskip
      exact hskip

theorem cut_ended {s : List α} (t : List α) (hfree : Unmarked (n :: w ++ [n]) (s ++ n :: w)) :
    cut (n :: w ++ [n]) (s ++ (n :: w ++ n :: t)) = s := by
  have hends (s : List α) : s ++ (n :: w ++ n :: t) = (s ++ n :: w) ++ n :: t := by rw [List.append_assoc]
  induction s with
  | nil =>
      have hthere : n :: w ++ [n] <+: n :: w ++ n :: t := by
        rw [List.prefix_append_right_inj]
        exact List.prefix_append [n] t
      exact @cut_here _ _ _ (w ++ n :: t) n hthere
  | cons c s ih =>
      -- a marker that begins in the text ends before the letter that follows
      have hnot : ¬n :: w ++ [n] <+: c :: (s ++ (n :: w ++ n :: t)) := by
        intro hbegun
        refine hfree [] (c :: s ++ n :: w) rfl (List.cons_ne_nil _ _) ?_
        refine List.prefix_of_prefix_length_le hbegun ?_ (by simp)
        rw [hends]
        exact List.prefix_append _ (n :: t)
      have hskip := cut_skip hnot
      rw [ih hfree.tail] at hskip
      exact hskip

end Framed

end HpAgent.Library
