import Mathlib.Algebra.BigOperators.Group.List.Basic
import Mathlib.Data.Int.Basic
import Mathlib.Data.List.Infix
import Mathlib.Tactic.Linarith

/-! # The longest suffix that fits

A list is read from its end as long as the costs fit a bound; the last element is kept in any case.

* `fitSuffix`: the scan.
* `Fits`: what is kept may be.
* `fitSuffix_longest`: it is the longest suffix that fits. -/

namespace HpAgent.Library

variable {α : Type}

/-- Read the reversed rest: an element is kept while the costs fit, and the first one always. -/
def fitSuffix (cost : α → ℕ) (bound : ℤ) : List α → ℕ → List α → List α
  | kept, _, [] => kept
  | kept, running, a :: rest =>
      if bound < running + cost a ∧ kept ≠ [] then kept else fitSuffix cost bound (a :: kept) (running + cost a) rest

/-- At most one element, or costs within the bound. -/
def Fits (cost : α → ℕ) (bound : ℤ) (s : List α) : Prop := s.length ≤ 1 ∨ ((s.map cost).sum : ℤ) ≤ bound

variable {cost : α → ℕ} {bound : ℤ}

/-- What fits has suffixes that fit. -/
theorem Fits.suffix {s t : List α} (h : Fits cost bound s) (hsuffix : t <:+ s) : Fits cost bound t := by
  obtain ⟨before, rfl⟩ := hsuffix
  rcases h with hlength | hsum
  · refine .inl ?_
    rw [List.length_append] at hlength
    omega
  · refine .inr ?_
    rw [List.map_append, List.sum_append] at hsum
    omega

theorem fitSuffix_spec {kept rest : List α} (hkept : Fits cost bound kept) :
    let result := fitSuffix cost bound kept (kept.map cost).sum rest
    kept <:+ result ∧ result <:+ rest.reverse ++ kept ∧ Fits cost bound result ∧
      ∀ s, s <:+ rest.reverse ++ kept → Fits cost bound s → s <:+ result := by
  induction rest generalizing kept with
  | nil => exact ⟨List.suffix_refl _, by simp [fitSuffix], hkept, fun s hs _ => by simpa [fitSuffix] using hs⟩
  | cons a rest ih =>
      have hmore : (a :: rest).reverse ++ kept = rest.reverse ++ (a :: kept) := by simp
      unfold fitSuffix
      split
      · next hstop =>
          refine ⟨List.suffix_refl _, List.suffix_append _ _, hkept, fun s hs hfits => ?_⟩
          -- a longer suffix contains the element that does not fit
          rcases List.suffix_or_suffix_of_suffix hs (List.suffix_append _ _) with hshort | hlong
          · exact hshort
          · rw [hmore] at hs
            by_cases heq : s = kept
            · exact heq ▸ List.suffix_refl _
            · have hcontains : a :: kept <:+ s := by
                rcases List.suffix_or_suffix_of_suffix hs (List.suffix_append _ _) with hshort | hbig
                · rcases List.suffix_cons_iff.mp hshort with rfl | hshort
                  · exact List.suffix_refl _
                  · exact absurd (hlong.eq_of_length_le hshort.length_le).symm heq
                · exact hbig
              rcases hfits.suffix hcontains with hlength | hsum
              · rw [List.length_cons] at hlength
                have hpos := List.length_pos_of_ne_nil hstop.2
                omega
              · rw [List.map_cons, List.sum_cons] at hsum
                have hover := hstop.1
                omega
      · next hgo =>
          have hfits : Fits cost bound (a :: kept) := by
            rcases not_and_or.mp hgo with hsum | hempty
            · refine .inr ?_
              rw [List.map_cons, List.sum_cons]
              omega
            · rw [not_not] at hempty
              subst hempty
              exact .inl le_rfl
          have hrest := ih hfits
          rw [List.map_cons, List.sum_cons, Nat.add_comm] at hrest
          rw [hmore]
          exact ⟨(List.suffix_cons a kept).trans hrest.1, hrest.2⟩

/-- **The scan keeps the longest suffix that fits.** -/
theorem fitSuffix_longest (cost : α → ℕ) (bound : ℤ) (l : List α) :
    fitSuffix cost bound [] 0 l.reverse <:+ l ∧ Fits cost bound (fitSuffix cost bound [] 0 l.reverse) ∧
      ∀ s, s <:+ l → Fits cost bound s → s <:+ fitSuffix cost bound [] 0 l.reverse := by
  have h := @fitSuffix_spec α cost bound [] l.reverse (.inl (Nat.zero_le _))
  rw [List.reverse_reverse, List.append_nil] at h
  exact h.2

end HpAgent.Library
