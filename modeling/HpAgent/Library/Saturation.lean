import Mathlib.Data.List.Basic
import Mathlib.Logic.Relation

/-! # Selections that grow to a fixed point

A recursive query selects rows of a table until a round adds nothing.  `grow p l n` is what `n` rounds over the rows `l`
select, when a round selects the rows that satisfy `p` given what is selected already.

* `grow_saturated`: with a monotone condition, as many rounds as there are rows reach the fixed point.
* `mem_grow_of_closed`: what a round selects from the fixed point is in it.
* `mem_grow_iff`: a selection along edges is what can be reached. -/

namespace HpAgent.Library

variable {α : Type} (p : List α → α → Bool) (l : List α)

/-- What `n` rounds select. -/
def grow : ℕ → List α
  | 0 => []
  | n + 1 => l.filter (p (grow n))

theorem grow_subset {n : ℕ} {a : α} (h : a ∈ grow p l n) : a ∈ l := by
  cases n with
  | zero => exact absurd h List.not_mem_nil
  | succ n => exact List.mem_of_mem_filter h

theorem grow_sublist_rows (n : ℕ) : (grow p l n).Sublist l := by
  cases n with
  | zero => exact List.nil_sublist l
  | succ n => exact List.filter_sublist

/-- What satisfies the condition for fewer rows satisfies it for more. -/
def MonotoneIn : Prop := ∀ xs ys a, (∀ x ∈ xs, x ∈ ys) → p xs a = true → p ys a = true

variable {p} (hp : MonotoneIn p)

include hp

theorem grow_sublist (n : ℕ) : (grow p l n).Sublist (grow p l (n + 1)) := by
  induction n with
  | zero => exact List.nil_sublist _
  | succ n ih => exact List.monotone_filter_right l fun a ha => hp _ _ a (fun x hx => ih.subset hx) ha

/-- A round adds a row, or none is added any more. -/
theorem grow_progress (n : ℕ) : grow p l (n + 1) = grow p l n ∨ n < (grow p l (n + 1)).length := by
  induction n with
  | zero =>
      cases h : grow p l 1 with
      | nil => exact .inl rfl
      | cons a rest => exact .inr (by simp)
  | succ n ih =>
      rcases ih with hfixed | hlong
      · left
        show l.filter (p (grow p l (n + 1))) = l.filter (p (grow p l n))
        rw [hfixed]
      · have hsub := grow_sublist l hp (n + 1)
        by_cases hlength : (grow p l (n + 1)).length = (grow p l (n + 1 + 1)).length
        · exact .inl (hsub.eq_of_length hlength).symm
        · have hle := hsub.length_le
          right
          omega

/-- As many rounds as there are rows are enough. -/
theorem grow_saturated : grow p l (l.length + 1) = grow p l l.length := by
  rcases grow_progress l hp l.length with hfixed | hlong
  · exact hfixed
  · have hle : (grow p l (l.length + 1)).length ≤ l.length := List.length_filter_le _ _
    omega

theorem mem_grow_of_closed {a : α} (ha : a ∈ l) (h : p (grow p l l.length) a = true) : a ∈ grow p l l.length := by
  rw [← grow_saturated l hp]
  exact List.mem_filter.mpr ⟨ha, h⟩

omit hp

/-! ### Selections along edges -/

variable (base : α → Bool) (edge : α → α → Bool)

theorem monotoneIn_edges : MonotoneIn fun seen a => base a || seen.any fun s => edge s a := by
  intro xs ys a hsub h
  rw [Bool.or_eq_true, List.any_eq_true] at h ⊢
  rcases h with hbase | ⟨s, hs, hedge⟩
  · exact .inl hbase
  · exact .inr ⟨s, hsub s hs, hedge⟩

/-- **The rows of the base, and what an edge leads to from a selected row, are the rows reached from the base.** -/
theorem mem_grow_iff {a : α} :
    a ∈ grow (fun seen a => base a || seen.any fun s => edge s a) l l.length ↔
      ∃ b ∈ l, base b = true ∧ Relation.ReflTransGen (fun x y => y ∈ l ∧ edge x y = true) b a := by
  constructor
  · -- one round after the other
    generalize l.length = n
    intro h
    induction n generalizing a with
    | zero => exact absurd h List.not_mem_nil
    | succ n ih =>
        obtain ⟨ha, hround⟩ := List.mem_filter.mp h
        rw [Bool.or_eq_true, List.any_eq_true] at hround
        rcases hround with hbase | ⟨s, hs, hedge⟩
        · exact ⟨a, ha, hbase, .refl⟩
        · obtain ⟨b, hb, hbase, hreach⟩ := ih hs
          exact ⟨b, hb, hbase, hreach.tail ⟨ha, hedge⟩⟩
  · rintro ⟨b, hb, hbase, hreach⟩
    have hclosed : ∀ {a}, a ∈ l → (base a || (grow (fun seen a => base a || seen.any fun s => edge s a) l l.length).any
        fun s => edge s a) = true → a ∈ grow (fun seen a => base a || seen.any fun s => edge s a) l l.length :=
      fun ha h => mem_grow_of_closed l (monotoneIn_edges base edge) ha h
    induction hreach with
    | refl => exact hclosed hb (by rw [hbase, Bool.true_or])
    | tail _ hstep ih => exact hclosed hstep.1 (Bool.or_eq_true_iff.mpr (.inr (List.any_eq_true.mpr ⟨_, ih, hstep.2⟩)))

end HpAgent.Library
