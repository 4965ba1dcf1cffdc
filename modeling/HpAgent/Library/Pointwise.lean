import Mathlib.Logic.Function.Basic
import Mathlib.Data.List.Basic
import Mathlib.Data.List.Nodup
import HpAgent.Library.Transaction

/-! # Loops that write each key once

A `for key, value in items` loop whose iterations each rewrite the entry of their own key is described
pointwise: after the loop the entry of `j` is what iteration `j` made of it, and entries of keys that
are not iterated are untouched.  `foldl_pointwise` says so for a pure loop and `foldlM_pointwise` for a
loop inside a transaction, where `get` reads the part of the loop state that is being described. -/

namespace HpAgent.Library

variable {σ ι α β : Type} [DecidableEq ι]

/-- The value a list of items holds for a key. -/
def itemAt (items : List (ι × α)) (j : ι) : Option α := (items.find? fun p => p.1 = j).map Prod.snd

theorem itemAt_cons (p : ι × α) (items : List (ι × α)) (j : ι) :
    itemAt (p :: items) j = if p.1 = j then some p.2 else itemAt items j := by
  by_cases h : p.1 = j <;> simp [itemAt, h]

theorem itemAt_eq_none {items : List (ι × α)} {j : ι} (h : j ∉ items.map Prod.fst) :
    itemAt items j = none := by
  induction items with
  | nil => rfl
  | cons p rest ih =>
      rw [List.map_cons, List.mem_cons, not_or] at h
      rw [itemAt_cons, if_neg (Ne.symm h.1), ih h.2]

/-- A pure loop that rewrites each key once. -/
theorem foldl_pointwise (get : σ → ι → β) {f : σ → ι × α → σ} (φ : ι → α → β → β)
    (hstep : ∀ s p j, get (f s p) j = if j = p.1 then φ p.1 p.2 (get s j) else get s j)
    {items : List (ι × α)} (hnodup : (items.map Prod.fst).Nodup) (s : σ) (j : ι) :
    get (items.foldl f s) j = (itemAt items j).elim (get s j) fun a => φ j a (get s j) := by
  induction items generalizing s with
  | nil => rfl
  | cons p rest ih =>
      rw [List.map_cons, List.nodup_cons] at hnodup
      rw [List.foldl_cons, ih hnodup.2, hstep, itemAt_cons]
      by_cases h : p.1 = j
      · subst h
        rw [itemAt_eq_none hnodup.1, if_pos rfl, if_pos rfl]
        rfl
      · rw [if_neg (Ne.symm h), if_neg h]

/-- A loop inside a transaction that rewrites each key once; `get` reads the loop variable and the
store together. -/
theorem foldlM_pointwise {ε τ : Type} (get : τ × σ → ι → β) {f : τ → ι × α → Tx ε σ τ} (φ : ι → α → β → β)
    (hstep : ∀ b p s b' s', (f b p).run s = .ok (b', s') → ∀ j,
      get (b', s') j = if j = p.1 then φ p.1 p.2 (get (b, s) j) else get (b, s) j)
    {items : List (ι × α)} (hnodup : (items.map Prod.fst).Nodup) {b b' : τ} {s s' : σ}
    (hrun : (items.foldlM f b).run s = .ok (b', s')) (j : ι) :
    get (b', s') j = (itemAt items j).elim (get (b, s) j) fun a => φ j a (get (b, s) j) := by
  induction items generalizing b s with
  | nil =>
      rw [List.foldlM_nil, Tx.pure_ok] at hrun
      obtain ⟨rfl, rfl⟩ := hrun
      rfl
  | cons p rest ih =>
      rw [List.foldlM_cons, Tx.bind_ok] at hrun
      obtain ⟨b₁, s₁, h₁, hrest⟩ := hrun
      rw [List.map_cons, List.nodup_cons] at hnodup
      rw [ih hnodup.2 hrest, hstep b p s b₁ s₁ h₁, itemAt_cons]
      by_cases h : p.1 = j
      · subst h
        rw [itemAt_eq_none hnodup.1, if_pos rfl, if_pos rfl]
        rfl
      · rw [if_neg (Ne.symm h), if_neg h]

end HpAgent.Library
