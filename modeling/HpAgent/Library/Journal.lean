import Mathlib.Data.Nat.Notation
import Mathlib.Logic.Function.Basic
import Mathlib.Order.Defs.Unbundled

/-! # Journals

A `Journal` is a family of append-only streams: `entry s n` is what stands at position `n` of stream `s`, and
`version s` counts the entries of `s`.  It is `Exact` for a notion of source when the positions of every
stream are `1, …, version s` without a gap and no source has two entries anywhere.

`append` is the only way to add an entry.  It keeps exactness when the source is new (`Exact.append`), and it
never touches what is there (`extends_append`); `Extends` is a preorder, so this carries over to whole runs. -/

namespace HpAgent.Library

/-- Streams `σ` of entries `ε`. -/
structure Journal (σ ε : Type) where
  version : σ → ℕ
  entry : σ → ℕ → Option ε

namespace Journal

variable {σ ε ο : Type} [DecidableEq σ] {j : Journal σ ε} {source : ε → ο} {s : σ} {e : ε}

/-- No source has two entries, and positions have no gaps. -/
structure Exact (source : ε → ο) (j : Journal σ ε) : Prop where
  contiguous : ∀ s n, (j.entry s n).isSome ↔ 1 ≤ n ∧ n ≤ j.version s
  once : ∀ s s' n n' e e', j.entry s n = some e → j.entry s' n' = some e' → source e = source e' →
    s = s' ∧ n = n'

/-- Add `e` at the end of the stream `s`. -/
def append (j : Journal σ ε) (s : σ) (e : ε) : Journal σ ε where
  version := Function.update j.version s (j.version s + 1)
  entry s' n := if s' = s ∧ n = j.version s + 1 then some e else j.entry s' n

theorem version_append (s' : σ) :
    (j.append s e).version s' = if s' = s then j.version s + 1 else j.version s' := by
  simp [append, Function.update_apply]

theorem entry_append (s' : σ) (n : ℕ) :
    (j.append s e).entry s' n = if s' = s ∧ n = j.version s + 1 then some e else j.entry s' n := rfl

/-- Everything in the first journal stands in the second. -/
def Extends (j j' : Journal σ ε) : Prop := ∀ s n e, j.entry s n = some e → j'.entry s n = some e

omit [DecidableEq σ] in
instance : IsPreorder (Journal σ ε) Extends where
  refl _ _ _ _ h := h
  trans _ _ _ h h' s n e he := h' s n e (h s n e he)

omit [DecidableEq σ] in
/-- The position after the last one is free. -/
theorem Exact.entry_next (h : Exact source j) (s : σ) : j.entry s (j.version s + 1) = none := by
  rw [← Option.not_isSome_iff_eq_none, h.contiguous]
  omega

theorem extends_append (h : Exact source j) : Extends j (j.append s e) := by
  intro s' n e' he
  rw [entry_append, if_neg]
  · exact he
  · rintro ⟨rfl, rfl⟩
    rw [h.entry_next] at he
    cases he

/-- An entry of a new source keeps the journal exact. -/
theorem Exact.append (h : Exact source j) (hnew : ∀ s' n e', j.entry s' n = some e' → source e' ≠ source e) :
    Exact source (j.append s e) := by
  constructor
  · intro s' n
    have hold := h.contiguous s' n
    rw [entry_append, version_append]
    by_cases hs : s' = s
    · subst hs
      by_cases hn : n = j.version s' + 1
      · simp [hn]
      · simp only [hn, and_false, if_false, if_true, hold]
        omega
    · simp only [hs, false_and, if_false, hold]
  · intro s₁ s₂ n₁ n₂ e₁ e₂ h₁ h₂ hsource
    rw [entry_append] at h₁ h₂
    split at h₁ <;> split at h₂
    · next hk₁ hk₂ => exact ⟨hk₁.1.trans hk₂.1.symm, hk₁.2.trans hk₂.2.symm⟩
    · obtain rfl := Option.some.inj h₁
      exact absurd hsource.symm (hnew s₂ n₂ e₂ h₂)
    · obtain rfl := Option.some.inj h₂
      exact absurd hsource (hnew s₁ n₁ e₁ h₁)
    · exact h.once s₁ s₂ n₁ n₂ e₁ e₂ h₁ h₂ hsource

end Journal

end HpAgent.Library
