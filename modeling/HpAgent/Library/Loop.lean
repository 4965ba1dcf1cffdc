import Mathlib.Data.Nat.Basic

/-! # Loops that end

`loop step n s` takes steps from `s` until there is none left, but no more than `n` of them.

* `loop_ends`: with a measure that every step lowers, a loop ends, where no step is left and the invariant holds.
* `loop_mono`: more steps change nothing then. -/

namespace HpAgent.Library

variable {σ : Type} {step : σ → Option σ}

/-- The state in which the loop stops; `none` while it still runs. -/
def loop (step : σ → Option σ) : ℕ → σ → Option σ
  | 0, _ => none
  | n + 1, s =>
      match step s with
      | none => some s
      | some t => loop step n t

theorem loop_stop {s : σ} (n : ℕ) (h : step s = none) : loop step (n + 1) s = some s := by
  simp only [loop, h]

theorem loop_next {s t : σ} (n : ℕ) (h : step s = some t) : loop step (n + 1) s = loop step n t := by
  simp only [loop, h]

theorem loop_mono {n m : ℕ} {s t : σ} (h : loop step n s = some t) (hle : n ≤ m) : loop step m s = some t := by
  induction n generalizing s m with
  | zero => exact absurd h (by simp [loop])
  | succ n ih =>
      obtain ⟨k, rfl⟩ : ∃ k, m = k + 1 := ⟨m - 1, by omega⟩
      cases hs : step s with
      | none =>
          rw [loop_stop n hs] at h
          rw [loop_stop k hs]
          exact h
      | some r =>
          rw [loop_next n hs] at h
          rw [loop_next k hs]
          apply ih h
          omega

/-- A loop whose steps keep an invariant and lower a measure stops, in a state that has the invariant. -/
theorem loop_ends {P : σ → Prop} {μ : σ → ℕ} (hstep : ∀ s t, P s → step s = some t → P t ∧ μ t < μ s) {n : ℕ} {s : σ}
    (hs : P s) (hn : μ s < n) : ∃ t, loop step n s = some t ∧ P t ∧ step t = none := by
  induction n generalizing s with
  | zero => omega
  | succ n ih =>
      cases hnext : step s with
      | none => exact ⟨s, loop_stop n hnext, hs, hnext⟩
      | some r =>
          have hr := hstep s r hs hnext
          have hlow : μ r < n := by
            have := hr.2
            omega
          rw [loop_next n hnext]
          exact ih hr.1 hlow

end HpAgent.Library
