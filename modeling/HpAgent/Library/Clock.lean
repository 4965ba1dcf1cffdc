import Mathlib.Order.Bounds.Basic
import Mathlib.Order.Interval.Set.Defs

/-! # Clocks of time zones

A zone gives each instant an offset, and its clock shows the instant plus the offset: clock times are skipped when the
offset grows (a gap) and shown twice when it shrinks (a fold).  A clock time resolves to the first instant that shows
it; what a skipped one resolves to is not said.

* `instantOf_eq_some`, `instantOf_eq_none`: the round trip through the clock finds the first instant, or that the time is
  skipped.
* `Steady`: the clock goes back only over times it has shown.  Then first instants are ordered as their clock times
  (`Steady.instantOf_lt`).
* `shift`: the zones with one transition, all of them steady.

Instants, offsets and clock times are counted in microseconds. -/

namespace HpAgent.Library

/-- The microseconds of a day. -/
def dayLength : ℤ := 86400000000

/-- A time zone. -/
structure Zone where
  offset : ℤ → ℤ
  /-- The instant of a clock time, before any fold. -/
  resolve : ℤ → ℤ
  bounded : ∀ u, -dayLength < offset u ∧ offset u < dayLength
  first : ∀ u, resolve (u + offset u) ≤ u ∧ resolve (u + offset u) + offset (resolve (u + offset u)) = u + offset u

namespace Zone

variable {z : Zone} {u v x y : ℤ}

/-- The clock time of an instant. -/
def wall (z : Zone) (u : ℤ) : ℤ := u + z.offset u

/-- The calendar day of an instant. -/
def date (z : Zone) (u : ℤ) : ℤ := z.wall u / dayLength

/-- The instant of a clock time that is shown. -/
def instantOf (z : Zone) (x : ℤ) : Option ℤ := if z.wall (z.resolve x) = x then some (z.resolve x) else none

theorem resolve_wall (z : Zone) (u : ℤ) : z.resolve (z.wall u) ≤ u ∧ z.wall (z.resolve (z.wall u)) = z.wall u := z.first u

/-- The instant of a clock time is the first that shows it. -/
theorem instantOf_eq_some : z.instantOf x = some u ↔ IsLeast { v | z.wall v = x } u := by
  unfold instantOf
  constructor
  · intro h
    split at h
    · next hshown =>
        obtain rfl := Option.some.inj h
        refine ⟨hshown, fun v hv => ?_⟩
        have hv : z.wall v = x := hv
        rw [← hv]
        exact (z.resolve_wall v).1
    · cases h
  · rintro ⟨hu, hleast⟩
    have hu : z.wall u = x := hu
    obtain ⟨hle, hshown⟩ := z.resolve_wall u
    rw [hu] at hle hshown
    rw [if_pos hshown]
    exact congrArg some (le_antisymm hle (hleast hshown))

theorem instantOf_eq_none : z.instantOf x = none ↔ ∀ u, z.wall u ≠ x := by
  unfold instantOf
  constructor
  · intro h u hu
    split at h
    · cases h
    · next hskipped =>
        rw [← hu] at hskipped
        exact hskipped (z.resolve_wall u).2
  · intro h
    rw [if_neg (h _)]

theorem wall_instantOf (h : z.instantOf x = some u) : z.wall u = x := (instantOf_eq_some.mp h).1

/-- The clock goes back only over times it has shown: what it shows for the first time is later than all before. -/
def Steady (z : Zone) : Prop := ∀ u v, u < v → (∀ w < v, z.wall w ≠ z.wall v) → z.wall u < z.wall v

/-- Before a clock time is shown, only earlier ones are. -/
theorem Steady.wall_lt (hz : z.Steady) (hv : z.instantOf x = some v) (huv : u < v) : z.wall u < x := by
  have hleast := instantOf_eq_some.mp hv
  have hshown : z.wall v = x := hleast.1
  have hlt := hz u v huv fun w hw heq => by
    have hge := hleast.2 (heq.trans hshown)
    omega
  rw [hshown] at hlt
  exact hlt

theorem Steady.instantOf_lt (hz : z.Steady) (hu : z.instantOf x = some u) (hv : z.instantOf y = some v) (hxy : x < y) :
    u < v := by
  by_contra hge
  have hwall := wall_instantOf hv
  have hne : v ≠ u := by
    rintro rfl
    have hsame := wall_instantOf hu
    omega
  have hlt := hz.wall_lt hu (lt_of_le_of_ne (not_lt.mp hge) hne)
  omega

theorem Steady.instantOf_lt_iff (hz : z.Steady) (hu : z.instantOf x = some u) (hv : z.instantOf y = some v) :
    u < v ↔ x < y := by
  refine ⟨fun huv => ?_, hz.instantOf_lt hu hv⟩
  have hlt := hz.wall_lt hv huv
  rw [wall_instantOf hu] at hlt
  exact hlt

/-- The zone whose offset changes once, at `T`; a skipped time resolves with the offset before. -/
def shift (T before after : ℤ) (hbefore : -dayLength < before ∧ before < dayLength)
    (hafter : -dayLength < after ∧ after < dayLength) : Zone where
  offset u := if u < T then before else after
  resolve x := if x < T + max before after then x - before else x - after
  bounded u := by
    split
    · exact hbefore
    · exact hafter
  first u := by
    by_cases hu : u < T
    · rw [if_pos hu, if_pos (by omega)]
      exact ⟨by omega, by rw [if_pos (by omega)]; omega⟩
    · rw [if_neg hu]
      by_cases hx : u + after < T + max before after
      · rw [if_pos hx]
        exact ⟨by omega, by rw [if_pos (by omega)]; omega⟩
      · rw [if_neg hx]
        exact ⟨by omega, by rw [if_neg (by omega)]; omega⟩

theorem shift_steady (T before after : ℤ) (hbefore : -dayLength < before ∧ before < dayLength)
    (hafter : -dayLength < after ∧ after < dayLength) : (shift T before after hbefore hafter).Steady := by
  intro u v huv hfirst
  unfold wall shift at hfirst ⊢
  dsimp only at hfirst ⊢
  by_cases hv : v < T
  · rw [if_pos hv, if_pos (huv.trans hv)]
    omega
  · by_cases hu : u < T
    · rw [if_neg hv, if_pos hu]
      -- shown after a fold for the first time, so not before the transition
      by_contra hle
      refine hfirst (v + after - before) (by omega) ?_
      rw [if_pos (by omega), if_neg hv]
      omega
    · rw [if_neg hv, if_neg hu]
      omega

end Zone

end HpAgent.Library
