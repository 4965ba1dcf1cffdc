import Mathlib.Order.Lattice
import Mathlib.Data.Nat.Notation

/-! # Fencing tokens

A `Register` hands out a resource to one owner at a time, each time with a token.  `held` is the last
holder with the end of its lease, until it is given back; a lease that has run out is as good as none.

A register is `Consistent` with the list of grants made so far (latest first) when no grant carries a larger
token than the register, the current holder is the only owner of the current token, and tokens increase
between different owners.  Each way a register can change keeps this: a holder asks again
(`Consistent.again`), another owner takes over (`Consistent.take`), the lease is prolonged
(`Consistent.renew`), given back (`Consistent.drop`) or revoked (`Consistent.revoke`).

Time is any linear order; that it advances between the calls is not assumed. -/

namespace HpAgent.Library

/-- A lease with a fencing token, for owners `ω` and a clock `τ`. -/
structure Register (ω τ : Type) where
  token : ℕ
  held : Option (ω × τ)

namespace Register

variable {ω τ : Type}

/-- A register nobody has held. -/
def fresh : Register ω τ := ⟨0, none⟩

/-- The lease has not run out at `now`. -/
def Live [LinearOrder τ] (r : Register ω τ) (now : τ) : Prop := ∃ o t, r.held = some (o, t) ∧ now < t

/-- The register and the grants it has made, latest first. -/
structure Consistent (r : Register ω τ) (grants : List (ω × ℕ)) : Prop where
  bounded : ∀ g ∈ grants, g.2 ≤ r.token
  current : ∀ o t, r.held = some (o, t) → ∀ g ∈ grants, g.2 = r.token → g.1 = o
  ordered : grants.Pairwise fun later earlier => earlier.1 ≠ later.1 → earlier.2 < later.2

theorem consistent_fresh : Consistent (fresh : Register ω τ) [] := by
  constructor
  · simp
  · simp [fresh]
  · exact List.Pairwise.nil

namespace Consistent

variable {r : Register ω τ} {grants : List (ω × ℕ)} {o : ω} {t t' : τ}

/-- The holder asks again and gets the same token. -/
theorem again (h : Consistent r grants) (hheld : r.held = some (o, t)) :
    Consistent ⟨r.token, some (o, t')⟩ ((o, r.token) :: grants) := by
  constructor
  · intro g hg
    rcases List.mem_cons.mp hg with rfl | hg
    · exact Nat.le_refl _
    · exact h.bounded g hg
  · intro o' t'' ho g hg htoken
    have howner : o = o' := (Prod.mk.inj (Option.some.inj ho)).1
    rcases List.mem_cons.mp hg with rfl | hg
    · exact howner
    · rw [← howner]
      exact h.current o t hheld g hg htoken
  · apply List.Pairwise.cons _ h.ordered
    intro g hg hne
    have hle := h.bounded g hg
    have hneq : g.2 ≠ r.token := fun he => hne (h.current o t hheld g hg he)
    show g.2 < r.token
    omega

/-- A new owner gets a larger token. -/
theorem take (h : Consistent r grants) :
    Consistent ⟨r.token + 1, some (o, t)⟩ ((o, r.token + 1) :: grants) := by
  have hbelow : ∀ g ∈ grants, g.2 < r.token + 1 := by
    intro g hg
    have hle := h.bounded g hg
    omega
  constructor
  · intro g hg
    rcases List.mem_cons.mp hg with rfl | hg
    · exact Nat.le_refl _
    · exact Nat.le_of_lt (hbelow g hg)
  · intro o' t' ho g hg htoken
    rcases List.mem_cons.mp hg with rfl | hg
    · exact (Prod.mk.inj (Option.some.inj ho)).1
    · have hlt := hbelow g hg
      simp only at htoken
      omega
  · apply List.Pairwise.cons _ h.ordered
    intro g hg _
    exact hbelow g hg

/-- The lease of the holder is prolonged. -/
theorem renew (h : Consistent r grants) (hheld : r.held = some (o, t)) :
    Consistent ⟨r.token, some (o, t')⟩ grants := by
  constructor
  · exact h.bounded
  · intro o' t'' ho g hg htoken
    rw [← (Prod.mk.inj (Option.some.inj ho)).1]
    exact h.current o t hheld g hg htoken
  · exact h.ordered

/-- The lease is given back. -/
theorem drop (h : Consistent r grants) : Consistent (⟨r.token, none⟩ : Register ω τ) grants := by
  constructor
  · exact h.bounded
  · simp
  · exact h.ordered

/-- The lease is taken away: its token is never handed out again. -/
theorem revoke (h : Consistent r grants) : Consistent (⟨r.token + 1, none⟩ : Register ω τ) grants := by
  constructor
  · intro g hg
    have hle := h.bounded g hg
    show g.2 ≤ r.token + 1
    omega
  · simp
  · exact h.ordered

end Consistent

end Register

end HpAgent.Library
