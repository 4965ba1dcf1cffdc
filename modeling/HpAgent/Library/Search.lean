import Mathlib.Data.Finset.Card
import Mathlib.Data.List.Nodup
import Mathlib.Data.List.Perm.Subperm

/-! # The first free one

`search` looks through a sequence for the first element that is not taken.

* `search_spec`: it is the first.
* `search_ends`: if the sequence repeats nothing, it is found before one more step than there are taken elements. -/

namespace HpAgent.Library

variable {κ : Type} [DecidableEq κ] {taken : List κ} {f : ℕ → κ}

/-- The first place from `k` on, of `fuel` many, whose element is not taken. -/
def search (taken : List κ) (f : ℕ → κ) : ℕ → ℕ → Option ℕ
  | 0, _ => none
  | fuel + 1, k => if f k ∈ taken then search taken f fuel (k + 1) else some k

theorem search_spec {fuel k m : ℕ} (h : search taken f fuel k = some m) :
    k ≤ m ∧ f m ∉ taken ∧ ∀ j, k ≤ j → j < m → f j ∈ taken := by
  induction fuel generalizing k with
  | zero => cases h
  | succ fuel ih =>
      unfold search at h
      split at h
      · next hmem =>
          obtain ⟨hle, hfree, hbefore⟩ := ih h
          refine ⟨by omega, hfree, fun j hj hjm => ?_⟩
          obtain rfl | hlt := Nat.eq_or_lt_of_le hj
          · exact hmem
          · exact hbefore j hlt hjm
      · next hfree =>
          obtain rfl := Option.some.inj h
          exact ⟨Nat.le_refl _, hfree, fun j hj hjm => absurd hjm (by omega)⟩

/-- What is passed over is taken. -/
theorem search_none {fuel k : ℕ} (h : search taken f fuel k = none) : ∀ i < fuel, f (k + i) ∈ taken := by
  induction fuel generalizing k with
  | zero => exact fun i hi => absurd hi (Nat.not_lt_zero i)
  | succ fuel ih =>
      unfold search at h
      split at h
      · next hmem =>
          intro i hi
          cases i with
          | zero => exact hmem
          | succ i =>
              have hlater := ih h i (by omega)
              rwa [Nat.add_assoc, Nat.add_comm 1 i] at hlater
      · cases h

/-- **The search ends**: the elements that are passed over are as many as they are different. -/
theorem search_ends (hf : Function.Injective f) {fuel : ℕ} (k : ℕ) (hfuel : taken.length < fuel) :
    ∃ m, search taken f fuel k = some m := by
  cases h : search taken f fuel k with
  | some m => exact ⟨m, rfl⟩
  | none =>
      have hpassed := search_none h
      have hnodup : ((List.range fuel).map fun i => f (k + i)).Nodup :=
        List.nodup_range.map fun i j hij => Nat.add_left_cancel (hf hij)
      have hsubset : ((List.range fuel).map fun i => f (k + i)) ⊆ taken := by
        intro x hx
        obtain ⟨i, hi, rfl⟩ := List.mem_map.mp hx
        exact hpassed i (List.mem_range.mp hi)
      have hlength := (hnodup.subperm hsubset).length_le
      rw [List.length_map, List.length_range] at hlength
      omega

/-- More fuel finds the same. -/
theorem search_mono {fuel fuel' k m : ℕ} (h : search taken f fuel k = some m) (hle : fuel ≤ fuel') :
    search taken f fuel' k = some m := by
  induction fuel generalizing fuel' k with
  | zero => cases h
  | succ fuel ih =>
      cases fuel' with
      | zero => omega
      | succ fuel' =>
          unfold search at h ⊢
          split at h
          · next hmem =>
              rw [if_pos hmem]
              exact ih h (by omega)
          · next hfree =>
              rw [if_neg hfree]
              exact h

end HpAgent.Library
