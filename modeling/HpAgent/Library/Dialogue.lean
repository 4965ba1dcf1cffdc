import Mathlib.Data.List.Nodup
import Mathlib.Data.Nat.Notation

/-! # Dialogues

A `Dialogue` is a program that asks an environment and may raise.  It reads the exchanges of the past and gives the
exchanges that it adds, with its value or its error; an answer may depend on everything that was exchanged before.

* `ask`: one exchange.
* `rounds`: a loop that its body continues or leaves.
* `Adds`: what holds of the added exchanges and the outcome (`Adds.bind`, `Adds.rounds`).
* `Fresh`: when no label is given twice (`Fresh.append`, `Fresh.flatMap`). -/

namespace HpAgent.Library

/-- A program over exchanges `χ` that raises `ε` or returns `α`. -/
def Dialogue (χ ε α : Type) := List χ → List χ × Except ε α

namespace Dialogue

variable {χ ε α β ρ σ : Type}

protected def pure (a : α) : Dialogue χ ε α := fun _ => ([], .ok a)

/-- What the second part adds comes after what the first part added. -/
protected def bind (m : Dialogue χ ε α) (f : α → Dialogue χ ε β) : Dialogue χ ε β := fun past =>
  match m past with
  | (added, .ok a) => (added ++ (f a (past ++ added)).1, (f a (past ++ added)).2)
  | (added, .error e) => (added, .error e)

instance : Monad (Dialogue χ ε) where
  pure := Dialogue.pure
  bind := Dialogue.bind

/-- One exchange; the answer is recorded with the question. -/
def ask (answer : List χ → ρ) (entry : ρ → χ) : Dialogue χ ε ρ := fun past => ([entry (answer past)], .ok (answer past))

def ofExcept (r : Except ε α) : Dialogue χ ε α := fun _ => ([], r)

def raise (e : ε) : Dialogue χ ε α := ofExcept (.error e)

/-- At most `n` rounds of the body; `none` when they do not suffice. -/
def rounds (body : σ → Dialogue χ ε (σ ⊕ α)) : ℕ → σ → Dialogue χ ε (Option α)
  | 0, _ => pure none
  | n + 1, s => do
      match ← body s with
      | .inl t => rounds body n t
      | .inr a => pure (some a)

/-! ### What a program adds -/

/-- Whatever the past, this holds of the added exchanges and the outcome. -/
def Adds (m : Dialogue χ ε α) (R : List χ → Except ε α → Prop) : Prop := ∀ past, R (m past).1 (m past).2

section adds

variable {m : Dialogue χ ε α} {f : α → Dialogue χ ε β} {R R' : List χ → Except ε α → Prop} {T : List χ → Except ε β → Prop}

theorem Adds.mono (hm : m.Adds R) (h : ∀ added r, R added r → R' added r) : m.Adds R' := fun past => h _ _ (hm past)

theorem Adds.pure {a : α} (h : R [] (.ok a)) : (pure a : Dialogue χ ε α).Adds R := fun _ => h

theorem Adds.ofExcept {r : Except ε α} (h : R [] r) : (ofExcept r : Dialogue χ ε α).Adds R := fun _ => h

theorem Adds.raise {e : ε} (h : R [] (.error e)) : (raise e : Dialogue χ ε α).Adds R := fun _ => h

/-- The second part is told what the first part added, and continues it. -/
theorem Adds.bind (hm : m.Adds R) (herror : ∀ x e, R x (.error e) → T x (.error e))
    (hf : ∀ x a, R x (.ok a) → (f a).Adds fun y r => T (x ++ y) r) : (m >>= f).Adds T := by
  intro past
  have hfirst := hm past
  show T (Dialogue.bind m f past).1 (Dialogue.bind m f past).2
  unfold Dialogue.bind
  split
  · next added a heq =>
      rw [heq] at hfirst
      exact hf added a hfirst (past ++ added)
  · next added e heq =>
      rw [heq] at hfirst
      exact herror added e hfirst

/-- What a round must do for `T` to hold of the loop: end it so, or leave a smaller measure and continue what comes. -/
def Round (P : σ → Prop) (μ : σ → ℕ) (T : σ → List χ → Except ε (Option α) → Prop) (s : σ) (x : List χ) :
    Except ε (σ ⊕ α) → Prop
  | .ok (.inl t) => P t ∧ μ t < μ s ∧ ∀ y r, T t y r → T s (x ++ y) r
  | .ok (.inr a) => T s x (.ok (some a))
  | .error e => T s x (.error e)

/-- A loop whose measure falls in every round is left before the rounds run out. -/
theorem Adds.rounds {P : σ → Prop} {μ : σ → ℕ} {T : σ → List χ → Except ε (Option α) → Prop}
    {body : σ → Dialogue χ ε (σ ⊕ α)} (hbody : ∀ s, P s → (body s).Adds (Round P μ T s)) :
    ∀ n s, P s → μ s < n → (rounds body n s).Adds (T s) := by
  intro n
  induction n with
  | zero => exact fun s _ hμ => absurd hμ (Nat.not_lt_zero _)
  | succ n ih =>
      intro s hs hμ
      refine (hbody s hs).bind (fun x e h => h) fun x a h => ?_
      cases a with
      | inl t =>
          obtain ⟨ht, hlt, hjoin⟩ := h
          have hrest : (Dialogue.rounds body n t).Adds (T t) := ih t ht (by omega)
          exact hrest.mono fun y r hy => hjoin y r hy
      | inr a =>
          refine Adds.pure ?_
          rw [List.append_nil]
          exact h

end adds

/-! ### Labels -/

/-- The added exchanges are within the scope.  Their labels are distinct when every exchange is good, and where every
exchange is clean they are distinct only then. -/
structure Fresh {κ : Type} (label : χ → κ) (good clean scope : χ → Prop) (added : List χ) : Prop where
  within : ∀ x ∈ added, scope x
  nodup : (∀ x ∈ added, good x) → (added.map label).Nodup
  good_of_nodup : (∀ x ∈ added, clean x) → (added.map label).Nodup → ∀ x ∈ added, good x

namespace Fresh

variable {κ : Type} {label : χ → κ} {good clean scope scope₁ scope₂ : χ → Prop} {added added₁ added₂ : List χ}

theorem nil : Fresh label good clean scope [] := ⟨by simp, by simp, by simp⟩

theorem singleton {x : χ} (hscope : scope x) (hgood : good x) : Fresh label good clean scope [x] :=
  ⟨by simpa using hscope, by simp, by simpa using fun _ => hgood⟩

theorem mono (h : Fresh label good clean scope₁ added) (hscope : ∀ x, scope₁ x → scope x) : Fresh label good clean scope added :=
  ⟨fun x hx => hscope x (h.within x hx), h.nodup, h.good_of_nodup⟩

/-- Two parts whose scopes share no label. -/
theorem append (h₁ : Fresh label good clean scope₁ added₁) (h₂ : Fresh label good clean scope₂ added₂)
    (hdisjoint : ∀ x y, scope₁ x → scope₂ y → label x ≠ label y) (hleft : ∀ x, scope₁ x → scope x)
    (hright : ∀ x, scope₂ x → scope x) : Fresh label good clean scope (added₁ ++ added₂) := by
  refine ⟨fun x hx => ?_, fun hgood => ?_, fun hclean hnodup x hx => ?_⟩
  · obtain hx | hx := List.mem_append.mp hx
    · exact hleft x (h₁.within x hx)
    · exact hright x (h₂.within x hx)
  · have hfirst : (added₁.map label).Nodup := h₁.nodup fun x hx => hgood x (List.mem_append_left _ hx)
    have hsecond : (added₂.map label).Nodup := h₂.nodup fun x hx => hgood x (List.mem_append_right _ hx)
    rw [List.map_append]
    refine List.nodup_append.mpr ⟨hfirst, hsecond, ?_⟩
    intro k hk k' hk'
    obtain ⟨x, hx, rfl⟩ := List.mem_map.mp hk
    obtain ⟨y, hy, rfl⟩ := List.mem_map.mp hk'
    exact hdisjoint x y (h₁.within x hx) (h₂.within y hy)
  · rw [List.map_append] at hnodup
    obtain ⟨hfirst, hsecond, -⟩ := List.nodup_append.mp hnodup
    obtain hx | hx := List.mem_append.mp hx
    · exact h₁.good_of_nodup (fun y hy => hclean y (List.mem_append_left _ hy)) hfirst x hx
    · exact h₂.good_of_nodup (fun y hy => hclean y (List.mem_append_right _ hy)) hsecond x hx

/-- Parts that come one after another, each with a scope of its own. -/
theorem flatMap {ι : Type} {items : List ι} {added : ι → List χ} {scope : ι → χ → Prop} (hnodup : items.Nodup)
    (h : ∀ i ∈ items, Fresh label good clean (scope i) (added i))
    (hdisjoint : ∀ i ∈ items, ∀ j ∈ items, i ≠ j → ∀ x y, scope i x → scope j y → label x ≠ label y) :
    Fresh label good clean (fun x => ∃ i ∈ items, scope i x) (items.flatMap added) := by
  induction items with
  | nil => exact nil
  | cons i items ih =>
      obtain ⟨hi, hrest⟩ := List.nodup_cons.mp hnodup
      rw [List.flatMap_cons]
      have htail : Fresh label good clean (fun x => ∃ j ∈ items, scope j x) (items.flatMap added) :=
        ih hrest (fun j hj => h j (List.mem_cons_of_mem i hj)) fun j hj k hk =>
          hdisjoint j (List.mem_cons_of_mem i hj) k (List.mem_cons_of_mem i hk)
      refine (h i List.mem_cons_self).append htail ?_ ?_ ?_
      · rintro x y hx ⟨j, hj, hy⟩
        have hne : i ≠ j := fun heq => hi (heq ▸ hj)
        exact hdisjoint i List.mem_cons_self j (List.mem_cons_of_mem i hj) hne x y hx hy
      · exact fun x hx => ⟨i, List.mem_cons_self, hx⟩
      · rintro x ⟨j, hj, hx⟩
        exact ⟨j, List.mem_cons_of_mem i hj, hx⟩

end Fresh

end Dialogue

end HpAgent.Library
