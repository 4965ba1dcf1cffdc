import Mathlib.Data.List.Nodup
import Mathlib.Data.List.Sublists
import Mathlib.Data.List.Perm.Subperm
import Mathlib.Logic.Relation

/-! # Elements under elements

Each known element is a root or has a parent.  A line goes from an element up to a root.  Where every element has a line,
parents have no cycle, and climbing ends after as many steps as there are elements.

* `Line`, `Rooted`: a line, and an arrangement in which every element has one.
* `Rooted.place`, `Rooted.plant`: an element is put under another one, or becomes a root.
* `climb_eq`: climbing with a bound. -/

namespace HpAgent.Library

section lineage

variable {α : Type} {up up' : α → Option (Option α)} {a : α} {l : List α}

/-! ### Lines -/

/-- The way from an element to a root; `up a` is the parent of a known element. -/
inductive Line (up : α → Option (Option α)) : α → List α → Prop
  | root (a : α) (h : up a = some none) : Line up a [a]
  | step (a p : α) (l : List α) (h : up a = some (some p)) (hl : Line up p l) : Line up a (a :: l)

/-- Every known element has a line. -/
def Rooted (up : α → Option (Option α)) : Prop := ∀ a, (up a).isSome = true → ∃ l, Line up a l

theorem Line.known (h : Line up a l) : (up a).isSome = true := by
  cases h with
  | root a h => rw [h, Option.isSome_some]
  | step a p l h hl => rw [h, Option.isSome_some]

/-- The parent of an element determines its line. -/
theorem Line.unique {l' : List α} (h : Line up a l) (h' : Line up a l') : l = l' := by
  induction h generalizing l' with
  | root a h =>
      cases h' with
      | root _ h' => rfl
      | step _ p l h' hl => cases h.symm.trans h'
  | step a p l h hl ih =>
      cases h' with
      | root _ h' => cases h.symm.trans h'
      | step _ p' l' h' hl' =>
          obtain rfl := Option.some.inj (Option.some.inj (h.symm.trans h'))
          rw [ih hl']

/-- From an element of a line on, it is the line of that element. -/
theorem Line.suffix (h : Line up a l) {b : α} (hb : b ∈ l) : ∃ l', l' <:+ l ∧ Line up b l' := by
  induction h with
  | root a h =>
      obtain rfl := List.mem_singleton.mp hb
      exact ⟨[b], List.suffix_refl _, .root b h⟩
  | step a p l h hl ih =>
      obtain rfl | hb := List.mem_cons.mp hb
      · exact ⟨b :: l, List.suffix_refl _, .step b p l h hl⟩
      · obtain ⟨l', hsuffix, hline⟩ := ih hb
        exact ⟨l', hsuffix.trans (List.suffix_cons a l), hline⟩

theorem Line.mem_known (h : Line up a l) {b : α} (hb : b ∈ l) : (up b).isSome = true := by
  obtain ⟨l', -, hline⟩ := h.suffix hb
  exact hline.known

/-- No element is met twice on a line. -/
theorem Line.nodup (h : Line up a l) : l.Nodup := by
  induction h with
  | root a h => exact List.nodup_singleton a
  | step a p l h hl ih =>
      refine List.nodup_cons.mpr ⟨fun hmem => ?_, ih⟩
      -- the line of the element would be a part of itself
      obtain ⟨l', hsuffix, hline⟩ := hl.suffix hmem
      have hlength := hsuffix.length_le
      rw [hline.unique (.step a p l h hl), List.length_cons] at hlength
      omega

/-- A line ends at a root. -/
theorem Line.root_last (h : Line up a l) : ∃ above r, l = above ++ [r] ∧ up r = some none := by
  induction h with
  | root a h => exact ⟨[], a, rfl, h⟩
  | step a p l h hl ih =>
      obtain ⟨above, r, rfl, hr⟩ := ih
      exact ⟨a :: above, r, rfl, hr⟩

/-- A property that a parent has with its child holds along the line. -/
theorem Line.along {motive : α → Prop} (h : Line up a l) (ha : motive a)
    (hparent : ∀ c p, up c = some (some p) → motive c → motive p) : ∀ b ∈ l, motive b := by
  induction h with
  | root a h =>
      intro b hb
      rwa [List.mem_singleton.mp hb]
  | step a p l h hl ih =>
      intro b hb
      obtain rfl | hb := List.mem_cons.mp hb
      · exact ha
      · exact ih (hparent a p h ha) b hb

/-- Going up from an element stays on its line. -/
theorem Line.mem_of_reflTransGen (h : Line up a l) {b : α}
    (hab : Relation.ReflTransGen (fun c p => up c = some (some p)) a b) : b ∈ l := by
  induction h with
  | root a h =>
      obtain rfl | ⟨c, hac, -⟩ := hab.cases_head
      · exact List.mem_singleton_self a
      · cases h.symm.trans hac
  | step a p l h hl ih =>
      obtain rfl | ⟨c, hac, hcb⟩ := hab.cases_head
      · exact List.mem_cons_self
      · obtain rfl := Option.some.inj (Option.some.inj (h.symm.trans hac))
        exact List.mem_cons_of_mem a (ih hcb)

/-- What is above an element is on its line, and is another element. -/
theorem Line.above (h : Line up a l) {b : α} (hab : Relation.TransGen (fun c p => up c = some (some p)) a b) : b ∈ l ∧ b ≠ a := by
  obtain ⟨c, hac, hcb⟩ := Relation.TransGen.head'_iff.mp hab
  cases h with
  | root a h => cases h.symm.trans hac
  | step a p l h hl =>
      obtain rfl := Option.some.inj (Option.some.inj (h.symm.trans hac))
      have hb := hl.mem_of_reflTransGen hcb
      have hnot := (List.nodup_cons.mp (Line.step a p l h hl).nodup).1
      exact ⟨List.mem_cons_of_mem a hb, fun heq => hnot (heq ▸ hb)⟩

/-- A line is as long as there are elements at most. -/
theorem Line.length_le {known : List α} (h : Line up a l) (hknown : ∀ b, (up b).isSome = true → b ∈ known) :
    l.length ≤ known.length :=
  (h.nodup.subperm fun _ hb => hknown _ (h.mem_known hb)).length_le

/-! ### Rearranging -/

theorem Line.congr (h : Line up a l) (heq : ∀ b ∈ l, up' b = up b) : Line up' a l := by
  induction h with
  | root a h => exact .root a ((heq a (List.mem_singleton_self a)).trans h)
  | step a p l h hl ih =>
      exact .step a p l ((heq a List.mem_cons_self).trans h) (ih fun b hb => heq b (List.mem_cons_of_mem a hb))

section rearranging

variable [DecidableEq α]

/-- An element that is off the line of its new parent is put under it. -/
theorem Rooted.place (h : Rooted up) {p : α} {line : List α} (hline : Line up p line) (hoff : a ∉ line)
    (hup : ∀ b, up' b = if b = a then some (some p) else up b) : Rooted up' := by
  have hothers : ∀ b, b ≠ a → up' b = up b := fun b hb => (hup b).trans (if_neg hb)
  have hplaced : Line up' a (a :: line) := by
    refine .step a p line ((hup a).trans (if_pos rfl)) (hline.congr fun b hb => hothers b ?_)
    rintro rfl
    exact hoff hb
  intro b hb
  by_cases heq : b = a
  · exact ⟨_, heq ▸ hplaced⟩
  · rw [hothers b heq] at hb
    obtain ⟨l, hl⟩ := h b hb
    clear hb heq
    -- the line goes on as before, up to the element if it goes through it
    induction hl with
    | root b hb =>
        by_cases heq : b = a
        · exact ⟨_, heq ▸ hplaced⟩
        · exact ⟨[b], .root b ((hothers b heq).trans hb)⟩
    | step b q l hb hl ih =>
        by_cases heq : b = a
        · exact ⟨_, heq ▸ hplaced⟩
        · obtain ⟨l', hl'⟩ := ih
          exact ⟨b :: l', .step b q l' ((hothers b heq).trans hb) hl'⟩

/-- A new element becomes a root. -/
theorem Rooted.plant (h : Rooted up) (hnew : up a = none) (hup : ∀ b, up' b = if b = a then some none else up b) :
    Rooted up' := by
  intro b hb
  by_cases heq : b = a
  · subst heq
    exact ⟨[b], .root b ((hup b).trans (if_pos rfl))⟩
  · rw [hup, if_neg heq] at hb
    obtain ⟨l, hl⟩ := h b hb
    refine ⟨l, hl.congr fun c hc => (hup c).trans (if_neg ?_)⟩
    rintro rfl
    have hknown := hl.mem_known hc
    rw [hnew] at hknown
    cases hknown

end rearranging

/-! ### Going up -/

/-- An element and what is above it, up to a number of elements. -/
def climb (up : α → Option (Option α)) : ℕ → α → List α
  | 0, _ => []
  | n + 1, a =>
      match up a with
      | none => []
      | some none => [a]
      | some (some p) => a :: climb up n p

theorem climb_eq (h : Line up a l) {n : ℕ} (hn : l.length ≤ n) : climb up n a = l := by
  induction h generalizing n with
  | root a h =>
      rw [List.length_singleton] at hn
      obtain ⟨n, rfl⟩ : ∃ m, n = m + 1 := ⟨n - 1, by omega⟩
      rw [climb, h]
  | step a p l h hl ih =>
      rw [List.length_cons] at hn
      obtain ⟨n, rfl⟩ : ∃ m, n = m + 1 := ⟨n - 1, by omega⟩
      rw [climb, h]
      exact congrArg (List.cons a) (ih (by omega))

end lineage

end HpAgent.Library
