import Mathlib.Data.List.Basic

/-! # Escape codes

A code that writes some characters as an escape character and a second one, and every other character as it is.  The escape
character is itself written in this way, so it never stands twice in a row, and a double escape marks the end of what was
written.

* `Escaping`: the characters with a code, and what makes it readable.
* `Escaping.write`: the code of a text.
* `Escaping.write_delimited`: a double escape delimits a text without ambiguity.
* `replaceOne_flatMap`: replacing one more character extends the code. -/

namespace HpAgent.Library

/-- The second character of the code of what is escaped. -/
structure Escaping (α : Type) where
  escape : α
  code : α → Option α
  /-- The escape character is escaped. -/
  escape_code : (code escape).isSome = true
  /-- Two characters have two codes. -/
  code_inj : ∀ c d x, code c = some x → code d = some x → c = d
  /-- No code is the escape character. -/
  code_ne : ∀ c x, code c = some x → x ≠ escape

namespace Escaping

variable {α : Type} (e : Escaping α)

/-- The code of one character. -/
def letter (c : α) : List α :=
  match e.code c with
  | some x => [e.escape, x]
  | none => [c]

/-- The code of a text. -/
def write (s : List α) : List α := s.flatMap e.letter

@[simp] theorem write_nil : e.write [] = [] := rfl

@[simp] theorem write_cons (c : α) (s : List α) : e.write (c :: s) = e.letter c ++ e.write s := List.flatMap_cons

/-- A character is escaped, or stands for itself and is not the escape character. -/
theorem letter_cases (c : α) :
    (∃ x, e.code c = some x ∧ x ≠ e.escape ∧ e.letter c = [e.escape, x]) ∨ (c ≠ e.escape ∧ e.letter c = [c]) := by
  unfold letter
  cases h : e.code c with
  | some x => exact .inl ⟨x, rfl, e.code_ne c x h, rfl⟩
  | none =>
      refine .inr ⟨fun hc => ?_, rfl⟩
      have hsome := e.escape_code
      rw [← hc, h] at hsome
      cases hsome

/-- No code of a text starts with a double escape that another text could end with. -/
theorem letter_append_ne (c : α) (s r : List α) : e.letter c ++ s ≠ e.escape :: e.escape :: r := by
  intro h
  rcases e.letter_cases c with ⟨x, -, hx, hletter⟩ | ⟨hc, hletter⟩
  · rw [hletter] at h
    simp only [List.cons_append, List.nil_append, List.cons.injEq] at h
    exact hx h.2.1
  · rw [hletter] at h
    simp only [List.cons_append, List.nil_append, List.cons.injEq] at h
    exact hc h.1

/-- The first code of a text determines its first character. -/
theorem letter_append_inj {c d : α} {s r : List α} (h : e.letter c ++ s = e.letter d ++ r) : c = d ∧ s = r := by
  rcases e.letter_cases c with ⟨x, hx, -, hc⟩ | ⟨hc, hletter⟩ <;> rcases e.letter_cases d with ⟨y, hy, -, hd⟩ | ⟨hd, hletter'⟩
  · rw [hc, hd] at h
    simp only [List.cons_append, List.nil_append, List.cons.injEq, true_and] at h
    obtain ⟨rfl, rfl⟩ := h
    exact ⟨e.code_inj c d x hx hy, rfl⟩
  · rw [hc, hletter'] at h
    simp only [List.cons_append, List.nil_append, List.cons.injEq] at h
    exact absurd h.1.symm hd
  · rw [hletter, hd] at h
    simp only [List.cons_append, List.nil_append, List.cons.injEq] at h
    exact absurd h.1 hc
  · rw [hletter, hletter'] at h
    simp only [List.cons_append, List.nil_append, List.cons.injEq] at h
    exact h

/-- **A double escape delimits a text: what stands before it and after it can be read back.** -/
theorem write_delimited {s s' r r' : List α}
    (h : e.write s ++ e.escape :: e.escape :: r = e.write s' ++ e.escape :: e.escape :: r') : s = s' ∧ r = r' := by
  induction s generalizing s' with
  | nil =>
      cases s' with
      | nil =>
          simp only [write_nil, List.nil_append, List.cons.injEq, true_and] at h
          exact ⟨rfl, h⟩
      | cons d s' =>
          rw [write_nil, List.nil_append, write_cons, List.append_assoc] at h
          exact absurd h.symm (e.letter_append_ne d _ r)
  | cons c s ih =>
      cases s' with
      | nil =>
          rw [write_nil, List.nil_append, write_cons, List.append_assoc] at h
          exact absurd h (e.letter_append_ne c _ r')
      | cons d s' =>
          rw [write_cons, write_cons, List.append_assoc, List.append_assoc] at h
          obtain ⟨rfl, hrest⟩ := e.letter_append_inj h
          obtain ⟨rfl, hr⟩ := ih hrest
          exact ⟨rfl, hr⟩

end Escaping

/-! ### Replacing one character -/

section replace

variable {α : Type} [DecidableEq α]

/-- Write `new` for every occurrence of `old`. -/
def replaceOne (old : α) (new s : List α) : List α := s.flatMap fun c => if c = old then new else [c]

/-- Replacing a character in a text that was written letter by letter. -/
theorem replaceOne_flatMap (old : α) (new : List α) (f : α → List α) (s : List α) :
    replaceOne old new (s.flatMap f) = s.flatMap fun c => replaceOne old new (f c) := by
  unfold replaceOne
  rw [List.flatMap_assoc]

end replace

end HpAgent.Library
