import Mathlib.Data.List.Basic

/-! # Outcomes of checks

A check either fails with an exception or returns a value.  `bind_ok` and the lemmas after it say when a sequence of
checks returns one, and what then holds. -/

namespace HpAgent.Library.Outcome

variable {ε α β : Type}

/-- A check with this exception. -/
def require (b : Bool) (e : ε) : Except ε Unit := if b then .ok () else .error e

/-- The value, or this exception. -/
def demand (a : Option α) (e : ε) : Except ε α :=
  match a with
  | some a => .ok a
  | none => .error e

theorem bind_ok {m : Except ε α} {f : α → Except ε β} {b : β} : m >>= f = .ok b ↔ ∃ a, m = .ok a ∧ f a = .ok b := by
  cases m with
  | error e => exact ⟨nofun, fun ⟨_, h, _⟩ => nomatch h⟩
  | ok a =>
      constructor
      · exact fun h => ⟨a, rfl, h⟩
      · intro ⟨_, h, hf⟩
        obtain rfl := Except.ok.inj h
        exact hf

theorem bind_unit_ok {m : Except ε Unit} {f : Unit → Except ε β} {b : β} : m >>= f = .ok b ↔ m = .ok () ∧ f () = .ok b := by
  rw [bind_ok]
  exact ⟨fun ⟨_, h⟩ => h, fun h => ⟨(), h⟩⟩

theorem require_ok {b : Bool} {e : ε} {u : Unit} : require b e = .ok u ↔ b = true := by
  unfold require
  cases b with
  | false => exact ⟨nofun, nofun⟩
  | true => exact ⟨fun _ => rfl, fun _ => rfl⟩

theorem mapError_ok {ε' : Type} {f : ε → ε'} {m : Except ε α} {a : α} : m.mapError f = .ok a ↔ m = .ok a := by
  cases m with
  | error e => exact ⟨nofun, nofun⟩
  | ok b => exact ⟨fun h => congrArg Except.ok (Except.ok.inj h), fun h => congrArg Except.ok (Except.ok.inj h)⟩

/-- A check of every item: what is returned is what the checks of the items returned. -/
theorem mem_mapM {f : α → Except ε β} {items : List α} {values : List β} (h : items.mapM f = .ok values) :
    ∀ b ∈ values, ∃ a ∈ items, f a = .ok b := by
  induction items generalizing values with
  | nil =>
      rw [List.mapM_nil] at h
      obtain rfl := Except.ok.inj h
      exact fun b hb => absurd hb List.not_mem_nil
  | cons a rest ih =>
      rw [List.mapM_cons, bind_ok] at h
      obtain ⟨b, hb, h⟩ := h
      rw [bind_ok] at h
      obtain ⟨bs, hbs, h⟩ := h
      obtain rfl := Except.ok.inj h
      intro c hc
      cases List.mem_cons.mp hc with
      | inl heq =>
          rw [heq]
          exact ⟨a, List.mem_cons_self, hb⟩
      | inr htail =>
          obtain ⟨a', ha', hc'⟩ := ih hbs c htail
          exact ⟨a', List.mem_cons_of_mem a ha', hc'⟩

/-- A loop whose items all pass. -/
theorem mapM_ok {f : α → Except ε β} {g : α → β} {items : List α} (h : ∀ x ∈ items, f x = .ok (g x)) :
    items.mapM f = .ok (items.map g) := by
  induction items with
  | nil => rfl
  | cons x rest ih =>
      rw [List.mapM_cons, h x List.mem_cons_self, ih fun y hy => h y (List.mem_cons_of_mem x hy)]
      rfl

/-- A fold that checks: what one step keeps, all of them keep. -/
theorem foldlM_keeps {P : β → Prop} {f : β → α → Except ε β} {items : List α} {b c : β}
    (hstep : ∀ b a c, a ∈ items → P b → f b a = .ok c → P c) (hb : P b) (h : items.foldlM f b = .ok c) : P c := by
  induction items generalizing b with
  | nil =>
      obtain rfl := Except.ok.inj h
      exact hb
  | cons a rest ih =>
      rw [List.foldlM_cons, bind_ok] at h
      obtain ⟨d, hd, h⟩ := h
      apply ih (fun b' a' c' ha' => hstep b' a' c' (List.mem_cons_of_mem a ha')) _ h
      exact hstep b a d List.mem_cons_self hb hd

end HpAgent.Library.Outcome
