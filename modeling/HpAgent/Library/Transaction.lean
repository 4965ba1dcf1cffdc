import Mathlib.Order.Defs.Unbundled
import Mathlib.Logic.Relation

/-! # Transactions

`Tx ε σ α` is a command run inside one database transaction over a store of type `σ`: it either
returns a value together with the new store, or raises an error of type `ε`.  The state monad sits
over `Except`, so an error carries **no store**: a command that raises has been rolled back.

* `Tx.savepoint m handler` is a nested transaction: when `m` raises, `handler` runs on the store that
  `m` started from.
* `Tx.commit m s` is the store after the outermost transaction: the new one, or `s` when `m` raises.
* The `_ok` lemmas invert a successful command into the facts that made it succeed; a proof about a
  command rewrites with them and never unfolds the monad.
* `Tx.Keeps R m` says that every successful run of `m` relates its two stores by `R`.  For a
  preorder `R` it is closed under all the combinators (`Keeps.bind`, `Keeps.savepoint`,
  `Keeps.foldlM`), and it transports to whole transactions (`Keeps.commit`).
* `Tx.RaisesOnly E m` says that every error of `m` satisfies `E`, with the same rules.
* `Tx.within get put lift m` runs `m` on a part of the store. -/

namespace HpAgent.Library

/-- A command inside a transaction over the store `σ` that may raise an `ε`. -/
abbrev Tx (ε σ : Type) := StateT σ (Except ε)

namespace Tx

variable {ε σ α β : Type} {f : α → Tx ε σ β} {r : β × σ} {handler : ε → Tx ε σ α}

/-! ### Primitive commands -/

/-- Raise `e`; the transaction is rolled back. -/
def raise (e : ε) : Tx ε σ α := fun _ => .error e

/-- Raise `e` unless `c` holds. -/
def check (c : Prop) [Decidable c] (e : ε) : Tx ε σ Unit :=
  fun s => if c then .ok ((), s) else .error e

/-- The value of `o`, or raise `e`. -/
def demand (o : Option α) (e : ε) : Tx ε σ α :=
  fun s => match o with
    | some a => .ok (a, s)
    | none => .error e

/-- Read the store. -/
def query (f : σ → α) : Tx ε σ α := fun s => .ok (f s, s)

/-- Change the store. -/
def update (f : σ → σ) : Tx ε σ Unit := fun s => .ok ((), f s)

/-- A pure computation that may raise. -/
def ofExcept (r : Except ε α) : Tx ε σ α :=
  fun s => match r with
    | .ok a => .ok (a, s)
    | .error e => .error e

/-- Run `m` in a nested transaction; when it raises, `handler` continues from the store `m` was
given. -/
def savepoint (m : Tx ε σ α) (handler : ε → Tx ε σ α) : Tx ε σ α :=
  fun s => match m s with
    | .ok r => .ok r
    | .error e => handler e s

/-- The store after the outermost transaction. -/
def commit (m : Tx ε σ α) (s : σ) : σ :=
  match m.run s with
  | .ok (_, s') => s'
  | .error _ => s

/-! ### Inverting a successful command -/

section inversion

variable {s s' : σ} {a a' : α} {b : β} {e : ε}

@[simp] theorem pure_ok : (pure a : Tx ε σ α).run s = .ok (a', s') ↔ a = a' ∧ s = s' := by
  show (Except.ok (a, s) : Except ε (α × σ)) = .ok (a', s') ↔ _
  rw [Except.ok.injEq, Prod.mk.injEq]

theorem bind_ok {m : Tx ε σ α} :
    (m >>= f).run s = .ok (b, s') ↔ ∃ a s₁, m.run s = .ok (a, s₁) ∧ (f a).run s₁ = .ok (b, s') := by
  rw [StateT.run_bind]
  cases m.run s with
  | error e => simp [bind, Except.bind]
  | ok p =>
      obtain ⟨a, s₁⟩ := p
      simp [bind, Except.bind, and_assoc]

@[simp] theorem raise_ok : (raise e : Tx ε σ α).run s = .ok (a, s') ↔ False := by
  simp [raise, StateT.run]

@[simp] theorem check_ok {c : Prop} [Decidable c] {u : Unit} :
    (check c e : Tx ε σ Unit).run s = .ok (u, s') ↔ c ∧ s = s' := by
  by_cases h : c <;> simp [check, StateT.run, h]

@[simp] theorem demand_ok {o : Option α} :
    (demand o e : Tx ε σ α).run s = .ok (a, s') ↔ o = some a ∧ s = s' := by
  cases o <;> simp [demand, StateT.run]

@[simp] theorem query_ok {f : σ → α} :
    (query f : Tx ε σ α).run s = .ok (a, s') ↔ f s = a ∧ s = s' := by
  simp [query, StateT.run]

@[simp] theorem update_ok {f : σ → σ} {u : Unit} :
    (update f : Tx ε σ Unit).run s = .ok (u, s') ↔ f s = s' := by
  simp [update, StateT.run]

@[simp] theorem ofExcept_ok {r : Except ε α} :
    (ofExcept r : Tx ε σ α).run s = .ok (a, s') ↔ r = .ok a ∧ s = s' := by
  cases r <;> simp [ofExcept, StateT.run]

theorem bind_check_ok {c : Prop} [Decidable c] {f : Unit → Tx ε σ β} :
    (check c e >>= f).run s = .ok r ↔ c ∧ (f ()).run s = .ok r := by
  obtain ⟨b, s'⟩ := r
  rw [bind_ok]
  simp only [check_ok]
  constructor
  · rintro ⟨_, _, ⟨hc, rfl⟩, h⟩
    exact ⟨hc, h⟩
  · rintro ⟨hc, h⟩
    exact ⟨(), s, ⟨hc, rfl⟩, h⟩

theorem bind_query_ok {g : σ → α} :
    (query g >>= f).run s = .ok r ↔ (f (g s)).run s = .ok r := Iff.rfl

theorem bind_update_ok {g : σ → σ} {f : Unit → Tx ε σ β} :
    (update g >>= f).run s = .ok r ↔ (f ()).run (g s) = .ok r := Iff.rfl

theorem bind_demand_ok {o : Option α} :
    (demand o e >>= f).run s = .ok r ↔ ∃ a, o = some a ∧ (f a).run s = .ok r := by
  obtain ⟨b, s'⟩ := r
  rw [bind_ok]
  simp only [demand_ok]
  constructor
  · rintro ⟨a, _, ⟨ho, rfl⟩, h⟩
    exact ⟨a, ho, h⟩
  · rintro ⟨a, ho, h⟩
    exact ⟨a, s, ⟨ho, rfl⟩, h⟩

theorem bind_ofExcept_ok {m : Except ε α} :
    (ofExcept m >>= f).run s = .ok r ↔ ∃ a, m = .ok a ∧ (f a).run s = .ok r := by
  obtain ⟨b, s'⟩ := r
  rw [bind_ok]
  simp only [ofExcept_ok]
  constructor
  · rintro ⟨a, _, ⟨ho, rfl⟩, h⟩
    exact ⟨a, ho, h⟩
  · rintro ⟨a, ho, h⟩
    exact ⟨a, s, ⟨ho, rfl⟩, h⟩

/-- A savepoint succeeds either because its body did or because the handler recovered from the
body's error on the original store. -/
theorem savepoint_ok {m : Tx ε σ α} :
    (savepoint m handler).run s = .ok (a, s') ↔
      m.run s = .ok (a, s') ∨ ∃ e, m.run s = .error e ∧ (handler e).run s = .ok (a, s') := by
  simp only [savepoint, StateT.run]
  cases m s <;> simp

end inversion

/-! ### Loops -/

/-- The rule for a loop over a list: `P rest b s` holds before each iteration, with `rest` the items
still to come. -/
theorem foldlM_rule {f : β → α → Tx ε σ β} (P : List α → β → σ → Prop)
    (hstep : ∀ a rest b s b' s', P (a :: rest) b s → (f b a).run s = .ok (b', s') → P rest b' s')
    {l : List α} {b b' : β} {s s' : σ} (h : P l b s) (hrun : (l.foldlM f b).run s = .ok (b', s')) :
    P [] b' s' := by
  induction l generalizing b s with
  | nil =>
      rw [List.foldlM_nil, pure_ok] at hrun
      obtain ⟨rfl, rfl⟩ := hrun
      exact h
  | cons a rest ih =>
      rw [List.foldlM_cons, bind_ok] at hrun
      obtain ⟨b₁, s₁, h₁, hrest⟩ := hrun
      exact ih (hstep a rest b s b₁ s₁ h h₁) hrest

/-! ### Commands that agree -/

/-- Two continuations that agree on what the first command can hand over. -/
theorem bind_congr_run {m : Tx ε σ α} {g : α → Tx ε σ β} {s : σ}
    (h : ∀ a s', m.run s = .ok (a, s') → (f a).run s' = (g a).run s') :
    (m >>= f).run s = (m >>= g).run s := by
  rw [StateT.run_bind, StateT.run_bind]
  cases hm : m.run s with
  | error e => rfl
  | ok p => exact h p.1 p.2 hm

/-- Two loops whose bodies agree wherever the first one can get. -/
theorem foldlM_congr_run {f g : β → α → Tx ε σ β} (P : σ → Prop)
    (hfg : ∀ b a s, P s → (f b a).run s = (g b a).run s)
    (hP : ∀ b a s b' s', P s → (f b a).run s = .ok (b', s') → P s') (l : List α) (b : β) {s : σ} (hs : P s) :
    (l.foldlM f b).run s = (l.foldlM g b).run s := by
  induction l generalizing b s with
  | nil => rfl
  | cons a rest ih =>
      rw [List.foldlM_cons, List.foldlM_cons]
      have hhead : (f b a >>= fun b' => rest.foldlM f b').run s = (f b a >>= fun b' => rest.foldlM g b').run s :=
        bind_congr_run fun b' s' h => ih b' (hP b a s b' s' hs h)
      rw [hhead, StateT.run_bind, StateT.run_bind, hfg b a s hs]

/-- Commands that agree on a store commit to the same store. -/
theorem commit_congr {m n : Tx ε σ α} {s : σ} (h : m.run s = n.run s) : m.commit s = n.commit s := by
  unfold commit
  rw [h]

/-- What holds of the store before a transaction and after each successful run holds after it is over. -/
theorem commit_rule {m : Tx ε σ α} {s : σ} (P : σ → Prop) (hs : P s) (h : ∀ a s', m.run s = .ok (a, s') → P s') :
    P (m.commit s) := by
  unfold commit
  cases hm : m.run s with
  | ok p => exact h p.1 p.2 hm
  | error e => exact hs

/-- A successful run is the committed one. -/
theorem run_commit {m : Tx ε σ α} {s : σ} {a : α} (h : (m.run s).map Prod.fst = .ok a) :
    m.run s = .ok (a, m.commit s) := by
  unfold commit
  cases hm : m.run s with
  | error e =>
      rw [hm] at h
      cases h
  | ok p =>
      rw [hm] at h
      obtain rfl := Except.ok.inj h
      rfl

/-! ### Relations kept by a command -/

/-- Every successful run of `m` relates the store before and after by `R`. -/
def Keeps (R : σ → σ → Prop) (m : Tx ε σ α) : Prop :=
  ∀ s a s', m.run s = .ok (a, s') → R s s'

/-- The store after a transaction is related to the one before, whether it succeeded or raised. -/
theorem Keeps.commit {R : σ → σ → Prop} [Std.Refl R] {m : Tx ε σ α} (hm : Keeps R m) (s : σ) :
    R s (m.commit s) := by
  unfold Tx.commit
  cases h : m.run s with
  | ok p => exact hm s p.1 p.2 h
  | error e => exact Std.Refl.refl s

namespace Keeps

variable {R : σ → σ → Prop}

theorem mono {R' : σ → σ → Prop} {m : Tx ε σ α} (hm : Keeps R m) (h : ∀ s s', R s s' → R' s s') : Keeps R' m :=
  fun s a s' hs => h s s' (hm s a s' hs)

section preorder

variable [IsPreorder σ R]

theorem of_read {m : Tx ε σ α} (h : ∀ s a s', m.run s = .ok (a, s') → s = s') : Keeps R m := by
  intro s a s' hs
  obtain rfl := h s a s' hs
  exact refl_of R s

theorem pure (a : α) : Keeps R (pure a : Tx ε σ α) := of_read fun _ _ _ h => (pure_ok.mp h).2

theorem raise (e : ε) : Keeps R (raise e : Tx ε σ α) := of_read fun _ _ _ h => (raise_ok.mp h).elim

theorem check (c : Prop) [Decidable c] (e : ε) : Keeps R (check c e : Tx ε σ Unit) :=
  of_read fun _ _ _ h => (check_ok.mp h).2

theorem demand (o : Option α) (e : ε) : Keeps R (demand o e : Tx ε σ α) :=
  of_read fun _ _ _ h => (demand_ok.mp h).2

theorem query (f : σ → α) : Keeps R (query f : Tx ε σ α) := of_read fun _ _ _ h => (query_ok.mp h).2

theorem ofExcept (r : Except ε α) : Keeps R (ofExcept r : Tx ε σ α) :=
  of_read fun _ _ _ h => (ofExcept_ok.mp h).2

theorem bind {m : Tx ε σ α} (hm : Keeps R m) (hf : ∀ a, Keeps R (f a)) :
    Keeps R (m >>= f) := by
  intro s b s' h
  obtain ⟨a, s₁, h₁, h₂⟩ := bind_ok.mp h
  exact trans_of R (hm s a s₁ h₁) (hf a s₁ b s' h₂)

theorem foldlM {f : β → α → Tx ε σ β} (hf : ∀ b a, Keeps R (f b a)) (l : List α) (b : β) :
    Keeps R (l.foldlM f b) := by
  induction l generalizing b with
  | nil => exact pure b
  | cons a rest ih => exact bind (hf b a) ih

end preorder

theorem savepoint {m : Tx ε σ α} (hm : Keeps R m)
    (hh : ∀ e, Keeps R (handler e)) : Keeps R (savepoint m handler) := by
  intro s a s' h
  rcases savepoint_ok.mp h with h | ⟨e, _, h⟩
  · exact hm s a s' h
  · exact hh e s a s' h

theorem update {f : σ → σ} (h : ∀ s, R s (f s)) : Keeps R (update f : Tx ε σ Unit) := by
  intro s _ s' hs
  obtain rfl := update_ok.mp hs
  exact h s

end Keeps

/-! ### Errors of a command -/

/-- A sequence raises in its first command, or in the second one on the store the first ended in. -/
theorem bind_error {m : Tx ε σ α} {s : σ} {e : ε} :
    (m >>= f).run s = .error e ↔ m.run s = .error e ∨ ∃ a s', m.run s = .ok (a, s') ∧ (f a).run s' = .error e := by
  rw [StateT.run_bind]
  cases hrun : m.run s with
  | error e' => simp [bind, Except.bind]
  | ok p =>
      obtain ⟨a, s₁⟩ := p
      simp [bind, Except.bind, and_assoc]

theorem bind_query_error {g : σ → α} {s : σ} {e : ε} :
    (query g >>= f).run s = .error e ↔ (f (g s)).run s = .error e := Iff.rfl

theorem check_error {c : Prop} [Decidable c] {s : σ} {e e' : ε} :
    (check c e : Tx ε σ Unit).run s = .error e' ↔ ¬c ∧ e = e' := by
  by_cases h : c <;> simp [check, StateT.run, h]

theorem bind_check_error {c : Prop} [Decidable c] {f : Unit → Tx ε σ β} {s : σ} {e e' : ε} :
    (check c e >>= f).run s = .error e' ↔ (¬c ∧ e = e') ∨ c ∧ (f ()).run s = .error e' := by
  rw [bind_error, check_error]
  simp only [check_ok]
  constructor
  · rintro (h | ⟨_, _, ⟨hc, rfl⟩, h⟩)
    · exact .inl h
    · exact .inr ⟨hc, h⟩
  · rintro (h | ⟨hc, h⟩)
    · exact .inl h
    · exact .inr ⟨(), s, ⟨hc, rfl⟩, h⟩

/-- A demand that is met raises nothing. -/
theorem bind_demand_error {o : Option α} {a : α} {s : σ} {e e' : ε} (ha : o = some a) :
    (demand o e >>= f).run s = .error e' ↔ (f a).run s = .error e' := by
  subst ha
  rfl

theorem bind_ofExcept_error {r : Except ε α} {a : α} {s : σ} {e : ε} (ha : r = .ok a) :
    (ofExcept r >>= f).run s = .error e ↔ (f a).run s = .error e := by
  subst ha
  rfl

theorem pure_error {a : α} {s : σ} {e : ε} : (pure a : Tx ε σ α).run s = .error e ↔ False :=
  ⟨(nomatch ·), False.elim⟩

/-- A savepoint raises when its handler does, on the store the body started from. -/
theorem savepoint_error {m : Tx ε σ α} {s : σ} {e : ε} :
    (savepoint m handler).run s = .error e ↔ ∃ e', m.run s = .error e' ∧ (handler e').run s = .error e := by
  simp only [savepoint, StateT.run]
  cases m s <;> simp

/-- Every error `m` raises satisfies `E`. -/
def RaisesOnly (E : ε → Prop) (m : Tx ε σ α) : Prop :=
  ∀ s e, m.run s = .error e → E e

namespace RaisesOnly

variable {E : ε → Prop}

theorem mono {E' : ε → Prop} {m : Tx ε σ α} (hm : RaisesOnly E m) (h : ∀ e, E e → E' e) : RaisesOnly E' m :=
  fun s e hs => h e (hm s e hs)

theorem pure (a : α) : RaisesOnly E (pure a : Tx ε σ α) := fun _ _ h => nomatch h

theorem query (f : σ → α) : RaisesOnly E (query f : Tx ε σ α) := fun _ _ h => nomatch h

theorem update (f : σ → σ) : RaisesOnly E (update f : Tx ε σ Unit) := fun _ _ h => nomatch h

theorem raise {e : ε} (he : E e) : RaisesOnly E (raise e : Tx ε σ α) := by
  intro s e' h
  obtain rfl := Except.error.inj h
  exact he

theorem ofExcept {r : Except ε α} (hr : ∀ e, r = .error e → E e) : RaisesOnly E (ofExcept r : Tx ε σ α) := by
  intro s e h
  cases r with
  | ok a => exact nomatch h
  | error e' =>
      obtain rfl := Except.error.inj h
      exact hr e' rfl

theorem check {c : Prop} [Decidable c] {e : ε} (he : E e) : RaisesOnly E (check c e : Tx ε σ Unit) := by
  intro s e' h
  unfold Tx.check at h
  by_cases hc : c
  · rw [StateT.run, if_pos hc] at h
    exact nomatch h
  · rw [StateT.run, if_neg hc] at h
    obtain rfl := Except.error.inj h
    exact he

theorem demand {o : Option α} {e : ε} (he : E e) : RaisesOnly E (demand o e : Tx ε σ α) := by
  intro s e' h
  cases o with
  | some a => exact nomatch h
  | none =>
      obtain rfl := Except.error.inj h
      exact he

/-- An error of a pure computation comes from one of its two parts. -/
theorem of_bind {m : Except ε α} {f : α → Except ε β} {e : ε} (h : (m >>= f) = .error e)
    (hm : ∀ e, m = .error e → E e) (hf : ∀ a e, f a = .error e → E e) : E e := by
  cases m with
  | error e' =>
      obtain rfl := Except.error.inj h
      exact hm e' rfl
  | ok a => exact hf a e h

/-- An error of a pure loop comes from one of its iterations. -/
theorem of_foldlM {f : β → α → Except ε β} (hf : ∀ b a e, f b a = .error e → E e) {items : List α} {b : β} {e : ε}
    (h : items.foldlM f b = .error e) : E e := by
  induction items generalizing b with
  | nil => exact nomatch h
  | cons a rest ih =>
      rw [List.foldlM_cons] at h
      cases hstep : f b a with
      | error e' =>
          rw [hstep] at h
          obtain rfl := Except.error.inj h
          exact hf b a e' hstep
      | ok b' =>
          rw [hstep] at h
          exact ih h

theorem bind {m : Tx ε σ α} (hm : RaisesOnly E m) (hf : ∀ a, RaisesOnly E (f a)) :
    RaisesOnly E (m >>= f) := by
  intro s e h
  rcases bind_error.mp h with h | ⟨a, s', _, h⟩
  · exact hm s e h
  · exact hf a s' e h

theorem bind_ofExcept {r : Except ε α} (hr : ∀ e, r = .error e → E e)
    (hf : ∀ a, r = .ok a → RaisesOnly E (f a)) : RaisesOnly E (Tx.ofExcept r >>= f) := by
  intro s e h
  rcases bind_error.mp h with h | ⟨a, s', ha, h⟩
  · exact ofExcept hr s e h
  · exact hf a (ofExcept_ok.mp ha).1 s' e h

/-- What follows a query may depend on the store it was asked of. -/
theorem bind_query {g : σ → α} (hf : ∀ s e, (f (g s)).run s = .error e → E e) :
    RaisesOnly E (Tx.query g >>= f) := hf

theorem foldlM {f : β → α → Tx ε σ β} (hf : ∀ b a, RaisesOnly E (f b a)) (l : List α) (b : β) :
    RaisesOnly E (l.foldlM f b) := by
  induction l generalizing b with
  | nil => exact pure b
  | cons a rest ih => exact bind (hf b a) ih

end RaisesOnly

/-! ### Commands on a part of the store -/

section parts

variable {ε' τ : Type}

/-- Run a command on the part of the store that `get` reads and `put` writes; its errors are raised as `lift` says. -/
def within (get : σ → τ) (put : τ → σ → σ) (lift : ε → ε') (m : Tx ε τ α) : Tx ε' σ α :=
  fun s => match m (get s) with
    | .ok (a, t) => .ok (a, put t s)
    | .error e => .error (lift e)

variable {get : σ → τ} {put : τ → σ → σ} {lift : ε → ε'} {m : Tx ε τ α}

theorem within_ok {s s' : σ} {a : α} :
    (within get put lift m).run s = .ok (a, s') ↔ ∃ t, m.run (get s) = .ok (a, t) ∧ put t s = s' := by
  simp only [within, StateT.run]
  cases m (get s) with
  | error e => simp
  | ok p =>
      obtain ⟨b, t⟩ := p
      simp only [Except.ok.injEq, Prod.mk.injEq]
      constructor
      · rintro ⟨rfl, rfl⟩
        exact ⟨t, ⟨rfl, rfl⟩, rfl⟩
      · rintro ⟨t', ⟨rfl, rfl⟩, rfl⟩
        exact ⟨rfl, rfl⟩

/-- What a command does to its part carries over to the store. -/
theorem Keeps.within {Q : τ → τ → Prop} {R : σ → σ → Prop} (hm : Keeps Q m)
    (h : ∀ s t, Q (get s) t → R s (put t s)) : Keeps R (Tx.within get put lift m) := by
  intro s a s' hs
  obtain ⟨t, ht, rfl⟩ := within_ok.mp hs
  exact h s t (hm _ a t ht)

end parts

end Tx

end HpAgent.Library
