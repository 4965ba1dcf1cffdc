import HpAgent.Library.Transaction

/-! # Triples of commands

`Tx.Triple P m Q E`: from a store with `P`, the command `m` raises only errors with `E`, and when it returns, its value
and the store have `Q`.  There is one rule for each primitive command; `Triple.bind` composes them, `Triple.foldlM` is the
rule of an invariant of a loop, and `Triple.fact` brings a fact of the store before into a proof about what follows. -/

namespace HpAgent.Library

namespace Tx

variable {ε σ α β : Type}

/-- What a command may raise and what holds when it returns. -/
def Triple (P : σ → Prop) (m : Tx ε σ α) (Q : α → σ → Prop) (E : ε → Prop) : Prop :=
  ∀ s, P s → (∀ e, m.run s = .error e → E e) ∧ ∀ a s', m.run s = .ok (a, s') → Q a s'

namespace Triple

variable {P P' : σ → Prop} {Q Q' : α → σ → Prop} {R : β → σ → Prop} {E : ε → Prop}

theorem mono {m : Tx ε σ α} (hm : Triple P m Q E) (hP : ∀ s, P' s → P s) (hQ : ∀ a s, Q a s → Q' a s) :
    Triple P' m Q' E :=
  fun s hs => ⟨(hm s (hP s hs)).1, fun a s' h => hQ a s' ((hm s (hP s hs)).2 a s' h)⟩

/-- A fact that the store before implies may be used. -/
theorem fact {m : Tx ε σ α} {c : Prop} (hc : ∀ s, P s → c) (hm : c → Triple P m Q E) : Triple P m Q E :=
  fun s hs => hm (hc s hs) s hs

theorem pure {a : α} (h : ∀ s, P s → Q a s) : Triple P (pure a : Tx ε σ α) Q E := by
  refine fun s hs => ⟨fun e he => (pure_error.mp he).elim, fun b s' hb => ?_⟩
  obtain ⟨rfl, rfl⟩ := pure_ok.mp hb
  exact h s hs

theorem check {c : Prop} [Decidable c] {e : ε} (he : ¬ c → E e) :
    Triple P (check c e : Tx ε σ Unit) (fun _ s => P s ∧ c) E := by
  refine fun s hs => ⟨fun e' h => ?_, fun a s' h => ?_⟩
  · obtain ⟨hc, rfl⟩ := check_error.mp h
    exact he hc
  · obtain ⟨hc, rfl⟩ := check_ok.mp h
    exact ⟨hs, hc⟩

theorem demand {o : Option α} {e : ε} (he : o = none → E e) :
    Triple P (demand o e : Tx ε σ α) (fun a s => P s ∧ o = some a) E := by
  refine fun s hs => ⟨fun e' h => ?_, fun a s' h => ?_⟩
  · cases o with
    | some a => exact nomatch h
    | none =>
        obtain rfl := Except.error.inj h
        exact he rfl
  · obtain ⟨ho, rfl⟩ := demand_ok.mp h
    exact ⟨hs, ho⟩

theorem query (f : σ → α) : Triple P (query f : Tx ε σ α) (fun a s => P s ∧ a = f s) E := by
  refine fun s hs => ⟨fun e h => (nomatch h), fun a s' h => ?_⟩
  obtain ⟨rfl, rfl⟩ := query_ok.mp h
  exact ⟨hs, rfl⟩

theorem update {f : σ → σ} (h : ∀ s, P s → P' (f s)) : Triple P (update f : Tx ε σ Unit) (fun _ => P') E := by
  refine fun s hs => ⟨fun e h => (nomatch h), fun b s' hs' => ?_⟩
  obtain rfl := update_ok.mp hs'
  exact h s hs

theorem ofExcept {r : Except ε α} (hr : ∀ e, r = .error e → E e) :
    Triple P (ofExcept r : Tx ε σ α) (fun a s => P s ∧ r = .ok a) E := by
  refine fun s hs => ⟨RaisesOnly.ofExcept hr s, fun a s' h => ?_⟩
  obtain ⟨ha, rfl⟩ := ofExcept_ok.mp h
  exact ⟨hs, ha⟩

theorem bind {m : Tx ε σ α} {f : α → Tx ε σ β} (hm : Triple P m Q E) (hf : ∀ a, Triple (Q a) (f a) R E) :
    Triple P (m >>= f) R E := by
  refine fun s hs => ⟨fun e h => ?_, fun b s' h => ?_⟩
  · rcases bind_error.mp h with h | ⟨a, s₁, ha, h⟩
    · exact (hm s hs).1 e h
    · exact (hf a s₁ ((hm s hs).2 a s₁ ha)).1 e h
  · obtain ⟨a, s₁, ha, h⟩ := bind_ok.mp h
    exact (hf a s₁ ((hm s hs).2 a s₁ ha)).2 b s' h

/-- An invariant of the iterations is one of the loop. -/
theorem foldlM {f : β → α → Tx ε σ β} {l : List α} (hf : ∀ b, ∀ a ∈ l, Triple P (f b a) (fun _ => P) E) (b : β) :
    Triple P (l.foldlM f b) (fun _ => P) E := by
  induction l generalizing b with
  | nil => exact pure fun _ hs => hs
  | cons a rest ih =>
      rw [List.foldlM_cons]
      exact bind (hf b a List.mem_cons_self) fun b' => ih (fun b a ha => hf b a (List.mem_cons_of_mem _ ha)) b'

/-- The store after the transaction, returned or rolled back. -/
theorem commit {m : Tx ε σ α} (hm : Triple P m (fun _ => P) E) {s : σ} (hs : P s) : P (m.commit s) :=
  commit_rule P hs (hm s hs).2

end Triple

end Tx

end HpAgent.Library
