import Mathlib.Data.List.Perm.Basic
import Mathlib.Data.List.Count
import Mathlib.Data.List.Sublists

/-! # Pairing two lists one by one

The elements of the first list choose in turn among those that are left of the second; what was chosen is taken out, and
who finds nothing stays alone.

* `pair_current`, `pair_previous`: every element of either list is paired, alone or left, once.
* `pair_maximal`: nobody who stayed alone would have had anything of what is left.
* `pair_count`: where nobody takes the partner of another key, as many are paired under a key as both lists have of it. -/

namespace HpAgent.Library

variable {α β κ : Type} [DecidableEq β] [DecidableEq κ]

/-- Who stayed alone, who was paired with whom, and what nobody chose. -/
structure Paired (α β : Type) where
  alone : List α
  pairs : List (α × β)
  rest : List β

def pair (choose : α → List β → Option β) : List α → List β → Paired α β
  | [], previous => ⟨[], [], previous⟩
  | a :: current, previous =>
      match choose a previous with
      | none =>
          let p := pair choose current previous
          ⟨a :: p.alone, p.pairs, p.rest⟩
      | some b =>
          let p := pair choose current (previous.erase b)
          ⟨p.alone, (a, b) :: p.pairs, p.rest⟩

variable {choose : α → List β → Option β}

theorem pair_none {a : α} {previous : List β} (h : choose a previous = none) (current : List α) :
    pair choose (a :: current) previous =
      ⟨a :: (pair choose current previous).alone, (pair choose current previous).pairs, (pair choose current previous).rest⟩ := by
  simp only [pair, h]

theorem pair_some {a : α} {b : β} {previous : List β} (h : choose a previous = some b) (current : List α) :
    pair choose (a :: current) previous =
      ⟨(pair choose current (previous.erase b)).alone, (a, b) :: (pair choose current (previous.erase b)).pairs,
        (pair choose current (previous.erase b)).rest⟩ := by
  simp only [pair, h]

/-! ### Everything is there once -/

variable (choose) in
theorem pair_current (current : List α) (previous : List β) :
    ((pair choose current previous).alone ++ (pair choose current previous).pairs.map Prod.fst).Perm current := by
  induction current generalizing previous with
  | nil => exact List.Perm.refl _
  | cons a current ih =>
      cases h : choose a previous with
      | none =>
          rw [pair_none h]
          exact (ih previous).cons a
      | some b =>
          rw [pair_some h]
          exact List.perm_middle.trans ((ih (previous.erase b)).cons a)

/-- What is left of the second list keeps its order. -/
theorem pair_rest_sublist (current : List α) (previous : List β) :
    List.Sublist (pair choose current previous).rest previous := by
  induction current generalizing previous with
  | nil => exact List.Sublist.refl _
  | cons a current ih =>
      cases h : choose a previous with
      | none =>
          rw [pair_none h]
          exact ih previous
      | some b =>
          rw [pair_some h]
          exact (ih (previous.erase b)).trans List.erase_sublist

/-- What is chosen is there. -/
def Picks (choose : α → List β → Option β) : Prop := ∀ a l b, choose a l = some b → b ∈ l

theorem pair_previous (hpicks : Picks choose) (current : List α) (previous : List β) :
    ((pair choose current previous).rest ++ (pair choose current previous).pairs.map Prod.snd).Perm previous := by
  induction current generalizing previous with
  | nil => exact List.Perm.of_eq (List.append_nil _)
  | cons a current ih =>
      cases h : choose a previous with
      | none =>
          rw [pair_none h]
          exact ih previous
      | some b =>
          rw [pair_some h]
          have hback := (List.perm_cons_erase (hpicks a previous b h)).symm
          exact List.perm_middle.trans (((ih (previous.erase b)).cons b).trans hback)

variable (choose) in
/-- A property of every choice is one of every pair. -/
theorem pair_all {P : α → β → Prop} (hchoice : ∀ a l b, choose a l = some b → P a b) (current : List α) (previous : List β) :
    ∀ p ∈ (pair choose current previous).pairs, P p.1 p.2 := by
  induction current generalizing previous with
  | nil =>
      intro p hp
      cases hp
  | cons a current ih =>
      cases h : choose a previous with
      | none =>
          rw [pair_none h]
          exact ih previous
      | some b =>
          rw [pair_some h]
          intro p hp
          cases List.mem_cons.mp hp with
          | inl heq =>
              subst heq
              exact hchoice a previous b h
          | inr hrest => exact ih (previous.erase b) p hrest

/-! ### Nobody is alone for nothing -/

variable (choose) in
/-- Who finds nothing is refused by everything that is there: later there is only less. -/
theorem pair_maximal {P : α → β → Prop} (hnone : ∀ a l, choose a l = none → ∀ b ∈ l, ¬P a b) (current : List α)
    (previous : List β) :
    ∀ a ∈ (pair choose current previous).alone, ∀ b ∈ (pair choose current previous).rest, ¬P a b := by
  induction current generalizing previous with
  | nil =>
      intro a ha
      cases ha
  | cons a current ih =>
      cases h : choose a previous with
      | none =>
          rw [pair_none h]
          intro c hc b hb
          cases List.mem_cons.mp hc with
          | inl heq =>
              subst heq
              exact hnone c previous h b ((pair_rest_sublist current previous).subset hb)
          | inr hrest => exact ih previous c hrest b hb
      | some b =>
          rw [pair_some h]
          exact ih (previous.erase b)

/-! ### Pairs under a key -/

section Key

variable (keyOf : α → κ) (keyFor : β → κ) (k : κ)

/-- How many pairs have the key on both sides. -/
def pairedUnder (pairs : List (α × β)) : ℕ := pairs.countP fun p => keyOf p.1 = k ∧ keyFor p.2 = k

variable {keyOf keyFor k}

/-- Who has the key takes a partner with the key where there is one, and nobody else takes such a partner. -/
structure Keeps (choose : α → List β → Option β) (keyOf : α → κ) (keyFor : β → κ) (k : κ) (current : List α) : Prop where
  finds : ∀ a ∈ current, ∀ l, keyOf a = k → (∃ b ∈ l, keyFor b = k) → ∃ b, choose a l = some b ∧ keyFor b = k
  leaves : ∀ a ∈ current, ∀ l b, choose a l = some b → keyFor b = k → keyOf a = k

omit [DecidableEq β] [DecidableEq κ] in
theorem Keeps.tail {a : α} {current : List α} (h : Keeps choose keyOf keyFor k (a :: current)) :
    Keeps choose keyOf keyFor k current :=
  ⟨fun c hc => h.finds c (List.mem_cons_of_mem a hc), fun c hc => h.leaves c (List.mem_cons_of_mem a hc)⟩

theorem countP_erase_key {b : β} {l : List β} (hb : b ∈ l) (hkey : keyFor b = k) :
    (l.erase b).countP (fun b => keyFor b = k) + 1 = l.countP fun b => keyFor b = k := by
  have hperm := List.perm_cons_erase hb
  have hcount := hperm.countP_eq (fun b => decide (keyFor b = k))
  rw [hcount, List.countP_cons_of_pos (by simpa using hkey)]

theorem countP_erase_other {b : β} {l : List β} (hb : b ∈ l) (hkey : keyFor b ≠ k) :
    (l.erase b).countP (fun b => keyFor b = k) = l.countP fun b => keyFor b = k := by
  have hperm := List.perm_cons_erase hb
  have hcount := hperm.countP_eq (fun b => decide (keyFor b = k))
  rw [hcount, List.countP_cons_of_neg (by simpa using hkey)]

theorem pair_count (hpicks : Picks choose) (current : List α) (previous : List β) (h : Keeps choose keyOf keyFor k current) :
    pairedUnder keyOf keyFor k (pair choose current previous).pairs =
      min (current.countP fun a => keyOf a = k) (previous.countP fun b => keyFor b = k) := by
  induction current generalizing previous with
  | nil => exact (Nat.zero_min _).symm
  | cons a current ih =>
      have hrest := fun l => ih l h.tail
      by_cases ha : keyOf a = k
      · rw [List.countP_cons_of_pos (by simpa using ha)]
        by_cases hthere : ∃ b ∈ previous, keyFor b = k
        · obtain ⟨b, hb, hkey⟩ := h.finds a List.mem_cons_self previous ha hthere
          have hcount := countP_erase_key (hpicks a previous b hb) hkey
          have hpair := hrest (previous.erase b)
          rw [pair_some hb, pairedUnder, List.countP_cons_of_pos (by simp [ha, hkey])]
          unfold pairedUnder at hpair
          omega
        · have hzero : previous.countP (fun b => keyFor b = k) = 0 := by
            rw [List.countP_eq_zero]
            intro b hb hkey
            exact hthere ⟨b, hb, by simpa using hkey⟩
          rw [hzero, Nat.min_zero]
          cases hb : choose a previous with
          | none =>
              have hpair := hrest previous
              rw [pair_none hb, hpair, hzero, Nat.min_zero]
          | some b =>
              have hmem := hpicks a previous b hb
              have hother : keyFor b ≠ k := fun hkey => hthere ⟨b, hmem, hkey⟩
              have hpair := hrest (previous.erase b)
              rw [countP_erase_other hmem hother, hzero, Nat.min_zero] at hpair
              rw [pair_some hb, pairedUnder, List.countP_cons_of_neg (by simp [hother])]
              exact hpair
      · rw [List.countP_cons_of_neg (by simpa using ha)]
        cases hb : choose a previous with
        | none =>
            rw [pair_none hb]
            exact hrest previous
        | some b =>
            have hother : keyFor b ≠ k := fun hkey => ha (h.leaves a List.mem_cons_self previous b hb hkey)
            have hpair := hrest (previous.erase b)
            rw [countP_erase_other (hpicks a previous b hb) hother] at hpair
            rw [pair_some hb, pairedUnder, List.countP_cons_of_neg (by simp [ha])]
            exact hpair

end Key

end HpAgent.Library
