import Mathlib.Data.List.Induction
import Mathlib.Data.List.Nodup

/-! # Naming with one way out

Items are named one after the other.  An item keeps its own name unless the key of that name is taken; then it gets another
one, which is not looked up again.

* `assign`: the names.
* `Displaced`: an item whose own name is gone.
* `Clean`: no other name meets a name that was given before.
* `assign_distinct_iff`: the keys are distinct exactly in that case. -/

namespace HpAgent.Library.Naming

variable {α ν κ : Type}

section names

variable (key : ν → κ) (own other : α → ν)

/-- An item whose own name is gone after the items `before`: it was taken at the start, or an item before it has the same name,
or an item before it that is displaced has it as the other one. -/
inductive Displaced (taken : List κ) : List α → α → Prop
  | taken {before : List α} {a : α} (h : key (own a) ∈ taken) : Displaced taken before a
  | own {before : List α} {a b : α} (hb : b ∈ before) (h : key (own b) = key (own a)) : Displaced taken before a
  | other {xs ys : List α} {a b : α} (hb : Displaced taken xs b) (h : key (other b) = key (own a)) :
      Displaced taken (xs ++ b :: ys) a

/-- The other name of a displaced item is not taken, and no item before it has it as its own. -/
def Clean (taken : List κ) (items : List α) : Prop :=
  ∀ before a after, items = before ++ a :: after → Displaced key own other taken before a →
    key (other a) ∉ taken ∧ ∀ b ∈ before, key (own b) ≠ key (other a)

/-- The keys that are taken: those of the start, the own names of the items, and the other names of the displaced ones. -/
def Given (taken : List κ) (items : List α) (k : κ) : Prop :=
  k ∈ taken ∨ (∃ b ∈ items, key (own b) = k) ∨
    ∃ xs b ys, items = xs ++ b :: ys ∧ Displaced key own other taken xs b ∧ key (other b) = k

variable [DecidableEq κ]

/-- The name of an item. -/
def choose (taken : List κ) (a : α) : ν := if key (own a) ∈ taken then other a else own a

/-- The names of the items; the keys that are taken are carried along. -/
def assign (taken : List κ) : List α → List ν
  | [] => []
  | a :: rest => choose key own other taken a :: assign (key (choose key own other taken a) :: taken) rest

/-- The keys that are taken after the items. -/
def takenAfter (taken : List κ) (items : List α) : List κ :=
  items.foldl (fun t a => key (choose key own other t a) :: t) taken

end names

variable {key : ν → κ} {own other : α → ν} {taken : List κ}

theorem displaced_iff_given {before : List α} {a : α} :
    Displaced key own other taken before a ↔ Given key own other taken before (key (own a)) := by
  constructor
  · rintro (h | ⟨hb, h⟩ | ⟨hb, h⟩)
    · exact .inl h
    · exact .inr (.inl ⟨_, hb, h⟩)
    · exact .inr (.inr ⟨_, _, _, rfl, hb, h⟩)
  · rintro (h | ⟨b, hb, h⟩ | ⟨xs, b, ys, rfl, hb, h⟩)
    · exact .taken h
    · exact .own hb h
    · exact .other hb h

theorem Displaced.mono {taken' : List κ} (h : ∀ k, k ∈ taken → k ∈ taken') {before : List α} {a : α}
    (hgone : Displaced key own other taken before a) : Displaced key own other taken' before a := by
  induction hgone with
  | taken hmem => exact .taken (h _ hmem)
  | own hb heq => exact .own hb heq
  | other _ heq ih => exact .other ih heq

/-- Only the set of the keys counts. -/
theorem clean_congr {taken' : List κ} (h : ∀ k, k ∈ taken ↔ k ∈ taken') {items : List α} :
    Clean key own other taken items ↔ Clean key own other taken' items := by
  unfold Clean
  refine forall_congr' fun before => forall_congr' fun a => forall_congr' fun after => forall_congr' fun _ => ?_
  have hgone : Displaced key own other taken before a ↔ Displaced key own other taken' before a :=
    ⟨.mono fun k => (h k).mp, .mono fun k => (h k).mpr⟩
  rw [hgone, h]

theorem given_concat {items : List α} {a : α} {k : κ} : Given key own other taken (items ++ [a]) k ↔
    Given key own other taken items k ∨ key (own a) = k ∨ Displaced key own other taken items a ∧ key (other a) = k := by
  constructor
  · rintro (h | ⟨b, hb, h⟩ | ⟨xs, b, ys, hsplit, hb, h⟩)
    · exact .inl (.inl h)
    · rw [List.mem_append, List.mem_singleton] at hb
      rcases hb with hb | rfl
      · exact .inl (.inr (.inl ⟨b, hb, h⟩))
      · exact .inr (.inl h)
    · rcases List.eq_nil_or_concat ys with rfl | ⟨zs, c, rfl⟩
      · obtain ⟨rfl, hlast⟩ := List.append_inj' hsplit rfl
        obtain rfl := (List.cons.inj hlast).1
        exact .inr (.inr ⟨hb, h⟩)
      · have hcat : items ++ [a] = (xs ++ b :: zs) ++ [c] := by simpa using hsplit
        exact .inl (.inr (.inr ⟨xs, b, zs, (List.append_inj' hcat rfl).1, hb, h⟩))
  · rintro ((h | ⟨b, hb, h⟩ | ⟨xs, b, ys, rfl, hb, h⟩) | h | ⟨hb, h⟩)
    · exact .inl h
    · exact .inr (.inl ⟨b, List.mem_append_left _ hb, h⟩)
    · exact .inr (.inr ⟨xs, b, ys ++ [a], by simp, hb, h⟩)
    · exact .inr (.inl ⟨a, by simp, h⟩)
    · exact .inr (.inr ⟨items, a, [], rfl, hb, h⟩)

/-- Names that are put down under distinct identifiers: they are distinct exactly if a key belongs to one identifier. -/
theorem nodup_iff_zip {ι : Type} {ids : List ι} {names : List ν} (hnodup : ids.Nodup) (hlength : ids.length = names.length) :
    (names.map key).Nodup ↔
      ∀ i j x y, (i, x) ∈ ids.zip names → (j, y) ∈ ids.zip names → key x = key y → i = j := by
  induction ids generalizing names with
  | nil =>
      obtain rfl := List.eq_nil_of_length_eq_zero hlength.symm
      exact iff_of_true List.nodup_nil fun i j x y h => absurd h List.not_mem_nil
  | cons i ids ih =>
      cases names with
      | nil => cases hlength
      | cons x names =>
          rw [List.nodup_cons] at hnodup
          have hrest := ih hnodup.2 (Nat.succ.inj hlength)
          rw [List.map_cons, List.nodup_cons, hrest, List.zip_cons_cons]
          constructor
          · rintro ⟨hnew, hold⟩ j k y z hj hk heq
            rcases List.mem_cons.mp hj with hfirst | hlater <;> rcases List.mem_cons.mp hk with hfirst' | hlater'
            · exact (Prod.mk.inj hfirst).1.trans (Prod.mk.inj hfirst').1.symm
            · obtain ⟨-, rfl⟩ := Prod.mk.inj hfirst
              exact absurd (List.mem_map.mpr ⟨z, (List.of_mem_zip hlater').2, heq.symm⟩) hnew
            · obtain ⟨-, rfl⟩ := Prod.mk.inj hfirst'
              exact absurd (List.mem_map.mpr ⟨y, (List.of_mem_zip hlater).2, heq⟩) hnew
            · exact hold j k y z hlater hlater' heq
          · intro h
            refine ⟨fun hmem => ?_, fun j k y z hj hk heq =>
              h j k y z (List.mem_cons_of_mem _ hj) (List.mem_cons_of_mem _ hk) heq⟩
            obtain ⟨y, hy, heq⟩ := List.mem_map.mp hmem
            -- the name stands under an identifier of its own
            obtain ⟨n, hn, rfl⟩ := List.getElem_of_mem hy
            have hlt : n < ids.length := by
              rw [List.length_cons, List.length_cons] at hlength
              omega
            have hpair : (ids[n], names[n]) ∈ ids.zip names := by
              rw [← List.getElem_zip (h := by rw [List.length_zip]; omega)]
              exact List.getElem_mem _
            have hsame := h i ids[n] x names[n] (by simp) (List.mem_cons_of_mem _ hpair) heq.symm
            exact hnodup.1 (hsame ▸ List.getElem_mem hlt)

variable [DecidableEq κ]

@[simp] theorem length_assign (items : List α) : (assign key own other taken items).length = items.length := by
  induction items generalizing taken with
  | nil => rfl
  | cons a rest ih => simp only [assign, List.length_cons, ih]

theorem takenAfter_concat (items : List α) (a : α) : takenAfter key own other taken (items ++ [a]) =
    key (choose key own other (takenAfter key own other taken items) a) :: takenAfter key own other taken items := by
  unfold takenAfter
  rw [List.foldl_concat]

theorem mem_takenAfter {items : List α} {k : κ} :
    k ∈ takenAfter key own other taken items ↔ Given key own other taken items k := by
  induction items using List.reverseRecOn generalizing k with
  | nil =>
      refine ⟨.inl, ?_⟩
      rintro (h | ⟨b, hb, -⟩ | ⟨xs, b, ys, h, -⟩)
      · exact h
      · cases hb
      · cases xs <;> cases h
  | append_singleton items a ih =>
      rw [takenAfter_concat, List.mem_cons, given_concat, ih, displaced_iff_given, ← ih (k := key (own a)), or_comm, eq_comm]
      unfold choose
      -- a name that is kept was not given before; one that is lost was
      by_cases hgone : key (own a) ∈ takenAfter key own other taken items
      · rw [if_pos hgone]
        refine or_congr_right' fun hnew => ⟨fun h => .inr ⟨hgone, h⟩, ?_⟩
        rintro (rfl | ⟨-, h⟩)
        · exact absurd (ih.mp hgone) hnew
        · exact h
      · rw [if_neg hgone]
        exact or_congr_right ⟨.inl, fun h => h.resolve_right fun h => hgone h.1⟩

theorem displaced_iff {before : List α} {a : α} :
    Displaced key own other taken before a ↔ key (own a) ∈ takenAfter key own other taken before := by
  rw [displaced_iff_given, mem_takenAfter]

/-- The names are distinct exactly if none is taken when it is given. -/
theorem assign_nodup_iff {items : List α} :
    (((assign key own other taken items).map key).Nodup ∧ ∀ n ∈ assign key own other taken items, key n ∉ taken) ↔
      ∀ before a after, items = before ++ a :: after →
        key (choose key own other (takenAfter key own other taken before) a) ∉ takenAfter key own other taken before := by
  induction items generalizing taken with
  | nil =>
      refine iff_of_true ⟨List.nodup_nil, fun n hn => absurd hn List.not_mem_nil⟩ fun before a after h => ?_
      cases before <;> cases h
  | cons a rest ih =>
      simp only [assign, List.map_cons, List.nodup_cons, List.mem_cons, forall_eq_or_imp]
      have hrest := @ih (key (choose key own other taken a) :: taken)
      simp only [List.mem_cons, not_or] at hrest
      constructor
      · rintro ⟨⟨hnew, hnodup⟩, hfirst, hfresh⟩ before b after hsplit
        cases before with
        | nil =>
            obtain ⟨rfl, -⟩ := List.cons.inj hsplit
            exact hfirst
        | cons c before =>
            obtain ⟨rfl, hlater⟩ := List.cons.inj hsplit
            exact hrest.mp ⟨hnodup, fun n hn => ⟨fun heq => hnew (List.mem_map.mpr ⟨n, hn, heq⟩), hfresh n hn⟩⟩ before b after hlater
      · intro h
        obtain ⟨hnodup, hfresh⟩ := hrest.mpr fun before b after hsplit => h (a :: before) b after (by rw [hsplit]; rfl)
        refine ⟨⟨fun hmem => ?_, hnodup⟩, h [] a rest rfl, fun n hn => (hfresh n hn).2⟩
        obtain ⟨n, hn, heq⟩ := List.mem_map.mp hmem
        exact (hfresh n hn).1 heq

/-- **The keys of the names are distinct and were not taken exactly if no other name meets a name that was given before.** -/
theorem assign_distinct_iff {items : List α} (hother : ∀ before a after, items = before ++ a :: after →
      ∀ b ∈ before, key (other b) ≠ key (other a)) :
    (((assign key own other taken items).map key).Nodup ∧ ∀ n ∈ assign key own other taken items, key n ∉ taken) ↔
      Clean key own other taken items := by
  rw [assign_nodup_iff]
  refine forall_congr' fun before => forall_congr' fun a => forall_congr' fun after => forall_congr' fun hsplit => ?_
  rw [displaced_iff]
  unfold choose
  by_cases hgone : key (own a) ∈ takenAfter key own other taken before
  · rw [if_pos hgone, mem_takenAfter]
    unfold Given
    constructor
    · intro h _
      rw [not_or, not_or] at h
      exact ⟨h.1, fun b hb heq => h.2.1 ⟨b, hb, heq⟩⟩
    · rintro h (hmem | ⟨b, hb, heq⟩ | ⟨xs, b, ys, hbefore, -, heq⟩)
      · exact (h hgone).1 hmem
      · exact (h hgone).2 b hb heq
      · exact hother before a after hsplit b (by rw [hbefore]; simp) heq
  · rw [if_neg hgone]
    exact iff_of_true hgone fun h => absurd h hgone

end HpAgent.Library.Naming
