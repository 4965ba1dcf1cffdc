import Mathlib.Data.List.AList
import Mathlib.Algebra.BigOperators.Group.Finset.Basic
import Mathlib.Order.Defs.Unbundled
import Mathlib.Tactic.Abel

/-! # Keyed tables and their column totals

A table with a primary key is an association list without duplicate keys (`AList`): the key
constraint is part of the value, so an insertion can never store two rows under one key.
`t.lookup k` reads a row and `t.insert k v` writes one.

`Table.total f t` adds up a column computed by `f` over all rows, as an SQL `sum` does.  The one rule
the ledger proofs need is `total_move`: when two tables give the same column value under every key but
`k`, their totals differ by the change at `k` alone. -/

namespace HpAgent.Library

/-- A table of rows `ρ` with primary key `κ`. -/
abbrev Table (κ ρ : Type) := AList fun _ : κ => ρ

namespace Table

variable {κ ρ M : Type} [DecidableEq κ]

/-- Write the row `v` under the key `k` whenever a row is there. -/
def modify (k : κ) (g : ρ → ρ) (t : Table κ ρ) : Table κ ρ :=
  match t.lookup k with
  | some v => t.insert k (g v)
  | none => t

theorem lookup_insert_ite (t : Table κ ρ) (k j : κ) (v : ρ) :
    (t.insert k v).lookup j = if j = k then some v else t.lookup j := by
  split
  · next h => rw [h, AList.lookup_insert]
  · next h => rw [AList.lookup_insert_ne h]

theorem lookup_modify (t : Table κ ρ) (k j : κ) (g : ρ → ρ) :
    (modify k g t).lookup j = if j = k then (t.lookup k).map g else t.lookup j := by
  cases h : t.lookup k with
  | none =>
      simp only [modify, h, Option.map_none]
      split
      · next hj => rw [hj, h]
      · rfl
  | some v =>
      simp only [modify, h, Option.map_some]
      exact lookup_insert_ite t k j (g v)

/-- A list without duplicates whose only member is `a`. -/
theorem eq_singleton_of_nodup {α : Type} {l : List α} {a : α} (hnodup : l.Nodup) (ha : a ∈ l) (h : ∀ b ∈ l, b = a) :
    l = [a] := by
  have hreplicate := List.eq_replicate_of_mem h
  rw [hreplicate] at hnodup ha ⊢
  have hle := List.nodup_replicate.mp hnodup
  have hpos := List.length_pos_of_mem ha
  rw [List.length_replicate] at hpos
  have hone : l.length = 1 := by omega
  rw [hone]
  rfl

/-- A selection that only the row under `k` satisfies. -/
theorem filter_entries_singleton {t : Table κ ρ} {p : (Sigma fun _ : κ => ρ) → Bool} {k : κ} {v : ρ}
    (hv : t.lookup k = some v) (hp : p ⟨k, v⟩ = true)
    (h : ∀ j w, t.lookup j = some w → p ⟨j, w⟩ = true → j = k) : t.entries.filter p = [⟨k, v⟩] := by
  refine eq_singleton_of_nodup (t.nodupKeys.nodup.filter p) (List.mem_filter.mpr ⟨AList.mem_lookup_iff.mp hv, hp⟩) ?_
  rintro ⟨j, w⟩ hmem
  obtain ⟨hentry, hkey⟩ := List.mem_filter.mp hmem
  have hw := AList.mem_lookup_iff.mpr hentry
  obtain rfl := h j w hw hkey
  obtain rfl := Option.some.inj (hv.symm.trans hw)
  rfl

/-- Change every row, as an `UPDATE` without a key does. -/
def updateAll (f : ρ → ρ) (t : Table κ ρ) : Table κ ρ where
  entries := t.entries.map fun e => ⟨e.1, f e.2⟩
  nodupKeys := by
    have hkeys : (t.entries.map fun e => (⟨e.1, f e.2⟩ : Sigma fun _ : κ => ρ)).keys = t.entries.keys := by
      unfold List.keys
      rw [List.map_map]
      rfl
    rw [List.NodupKeys, hkeys]
    exact t.nodupKeys

/-- Change the rows that satisfy the condition, as an `UPDATE … WHERE` does. -/
def updateWhere (p : κ → ρ → Bool) (f : ρ → ρ) (t : Table κ ρ) : Table κ ρ where
  entries := t.entries.map fun e => ⟨e.1, if p e.1 e.2 then f e.2 else e.2⟩
  nodupKeys := by
    have hkeys : (t.entries.map fun e => (⟨e.1, if p e.1 e.2 then f e.2 else e.2⟩ : Sigma fun _ : κ => ρ)).keys =
        t.entries.keys := by
      unfold List.keys
      rw [List.map_map]
      rfl
    rw [List.NodupKeys, hkeys]
    exact t.nodupKeys

theorem lookup_updateWhere (p : κ → ρ → Bool) (f : ρ → ρ) (t : Table κ ρ) (k : κ) :
    (updateWhere p f t).lookup k = (t.lookup k).map fun v => if p k v then f v else v := by
  ext v
  rw [← Option.mem_def, AList.mem_lookup_iff, Option.map_eq_some_iff]
  constructor
  · intro hmem
    obtain ⟨⟨k', v'⟩, he, heq⟩ := List.mem_map.mp hmem
    obtain ⟨rfl, hv⟩ := Sigma.mk.inj heq
    exact ⟨v', AList.mem_lookup_iff.mpr he, eq_of_heq hv⟩
  · rintro ⟨v', hv', rfl⟩
    exact List.mem_map.mpr ⟨⟨k, v'⟩, AList.mem_lookup_iff.mp hv', rfl⟩

theorem lookup_updateAll (f : ρ → ρ) (t : Table κ ρ) (k : κ) : (updateAll f t).lookup k = (t.lookup k).map f :=
  lookup_updateWhere (fun _ _ => true) f t k

/-- An update whose condition no row satisfies changes nothing. -/
theorem updateWhere_of_none {p : κ → ρ → Bool} {f : ρ → ρ} {t : Table κ ρ} (h : ∀ k v, t.lookup k = some v → p k v = false) :
    updateWhere p f t = t := by
  have hsame : (t.entries.map fun e => (⟨e.1, if p e.1 e.2 then f e.2 else e.2⟩ : Sigma fun _ : κ => ρ)) = t.entries := by
    refine (List.map_congr_left ?_).trans (List.map_id _)
    rintro ⟨k, v⟩ he
    rw [h k v (AList.mem_lookup_iff.mpr he)]
    rfl
  exact AList.ext hsame

/-! ### Tables that only grow -/

/-- Every row of `t` is a row of `t'`. -/
def Extends (t t' : Table κ ρ) : Prop := ∀ k v, t.lookup k = some v → t'.lookup k = some v

instance : IsPreorder (Table κ ρ) Extends where
  refl _ _ _ h := h
  trans _ _ _ h h' k v hv := h' k v (h k v hv)

theorem Extends.of_eq {t t' : Table κ ρ} (h : t' = t) : Extends t t' := by
  intro k v hv
  rw [h]
  exact hv

/-- A row is written where there was none. -/
theorem extends_insert {t : Table κ ρ} {k : κ} {v : ρ} (h : t.lookup k = none) : Extends t (t.insert k v) := by
  intro j w hw
  rw [lookup_insert_ite]
  split
  · next hj =>
      rw [hj, h] at hw
      cases hw
  · exact hw

section totals

variable [AddCommMonoid M]

/-- The sum of the column `f` over all rows. -/
def total (f : κ → ρ → M) (t : Table κ ρ) : M := (t.entries.map fun e => f e.1 e.2).sum

/-- The column value stored under `k`, zero when there is no such row. -/
def value (f : κ → ρ → M) (t : Table κ ρ) (k : κ) : M := (t.lookup k).elim 0 (f k)

theorem value_of_lookup {f : κ → ρ → M} {t : Table κ ρ} {k : κ} {v : ρ} (h : t.lookup k = some v) :
    value f t k = f k v := by
  rw [value, h, Option.elim_some]

theorem value_of_lookup_none {f : κ → ρ → M} {t : Table κ ρ} {k : κ} (h : t.lookup k = none) :
    value f t k = 0 := by
  rw [value, h, Option.elim_none]

theorem total_eq_sum_keys (f : κ → ρ → M) (t : Table κ ρ) :
    total f t = ∑ k ∈ t.keys.toFinset, value f t k := by
  have hkeys : t.keys.Nodup := t.nodupKeys
  rw [List.sum_toFinset _ hkeys, total, AList.keys, List.keys, List.map_map]
  congr 1
  refine List.map_congr_left fun e he => ?_
  exact (value_of_lookup (AList.mem_lookup_iff.mpr he)).symm

/-- The total may be taken over any finite set of keys that covers the table. -/
theorem total_eq_sum (f : κ → ρ → M) (t : Table κ ρ) {S : Finset κ} (hS : t.keys.toFinset ⊆ S) :
    total f t = ∑ k ∈ S, value f t k := by
  rw [total_eq_sum_keys]
  refine Finset.sum_subset hS fun k _ hk => value_of_lookup_none ?_
  rw [AList.lookup_eq_none]
  simpa [AList.mem_keys] using hk

/-- **One key moved.** Two tables that agree on the column under every key but `k` have totals that
differ by the change at `k`. -/
theorem total_move {f : κ → ρ → M} {t t' : Table κ ρ} (k : κ)
    (h : ∀ j, j ≠ k → value f t' j = value f t j) :
    total f t' + value f t k = total f t + value f t' k := by
  have hS : t.keys.toFinset ⊆ insert k (t.keys.toFinset ∪ t'.keys.toFinset) := by
    intro j hj
    simp [List.mem_toFinset.mp hj]
  have hS' : t'.keys.toFinset ⊆ insert k (t.keys.toFinset ∪ t'.keys.toFinset) := by
    intro j hj
    simp [List.mem_toFinset.mp hj]
  have hk : k ∈ insert k (t.keys.toFinset ∪ t'.keys.toFinset) := Finset.mem_insert_self k _
  rw [total_eq_sum f t hS, total_eq_sum f t' hS', ← Finset.add_sum_erase _ _ hk,
    ← Finset.add_sum_erase _ _ hk]
  have hrest : ∑ j ∈ (insert k (t.keys.toFinset ∪ t'.keys.toFinset)).erase k, value f t' j
      = ∑ j ∈ (insert k (t.keys.toFinset ∪ t'.keys.toFinset)).erase k, value f t j :=
    Finset.sum_congr rfl fun j hj => h j (Finset.ne_of_mem_erase hj)
  rw [hrest]
  abel

end totals

/-! ### Conditional sums -/

/-- `SELECT COALESCE(sum(f), 0) FROM t WHERE p`. -/
def sumWhere (p : κ → ρ → Prop) [∀ k r, Decidable (p k r)] (f : ρ → ℕ) (t : Table κ ρ) : ℕ :=
  ((t.entries.filter fun e => p e.1 e.2).map fun e => f e.2).sum

omit [DecidableEq κ] in
theorem sumWhere_congr {p q : κ → ρ → Prop} [∀ k r, Decidable (p k r)] [∀ k r, Decidable (q k r)]
    (h : ∀ k r, p k r ↔ q k r) (f : ρ → ℕ) (t : Table κ ρ) : sumWhere p f t = sumWhere q f t := by
  unfold sumWhere
  simp only [h]

omit [DecidableEq κ] in
/-- A total whose column is zero outside a condition is a conditional sum. -/
theorem total_eq_sumWhere (p : κ → ρ → Prop) [∀ k r, Decidable (p k r)] (f : ρ → ℕ) (t : Table κ ρ) :
    total (fun k r => if p k r then (f r : ℤ) else 0) t = sumWhere p f t := by
  unfold total sumWhere
  induction t.entries with
  | nil => rfl
  | cons e rest ih =>
      rw [List.map_cons, List.sum_cons, ih, List.filter_cons]
      by_cases h : p e.1 e.2 <;> simp [h]

/-! ### Counts -/

/-- `SELECT count(*) FROM t WHERE p`. -/
def countWhere (p : κ → ρ → Prop) [∀ k r, Decidable (p k r)] (t : Table κ ρ) : ℕ :=
  (t.entries.filter fun e => p e.1 e.2).length

section counts

variable {p p' : κ → ρ → Prop} [∀ k r, Decidable (p k r)] [∀ k r, Decidable (p' k r)] {t t' : Table κ ρ}

/-- The keys that are counted. -/
def keysWhere (p : κ → ρ → Prop) [∀ k r, Decidable (p k r)] (t : Table κ ρ) : Finset κ :=
  t.keys.toFinset.filter fun k => ∃ r ∈ t.lookup k, p k r

theorem mem_keysWhere {k : κ} : k ∈ keysWhere p t ↔ ∃ r, t.lookup k = some r ∧ p k r := by
  unfold keysWhere
  rw [Finset.mem_filter, List.mem_toFinset, ← AList.mem_keys]
  constructor
  · rintro ⟨-, r, hr, hp⟩
    exact ⟨r, hr, hp⟩
  · rintro ⟨r, hr, hp⟩
    exact ⟨AList.lookup_isSome.mp (by rw [hr]; rfl), r, hr, hp⟩

theorem countWhere_eq_card (p : κ → ρ → Prop) [∀ k r, Decidable (p k r)] (t : Table κ ρ) :
    countWhere p t = (keysWhere p t).card := by
  have hkeys : ((t.entries.filter fun e => p e.1 e.2).map Sigma.fst).Nodup :=
    List.Sublist.nodup (List.filter_sublist.map _) t.nodupKeys
  have hset : keysWhere p t = ((t.entries.filter fun e => p e.1 e.2).map Sigma.fst).toFinset := by
    ext k
    rw [mem_keysWhere, List.mem_toFinset, List.mem_map]
    constructor
    · rintro ⟨r, hr, hp⟩
      exact ⟨⟨k, r⟩, List.mem_filter.mpr ⟨AList.mem_lookup_iff.mp hr, by simpa using hp⟩, rfl⟩
    · rintro ⟨⟨k', r⟩, he, rfl⟩
      obtain ⟨hmem, hp⟩ := List.mem_filter.mp he
      exact ⟨r, AList.mem_lookup_iff.mpr hmem, by simpa using hp⟩
  rw [hset, List.toFinset_card_of_nodup hkeys, List.length_map]
  rfl

/-- A count whose every row was counted before has not grown. -/
theorem countWhere_le (h : ∀ k r, t'.lookup k = some r → p' k r → ∃ r₀, t.lookup k = some r₀ ∧ p k r₀) :
    countWhere p' t' ≤ countWhere p t := by
  rw [countWhere_eq_card, countWhere_eq_card]
  apply Finset.card_le_card
  intro k hk
  obtain ⟨r, hr, hp⟩ := mem_keysWhere.mp hk
  exact mem_keysWhere.mpr (h k r hr hp)

/-- A count whose every row but one was counted before has grown by at most one. -/
theorem countWhere_le_succ (k₀ : κ)
    (h : ∀ k r, k ≠ k₀ → t'.lookup k = some r → p' k r → ∃ r₀, t.lookup k = some r₀ ∧ p k r₀) :
    countWhere p' t' ≤ countWhere p t + 1 := by
  rw [countWhere_eq_card, countWhere_eq_card]
  have hsub : keysWhere p' t' ⊆ insert k₀ (keysWhere p t) := by
    intro k hk
    rw [Finset.mem_insert]
    by_cases hk₀ : k = k₀
    · exact .inl hk₀
    · obtain ⟨r, hr, hp⟩ := mem_keysWhere.mp hk
      exact .inr (mem_keysWhere.mpr (h k r hk₀ hr hp))
  exact (Finset.card_le_card hsub).trans (Finset.card_insert_le _ _)

theorem countWhere_eq_zero (h : ∀ k r, t.lookup k = some r → ¬p k r) : countWhere p t = 0 := by
  rw [countWhere_eq_card, Finset.card_eq_zero, Finset.eq_empty_iff_forall_notMem]
  intro k hk
  obtain ⟨r, hr, hp⟩ := mem_keysWhere.mp hk
  exact h k r hr hp

end counts

end Table

end HpAgent.Library
