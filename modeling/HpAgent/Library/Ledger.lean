import Mathlib.Algebra.Order.BigOperators.Group.Finset
import Mathlib.Algebra.Order.Group.Int
import HpAgent.Library.Table

/-! # Hold ledgers

A reservation protocol keeps one row per *hold* and, for every budget *cell*, two counters: what is
still reserved and what has been used.  A hold is opened as `reserved`, and is closed once, either
`settled` at an actual amount or `released`.

`Balanced cell view t reserved used` says that the counters are the column sums of the rows:
`reserved c` adds up the held amounts of the rows of cell `c` that are still reserved, and `used c` the
actual amounts of the settled ones.  The rows may carry other columns; `view` forgets them.

* `Balanced.move`: the equations survive any change that touches at most one row of each cell, when
  each counter changes by exactly what that row's contribution changes.  It covers opening, settling
  and releasing a hold, in one cell or in many at once.
* `Balanced.reserved_nonneg`: the reserved counters are never negative.
* `Balanced.held_le`: a hold that is still reserved fits under the counter of its cell.
* `Balanced.charged_le`, `Balanced.charged_le_add`: a cell is charged no more than its rows are. -/

namespace HpAgent.Library

inductive HoldState where
  | reserved | settled | released
deriving DecidableEq, Repr

/-- The ledger's view of a row. -/
structure Hold where
  state : HoldState
  held : ℕ
  actual : ℕ
deriving DecidableEq, Repr

namespace Hold

/-- What the hold contributes to the reserved counter. -/
def reservedAmount (h : Hold) : ℤ := if h.state = .reserved then h.held else 0

/-- What the hold contributes to the used counter. -/
def usedAmount (h : Hold) : ℤ := if h.state = .settled then h.actual else 0

theorem reservedAmount_nonneg (h : Hold) : 0 ≤ h.reservedAmount := by
  unfold reservedAmount
  split <;> omega

theorem usedAmount_nonneg (h : Hold) : 0 ≤ h.usedAmount := by
  unfold usedAmount
  split <;> omega

end Hold

namespace Ledger

variable {κ γ ρ : Type} [DecidableEq κ] [DecidableEq γ] (cell : κ → γ) (view : ρ → Hold)

/-- The column `SUM(held) WHERE cell = c AND state = 'reserved'` adds up. -/
def reservedColumn (c : γ) (k : κ) (r : ρ) : ℤ := if cell k = c then (view r).reservedAmount else 0

/-- The column `SUM(actual) WHERE cell = c AND state = 'settled'` adds up. -/
def usedColumn (c : γ) (k : κ) (r : ρ) : ℤ := if cell k = c then (view r).usedAmount else 0

/-- What the row under `k` contributes to the reserved counter of its cell. -/
def reservedAt (t : Table κ ρ) (k : κ) : ℤ := (t.lookup k).elim 0 fun r => (view r).reservedAmount

/-- What the row under `k` contributes to the used counter of its cell. -/
def usedAt (t : Table κ ρ) (k : κ) : ℤ := (t.lookup k).elim 0 fun r => (view r).usedAmount

/-- What the row under `k` holds or has used. -/
def chargedAt (t : Table κ ρ) (k : κ) : ℤ := reservedAt view t k + usedAt view t k

/-- The counters are the column sums of the rows. -/
structure Balanced (t : Table κ ρ) (reserved used : γ → ℤ) : Prop where
  reserved_eq : ∀ c, reserved c = Table.total (reservedColumn cell view c) t
  used_eq : ∀ c, used c = Table.total (usedColumn cell view c) t

section contributions

variable {cell view} {t : Table κ ρ}

theorem value_reservedColumn (c : γ) (k : κ) :
    Table.value (reservedColumn cell view c) t k = if cell k = c then reservedAt view t k else 0 := by
  unfold Table.value reservedAt reservedColumn
  cases t.lookup k <;> simp

theorem value_usedColumn (c : γ) (k : κ) :
    Table.value (usedColumn cell view c) t k = if cell k = c then usedAt view t k else 0 := by
  unfold Table.value usedAt usedColumn
  cases t.lookup k <;> simp

theorem reservedAt_nonneg (k : κ) : 0 ≤ reservedAt view t k := by
  unfold reservedAt
  cases t.lookup k with
  | none => exact le_refl 0
  | some r => exact (view r).reservedAmount_nonneg

theorem reservedAt_congr {t' : Table κ ρ} {k : κ} (h : (t'.lookup k).map view = (t.lookup k).map view) :
    reservedAt view t' k = reservedAt view t k := by
  unfold reservedAt
  cases h₁ : t'.lookup k <;> cases h₂ : t.lookup k <;> simp_all

theorem usedAt_congr {t' : Table κ ρ} {k : κ} (h : (t'.lookup k).map view = (t.lookup k).map view) :
    usedAt view t' k = usedAt view t k := by
  unfold usedAt
  cases h₁ : t'.lookup k <;> cases h₂ : t.lookup k <;> simp_all

end contributions

omit [DecidableEq κ] in
theorem Balanced.empty : Balanced cell view (∅ : Table κ ρ) (fun _ => 0) (fun _ => 0) :=
  ⟨fun _ => rfl, fun _ => rfl⟩

namespace Balanced

variable {cell view} {t t' : Table κ ρ} {reserved used reserved' used' : γ → ℤ}

/-- **Conservation.** At most one row of each cell changes, and both counters of the cell change by what
that row's contribution changes. -/
theorem move (hb : Balanced cell view t reserved used) (key : γ → κ) (hkey : ∀ c, cell (key c) = c)
    (hframe : ∀ k, k ≠ key (cell k) → (t'.lookup k).map view = (t.lookup k).map view)
    (hres : ∀ c, reserved' c - reserved c = reservedAt view t' (key c) - reservedAt view t (key c))
    (hused : ∀ c, used' c - used c = usedAt view t' (key c) - usedAt view t (key c)) :
    Balanced cell view t' reserved' used' := by
  refine ⟨fun c => ?_, fun c => ?_⟩
  · have hother : ∀ k, k ≠ key c →
        Table.value (reservedColumn cell view c) t' k = Table.value (reservedColumn cell view c) t k := by
      intro k hk
      rw [value_reservedColumn, value_reservedColumn]
      split
      · next hc => rw [reservedAt_congr (hframe k (by rw [hc]; exact hk))]
      · rfl
    have hmove := Table.total_move (key c) hother
    rw [value_reservedColumn, value_reservedColumn, if_pos (hkey c), if_pos (hkey c)] at hmove
    have := hb.reserved_eq c
    have := hres c
    omega
  · have hother : ∀ k, k ≠ key c →
        Table.value (usedColumn cell view c) t' k = Table.value (usedColumn cell view c) t k := by
      intro k hk
      rw [value_usedColumn, value_usedColumn]
      split
      · next hc => rw [usedAt_congr (hframe k (by rw [hc]; exact hk))]
      · rfl
    have hmove := Table.total_move (key c) hother
    rw [value_usedColumn, value_usedColumn, if_pos (hkey c), if_pos (hkey c)] at hmove
    have := hb.used_eq c
    have := hused c
    omega

/-- Conservation for an operation that holds at most one row in each cell `(x, d)` of one budget `x`:
`row x d` is that row's key. -/
theorem move_operation {β δ : Type} [DecidableEq β] [DecidableEq δ] {cell : κ → β × δ}
    {reserved used reserved' used' : β × δ → ℤ} (hb : Balanced cell view t reserved used)
    (row : β → δ → κ) (hrow : ∀ y d, cell (row y d) = (y, d)) (x : β)
    (hframe : ∀ k, k ≠ row x (cell k).2 → t'.lookup k = t.lookup k)
    (hother : ∀ y, y ≠ x → ∀ d, reserved' (y, d) = reserved (y, d) ∧ used' (y, d) = used (y, d))
    (hres : ∀ d, reserved' (x, d) - reserved (x, d)
      = reservedAt view t' (row x d) - reservedAt view t (row x d))
    (hused : ∀ d, used' (x, d) - used (x, d) = usedAt view t' (row x d) - usedAt view t (row x d)) :
    Balanced cell view t' reserved' used' := by
  have hsame : ∀ y, y ≠ x → ∀ d, t'.lookup (row y d) = t.lookup (row y d) := by
    intro y hy d
    refine hframe _ fun h => hy ?_
    have hcell := congrArg (fun k => (cell k).1) h
    simpa only [hrow] using hcell
  refine hb.move (fun c => row c.1 c.2) (fun c => hrow c.1 c.2) (fun k hk => ?_) (fun c => ?_) (fun c => ?_)
  · by_cases hx : (cell k).1 = x
    · rw [hframe k (by rw [← hx]; exact hk)]
    · rw [hframe k fun h => hx (by rw [h, hrow])]
  · obtain ⟨y, d⟩ := c
    by_cases hy : y = x
    · rw [hy]
      exact hres d
    · have hrow' : reservedAt view t' (row y d) = reservedAt view t (row y d) :=
        reservedAt_congr (by rw [hsame y hy d])
      rw [(hother y hy d).1, hrow', sub_self, sub_self]
  · obtain ⟨y, d⟩ := c
    by_cases hy : y = x
    · rw [hy]
      exact hused d
    · have hrow' : usedAt view t' (row y d) = usedAt view t (row y d) :=
        usedAt_congr (by rw [hsame y hy d])
      rw [(hother y hy d).2, hrow', sub_self, sub_self]

omit [DecidableEq κ] in
/-- The reserved counter of a cell is a conditional sum over the rows. -/
theorem reserved_sumWhere (hb : Balanced cell view t reserved used) (c : γ) :
    reserved c = Table.sumWhere (fun k r => cell k = c ∧ (view r).state = .reserved)
      (fun r => (view r).held) t := by
  rw [hb.reserved_eq, ← Table.total_eq_sumWhere]
  congr 1
  funext k r
  unfold reservedColumn Hold.reservedAmount
  split_ifs <;> simp_all

omit [DecidableEq κ] in
/-- The used counter of a cell is a conditional sum over the rows. -/
theorem used_sumWhere (hb : Balanced cell view t reserved used) (c : γ) :
    used c = Table.sumWhere (fun k r => cell k = c ∧ (view r).state = .settled) (fun r => (view r).actual) t := by
  rw [hb.used_eq, ← Table.total_eq_sumWhere]
  congr 1
  funext k r
  unfold usedColumn Hold.usedAmount
  split_ifs <;> simp_all

theorem reserved_eq_sum (hb : Balanced cell view t reserved used) (c : γ) :
    reserved c = ∑ k ∈ t.keys.toFinset, if cell k = c then reservedAt view t k else 0 := by
  rw [hb.reserved_eq, Table.total_eq_sum_keys]
  exact Finset.sum_congr rfl fun k _ => value_reservedColumn c k

theorem reserved_nonneg (hb : Balanced cell view t reserved used) (c : γ) : 0 ≤ reserved c := by
  rw [hb.reserved_eq_sum]
  refine Finset.sum_nonneg fun k _ => ?_
  split
  · exact reservedAt_nonneg k
  · exact le_refl 0

/-- Both counters of a cell together, over any finite set of keys that covers the table. -/
theorem charged_eq_sum (hb : Balanced cell view t reserved used) (c : γ) {S : Finset κ}
    (hS : t.keys.toFinset ⊆ S) : reserved c + used c = ∑ k ∈ S, if cell k = c then chargedAt view t k else 0 := by
  rw [hb.reserved_eq, hb.used_eq, Table.total_eq_sum _ _ hS, Table.total_eq_sum _ _ hS, ← Finset.sum_add_distrib]
  refine Finset.sum_congr rfl fun k _ => ?_
  rw [value_reservedColumn, value_usedColumn]
  split <;> rfl

/-- When no row of a cell is charged more than before, neither is the cell. -/
theorem charged_le (hb : Balanced cell view t reserved used) (hb' : Balanced cell view t' reserved' used') (c : γ)
    (h : ∀ k, cell k = c → chargedAt view t' k ≤ chargedAt view t k) : reserved' c + used' c ≤ reserved c + used c := by
  have hS : t.keys.toFinset ⊆ t.keys.toFinset ∪ t'.keys.toFinset := Finset.subset_union_left
  have hS' : t'.keys.toFinset ⊆ t.keys.toFinset ∪ t'.keys.toFinset := Finset.subset_union_right
  rw [hb.charged_eq_sum c hS, hb'.charged_eq_sum c hS']
  refine Finset.sum_le_sum fun k _ => ?_
  split
  · next hk => exact h k hk
  · exact le_refl 0

/-- When one row of a cell is charged by `n` more, so is the cell at most. -/
theorem charged_le_add (hb : Balanced cell view t reserved used) (hb' : Balanced cell view t' reserved' used') (k : κ)
    {n : ℤ} (hk : chargedAt view t' k ≤ chargedAt view t k + n)
    (h : ∀ j, cell j = cell k → j ≠ k → chargedAt view t' j ≤ chargedAt view t j) :
    reserved' (cell k) + used' (cell k) ≤ reserved (cell k) + used (cell k) + n := by
  have hS : t.keys.toFinset ⊆ insert k (t.keys.toFinset ∪ t'.keys.toFinset) :=
    Finset.subset_union_left.trans (Finset.subset_insert _ _)
  have hS' : t'.keys.toFinset ⊆ insert k (t.keys.toFinset ∪ t'.keys.toFinset) :=
    Finset.subset_union_right.trans (Finset.subset_insert _ _)
  rw [hb.charged_eq_sum _ hS, hb'.charged_eq_sum _ hS', ← Finset.add_sum_erase _ _ (Finset.mem_insert_self k _),
    ← Finset.add_sum_erase _ _ (Finset.mem_insert_self k _), if_pos rfl, if_pos rfl]
  have hrest : ∑ j ∈ (insert k (t.keys.toFinset ∪ t'.keys.toFinset)).erase k,
      (if cell j = cell k then chargedAt view t' j else 0)
        ≤ ∑ j ∈ (insert k (t.keys.toFinset ∪ t'.keys.toFinset)).erase k,
            if cell j = cell k then chargedAt view t j else 0 := by
    refine Finset.sum_le_sum fun j hj => ?_
    split
    · next hjk => exact h j hjk (Finset.ne_of_mem_erase hj)
    · exact le_refl 0
  omega

/-- A hold that is still reserved fits under the counter of its cell. -/
theorem held_le (hb : Balanced cell view t reserved used) {k : κ} {r : ρ} (hr : t.lookup k = some r)
    (hs : (view r).state = .reserved) : ((view r).held : ℤ) ≤ reserved (cell k) := by
  have hk : k ∈ t.keys.toFinset := by
    rw [List.mem_toFinset, ← AList.mem_keys, ← AList.lookup_isSome, hr]
    rfl
  have hat : reservedAt view t k = (view r).held := by
    rw [reservedAt, hr, Option.elim_some, Hold.reservedAmount, if_pos hs]
  rw [hb.reserved_eq_sum, ← hat]
  have hle := Finset.single_le_sum (f := fun j => if cell j = cell k then reservedAt view t j else 0)
    (fun j _ => by
      split
      · exact reservedAt_nonneg j
      · exact le_refl 0) hk
  simpa using hle

end Balanced

end Ledger

end HpAgent.Library
