import Mathlib.Data.List.Basic

/-! # Fields

A text of fields, each after a separator.  Only the last field may contain the separator itself.

* `splitOn_joined`: splitting gives the fields back.
* `joined_inj`: the text determines the fields. -/

namespace HpAgent.Library

variable {α : Type} [DecidableEq α] {sep : α} {fs gs : List (List α)} {last last' : List α}

/-- Every field after a separator. -/
def joined (sep : α) (fs : List (List α)) : List α := fs.flatMap (sep :: ·)

omit [DecidableEq α] in
@[simp] theorem joined_nil : joined sep ([] : List (List α)) = [] := rfl

omit [DecidableEq α] in
@[simp] theorem joined_cons (f : List α) (fs : List (List α)) : joined sep (f :: fs) = sep :: (f ++ joined sep fs) := rfl

theorem splitOn_joined (hfs : ∀ f ∈ fs, sep ∉ f) (f last : List α) (hf : sep ∉ f) :
    (f ++ (joined sep fs ++ sep :: last)).splitOn sep = f :: (fs ++ last.splitOn sep) := by
  induction fs generalizing f with
  | nil => exact List.splitOn_append_cons_self_of_not_mem hf last
  | cons g fs ih =>
      have hrest : (g ++ (joined sep fs ++ sep :: last)).splitOn sep = g :: (fs ++ last.splitOn sep) :=
        ih (fun f hf => hfs f (List.mem_cons_of_mem g hf)) g (hfs g List.mem_cons_self)
      rw [joined_cons, List.cons_append, List.append_assoc, List.splitOn_append_cons_self_of_not_mem hf, hrest]
      rfl

theorem splitOn_inj {s t : List α} (h : s.splitOn sep = t.splitOn sep) : s = t := by
  have hjoin := congrArg (List.intercalate [sep]) h
  rwa [List.intercalate_splitOn, List.intercalate_splitOn] at hjoin

theorem joined_inj (hfs : ∀ f ∈ fs, sep ∉ f) (hgs : ∀ g ∈ gs, sep ∉ g)
    (h : joined sep fs ++ sep :: last = joined sep gs ++ sep :: last') :
    fs ++ last.splitOn sep = gs ++ last'.splitOn sep := by
  have hsplit := congrArg (List.splitOn sep) h
  have hleft := splitOn_joined hfs [] last List.not_mem_nil
  have hright := splitOn_joined hgs [] last' List.not_mem_nil
  rw [List.nil_append] at hleft hright
  rw [hleft, hright] at hsplit
  exact (List.cons.inj hsplit).2

end HpAgent.Library
