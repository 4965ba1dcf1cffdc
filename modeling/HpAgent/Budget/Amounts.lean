import Mathlib.Data.Fintype.Pi
import HpAgent.Domain.Authority
import HpAgent.Library.Pointwise

/-! # Budget dimensions and amounts

The thirteen metered dimensions, JSON objects keyed by them (`Dict`), and `amounts`, the validation
every reserve and settle call applies to the mapping it is given.

A mapping that passes `amounts` names at least one dimension and only non-negative integers, so the
ledgers work with `Dict ℕ` from there on; `amounts_items` says that validating a valid mapping again
changes nothing. -/

namespace HpAgent.Budget

open Library

/-- `DIMENSIONS`. -/
inductive Dimension where
  | modelInputTokens | modelOutputTokens | modelTotalTokens | modelCalls | toolCalls
  | bytesScanned | bytesReturnedToModel | bytesWritten | outputFileBytes | wallTimeMs
  | sourcesDiscovered | sourceFetches | researchIterations
deriving DecidableEq, Repr

namespace Dimension

/-- The text the dimension is stored and passed as. -/
def name : Dimension → String
  | modelInputTokens => "model_input_tokens"
  | modelOutputTokens => "model_output_tokens"
  | modelTotalTokens => "model_total_tokens"
  | modelCalls => "model_calls"
  | toolCalls => "tool_calls"
  | bytesScanned => "bytes_scanned"
  | bytesReturnedToModel => "bytes_returned_to_model"
  | bytesWritten => "bytes_written"
  | outputFileBytes => "output_file_bytes"
  | wallTimeMs => "wall_time_ms"
  | sourcesDiscovered => "sources_discovered"
  | sourceFetches => "source_fetches"
  | researchIterations => "research_iterations"

def all : List Dimension :=
  [modelInputTokens, modelOutputTokens, modelTotalTokens, modelCalls, toolCalls, bytesScanned,
    bytesReturnedToModel, bytesWritten, outputFileBytes, wallTimeMs, sourcesDiscovered, sourceFetches,
    researchIterations]

theorem mem_all (d : Dimension) : d ∈ all := by cases d <;> simp [all]

theorem nodup_all : all.Nodup := by decide

instance : Fintype Dimension := ⟨⟨all, nodup_all⟩, mem_all⟩

/-- The dimension a text names. -/
def ofName? (s : String) : Option Dimension := all.find? fun d => d.name = s

theorem ofName?_name (d : Dimension) : ofName? d.name = some d := by cases d <;> decide

theorem name_of_ofName? {s : String} {d : Dimension} (h : ofName? s = some d) : d.name = s := by
  simpa using List.find?_some h

theorem name_injective : Function.Injective name := by
  intro d e h
  have hd := ofName?_name d
  rw [h, ofName?_name] at hd
  exact (Option.some.inj hd).symm

end Dimension

/-- `USAGE_SOURCES`. -/
inductive UsageSource where
  | provider | measured | estimated
deriving DecidableEq, Repr

namespace UsageSource

def name : UsageSource → String
  | provider => "provider"
  | measured => "measured"
  | estimated => "estimated"

def ofName? (s : String) : Option UsageSource :=
  [provider, measured, estimated].find? fun u => u.name = s

/-- The check on a `usage_source` argument. -/
def parse (s : String) : Except Error UsageSource :=
  match ofName? s with
  | some u => .ok u
  | none => .error (.valueError ("unsupported usage source: " ++ s))

end UsageSource

/-! ### JSON objects keyed by dimension -/

/-- A JSON object, or a mapping, keyed by dimension. -/
abbrev Dict (α : Type) := Dimension → Option α

namespace Dict

variable {α : Type}

def empty : Dict α := fun _ => none

/-- `object.get(dimension, 0)`. -/
def get (v : Dict ℤ) (d : Dimension) : ℤ := (v d).getD 0

/-- `object[dimension] = x`. -/
def set (v : Dict α) (d : Dimension) (x : α) : Dict α := fun e => if e = d then some x else v e

/-- The pairs an iteration over the object visits. -/
def items (v : Dict α) : List (Dimension × α) := Dimension.all.filterMap fun d => (v d).map (d, ·)

theorem get_set (v : Dict ℤ) (d e : Dimension) (x : ℤ) : (v.set d x).get e = if e = d then x else v.get e := by
  unfold get set
  split <;> rfl

theorem nodup_items (v : Dict α) : (v.items.map Prod.fst).Nodup := by
  have hsub : v.items.map Prod.fst = Dimension.all.filter fun d => (v d).isSome := by
    unfold items
    rw [List.map_filterMap]
    induction Dimension.all with
    | nil => rfl
    | cons d rest ih =>
        rw [List.filterMap_cons, List.filter_cons, ih]
        cases v d <;> rfl
  rw [hsub]
  exact Dimension.nodup_all.filter _

theorem mem_items {v : Dict α} {d : Dimension} {x : α} : (d, x) ∈ v.items ↔ v d = some x := by
  unfold items
  rw [List.mem_filterMap]
  constructor
  · rintro ⟨e, _, he⟩
    obtain ⟨y, hy, hpair⟩ := Option.map_eq_some_iff.mp he
    obtain ⟨rfl, rfl⟩ := Prod.mk.inj hpair
    exact hy
  · intro h
    exact ⟨d, Dimension.mem_all d, by rw [h]; rfl⟩

/-- Iterating over the object reads each key at its own value. -/
theorem itemAt_items (v : Dict α) (d : Dimension) : itemAt v.items d = v d := by
  cases h : v d with
  | none =>
      refine itemAt_eq_none fun hmem => ?_
      obtain ⟨⟨e, x⟩, hp, rfl⟩ := List.mem_map.mp hmem
      rw [mem_items.mp hp] at h
      cases h
  | some x =>
      have hfind : v.items.find? (fun p => p.1 = d) = some (d, x) := by
        cases hf : v.items.find? (fun p => p.1 = d) with
        | none =>
            have := List.find?_eq_none.mp hf (d, x) (mem_items.mpr h)
            simp at this
        | some p =>
            have hd : p.1 = d := by simpa using List.find?_some hf
            have hv := mem_items.mp (show (p.1, p.2) ∈ v.items from List.mem_of_find?_eq_some hf)
            rw [hd, h] at hv
            obtain rfl := Option.some.inj hv
            rw [← hd]
      rw [itemAt, hfind]
      rfl

end Dict

/-! ### Validation -/

theorem mem_of_lookup {β : Type} {values : List (String × β)} {name : String} {x : β}
    (h : values.lookup name = some x) : (name, x) ∈ values := by
  induction values with
  | nil => cases h
  | cons p rest ih =>
      rw [List.lookup_cons] at h
      split at h
      · next hk =>
          obtain rfl := Option.some.inj h
          rw [eq_of_beq hk]
          exact List.mem_cons_self
      · exact List.mem_cons_of_mem _ (ih h)

/-- A value of the caller's mapping: an integer, a boolean, or anything else with the integer it
compares equal to, if any. -/
inductive Raw where
  | int (n : ℤ)
  | bool (b : Bool)
  | other (equalTo : Option ℤ)
deriving DecidableEq, Repr

/-- The integer the value compares equal to. -/
def Raw.comparable : Raw → Option ℤ
  | .int n => some n
  | .bool b => some (if b then 1 else 0)
  | .other equalTo => equalTo

/-- A non-negative integer that is not a boolean. -/
def Raw.amount : Raw → Option ℕ
  | .int (.ofNat n) => some n
  | _ => none

/-- One iteration of `_amounts`. -/
def normalize (normalized : Dict ℕ) : String × Raw → Except Error (Dict ℕ)
  | (dimension, raw) =>
    match Dimension.ofName? dimension with
    | none => .error (.valueError ("unsupported budget dimension: " ++ dimension))
    | some d =>
      match raw.amount with
      | none => .error (.valueError ("budget amount must be a non-negative integer: " ++ dimension))
      | some n => .ok (normalized.set d n)

/-- The last check of `_amounts`: at least one dimension. -/
def nonempty (normalized : Dict ℕ) : Except Error (Dict ℕ) :=
  if normalized = Dict.empty then .error (.valueError "at least one budget dimension is required")
  else .ok normalized

theorem nonempty_ok {v w : Dict ℕ} (h : nonempty v = .ok w) : v = w := by
  unfold nonempty at h
  split at h
  · cases h
  · exact Except.ok.inj h

/-- `_amounts`. -/
def amounts (values : List (String × Raw)) : Except Error (Dict ℕ) :=
  values.foldlM normalize Dict.empty >>= nonempty

theorem normalize_ok {acc acc' : Dict ℕ} {name : String} {raw : Raw} (h : normalize acc (name, raw) = .ok acc') :
    ∃ (d : Dimension) (n : ℕ), d.name = name ∧ raw.amount = some n ∧ acc' = acc.set d n := by
  unfold normalize at h
  dsimp only at h
  split at h
  · cases h
  next d hd =>
  split at h
  · cases h
  next n hn =>
  obtain rfl := Except.ok.inj h
  exact ⟨d, n, Dimension.name_of_ofName? hd, hn, rfl⟩

theorem foldlM_normalize_lookup {values : List (String × Raw)} (hkeys : (values.map Prod.fst).Nodup)
    {acc v : Dict ℕ} (h : values.foldlM normalize acc = .ok v) (d : Dimension) :
    (values.lookup d.name = none ∧ v d = acc d) ∨
      ∃ raw n, values.lookup d.name = some raw ∧ raw.amount = some n ∧ v d = some n := by
  induction values generalizing acc with
  | nil =>
      obtain rfl := Except.ok.inj h
      exact .inl ⟨rfl, rfl⟩
  | cons p rest ih =>
      obtain ⟨name, raw⟩ := p
      rw [List.map_cons, List.nodup_cons] at hkeys
      rw [List.foldlM_cons] at h
      cases hstep : normalize acc (name, raw) with
      | error e => rw [hstep] at h; cases h
      | ok acc' =>
          rw [hstep] at h
          obtain ⟨e, n, rfl, hn, rfl⟩ := normalize_ok hstep
          rw [List.lookup_cons]
          by_cases hd : d = e
          · subst hd
            rw [beq_self_eq_true]
            rcases ih hkeys.2 h with ⟨_, hv⟩ | ⟨raw', n', hlook, _, _⟩
            · exact .inr ⟨raw, n, rfl, hn, by rw [hv, Dict.set, if_pos rfl]⟩
            · -- the key occurs once, so the rest of the mapping does not name it
              exact absurd (List.mem_map_of_mem (f := Prod.fst) (mem_of_lookup hlook)) hkeys.1
          · have hname : (d.name == e.name) = false := by
              rw [beq_eq_false_iff_ne]
              exact fun h => hd (Dimension.name_injective h)
            rw [hname]
            rcases ih hkeys.2 h with ⟨hlook, hv⟩ | hmem
            · exact .inl ⟨hlook, by rw [hv, Dict.set, if_neg hd]⟩
            · exact .inr hmem

/-- A mapping argument: every key occurs once. -/
structure Values where
  items : List (String × Raw)
  nodup : (items.map Prod.fst).Nodup

/-- Accepted amounts hold, under every dimension the mapping names, the amount it names it with. -/
theorem amounts_lookup {values : List (String × Raw)} (hkeys : (values.map Prod.fst).Nodup) {v : Dict ℕ}
    (h : amounts values = .ok v) {d : Dimension} {raw : Raw} (hraw : values.lookup d.name = some raw) :
    ∃ n, raw.amount = some n ∧ v d = some n := by
  unfold amounts at h
  cases hn : values.foldlM normalize Dict.empty with
  | error e => rw [hn] at h; cases h
  | ok w =>
      rw [hn] at h
      obtain rfl := nonempty_ok h
      rcases foldlM_normalize_lookup hkeys hn d with ⟨hnone, _⟩ | ⟨raw', n, hlook, hamount, hv⟩
      · rw [hraw] at hnone
        cases hnone
      · obtain rfl := Option.some.inj (hraw.symm.trans hlook)
        exact ⟨n, hamount, hv⟩

/-- The mapping a validated amount is passed on as. -/
def rawItems (v : Dict ℕ) : List (String × Raw) := v.items.map fun p => (p.1.name, .int p.2)

theorem foldlM_normalize_rawItems (items : List (Dimension × ℕ)) (acc : Dict ℕ) :
    (items.map fun p => (p.1.name, Raw.int p.2)).foldlM normalize acc
      = .ok (items.foldl (fun v p => v.set p.1 p.2) acc) := by
  induction items generalizing acc with
  | nil => rfl
  | cons p rest ih =>
      rw [List.map_cons, List.foldlM_cons]
      have hstep : normalize acc (p.1.name, Raw.int p.2) = .ok (acc.set p.1 p.2) := by
        unfold normalize
        simp only [Dimension.ofName?_name, Raw.amount]
      rw [hstep]
      exact ih _

theorem foldl_set_items (v : Dict ℕ) : v.items.foldl (fun w p => w.set p.1 p.2) Dict.empty = v := by
  funext d
  have h := foldl_pointwise (fun (w : Dict ℕ) e => w e) (f := fun w p => w.set p.1 p.2)
    (fun _ n _ => some n) (fun w p e => rfl) v.nodup_items Dict.empty d
  rw [h, Dict.itemAt_items]
  cases v d <;> rfl

/-- Validating amounts that have been validated before only repeats the last check. -/
theorem amounts_rawItems (v : Dict ℕ) : amounts (rawItems v) = nonempty v := by
  unfold amounts rawItems
  rw [foldlM_normalize_rawItems, foldl_set_items]
  rfl

/-- Accepted amounts name at least one dimension. -/
theorem ne_empty_of_amounts {values : List (String × Raw)} {v : Dict ℕ} (h : amounts values = .ok v) :
    v ≠ Dict.empty := by
  unfold amounts at h
  cases hn : values.foldlM normalize Dict.empty with
  | error e => rw [hn] at h; cases h
  | ok w =>
      rw [hn] at h
      change nonempty w = .ok v at h
      unfold nonempty at h
      split at h
      · cases h
      · next hw =>
          obtain rfl := Except.ok.inj h
          exact hw

end HpAgent.Budget
