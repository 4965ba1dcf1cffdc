import HpAgent.Capabilities.Contracts
import HpAgent.Library.KeyOrder

/-! # The inputs of a capability

`normalizeInputs` puts the keys of the arguments in order and leaves out the optional texts that say nothing: `null`, or
empty where the schema asks for at least one character or for an identifier.  Unlike its namesake on payloads it works on
the whole JSON value.

* `leaveOut_eq_filter`: which fields are left out is decided by the value as it came.
* `normalizeInputs_congr`: the order of keys makes no difference.
* `normalized`: normalizing twice changes nothing, and what is left out is exactly `Dropped`. -/

namespace HpAgent.Capabilities.Inputs

open Library Library.Json Records

/-! ### Normalizing -/

/-- `canonical`. -/
def canonical (value : Json) : Except FactError Members :=
  match value with
  | .obj fields => do
    require (value.finite = true) (invalid "Out of range float values are not JSON compliant")
    require ((Utf8.encode (dumps [','] [':'] value.sortKeys)).length ≤ 32768) tooLong
    return sortFields fields
  | _ => .error (invalid "capability value must be an object")

/-- The value of an optional text says nothing. -/
def emptyFor (field : FieldSchema) : Option Json → Bool
  | some .null => true
  | some (.str s) => s.isEmpty && (0 < field.minLength || field.format = some "uuid")
  | _ => false

/-- A property is left out of the value. -/
def saysNothing (required : List String) (value : Members) (property : String × Option FieldSchema) : Bool :=
  property.2.any fun field => property.1 ∉ required && field.type = some "string" &&
    emptyFor field (value.lookup property.1.toList)

/-- `del value[name]`. -/
def without (name : List Char) (value : Members) : Members := value.filter fun f => f.1 ≠ name

/-- The loop of `normalize_inputs`. -/
def leaveOut (required : List String) (properties : List (String × Option FieldSchema)) (value : Members) : Members :=
  properties.foldl (fun v p => if saysNothing required v p then without p.1.toList v else v) value

/-- `normalize_inputs`. -/
def normalizeInputs (value : Json) (schema : Schema) : Except FactError Members := do
  let fields ← canonical value
  return leaveOut schema.required schema.properties fields

/-! ### What is left out -/

section fields

variable {required : List String} {properties : List (String × Option FieldSchema)} {value : Members} {name : List Char}

/-- A field is left out of the value. -/
def leftOut (required : List String) (properties : List (String × Option FieldSchema)) (value : Members)
    (name : List Char) : Bool :=
  properties.any fun p => p.1.toList = name && saysNothing required value p

theorem lookup_filter (keep : List Char → Bool) (value : Members) (name : List Char) :
    (value.filter fun f => keep f.1).lookup name = if keep name then value.lookup name else none := by
  induction value with
  | nil => simp
  | cons f rest ih =>
      obtain ⟨first, j⟩ := f
      by_cases hname : name = first
      · subst hname
        by_cases hkeep : keep name = true
        · simp [hkeep]
        · rw [List.filter_cons_of_neg (by simpa using hkeep), ih]
          simp [hkeep]
      · have hne : (name == first) = false := beq_eq_false_iff_ne.mpr hname
        by_cases hkeep : keep first = true
        · rw [List.filter_cons_of_pos (by simpa using hkeep), List.lookup_cons, hne, List.lookup_cons, hne]
          exact ih
        · rw [List.filter_cons_of_neg (by simpa using hkeep), List.lookup_cons, hne]
          exact ih

/-- Only the property's own field matters. -/
theorem saysNothing_congr {other : Members} {p : String × Option FieldSchema}
    (h : value.lookup p.1.toList = other.lookup p.1.toList) : saysNothing required value p = saysNothing required other p := by
  unfold saysNothing
  rw [h]

theorem leftOut_congr {other : Members} (h : value.lookup name = other.lookup name) :
    leftOut required properties value name = leftOut required properties other name := by
  unfold leftOut
  induction properties with
  | nil => rfl
  | cons p rest ih =>
      rw [List.any_cons, List.any_cons, ih]
      by_cases hname : p.1.toList = name
      · rw [saysNothing_congr (hname ▸ h)]
      · simp [hname]

/-- Which fields are left out is decided by the value the loop starts with. -/
theorem leaveOut_eq_filter (required : List String) (properties : List (String × Option FieldSchema)) (value : Members) :
    leaveOut required properties value = value.filter fun f => !leftOut required properties value f.1 := by
  unfold leaveOut
  induction properties generalizing value with
  | nil => simp [leftOut]
  | cons p rest ih =>
      rw [List.foldl_cons, ih]
      by_cases hp : saysNothing required value p = true
      · rw [if_pos hp, without, List.filter_filter]
        refine List.filter_congr fun f hf => ?_
        by_cases hname : f.1 = p.1.toList
        · simp [leftOut, hname, hp]
        · have hlookup : (value.filter fun f => decide (f.1 ≠ p.1.toList)).lookup f.1 = value.lookup f.1 := by
            rw [lookup_filter (fun n => decide (n ≠ p.1.toList)) value f.1]
            simp [hname]
          rw [leftOut_congr hlookup]
          have hother : p.1.toList ≠ f.1 := fun hsame => hname hsame.symm
          simp [leftOut, hname, hother]
      · rw [if_neg hp]
        refine List.filter_congr fun f hf => ?_
        have hskip : saysNothing required value p = false := by simpa using hp
        simp [leftOut, hskip]

end fields

/-- Only `null` and texts are left out, and they are in order whatever they are. -/
theorem emptyFor_sortKeys (field : FieldSchema) (value : Option Json) :
    emptyFor field (value.map sortKeys) = emptyFor field value := by
  cases value with
  | none => rfl
  | some j => cases j <;> rfl

theorem leftOut_sortFields {required : List String} {properties : List (String × Option FieldSchema)} {fields : Members}
    (hkeys : (fields.map Prod.fst).Nodup) (name : List Char) :
    leftOut required properties (sortFields fields) name = leftOut required properties fields name := by
  unfold leftOut
  have hsaid : saysNothing required (sortFields fields) = saysNothing required fields := by
    funext p
    unfold saysNothing
    rw [lookup_sortFields hkeys]
    simp only [emptyFor_sortKeys]
  rw [hsaid]

/-! ### Normalized values -/

section normal

variable {schema : Schema} {value : Json} {fields inputs : Members}

theorem bind_require_ok {α : Type} {c : Prop} [Decidable c] {e : FactError} {f : Unit → Except FactError α} {a : α} :
    (require c e >>= f) = .ok a ↔ c ∧ f () = .ok a := by
  unfold require
  by_cases hc : c
  · rw [if_pos hc]
    exact (and_iff_right hc).symm
  · rw [if_neg hc]
    constructor
    · intro h
      cases h
    · intro h
      exact absurd h.1 hc

theorem canonical_ok : canonical value = .ok inputs ↔ ∃ fields, value = .obj fields ∧ finite value = true ∧
    (Utf8.encode (dumps [','] [':'] value.sortKeys)).length ≤ 32768 ∧ sortFields fields = inputs := by
  constructor
  · intro h
    cases value with
    | obj fields =>
        simp only [canonical] at h
        obtain ⟨hfinite, h⟩ := bind_require_ok.mp h
        obtain ⟨hsize, h⟩ := bind_require_ok.mp h
        exact ⟨fields, rfl, hfinite, hsize, Except.ok.inj h⟩
    | null => cases h
    | bool b => cases h
    | int n => cases h
    | float text => cases h
    | str s => cases h
    | arr items => cases h
  · rintro ⟨fields, rfl, hfinite, hsize, rfl⟩
    simp only [canonical]
    exact bind_require_ok.mpr ⟨hfinite, bind_require_ok.mpr ⟨hsize, rfl⟩⟩

theorem normalizeInputs_eq : normalizeInputs value schema = .ok inputs ↔
    ∃ sorted, canonical value = .ok sorted ∧
      sorted.filter (fun f => !leftOut schema.required schema.properties sorted f.1) = inputs := by
  unfold normalizeInputs
  cases canonical value with
  | error e =>
      constructor
      · intro h
        cases h
      · rintro ⟨sorted, h, -⟩
        cases h
  | ok sorted =>
      show Except.ok (leaveOut schema.required schema.properties sorted) = .ok inputs ↔ _
      rw [Except.ok.injEq, leaveOut_eq_filter]
      constructor
      · intro h
        exact ⟨sorted, rfl, h⟩
      · rintro ⟨_, hsorted, h⟩
        obtain rfl := Except.ok.inj hsorted
        exact h

theorem canonical_congr {other : Json} (hsorted : other.sortKeys = value.sortKeys) (hfinite : other.finite = value.finite) :
    canonical other = canonical value := by
  cases other with
  | obj fields =>
      cases value with
      | obj gields =>
          have hfields : sortFields fields = sortFields gields := Json.obj.inj hsorted
          simp only [canonical, hsorted, hfinite, hfields]
      | _ => cases hsorted
  | _ =>
      cases value with
      | obj gields => cases hsorted
      | _ => rfl

/-- The order of keys makes no difference. -/
theorem normalizeInputs_congr {other : Json} (hvalue : Keyed value) (h : Reordered value other) :
    normalizeInputs other schema = normalizeInputs value schema := by
  unfold normalizeInputs
  rw [canonical_congr (sortKeys_eq_of_reordered h hvalue).symm h.finite_eq.symm]

/-- What stands in a list of fields in order. -/
theorem canonical_self (hordered : fields.Pairwise ByName) (hvalues : ∀ f ∈ fields, sortKeys f.2 = f.2)
    (hfinite : finite (.obj fields) = true) (hsize : (Utf8.encode (dumps [','] [':'] (.obj fields))).length ≤ 32768) :
    canonical (.obj fields) = .ok fields := by
  have hself : sortFields fields = fields := sortFields_eq_self hordered hvalues
  refine canonical_ok.mpr ⟨fields, rfl, hfinite, ?_, hself⟩
  rw [sortKeys_obj, hself]
  exact hsize

theorem size_le {gields : Members} (h : fields.Sublist gields) :
    (Utf8.encode (dumps [','] [':'] (.obj fields))).length ≤ (Utf8.encode (dumps [','] [':'] (.obj gields))).length :=
  ((dumps_sublist [','] [':'] h).flatMap Utf8.encodeChar).length_le

/-- A field of the inputs is a field of the value in order. -/
theorem lookup_inputs (hvalue : Keyed (.obj fields)) (h : normalizeInputs (.obj fields) schema = .ok inputs) (name : List Char) :
    inputs.lookup name =
      if leftOut schema.required schema.properties fields name then none else (fields.lookup name).map sortKeys := by
  obtain ⟨sorted, hcanonical, rfl⟩ := normalizeInputs_eq.mp h
  obtain ⟨_, hobj, -, -, rfl⟩ := canonical_ok.mp hcanonical
  obtain rfl := Json.obj.inj hobj
  have hlookup := lookup_filter (fun n => !leftOut schema.required schema.properties (sortFields fields) n) (sortFields fields) name
  rw [hlookup, leftOut_sortFields hvalue.1, lookup_sortFields hvalue.1]
  cases leftOut schema.required schema.properties fields name with
  | true => rfl
  | false => rfl

/-- Normalizing what is normalized changes nothing. -/
theorem normalizeInputs_idem (h : normalizeInputs value schema = .ok inputs) :
    normalizeInputs (.obj inputs) schema = .ok inputs := by
  obtain ⟨sorted, hcanonical, rfl⟩ := normalizeInputs_eq.mp h
  obtain ⟨fields, rfl, hfinite, hsize, rfl⟩ := canonical_ok.mp hcanonical
  set keep := fun n => !leftOut schema.required schema.properties (sortFields fields) n with hkeep
  have hsub : ((sortFields fields).filter fun f => keep f.1).Sublist (sortFields fields) := List.filter_sublist
  have hself : canonical (.obj ((sortFields fields).filter fun f => keep f.1)) =
      .ok ((sortFields fields).filter fun f => keep f.1) := by
    refine canonical_self ((sortFields_ordered fields).sublist hsub)
      (fun f hf => sorted_of_mem_sortFields (hsub.subset hf)) ?_ ((size_le hsub).trans hsize)
    have hall : finite (.obj (sortFields fields)) = true := by
      rw [← sortKeys_obj, ← (reordered_sortKeys (.obj fields)).finite_eq]
      exact hfinite
    rw [finite_obj, List.all_eq_true] at hall ⊢
    intro f hf
    exact hall f (hsub.subset hf)
  refine normalizeInputs_eq.mpr ⟨_, hself, ?_⟩
  refine List.filter_eq_self.mpr fun f hf => ?_
  have hf : keep f.1 = true := (List.mem_filter.mp hf).2
  have hlookup : ((sortFields fields).filter fun f => keep f.1).lookup f.1 = (sortFields fields).lookup f.1 := by
    rw [lookup_filter, if_pos hf]
  rw [leftOut_congr hlookup]
  exact hf

/-- A field is left out: an optional text that is `null`, or empty where a text must not be empty. -/
def Dropped (schema : Schema) (fields : Members) (name : List Char) : Prop :=
  ∃ property field, (property, some field) ∈ schema.properties ∧ property.toList = name ∧ property ∉ schema.required ∧
    field.type = some "string" ∧ (fields.lookup name = some .null ∨
      fields.lookup name = some (.str []) ∧ (0 < field.minLength ∨ field.format = some "uuid"))

theorem emptyFor_iff {field : FieldSchema} {value : Option Json} : emptyFor field value = true ↔
    value = some .null ∨ value = some (.str []) ∧ (0 < field.minLength ∨ field.format = some "uuid") := by
  cases value with
  | none => simp [emptyFor]
  | some j =>
      cases j with
      | null => simp [emptyFor]
      | str s => simp [emptyFor]
      | _ => simp [emptyFor]

theorem leftOut_iff {name : List Char} :
    leftOut schema.required schema.properties fields name = true ↔ Dropped schema fields name := by
  unfold leftOut Dropped saysNothing
  rw [List.any_eq_true]
  constructor
  · rintro ⟨⟨property, found⟩, hmem, hboth⟩
    rw [Bool.and_eq_true, decide_eq_true_eq, Option.any_eq_true] at hboth
    obtain ⟨rfl, field, rfl, hsaid⟩ := hboth
    simp only [Bool.and_eq_true, decide_eq_true_eq, emptyFor_iff] at hsaid
    exact ⟨property, field, hmem, rfl, hsaid.1.1, hsaid.1.2, hsaid.2⟩
  · rintro ⟨property, field, hmem, rfl, hoptional, htype, hempty⟩
    refine ⟨(property, some field), hmem, ?_⟩
    rw [Bool.and_eq_true, decide_eq_true_eq, Option.any_eq_true]
    refine ⟨rfl, field, rfl, ?_⟩
    simp only [Bool.and_eq_true, decide_eq_true_eq, emptyFor_iff]
    exact ⟨⟨hoptional, htype⟩, hempty⟩

theorem keyed_inputs (hvalue : Keyed value) (h : normalizeInputs value schema = .ok inputs) : Keyed (.obj inputs) := by
  obtain ⟨sorted, hcanonical, rfl⟩ := normalizeInputs_eq.mp h
  obtain ⟨fields, rfl, -, -, rfl⟩ := canonical_ok.mp hcanonical
  obtain ⟨hnames, hfields⟩ : Keyed (.obj (sortFields fields)) := (reordered_sortKeys (.obj fields)).keyed hvalue
  refine ⟨hnames.sublist (List.filter_sublist.map Prod.fst), keyedFields_iff.mpr fun f hf => ?_⟩
  exact keyedFields_iff.mp hfields f (List.mem_filter.mp hf).1

/-- What normalizing does to the fields of an object. -/
structure Normalized (schema : Schema) (fields inputs : Members) : Prop where
  again : normalizeInputs (.obj inputs) schema = .ok inputs
  dropped : ∀ name, Dropped schema fields name → inputs.lookup name = none
  kept : ∀ name, ¬Dropped schema fields name → Option.Rel Reordered (fields.lookup name) (inputs.lookup name)

theorem normalized (hvalue : Keyed (.obj fields)) (h : normalizeInputs (.obj fields) schema = .ok inputs) :
    Normalized schema fields inputs := by
  refine ⟨normalizeInputs_idem h, fun name hname => ?_, fun name hname => ?_⟩
  · rw [lookup_inputs hvalue h, if_pos (leftOut_iff.mpr hname)]
  · rw [lookup_inputs hvalue h, if_neg (fun hleft => hname (leftOut_iff.mp hleft))]
    cases fields.lookup name with
    | none => exact .none
    | some j => exact .some (reordered_sortKeys j)

end normal

end HpAgent.Capabilities.Inputs
