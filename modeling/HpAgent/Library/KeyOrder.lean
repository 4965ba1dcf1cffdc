import HpAgent.Library.Json
import HpAgent.Library.Utf8
import Mathlib.Data.Char
import Mathlib.Data.List.Flatten
import Mathlib.Data.List.Lex
import Mathlib.Data.List.Sort
import Mathlib.Order.Lattice

/-! # JSON values and the order of keys

An object is a list of fields, and two lists with the same fields in another order stand for the same object.
`Reordered` is the relation between two values that differ in the order of keys only, at any depth, and `sortKeys` the
value with every object in the order of its names.

* `reordered_sortKeys`: sorting changes the order of keys only.
* `sortKeys_eq_of_reordered`: when no object has a key twice, values that differ in the order of keys are sorted to one
  value.
* `dumps_sublist`: leaving fields out leaves the rest of the text in place.

`same` is the comparison of two values with numbers by what they are worth, `1`, `1.0` and `true` being one number. -/

namespace HpAgent.Library.Json

/-- The fields of an object. -/
abbrev Members := List (List Char × Json)

variable {j k : Json} {gields : Members}

/-- The order of the names. -/
def ByName (f g : List Char × Json) : Prop := f.1 ≤ g.1

instance : DecidableRel ByName := fun f g => inferInstanceAs (Decidable (f.1 ≤ g.1))

instance byNameTotal : Std.Total ByName := ⟨fun f g => le_total f.1 g.1⟩

instance byNameTrans : IsTrans (List Char × Json) ByName := ⟨fun _ _ _ hfg hgh => le_trans (show _ ≤ _ from hfg) hgh⟩

/-! ### Keys -/

mutual

/-- No object in the value has a key twice. -/
def Keyed : Json → Prop
  | .null => True
  | .bool _ => True
  | .int _ => True
  | .float _ => True
  | .str _ => True
  | .arr items => KeyedItems items
  | .obj fields => (fields.map Prod.fst).Nodup ∧ KeyedFields fields

def KeyedItems : List Json → Prop
  | [] => True
  | j :: rest => Keyed j ∧ KeyedItems rest

def KeyedFields : Members → Prop
  | [] => True
  | (_, j) :: rest => Keyed j ∧ KeyedFields rest

end

theorem keyedItems_iff {items : List Json} : KeyedItems items ↔ ∀ j ∈ items, Keyed j := by
  induction items with
  | nil => simp [KeyedItems]
  | cons j rest ih => simp [KeyedItems, ih]

theorem keyedFields_iff {fields : Members} : KeyedFields fields ↔ ∀ f ∈ fields, Keyed f.2 := by
  induction fields with
  | nil => simp [KeyedFields]
  | cons f rest ih => simp [KeyedFields, ih]

/-- Two values that differ in the order of keys. -/
inductive Reordered : Json → Json → Prop where
  | refl (j : Json) : Reordered j j
  | trans {i j k : Json} : Reordered i j → Reordered j k → Reordered i k
  | keys {fields gields : Members} : fields.Perm gields → Reordered (.obj fields) (.obj gields)
  | item {j k : Json} (before after : List Json) : Reordered j k →
      Reordered (.arr (before ++ j :: after)) (.arr (before ++ k :: after))
  | field {j k : Json} (before after : Members) (name : List Char) : Reordered j k →
      Reordered (.obj (before ++ (name, j) :: after)) (.obj (before ++ (name, k) :: after))

/-! ### Sorting -/

mutual

/-- The value with the keys of every object in order. -/
def sortKeys : Json → Json
  | .null => .null
  | .bool b => .bool b
  | .int n => .int n
  | .float text => .float text
  | .str s => .str s
  | .arr items => .arr (sortItems items)
  | .obj fields => .obj ((sortValues fields).insertionSort ByName)

def sortItems : List Json → List Json
  | [] => []
  | j :: rest => sortKeys j :: sortItems rest

def sortValues : Members → Members
  | [] => []
  | (name, j) :: rest => (name, sortKeys j) :: sortValues rest

end

/-- The fields of a sorted object. -/
def sortFields (fields : Members) : Members := (sortValues fields).insertionSort ByName

theorem sortItems_eq_map (items : List Json) : sortItems items = items.map sortKeys := by
  induction items with
  | nil => rfl
  | cons j rest ih => rw [sortItems, ih, List.map_cons]

theorem sortValues_eq_map (fields : Members) : sortValues fields = fields.map fun f => (f.1, sortKeys f.2) := by
  induction fields with
  | nil => rfl
  | cons f rest ih => rw [sortValues, ih, List.map_cons]

@[simp] theorem sortKeys_obj (fields : Members) : sortKeys (.obj fields) = .obj (sortFields fields) := rfl

theorem sortFields_perm (fields : Members) : (sortFields fields).Perm (fields.map fun f => (f.1, sortKeys f.2)) := by
  unfold sortFields
  rw [sortValues_eq_map]
  exact List.perm_insertionSort ByName _

theorem sortFields_ordered (fields : Members) : (sortFields fields).Pairwise ByName :=
  List.pairwise_insertionSort ByName _

theorem names_sortFields (fields : Members) : ((sortFields fields).map Prod.fst).Perm (fields.map Prod.fst) := by
  have hperm := (sortFields_perm fields).map Prod.fst
  rwa [List.map_map] at hperm

/-- Fields in order whose values are sorted stay as they are. -/
theorem sortFields_eq_self {fields : Members} (hordered : fields.Pairwise ByName)
    (hvalues : ∀ f ∈ fields, sortKeys f.2 = f.2) : sortFields fields = fields := by
  have hmap : sortValues fields = fields := by
    rw [sortValues_eq_map]
    conv_rhs => rw [← List.map_id fields]
    refine List.map_congr_left fun f hf => ?_
    rw [hvalues f hf]
    rfl
  unfold sortFields
  rw [hmap]
  exact hordered.insertionSort_eq

mutual

theorem sortKeys_sortKeys : ∀ j : Json, sortKeys (sortKeys j) = sortKeys j
  | .null => rfl
  | .bool _ => rfl
  | .int _ => rfl
  | .float _ => rfl
  | .str _ => rfl
  | .arr items => congrArg Json.arr (sortItems_sortItems items)
  | .obj fields => by
      rw [sortKeys_obj, sortKeys_obj, sortFields_eq_self (sortFields_ordered fields)]
      intro f hf
      obtain ⟨g, hg, rfl⟩ := List.mem_map.mp ((sortFields_perm fields).mem_iff.mp hf)
      exact sortValues_sorted fields g hg

theorem sortItems_sortItems : ∀ items : List Json, sortItems (sortItems items) = sortItems items
  | [] => rfl
  | j :: rest => congrArg₂ List.cons (sortKeys_sortKeys j) (sortItems_sortItems rest)

theorem sortValues_sorted : ∀ (fields : Members), ∀ f ∈ fields, sortKeys (sortKeys f.2) = sortKeys f.2
  | [], _, hf => absurd hf List.not_mem_nil
  | (name, j) :: rest, f, hf => by
      obtain rfl | hf := List.mem_cons.mp hf
      · exact sortKeys_sortKeys j
      · exact sortValues_sorted rest f hf

end

theorem sorted_of_mem_sortFields {fields : Members} {f : List Char × Json} (hf : f ∈ sortFields fields) :
    sortKeys f.2 = f.2 := by
  obtain ⟨g, -, rfl⟩ := List.mem_map.mp ((sortFields_perm fields).mem_iff.mp hf)
  exact sortKeys_sortKeys g.2

theorem finite_arr (items : List Json) : finite (.arr items) = items.all finite := by
  rw [finite]
  induction items with
  | nil => rfl
  | cons j rest ih => rw [finiteItems, ih, List.all_cons]

theorem finite_obj (fields : Members) : finite (.obj fields) = fields.all fun f => finite f.2 := by
  rw [finite]
  induction fields with
  | nil => rfl
  | cons f rest ih => rw [finiteFields, ih, List.all_cons]

/-! ### Reordering -/

namespace Reordered

/-- Values of the items of an array. -/
theorem items {after : List Json} {g : Json → Json} (h : ∀ j ∈ after, Reordered j (g j)) (before : List Json) :
    Reordered (.arr (before ++ after)) (.arr (before ++ after.map g)) := by
  induction after generalizing before with
  | nil => exact .refl _
  | cons j rest ih =>
      have hhead := Reordered.item before rest (h j List.mem_cons_self)
      have hrest := ih (fun k hk => h k (List.mem_cons_of_mem j hk)) (before ++ [g j])
      rw [List.append_assoc, List.append_assoc] at hrest
      exact hhead.trans hrest

/-- Values of the fields of an object. -/
theorem fields {after : Members} {g : Json → Json} (h : ∀ f ∈ after, Reordered f.2 (g f.2)) (before : Members) :
    Reordered (.obj (before ++ after)) (.obj (before ++ after.map fun f => (f.1, g f.2))) := by
  induction after generalizing before with
  | nil => exact .refl _
  | cons f rest ih =>
      have hhead := Reordered.field before rest f.1 (h f List.mem_cons_self)
      have hrest := ih (fun k hk => h k (List.mem_cons_of_mem f hk)) (before ++ [(f.1, g f.2)])
      rw [List.append_assoc, List.append_assoc] at hrest
      exact hhead.trans hrest

theorem symm (h : Reordered j k) : Reordered k j := by
  induction h with
  | refl j => exact .refl j
  | trans _ _ hij hjk => exact .trans hjk hij
  | keys hperm => exact .keys hperm.symm
  | item before after _ ih => exact .item before after ih
  | field before after name _ ih => exact .field before after name ih

theorem keyed (h : Reordered j k) (hj : Keyed j) : Keyed k := by
  induction h with
  | refl j => exact hj
  | trans _ _ hij hjk => exact hjk (hij hj)
  | keys hperm =>
      refine ⟨(hperm.map Prod.fst).nodup_iff.mp hj.1, keyedFields_iff.mpr fun f hf => ?_⟩
      exact keyedFields_iff.mp hj.2 f (hperm.mem_iff.mpr hf)
  | @item j k before after _ ih =>
      have hitems := keyedItems_iff.mp hj
      refine keyedItems_iff.mpr fun i hi => ?_
      obtain hi | hi := List.mem_append.mp hi
      · exact hitems i (List.mem_append_left _ hi)
      · obtain rfl | hi := List.mem_cons.mp hi
        · exact ih (hitems j (List.mem_append_right _ List.mem_cons_self))
        · exact hitems i (List.mem_append_right _ (List.mem_cons_of_mem j hi))
  | @field j k before after name _ ih =>
      have hfields := keyedFields_iff.mp hj.2
      refine ⟨by simpa using hj.1, keyedFields_iff.mpr fun f hf => ?_⟩
      obtain hf | hf := List.mem_append.mp hf
      · exact hfields f (List.mem_append_left _ hf)
      · obtain rfl | hf := List.mem_cons.mp hf
        · exact ih (hfields (name, j) (List.mem_append_right _ List.mem_cons_self))
        · exact hfields f (List.mem_append_right _ (List.mem_cons_of_mem _ hf))

theorem finite_eq (h : Reordered j k) : finite j = finite k := by
  induction h with
  | refl j => rfl
  | trans _ _ hij hjk => exact hij.trans hjk
  | keys hperm =>
      simp only [finite_obj]
      exact hperm.all_eq
  | item before after _ ih => simp only [finite_arr, List.all_append, List.all_cons, ih]
  | field before after name _ ih => simp only [finite_obj, List.all_append, List.all_cons, ih]

end Reordered

/-- Two lists of fields without repeated keys and with the same fields are in one order. -/
theorem insertionSort_eq_of_perm {fields : Members} (hkeys : (fields.map Prod.fst).Nodup)
    (hperm : fields.Perm gields) : fields.insertionSort ByName = gields.insertionSort ByName := by
  refine List.Perm.eq_of_pairwise (fun f g hf hg hfg hgf => ?_) (List.pairwise_insertionSort ByName fields)
    (List.pairwise_insertionSort ByName gields) ?_
  · have hf := (List.mem_insertionSort ByName).mp hf
    have hg := hperm.mem_iff.mpr ((List.mem_insertionSort ByName).mp hg)
    exact List.inj_on_of_nodup_map hkeys hf hg (le_antisymm (show f.1 ≤ g.1 from hfg) hgf)
  · exact ((List.perm_insertionSort ByName fields).trans hperm).trans (List.perm_insertionSort ByName gields).symm

/-- Values that differ in the order of keys have one sorted form. -/
theorem sortKeys_eq_of_reordered (h : Reordered j k) (hj : Keyed j) : sortKeys j = sortKeys k := by
  induction h with
  | refl j => rfl
  | trans hij _ ih ih' => exact (ih hj).trans (ih' (hij.keyed hj))
  | @keys fields gields hperm =>
      have hnames : ((sortValues fields).map Prod.fst).Nodup := by
        rw [sortValues_eq_map, List.map_map]
        exact hj.1
      have hsorted : (sortValues fields).Perm (sortValues gields) := by
        rw [sortValues_eq_map, sortValues_eq_map]
        exact hperm.map _
      simp only [sortKeys_obj, sortFields]
      rw [insertionSort_eq_of_perm hnames hsorted]
  | @item j k before after _ ih =>
      have hkeyed : Keyed j := keyedItems_iff.mp hj j (List.mem_append_right _ List.mem_cons_self)
      simp only [sortKeys, sortItems_eq_map, List.map_append, List.map_cons, ih hkeyed]
  | @field j k before after name _ ih =>
      have hkeyed : Keyed j := keyedFields_iff.mp hj.2 (name, j) (List.mem_append_right _ List.mem_cons_self)
      simp only [sortKeys_obj, sortFields, sortValues_eq_map, List.map_append, List.map_cons, ih hkeyed]

mutual

/-- Sorting changes the order of keys only. -/
theorem reordered_sortKeys : ∀ j : Json, Reordered j (sortKeys j)
  | .null => .refl _
  | .bool _ => .refl _
  | .int _ => .refl _
  | .float _ => .refl _
  | .str _ => .refl _
  | .arr items => by
      have hitems := Reordered.items (reordered_sortItems items) []
      rwa [List.nil_append, List.nil_append, ← sortItems_eq_map] at hitems
  | .obj fields => by
      have hfields := Reordered.fields (reordered_sortValues fields) []
      rw [List.nil_append, List.nil_append] at hfields
      exact hfields.trans (.keys (sortFields_perm fields).symm)

theorem reordered_sortItems : ∀ (items : List Json), ∀ j ∈ items, Reordered j (sortKeys j)
  | [], _, hj => absurd hj List.not_mem_nil
  | i :: rest, j, hj => by
      obtain hj | hj := List.mem_cons.mp hj
      · rw [hj]
        exact reordered_sortKeys i
      · exact reordered_sortItems rest j hj

theorem reordered_sortValues : ∀ (fields : Members), ∀ f ∈ fields, Reordered f.2 (sortKeys f.2)
  | [], _, hf => absurd hf List.not_mem_nil
  | (name, j) :: rest, f, hf => by
      obtain rfl | hf := List.mem_cons.mp hf
      · exact reordered_sortKeys j
      · exact reordered_sortValues rest f hf

end

/-- The field of a name that stands once. -/
theorem lookup_iff {fields : Members} (hkeys : (fields.map Prod.fst).Nodup) {name : List Char} :
    fields.lookup name = some j ↔ (name, j) ∈ fields := by
  constructor
  · intro h
    obtain ⟨before, after, hsplit, -⟩ := List.lookup_eq_some_iff.mp h
    rw [hsplit]
    exact List.mem_append_right _ List.mem_cons_self
  · intro h
    cases hfound : fields.lookup name with
    | none =>
        have habsent := List.lookup_eq_none_iff.mp hfound (name, j) h
        simp at habsent
    | some k =>
        obtain ⟨before, after, hsplit, -⟩ := List.lookup_eq_some_iff.mp hfound
        have hk : (name, k) ∈ fields := by
          rw [hsplit]
          exact List.mem_append_right _ List.mem_cons_self
        have hsame := List.inj_on_of_nodup_map hkeys h hk rfl
        rw [(Prod.mk.inj hsame).2]

theorem lookup_eq_of_perm {fields : Members} (hkeys : (fields.map Prod.fst).Nodup) (hperm : fields.Perm gields)
    (name : List Char) : fields.lookup name = gields.lookup name := by
  refine Option.ext fun j => ?_
  rw [lookup_iff hkeys, lookup_iff ((hperm.map Prod.fst).nodup_iff.mp hkeys)]
  exact hperm.mem_iff

theorem lookup_map_values (g : Json → Json) (fields : Members) (name : List Char) :
    (fields.map fun f => (f.1, g f.2)).lookup name = (fields.lookup name).map g := by
  induction fields with
  | nil => rfl
  | cons f rest ih =>
      rw [List.map_cons, List.lookup_cons, List.lookup_cons, ih]
      cases name == f.1 with
      | true => rfl
      | false => rfl

/-- The field of a sorted object is the sorted field. -/
theorem lookup_sortFields {fields : Members} (hkeys : (fields.map Prod.fst).Nodup) (name : List Char) :
    (sortFields fields).lookup name = (fields.lookup name).map sortKeys := by
  rw [lookup_eq_of_perm ((names_sortFields fields).nodup_iff.mpr hkeys) (sortFields_perm fields), lookup_map_values]

/-! ### The text of fewer fields -/

section text

variable (comma colon : List Char)

/-- The text of a field. -/
def dumpsField (f : List Char × Json) : List Char := dumpsString f.1 ++ (colon ++ dumps comma colon f.2)

theorem dumpsFields_cons (f : List Char × Json) (rest : Members) :
    dumpsFields comma colon (f :: rest) = dumpsField comma colon f ++ rest.flatMap fun g => comma ++ dumpsField comma colon g := by
  induction rest generalizing f with
  | nil => simp [dumpsFields, dumpsField]
  | cons g rest ih =>
      rw [dumpsFields, ih g, List.flatMap_cons]
      simp [dumpsField]

/-- Fields that are left out take their own text and a separator with them. -/
theorem dumpsFields_sublist {fields : Members} (h : fields.Sublist gields) :
    (dumpsFields comma colon fields).Sublist (dumpsFields comma colon gields) := by
  induction h with
  | slnil => exact List.Sublist.refl _
  | @cons fields gields g hrest ih =>
      refine ih.trans ?_
      cases gields with
      | nil => exact List.nil_sublist _
      | cons h rest =>
          rw [dumpsFields_cons, dumpsFields_cons, List.flatMap_cons]
          exact ((List.sublist_append_right _ _).append_right _).trans (List.sublist_append_right _ _)
  | @cons_cons fields gields f hrest ih =>
      rw [dumpsFields_cons, dumpsFields_cons]
      exact (List.Sublist.refl _).append (hrest.flatMap _)

theorem dumps_sublist {fields : Members} (h : fields.Sublist gields) :
    (dumps comma colon (.obj fields)).Sublist (dumps comma colon (.obj gields)) :=
  ((dumpsFields_sublist comma colon h).append (List.Sublist.refl _)).cons_cons _

end text

/-! ### Comparing values -/

section compare

variable (worth : List Char → ℚ)

/-- What a number is worth; a Boolean is a number. -/
def number : Json → Option ℚ
  | .bool b => some (if b then 1 else 0)
  | .int n => some n
  | .float text => some (worth text.1)
  | _ => none

mutual

/-- `j == k`: numbers by what they are worth, objects by their fields. -/
def same : Json → Json → Bool
  | .null, .null => true
  | .str s, .str t => s == t
  | .arr items, .arr others => sameItems items others
  | .obj fields, .obj others => fields.length == others.length && sameFields fields others
  | .bool b, k => number worth k == some (if b then 1 else 0)
  | .int n, k => number worth k == some (n : ℚ)
  | .float text, k => number worth k == some (worth text.1)
  | _, _ => false

def sameItems : List Json → List Json → Bool
  | [], [] => true
  | j :: rest, k :: others => same j k && sameItems rest others
  | _, _ => false

def sameFields : Members → Members → Bool
  | [], _ => true
  | (name, j) :: rest, others => (others.lookup name).any (same j) && sameFields rest others

end

theorem sameFields_eq_all (fields others : Members) :
    sameFields worth fields others = fields.all fun f => (others.lookup f.1).any (same worth f.2) := by
  induction fields with
  | nil => rfl
  | cons f rest ih => rw [sameFields, ih, List.all_cons]

/-- The items of an array one by one. -/
theorem sameItems_congr (h : ∀ i, same worth j i = same worth k i) (before after others : List Json) :
    sameItems worth (before ++ j :: after) others = sameItems worth (before ++ k :: after) others := by
  induction before generalizing others with
  | nil =>
      cases others with
      | nil => rfl
      | cons i others => simp only [List.nil_append, sameItems, h i]
  | cons b before ih =>
      cases others with
      | nil => rfl
      | cons i others => simp only [List.cons_append, sameItems, ih others]

/-- The order of keys makes no difference to a comparison. -/
theorem same_congr (h : Reordered j k) (i : Json) : same worth j i = same worth k i := by
  induction h generalizing i with
  | refl j => rfl
  | trans _ _ hij hjk => exact (hij i).trans (hjk i)
  | keys hperm =>
      cases i with
      | obj others => simp only [same, sameFields_eq_all, hperm.length_eq, hperm.all_eq]
      | null => rfl
      | bool _ => rfl
      | int _ => rfl
      | float _ => rfl
      | str _ => rfl
      | arr _ => rfl
  | item before after _ ih =>
      cases i with
      | arr others => exact sameItems_congr worth ih before after others
      | null => rfl
      | bool _ => rfl
      | int _ => rfl
      | float _ => rfl
      | str _ => rfl
      | obj _ => rfl
  | field before after name _ ih =>
      cases i with
      | obj others =>
          have hvalue : same worth _ = same worth _ := funext ih
          simp only [same, sameFields_eq_all, List.length_append, List.length_cons, List.all_append, List.all_cons, hvalue]
      | null => rfl
      | bool _ => rfl
      | int _ => rfl
      | float _ => rfl
      | str _ => rfl
      | arr _ => rfl

mutual

theorem same_self : ∀ j : Json, Keyed j → same worth j j = true
  | .null, _ => rfl
  | .bool _, _ => by simp [same, number]
  | .int _, _ => by simp [same, number]
  | .float _, _ => by simp [same, number]
  | .str _, _ => by simp [same]
  | .arr items, h => sameItems_self items h
  | .obj fields, h => by
      simp only [same, sameFields_eq_all, beq_self_eq_true, Bool.true_and, List.all_eq_true]
      intro f hf
      rw [(lookup_iff h.1).mpr hf]
      exact sameFields_self fields h.2 f hf

theorem sameItems_self : ∀ items : List Json, KeyedItems items → sameItems worth items items = true
  | [], _ => rfl
  | j :: rest, h => by
      rw [sameItems, same_self j h.1, sameItems_self rest h.2]
      rfl

theorem sameFields_self : ∀ fields : Members, KeyedFields fields → ∀ f ∈ fields, same worth f.2 f.2 = true
  | [], _, _, hf => absurd hf List.not_mem_nil
  | (_, j) :: rest, h, f, hf => by
      obtain hf | hf := List.mem_cons.mp hf
      · rw [hf]
        exact same_self j h.1
      · exact sameFields_self rest h.2 f hf

end

theorem same_of_reordered (h : Reordered j k) (hk : Keyed k) : same worth j k = true := by
  rw [same_congr worth h]
  exact same_self worth k hk

end compare

end HpAgent.Library.Json
