import HpAgent.Library.Table
import Mathlib.Data.List.Dedup

/-! # Canonical lists

A set that is written down for comparison is sorted and holds no member twice.  `canonical le l` is that list for the
members of `l`, and `groups` the one of a collection that is first gathered under keys.

* `canonical_eq_iff`: two lists have one canonical list exactly when they have the same members.
* `groups_eq_iff`: two collections have the same groups exactly when they have the same keys and, under each key, the
  same members.

The order may be a preorder (`OrdersOn`): it has to tell apart the members only, not every value of the type. -/

namespace HpAgent.Library

/-- A total preorder that tells apart the values with the property. -/
structure OrdersOn {α : Type} (le : α → α → Bool) (p : α → Prop) : Prop where
  trans : ∀ a b c, le a b = true → le b c = true → le a c = true
  total : ∀ a b, (le a b || le b a) = true
  antisymm : ∀ a b, p a → p b → le a b = true → le b a = true → a = b

/-! ### Members in order -/

section canonical

variable {α : Type} {le : α → α → Bool} {p : α → Prop}

/-- Two lists without duplicates and with the same members are sorted to one list. -/
theorem mergeSort_eq_of_mem_iff (hle : OrdersOn le p) {l l' : List α} (hl : l.Nodup) (hl' : l'.Nodup)
    (hp : ∀ a ∈ l, p a) (h : ∀ a, a ∈ l ↔ a ∈ l') : l.mergeSort le = l'.mergeSort le := by
  refine List.Perm.eq_of_pairwise (fun a b ha hb hab hba => ?_) (List.pairwise_mergeSort hle.trans hle.total l)
    (List.pairwise_mergeSort hle.trans hle.total l') ?_
  · have ha := (List.mergeSort_perm l le).mem_iff.mp ha
    have hb := (List.mergeSort_perm l' le).mem_iff.mp hb
    exact hle.antisymm a b (hp a ha) (hp b ((h b).mpr hb)) hab hba
  · have hperm := (List.perm_ext_iff_of_nodup hl hl').mpr h
    exact ((List.mergeSort_perm l le).trans hperm).trans (List.mergeSort_perm l' le).symm

variable [DecidableEq α]

/-- The members in order, each once. -/
def canonical (le : α → α → Bool) (l : List α) : List α := l.dedup.mergeSort le

@[simp] theorem mem_canonical {l : List α} {a : α} : a ∈ canonical le l ↔ a ∈ l := by
  unfold canonical
  rw [(List.mergeSort_perm l.dedup le).mem_iff, List.mem_dedup]

/-- A list without duplicates is sorted to its canonical list, or to that of any list with the same members. -/
theorem mergeSort_eq_canonical (hle : OrdersOn le p) {l l' : List α} (hl : l.Nodup) (hp : ∀ a ∈ l, p a)
    (h : ∀ a, a ∈ l ↔ a ∈ l') : l.mergeSort le = canonical le l' := by
  refine mergeSort_eq_of_mem_iff hle hl (List.nodup_dedup l') hp fun a => ?_
  rw [List.mem_dedup]
  exact h a

theorem canonical_eq_iff (hle : OrdersOn le p) {l l' : List α} (hp : ∀ a ∈ l, p a) :
    canonical le l = canonical le l' ↔ ∀ a, a ∈ l ↔ a ∈ l' := by
  constructor
  · intro h a
    have hmem : a ∈ canonical le l ↔ a ∈ canonical le l' := by rw [h]
    rw [mem_canonical, mem_canonical] at hmem
    exact hmem
  · intro h
    refine mergeSort_eq_canonical hle (List.nodup_dedup l) (fun a ha => ?_) fun a => ?_
    · exact hp a (List.mem_dedup.mp ha)
    · rw [List.mem_dedup]
      exact h a

end canonical

/-! ### Groups -/

section groups

variable {γ κ ε : Type} [DecidableEq κ] [DecidableEq ε] (key : γ → κ) (items : γ → List ε)

/-- One more value: its items join those under its key. -/
def gather (t : Table κ (List ε)) (c : γ) : Table κ (List ε) :=
  t.insert (key c) (((t.lookup (key c)).getD [] ++ items c).dedup)

/-- The items under a key. -/
def under (l : List γ) (k : κ) : List ε := (l.filter fun c => key c = k).flatMap items

/-- The groups of the values, keys and members in order. -/
def groups (leKey : κ → κ → Bool) (leItem : ε → ε → Bool) (l : List γ) : List (κ × List ε) :=
  ((l.foldl (gather key items) ∅).entries.mergeSort fun a b => leKey a.1 b.1).map fun e => (e.1, e.2.mergeSort leItem)

variable {key items}

omit [DecidableEq ε] in
theorem mem_under {l : List γ} {k : κ} {e : ε} : e ∈ under key items l k ↔ ∃ c ∈ l, key c = k ∧ e ∈ items c := by
  unfold under
  rw [List.mem_flatMap]
  constructor
  · rintro ⟨c, hc, he⟩
    obtain ⟨hmem, hkey⟩ := List.mem_filter.mp hc
    exact ⟨c, hmem, of_decide_eq_true hkey, he⟩
  · rintro ⟨c, hmem, hkey, he⟩
    exact ⟨c, List.mem_filter.mpr ⟨hmem, decide_eq_true hkey⟩, he⟩

omit [DecidableEq ε] in
/-- Nothing is under a key that no value has. -/
theorem under_eq_nil {l : List γ} {k : κ} (h : k ∉ l.map key) : under key items l k = [] := by
  refine List.eq_nil_iff_forall_not_mem.mpr fun e he => ?_
  obtain ⟨c, hc, hkey, _⟩ := mem_under.mp he
  exact h (List.mem_map.mpr ⟨c, hc, hkey⟩)

/-- The table holds what the values have under each key, without duplicates. -/
structure Gathered (key : γ → κ) (items : γ → List ε) (l : List γ) (t : Table κ (List ε)) : Prop where
  keys : ∀ k, k ∈ t ↔ k ∈ l.map key
  nodup : ∀ k v, t.lookup k = some v → v.Nodup
  members : ∀ k v, t.lookup k = some v → ∀ e, e ∈ v ↔ e ∈ under key items l k

omit [DecidableEq ε] in
theorem Gathered.nil : Gathered key items [] ∅ := by
  refine ⟨fun k => ?_, fun k v h => ?_, fun k v h => ?_⟩
  · simp
  · rw [AList.lookup_empty] at h
    cases h
  · rw [AList.lookup_empty] at h
    cases h

/-- **One value** is gathered. -/
theorem Gathered.concat {l : List γ} {t : Table κ (List ε)} (h : Gathered key items l t) (c : γ) :
    Gathered key items (l ++ [c]) (gather key items t c) := by
  have hunder : ∀ k e, e ∈ under key items (l ++ [c]) k ↔ e ∈ under key items l k ∨ key c = k ∧ e ∈ items c := by
    intro k e
    simp only [mem_under, List.mem_append, List.mem_singleton]
    constructor
    · rintro ⟨d, hd | rfl, hkey, he⟩
      · exact .inl ⟨d, hd, hkey, he⟩
      · exact .inr ⟨hkey, he⟩
    · rintro (⟨d, hd, hkey, he⟩ | ⟨hkey, he⟩)
      · exact ⟨d, .inl hd, hkey, he⟩
      · exact ⟨c, .inr rfl, hkey, he⟩
  unfold gather
  refine ⟨fun k => ?_, fun k v hv => ?_, fun k v hv e => ?_⟩
  · rw [AList.mem_insert, h.keys, List.map_append, List.mem_append, List.map_singleton, List.mem_singleton]
    exact or_comm
  · rw [Table.lookup_insert_ite] at hv
    split at hv
    · obtain rfl := Option.some.inj hv
      exact List.nodup_dedup _
    · exact h.nodup k v hv
  · rw [Table.lookup_insert_ite] at hv
    rw [hunder]
    split at hv
    · next hk =>
        subst hk
        obtain rfl := Option.some.inj hv
        rw [List.mem_dedup, List.mem_append]
        have hbefore : e ∈ (t.lookup (key c)).getD [] ↔ e ∈ under key items l (key c) := by
          cases hlookup : t.lookup (key c) with
          | none =>
              have hout : key c ∉ l.map key := fun hin => AList.lookup_eq_none.mp hlookup ((h.keys _).mpr hin)
              rw [under_eq_nil hout, Option.getD_none]
          | some w => exact h.members _ w hlookup e
        rw [hbefore]
        simp
    · next hk =>
        rw [h.members k v hv e]
        constructor
        · exact .inl
        · rintro (he | ⟨rfl, _⟩)
          · exact he
          · exact absurd rfl hk

/-- Every list of values is gathered. -/
theorem gathered_foldl (l : List γ) : Gathered key items l (l.foldl (gather key items) ∅) := by
  induction l using List.reverseRecOn with
  | nil => exact .nil
  | append_singleton l c ih =>
      rw [List.foldl_append]
      exact ih.concat c

variable {leKey : κ → κ → Bool} {leItem : ε → ε → Bool} {p : ε → Prop}

/-- The groups are the canonical list of the keys, each with the canonical list of what is under it. -/
theorem groups_eq (hkey : OrdersOn leKey fun _ => True) (hitem : OrdersOn leItem p) {l : List γ}
    (hp : ∀ c ∈ l, ∀ e ∈ items c, p e) : groups key items leKey leItem l =
      (canonical leKey (l.map key)).map fun k => (k, canonical leItem (under key items l k)) := by
  have hgathered : Gathered key items l (l.foldl (gather key items) ∅) := gathered_foldl l
  unfold groups
  generalize l.foldl (gather key items) ∅ = t at hgathered ⊢
  have hgroup : ∀ e ∈ t.entries.mergeSort fun a b => leKey a.1 b.1,
      (e.1, e.2.mergeSort leItem) = (e.1, canonical leItem (under key items l e.1)) := by
    intro e he
    have hentry := (List.mergeSort_perm t.entries _).mem_iff.mp he
    have hlookup : t.lookup e.1 = some e.2 := AList.mem_lookup_iff.mpr hentry
    have hmembers := hgathered.members e.1 e.2 hlookup
    rw [mergeSort_eq_canonical hitem (hgathered.nodup e.1 e.2 hlookup) (fun a ha => ?_) hmembers]
    obtain ⟨c, hc, _, ha⟩ := mem_under.mp ((hmembers a).mp ha)
    exact hp c hc a ha
  have hkeys : (t.entries.mergeSort fun a b => leKey a.1 b.1).map Sigma.fst = canonical leKey (l.map key) := by
    rw [List.map_mergeSort (s := leKey) fun _ _ _ _ => rfl]
    exact mergeSort_eq_canonical hkey t.keys_nodup (fun _ _ => trivial) fun k => hgathered.keys k
  rw [List.map_congr_left hgroup, ← hkeys, List.map_map]
  rfl

theorem groups_eq_iff (hkey : OrdersOn leKey fun _ => True) (hitem : OrdersOn leItem p) {l l' : List γ}
    (hp : ∀ c ∈ l, ∀ e ∈ items c, p e) (hp' : ∀ c ∈ l', ∀ e ∈ items c, p e) :
    groups key items leKey leItem l = groups key items leKey leItem l' ↔
      (∀ k, k ∈ l.map key ↔ k ∈ l'.map key) ∧ ∀ k e, e ∈ under key items l k ↔ e ∈ under key items l' k := by
  have hunder : ∀ k, ∀ e ∈ under key items l k, p e := by
    intro k e he
    obtain ⟨c, hc, _, he⟩ := mem_under.mp he
    exact hp c hc e he
  rw [groups_eq hkey hitem hp, groups_eq hkey hitem hp']
  constructor
  · intro h
    have hkeys := congrArg (List.map Prod.fst) h
    simp only [List.map_map, Function.comp_def, List.map_id'] at hkeys
    have hmem := (canonical_eq_iff hkey fun _ _ => trivial).mp hkeys
    refine ⟨hmem, fun k => ?_⟩
    by_cases hk : k ∈ l.map key
    · rw [hkeys] at h
      have hgroup := List.map_inj_left.mp h k (mem_canonical.mpr ((hmem k).mp hk))
      exact (canonical_eq_iff hitem (hunder k)).mp (Prod.mk.inj hgroup).2
    · rw [under_eq_nil hk, under_eq_nil fun hin => hk ((hmem k).mpr hin)]
      exact fun _ => Iff.rfl
  · rintro ⟨hmem, hsame⟩
    rw [(canonical_eq_iff hkey fun _ _ => trivial).mpr hmem]
    refine List.map_congr_left fun k _ => ?_
    rw [(canonical_eq_iff hitem (hunder k)).mpr (hsame k)]

end groups

end HpAgent.Library
