import HpAgent.Requirements.Guards

/-! # Where the application and the database agree

A document that `to_dict` gave is given back unchanged by `from_dict` and `to_dict`, and the triggers take it, except in
four cases that only one side looks at (`requirement_agreement`).

* `Checked`: everything that `to_dict` has checked.
* `Agreed`: the four cases. -/

namespace HpAgent.Requirements

open Library

variable {s : List Char} {h : Host} {v : Document} {allowed : List String} {criteria : List Json}
  {cids : List (List Char)} {capability cid : List Char} {used : List (List Char)}

/-! ### Exceptions -/

section exceptions

variable {α β : Type}

theorem bind_ok {m : Except Exn α} {f : α → Except Exn β} {b : β} : m >>= f = .ok b ↔ ∃ a, m = .ok a ∧ f a = .ok b := by
  cases m with
  | error e => exact ⟨nofun, fun ⟨_, h, _⟩ => nomatch h⟩
  | ok a =>
      constructor
      · exact fun h => ⟨a, rfl, h⟩
      · intro ⟨_, h, hf⟩
        obtain rfl := Except.ok.inj h
        exact hf

theorem bind_unit_ok {m : Except Exn Unit} {f : Unit → Except Exn β} {b : β} : m >>= f = .ok b ↔ m = .ok () ∧ f () = .ok b := by
  rw [bind_ok]
  exact ⟨fun ⟨_, h⟩ => h, fun h => ⟨(), h⟩⟩

theorem require_ok {b : Bool} {message : String} {u : Unit} : require b message = .ok u ↔ b = true := by
  unfold require
  cases b with
  | false => exact ⟨nofun, nofun⟩
  | true => exact ⟨fun _ => rfl, fun _ => rfl⟩

theorem forM_ok {f : Json → Except Exn Unit} {items : List Json} : items.forM f = .ok () ↔ ∀ j ∈ items, f j = .ok () := by
  induction items with
  | nil => exact ⟨fun _ => nofun, fun _ => rfl⟩
  | cons j rest ih =>
      show (f j >>= fun _ => rest.forM f) = .ok () ↔ _
      rw [bind_unit_ok, ih, List.forall_mem_cons]

end exceptions

/-! ### Texts -/

theorem dropWhile_eq_self {p : Char → Bool} (h : ∀ c, s.head? = some c → p c = false) : s.dropWhile p = s := by
  cases s with
  | nil => rfl
  | cons c rest => rw [List.dropWhile_cons_of_neg (by rw [h c rfl]; decide)]

theorem strip_strip (s : List Char) : strip (strip s) = strip s := by
  have hhead : ∀ c, (strip s).head? = some c → isSpace c = false := by
    intro c hc
    have hprefix : strip s <+: s.dropWhile isSpace := List.rdropWhile_prefix isSpace _
    obtain ⟨rest, hrest⟩ := hprefix
    have hfirst : (s.dropWhile isSpace).head? = some c := by
      rw [← hrest, List.head?_append, hc]
      rfl
    have hnot := List.head?_dropWhile_not isSpace s
    rw [hfirst] at hnot
    exact hnot
  show ((strip s).dropWhile isSpace).rdropWhile isSpace = strip s
  rw [dropWhile_eq_self hhead]
  exact List.rdropWhile_idempotent isSpace (s.dropWhile isSpace)

theorem strip_length_le (s : List Char) : (strip s).length ≤ s.length :=
  ((List.rdropWhile_prefix isSpace _).length_le).trans (List.dropWhile_suffix isSpace).length_le

/-! ### What has been checked -/

/-- The requirement that says what a document says. -/
def Document.requirement (v : Document) : Requirement :=
  ⟨.str v.objective, .str v.capabilityKey, v.spec, .arr v.constraints, .arr v.acceptanceCriteria, .str v.completionMode, v.timing,
    .arr v.resourceRequests, v.deliverablePolicy, v.deliverables⟩

/-- Everything that `to_dict` has checked. -/
structure Checked (h : Host) (r : Requirement) (v : Document) : Prop where
  objective : checkObjective r.objective = .ok v.objective
  capability : memberOf r.capabilityKey capabilities "unsupported capability" = .ok v.capabilityKey
  mode : memberOf r.completionMode ["deliverable", "ongoing"] "unsupported completion mode" = .ok v.completionMode
  spec : checkSpec h v.capabilityKey v.spec = .ok ()
  timing : checkTiming h v.completionMode v.timing = .ok ()
  constraints : v.constraints.all isConstraint = true
  requests : ∀ q ∈ v.resourceRequests, checkRequest q = .ok ()
  nodes : ∀ q ∈ v.resourceRequests, checkNode h q = .ok ()
  policy : checkPolicy h v.deliverablePolicy = .ok ()
  deliverables : validateDeliverables v.acceptanceCriteria v.deliverables = .ok ()
  size : sized 32768 v.toJson "requirement exceeds size limit" = .ok ()
  sameSpec : v.spec = r.spec
  sameConstraints : r.constraints = .arr v.constraints
  sameRequests : r.resourceRequests = .arr v.resourceRequests
  sameDeliverables : v.deliverables = r.deliverables
  orTiming : v.timing = orElse r.timing defaultTiming
  orPolicy : v.deliverablePolicy = orElse r.deliverablePolicy defaultPolicy
  criteria : ∃ criteria, r.acceptanceCriteria = .arr criteria ∧ checkCriteria [] criteria = .ok () ∧
    v.acceptanceCriteria = criteriaOr v.capabilityKey criteria

theorem listOf_ok {message : String} {j : Json} {items : List Json} : listOf message j = .ok items ↔ j = .arr items := by
  unfold listOf
  split
  · exact ⟨fun h => congrArg _ (Except.ok.inj h), fun h => congrArg _ (Json.arr.inj h)⟩
  · next hne => exact ⟨nofun, fun h => absurd h (hne items)⟩

theorem toDict_ok {r : Requirement} : r.toDict h = .ok v ↔ Checked h r v := by
  unfold Requirement.toDict
  simp only [bind_ok, require_ok, listOf_ok]
  constructor
  · rintro ⟨objective, hobjective, capability, hcapability, mode, hmode, _, hspec, _, htiming, constraints, hconstraints, _, hall,
      criteria, hcriteria, requests, hrequests, _, heach, _, hnodes, _, hchecked, _, hpolicy, _, hdeliverables, _, hsize, hv⟩
    obtain rfl := Except.ok.inj hv
    exact ⟨hobjective, hcapability, hmode, hspec, htiming, hall, forM_ok.mp heach, forM_ok.mp hnodes, hpolicy, hdeliverables,
      hsize, rfl, hconstraints, hrequests, rfl, rfl, rfl, criteria, hcriteria, hchecked, rfl⟩
  · intro hc
    obtain ⟨criteria, hcriteria, hchecked, hor⟩ := hc.criteria
    have hspec := hc.spec
    have htiming := hc.timing
    have hpolicy := hc.policy
    have hdeliverables := hc.deliverables
    rw [hc.sameSpec] at hspec
    rw [hc.orTiming] at htiming
    rw [hc.orPolicy] at hpolicy
    rw [hc.sameDeliverables, hor] at hdeliverables
    have hv : v = ⟨v.objective, v.capabilityKey, r.spec, v.constraints, criteriaOr v.capabilityKey criteria, v.completionMode,
        orElse r.timing defaultTiming, v.resourceRequests, orElse r.deliverablePolicy defaultPolicy, r.deliverables⟩ := by
      rw [← hor, ← hc.orTiming, ← hc.orPolicy, ← hc.sameDeliverables, ← hc.sameSpec]
    refine ⟨_, hc.objective, _, hc.capability, _, hc.mode, (), hspec, (), htiming, _, hc.sameConstraints, (), hc.constraints, _,
      hcriteria, _, hc.sameRequests, (), forM_ok.mpr hc.requests, (), forM_ok.mpr hc.nodes, (), hchecked, (), hpolicy, (),
      hdeliverables, (), ?_, ?_⟩
    · rw [← hv]
      exact hc.size
    · rw [← hv]
      rfl

/-! ### The round trip -/

/-- A versioned value is not empty. -/
theorem truthy_of_bounded {value : Json} {fields : List (List Char × Json)}
    (h : bounded value allowed = .ok fields) : value = .obj fields ∧ value.truthy = true := by
  unfold bounded at h
  split at h
  · next given =>
      simp only [bind_ok, require_ok] at h
      obtain ⟨-, hkeys, -, -, hsame⟩ := h
      obtain rfl := Except.ok.inj hsame
      refine ⟨rfl, ?_⟩
      cases given with
      | nil => cases hkeys
      | cons f rest => rfl
  · cases h

theorem orElse_of_bounded {value default : Json} {fields : List (List Char × Json)}
    (h : bounded value allowed = .ok fields) : orElse value default = value := by
  unfold orElse
  rw [if_pos (truthy_of_bounded h).2]

theorem checkObjective_strip {j : Json} (h : checkObjective j = .ok s) : checkObjective (.str s) = .ok s := by
  unfold checkObjective at h ⊢
  split at h
  · next t =>
      simp only [bind_ok, require_ok, Bool.and_eq_true, bne_iff_ne, decide_eq_true_eq] at h ⊢
      obtain ⟨-, ⟨hsome, hlength⟩, hs⟩ := h
      obtain rfl := Except.ok.inj hs
      rw [strip_strip]
      exact ⟨(), ⟨hsome, (strip_length_le t).trans hlength⟩, rfl⟩
  · cases h

theorem memberOf_text {j : Json} {message : String}
    (h : memberOf j allowed message = .ok s) : j = .str s ∧ s ∈ allowed.map String.toList := by
  unfold memberOf at h
  split at h
  · split at h
    · next hmem =>
        obtain rfl := Except.ok.inj h
        exact ⟨rfl, hmem⟩
    · cases h
  · cases h
  · cases h
  · cases h

theorem checkCriteria_channelAccepted : checkCriteria [] [channelAccepted] = .ok () := by
  decide +kernel

/-- The document of an accepted requirement is accepted, and stays the same. -/
theorem Checked.again {r : Requirement} (hc : Checked h r v) : Checked h v.requirement v where
  objective := checkObjective_strip hc.objective
  capability := by
    obtain ⟨hsame, -⟩ := memberOf_text hc.capability
    rw [← hc.capability, hsame]
    rfl
  mode := by
    obtain ⟨hsame, -⟩ := memberOf_text hc.mode
    rw [← hc.mode, hsame]
    rfl
  spec := hc.spec
  timing := hc.timing
  constraints := hc.constraints
  requests := hc.requests
  nodes := hc.nodes
  policy := hc.policy
  deliverables := hc.deliverables
  size := hc.size
  sameSpec := rfl
  sameConstraints := rfl
  sameRequests := rfl
  sameDeliverables := rfl
  orTiming := by
    have htiming := hc.timing
    unfold checkTiming at htiming
    rw [bind_ok] at htiming
    obtain ⟨fields, hfields, -⟩ := htiming
    exact (orElse_of_bounded hfields).symm
  orPolicy := by
    have hpolicy := hc.policy
    unfold checkPolicy at hpolicy
    rw [bind_ok] at hpolicy
    obtain ⟨fields, hfields, -⟩ := hpolicy
    exact (orElse_of_bounded hfields).symm
  criteria := by
    obtain ⟨criteria, -, hchecked, hor⟩ := hc.criteria
    refine ⟨v.acceptanceCriteria, rfl, ?_, ?_⟩
    · rw [hor]
      unfold criteriaOr
      split
      · exact checkCriteria_channelAccepted
      · exact hchecked
    · rw [hor]
      unfold criteriaOr
      split
      · rfl
      · rfl

theorem lookup_of_mem {fields : List (List Char × Json)} {name : List Char} {j : Json} (hnodup : (fields.map Prod.fst).Nodup)
    (h : (name, j) ∈ fields) : fields.lookup name = some j := by
  induction fields with
  | nil => exact absurd h List.not_mem_nil
  | cons f rest ih =>
      rw [List.map_cons, List.nodup_cons] at hnodup
      obtain hhead | hrest := List.mem_cons.mp h
      · rw [← hhead, List.lookup_cons_self]
      · have hne : (name == f.1) = false := by
          rw [beq_eq_false_iff_ne]
          intro hsame
          exact hnodup.1 (List.mem_map.mpr ⟨(name, j), hrest, hsame⟩)
        obtain ⟨first, value⟩ := f
        rw [List.lookup_cons, hne]
        exact ih hnodup.2 hrest

/-- The names of the fields, without `deliverables`. -/
theorem fields_names (v : Document) : v.fields.map Prod.fst = (documentFields.map String.toList).take 9 ∧ v.deliverables = .null ∨
    v.fields.map Prod.fst = documentFields.map String.toList ∧ ("deliverables".toList, v.deliverables) ∈ v.fields := by
  unfold Document.fields
  cases hdeliverables : v.deliverables with
  | null => exact .inl ⟨rfl, rfl⟩
  | bool b => exact .inr ⟨rfl, by simp⟩
  | int n => exact .inr ⟨rfl, by simp⟩
  | float text => exact .inr ⟨rfl, by simp⟩
  | str t => exact .inr ⟨rfl, by simp⟩
  | arr items => exact .inr ⟨rfl, by simp⟩
  | obj fields => exact .inr ⟨rfl, by simp⟩

theorem documentFields_nodup : (documentFields.map String.toList).Nodup := by decide

theorem fields_nodup (v : Document) : (v.fields.map Prod.fst).Nodup := by
  obtain ⟨hnames, -⟩ | ⟨hnames, -⟩ := fields_names v
  · rw [hnames]
    exact documentFields_nodup.sublist (List.take_sublist _ _)
  · rw [hnames]
    exact documentFields_nodup

theorem keysWithin_fields (v : Document) : keysWithin v.fields documentFields = true := by
  have hsubset : v.fields.map Prod.fst ⊆ documentFields.map String.toList := by
    obtain ⟨hnames, -⟩ | ⟨hnames, -⟩ := fields_names v
    · rw [hnames]
      exact List.take_subset _ _
    · rw [hnames]
      exact List.Subset.refl _
  unfold keysWithin
  rw [List.all_eq_true]
  intro f hf
  obtain ⟨name, hname, hsame⟩ := List.mem_map.mp (hsubset (List.mem_map_of_mem hf))
  exact List.any_eq_true.mpr ⟨name, hname, decide_eq_true hsame.symm⟩

theorem get_deliverables (v : Document) : Json.get v.fields "deliverables" = v.deliverables := by
  unfold Json.get
  obtain ⟨hnames, hnull⟩ | ⟨-, hmem⟩ := fields_names v
  · have hnone : v.fields.lookup "deliverables".toList = none := by
      rw [List.lookup_eq_none_iff]
      intro f hf
      have hname : f.1 ∈ (documentFields.map String.toList).take 9 := by
        rw [← hnames]
        exact List.mem_map_of_mem hf
      have hnot : "deliverables".toList ∉ (documentFields.map String.toList).take 9 := by decide
      rw [bne_iff_ne]
      intro hsame
      rw [hsame] at hnot
      exact hnot hname
    rw [hnone, hnull]
    rfl
  · rw [lookup_of_mem (fields_nodup v) hmem]
    rfl

theorem construct_fields (v : Document) : Requirement.construct v.fields = .ok v.requirement := by
  have hlookup (name : List Char) (j : Json) (h : (name, j) ∈ v.fields) := lookup_of_mem (fields_nodup v) h
  have hobjective := hlookup "objective".toList (.str v.objective) (by simp [Document.fields])
  have hcapability := hlookup "capability_key".toList (.str v.capabilityKey) (by simp [Document.fields])
  have hspec := hlookup "spec".toList (v.spec) (by simp [Document.fields])
  have hconstraints := hlookup "constraints".toList (.arr v.constraints) (by simp [Document.fields])
  have hcriteria := hlookup "acceptance_criteria".toList (.arr v.acceptanceCriteria) (by simp [Document.fields])
  have hmode := hlookup "completion_mode".toList (.str v.completionMode) (by simp [Document.fields])
  have htiming := hlookup "timing".toList (v.timing) (by simp [Document.fields])
  have hrequests := hlookup "resource_requests".toList (.arr v.resourceRequests) (by simp [Document.fields])
  have hpolicy := hlookup "deliverable_policy".toList (v.deliverablePolicy) (by simp [Document.fields])
  unfold Requirement.construct
  rw [hobjective, hcapability, hspec, hconstraints, hcriteria, hmode, hrequests, get_deliverables]
  unfold Json.get
  rw [htiming, hpolicy]
  rfl

theorem fromDict_toJson {r : Requirement} (hc : Checked h r v) :
    Requirement.fromDict h v.toJson = .ok v.requirement := by
  unfold Document.toJson Requirement.fromDict
  rw [bind_unit_ok, require_ok, construct_fields]
  dsimp only
  rw [toDict_ok.mpr hc.again]
  exact ⟨keysWithin_fields v, rfl⟩

/-- A document survives `from_dict` and `to_dict`. -/
theorem round_trip {r : Requirement} (hv : r.toDict h = .ok v) :
    (Requirement.fromDict h v.toJson >>= Requirement.toDict h) = .ok v := by
  have hc := toDict_ok.mp hv
  exact bind_ok.mpr ⟨v.requirement, fromDict_toJson hc, toDict_ok.mpr hc.again⟩

/-! ### Criteria -/

/-- What `to_dict` has found out about a criterion. -/
structure GoodCriterion (c : Json) (cid : List Char) : Prop where
  named : field "id" c = .str cid
  required : isBool (field "required" c) = true
  accepted : ∀ ids, criterionAccepted ids c = (decide (cid.length ≤ 100) && !ids.contains cid)

theorem nullOrIn_of_within {values : List Json} {message : String}
    (h : within values allowed message = .ok ()) : values.all (nullOrIn allowed) = true := by
  unfold within at h
  split at h
  · cases h
  · rw [require_ok, List.all_eq_true] at h
    rw [List.all_eq_true]
    intro j hj
    obtain ⟨s, hs, htext⟩ := List.any_eq_true.mp (h j hj)
    unfold isText at htext
    split at htext
    · next t =>
        unfold nullOrIn asText
        rw [of_decide_eq_true htext]
        exact List.elem_eq_true_of_mem (List.mem_map_of_mem hs)
    · cases htext

theorem goodCriterion {ids : List (List Char)} {c : Json} {id : List Char} (h : checkCriterion ids c = .ok id) :
    GoodCriterion c id ∧ id ∉ ids := by
  unfold checkCriterion at h
  split at h
  · next fields =>
      split at h
      · next given items hid hitems =>
          simp only [bind_ok, require_ok, Bool.and_eq_true, bne_iff_ne, Bool.not_eq_true'] at h
          obtain ⟨_, ⟨⟨⟨⟨⟨hkeys, -⟩, hsome⟩, hnew⟩, hrequired⟩, hitems'⟩, _, hwithin, hsame⟩ := h
          obtain rfl := Except.ok.inj hsame
          have hpos := List.length_pos_iff.mpr hsome
          refine ⟨⟨hid, hrequired, fun ids' => ?_⟩, ?_⟩
          · have htext : idText (.obj fields) = some given := by
              unfold idText field
              dsimp only
              rw [hid]
              rfl
            unfold criterionAccepted
            dsimp only
            rw [htext, hitems]
            dsimp only
            rw [hrequired, hitems', hkeys, nullOrIn_of_within hwithin]
            simp only [Bool.not_false, Bool.and_true]
            congr 1
            rw [decide_eq_decide]
            omega
          · simpa using hnew
      · cases h
  · cases h

theorem goodCriteria {ids : List (List Char)} (h : checkCriteria ids criteria = .ok ()) :
    ∃ cids, List.Forall₂ GoodCriterion criteria cids ∧ cids.Nodup ∧ ∀ cid ∈ cids, cid ∉ ids := by
  induction criteria generalizing ids with
  | nil => exact ⟨[], .nil, List.nodup_nil, nofun⟩
  | cons c rest ih =>
      rw [checkCriteria, bind_ok] at h
      obtain ⟨cid, hcriterion, hrest⟩ := h
      obtain ⟨hgood, hnew⟩ := goodCriterion hcriterion
      obtain ⟨cids, hgoods, hnodup, hdisjoint⟩ := ih hrest
      refine ⟨cid :: cids, .cons hgood hgoods, List.nodup_cons.mpr ⟨?_, hnodup⟩, ?_⟩
      · exact fun hmem => hdisjoint cid hmem List.mem_cons_self
      · rw [List.forall_mem_cons]
        exact ⟨hnew, fun other hmem hids => hdisjoint other hmem (List.mem_cons_of_mem cid hids)⟩

/-- The trigger looks only at the length of the ids. -/
theorem criteriaAccepted_iff {ids : List (List Char)} (h : List.Forall₂ GoodCriterion criteria cids)
    (hnodup : cids.Nodup) (hids : ∀ cid ∈ cids, cid ∉ ids) :
    criteriaAccepted ids criteria = true ↔ ∀ cid ∈ cids, cid.length ≤ 100 := by
  induction h generalizing ids with
  | nil => exact ⟨fun _ => nofun, fun _ => rfl⟩
  | @cons c cid rest cids hgood hgoods ih =>
      rw [List.nodup_cons] at hnodup
      rw [List.forall_mem_cons] at hids ⊢
      have htext : idText c = some cid := by
        unfold idText
        rw [hgood.named]
        rfl
      have hrest : ∀ other ∈ cids, other ∉ ids ++ [cid] := by
        intro other hmem hmem'
        obtain hbefore | hthis := List.mem_append.mp hmem'
        · exact hids.2 other hmem hbefore
        · rw [List.mem_singleton.mp hthis] at hmem
          exact hnodup.1 hmem
      have hcontains : ids.contains cid = false := by simpa using hids.1
      rw [criteriaAccepted, hgood.accepted, htext, hcontains, Bool.and_eq_true, Option.toList_some, ih hnodup.2 hrest]
      simp

theorem forall₂_ids (h : List.Forall₂ GoodCriterion criteria cids) :
    (∀ cid ∈ cids, cid.length ≤ 100) ↔ ∀ c ∈ criteria, ∀ cid, field "id" c = .str cid → cid.length ≤ 100 := by
  induction h with
  | nil => exact ⟨fun _ => nofun, fun _ => nofun⟩
  | @cons c cid rest cids hgood hgoods ih =>
      rw [List.forall_mem_cons, List.forall_mem_cons, ih]
      constructor
      · intro h
        refine ⟨fun other hother => ?_, h.2⟩
        obtain rfl := Json.str.inj (hgood.named.symm.trans hother)
        exact h.1
      · exact fun h => ⟨h.1 cid hgood.named, h.2⟩

theorem mem_ids (h : List.Forall₂ GoodCriterion criteria cids) {c : Json}
    (hmem : c ∈ criteria) (hc : field "id" c = .str cid) : cid ∈ cids := by
  induction h with
  | nil => exact absurd hmem List.not_mem_nil
  | cons hgood hgoods ih =>
      obtain rfl | hrest := List.mem_cons.mp hmem
      · obtain rfl := Json.str.inj (hgood.named.symm.trans hc)
        exact List.mem_cons_self
      · exact List.mem_cons_of_mem _ (ih hrest)

/-! ### Resource requests, specification and timing -/

theorem textIs_one {j : Json} (h : isOne j = true) : textIs "1" j = true ↔ j = .int 1 := by
  unfold isOne at h
  cases j with
  | null => cases h
  | str t => cases h
  | arr items => cases h
  | obj fields => cases h
  | int n =>
      rw [of_decide_eq_true h]
      exact ⟨fun _ => rfl, fun _ => by decide⟩
  | bool b =>
      obtain rfl : b = true := h
      have hnot : textIs "1" (.bool true) = false := by decide
      rw [hnot]
      exact ⟨nofun, nofun⟩
  | float text =>
      have htext : text.1 = "1.0".toList := of_decide_eq_true h
      have hnot : textIs "1" (.float text) = false := by
        show decide (some text.1 = some "1".toList) = false
        rw [htext]
        decide
      rw [hnot]
      exact ⟨nofun, nofun⟩

theorem requestAccepted_iff {q : Json} (h : checkRequest q = .ok ()) :
    requestAccepted q = true ↔ field "schema_version" q = .int 1 := by
  unfold checkRequest at h
  split at h
  · next fields =>
      split at h
      · next node items hnode hitems =>
          simp only [bind_ok, require_ok, Bool.and_eq_true, Bool.not_eq_true'] at h
          obtain ⟨_, ⟨⟨-, hone⟩, hsome⟩, _, hwithin, -⟩ := h
          unfold requestAccepted field
          dsimp only
          rw [hitems]
          dsimp only
          rw [hnode, hsome, nullOrIn_of_within hwithin]
          simp only [asText, Option.isSome_some, Bool.and_true, Bool.not_false]
          exact textIs_one hone
      · cases h
  · cases h

theorem constraintAccepted_of {c : Json} (h : isConstraint c = true) : constraintAccepted c = true := by
  unfold isConstraint at h
  split at h
  · next s =>
      rw [Bool.and_eq_true, bne_iff_ne, decide_eq_true_eq] at h
      have hpos : 0 < (strip s).length := List.length_pos_iff.mpr h.1
      have hle := strip_length_le s
      exact decide_eq_true ⟨by omega, h.2⟩
  · cases h

/-- What is not blank is not made of spaces. -/
theorem btrim_ne_nil (h : strip s ≠ []) : btrim s ≠ [] := by
  intro hnil
  apply h
  unfold strip
  unfold btrim at hnil
  rw [List.rdropWhile_eq_nil_iff] at hnil ⊢
  have hall : ∀ c ∈ s, c = ' ' := by
    intro c hc
    rw [← List.takeWhile_append_dropWhile (p := fun c => decide (c = ' ')) (l := s)] at hc
    obtain hbefore | hafter := List.mem_append.mp hc
    · exact of_decide_eq_true (List.mem_takeWhile_imp (p := fun c => decide (c = ' ')) hbefore)
    · exact of_decide_eq_true (hnil c hafter)
  intro c hc
  rw [hall c ((List.dropWhile_suffix isSpace).subset hc)]
  decide

theorem field_obj (name : String) (fields : List (List Char × Json)) : field name (.obj fields) = Json.get fields name := rfl

theorem field_lookup (name : String) (fields : List (List Char × Json)) (default : Json) :
    (fields.lookup name.toList).getD default = field name (.obj fields) ∨
      fields.lookup name.toList = none ∧ field name (.obj fields) = .null := by
  rw [field_obj, Json.get]
  cases fields.lookup name.toList with
  | none => exact .inr ⟨rfl, rfl⟩
  | some j => exact .inl rfl

/-- The trigger looks only for the strategy of a report. -/
theorem specAccepted_iff {spec : Json} (hspec : checkSpec h capability spec = .ok ()) :
    specAccepted capability spec = true ↔ (capability = "research_report".toList → field "source_strategy" spec ≠ .null) := by
  unfold checkSpec at hspec
  rw [bind_ok] at hspec
  obtain ⟨fields, hfields, hrest⟩ := hspec
  obtain ⟨rfl, -⟩ := truthy_of_bounded hfields
  unfold specAccepted
  by_cases hreminder : capability = "reminder".toList
  · have hother : capability ≠ "research_report".toList := by
      rw [hreminder]
      decide
    rw [if_pos hreminder] at hrest
    unfold checkReminder at hrest
    split at hrest
    · next content hcontent =>
        simp only [bind_ok, require_ok, bne_iff_ne] at hrest
        obtain ⟨_, hsome, -⟩ := hrest
        have htext : asText (field "content" (.obj fields)) = some content := by
          rw [field_obj, hcontent]
          rfl
        have hnot : decide (((some content).map btrim).getD [] = []) = false := decide_eq_false (btrim_ne_nil hsome)
        rw [decide_eq_true hreminder, decide_eq_false hother, htext, hnot]
        exact ⟨fun _ hresearch => absurd hresearch hother, fun _ => rfl⟩
    · cases hrest
  · rw [if_neg hreminder] at hrest
    by_cases hresearch : capability = "research_report".toList
    · rw [if_pos hresearch] at hrest
      unfold checkResearch at hrest
      obtain hsame | ⟨hnone, hnull⟩ := field_lookup "source_strategy" fields (.obj [])
      · rw [hsame] at hrest
        split at hrest
        · next raw hraw =>
            rw [decide_eq_false hreminder, decide_eq_true hresearch, hraw]
            exact ⟨fun _ _ => nofun, fun _ => rfl⟩
        · cases hrest
      · rw [decide_eq_false hreminder, decide_eq_true hresearch, hnull]
        exact ⟨nofun, fun hnever => absurd rfl (hnever hresearch)⟩
    · rw [decide_eq_false hreminder, decide_eq_false hresearch]
      exact ⟨fun _ hr => absurd hr hresearch, fun _ => rfl⟩

theorem isDigit_of_le {c : Char} (hlow : '0' ≤ c) (hhigh : c ≤ '9') : c.isDigit = true := by
  unfold Char.isDigit
  rw [Bool.and_eq_true, decide_eq_true_eq, decide_eq_true_eq]
  exact ⟨hlow, hhigh⟩

/-- A clock time in decimal digits, to the application, is one in ASCII digits, to the trigger, when they are. -/
theorem isClock_isDigit (h : isClock isDecimal s = true) :
    isClock Char.isDigit s = true ↔ ∀ c ∈ s, c = ':' ∨ c.isDigit = true := by
  have hcolon : isDecimal ':' = false := by decide
  match s, h with
  | [a, b, colon, c, d], h =>
      unfold isClock at h ⊢
      simp only [Bool.and_eq_true, Bool.or_eq_true, decide_eq_true_eq] at h ⊢
      obtain ⟨⟨⟨hhour, hcolon'⟩, hminute⟩, hlast⟩ := h
      have hne {x : Char} (hx : isDecimal x = true) (h : x = ':' ∨ x.isDigit = true) : x.isDigit = true := by
        apply h.resolve_left
        intro hsame
        rw [hsame, hcolon] at hx
        cases hx
      constructor
      · rintro ⟨⟨⟨hhour', -⟩, -⟩, hlast'⟩
        rw [List.forall_mem_cons, List.forall_mem_cons, List.forall_mem_cons, List.forall_mem_cons, List.forall_mem_singleton]
        have hc : c.isDigit = true := isDigit_of_le hminute.1 (Char.le_trans hminute.2 (by decide : '5' ≤ '9'))
        refine ⟨.inr ?_, .inr ?_, .inl hcolon', .inr hc, .inr hlast'⟩
        · obtain ⟨rfl | rfl, -⟩ | ⟨rfl, -⟩ := hhour
          · decide
          · decide
          · decide
        · obtain ⟨-, hb⟩ | ⟨-, hlow, hhigh⟩ := hhour'
          · exact hb
          · exact isDigit_of_le hlow (Char.le_trans hhigh (by decide : '3' ≤ '9'))
      · intro hall
        rw [List.forall_mem_cons, List.forall_mem_cons, List.forall_mem_cons, List.forall_mem_cons, List.forall_mem_singleton] at hall
        refine ⟨⟨⟨?_, hcolon'⟩, hminute⟩, hne hlast hall.2.2.2.2⟩
        obtain ⟨ha, hb⟩ | htwo := hhour
        · exact .inl ⟨ha, hne hb hall.2.1⟩
        · exact .inr htwo

theorem textIs_str (s : String) (t : List Char) : textIs s (.str t) = decide (t = s.toList) := by
  unfold textIs asText
  simp only [Option.some_inj]

/-- The trigger looks only at the digits of the clock time. -/
theorem timingAccepted_iff {mode : List Char} {timing : Json} (htiming : checkTiming h mode timing = .ok ()) :
    timingAccepted h.zoneInfo mode timing = true ↔ (isText "daily" (field "kind" timing) = true →
      ∀ s, field "local_time" timing = .str s → ∀ c ∈ s, c = ':' ∨ c.isDigit = true) := by
  unfold checkTiming at htiming
  rw [bind_ok] at htiming
  obtain ⟨fields, hfields, hrest⟩ := htiming
  obtain ⟨rfl, -⟩ := truthy_of_bounded hfields
  split at hrest
  · next zone hzone =>
      rw [bind_unit_ok, require_ok] at hrest
      obtain ⟨hknown, hkind⟩ := hrest
      split at hkind
      · cases hkind
      · next kindJson hlookup =>
          rw [bind_ok] at hkind
          obtain ⟨kind, hmember, hkind⟩ := hkind
          rw [bind_unit_ok] at hkind
          obtain ⟨hchecked, -⟩ := hkind
          obtain ⟨rfl, -⟩ := memberOf_text hmember
          have hfield : field "kind" (.obj fields) = .str kind := by
            rw [field_obj, Json.get, hlookup]
            rfl
          unfold timingAccepted
          rw [field_obj "timezone", hzone, hfield, textIs_str, textIs_str]
          have hzones : ((asText (.str zone)).map h.zoneInfo).getD false = true := hknown
          rw [hzones, Bool.and_true]
          unfold checkKind at hchecked
          by_cases honce : kind = "once".toList
          · have hdaily : kind ≠ "daily".toList := by
              rw [honce]
              decide
            rw [if_pos honce] at hchecked
            unfold checkDueAt at hchecked
            rw [bind_ok] at hchecked
            obtain ⟨_, -, hdue⟩ := hchecked
            split at hdue
            · next due hdue' =>
                rw [decide_eq_true honce, decide_eq_false hdaily, field_obj "due_at", hdue']
                exact ⟨fun _ h => absurd (of_decide_eq_true h) hdaily, fun _ => rfl⟩
            · cases hdue
          · rw [if_neg honce] at hchecked
            by_cases hdaily : kind = "daily".toList
            · rw [if_pos hdaily] at hchecked
              rw [bind_unit_ok, require_ok, require_ok] at hchecked
              obtain ⟨hclock, hmode⟩ := hchecked
              split at hclock
              · next s hs =>
                  rw [decide_eq_false honce, decide_eq_true hdaily, field_obj "local_time", hs]
                  have hongoing : decide (mode ≠ "ongoing".toList) = false :=
                    decide_eq_false (not_not_intro (of_decide_eq_true hmode))
                  rw [hongoing]
                  show (!!isClock Char.isDigit s) = true ↔ _
                  rw [Bool.not_not, isClock_isDigit hclock]
                  constructor
                  · intro hall _ s' hs'
                    obtain rfl := Json.str.inj hs'
                    exact hall
                  · exact fun hall => hall (decide_eq_true hdaily) s rfl
              · cases hclock
            · rw [decide_eq_false honce, decide_eq_false hdaily]
              exact ⟨fun _ h => absurd (of_decide_eq_true h) hdaily, fun _ => rfl⟩
  · cases hrest

theorem asText_of_truthy {j : Json} (h : j.truthy = true) : (asText j).isNone = false := by
  cases j with
  | null => cases h
  | bool b => rfl
  | int n => rfl
  | float text => rfl
  | str s => rfl
  | arr items => rfl
  | obj fields => rfl

theorem policyAccepted_of {policy : Json} (hpolicy : checkPolicy h policy = .ok ()) : policyAccepted policy = true := by
  unfold checkPolicy at hpolicy
  rw [bind_ok] at hpolicy
  obtain ⟨fields, hfields, hrest⟩ := hpolicy
  obtain ⟨rfl, -⟩ := truthy_of_bounded hfields
  split at hrest
  · next required hrequired =>
      rw [bind_unit_ok, require_ok] at hrest
      unfold policyAccepted
      rw [field_obj, hrequired]
      cases required with
      | false =>
          have hfalse : textIs "true" (.bool false) = false := by decide
          rw [hfalse]
          rfl
      | true =>
          have hdirectory : (asText (field "directory_id" (.obj fields))).isNone = false := asText_of_truthy hrest.1
          rw [hdirectory, Bool.and_false]
          rfl
  · cases hrest

/-! ### Delivery targets -/

theorem find?_criterion (hgoods : List.Forall₂ GoodCriterion criteria cids)
    (hnodup : cids.Nodup) {c : Json} (hmem : c ∈ criteria) (hc : field "id" c = .str cid) :
    criteria.find? (fun c => idText c = some cid) = some c := by
  induction hgoods with
  | nil => exact absurd hmem List.not_mem_nil
  | @cons c' cid' rest cids hgood hgoods ih =>
      rw [List.nodup_cons] at hnodup
      have htext : idText c' = some cid' := by
        unfold idText
        rw [hgood.named]
        rfl
      obtain rfl | hrest := List.mem_cons.mp hmem
      · obtain rfl := Json.str.inj (hgood.named.symm.trans hc)
        exact List.find?_cons_of_pos (p := fun c => decide (idText c = some cid')) (decide_eq_true htext)
      · have hne : cid' ≠ cid := by
          rintro rfl
          exact hnodup.1 (mem_ids hgoods hrest hc)
        rw [List.find?_cons_of_neg (by rw [htext]; simpa using hne)]
        exact ih hnodup.2 hrest

/-- A criterion that a target may bind is one that the trigger finds. -/
theorem boundAccepted_of (hgoods : List.Forall₂ GoodCriterion criteria cids)
    (hnodup : cids.Nodup) {required target : Json} {kind : String}
    (h : checkBound criteria required used kind target = .ok cid) :
    target = .str cid ∧ boundAccepted criteria required used kind target = true := by
  unfold checkBound at h
  split at h
  · next given =>
      rw [bind_unit_ok, require_ok] at h
      obtain ⟨hused, hrest⟩ := h
      split at hrest
      · cases hrest
      · next c hfound =>
          rw [bind_unit_ok, require_ok, Bool.and_eq_true] at hrest
          obtain ⟨⟨hkind, hsame⟩, hcid⟩ := hrest
          obtain rfl := Except.ok.inj hcid
          unfold byId at hfound
          have hmem : c ∈ criteria := List.mem_reverse.mp (List.mem_of_find?_eq_some hfound)
          have hid : field "id" c = .str given := by
            have hmatch := List.find?_some hfound
            split at hmatch
            · next id hid =>
                rw [hid, of_decide_eq_true hmatch]
            · cases hmatch
          refine ⟨rfl, ?_⟩
          unfold boundAccepted asText
          dsimp only
          rw [hused, find?_criterion hgoods hnodup hmem hid]
          dsimp only
          rw [hkind, hsame]
          rfl
  · cases h

theorem itemsAccepted_of (hgoods : List.Forall₂ GoodCriterion criteria cids)
    (hnodup : cids.Nodup) {ids : List (List Char)} {items : List Json} (h : checkItems criteria ids used items = .ok ()) :
    itemsAccepted criteria ids used items = true := by
  induction items generalizing ids used with
  | nil => rfl
  | cons item rest ih =>
      unfold checkItems at h
      split at h
      · cases ‹_ :: _ = []›
      · next fields rest' hitem =>
          obtain ⟨rfl, rfl⟩ := List.cons.inj hitem
          split at h
          · next id format hid hformat =>
              rw [bind_unit_ok, require_ok, bind_ok] at h
              obtain ⟨hshape, output, houtput, h⟩ := h
              rw [bind_ok] at h
              obtain ⟨bound, hbound, hrest⟩ := h
              obtain ⟨houtput', haccepted⟩ := boundAccepted_of hgoods hnodup houtput
              obtain ⟨hbound', haccepted'⟩ := boundAccepted_of hgoods hnodup hbound
              unfold itemsAccepted
              dsimp only
              rw [hid, hformat]
              dsimp only
              rw [houtput'] at haccepted ⊢
              rw [hbound'] at haccepted' ⊢
              have hnext := ih hrest
              simp only [Bool.and_eq_true] at hshape ⊢
              exact ⟨⟨⟨⟨⟨⟨⟨⟨hshape.1.1.1.1.2, hshape.1.1.1.1.1⟩, hshape.1.1.1.2⟩, hshape.1.1.2⟩, hshape.1.2⟩, hshape.2⟩, haccepted⟩,
                haccepted'⟩, hnext⟩
          · cases h
      · cases h

theorem encode_length_le {t : List Char} (h : s <:+: t) : (Utf8.encode s).length ≤ (Utf8.encode t).length := by
  obtain ⟨pre, post, rfl⟩ := h
  unfold Utf8.encode
  rw [List.flatMap_append, List.flatMap_append, List.length_append, List.length_append]
  omega

theorem octets_of_sized {limit : ℕ} {value : Json} {message : String} (h : sized limit value message = .ok ()) :
    octets value ≤ limit := by
  unfold sized at h
  rw [bind_unit_ok, require_ok, require_ok] at h
  exact of_decide_eq_true h.2

/-- The targets that `to_dict` takes are taken by the trigger. -/
theorem validateDeliveryRequirement_of
    (hgoods : List.Forall₂ GoodCriterion v.acceptanceCriteria cids) (hnodup : cids.Nodup)
    (hdeliverables : validateDeliverables v.acceptanceCriteria v.deliverables = .ok ()) (hsize : octets v.toJson ≤ 32768) :
    validateDeliveryRequirement v = true := by
  have hpart : v.deliverables ≠ .null → octets v.deliverables ≤ 32768 := by
    intro hsome
    obtain ⟨-, hnull⟩ | ⟨-, hmem⟩ := fields_names v
    · exact absurd hnull hsome
    · exact (encode_length_le (Json.dumps_infix _ _ hmem)).trans hsize
  unfold validateDeliverables at hdeliverables
  unfold validateDeliveryRequirement
  split at hdeliverables
  · next hnull => rw [hnull]
  · next fields hfields =>
      rw [hfields] at hpart ⊢
      split at hdeliverables
      · next version items hversion hitems =>
          rw [bind_unit_ok, require_ok] at hdeliverables
          simp only [Bool.and_eq_true, decide_eq_true_eq] at hdeliverables
          obtain ⟨⟨⟨⟨hkeys, -⟩, rfl⟩, -⟩, hchecked⟩ := hdeliverables
          have hone : textIs "1" (Json.get fields "schema_version") = true := by
            rw [hversion]
            decide
          unfold workJson
          dsimp only
          rw [hone, hkeys, decide_eq_true (hpart nofun), field_obj, hitems]
          exact itemsAccepted_of hgoods hnodup hchecked
      · cases hdeliverables
  · cases hdeliverables

/-! ### The agreement -/

def items : Json → List Json
  | .arr items => items
  | _ => []

/-- What only one side looks at: the length of the ids of the criteria, the version of a resource request as a number,
the strategy of a report, and the digits of a clock time. -/
structure Agreed (r : Requirement) : Prop where
  criteria : ∀ c ∈ items r.acceptanceCriteria, ∀ cid, field "id" c = .str cid → cid.length ≤ 100
  requests : ∀ q ∈ items r.resourceRequests, field "schema_version" q = .int 1
  strategy : isText "research_report" r.capabilityKey = true → field "source_strategy" r.spec ≠ .null
  clock : isText "daily" (field "kind" r.timing) = true →
    ∀ s, field "local_time" r.timing = .str s → ∀ c ∈ s, c = ':' ∨ c.isDigit = true

theorem criteriaOr_ids :
    (∀ c ∈ criteriaOr capability criteria, ∀ cid, field "id" c = .str cid → cid.length ≤ 100) ↔
      ∀ c ∈ criteria, ∀ cid, field "id" c = .str cid → cid.length ≤ 100 := by
  unfold criteriaOr
  split
  · next hempty =>
      rw [Bool.and_eq_true, List.isEmpty_iff] at hempty
      rw [hempty.1, List.forall_mem_singleton]
      refine ⟨fun _ => nofun, fun _ cid hcid => ?_⟩
      have hchannel : field "id" channelAccepted = .str "channel_accepted".toList := rfl
      obtain rfl := Json.str.inj (hchannel.symm.trans hcid)
      decide
  · exact Iff.rfl

theorem timing_agreed {timing : Json} :
    (isText "daily" (field "kind" (orElse timing defaultTiming)) = true →
      ∀ s, field "local_time" (orElse timing defaultTiming) = .str s → ∀ c ∈ s, c = ':' ∨ c.isDigit = true) ↔
    (isText "daily" (field "kind" timing) = true → ∀ s, field "local_time" timing = .str s → ∀ c ∈ s, c = ':' ∨ c.isDigit = true) := by
  unfold orElse
  cases htruthy : timing.truthy with
  | true => exact Iff.rfl
  | false =>
      have hdefault : isText "daily" (field "kind" defaultTiming) = false := by decide
      have hempty : field "kind" timing = .null := by
        cases timing with
        | obj fields =>
            cases fields with
            | nil => rfl
            | cons f rest => cases htruthy
        | _ => rfl
      rw [if_neg Bool.false_ne_true, hdefault, hempty]
      exact ⟨fun _ => nofun, fun _ => nofun⟩

/-- A requirement that the application accepts goes through its own document unchanged and is accepted by the triggers,
when and only when it is not one of the four cases. -/
theorem requirement_agreement {h : Host} {r : Requirement} {v : Document} (hv : r.toDict h = .ok v) :
    ((Requirement.fromDict h v.toJson >>= Requirement.toDict h) = .ok v ∧ validateWorkRequirement h.zoneInfo v = true ∧
      validateDeliveryRequirement v = true) ↔ Agreed r := by
  have hc := toDict_ok.mp hv
  obtain ⟨again, hagain, hchecked, -⟩ := hc.again.criteria
  obtain rfl := Json.arr.inj hagain
  obtain ⟨cids, hgoods, hnodup, hnew⟩ := goodCriteria hchecked
  have hdelivery := validateDeliveryRequirement_of hgoods hnodup hc.deliverables (octets_of_sized hc.size)
  have hcriteria : criteriaAccepted [] v.acceptanceCriteria = true ↔
      ∀ c ∈ items r.acceptanceCriteria, ∀ cid, field "id" c = .str cid → cid.length ≤ 100 := by
    obtain ⟨criteria, hgiven, -, hor⟩ := hc.criteria
    rw [criteriaAccepted_iff hgoods hnodup hnew, forall₂_ids hgoods, hor, criteriaOr_ids, hgiven]
    rfl
  have hrequests : v.resourceRequests.all requestAccepted = true ↔
      ∀ q ∈ items r.resourceRequests, field "schema_version" q = .int 1 := by
    rw [hc.sameRequests, List.all_eq_true]
    exact forall₂_congr fun q hq => requestAccepted_iff (hc.requests q hq)
  have hspec : specAccepted v.capabilityKey v.spec = true ↔
      (isText "research_report" r.capabilityKey = true → field "source_strategy" r.spec ≠ .null) := by
    obtain ⟨hcapability, -⟩ := memberOf_text hc.capability
    rw [specAccepted_iff hc.spec, hcapability, hc.sameSpec]
    unfold isText
    rw [decide_eq_true_eq]
  have htiming : timingAccepted h.zoneInfo v.completionMode v.timing = true ↔
      (isText "daily" (field "kind" r.timing) = true →
        ∀ s, field "local_time" r.timing = .str s → ∀ c ∈ s, c = ':' ∨ c.isDigit = true) := by
    rw [timingAccepted_iff hc.timing, hc.orTiming, timing_agreed]
  have hconstraints : v.constraints.all constraintAccepted = true := by
    rw [List.all_eq_true]
    exact fun c hmem => constraintAccepted_of (List.all_eq_true.mp hc.constraints c hmem)
  unfold validateWorkRequirement
  rw [hconstraints, policyAccepted_of hc.policy]
  simp only [Bool.and_eq_true, Bool.true_and, and_true]
  rw [hcriteria, hrequests, hspec, htiming]
  constructor
  · rintro ⟨-, ⟨⟨⟨hc, hr⟩, hs⟩, ht⟩, -⟩
    exact ⟨hc, hr, hs, ht⟩
  · exact fun ha => ⟨round_trip hv, ⟨⟨⟨ha.criteria, ha.requests⟩, ha.strategy⟩, ha.clock⟩, hdelivery⟩

/-- A host that knows one time zone. -/
def utcHost : Host := ⟨fun _ => true, fun zone => zone = "UTC".toList, fun _ => true, fun _ => .ok ()⟩

/-- A piece of work with one criterion. -/
def generic (cid : List Char) : Requirement :=
  ⟨.str ['a'], .str "generic_work".toList, .obj [("schema_version".toList, .int 1)], .arr [],
    .arr [.obj [("id".toList, .str cid), ("required".toList, .bool true),
      ("evidence_types".toList, .arr [.str "output_exists".toList])]],
    .str "deliverable".toList, .null, .arr [], .null, .null⟩

theorem exists_of_any {α : Type} {m : Except Exn α} {p : α → Bool} (h : m.toOption.any p = true) : ∃ v, m = .ok v ∧ p v = true := by
  cases m with
  | error e => cases h
  | ok v => exact ⟨v, rfl, h⟩

theorem requirement_agreement_generic : ∃ v, (generic ['c']).toDict utcHost = .ok v ∧
    (((Requirement.fromDict utcHost v.toJson >>= Requirement.toDict utcHost) = .ok v ∧
      validateWorkRequirement utcHost.zoneInfo v = true ∧ validateDeliveryRequirement v = true) ↔ Agreed (generic ['c'])) := by
  have haccepted : ((generic ['c']).toDict utcHost).toOption.any (fun _ => true) = true := by decide +kernel
  obtain ⟨v, hv, -⟩ := exists_of_any haccepted
  exact ⟨v, hv, requirement_agreement hv⟩

/-- The id of a criterion may have any length, until the requirement is stored. -/
theorem long_criterion_refused : ∃ v, (generic (List.replicate 101 'c')).toDict utcHost = .ok v ∧
    validateWorkRequirement utcHost.zoneInfo v = false := by
  have hrefused : ((generic (List.replicate 101 'c')).toDict utcHost).toOption.any
      (fun v => !validateWorkRequirement utcHost.zoneInfo v) = true := by decide +kernel
  obtain ⟨v, hv, hnot⟩ := exists_of_any hrefused
  exact ⟨v, hv, Bool.not_eq_true' _ ▸ hnot⟩

end HpAgent.Requirements
