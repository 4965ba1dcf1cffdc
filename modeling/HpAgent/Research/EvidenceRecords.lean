import HpAgent.Research.SourceRecords

/-! # Evidence quotes its source

What the extraction keeps: every item quotes a source that is fetched, word for word; the items of one source do not overlap;
and there are no more of them, of all sources together and of each, than allowed.

* `Quotes`, `Held`: the invariant.
* `extractSource_held`: one source.
* `extractEvidence_held`: all of them; there is no error. -/

namespace HpAgent.Research

open Library Requirements

variable {r : Records}

/-- An item is what its locator says: a part of the content, not empty and not too long. -/
structure Quotes (e : EvidenceItem) (s : SourceRecord) (row : ContentRow) : Prop where
  source : s.sourceId = e.sourceId ∧ row.sourceId = e.sourceId
  uri : e.sourceLocator.canonicalUri = s.canonicalUri
  content : row.contentRef = e.contentRef ∧ e.sourceLocator.contentRef = e.contentRef
  place : e.sourceLocator.start < e.sourceLocator.stop ∧ e.sourceLocator.stop ≤ row.contentText.length ∧
    e.sourceLocator.stop - e.sourceLocator.start ≤ 1200
  excerpt : slice row.contentText e.sourceLocator.start e.sourceLocator.stop = e.excerpt ∧ e.sourceLocator.excerpt = e.excerpt
  named : e.evidenceId = ⟨e.sourceId, e.contentRef, e.sourceLocator.start, e.sourceLocator.stop⟩

/-- It quotes a source that is fetched. -/
def Quoted (r : Records) (e : EvidenceItem) : Prop :=
  ∃ s ∈ r.sources, s.fetchStatus = .fetched ∧ ∃ row ∈ r.contents, Quotes e s row

theorem Quoted.stays {r' : Records} (h : Stays r r') {e : EvidenceItem} (he : Quoted r e) : Quoted r' e := by
  obtain ⟨s, hs, hfetched, row, hrow, hquotes⟩ := he
  obtain ⟨s', hs', hid, huri, hfetched'⟩ := h.sources s hs hfetched
  exact ⟨s', hs', hfetched', row, h.contents row hrow,
    ⟨hid.trans hquotes.source.1, hquotes.source.2⟩, hquotes.uri.trans huri.symm, hquotes.content, hquotes.place,
    hquotes.excerpt, hquotes.named⟩

/-- The items of a source. -/
def itemsOf (k : ℕ) (evidence : List EvidenceItem) : List EvidenceItem := evidence.filter fun e => e.sourceId = k

/-- The items that are held. -/
structure Held (r : Records) (evidence : List EvidenceItem) : Prop where
  quoted : ∀ e ∈ evidence, Quoted r e
  apart : evidence.Pairwise fun e f => e.sourceId = f.sourceId → e.sourceLocator.stop ≤ f.sourceLocator.start
  each : ∀ k, (itemsOf k evidence).length ≤ 6 ∧ excerptBytes (itemsOf k evidence) ≤ 7200

/-- No more than allowed. -/
def Within (evidence : List EvidenceItem) : Prop := evidence.length ≤ 24 ∧ excerptBytes evidence ≤ 24000

/-- What is left of the limits is what was not used. -/
structure Extraction.Room (x : Extraction) : Prop where
  spans : (x.evidence.length : ℤ) + x.spans = 24
  bytes : (excerptBytes x.evidence : ℤ) + x.bytes = 24000
  left : 0 ≤ x.spans ∧ 0 ≤ x.bytes

theorem excerptBytes_append (a b : List EvidenceItem) : excerptBytes (a ++ b) = excerptBytes a + excerptBytes b := by
  simp [excerptBytes]

theorem Held.ids {evidence : List EvidenceItem} (h : Held r evidence) :
    evidence.Pairwise fun e f => e.evidenceId ≠ f.evidenceId := by
  refine h.apart.imp_of_mem ?_
  intro e f he hf hef heq
  obtain ⟨_, _, _, _, _, he⟩ := h.quoted e he
  obtain ⟨_, _, _, _, _, hf⟩ := h.quoted f hf
  have hnamed := he.named.symm.trans (heq.trans hf.named)
  injection hnamed with hid _ hstart hstop
  have hbefore := hef hid
  have := hf.place.1
  omega

/-! ### One source -/

section Spans

variable {s : SourceRecord} {row : ContentRow}

variable (s row) in
/-- The passages of a source become its items. -/
theorem foldl_addSpan (spans : List Span) (hordered : spans.Pairwise fun a b => a.stop ≤ b.start)
    (hplace : ∀ a ∈ spans, a.start < a.stop) (x : Extraction)
    (hnew : ∀ e ∈ x.evidence, ∀ a ∈ spans, e.evidenceId ≠ (itemOf s row a).evidenceId) :
    spans.foldl (addSpan s row) x =
      ⟨x.evidence ++ spans.map (itemOf s row), x.spans - spans.length,
        x.bytes - ((spans.map (size row.contentText)).sum : ℕ)⟩ := by
  induction spans generalizing x with
  | nil => simp
  | cons a spans ih =>
      obtain ⟨hhead, htail⟩ := List.pairwise_cons.mp hordered
      have hadd : addEvidence x.evidence (itemOf s row a) = x.evidence ++ [itemOf s row a] := by
        rw [addEvidence, if_neg]
        simp only [List.any_eq_true, decide_eq_true_eq, not_exists, not_and]
        exact fun e he => hnew e he a List.mem_cons_self
      have hrest := ih htail (fun b hb => hplace b (List.mem_cons_of_mem a hb)) (addSpan s row x a) (by
        intro e he b hb
        simp only [addSpan, hadd] at he
        cases List.mem_append.mp he with
        | inl hold => exact hnew e hold b (List.mem_cons_of_mem a hb)
        | inr hitem =>
            rw [List.mem_singleton] at hitem
            subst hitem
            intro heq
            injection heq with _ _ hstart _
            have := hplace a List.mem_cons_self
            have := hhead b hb
            omega)
      rw [List.foldl_cons, hrest]
      simp only [addSpan, hadd, List.append_assoc, List.singleton_append, List.map_cons, List.length_cons, List.sum_cons,
        Extraction.mk.injEq, true_and]
      omega

theorem itemOf_quotes (hsource : row.sourceId = s.sourceId) {a : Span}
    (hplace : a.start < a.stop ∧ a.stop ≤ row.contentText.length ∧ a.stop - a.start ≤ 1200) : Quotes (itemOf s row a) s row :=
  ⟨⟨rfl, hsource⟩, rfl, ⟨rfl, rfl⟩, hplace, ⟨rfl, rfl⟩, rfl⟩

theorem excerptBytes_items (spans : List Span) :
    excerptBytes (spans.map (itemOf s row)) = (spans.map (size row.contentText)).sum := by
  rw [excerptBytes, List.map_map]
  rfl

theorem itemsOf_items (spans : List Span) (k : ℕ) :
    itemsOf k (spans.map (itemOf s row)) = if k = s.sourceId then spans.map (itemOf s row) else [] := by
  unfold itemsOf
  split
  next h =>
    rw [List.filter_eq_self]
    intro e he
    obtain ⟨a, -, rfl⟩ := List.mem_map.mp he
    exact decide_eq_true h.symm
  next h =>
    rw [List.filter_eq_nil_iff]
    intro e he
    obtain ⟨a, -, rfl⟩ := List.mem_map.mp he
    intro hid
    exact h (of_decide_eq_true hid).symm

/-- The passages of a source that has no items yet. -/
theorem Held.append {evidence : List EvidenceItem} (h : Held r evidence) (hs : s ∈ r.sources)
    (hfetched : s.fetchStatus = .fetched) (hrow : row ∈ r.contents) (hsource : row.sourceId = s.sourceId)
    (hfree : ∀ e ∈ evidence, e.sourceId ≠ s.sourceId) {spans : List Span}
    (hordered : spans.Pairwise fun a b => a.stop ≤ b.start)
    (hplace : ∀ a ∈ spans, a.start < a.stop ∧ a.stop ≤ row.contentText.length ∧ a.stop - a.start ≤ 1200)
    (hcount : spans.length ≤ 6) (hbytes : (spans.map (size row.contentText)).sum ≤ 7200) :
    Held r (evidence ++ spans.map (itemOf s row)) := by
  refine ⟨?_, ?_, ?_⟩
  · refine List.forall_mem_append.mpr ⟨h.quoted, ?_⟩
    intro e he
    obtain ⟨a, ha, rfl⟩ := List.mem_map.mp he
    exact ⟨s, hs, hfetched, row, hrow, itemOf_quotes hsource (hplace a ha)⟩
  · have hitems : (spans.map (itemOf s row)).Pairwise fun e f =>
        e.sourceId = f.sourceId → e.sourceLocator.stop ≤ f.sourceLocator.start := by
      refine List.pairwise_map.mpr (hordered.imp ?_)
      intro a b hab _
      exact hab
    refine List.pairwise_append.mpr ⟨h.apart, hitems, ?_⟩
    intro e he f hf hid
    obtain ⟨a, -, rfl⟩ := List.mem_map.mp hf
    exact absurd hid (hfree e he)
  · intro k
    have hsplit : itemsOf k (evidence ++ spans.map (itemOf s row)) =
        itemsOf k evidence ++ itemsOf k (spans.map (itemOf s row)) :=
      List.filter_append _ _
    rw [hsplit, itemsOf_items]
    split
    next hk =>
      have hnone : itemsOf k evidence = [] := by
        rw [itemsOf, List.filter_eq_nil_iff]
        intro e he
        rw [hk]
        simpa using hfree e he
      rw [hnone, List.nil_append, List.length_map, excerptBytes_items]
      exact ⟨hcount, hbytes⟩
    next =>
      rw [List.append_nil]
      exact h.each k

end Spans

/-- The source can be quoted, and nothing of it is yet. -/
structure Open (r : Records) (evidence : List EvidenceItem) (p : SourceRecord × ContentRow) : Prop where
  source : p.1 ∈ r.sources
  fetched : p.1.fetchStatus = .fetched
  content : p.2 ∈ r.contents
  own : p.2.sourceId = p.1.sourceId
  free : ∀ e ∈ evidence, e.sourceId ≠ p.1.sourceId

theorem extractSource_held (u : Unicode) (objective : List Char) {x : Extraction} {p : SourceRecord × ContentRow}
    (hheld : Held r x.evidence) (hroom : x.Room) (hopen : Open r x.evidence p) :
    ∃ x' more, extractSource u objective x p = some x' ∧ x'.evidence = x.evidence ++ more ∧
      (∀ e ∈ more, e.sourceId = p.1.sourceId) ∧ Held r x'.evidence ∧ x'.Room := by
  unfold extractSource
  split
  next => exact ⟨x, [], rfl, (List.append_nil _).symm, by simp, hheld, hroom⟩
  next hleft =>
    have hpos : ¬min 1200 (min (min 6 x.spans) (min 7200 x.bytes)) ≤ 0 := by
      have := hroom.left
      omega
    have hselects := evidence_spans_selects u p.2.contentText objective 1200 (min 6 x.spans) (min 7200 x.bytes)
    rw [if_neg hpos] at hselects
    obtain ⟨spans, hspans, hselected⟩ := hselects
    have hfuel : (units p.2.contentText (1200 : ℤ).toNat).length * ((units p.2.contentText (1200 : ℤ).toNat).length + 1) <
        enoughRounds p.2.contentText := Nat.lt_succ_self _
    rw [hspans _ hfuel]
    have hcount := hselected.count
    have hbytes := hselected.bytes
    have hplaces := hselected.places
    have hsize : ((spans.map (size (sourceOf u p.2.contentText objective (1200 : ℤ).toNat).text)).sum : ℕ) =
        (spans.map (size p.2.contentText)).sum := rfl
    rw [hsize] at hbytes
    have hplace : ∀ a ∈ spans, a.start < a.stop ∧ a.stop ≤ p.2.contentText.length ∧ a.stop - a.start ≤ 1200 := hplaces
    have hall := foldl_addSpan p.1 p.2 spans hselected.ordered (fun a ha => (hplace a ha).1) x (by
      intro e he a _ heq
      obtain ⟨_, _, _, _, _, hquotes⟩ := hheld.quoted e he
      rw [hquotes.named] at heq
      injection heq with hid
      exact hopen.free e he hid)
    have hroom' := hroom.left
    refine ⟨_, spans.map (itemOf p.1 p.2), rfl, ?_, ?_, ?_, ?_⟩
    · rw [hall]
    · intro e he
      obtain ⟨a, -, rfl⟩ := List.mem_map.mp he
      rfl
    · rw [hall]
      exact hheld.append hopen.source hopen.fetched hopen.content hopen.own hopen.free hselected.ordered hplace
        (by omega) (by omega)
    · rw [hall]
      have hspansRoom := hroom.spans
      have hbytesRoom := hroom.bytes
      constructor
      · dsimp only
        rw [List.length_append, List.length_map]
        omega
      · dsimp only
        rw [excerptBytes_append, excerptBytes_items]
        omega
      · dsimp only
        omega

/-! ### All sources -/

theorem foldlM_extractSource (u : Unicode) (objective : List Char) (ps : List (SourceRecord × ContentRow))
    (hdistinct : ps.Pairwise fun p q => p.1.sourceId ≠ q.1.sourceId) {x : Extraction} (hheld : Held r x.evidence)
    (hroom : x.Room) (hopen : ∀ p ∈ ps, Open r x.evidence p) :
    ∃ x' more, ps.foldlM (extractSource u objective) x = some x' ∧ x'.evidence = x.evidence ++ more ∧
      Held r x'.evidence ∧ x'.Room := by
  induction ps generalizing x with
  | nil => exact ⟨x, [], rfl, (List.append_nil _).symm, hheld, hroom⟩
  | cons p ps ih =>
      obtain ⟨hhead, htail⟩ := List.pairwise_cons.mp hdistinct
      obtain ⟨x', more, hx', hmore, hids, hheld', hroom'⟩ :=
        extractSource_held u objective hheld hroom (hopen p List.mem_cons_self)
      have hrest : ∀ q ∈ ps, Open r x'.evidence q := by
        intro q hq
        have hq' := hopen q (List.mem_cons_of_mem p hq)
        refine ⟨hq'.source, hq'.fetched, hq'.content, hq'.own, ?_⟩
        rw [hmore]
        refine List.forall_mem_append.mpr ⟨hq'.free, ?_⟩
        intro e he hid
        exact hhead q hq ((hids e he).symm.trans hid)
      obtain ⟨x'', more', hx'', hmore', hheld'', hroom''⟩ := ih htail hheld' hroom' hrest
      refine ⟨x'', more ++ more', ?_, ?_, hheld'', hroom''⟩
      · rw [List.foldlM_cons, hx']
        exact hx''
      · rw [hmore', hmore, List.append_assoc]

theorem evidenceSources_open (h : Kept r) (iteration : ℕ) :
    (evidenceSources iteration r).Pairwise (fun p q => p.1.sourceId ≠ q.1.sourceId) ∧
      ∀ p ∈ evidenceSources iteration r, Open r r.evidence p := by
  unfold evidenceSources
  dsimp only
  constructor
  · have hfiltered := h.apart.filter fun s =>
      s.fetchStatus = .fetched && s.iteration = iteration && !r.evidence.any fun e => e.sourceId = s.sourceId
    have hsorted := (List.perm_insertionSort (fun s t : SourceRecord => s.sourceId ≤ t.sourceId) _).symm.pairwise hfiltered
      fun {_ _} h => Apart.symm h
    refine hsorted.filterMap _ ?_
    intro s t hst p hp q hq
    obtain ⟨row, -, rfl⟩ := Option.map_eq_some_iff.mp hp
    obtain ⟨row', -, rfl⟩ := Option.map_eq_some_iff.mp hq
    exact hst.1
  · intro p hp
    obtain ⟨s, hs, hp⟩ := List.mem_filterMap.mp hp
    obtain ⟨row, hrow, rfl⟩ := Option.map_eq_some_iff.mp hp
    have hmem := List.mem_filter.mp ((List.mem_insertionSort _).mp hs)
    simp only [Bool.and_eq_true, decide_eq_true_eq, Bool.not_eq_true', List.any_eq_false] at hmem
    exact ⟨hmem.1, hmem.2.1.1, List.mem_of_find?_eq_some hrow, by simpa using List.find?_some hrow, hmem.2.2⟩

/-- The extraction adds items behind the others, and all of them are held. -/
theorem extractEvidence_held (u : Unicode) (objective : List Char) (hkept : Kept r) (hheld : Held r r.evidence)
    (hwithin : Within r.evidence) (iteration : ℕ) :
    ∃ more, extractEvidence u objective iteration r = { r with evidence := r.evidence ++ more } ∧
      Held r (r.evidence ++ more) ∧ Within (r.evidence ++ more) := by
  obtain ⟨hdistinct, hopen⟩ := evidenceSources_open hkept iteration
  have hroom : Extraction.Room
      ⟨r.evidence, max 0 (24 - (r.evidence.length : ℤ)), max 0 (24000 - (excerptBytes r.evidence : ℤ))⟩ := by
    obtain ⟨hcount, hbytes⟩ := hwithin
    constructor
    · dsimp only
      omega
    · dsimp only
      omega
    · dsimp only
      omega
  obtain ⟨x, more, hx, hmore, hheld', hroom'⟩ := foldlM_extractSource u objective _ hdistinct hheld hroom hopen
  dsimp only at hmore
  refine ⟨more, ?_, ?_, ?_⟩
  · unfold extractEvidence
    dsimp only
    rw [hx]
    dsimp only
    rw [hmore]
  · rw [hmore] at hheld'
    exact hheld'
  · have hspans := hroom'.spans
    have hbytes := hroom'.bytes
    have hleft := hroom'.left
    rw [hmore] at hspans hbytes
    constructor <;> omega

end HpAgent.Research
