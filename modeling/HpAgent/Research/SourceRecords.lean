import HpAgent.Research.Records

/-! # Sources stay apart

What the operations on the sources of a research keep: no two of them have one address, no two that are fetched have one
content, what is fetched has its content and is not touched again, and no more are tried than allowed.

* `Apart`, `Kept`: the invariant.
* `Stays`: what is fetched stays.
* `addCandidates_kept`, `rank_kept`, `fetch_kept`: the operations. -/

namespace HpAgent.Research

open Library Requirements

variable {r : Records}

/-- Two sources are different ones, of different addresses, and their contents differ once they are fetched. -/
def Apart (s t : SourceRecord) : Prop :=
  s.sourceId ≠ t.sourceId ∧ s.canonicalUri ≠ t.canonicalUri ∧
    (s.fetchStatus = .fetched → t.fetchStatus = .fetched → s.contentHash ≠ t.contentHash)

theorem Apart.symm {s t : SourceRecord} (h : Apart s t) : Apart t s :=
  ⟨h.1.symm, h.2.1.symm, fun ht hs => (h.2.2 hs ht).symm⟩

/-- The sources with their contents. -/
structure Kept (r : Records) : Prop where
  apart : r.sources.Pairwise Apart
  fetched : ∀ s ∈ r.sources, s.fetchStatus = .fetched →
    s.contentRef = some s.sourceId ∧ ∃ row ∈ r.contents, row.sourceId = s.sourceId
  named : ∀ row ∈ r.contents, row.contentRef = row.sourceId
  single : r.contents.Pairwise fun row row' => row.sourceId ≠ row'.sourceId

/-- What is fetched stays as it is, and so does everything taken from it. -/
structure Stays (r r' : Records) : Prop where
  sources : ∀ s ∈ r.sources, s.fetchStatus = .fetched →
    ∃ s' ∈ r'.sources, s'.sourceId = s.sourceId ∧ s'.canonicalUri = s.canonicalUri ∧ s'.fetchStatus = .fetched
  contents : ∀ row ∈ r.contents, row ∈ r'.contents
  evidence : r'.evidence = r.evidence
  report : r'.reported = r.reported ∧ r'.claims = r.claims ∧ r'.citations = r.citations ∧ r'.needsReview = r.needsReview

theorem Stays.refl (r : Records) : Stays r r :=
  ⟨fun s hs hf => ⟨s, hs, rfl, rfl, hf⟩, fun _ h => h, rfl, rfl, rfl, rfl, rfl⟩

theorem Stays.trans {r' r'' : Records} (h : Stays r r') (h' : Stays r' r'') : Stays r r'' := by
  refine ⟨?_, fun row hrow => h'.contents row (h.contents row hrow), h'.evidence.trans h.evidence, ?_⟩
  · intro s hs hf
    obtain ⟨s', hs', hid, huri, hf'⟩ := h.sources s hs hf
    obtain ⟨s'', hs'', hid', huri', hf''⟩ := h'.sources s' hs' hf'
    exact ⟨s'', hs'', hid'.trans hid, huri'.trans huri, hf''⟩
  · obtain ⟨h1, h2, h3, h4⟩ := h.report
    obtain ⟨h1', h2', h3', h4'⟩ := h'.report
    exact ⟨h1'.trans h1, h2'.trans h2, h3'.trans h3, h4'.trans h4⟩

/-! ### Changes that sources do not differ by -/

/-- A change of the tier or the metadata. -/
def Cosmetic (f : SourceRecord → SourceRecord) : Prop :=
  ∀ s, (f s).sourceId = s.sourceId ∧ (f s).canonicalUri = s.canonicalUri ∧ (f s).fetchStatus = s.fetchStatus ∧
    (f s).contentRef = s.contentRef ∧ (f s).contentHash = s.contentHash

theorem Cosmetic.apart {f : SourceRecord → SourceRecord} (hf : Cosmetic f) {s t : SourceRecord} (h : Apart s t) :
    Apart (f s) (f t) := by
  obtain ⟨hid, huri, hstatus, -, hhash⟩ := hf s
  obtain ⟨hid', huri', hstatus', -, hhash'⟩ := hf t
  refine ⟨?_, ?_, ?_⟩
  · rw [hid, hid']
    exact h.1
  · rw [huri, huri']
    exact h.2.1
  · rw [hstatus, hstatus', hhash, hhash']
    exact h.2.2

theorem attempted_cosmetic {f : SourceRecord → SourceRecord} (hf : Cosmetic f) (r : Records) :
    attempted { r with sources := r.sources.map f } = attempted r := by
  unfold attempted
  dsimp only
  rw [List.filter_map, List.length_map]
  congr 2
  funext s
  rw [Function.comp_apply, (hf s).2.2.1]

theorem Kept.cosmetic (h : Kept r) {f : SourceRecord → SourceRecord} (hf : Cosmetic f) :
    Kept { r with sources := r.sources.map f } ∧ Stays r { r with sources := r.sources.map f } := by
  refine ⟨⟨?_, ?_, h.named, h.single⟩, ⟨?_, fun _ hrow => hrow, rfl, rfl, rfl, rfl, rfl⟩⟩
  · exact List.pairwise_map.mpr (h.apart.imp fun hst => hf.apart hst)
  · intro s' hs' hfetched
    obtain ⟨s, hs, heq⟩ := List.mem_map.mp hs'
    subst heq
    obtain ⟨hid, -, hstatus, href, -⟩ := hf s
    rw [hid, href]
    exact h.fetched s hs (hstatus.symm.trans hfetched)
  · intro s hs hfetched
    exact ⟨f s, List.mem_map_of_mem hs, (hf s).1, (hf s).2.1, (hf s).2.2.1.trans hfetched⟩

theorem rank_kept (h : Kept r) (iteration : ℕ) :
    Kept (rank iteration r) ∧ Stays r (rank iteration r) ∧ attempted (rank iteration r) = attempted r := by
  have hf : Cosmetic fun s =>
      if s.iteration = iteration then { s with sourceTier := if s.preferredDomain = some true then 0 else 2 } else s := by
    intro s
    dsimp only
    split <;> exact ⟨rfl, rfl, rfl, rfl, rfl⟩
  exact ⟨(h.cosmetic hf).1, (h.cosmetic hf).2, attempted_cosmetic hf r⟩

/-! ### Candidates -/

theorem addCandidate_kept (h : Kept r) {iteration : ℕ} {c : Candidate} {sources : List SourceRecord}
    (hadd : addCandidate iteration r.sources c = some sources) :
    Kept { r with sources := sources } ∧ Stays r { r with sources := sources } ∧
      attempted { r with sources := sources } = attempted r := by
  unfold addCandidate at hadd
  split_ifs at hadd with huri hid
  · injection hadd with hadd
    subst hadd
    have hf : Cosmetic fun s => if s.canonicalUri = c.canonicalUri then
        { s with preferredDomain := c.preferredDomain.or s.preferredDomain } else s := by
      intro s
      dsimp only
      split <;> exact ⟨rfl, rfl, rfl, rfl, rfl⟩
    exact ⟨(h.cosmetic hf).1, (h.cosmetic hf).2, attempted_cosmetic hf r⟩
  · injection hadd with hadd
    subst hadd
    simp only [List.any_eq_true, decide_eq_true_eq, not_exists, not_and] at huri hid
    refine ⟨⟨?_, ?_, h.named, h.single⟩, ⟨?_, fun _ hrow => hrow, rfl, rfl, rfl, rfl, rfl⟩, ?_⟩
    · refine List.pairwise_append.mpr ⟨h.apart, List.pairwise_singleton _ _, ?_⟩
      intro s hs t ht
      rw [List.mem_singleton] at ht
      subst ht
      refine ⟨hid s hs, huri s hs, ?_⟩
      intro _ hfetched
      cases hfetched
    · intro s hs hfetched
      cases List.mem_append.mp hs with
      | inl hold => exact h.fetched s hold hfetched
      | inr hnew =>
          rw [List.mem_singleton] at hnew
          subst hnew
          cases hfetched
    · intro s hs hfetched
      exact ⟨s, List.mem_append_left _ hs, rfl, rfl, hfetched⟩
    · simp [attempted, discoveredSource]

/-- What every step keeps holds at the end. -/
theorem foldlM_some {α β : Type} {f : β → α → Option β} (P : β → Prop) (hstep : ∀ b a b', P b → f b a = some b' → P b')
    {l : List α} {b b' : β} (hb : P b) (h : l.foldlM f b = some b') : P b' := by
  induction l generalizing b with
  | nil =>
      rw [List.foldlM_nil] at h
      injection h with h
      exact h ▸ hb
  | cons a l ih =>
      rw [List.foldlM_cons] at h
      obtain ⟨c, hc, hrest⟩ := Option.bind_eq_some_iff.mp h
      exact ih (hstep b a c hb hc) hrest

theorem addCandidates_kept (h : Kept r) (iteration : ℕ) (candidates : List Candidate) :
    Kept (addCandidates iteration candidates r) ∧ Stays r (addCandidates iteration candidates r) ∧
      attempted (addCandidates iteration candidates r) = attempted r := by
  unfold addCandidates
  split
  next sources hfold =>
    refine foldlM_some (fun sources => Kept { r with sources := sources } ∧ Stays r { r with sources := sources } ∧
      attempted { r with sources := sources } = attempted r) ?_ ⟨h, Stays.refl r, rfl⟩ hfold
    intro sources c more hsources hadd
    obtain ⟨hkept, hstays, hcount⟩ := addCandidate_kept hsources.1 hadd
    exact ⟨hkept, hsources.2.1.trans hstays, hcount.trans hsources.2.2⟩
  next => exact ⟨h, Stays.refl r, rfl⟩

/-! ### Fetching -/

section Update

variable {sourceId : ℕ} {f : SourceRecord → SourceRecord} {sources : List SourceRecord}

theorem mem_updateSource {s' : SourceRecord} :
    s' ∈ updateSource sourceId f sources ↔ ∃ s ∈ sources, (if s.sourceId = sourceId then f s else s) = s' := List.mem_map

/-- Sources stay apart if the changed one is apart from the others. -/
theorem pairwise_updateSource (h : sources.Pairwise Apart)
    (hf : ∀ s ∈ sources, ∀ t ∈ sources, s.sourceId ≠ sourceId → t.sourceId = sourceId → Apart s t → Apart s (f t)) :
    (updateSource sourceId f sources).Pairwise Apart := by
  refine List.pairwise_map.mpr (h.imp_of_mem ?_)
  intro s t hs ht hst
  by_cases hsid : s.sourceId = sourceId
  · have htid : t.sourceId ≠ sourceId := fun htid => hst.1 (hsid.trans htid.symm)
    rw [if_pos hsid, if_neg htid]
    exact (hf t ht s hs htid hsid hst.symm).symm
  · rw [if_neg hsid]
    by_cases htid : t.sourceId = sourceId
    · rw [if_pos htid]
      exact hf s hs t ht hsid htid hst
    · rw [if_neg htid]
      exact hst

/-- One source at most is changed. -/
theorem filter_updateSource_le (h : sources.Pairwise Apart) (p : SourceRecord → Bool) :
    ((updateSource sourceId f sources).filter p).length ≤ (sources.filter p).length + 1 := by
  simp only [← List.countP_eq_length_filter]
  induction sources with
  | nil => exact Nat.zero_le _
  | cons s sources ih =>
      obtain ⟨hhead, htail⟩ := List.pairwise_cons.mp h
      change List.countP p ((if s.sourceId = sourceId then f s else s) :: updateSource sourceId f sources) ≤ _
      by_cases hs : s.sourceId = sourceId
      · have hrest : updateSource sourceId f sources = sources := by
          refine (List.map_congr_left ?_).trans (List.map_id _)
          intro t ht
          rw [if_neg (fun htid => (hhead t ht).1 (hs.trans htid.symm))]
          rfl
        rw [if_pos hs, hrest, List.countP_cons, List.countP_cons]
        split <;> split <;> omega
      · rw [if_neg hs, List.countP_cons, List.countP_cons]
        have := ih htail
        omega

end Update

/-- The source was found and not tried yet. -/
def Waiting (r : Records) (sourceId : ℕ) : Prop := ∃ s ∈ r.sources, s.sourceId = sourceId ∧ s.fetchStatus = .discovered

/-- The source of an id. -/
theorem Kept.unique (h : Kept r) {s t : SourceRecord} (hs : s ∈ r.sources) (ht : t ∈ r.sources)
    (hid : s.sourceId = t.sourceId) : s = t := by
  have hids : (r.sources.map (·.sourceId)).Nodup := List.pairwise_map.mpr (h.apart.imp fun hst => hst.1)
  exact List.inj_on_of_nodup_map hids hs ht hid

/-- What one source of the fetching does. -/
structure Fetches (sourceId : ℕ) (r r' : Records) : Prop where
  kept : Kept r'
  stays : Stays r r'
  others : ∀ k, k ≠ sourceId → Waiting r k → Waiting r' k
  count : attempted r' ≤ attempted r + 1

/-- A change of a waiting source that keeps it apart from the others and does not say it is fetched without a content. -/
theorem Kept.update (h : Kept r) {sourceId : ℕ} (hwaiting : Waiting r sourceId)
    {f : SourceRecord → SourceRecord} {contents : List ContentRow}
    (hid : ∀ s, (f s).sourceId = s.sourceId)
    (happart : ∀ s ∈ r.sources, ∀ t ∈ r.sources, s.sourceId ≠ sourceId → t.sourceId = sourceId → Apart s t → Apart s (f t))
    (hcontent : ∀ s, (f s).fetchStatus = .fetched → (f s).contentRef = some s.sourceId ∧
      (s.sourceId = sourceId → ∃ row ∈ contents, row.sourceId = s.sourceId))
    (hnamed : ∀ row ∈ contents, row.contentRef = row.sourceId)
    (hsingle : contents.Pairwise fun row row' => row.sourceId ≠ row'.sourceId)
    (hmore : ∀ row ∈ r.contents, row ∈ contents) :
    Fetches sourceId r { r with sources := updateSource sourceId f r.sources, contents := contents } := by
  refine ⟨⟨pairwise_updateSource h.apart happart, ?_, hnamed, hsingle⟩, ⟨?_, hmore, rfl, rfl, rfl, rfl, rfl⟩, ?_,
    filter_updateSource_le h.apart _⟩
  · intro s' hs' hfetched
    obtain ⟨s, hs, heq⟩ := mem_updateSource.mp hs'
    subst heq
    by_cases hsid : s.sourceId = sourceId
    · rw [if_pos hsid] at hfetched ⊢
      rw [hid]
      exact ⟨(hcontent s hfetched).1, (hcontent s hfetched).2 hsid⟩
    · rw [if_neg hsid] at hfetched ⊢
      obtain ⟨href, row, hrow, hrowid⟩ := h.fetched s hs hfetched
      exact ⟨href, row, hmore row hrow, hrowid⟩
  · intro s hs hfetched
    have hsid : s.sourceId ≠ sourceId := by
      intro hsid
      obtain ⟨t, ht, htid, hdiscovered⟩ := hwaiting
      rw [h.unique hs ht (hsid.trans htid.symm), hdiscovered] at hfetched
      cases hfetched
    exact ⟨s, mem_updateSource.mpr ⟨s, hs, if_neg hsid⟩, rfl, rfl, hfetched⟩
  · intro k hk hwait
    obtain ⟨s, hs, hsid, hdiscovered⟩ := hwait
    exact ⟨s, mem_updateSource.mpr ⟨s, hs, if_neg (by rw [hsid]; exact hk)⟩, hsid, hdiscovered⟩

theorem markFetchFailed_fetches (h : Kept r) {sourceId : ℕ} (hwaiting : Waiting r sourceId) :
    Fetches sourceId r (markFetchFailed sourceId r) := by
  refine h.update hwaiting (f := fun s => { s with fetchStatus := .failed }) (fun _ => rfl) ?_ ?_ h.named h.single
    (fun _ hrow => hrow)
  · intro s _ t _ _ _ hst
    refine ⟨hst.1, hst.2.1, ?_⟩
    intro _ hfailed
    cases hfailed
  · intro s hfailed
    cases hfailed

theorem addContent_spec (sourceId : ℕ) (text : List Char) {contents : List ContentRow}
    (hnamed : ∀ row ∈ contents, row.contentRef = row.sourceId)
    (hsingle : contents.Pairwise fun row row' => row.sourceId ≠ row'.sourceId) :
    (∃ row ∈ addContent sourceId text contents, row.sourceId = sourceId) ∧
      (∀ row ∈ addContent sourceId text contents, row.contentRef = row.sourceId) ∧
      ((addContent sourceId text contents).Pairwise fun row row' => row.sourceId ≠ row'.sourceId) ∧
      ∀ row ∈ contents, row ∈ addContent sourceId text contents := by
  unfold addContent
  split
  next hthere =>
    obtain ⟨row, hrow, hid⟩ := List.any_eq_true.mp hthere
    exact ⟨⟨row, hrow, of_decide_eq_true hid⟩, hnamed, hsingle, fun _ h => h⟩
  next hthere =>
    refine ⟨⟨_, List.mem_append_right _ (List.mem_singleton_self _), rfl⟩,
      List.forall_mem_append.mpr ⟨hnamed, List.forall_mem_singleton.mpr rfl⟩, ?_, fun _ h => List.mem_append_left _ h⟩
    refine List.pairwise_append.mpr ⟨hsingle, List.pairwise_singleton _ _, ?_⟩
    intro row hrow row' hrow' hid
    rw [List.mem_singleton] at hrow'
    subst hrow'
    exact hthere (List.any_eq_true.mpr ⟨row, hrow, decide_eq_true hid⟩)

theorem storeContent_fetches {r' : Records} (h : Kept r) {sourceId : ℕ} {c : FetchedContent} (hwaiting : Waiting r sourceId)
    (hstore : storeContent sourceId c r = some r') : Fetches sourceId r r' := by
  unfold storeContent at hstore
  split at hstore
  next => cases hstore
  next hthere =>
    split at hstore
    next hduplicate =>
      injection hstore with hstore
      subst hstore
      refine h.update hwaiting (fun _ => rfl) ?_ ?_ h.named h.single (fun _ hrow => hrow)
      · intro s _ t _ _ _ hst
        refine ⟨hst.1, hst.2.1, ?_⟩
        intro _ hdup
        cases hdup
      · intro s hdup
        cases hdup
    next hduplicate =>
      split at hstore
      next => cases hstore
      next htaken =>
        injection hstore with hstore
        subst hstore
        simp only [List.any_eq_true, not_exists, not_and, Bool.not_eq_true] at hduplicate
        simp only [List.any_eq_true, Bool.and_eq_true, decide_eq_true_eq, not_exists, not_and] at htaken
        obtain ⟨hrow, hnamed, hsingle, hmore⟩ := addContent_spec sourceId c.text h.named h.single
        refine h.update hwaiting (fun _ => rfl) ?_ ?_ hnamed hsingle hmore
        · intro s hs t _ hsid _ hst
          have hother := hduplicate s hs
          refine ⟨hst.1, fun huri => htaken s hs huri hsid, ?_⟩
          intro hfetched _ hhash
          have hdup : isDuplicate sourceId c s = true := by
            unfold isDuplicate
            rw [hhash, hfetched]
            simp [markFetched, hsid]
          rw [hdup] at hother
          cases hother
        · intro s _
          refine ⟨rfl, ?_⟩
          intro hsid
          rw [hsid]
          exact hrow

theorem fetchOne_fetches (h : Kept r) (p : ℕ × Option FetchedContent) (hwaiting : Waiting r p.1) :
    Fetches p.1 r (fetchOne r p) := by
  unfold fetchOne
  cases p.2 with
  | none => exact markFetchFailed_fetches h hwaiting
  | some c =>
      dsimp only
      cases hstore : storeContent p.1 c r with
      | none => exact markFetchFailed_fetches h hwaiting
      | some r' => exact storeContent_fetches h hwaiting hstore

theorem foldl_fetchOne (h : Kept r) (tries : List (ℕ × Option FetchedContent))
    (hdistinct : (tries.map Prod.fst).Nodup) (hwaiting : ∀ p ∈ tries, Waiting r p.1) :
    Kept (tries.foldl fetchOne r) ∧ Stays r (tries.foldl fetchOne r) ∧
      attempted (tries.foldl fetchOne r) ≤ attempted r + tries.length := by
  induction tries generalizing r with
  | nil => exact ⟨h, Stays.refl r, Nat.le_refl _⟩
  | cons p tries ih =>
      obtain ⟨hhead, htail⟩ := List.nodup_cons.mp hdistinct
      have hone := fetchOne_fetches h p (hwaiting p List.mem_cons_self)
      have hrest : ∀ q ∈ tries, Waiting (fetchOne r p) q.1 := by
        intro q hq
        refine hone.others q.1 ?_ (hwaiting q (List.mem_cons_of_mem p hq))
        intro heq
        exact hhead (List.mem_map.mpr ⟨q, hq, heq⟩)
      obtain ⟨hkept, hstays, hcount⟩ := ih hone.kept htail hrest
      refine ⟨hkept, hone.stays.trans hstays, ?_⟩
      have := hone.count
      rw [List.foldl_cons, List.length_cons]
      omega

theorem map_fst_zip_sublist {α β : Type} (l : List α) (m : List β) : List.Sublist ((l.zip m).map Prod.fst) l := by
  induction l generalizing m with
  | nil => exact List.nil_sublist _
  | cons a l ih =>
      cases m with
      | nil => exact List.nil_sublist _
      | cons b m => exact (ih m).cons_cons a

theorem fetch_kept (h : Kept r) (maxFetches iteration : ℕ) (outcomes : List (Option FetchedContent))
    (hcount : attempted r ≤ maxFetches) :
    Kept (fetch maxFetches iteration outcomes r) ∧ Stays r (fetch maxFetches iteration outcomes r) ∧
      attempted (fetch maxFetches iteration outcomes r) ≤ maxFetches := by
  have hrows : ∀ s ∈ fetchCandidates (maxFetches - attempted r) iteration r, s ∈ r.sources ∧ s.fetchStatus = .discovered := by
    intro s hs
    have hmem := (List.mem_insertionSort fetchBefore).mp (List.mem_of_mem_take hs)
    simp only [List.mem_filter, Bool.and_eq_true, decide_eq_true_eq] at hmem
    exact ⟨hmem.1, hmem.2.1⟩
  have hdistinct : ((fetchCandidates (maxFetches - attempted r) iteration r).map (·.sourceId)).Nodup := by
    have hfiltered := h.apart.filter fun s => s.fetchStatus = .discovered && s.iteration = iteration
    have hsorted := (List.perm_insertionSort fetchBefore _).symm.pairwise hfiltered fun {_ _} h => Apart.symm h
    exact List.pairwise_map.mpr ((hsorted.sublist (List.take_sublist _ _)).imp fun hst => hst.1)
  have hlength : (fetchCandidates (maxFetches - attempted r) iteration r).length ≤ maxFetches - attempted r :=
    List.length_take_le _ _
  unfold fetch
  dsimp only
  have hpart := map_fst_zip_sublist ((fetchCandidates (maxFetches - attempted r) iteration r).map (·.sourceId)) outcomes
  have htries := foldl_fetchOne h
    (((fetchCandidates (maxFetches - attempted r) iteration r).map (·.sourceId)).zip outcomes) (hdistinct.sublist hpart) (by
      intro p hp
      have hfst := hpart.subset (List.mem_map_of_mem hp)
      obtain ⟨s, hs, hid⟩ := List.mem_map.mp hfst
      exact ⟨s, (hrows s hs).1, hid, (hrows s hs).2⟩)
  refine ⟨htries.1, htries.2.1, ?_⟩
  have hle := htries.2.2
  rw [List.length_zip, List.length_map] at hle
  omega

end HpAgent.Research
