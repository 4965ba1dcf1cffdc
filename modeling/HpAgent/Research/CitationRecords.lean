import HpAgent.Research.EvidenceRecords

/-! # Citations hold

The operations on the records of a research, in any order and as often as one likes.

* `Action`, `run`: the runs.
* `Sound`, `run_sound`: the invariant of every run.
* `records_bounded`: the limits.
* `evidence_quotes`: all evidence quotes its source, also later.
* `citations_hold`: what the verification says. -/

namespace HpAgent.Research

open Library Requirements

variable {r : Records}

inductive Action where
  | addCandidates (iteration : ℕ) (candidates : List Candidate)
  | rank (iteration : ℕ)
  | fetch (iteration : ℕ) (outcomes : List (Option FetchedContent))
  | extractEvidence (objective : List Char) (iteration : ℕ)
  | synthesize (report : List ReportClaim)
  | verifyCitations

section Runs

variable (u : Unicode) (maxFetches : ℕ) (strict : Bool)

def step (r : Records) : Action → Records
  | .addCandidates iteration candidates => addCandidates iteration candidates r
  | .rank iteration => rank iteration r
  | .fetch iteration outcomes => fetch maxFetches iteration outcomes r
  | .extractEvidence objective iteration => extractEvidence u objective iteration r
  | .synthesize report => synthesize strict report r
  | .verifyCitations => verifyCitations r

def records (actions : List Action) : Records := actions.foldl (step u maxFetches strict) .empty

end Runs

/-- What a citation is about is there, and its locator is a copy. -/
def Cites (r : Records) (c : Citation) : Prop :=
  (∃ e ∈ r.evidence, e.evidenceId = c.evidence ∧ c.locator = e.sourceLocator) ∧ ∃ cl ∈ r.claims, cl.ordinal = c.claim

structure Reported (r : Records) : Prop where
  cites : ∀ c ∈ r.citations, Cites r c
  ordinals : r.claims.Pairwise fun a b => a.ordinal ≠ b.ordinal

structure Sound (maxFetches : ℕ) (r : Records) : Prop where
  kept : Kept r
  attempts : attempted r ≤ maxFetches
  held : Held r r.evidence
  within : Within r.evidence
  reported : Reported r

/-- After a step on the sources. -/
theorem Sound.sources {maxFetches : ℕ} {r' : Records} (h : Sound maxFetches r) (hkept : Kept r') (hstays : Stays r r')
    (hattempts : attempted r' ≤ maxFetches) : Sound maxFetches r' := by
  obtain ⟨-, hclaims, hcitations, -⟩ := hstays.report
  refine ⟨hkept, hattempts, ?_, ?_, ⟨?_, ?_⟩⟩
  · rw [hstays.evidence]
    exact ⟨fun e he => (h.held.quoted e he).stays hstays, h.held.apart, h.held.each⟩
  · rw [hstays.evidence]
    exact h.within
  · intro c hc
    rw [hcitations] at hc
    unfold Cites
    rw [hstays.evidence, hclaims]
    exact h.reported.cites c hc
  · rw [hclaims]
    exact h.reported.ordinals

/-! ### The report -/

theorem citedItems_mem {strict : Bool} {evidence items : List EvidenceItem} {ids : List EvidenceId}
    (h : citedItems strict evidence ids = some items) : ∀ e ∈ items, e ∈ evidence := by
  induction ids generalizing items with
  | nil =>
      injection h with h
      subst h
      simp
  | cons id ids ih =>
      unfold citedItems at h
      split at h
      next item hfind =>
        obtain ⟨rest, hrest, rfl⟩ := Option.map_eq_some_iff.mp h
        exact List.forall_mem_cons.mpr ⟨List.mem_of_find?_eq_some hfind, ih hrest⟩
      next =>
        split_ifs at h
        exact ih h

theorem mem_foldl_cite {ordinal : ℕ} {items : List EvidenceItem} {citations : List Citation} {c : Citation}
    (h : c ∈ items.foldl (cite ordinal) citations) :
    c ∈ citations ∨ ∃ e ∈ items, c = ⟨ordinal, e.evidenceId, e.sourceLocator, .pending⟩ := by
  induction items generalizing citations with
  | nil => exact .inl h
  | cons item items ih =>
      cases ih h with
      | inl hmem =>
          unfold cite at hmem
          split at hmem
          next => exact .inl hmem
          next =>
            cases List.mem_append.mp hmem with
            | inl hold => exact .inl hold
            | inr hnew => exact .inr ⟨item, List.mem_cons_self, List.mem_singleton.mp hnew⟩
      | inr hmore =>
          obtain ⟨e, he, heq⟩ := hmore
          exact .inr ⟨e, List.mem_cons_of_mem item he, heq⟩

/-- What a report does not touch. -/
def SameEvidence (r r' : Records) : Prop := r'.sources = r.sources ∧ r'.contents = r.contents ∧ r'.evidence = r.evidence

theorem saveClaim_reported {strict : Bool} {r' : Records} {p : ReportClaim × ℕ} (h : Reported r)
    (hsave : saveClaim strict r p = some r') : Reported r' ∧ SameEvidence r r' := by
  obtain ⟨items, hitems, rfl⟩ := Option.map_eq_some_iff.mp hsave
  have hmore : ∀ cl ∈ r.claims, cl ∈ (if r.claims.any fun c => c.ordinal = p.2 then r.claims
      else r.claims ++ [⟨p.2, p.1.statement, p.1.important, .pending⟩]) := by
    intro cl hcl
    split_ifs
    · exact hcl
    · exact List.mem_append_left _ hcl
  refine ⟨⟨?_, ?_⟩, rfl, rfl, rfl⟩
  · intro c hc
    cases mem_foldl_cite hc with
    | inl hold =>
        obtain ⟨he, cl, hcl, hordinal⟩ := h.cites c hold
        exact ⟨he, cl, hmore cl hcl, hordinal⟩
    | inr hnew =>
        obtain ⟨e, he, rfl⟩ := hnew
        refine ⟨⟨e, citedItems_mem hitems e he, rfl, rfl⟩, ?_⟩
        dsimp only
        split_ifs with hthere
        · obtain ⟨cl, hcl, hordinal⟩ := List.any_eq_true.mp hthere
          exact ⟨cl, hcl, of_decide_eq_true hordinal⟩
        · exact ⟨_, List.mem_append_right _ (List.mem_singleton_self _), rfl⟩
  · dsimp only
    split_ifs with hthere
    · exact h.ordinals
    · refine List.pairwise_append.mpr ⟨h.ordinals, List.pairwise_singleton _ _, ?_⟩
      intro cl hcl new hnew heq
      rw [List.mem_singleton] at hnew
      subst hnew
      exact hthere (List.any_eq_true.mpr ⟨cl, hcl, decide_eq_true heq⟩)

theorem synthesize_reported (strict : Bool) (report : List ReportClaim) (h : Reported r) :
    Reported (synthesize strict report r) ∧ SameEvidence r (synthesize strict report r) := by
  unfold synthesize
  split_ifs
  · exact ⟨h, rfl, rfl, rfl⟩
  · cases hfold : (report.zipIdx 1).foldlM (saveClaim strict) { r with reported := true } with
    | none => exact ⟨h, rfl, rfl, rfl⟩
    | some r' =>
        rw [Option.getD_some]
        have hfirst : Reported { r with reported := true } ∧ SameEvidence r { r with reported := true } :=
          ⟨⟨h.cites, h.ordinals⟩, rfl, rfl, rfl⟩
        refine foldlM_some (fun r' => Reported r' ∧ SameEvidence r r') ?_ hfirst hfold
        intro x p x' hx hsave
        obtain ⟨hreported, hsources, hcontents, hevidence⟩ := saveClaim_reported hx.1 hsave
        obtain ⟨hsources', hcontents', hevidence'⟩ := hx.2
        exact ⟨hreported, hsources.trans hsources', hcontents.trans hcontents', hevidence.trans hevidence'⟩

theorem verifyCitations_reported (h : Reported r) :
    Reported (verifyCitations r) ∧ SameEvidence r (verifyCitations r) := by
  refine ⟨⟨?_, ?_⟩, rfl, rfl, rfl⟩
  · intro c' hc'
    obtain ⟨c, hc, rfl⟩ := List.mem_map.mp hc'
    obtain ⟨he, cl, hcl, hordinal⟩ := h.cites c hc
    exact ⟨he, _, List.mem_map_of_mem hcl, hordinal⟩
  · exact List.pairwise_map.mpr (h.ordinals.imp fun {_ _} hne => hne)

/-- After a step on the report. -/
theorem Sound.report {maxFetches : ℕ} {r' : Records} (h : Sound maxFetches r) (hreported : Reported r')
    (hsame : SameEvidence r r') : Sound maxFetches r' := by
  obtain ⟨hsources, hcontents, hevidence⟩ := hsame
  have hkept : Kept r' := by
    constructor
    · rw [hsources]
      exact h.kept.apart
    · rw [hsources, hcontents]
      exact h.kept.fetched
    · rw [hcontents]
      exact h.kept.named
    · rw [hcontents]
      exact h.kept.single
  refine ⟨hkept, ?_, ?_, ?_, hreported⟩
  · unfold attempted
    rw [hsources]
    exact h.attempts
  · rw [hevidence]
    refine ⟨?_, h.held.apart, h.held.each⟩
    intro e he
    unfold Quoted
    rw [hsources, hcontents]
    exact h.held.quoted e he
  · rw [hevidence]
    exact h.within

/-! ### Every run -/

section Every

variable {u : Unicode} {maxFetches : ℕ} {strict : Bool}

variable (u strict) in
/-- One step keeps the invariant, and adds evidence at most. -/
theorem step_sound (h : Sound maxFetches r) (a : Action) :
    Sound maxFetches (step u maxFetches strict r a) ∧ r.evidence <+: (step u maxFetches strict r a).evidence := by
  have hsame {r' : Records} (heq : r'.evidence = r.evidence) : r.evidence <+: r'.evidence := heq ▸ List.prefix_refl _
  cases a with
  | addCandidates iteration candidates =>
      obtain ⟨hkept, hstays, hcount⟩ := addCandidates_kept h.kept iteration candidates
      exact ⟨h.sources hkept hstays (hcount.trans_le h.attempts), hsame hstays.evidence⟩
  | rank iteration =>
      obtain ⟨hkept, hstays, hcount⟩ := rank_kept h.kept iteration
      exact ⟨h.sources hkept hstays (hcount.trans_le h.attempts), hsame hstays.evidence⟩
  | fetch iteration outcomes =>
      obtain ⟨hkept, hstays, hcount⟩ := fetch_kept h.kept maxFetches iteration outcomes h.attempts
      exact ⟨h.sources hkept hstays hcount, hsame hstays.evidence⟩
  | extractEvidence objective iteration =>
      obtain ⟨more, hextract, hheld, hwithin⟩ := extractEvidence_held u objective h.kept h.held h.within iteration
      change Sound maxFetches (extractEvidence u objective iteration r) ∧
        r.evidence <+: (extractEvidence u objective iteration r).evidence
      rw [hextract]
      refine ⟨⟨⟨h.kept.apart, h.kept.fetched, h.kept.named, h.kept.single⟩, h.attempts, ⟨hheld.quoted, hheld.apart, hheld.each⟩,
        hwithin, ⟨?_, h.reported.ordinals⟩⟩, List.prefix_append _ _⟩
      intro c hc
      obtain ⟨⟨e, he, hcited⟩, hclaim⟩ := h.reported.cites c hc
      exact ⟨⟨e, List.mem_append_left _ he, hcited⟩, hclaim⟩
  | synthesize report =>
      obtain ⟨hreported, hevidence⟩ := synthesize_reported strict report h.reported
      exact ⟨h.report hreported hevidence, hsame hevidence.2.2⟩
  | verifyCitations =>
      obtain ⟨hreported, hevidence⟩ := verifyCitations_reported h.reported
      exact ⟨h.report hreported hevidence, hsame hevidence.2.2⟩

theorem empty_sound : Sound maxFetches .empty :=
  ⟨⟨List.Pairwise.nil, fun _ h => absurd h List.not_mem_nil, fun _ h => absurd h List.not_mem_nil, List.Pairwise.nil⟩,
    Nat.zero_le _, ⟨fun _ h => absurd h List.not_mem_nil, List.Pairwise.nil, fun _ => ⟨Nat.zero_le _, Nat.zero_le _⟩⟩,
    ⟨Nat.zero_le _, Nat.zero_le _⟩, ⟨fun _ h => absurd h List.not_mem_nil, List.Pairwise.nil⟩⟩

variable (u strict) in
theorem foldl_sound (actions : List Action) (h : Sound maxFetches r) :
    Sound maxFetches (actions.foldl (step u maxFetches strict) r) ∧
      r.evidence <+: (actions.foldl (step u maxFetches strict) r).evidence := by
  induction actions generalizing r with
  | nil => exact ⟨h, List.prefix_refl _⟩
  | cons a actions ih =>
      obtain ⟨hstep, hbegun⟩ := step_sound u strict h a
      exact ⟨(ih hstep).1, hbegun.trans (ih hstep).2⟩

variable (u maxFetches strict) in
theorem run_sound (actions : List Action) : Sound maxFetches (records u maxFetches strict actions) :=
  (foldl_sound u strict actions empty_sound).1

end Every

/-- In every run no more sources are tried than allowed, no two sources have one address and no two fetched ones one
content; there are at most 24 items of evidence with 24000 bytes, and of one source at most 6 with 7200. -/
theorem records_bounded (u : Unicode) (maxFetches : ℕ) (strict : Bool) (actions : List Action) :
    let r := records u maxFetches strict actions
    attempted r ≤ maxFetches ∧ r.sources.Pairwise Apart ∧
      (r.evidence.length ≤ 24 ∧ excerptBytes r.evidence ≤ 24000) ∧
      ∀ k, (itemsOf k r.evidence).length ≤ 6 ∧ excerptBytes (itemsOf k r.evidence) ≤ 7200 :=
  have h := run_sound u maxFetches strict actions
  ⟨h.attempts, h.kept.apart, h.within, h.held.each⟩

/-- Evidence is never changed or taken back, and at any later time every item quotes, word for word, a source that is
fetched, in a part of its content that no other item of the source has in common with it. -/
theorem evidence_quotes (u : Unicode) (maxFetches : ℕ) (strict : Bool) (actions later : List Action) :
    let r := records u maxFetches strict actions
    let r' := records u maxFetches strict (actions ++ later)
    r.evidence <+: r'.evidence ∧ (∀ e ∈ r.evidence, Quoted r' e) ∧
      r'.evidence.Pairwise fun e f => e.sourceId = f.sourceId → e.sourceLocator.stop ≤ f.sourceLocator.start := by
  have hbegun := (foldl_sound u strict later (run_sound u maxFetches strict actions)).2
  have hlater := run_sound u maxFetches strict (actions ++ later)
  have happend : records u maxFetches strict (actions ++ later) =
      later.foldl (step u maxFetches strict) (records u maxFetches strict actions) := List.foldl_append
  dsimp only
  rw [happend] at hlater ⊢
  exact ⟨hbegun, fun e he => hlater.held.quoted e (hbegun.subset he), hlater.held.apart⟩

/-! ### The verification -/

/-- The only one is found. -/
theorem find?_only {α : Type} {l : List α} {p : α → Bool} {a : α} (ha : a ∈ l) (hp : p a = true)
    (honly : ∀ b ∈ l, p b = true → b = a) : l.find? p = some a := by
  cases hfind : l.find? p with
  | none => exact absurd hp (by simpa using List.find?_eq_none.mp hfind a ha)
  | some b => rw [honly b (List.mem_of_find?_eq_some hfind) (List.find?_some hfind)]

/-- Elements that differ in something are told apart by it. -/
theorem pairwise_only {α β : Type} {f : α → β} {l : List α} (h : l.Pairwise fun a b => f a ≠ f b) {a b : α} (ha : a ∈ l)
    (hb : b ∈ l) (heq : f b = f a) : b = a :=
  List.inj_on_of_nodup_map (List.pairwise_map.mpr h) hb ha heq

/-- What the join says of a citation. -/
structure Row (r : Records) (c : Citation) (row : CitationRow) : Prop where
  found : joined r c = some row
  citation : row.citation = c
  item : row.item ∈ r.evidence ∧ row.item.evidenceId = c.evidence
  claim : row.claim ∈ r.claims ∧ row.claim.ordinal = c.claim
  holds : row.locatorMatches = true

theorem Sound.row {maxFetches : ℕ} (h : Sound maxFetches r) {c : Citation} (hc : c ∈ r.citations) :
    ∃ row, Row r c row := by
  obtain ⟨⟨e, he, hid, hlocator⟩, cl, hcl, hordinal⟩ := h.reported.cites c hc
  obtain ⟨s, hs, hfetched, content, hcontent, hquotes⟩ := h.held.quoted e he
  have hitem : (r.evidence.find? fun e => e.evidenceId = c.evidence) = some e :=
    find?_only he (decide_eq_true hid) fun e' he' hid' =>
      pairwise_only h.held.ids he he' ((of_decide_eq_true hid').trans hid.symm)
  have hclaim : (r.claims.find? fun cl => cl.ordinal = c.claim) = some cl :=
    find?_only hcl (decide_eq_true hordinal) fun cl' hcl' hordinal' =>
      pairwise_only h.reported.ordinals hcl hcl' ((of_decide_eq_true hordinal').trans hordinal.symm)
  have hsource : (r.sources.find? fun s => s.sourceId = e.sourceId) = some s :=
    find?_only hs (decide_eq_true hquotes.source.1) fun s' hs' hid' =>
      h.kept.unique hs' hs ((of_decide_eq_true hid').trans hquotes.source.1.symm)
  have href : content.contentRef = e.contentRef := hquotes.content.1
  have hrow : (r.contents.find? fun row => row.contentRef = e.contentRef) = some content := by
    refine find?_only hcontent (decide_eq_true href) fun row' hrow' href' => pairwise_only h.kept.single hcontent hrow' ?_
    rw [← h.kept.named row' hrow', ← h.kept.named content hcontent, href]
    exact of_decide_eq_true href'
  refine ⟨⟨c, e, cl, s, content⟩, ?_, rfl, ⟨he, hid⟩, ⟨hcl, hordinal⟩, ?_⟩
  · unfold joined
    rw [hitem, hclaim]
    dsimp only [Option.bind_eq_bind, Option.bind_some]
    rw [hsource, hrow]
    rfl
  · have hcontentRef : s.contentRef = some e.contentRef := by
      rw [(h.kept.fetched s hs hfetched).1, hquotes.source.1, ← href, h.kept.named content hcontent, hquotes.source.2]
    obtain ⟨hplace, hstop, -⟩ := hquotes.place
    simp only [CitationRow.locatorMatches, hlocator, hquotes.source.2, hcontentRef, hquotes.uri, hquotes.content.2, hplace,
      hstop, hquotes.excerpt.1, hquotes.excerpt.2, decide_true, Bool.and_true]

/-- A claim of a source that is not good enough. -/
def weakly (cl : ClaimRow) (e : EvidenceItem) : Bool := cl.important && 1 < e.sourceQuality

theorem Row.status {c : Citation} {row : CitationRow} (h : Row r c row) :
    row.status = if weakly row.claim row.item then .weakSource else .verified := by
  rw [CitationRow.status, h.holds]
  rfl

/-- The item is cited for the claim. -/
def CitedFor (r : Records) (k : ℕ) (e : EvidenceItem) : Prop :=
  e ∈ r.evidence ∧ ∃ c ∈ r.citations, c.claim = k ∧ c.evidence = e.evidenceId

theorem Sound.states {maxFetches : ℕ} (h : Sound maxFetches r) {cl : ClaimRow} (hcl : cl ∈ r.claims)
    (st : CitationStatus) :
    st ∈ claimStates r cl.ordinal ↔ ∃ e, CitedFor r cl.ordinal e ∧ st = if weakly cl e then .weakSource else .verified := by
  unfold claimStates citationRows
  simp only [List.mem_map, List.mem_filter, List.mem_filterMap, decide_eq_true_eq]
  constructor
  · rintro ⟨row, ⟨⟨c, hc, hfound⟩, hclaim⟩, rfl⟩
    obtain ⟨row', hrow⟩ := h.row hc
    have heq : row = row' := Option.some.inj (hfound.symm.trans hrow.found)
    subst heq
    rw [hrow.citation] at hclaim
    have hsame : row.claim = cl := pairwise_only h.reported.ordinals hcl hrow.claim.1 (hrow.claim.2.trans hclaim)
    refine ⟨row.item, ⟨hrow.item.1, c, hc, hclaim, hrow.item.2.symm⟩, ?_⟩
    rw [hrow.status, hsame]
  · rintro ⟨e, ⟨he, c, hc, hclaim, hid⟩, rfl⟩
    obtain ⟨row, hrow⟩ := h.row hc
    have hitem : row.item = e := pairwise_only h.held.ids he hrow.item.1 (hrow.item.2.trans hid)
    have hsame : row.claim = cl := pairwise_only h.reported.ordinals hcl hrow.claim.1 (hrow.claim.2.trans hclaim)
    refine ⟨row, ⟨⟨c, hc, hrow.found⟩, by rw [hrow.citation, hclaim]⟩, ?_⟩
    rw [hrow.status, hitem, hsame]

/-- A claim is supported if it cites something and, where it is important, nothing but good sources. -/
theorem Sound.supported {maxFetches : ℕ} (h : Sound maxFetches r) {cl : ClaimRow} (hcl : cl ∈ r.claims) :
    (claimStatus (claimStates r cl.ordinal) = .unsupported ↔ ∀ e, ¬CitedFor r cl.ordinal e) ∧
    (claimStatus (claimStates r cl.ordinal) = .supported ↔
      (∃ e, CitedFor r cl.ordinal e) ∧ ∀ e, CitedFor r cl.ordinal e → weakly cl e = false) := by
  have hstates := h.states hcl
  generalize claimStates r cl.ordinal = statuses at hstates
  have hvalid : ∀ st ∈ statuses, st ≠ .invalid := by
    intro st hst
    obtain ⟨e, -, rfl⟩ := (hstates st).mp hst
    split <;> decide
  have hnone : statuses.all (· = .invalid) = true ↔ ∀ e, ¬CitedFor r cl.ordinal e := by
    rw [List.all_eq_true]
    constructor
    · intro hall e he
      have hmem := (hstates _).mpr ⟨e, he, rfl⟩
      exact hvalid _ hmem (of_decide_eq_true (hall _ hmem))
    · intro hno st hst
      obtain ⟨e, he, -⟩ := (hstates st).mp hst
      exact absurd he (hno e)
  have hweak : (statuses.any fun s => s = .invalid || s = .weakSource) = true ↔
      ∃ e, CitedFor r cl.ordinal e ∧ weakly cl e = true := by
    rw [List.any_eq_true]
    constructor
    · rintro ⟨st, hst, heq⟩
      obtain ⟨e, he, rfl⟩ := (hstates st).mp hst
      refine ⟨e, he, ?_⟩
      by_contra hnot
      rw [if_neg hnot] at heq
      cases heq
    · rintro ⟨e, he, hw⟩
      exact ⟨.weakSource, (hstates _).mpr ⟨e, he, by rw [if_pos hw]⟩, rfl⟩
  unfold claimStatus
  split
  next hall =>
    refine ⟨⟨fun _ => hnone.mp hall, fun _ => rfl⟩, ⟨fun hsupported => (by cases hsupported), ?_⟩⟩
    rintro ⟨⟨e, he⟩, -⟩
    exact absurd he (hnone.mp hall e)
  next hall =>
    have hsome : ∃ e, CitedFor r cl.ordinal e := by
      by_contra hno
      exact hall (hnone.mpr (not_exists.mp hno))
    split
    next hany =>
      refine ⟨⟨fun hno => (by cases hno), fun hno => absurd hsome (not_exists.mpr hno)⟩,
        ⟨fun hsupported => (by cases hsupported), ?_⟩⟩
      rintro ⟨-, hgood⟩
      obtain ⟨e, he, hw⟩ := hweak.mp hany
      rw [hgood e he] at hw
      cases hw
    next hany =>
      refine ⟨⟨fun hno => (by cases hno), fun hno => absurd hsome (not_exists.mpr hno)⟩, ⟨fun _ => ⟨hsome, ?_⟩, fun _ => rfl⟩⟩
      intro e he
      by_contra hw
      exact hany (hweak.mpr ⟨e, he, by simpa using hw⟩)

/-- Whatever was done before, the verification finds no citation invalid: it is weak if the claim is important and the
tier that is recorded with the item of evidence above 1, and else verified.  A claim is unsupported if it cites nothing, and supported if it cites
something and none of it is weak; the report needs no review if and only if all its claims are supported. -/
theorem citations_hold (u : Unicode) (maxFetches : ℕ) (strict : Bool) (actions : List Action) :
    let r := records u maxFetches strict actions
    let v := verifyCitations r
    (∀ c ∈ v.citations, ∃ cl ∈ r.claims, ∃ e ∈ r.evidence, cl.ordinal = c.claim ∧ e.evidenceId = c.evidence ∧
      c.status = if weakly cl e then .weakSource else .verified) ∧
    (∀ cl ∈ v.claims,
      (cl.evidenceStatus = .unsupported ↔ ∀ e, ¬CitedFor r cl.ordinal e) ∧
      (cl.evidenceStatus = .supported ↔
        (∃ e, CitedFor r cl.ordinal e) ∧ ∀ e, CitedFor r cl.ordinal e → weakly cl e = false)) ∧
    (r.reported = true → (v.needsReview = some false ↔ ∀ cl ∈ v.claims, cl.evidenceStatus = .supported)) := by
  intro r v
  have h : Sound maxFetches r := run_sound _ _ _ actions
  refine ⟨?_, ?_, ?_⟩
  · intro c' hc'
    obtain ⟨c, hc, rfl⟩ := List.mem_map.mp hc'
    obtain ⟨row, hrow⟩ := h.row hc
    refine ⟨row.claim, hrow.claim.1, row.item, hrow.item.1, hrow.claim.2, hrow.item.2, ?_⟩
    dsimp only
    rw [hrow.found, Option.elim_some, hrow.status]
  · intro cl' hcl'
    obtain ⟨cl, hcl, rfl⟩ := List.mem_map.mp hcl'
    exact h.supported hcl
  · intro hreported
    have hreview : v.needsReview = some (((citationRows r).any fun row => row.status ≠ .verified) ||
        v.claims.any fun c => c.evidenceStatus ≠ .supported) := by
      change (if r.reported then _ else _) = _
      rw [if_pos hreported]
      rfl
    rw [hreview, Option.some.injEq, Bool.or_eq_false_iff, List.any_eq_false, List.any_eq_false]
    constructor
    · intro hno cl hcl
      simpa using hno.2 cl hcl
    · intro hall
      refine ⟨?_, fun cl hcl => by simpa using hall cl hcl⟩
      intro row hmem
      obtain ⟨c, hc, hfound⟩ := List.mem_filterMap.mp hmem
      obtain ⟨row', hrow⟩ := h.row hc
      have heq : row = row' := Option.some.inj (hfound.symm.trans hrow.found)
      subst heq
      have hsupported := hall _ (List.mem_map_of_mem hrow.claim.1)
      have hgood := ((h.supported hrow.claim.1).2.mp hsupported).2 row.item
        ⟨hrow.item.1, c, hc, hrow.claim.2.symm, hrow.item.2.symm⟩
      rw [hrow.status, hgood]
      decide

end HpAgent.Research
