import HpAgent.Research.Selections

/-! # The records of one research

What a research of a Run keeps: the sources found for it and their contents, the evidence taken from them, and the claims of
its report with what they cite.

* `addCandidates`, `rank`, `fetch`: the sources, from the candidates of a search to their contents.
* `extractEvidence`: passages of the sources fetched, within what is left of the limits.
* `synthesize`, `verifyCitations`: the report, and whether its citations hold.

The rows of one research are kept; that they belong to its Run is a foreign key. -/

namespace HpAgent.Research

open Library Requirements

inductive FetchStatus where
  | discovered
  | fetched
  | duplicate
  | failed
deriving DecidableEq, Repr

/-- A row of `source_records`.  The reference of a content is `research-content:` and the id of its source, so it is this id;
of the metadata there is `preferred_domain`. -/
structure SourceRecord where
  sourceId : ℕ
  canonicalUri : List Char
  publishedAt : Option ℕ
  sourceTier : ℕ
  preferredDomain : Option Bool
  iteration : ℕ
  fetchStatus : FetchStatus
  contentRef : Option ℕ
  contentHash : Option (List Char)
  duplicateOf : Option ℕ
deriving DecidableEq

/-- A row of `source_contents`. -/
structure ContentRow where
  contentRef : ℕ
  sourceId : ℕ
  contentText : List Char
deriving DecidableEq

/-- The name that the id of an item of evidence is made of. -/
structure EvidenceId where
  sourceId : ℕ
  contentRef : ℕ
  start : ℕ
  stop : ℕ
deriving DecidableEq

structure Locator where
  canonicalUri : List Char
  contentRef : ℕ
  paragraphIndex : ℕ
  start : ℕ
  stop : ℕ
  excerpt : List Char
deriving DecidableEq

/-- A row of `evidence_items`. -/
structure EvidenceItem where
  evidenceId : EvidenceId
  sourceId : ℕ
  excerpt : List Char
  contentRef : ℕ
  sourceLocator : Locator
  sourceQuality : ℕ
deriving DecidableEq

inductive CitationStatus where
  | pending
  | verified
  | weakSource
  | invalid
deriving DecidableEq, Repr

inductive EvidenceStatus where
  | pending
  | supported
  | weak
  | unsupported
deriving DecidableEq, Repr

/-- A row of `research_claims`; the id is made of the ordinal. -/
structure ClaimRow where
  ordinal : ℕ
  statement : List Char
  important : Bool
  evidenceStatus : EvidenceStatus
deriving DecidableEq

/-- A row of `research_citations`. -/
structure Citation where
  claim : ℕ
  evidence : EvidenceId
  locator : Locator
  status : CitationStatus
deriving DecidableEq

/-- The rows of one research; `needsReview` is the citation status of the report once it is verified. -/
structure Records where
  sources : List SourceRecord
  contents : List ContentRow
  evidence : List EvidenceItem
  reported : Bool
  claims : List ClaimRow
  citations : List Citation
  needsReview : Option Bool

def Records.empty : Records := ⟨[], [], [], false, [], [], none⟩

/-! ### Sources -/

structure Candidate where
  sourceId : ℕ
  canonicalUri : List Char
  publishedAt : Option ℕ
  preferredDomain : Option Bool

def discoveredSource (iteration : ℕ) (c : Candidate) : SourceRecord :=
  ⟨c.sourceId, c.canonicalUri, c.publishedAt, if c.preferredDomain = some true then 0 else 2, c.preferredDomain, iteration,
    .discovered, none, none, none⟩

/-- `INSERT … ON CONFLICT (research_id, canonical_uri) DO UPDATE`; the metadata are merged. -/
def addCandidate (iteration : ℕ) (sources : List SourceRecord) (c : Candidate) : Option (List SourceRecord) :=
  if sources.any fun s => s.canonicalUri = c.canonicalUri then
    some (sources.map fun s =>
      if s.canonicalUri = c.canonicalUri then { s with preferredDomain := c.preferredDomain.or s.preferredDomain } else s)
  else if sources.any fun s => s.sourceId = c.sourceId then none
  else some (sources ++ [discoveredSource iteration c])

/-- `add_candidates`; nothing is added where a row cannot be. -/
def addCandidates (iteration : ℕ) (candidates : List Candidate) (r : Records) : Records :=
  match candidates.foldlM (addCandidate iteration) r.sources with
  | some sources => { r with sources := sources }
  | none => r

/-- `_rank`. -/
def rank (iteration : ℕ) (r : Records) : Records :=
  { r with
    sources := r.sources.map fun s =>
      if s.iteration = iteration then { s with sourceTier := if s.preferredDomain = some true then 0 else 2 } else s }

/-- What is read from the net. -/
structure FetchedContent where
  canonicalUri : List Char
  contentHash : List Char
  text : List Char

def updateSource (sourceId : ℕ) (f : SourceRecord → SourceRecord) (sources : List SourceRecord) : List SourceRecord :=
  sources.map fun s => if s.sourceId = sourceId then f s else s

/-- Another source of the same address or content, already fetched. -/
def isDuplicate (sourceId : ℕ) (c : FetchedContent) (s : SourceRecord) : Bool :=
  (s.contentHash = some c.contentHash || s.canonicalUri = c.canonicalUri) && s.fetchStatus = .fetched && s.sourceId ≠ sourceId

def markDuplicate (c : FetchedContent) (original : Option ℕ) (s : SourceRecord) : SourceRecord :=
  { s with fetchStatus := .duplicate, contentHash := some c.contentHash, duplicateOf := original }

def markFetched (c : FetchedContent) (s : SourceRecord) : SourceRecord :=
  { s with
    canonicalUri := c.canonicalUri, contentRef := some s.sourceId, contentHash := some c.contentHash, fetchStatus := .fetched }

/-- `INSERT … ON CONFLICT (source_id) DO NOTHING`. -/
def addContent (sourceId : ℕ) (text : List Char) (contents : List ContentRow) : List ContentRow :=
  if contents.any fun row => row.sourceId = sourceId then contents else contents ++ [⟨sourceId, sourceId, text⟩]

/-- `store_content`; none if the source is not there or another has the address that was read. -/
def storeContent (sourceId : ℕ) (c : FetchedContent) (r : Records) : Option Records :=
  if !r.sources.any fun s => s.sourceId = sourceId then none
  else if r.sources.any (isDuplicate sourceId c) then
    let original := ((r.sources.filter (isDuplicate sourceId c)).map (·.sourceId)).min?
    some { r with sources := updateSource sourceId (markDuplicate c original) r.sources }
  else if r.sources.any fun s => s.canonicalUri = c.canonicalUri && s.sourceId ≠ sourceId then none
  else
    some { r with
      sources := updateSource sourceId (markFetched c) r.sources, contents := addContent sourceId c.text r.contents }

/-- `mark_fetch_failed`. -/
def markFetchFailed (sourceId : ℕ) (r : Records) : Records :=
  { r with sources := updateSource sourceId (fun s => { s with fetchStatus := .failed }) r.sources }

/-- One source of `_fetch`: it was read, or reading it failed. -/
def fetchOne (r : Records) (p : ℕ × Option FetchedContent) : Records :=
  match p.2 with
  | some c => (storeContent p.1 c r).getD (markFetchFailed p.1 r)
  | none => markFetchFailed p.1 r

/-- The order of `fetch_candidates`: tier, preferred domain, date (the latest first, none last), id. -/
def fetchKey (s : SourceRecord) : List ℤ :=
  [s.sourceTier, if s.preferredDomain = some true then 0 else 1, if s.publishedAt = none then 1 else 0,
    -((s.publishedAt.getD 0 : ℕ) : ℤ), s.sourceId]

def fetchBefore (s t : SourceRecord) : Prop := lexLess (fetchKey t) (fetchKey s) = false

instance fetchBefore.decidable : DecidableRel fetchBefore := fun s t =>
  inferInstanceAs (Decidable (lexLess (fetchKey t) (fetchKey s) = false))

def attempted (r : Records) : ℕ := (r.sources.filter fun s => s.fetchStatus ≠ .discovered).length

/-- `fetch_candidates`. -/
def fetchCandidates (limit iteration : ℕ) (r : Records) : List SourceRecord :=
  ((r.sources.filter fun s => s.fetchStatus = .discovered && s.iteration = iteration).insertionSort fetchBefore).take limit

/-- `_fetch`, as far as it comes: there is one outcome for each source that is tried. -/
def fetch (maxFetches iteration : ℕ) (outcomes : List (Option FetchedContent)) (r : Records) : Records :=
  let rows := fetchCandidates (maxFetches - attempted r) iteration r
  ((rows.map (·.sourceId)).zip outcomes).foldl fetchOne r

/-! ### Evidence -/

/-- The items so far, and what is left of the limits. -/
structure Extraction where
  evidence : List EvidenceItem
  spans : ℤ
  bytes : ℤ

/-- The item of a passage of a source. -/
def itemOf (source : SourceRecord) (content : ContentRow) (s : Span) : EvidenceItem :=
  let excerpt := fragment content.contentText s
  ⟨⟨source.sourceId, content.contentRef, s.start, s.stop⟩, source.sourceId, excerpt, content.contentRef,
    ⟨source.canonicalUri, content.contentRef, s.index, s.start, s.stop, excerpt⟩, source.sourceTier⟩

/-- `add_evidence`. -/
def addEvidence (evidence : List EvidenceItem) (item : EvidenceItem) : List EvidenceItem :=
  if evidence.any fun e => e.evidenceId = item.evidenceId then evidence else evidence ++ [item]

def addSpan (source : SourceRecord) (content : ContentRow) (x : Extraction) (s : Span) : Extraction :=
  ⟨addEvidence x.evidence (itemOf source content s), x.spans - 1, x.bytes - size content.contentText s⟩

/-- More rounds than `evidenceSpans` takes (`evidence_spans_selects`). -/
def enoughRounds (text : List Char) : ℕ := (units text 1200).length * ((units text 1200).length + 1) + 1

section Extract

variable (u : Unicode) (objective : List Char)

/-- One source of `_extract_evidence`; none where there is an error. -/
def extractSource (x : Extraction) (p : SourceRecord × ContentRow) : Option Extraction :=
  if x.spans = 0 ∨ x.bytes = 0 then some x
  else
    match evidenceSpans u p.2.contentText objective 1200 (min 6 x.spans) (min 7200 x.bytes) (enoughRounds p.2.contentText) with
    | some (.ok spans) => some (spans.foldl (addSpan p.1 p.2) x)
    | _ => none

/-- The sources of the iteration that are fetched and have no evidence, with their contents. -/
def evidenceSources (iteration : ℕ) (r : Records) : List (SourceRecord × ContentRow) :=
  let open_ := r.sources.filter fun s =>
    s.fetchStatus = .fetched && s.iteration = iteration && !r.evidence.any fun e => e.sourceId = s.sourceId
  (open_.insertionSort fun s t => s.sourceId ≤ t.sourceId).filterMap fun s =>
    (r.contents.find? fun row => row.sourceId = s.sourceId).map fun row => (s, row)

def excerptBytes (evidence : List EvidenceItem) : ℕ := (evidence.map fun e => (Utf8.encode e.excerpt).length).sum

/-- `_extract_evidence`; after an error nothing is added. -/
def extractEvidence (iteration : ℕ) (r : Records) : Records :=
  let first : Extraction := ⟨r.evidence, max 0 (24 - (r.evidence.length : ℤ)), max 0 (24000 - (excerptBytes r.evidence : ℤ))⟩
  match (evidenceSources iteration r).foldlM (extractSource u objective) first with
  | some x => { r with evidence := x.evidence }
  | none => r

end Extract

/-! ### The report -/

structure ReportClaim where
  statement : List Char
  important : Bool
  evidenceIds : List EvidenceId

/-- The citation of one item, unless there is one. -/
def cite (ordinal : ℕ) (citations : List Citation) (item : EvidenceItem) : List Citation :=
  if citations.any fun c => c.claim = ordinal && c.evidence = item.evidenceId then citations
  else citations ++ [⟨ordinal, item.evidenceId, item.sourceLocator, .pending⟩]

/-- The items that a claim names; of others there is an error before there were invocations (`strict`), else they are passed
over. -/
def citedItems (strict : Bool) (evidence : List EvidenceItem) : List EvidenceId → Option (List EvidenceItem)
  | [] => some []
  | id :: ids =>
      match evidence.find? fun e => e.evidenceId = id with
      | some item => (citedItems strict evidence ids).map (item :: ·)
      | none => if strict then none else citedItems strict evidence ids

/-- One claim of `save_report`. -/
def saveClaim (strict : Bool) (r : Records) (p : ReportClaim × ℕ) : Option Records :=
  (citedItems strict r.evidence p.1.evidenceIds).map fun items =>
    { r with
      claims :=
        if r.claims.any fun c => c.ordinal = p.2 then r.claims else r.claims ++ [⟨p.2, p.1.statement, p.1.important, .pending⟩]
      citations := items.foldl (cite p.2) r.citations }

/-- `_synthesize` where the model's answer is this report: a second report is not written, and after an error nothing is. -/
def synthesize (strict : Bool) (report : List ReportClaim) (r : Records) : Records :=
  if r.reported then r else ((report.zipIdx 1).foldlM (saveClaim strict) { r with reported := true }).getD r

/-! ### Citations -/

/-- A row of the join in `verify_citations`. -/
structure CitationRow where
  citation : Citation
  item : EvidenceItem
  claim : ClaimRow
  source : SourceRecord
  content : ContentRow

def joined (r : Records) (c : Citation) : Option CitationRow := do
  let item ← r.evidence.find? fun e => e.evidenceId = c.evidence
  let claim ← r.claims.find? fun cl => cl.ordinal = c.claim
  let source ← r.sources.find? fun s => s.sourceId = item.sourceId
  let content ← r.contents.find? fun row => row.contentRef = item.contentRef
  return ⟨c, item, claim, source, content⟩

def CitationRow.locatorMatches (row : CitationRow) : Bool :=
  let locator := row.citation.locator
  locator = row.item.sourceLocator && row.content.sourceId = row.item.sourceId &&
    row.source.contentRef = some row.item.contentRef && locator.canonicalUri = row.source.canonicalUri &&
    locator.contentRef = row.item.contentRef && locator.start < locator.stop &&
    locator.stop ≤ row.content.contentText.length &&
    slice row.content.contentText locator.start locator.stop = row.item.excerpt && locator.excerpt = row.item.excerpt

def CitationRow.status (row : CitationRow) : CitationStatus :=
  if !row.locatorMatches then .invalid
  else if row.claim.important && 1 < row.item.sourceQuality then .weakSource
  else .verified

def citationRows (r : Records) : List CitationRow := r.citations.filterMap (joined r)

/-- The citations of a claim, as they were verified. -/
def claimStates (r : Records) (ordinal : ℕ) : List CitationStatus :=
  ((citationRows r).filter fun row => row.citation.claim = ordinal).map (·.status)

def claimStatus (statuses : List CitationStatus) : EvidenceStatus :=
  if statuses.all (· = .invalid) then .unsupported
  else if statuses.any fun s => s = .invalid || s = .weakSource then .weak
  else .supported

/-- `verify_citations`; a citation without a row in the join keeps its status. -/
def verifyCitations (r : Records) : Records :=
  let claims := r.claims.map fun c => { c with evidenceStatus := claimStatus (claimStates r c.ordinal) }
  { r with
    citations := r.citations.map fun c => { c with status := (joined r c).elim c.status (·.status) }
    claims := claims
    needsReview :=
      if r.reported then
        some (((citationRows r).any fun row => row.status ≠ .verified) || claims.any fun c => c.evidenceStatus ≠ .supported)
      else r.needsReview }

end HpAgent.Research
