import HpAgent.Library.Canonical
import HpAgent.Progress.Protection
import Mathlib.Data.List.Perm.Basic
import Mathlib.Logic.Equiv.List
import Mathlib.Tactic.DeriveEncodable

/-! # Signatures of what a research says

A research result stands for one fact: the digest of its normalized snapshot (`researchFacts`).  A daily occurrence that
ends well is signed by the set of its facts (`dailySignature`).

* `researchFacts_eq_iff`: two snapshots have the same research facts exactly when they mention the same subjects with
  the same sources.
* `reported_iff`: a fact is known for a revision exactly when a sampled result reported a snapshot that says the same.
* `signatures_presentation_independent`: what presentation does not change, and what every new claim or source does. -/

namespace HpAgent.Progress

open Library

variable {limits : ℤ × ℤ}

/-! ### Snapshots -/

/-- `ck_source_records__hash`: a hash is written with 64 lower case hexadecimal digits. -/
def isContentHash (h : String) : Bool := h.length = 64 && h.all fun c => c.isDigit || ('a' ≤ c && c ≤ 'f')

structure SnapshotEvidence where
  evidenceId : Uuid
  sourceId : Uuid
  canonicalUri : String
  contentHash : Option { h : String // isContentHash h = true }
deriving DecidableEq

structure SnapshotClaim where
  claimId : Uuid
  statement : String
  importance : String
  evidence : List SnapshotEvidence
deriving DecidableEq

/-- `research_reports.snapshot`. -/
structure Snapshot where
  runId : Uuid
  invocationId : Uuid
  claims : List SnapshotClaim
deriving DecidableEq

variable {s : Snapshot} {p : ResultPayload}

/-- `(item["canonical_uri"], item["content_hash"])`. -/
def SnapshotEvidence.source (e : SnapshotEvidence) : String × Option String :=
  (e.canonicalUri, e.contentHash.map Subtype.val)

/-- What `research_facts` reads of a snapshot. -/
def Snapshot.report (s : Snapshot) : List ResearchClaim :=
  s.claims.map fun c => ⟨c.statement, c.importance, c.evidence.map SnapshotEvidence.source⟩

section snapshots

variable (casefold : String → String)

/-- What a claim is known by. -/
def SnapshotClaim.subject (c : SnapshotClaim) : String × String := (normalized casefold c.statement, c.importance)

/-- Some claim has the subject. -/
def Snapshot.Mentions (s : Snapshot) (subject : String × String) : Prop :=
  ∃ c ∈ s.claims, c.subject casefold = subject

/-- Some claim with the subject rests on the source. -/
def Snapshot.Supports (s : Snapshot) (subject : String × String) (source : String × Option String) : Prop :=
  ∃ c ∈ s.claims, c.subject casefold = subject ∧ ∃ e ∈ c.evidence, e.source = source

/-- Both mention the same subjects, and support each with the same sources. -/
def SaysTheSame (s s' : Snapshot) : Prop :=
  (∀ subject, s.Mentions casefold subject ↔ s'.Mentions casefold subject) ∧
    ∀ subject source, s.Supports casefold subject source ↔ s'.Supports casefold subject source

/-- A claim under other identifiers. -/
def SnapshotClaim.rename (claims evidence sources : Uuid → Uuid) (c : SnapshotClaim) : SnapshotClaim :=
  { c with
    claimId := claims c.claimId
    evidence := c.evidence.map fun e => { e with evidenceId := evidence e.evidenceId, sourceId := sources e.sourceId } }

/-- One snapshot presents the other: claims and evidence in another order or again, a claim split in two, a statement in
another spelling with the same normal form, other identifiers. -/
inductive Presents : Snapshot → Snapshot → Prop where
  | refl (s : Snapshot) : Presents s s
  | reorder {run invocation : Uuid} {claims claims' : List SnapshotClaim} (h : claims.Perm claims') :
      Presents ⟨run, invocation, claims⟩ ⟨run, invocation, claims'⟩
  | again {run invocation : Uuid} {claims : List SnapshotClaim} {c : SnapshotClaim} (h : c ∈ claims) :
      Presents ⟨run, invocation, claims⟩ ⟨run, invocation, c :: claims⟩
  | reorderEvidence {run invocation : Uuid} {claims : List SnapshotClaim} {c : SnapshotClaim}
      {evidence : List SnapshotEvidence} (h : c.evidence.Perm evidence) :
      Presents ⟨run, invocation, c :: claims⟩ ⟨run, invocation, { c with evidence := evidence } :: claims⟩
  | againEvidence {run invocation : Uuid} {claims : List SnapshotClaim} {c : SnapshotClaim} {e : SnapshotEvidence}
      (h : e ∈ c.evidence) :
      Presents ⟨run, invocation, c :: claims⟩ ⟨run, invocation, { c with evidence := e :: c.evidence } :: claims⟩
  | split {run invocation id₁ id₂ : Uuid} {claims : List SnapshotClaim} {c : SnapshotClaim}
      {evidence₁ evidence₂ : List SnapshotEvidence} (h : c.evidence = evidence₁ ++ evidence₂) :
      Presents ⟨run, invocation, c :: claims⟩
        ⟨run, invocation, { c with claimId := id₁, evidence := evidence₁ } ::
          { c with claimId := id₂, evidence := evidence₂ } :: claims⟩
  | restate {run invocation : Uuid} {claims : List SnapshotClaim} {c : SnapshotClaim} {statement : String}
      (h : normalized casefold statement = normalized casefold c.statement) :
      Presents ⟨run, invocation, c :: claims⟩ ⟨run, invocation, { c with statement := statement } :: claims⟩
  | rename (s : Snapshot) (run invocation : Uuid) (claims evidence sources : Uuid → Uuid) :
      Presents s ⟨run, invocation, s.claims.map (SnapshotClaim.rename claims evidence sources)⟩
  | symm {s s' : Snapshot} (h : Presents s s') : Presents s' s
  | trans {s s' s'' : Snapshot} (h : Presents s s') (h' : Presents s' s'') : Presents s s''

variable {casefold}

theorem SaysTheSame.symm {s' : Snapshot} (h : SaysTheSame casefold s s') : SaysTheSame casefold s' s :=
  ⟨fun subject => (h.1 subject).symm, fun subject source => (h.2 subject source).symm⟩

theorem SaysTheSame.trans {s' s'' : Snapshot} (h : SaysTheSame casefold s s') (h' : SaysTheSame casefold s' s'') :
    SaysTheSame casefold s s'' :=
  ⟨fun subject => (h.1 subject).trans (h'.1 subject), fun subject source => (h.2 subject source).trans (h'.2 subject source)⟩

/-- What the claims say decides what the snapshot says. -/
theorem SaysTheSame.of_claims {s' : Snapshot}
    (h : ∀ c ∈ s.claims, s'.Mentions casefold (c.subject casefold) ∧
      ∀ e ∈ c.evidence, s'.Supports casefold (c.subject casefold) e.source)
    (h' : ∀ c ∈ s'.claims, s.Mentions casefold (c.subject casefold) ∧
      ∀ e ∈ c.evidence, s.Supports casefold (c.subject casefold) e.source) : SaysTheSame casefold s s' := by
  refine ⟨fun subject => ⟨?_, ?_⟩, fun subject source => ⟨?_, ?_⟩⟩
  · rintro ⟨c, hc, rfl⟩
    exact (h c hc).1
  · rintro ⟨c, hc, rfl⟩
    exact (h' c hc).1
  · rintro ⟨c, hc, rfl, e, he, rfl⟩
    exact (h c hc).2 e he
  · rintro ⟨c, hc, rfl, e, he, rfl⟩
    exact (h' c hc).2 e he

/-- A claim of the snapshot is mentioned and supported by it. -/
theorem says_own {c : SnapshotClaim} (hc : c ∈ s.claims) :
    s.Mentions casefold (c.subject casefold) ∧ ∀ e ∈ c.evidence, s.Supports casefold (c.subject casefold) e.source :=
  ⟨⟨c, hc, rfl⟩, fun e he => ⟨c, hc, rfl, e, he, rfl⟩⟩

/-- A claim is as good as one with the same subject that rests on at least its evidence. -/
theorem says_like {c d : SnapshotClaim} (hd : d ∈ s.claims) (hsubject : d.subject casefold = c.subject casefold)
    (hevidence : ∀ e ∈ c.evidence, e ∈ d.evidence) :
    s.Mentions casefold (c.subject casefold) ∧ ∀ e ∈ c.evidence, s.Supports casefold (c.subject casefold) e.source :=
  ⟨⟨d, hd, hsubject⟩, fun e he => ⟨d, hd, hsubject, e, hevidence e he, rfl⟩⟩

/-- **Presentation** says nothing. -/
theorem Presents.saysTheSame {s' : Snapshot} (h : Presents casefold s s') : SaysTheSame casefold s s' := by
  induction h with
  | refl s => exact ⟨fun _ => Iff.rfl, fun _ _ => Iff.rfl⟩
  | reorder h => exact .of_claims (fun c hc => says_own (h.mem_iff.mp hc)) fun c hc => says_own (h.mem_iff.mpr hc)
  | again h =>
      refine .of_claims (fun c hc => says_own (List.mem_cons_of_mem _ hc)) fun c hc => ?_
      rcases List.mem_cons.mp hc with rfl | hc
      · exact says_own h
      · exact says_own hc
  | reorderEvidence h =>
      refine .of_claims (fun c hc => ?_) fun c hc => ?_
      · rcases List.mem_cons.mp hc with rfl | hc
        · exact says_like List.mem_cons_self rfl fun e he => h.mem_iff.mp he
        · exact says_own (List.mem_cons_of_mem _ hc)
      · rcases List.mem_cons.mp hc with rfl | hc
        · exact says_like List.mem_cons_self rfl fun e he => h.mem_iff.mpr he
        · exact says_own (List.mem_cons_of_mem _ hc)
  | againEvidence h =>
      refine .of_claims (fun c hc => ?_) fun c hc => ?_
      · rcases List.mem_cons.mp hc with rfl | hc
        · exact says_like List.mem_cons_self rfl fun e he => List.mem_cons_of_mem _ he
        · exact says_own (List.mem_cons_of_mem _ hc)
      · rcases List.mem_cons.mp hc with rfl | hc
        · refine says_like List.mem_cons_self rfl fun e he => ?_
          rcases List.mem_cons.mp he with rfl | he
          · exact h
          · exact he
        · exact says_own (List.mem_cons_of_mem _ hc)
  | split h =>
      refine .of_claims (fun c hc => ?_) fun c hc => ?_
      · rcases List.mem_cons.mp hc with rfl | hc
        · refine ⟨⟨_, List.mem_cons_self, rfl⟩, fun e he => ?_⟩
          rw [h] at he
          rcases List.mem_append.mp he with he | he
          · exact ⟨_, List.mem_cons_self, rfl, e, he, rfl⟩
          · exact ⟨_, List.mem_cons_of_mem _ List.mem_cons_self, rfl, e, he, rfl⟩
        · exact says_own (List.mem_cons_of_mem _ (List.mem_cons_of_mem _ hc))
      · rcases List.mem_cons.mp hc with rfl | hc
        · refine says_like List.mem_cons_self rfl fun e he => ?_
          rw [h]
          exact List.mem_append_left _ he
        · rcases List.mem_cons.mp hc with rfl | hc
          · refine says_like List.mem_cons_self rfl fun e he => ?_
            rw [h]
            exact List.mem_append_right _ he
          · exact says_own (List.mem_cons_of_mem _ hc)
  | restate h =>
      refine .of_claims (fun c hc => ?_) fun c hc => ?_
      · rcases List.mem_cons.mp hc with rfl | hc
        · exact says_like List.mem_cons_self (congrArg (·, c.importance) h) fun e he => he
        · exact says_own (List.mem_cons_of_mem _ hc)
      · rcases List.mem_cons.mp hc with rfl | hc
        · exact says_like List.mem_cons_self (congrArg (·, _) h.symm) fun e he => he
        · exact says_own (List.mem_cons_of_mem _ hc)
  | rename s run invocation claims evidence sources =>
      refine .of_claims (fun c hc => ?_) fun c hc => ?_
      · refine ⟨⟨_, List.mem_map_of_mem hc, rfl⟩, fun e he => ?_⟩
        exact ⟨_, List.mem_map_of_mem hc, rfl, _, List.mem_map_of_mem he, rfl⟩
      · obtain ⟨d, hd, rfl⟩ := List.mem_map.mp hc
        refine ⟨⟨d, hd, rfl⟩, fun e he => ?_⟩
        obtain ⟨f, hf, rfl⟩ := List.mem_map.mp he
        exact ⟨d, hd, rfl, f, hf, rfl⟩
  | symm h ih => exact ih.symm
  | trans h h' ih ih' => exact ih.trans ih'

end snapshots

/-! ### The facts of a snapshot -/

section facts

/-- The order of subjects tells them apart. -/
theorem subjectLe_orders : OrdersOn subjectLe fun _ => True := by
  have hle : ∀ a b : String × String, subjectLe a b = true ↔ a.1 < b.1 ∨ a.1 = b.1 ∧ a.2 ≤ b.2 := by
    intro a b
    simp [subjectLe]
  refine ⟨fun a b c hab hbc => ?_, fun a b => ?_, fun a b _ _ hab hba => ?_⟩
  · rw [hle] at hab hbc ⊢
    rcases hab with hab | ⟨hab, hab'⟩
    · rcases hbc with hbc | ⟨hbc, _⟩
      · exact .inl (String.lt_trans hab hbc)
      · exact .inl (hbc ▸ hab)
    · rcases hbc with hbc | ⟨hbc, hbc'⟩
      · exact .inl (hab ▸ hbc)
      · exact .inr ⟨hab.trans hbc, String.le_trans hab' hbc'⟩
  · rw [Bool.or_eq_true, hle, hle]
    by_cases hlt : a.1 < b.1
    · exact .inl (.inl hlt)
    · by_cases hgt : b.1 < a.1
      · exact .inr (.inl hgt)
      · have heq := String.le_antisymm (String.not_lt.mp hgt) (String.not_lt.mp hlt)
        rcases String.le_total a.2 b.2 with h | h
        · exact .inl (.inr ⟨heq, h⟩)
        · exact .inr (.inr ⟨heq.symm, h⟩)
  · rw [hle] at hab hba
    rcases hab with hab | ⟨hab, hab'⟩
    · rcases hba with hba | ⟨hba, _⟩
      · exact absurd hba (String.lt_asymm hab)
      · exact absurd hba.symm (String.ne_of_lt hab)
    · rcases hba with hba | ⟨_, hba'⟩
      · exact absurd hab.symm (String.ne_of_lt hba)
      · exact Prod.ext hab (String.le_antisymm hab' hba')

/-- The order of evidence tells apart all but an empty hash from a missing one. -/
theorem evidenceLe_orders : OrdersOn evidenceLe fun e => e.2 ≠ some "" := by
  refine ⟨fun a b c => subjectLe_orders.trans _ _ _, fun a b => subjectLe_orders.total _ _, fun a b ha hb hab hba => ?_⟩
  obtain ⟨huri, hhash⟩ := Prod.mk.inj (subjectLe_orders.antisymm _ _ trivial trivial hab hba)
  refine Prod.ext huri ?_
  cases hsa : a.2 with
  | none =>
      cases hsb : b.2 with
      | none => rfl
      | some h =>
          rw [hsa, hsb] at hhash
          exact absurd (hsb.trans (congrArg some hhash.symm)) hb
  | some h =>
      cases hsb : b.2 with
      | none =>
          rw [hsa, hsb] at hhash
          exact absurd (hsa.trans (congrArg some hhash)) ha
      | some h' =>
          rw [hsa, hsb] at hhash
          exact congrArg some hhash

/-- A hash of a snapshot is not the empty text. -/
theorem SnapshotEvidence.source_ne (e : SnapshotEvidence) : e.source.2 ≠ some "" := by
  unfold SnapshotEvidence.source
  cases hhash : e.contentHash with
  | none => exact nofun
  | some h =>
      intro hempty
      have hempty : h.1 = "" := Option.some.inj hempty
      have hshape := h.2
      rw [hempty] at hshape
      revert hshape
      decide

variable {casefold : String → String}

/-- The facts are the groups of the claims by subject. -/
theorem researchFacts_groups (claims : List ResearchClaim) : researchFacts casefold claims =
    (groups (fun c : ResearchClaim => (normalized casefold c.statement, c.importance)) ResearchClaim.evidence subjectLe
      evidenceLe claims).map fun g => (g.1.1, g.1.2, g.2) := by
  unfold groups
  rw [List.map_map]
  rfl

/-- **The facts of a snapshot** are what it says. -/
theorem researchFacts_eq_iff (s s' : Snapshot) :
    researchFacts casefold s.report = researchFacts casefold s'.report ↔ SaysTheSame casefold s s' := by
  have hinj : Function.Injective fun g : (String × String) × List (String × Option String) => (g.1.1, g.1.2, g.2) := by
    rintro ⟨⟨a, b⟩, c⟩ ⟨⟨a', b'⟩, c'⟩ h
    obtain ⟨rfl, h⟩ := Prod.mk.inj h
    obtain ⟨rfl, rfl⟩ := Prod.mk.inj h
    rfl
  have hhashes : ∀ s : Snapshot, ∀ c ∈ s.report, ∀ e ∈ c.evidence, e.2 ≠ some "" := by
    intro s c hc e he
    obtain ⟨d, _, rfl⟩ := List.mem_map.mp hc
    obtain ⟨f, _, rfl⟩ := List.mem_map.mp he
    exact f.source_ne
  have hmentions : ∀ (s : Snapshot) subject, subject ∈ s.report.map (fun c : ResearchClaim =>
      (normalized casefold c.statement, c.importance)) ↔ s.Mentions casefold subject := by
    intro s subject
    unfold Snapshot.report
    rw [List.map_map, List.mem_map]
    exact Iff.rfl
  have hsupports : ∀ (s : Snapshot) subject source, source ∈ under (fun c : ResearchClaim =>
      (normalized casefold c.statement, c.importance)) ResearchClaim.evidence s.report subject ↔
        s.Supports casefold subject source := by
    intro s subject source
    rw [mem_under]
    unfold Snapshot.report
    constructor
    · rintro ⟨c, hc, hsubject, he⟩
      obtain ⟨d, hd, rfl⟩ := List.mem_map.mp hc
      obtain ⟨f, hf, rfl⟩ := List.mem_map.mp he
      exact ⟨d, hd, hsubject, f, hf, rfl⟩
    · rintro ⟨d, hd, hsubject, e, he, rfl⟩
      exact ⟨_, List.mem_map_of_mem hd, hsubject, List.mem_map_of_mem he⟩
  rw [researchFacts_groups, researchFacts_groups, (List.map_injective_iff.mpr hinj).eq_iff,
    groups_eq_iff subjectLe_orders evidenceLe_orders (hhashes s) (hhashes s')]
  simp only [hmentions, hsupports]
  exact Iff.rfl

end facts

/-! ### The facts of a result -/

section results

variable {δ : Type} (casefold sha256 : String → String) (digest : Subject → δ)

/-- The report whose normalized snapshot is the fact of a result. -/
def semanticReport (db : ProgressStore δ) (i : Invocation) (p : ResultPayload) : Option (List ResearchClaim) :=
  if p.outcome ≠ .succeeded then none
  else (if i.capabilityKey = "research" then db.reports i.accountId i.invocationId else none).filter fun claims =>
    claims ≠ [] && p.checks.all fun c => c.passed

variable {casefold sha256 digest}

theorem resultFacts_report {db : ProgressStore δ} {i : Invocation} {claims : List ResearchClaim}
    (h : semanticReport db i p = some claims) :
    resultFacts casefold sha256 digest db i p = [digest (.research (researchFacts casefold claims))] := by
  unfold semanticReport at h
  unfold resultFacts
  split at h
  · cases h
  · next hsucceeded =>
      rw [if_neg hsucceeded]
      dsimp only
      rw [h]

/-- The fact of a normalized snapshot is the fact of nothing else, when no digests collide. -/
theorem research_mem_resultFacts (hdigest : Function.Injective digest) {db : ProgressStore δ} {i : Invocation}
    {facts : List (String × String × List (String × Option String))} :
    digest (.research facts) ∈ resultFacts casefold sha256 digest db i p ↔
      ∃ claims, semanticReport db i p = some claims ∧ researchFacts casefold claims = facts := by
  constructor
  · intro hmem
    cases hreport : semanticReport db i p with
    | some claims =>
        rw [resultFacts_report hreport] at hmem
        exact ⟨claims, rfl, (Subject.research.inj (hdigest (List.mem_singleton.mp hmem))).symm⟩
    | none =>
        unfold semanticReport at hreport
        unfold resultFacts at hmem
        split at hreport
        · next hfailed =>
            rw [if_pos hfailed] at hmem
            cases hmem
        · next hsucceeded =>
            rw [if_neg hsucceeded] at hmem
            dsimp only at hmem
            rw [hreport] at hmem
            obtain ⟨r, _, hfact⟩ := List.mem_flatMap.mp hmem
            unfold refFacts at hfact
            split at hfact
            · cases hfact
            · dsimp only at hfact
              split at hfact
              · cases hfact
              · rcases List.mem_cons.mp hfact with hfact | hfact
                · cases hdigest hfact
                · obtain ⟨c, _, hfact⟩ := List.mem_map.mp hfact
                  cases hdigest hfact
  · rintro ⟨claims, hreport, rfl⟩
    rw [resultFacts_report hreport]
    exact List.mem_singleton.mpr rfl

end results

/-! ### The daily signature -/

section daily

variable {δ σ : Type} (casefold sha256 : String → String) (digest : Subject → δ) (hex : δ → String)
  (sign : List String → σ) {db db' : ProgressStore δ} {signature : σ}

/-- An invocation of a Run with its result, if there is one. -/
abbrev DailyRow := Invocation × Option ResultPayload

variable {invocations : List DailyRow} {invocations' : List DailyRow}

/-- A result is there, it succeeded and it passed its checks. -/
def DailyRow.sound (r : DailyRow) : Bool :=
  r.2.any fun p => p.outcome = .succeeded && p.checks.all fun c => c.passed

/-- The facts of the rows, as text. -/
def dailyFacts (db : ProgressStore δ) (rows : List DailyRow) : List String :=
  rows.flatMap fun r => (r.2.map (resultFacts casefold sha256 digest db r.1)).getD [] |>.map hex

/-- `daily_signature` of a Run with these invocations. -/
def dailySignature (db : ProgressStore δ) (daily : Bool) (invocations : List DailyRow) : Option σ :=
  if daily = false then none
  else
    let rows := invocations.mergeSort fun a b => a.1.invocationId ≤ b.1.invocationId
    if rows = [] ∨ rows.any (fun r => !DailyRow.sound r) = true then none
    else
      let facts := dailyFacts casefold sha256 digest hex db rows
      if facts = [] then none else some (sign (canonical (fun a b => a ≤ b) facts))

variable {casefold sha256 digest hex sign}

/-- Texts are sorted. -/
theorem text_orders : OrdersOn (fun a b : String => decide (a ≤ b)) fun _ => True := by
  refine ⟨fun a b c hab hbc => ?_, fun a b => ?_, fun a b _ _ hab hba => ?_⟩
  · exact decide_eq_true (String.le_trans (of_decide_eq_true hab) (of_decide_eq_true hbc))
  · simpa using String.le_total a b
  · exact String.le_antisymm (of_decide_eq_true hab) (of_decide_eq_true hba)

/-- The order of the rows does not matter for what they hold. -/
theorem mem_dailyFacts_sorted {db : ProgressStore δ} {rows : List DailyRow} {le : DailyRow → DailyRow → Bool} {f : String} :
    f ∈ dailyFacts casefold sha256 digest hex db (rows.mergeSort le) ↔ f ∈ dailyFacts casefold sha256 digest hex db rows := by
  unfold dailyFacts
  simp only [List.mem_flatMap, (List.mergeSort_perm rows le).mem_iff]

/-- A signature signs the set of the facts. -/
theorem dailySignature_some {daily : Bool}
    (h : dailySignature casefold sha256 digest hex sign db daily invocations = some signature) :
    ∃ facts, sign (canonical (fun a b => decide (a ≤ b)) facts) = signature ∧
      ∀ f, f ∈ facts ↔ f ∈ dailyFacts casefold sha256 digest hex db invocations := by
  unfold dailySignature at h
  split at h
  · cases h
  · dsimp only at h
    split at h
    · cases h
    · split at h
      · cases h
      · exact ⟨_, Option.some.inj h, fun _ => mem_dailyFacts_sorted⟩

/-- **Two daily signatures** are equal exactly when the Runs have the same facts. -/
theorem dailySignature_eq_iff (hsign : Function.Injective sign) {daily daily' : Bool}
    {signature' : σ}
    (h : dailySignature casefold sha256 digest hex sign db daily invocations = some signature)
    (h' : dailySignature casefold sha256 digest hex sign db' daily' invocations' = some signature') :
    signature = signature' ↔ ∀ f, f ∈ dailyFacts casefold sha256 digest hex db invocations ↔
      f ∈ dailyFacts casefold sha256 digest hex db' invocations' := by
  obtain ⟨facts, rfl, hfacts⟩ := dailySignature_some h
  obtain ⟨facts', rfl, hfacts'⟩ := dailySignature_some h'
  rw [hsign.eq_iff, canonical_eq_iff text_orders fun _ _ => trivial]
  simp only [hfacts, hfacts']

/-- The results of the invocations are these snapshots. -/
def Presented (db : ProgressStore δ) (invocations : List DailyRow) (snapshots : List Snapshot) : Prop :=
  List.Forall₂ (fun (r : DailyRow) s => r.2.bind (semanticReport db r.1) = some (Snapshot.report s)) invocations snapshots

/-- The facts of research results are those of their snapshots. -/
theorem mem_dailyFacts {db : ProgressStore δ} {invocations : List DailyRow} {snapshots : List Snapshot}
    (h : Presented db invocations snapshots) {f : String} :
    f ∈ dailyFacts casefold sha256 digest hex db invocations ↔
      ∃ s ∈ snapshots, hex (digest (.research (researchFacts casefold s.report))) = f := by
  unfold dailyFacts
  induction h with
  | nil => simp
  | @cons r s rows snapshots hr _ ih =>
      obtain ⟨p, hp, hreport⟩ := Option.bind_eq_some_iff.mp hr
      rw [List.flatMap_cons, List.mem_append, ih, hp]
      simp only [Option.map_some, Option.getD_some, resultFacts_report hreport, List.map_singleton, List.mem_cons,
        List.not_mem_nil, or_false, exists_eq_or_imp]
      exact or_congr_left eq_comm

/-- A daily Run whose invocations all ended well with research results is signed. -/
theorem presented_signature {db : ProgressStore δ} {invocations : List DailyRow} {snapshots : List Snapshot}
    (hpresented : Presented db invocations snapshots) (hne : snapshots ≠ [])
    (hsound : ∀ r ∈ invocations, DailyRow.sound r = true) :
    ∃ signature, dailySignature casefold sha256 digest hex sign db true invocations = some signature := by
  obtain ⟨s, hs⟩ := List.exists_mem_of_ne_nil snapshots hne
  have hfact := (@mem_dailyFacts _ casefold sha256 digest hex _ _ _ hpresented _).mpr ⟨s, hs, rfl⟩
  unfold dailySignature
  rw [if_neg (by decide)]
  dsimp only
  have hsorted := (@mem_dailyFacts_sorted _ casefold sha256 digest hex db invocations
    (fun a b => decide (a.1.invocationId ≤ b.1.invocationId)) _).mpr hfact
  have hmem : ∀ r, r ∈ invocations.mergeSort (fun a b => decide (a.1.invocationId ≤ b.1.invocationId)) ↔ r ∈ invocations :=
    fun r => (List.mergeSort_perm invocations _).mem_iff
  generalize invocations.mergeSort (fun a b => decide (a.1.invocationId ≤ b.1.invocationId)) = rows at hsorted hmem ⊢
  have hgood : ¬ (rows = [] ∨ rows.any (fun r => !DailyRow.sound r) = true) := by
    rintro (rfl | hbad)
    · cases hsorted
    · obtain ⟨r, hr, hunsound⟩ := List.any_eq_true.mp hbad
      rw [hsound r ((hmem r).mp hr)] at hunsound
      cases hunsound
  rw [if_neg hgood, if_neg (List.ne_nil_of_mem hsorted)]
  exact ⟨_, rfl⟩

/-- The signature of research results is that of the set of what their snapshots say. -/
theorem presented_signature_iff (hdigest : Function.Injective digest) (hhex : Function.Injective hex)
    (hsign : Function.Injective sign) {daily daily' : Bool}
    {snapshots snapshots' : List Snapshot} {signature' : σ}
    (h : dailySignature casefold sha256 digest hex sign db daily invocations = some signature)
    (h' : dailySignature casefold sha256 digest hex sign db' daily' invocations' = some signature')
    (hpresented : Presented db invocations snapshots) (hpresented' : Presented db' invocations' snapshots') :
    signature = signature' ↔ (∀ s ∈ snapshots, ∃ s' ∈ snapshots', SaysTheSame casefold s s') ∧
      ∀ s' ∈ snapshots', ∃ s ∈ snapshots, SaysTheSame casefold s s' := by
  have hfact : ∀ s s' : Snapshot, hex (digest (.research (researchFacts casefold s.report))) =
      hex (digest (.research (researchFacts casefold s'.report))) ↔ SaysTheSame casefold s s' := by
    intro s s'
    rw [hhex.eq_iff, hdigest.eq_iff, Subject.research.injEq, researchFacts_eq_iff]
  rw [dailySignature_eq_iff hsign h h']
  simp only [mem_dailyFacts hpresented, mem_dailyFacts hpresented']
  constructor
  · intro hsame
    refine ⟨fun s hs => ?_, fun s' hs' => ?_⟩
    · obtain ⟨s', hs', heq⟩ := (hsame _).mp ⟨s, hs, rfl⟩
      exact ⟨s', hs', ((hfact s' s).mp heq).symm⟩
    · obtain ⟨s, hs, heq⟩ := (hsame _).mpr ⟨s', hs', rfl⟩
      exact ⟨s, hs, (hfact s s').mp heq⟩
  · rintro ⟨hforth, hback⟩ f
    constructor
    · rintro ⟨s, hs, rfl⟩
      obtain ⟨s', hs', hsame⟩ := hforth s hs
      exact ⟨s', hs', ((hfact s s').mpr hsame).symm⟩
    · rintro ⟨s', hs', rfl⟩
      obtain ⟨s, hs, hsame⟩ := hback s' hs'
      exact ⟨s, hs, (hfact s s').mpr hsame⟩

end daily

/-! ### What has been reported -/

section histories

variable {δ : Type} [DecidableEq δ] (casefold sha256 : String → String) (digest : Subject → δ)

/-- The sample an event adds. -/
def Event.adds (w : World δ) : Event → Option (WorkRevision × Sampled δ)
  | .result limits r i p =>
      sampledBy casefold sha256 digest w.db ((recordResult casefold sha256 digest limits r i p).commit w.db) r i p
  | _ => none

/-- The report that a sampled result stands for, with the revision it was sampled under. -/
def Event.reports (w : World δ) : Event → Option (WorkRevision × List ResearchClaim)
  | .result limits r i p =>
      (Event.adds casefold sha256 digest w (.result limits r i p)).bind fun e =>
        (semanticReport w.db i p).map fun claims => (e.1, claims)
  | _ => none

/-- Reports are read of stored snapshots. -/
def ReadsSnapshots (reports : Uuid → String → Option (List ResearchClaim)) : Prop :=
  ∀ account invocation claims, reports account invocation = some claims → ∃ s : Snapshot, s.report = claims

/-- The reports an event brings are read of stored snapshots. -/
def Event.StoresSnapshots : Event → Prop
  | .surroundings _ _ reports _ => ReadsSnapshots reports
  | _ => True

/-- An event of the history sampled, under the revision, a result whose snapshot says the same. -/
def Reported (db : ProgressStore δ) (events : List Event) (key : WorkRevision) (s : Snapshot) : Prop :=
  ∃ before event after s', events = before ++ event :: after ∧
    event.reports casefold sha256 digest (World.run casefold sha256 digest db before) = some (key, Snapshot.report s') ∧
      SaysTheSame casefold s' s

variable {casefold sha256 digest}

theorem Event.log_after (w : World δ) (event : Event) :
    (w.after casefold sha256 digest event).log = w.log ++ (event.adds casefold sha256 digest w).toList := by
  cases event with
  | result limits r i p =>
      unfold World.after Event.adds
      dsimp only
      split
      · next e he => rw [he, Option.toList_some]
      · next hnone => rw [hnone, Option.toList_none, List.append_nil]
  | reset account work =>
      unfold World.after Event.adds
      dsimp only
      split
      · rw [Option.toList_none, List.append_nil]
      · rw [Option.toList_none, List.append_nil]
  | surroundings works mandate reports refs =>
      unfold World.after Event.adds
      rw [Option.toList_none, List.append_nil]

theorem World.run_concat (db : ProgressStore δ) (events : List Event) (event : Event) :
    World.run casefold sha256 digest db (events ++ [event]) =
      (World.run casefold sha256 digest db events).after casefold sha256 digest event := by
  unfold World.run
  rw [List.foldl_append]
  rfl

/-- The samples are those that the events of the history added. -/
theorem mem_log_run (db : ProgressStore δ) (events : List Event) (e : WorkRevision × Sampled δ) :
    e ∈ (World.run casefold sha256 digest db events).log ↔ ∃ before event after, events = before ++ event :: after ∧
      event.adds casefold sha256 digest (World.run casefold sha256 digest db before) = some e := by
  induction events using List.reverseRecOn with
  | nil =>
      constructor
      · intro h
        cases h
      · rintro ⟨before, event, after, h, _⟩
        cases before <;> cases h
  | append_singleton events last ih =>
      rw [World.run_concat, Event.log_after, List.mem_append, ih, Option.mem_toList]
      constructor
      · rintro (⟨before, event, after, rfl, hadds⟩ | hadds)
        · exact ⟨before, event, after ++ [last], by rw [List.append_assoc, List.cons_append], hadds⟩
        · exact ⟨events, last, [], rfl, hadds⟩
      · rintro ⟨before, event, after, h, hadds⟩
        rcases List.eq_nil_or_concat after with rfl | ⟨after, last', rfl⟩
        · obtain ⟨rfl, heq⟩ := List.append_inj' h rfl
          obtain rfl := List.singleton_inj.mp heq
          exact .inr hadds
        · rw [List.concat_eq_append, ← List.cons_append, ← List.append_assoc] at h
          obtain ⟨rfl, _⟩ := List.append_inj' h rfl
          exact .inl ⟨before, event, after, rfl, hadds⟩

omit [DecidableEq δ] in
/-- Nothing is written to the reports. -/
def SameReports (db db' : ProgressStore δ) : Prop := db'.reports = db.reports

instance : IsPreorder (ProgressStore δ) SameReports where
  refl _ := rfl
  trans _ _ _ h h' := Eq.trans h' h

/-- A result reads reports and writes none. -/
theorem recordResult_reports (limits : ℤ × ℤ) (r : ProgressRun) (i : Invocation) (p : ResultPayload)
    (db : ProgressStore δ) :
    SameReports db ((recordResult casefold sha256 digest limits r i p).commit db) := by
  have hinsert : ∀ key invocation (facts : List δ), Tx.Keeps SameReports (insertFacts key invocation facts) := by
    intro key invocation facts db n db' h
    have hreports := congrArg ProgressStore.reports (insertFacts_spec h).2.1
    exact hreports
  refine Tx.Keeps.commit ?_ db
  unfold recordResult
  split
  · exact .pure _
  · next work _ =>
      split
      · exact .pure _
      · refine .bind (.query _) fun db => .bind ?_ fun current => ?_
        · exact .bind (.demand _ _) fun _ => .pure _
        · split
          · exact .pure _
          · refine .bind (.check _ _) fun _ => .bind (.update fun _ => rfl) fun _ => .bind (.query _) fun sampled => ?_
            split
            · exact .pure _
            · refine .bind (.query _) fun _ => .bind (.query _) fun _ => .bind (.check _ _) fun _ => ?_
              refine .bind (hinsert _ _ _) fun _ => .bind (.query _) fun _ => .bind (.demand _ _) fun _ => ?_
              exact .update fun _ => rfl

/-- In every history the reports are read of stored snapshots. -/
theorem run_readsSnapshots {db : ProgressStore δ} (hdb : ReadsSnapshots db.reports) (events : List Event)
    (h : ∀ event ∈ events, event.StoresSnapshots) :
    ReadsSnapshots (World.run casefold sha256 digest db events).db.reports := by
  induction events using List.reverseRecOn with
  | nil => exact hdb
  | append_singleton events last ih =>
      have hbefore := ih fun event hmem => h event (List.mem_append_left _ hmem)
      rw [World.run_concat]
      cases last with
      | result limits r i p =>
          have hreports : ((World.run casefold sha256 digest db events).after casefold sha256 digest
              (.result limits r i p)).db.reports = (World.run casefold sha256 digest db events).db.reports := by
            unfold World.after
            dsimp only
            split
            · exact recordResult_reports limits r i p _
            · exact recordResult_reports limits r i p _
          rw [hreports]
          exact hbefore
      | reset account work =>
          have hreports : ((World.run casefold sha256 digest db events).after casefold sha256 digest
              (.reset account work)).db.reports = (World.run casefold sha256 digest db events).db.reports := by
            have hkeeps : Tx.Keeps SameReports (Progress.reset account work : ProgressTx δ Unit) :=
              .bind (.query _) fun _ => .bind (.demand _ _) fun _ => .update fun _ => rfl
            unfold World.after
            dsimp only
            split
            · exact hkeeps.commit _
            · exact hkeeps.commit _
          rw [hreports]
          exact hbefore
      | surroundings works mandate reports refs => exact h _ (List.mem_append_right _ (List.mem_singleton.mpr rfl))

/-- A sample holds what its result observed. -/
theorem Event.adds_result {w : World δ} {event : Event} {e : WorkRevision × Sampled δ}
    (h : event.adds casefold sha256 digest w = some e) : ∃ limits r i p work, event = .result limits r i p ∧
      e.1 = (r.accountId, work, r.requirementRevision) ∧ e.2.observed = resultFacts casefold sha256 digest w.db i p ∧
      e.2.quiet = normalDaily r (failureOf digest i p) (resultFacts casefold sha256 digest w.db i p) := by
  cases event with
  | result limits r i p =>
      unfold Event.adds at h
      dsimp only at h
      by_cases hcounts : ∃ work, Counts w.db limits r work i p
      · obtain ⟨work, hcounts⟩ := hcounts
        rw [sampledBy_counts hcounts] at h
        obtain rfl := Option.some.inj h
        exact ⟨limits, r, i, p, work, rfl, rfl, rfl, rfl⟩
      · rw [sampledBy_idle (not_exists.mp hcounts)] at h
        cases h
  | reset account work => cases h
  | surroundings works mandate reports refs => cases h

variable {db : ProgressStore δ} {events : List Event}

/-- **What is known.**  A revision has observed the fact of a snapshot exactly when the history reported a snapshot that
says the same. -/
theorem reported_iff (hdigest : Function.Injective digest) (hdb : ReadsSnapshots db.reports)
    (hevents : ∀ event ∈ events, event.StoresSnapshots) {key : WorkRevision} {s : Snapshot} :
    (∃ e ∈ (World.run casefold sha256 digest db events).log, e.1 = key ∧
      digest (.research (researchFacts casefold s.report)) ∈ e.2.observed) ↔
        Reported casefold sha256 digest db events key s := by
  constructor
  · rintro ⟨e, he, rfl, hobserved⟩
    obtain ⟨before, event, after, rfl, hadds⟩ := (mem_log_run db events e).mp he
    obtain ⟨limits, r, i, p, work, rfl, _, hfacts, _⟩ := Event.adds_result hadds
    rw [hfacts, research_mem_resultFacts hdigest] at hobserved
    obtain ⟨claims, hreport, hsame⟩ := hobserved
    have hreads : ReadsSnapshots (World.run casefold sha256 digest db before).db.reports :=
      run_readsSnapshots hdb before fun event hmem => hevents event (List.mem_append_left _ hmem)
    have hstored : ∃ s' : Snapshot, s'.report = claims := by
      unfold semanticReport at hreport
      split at hreport
      · cases hreport
      · have hfound := (Option.filter_eq_some_iff.mp hreport).1
        split at hfound
        · exact hreads _ _ _ hfound
        · cases hfound
    obtain ⟨s', rfl⟩ := hstored
    refine ⟨before, _, after, s', rfl, ?_, (researchFacts_eq_iff s' s).mp hsame⟩
    unfold Event.reports
    dsimp only
    rw [hadds, Option.bind_some, hreport, Option.map_some]
  · rintro ⟨before, event, after, s', rfl, hreports, hsame⟩
    cases event with
    | result limits r i p =>
        unfold Event.reports at hreports
        obtain ⟨e, hadds, hreports⟩ := Option.bind_eq_some_iff.mp hreports
        obtain ⟨claims, hreport, heq⟩ := Option.map_eq_some_iff.mp hreports
        obtain ⟨rfl, rfl⟩ := Prod.mk.inj heq
        refine ⟨e, (mem_log_run db _ e).mpr ⟨before, _, after, rfl, hadds⟩, rfl, ?_⟩
        obtain ⟨limits', r', i', p', work, hevent, _, hfacts, _⟩ := Event.adds_result hadds
        obtain ⟨rfl, rfl, rfl, rfl⟩ := Event.result.inj hevent
        rw [hfacts, resultFacts_report hreport, (researchFacts_eq_iff s' s).mpr hsame]
        exact List.mem_singleton.mpr rfl
    | reset account work => cases hreports
    | surroundings works mandate reports refs => cases hreports

/-- A sample joins the window of its revision. -/
theorem Event.windows_after {w : World δ} {r : ProgressRun} {i : Invocation}
    {e : WorkRevision × Sampled δ} (h : Event.adds casefold sha256 digest w (.result limits r i p) = some e) :
    (w.after casefold sha256 digest (.result limits r i p)).windows e.1 = w.windows e.1 ++ [e.2] := by
  unfold Event.adds at h
  dsimp only at h
  unfold World.after
  dsimp only
  rw [h]
  exact Function.update_self _ _ _

/-- **One research result.**  It adds one fact unless a snapshot that says the same was reported for the revision, and
the samples without progress go on only when it adds none and the Run is not a daily one. -/
theorem research_sample (hdigest : Function.Injective digest) (hdb : ReadsSnapshots db.reports)
    (hevents : ∀ event ∈ events, event.StoresSnapshots) {r : ProgressRun} {i : Invocation}
    {key : WorkRevision} {e : Sampled δ}
    (hadds : Event.adds casefold sha256 digest (World.run casefold sha256 digest db events) (.result limits r i p) =
      some (key, e))
    (hreport : semanticReport (World.run casefold sha256 digest db events).db i p = some s.report) :
    (Reported casefold sha256 digest db events key s → e.newFacts = 0) ∧
    (¬ Reported casefold sha256 digest db events key s → e.newFacts = 1) ∧
    ∃ row, ((World.run casefold sha256 digest db events).after casefold sha256 digest
        (.result limits r i p)).db.progress.lookup key = some row ∧
      (Reported casefold sha256 digest db events key s → r.daily = false →
        row.noProgressCount = (opened (World.run casefold sha256 digest db events).db key limits).noProgressCount + 1) ∧
      (¬ Reported casefold sha256 digest db events key s ∨ r.daily = true → row.noProgressCount = 0) := by
  have hknown := @reported_iff δ _ casefold sha256 digest db events hdigest hdb hevents key s
  have htracked : Tracked (World.run casefold sha256 digest db events) := .run db events
  have hafter : Tracked ((World.run casefold sha256 digest db events).after casefold sha256 digest (.result limits r i p)) :=
    htracked.after _
  have hlog := @Event.log_after δ _ casefold sha256 digest (World.run casefold sha256 digest db events) (.result limits r i p)
  rw [hadds, Option.toList_some] at hlog
  have hwindow := Event.windows_after hadds
  obtain ⟨limits', r', i', p', work, hevent, _, hobserved, hquiet⟩ := Event.adds_result hadds
  obtain ⟨rfl, rfl, rfl, rfl⟩ := Event.result.inj hevent
  rw [resultFacts_report hreport] at hobserved hquiet
  generalize (World.run casefold sha256 digest db events).after casefold sha256 digest (.result limits r i p) = w' at *
  generalize World.run casefold sha256 digest db events = w at *
  -- the sample observed one fact, so it added that one or none
  have hcard := hafter.counted _ _ _ hlog
  have hold : Reported casefold sha256 digest db events key s → e.newFacts = 0 := by
    intro h
    obtain ⟨e', he', hkey, hmem⟩ := hknown.mpr h
    rw [hcard, Finset.card_eq_zero, freshFacts, Finset.filter_eq_empty_iff]
    intro fact hfact hfree
    rw [List.mem_toFinset, hobserved] at hfact
    obtain rfl := List.mem_singleton.mp hfact
    exact hfree e' he' hkey hmem
  have hnew : ¬ Reported casefold sha256 digest db events key s → e.newFacts = 1 := by
    intro h
    rw [hcard, Finset.card_eq_one]
    refine ⟨digest (.research (researchFacts casefold s.report)), ?_⟩
    ext fact
    rw [freshFacts, Finset.mem_filter, List.mem_toFinset, hobserved, List.mem_singleton, Finset.mem_singleton]
    refine ⟨And.left, fun hfact => ⟨hfact, fun e' he' hkey hmem => h (hknown.mp ⟨e', he', hkey, ?_⟩)⟩⟩
    rw [← hfact]
    exact hmem
  have hsucceeded : p.outcome = .succeeded := by
    unfold semanticReport at hreport
    split at hreport
    · cases hreport
    · next h => exact not_not.mp h
  have hdaily : e.quiet = r.daily := by
    have hfailure : failureOf digest i p = none := by
      unfold failureOf
      rw [hsucceeded, if_neg (by decide)]
    rw [hquiet, hfailure]
    unfold normalDaily
    simp
  have hcount := (htracked.opened key limits).noProgress
  refine ⟨hold, hnew, ?_⟩
  cases hrow : w'.db.progress.lookup key with
  | none =>
      have hempty := (hafter.closed key hrow).symm.trans hwindow
      have hlength := congrArg List.length hempty
      rw [List.length_append, List.length_singleton] at hlength
      cases hlength
  | some row =>
      have hrowCount := (hafter.rows key row hrow).noProgress
      rw [hwindow] at hrowCount
      unfold trailingNoProgress at hrowCount hcount
      rw [trailing_concat, ← hcount] at hrowCount
      refine ⟨row, rfl, fun hreported hplain => ?_, fun h => ?_⟩
      · have hprogressed : e.progressed = false := by
          unfold Sampled.progressed
          rw [hold hreported, hdaily, hplain]
          rfl
        rw [hprogressed] at hrowCount
        exact hrowCount
      · have hprogressed : e.progressed = true := by
          unfold Sampled.progressed
          rw [hdaily, Bool.or_eq_true, decide_eq_true_eq]
          rcases h with h | h
          · exact .inl (by rw [hnew h]; exact Nat.one_pos)
          · exact .inr h
        rw [hprogressed] at hrowCount
        exact hrowCount

/-- **Signatures are independent of presentation.**  With digests that do not collide:

* two snapshots have the same research facts exactly when they mention the same subjects with the same sources, so the
  order, the repetition and the splitting of claims and evidence within a result, the spelling of a statement and all
  identifiers change nothing, and a claim or a source that was not there changes them;
* two daily Runs of research results have the same signature exactly when each result of one says what some result of
  the other says;
* a research result adds a fact to its revision, and ends the samples without progress, exactly when no earlier result
  of the revision said the same, and the samples of a daily Work end with it in any case. -/
theorem signatures_presentation_independent {σ : Type} (casefold sha256 : String → String) (digest : Subject → δ)
    (hex : δ → String) (sign : List String → σ) (hdigest : Function.Injective digest) (hhex : Function.Injective hex)
    (hsign : Function.Injective sign) :
    (∀ s s' : Snapshot, researchFacts casefold s.report = researchFacts casefold s'.report ↔ SaysTheSame casefold s s') ∧
    (∀ s s' : Snapshot, Presents casefold s s' → researchFacts casefold s.report = researchFacts casefold s'.report) ∧
    (∀ s s' : Snapshot, ((∃ subject, s'.Mentions casefold subject ∧ ¬ s.Mentions casefold subject) ∨
      ∃ subject source, s'.Supports casefold subject source ∧ ¬ s.Supports casefold subject source) →
        researchFacts casefold s.report ≠ researchFacts casefold s'.report) ∧
    (∀ (db db' : ProgressStore δ) daily daily' invocations invocations' snapshots snapshots' signature signature',
      dailySignature casefold sha256 digest hex sign db daily invocations = some signature →
      dailySignature casefold sha256 digest hex sign db' daily' invocations' = some signature' →
      Presented db invocations snapshots → Presented db' invocations' snapshots' →
        (signature = signature' ↔ (∀ s ∈ snapshots, ∃ s' ∈ snapshots', SaysTheSame casefold s s') ∧
          ∀ s' ∈ snapshots', ∃ s ∈ snapshots, SaysTheSame casefold s s')) ∧
    ∀ (db : ProgressStore δ) (events : List Event), ReadsSnapshots db.reports →
      (∀ event ∈ events, event.StoresSnapshots) → ∀ limits r i p s key e,
      Event.adds casefold sha256 digest (World.run casefold sha256 digest db events) (.result limits r i p) =
        some (key, e) →
      semanticReport (World.run casefold sha256 digest db events).db i p = some (Snapshot.report s) →
        (Reported casefold sha256 digest db events key s → e.newFacts = 0) ∧
        (¬ Reported casefold sha256 digest db events key s → e.newFacts = 1) ∧
        ∃ row, ((World.run casefold sha256 digest db events).after casefold sha256 digest
            (.result limits r i p)).db.progress.lookup key = some row ∧
          (Reported casefold sha256 digest db events key s → r.daily = false → row.noProgressCount =
            (opened (World.run casefold sha256 digest db events).db key limits).noProgressCount + 1) ∧
          (¬ Reported casefold sha256 digest db events key s ∨ r.daily = true → row.noProgressCount = 0) := by
  refine ⟨researchFacts_eq_iff, fun s s' h => (researchFacts_eq_iff s s').mpr h.saysTheSame, fun s s' h heq => ?_,
    fun db db' daily daily' invocations invocations' snapshots snapshots' signature signature' h h' =>
      presented_signature_iff hdigest hhex hsign h h',
    fun db events hdb hevents limits r i p s key e => research_sample hdigest hdb hevents⟩
  have hsame := (researchFacts_eq_iff s s').mp heq
  rcases h with ⟨subject, hmentions, hnot⟩ | ⟨subject, source, hsupports, hnot⟩
  · exact hnot ((hsame.1 subject).mpr hmentions)
  · exact hnot ((hsame.2 subject source).mpr hsupports)

end histories

/-! ### Results on given snapshots -/

section given

instance encodableChar : Encodable Char := Encodable.ofLeftInverse Char.toNat Char.ofNat Char.ofNat_toNat

instance encodableString : Encodable String := Encodable.ofLeftInverse String.toList String.ofList fun s => @String.ofList_toList s

deriving instance Encodable for Outcome, FailureMark, Subject

/-- A digest without collisions. -/
def numbered (s : Subject) : ℕ := Encodable.encode s

/-- The text of a number. -/
def digits (n : ℕ) : String := String.ofList (Nat.toDigits 10 n)

theorem numbered_injective : Function.Injective numbered := Encodable.encode_injective

theorem digits_injective : Function.Injective digits := by
  intro m n h
  have hvalue := congrArg (fun l => Nat.ofDigitChars 10 l 0) (String.ofList_injective h)
  simpa only [Nat.ofDigitChars_ten_toDigits] using hvalue

def bankSource : SnapshotEvidence := ⟨10, 20, "https://bank.example", none⟩

def newsSource : SnapshotEvidence := ⟨11, 21, "https://news.example", none⟩

def firstClaim : SnapshotClaim := ⟨3, "Rates rose", "high", [bankSource, newsSource]⟩

def secondClaim : SnapshotClaim := ⟨4, "Yields fell", "low", [bankSource]⟩

/-- The first claim alone does not mention the second. -/
theorem firstClaim_silent : ¬ Snapshot.Mentions id ⟨1, 2, [firstClaim]⟩ (secondClaim.subject id) := by
  rintro ⟨c, hc, hsubject⟩
  obtain rfl := List.mem_singleton.mp hc
  have himportance : "high" = "low" := (Prod.mk.inj hsubject).2
  exact absurd himportance (by decide)

/-- With the claims in another order and one of them split, a snapshot has the same facts; with one claim more it has
others. -/
theorem signatures_presentation_independent_split :
    researchFacts id (Snapshot.report ⟨1, 2, [firstClaim, secondClaim]⟩) =
      researchFacts id (Snapshot.report ⟨1, 2, [{ firstClaim with claimId := 5, evidence := [newsSource] }, secondClaim,
        { firstClaim with evidence := [bankSource] }]⟩) ∧
    researchFacts id (Snapshot.report ⟨1, 2, [firstClaim]⟩) ≠
      researchFacts id (Snapshot.report ⟨1, 2, [firstClaim, secondClaim]⟩) := by
  have hlaws := signatures_presentation_independent id id numbered digits id numbered_injective digits_injective
    Function.injective_id
  have hsplit : Presents id ⟨1, 2, [firstClaim, secondClaim]⟩ ⟨1, 2, [{ firstClaim with evidence := [bankSource] },
      { firstClaim with claimId := 5, evidence := [newsSource] }, secondClaim]⟩ :=
    .split (show firstClaim.evidence = [bankSource] ++ [newsSource] from rfl)
  refine ⟨hlaws.2.1 _ _ (hsplit.trans (.reorder (by decide))), hlaws.2.2.1 _ _ (.inl ⟨secondClaim.subject id, ?_, ?_⟩)⟩
  · exact ⟨secondClaim, List.mem_cons_of_mem _ List.mem_cons_self, rfl⟩
  · exact firstClaim_silent

/-- Three stored reports: both claims in one result, and each in a result of its own. -/
def splitReports : ProgressStore ℕ :=
  { works := fun _ => none
    mandate := fun _ _ => none
    reports := fun _ invocation =>
      if invocation = "both" then some (Snapshot.report ⟨1, 2, [firstClaim, secondClaim]⟩)
      else if invocation = "first" then some (Snapshot.report ⟨1, 2, [firstClaim]⟩)
      else some (Snapshot.report ⟨1, 2, [secondClaim]⟩)
    refs := fun _ _ => []
    progress := ∅
    samples := ∅
    facts := ∅ }

/-- A research invocation that succeeded. -/
def researchRow (invocation : String) : DailyRow :=
  (⟨1, invocation, "research", "1", "", false⟩, some ⟨.succeeded, [], [], none⟩)

/-- **Split across results**, the same claims are other facts: the daily Runs that report them in one result and in two
have two signatures. -/
theorem split_results_differ :
    dailySignature id id numbered digits id splitReports true [researchRow "both"] ≠
      dailySignature id id numbered digits id splitReports true [researchRow "first", researchRow "second"] := by
  have hboth : Presented splitReports [researchRow "both"] [⟨1, 2, [firstClaim, secondClaim]⟩] := .cons rfl .nil
  have hsplit : Presented splitReports [researchRow "first", researchRow "second"]
      [⟨1, 2, [firstClaim]⟩, ⟨1, 2, [secondClaim]⟩] := .cons rfl (.cons rfl .nil)
  obtain ⟨signature, h⟩ := @presented_signature _ _ id id numbered digits id _ _ _ hboth (by decide) (by decide)
  obtain ⟨signature', h'⟩ := @presented_signature _ _ id id numbered digits id _ _ _ hsplit (by decide) (by decide)
  rw [h, h']
  intro heq
  have hsame := (presented_signature_iff numbered_injective digits_injective Function.injective_id h h' hboth hsplit).mp
    (Option.some.inj heq)
  obtain ⟨s, hs, htold⟩ := hsame.2 _ List.mem_cons_self
  obtain rfl := List.mem_singleton.mp hs
  exact firstClaim_silent ((htold.1 _).mp ⟨secondClaim, List.mem_cons_of_mem _ List.mem_cons_self, rfl⟩)

end given

end HpAgent.Progress
