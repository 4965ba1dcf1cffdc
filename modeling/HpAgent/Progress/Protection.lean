import HpAgent.Progress.Samples

/-! # Progress protection over whole histories

Results are sampled and windows are reset in any order, for any number of Works and revisions, while the Works and the
results they rest on change.  The window of a revision is the list of its samples since its last reset, and the
counters of its row are two measures of the end of that window.

* `trailing`: the length of the trailing run of a list.
* `WorkProgress.Measures`: the row says what the window is.
* `progress_protection`: the laws over every history. -/

namespace HpAgent.Progress

open Library

/-! ### Trailing runs -/

section trailing

variable {α : Type}

/-- How many of the last entries satisfy the condition in a row. -/
def trailing (p : α → Bool) (l : List α) : ℕ := (l.reverse.takeWhile p).length

theorem trailing_concat (p : α → Bool) (l : List α) (a : α) :
    trailing p (l ++ [a]) = if p a then trailing p l + 1 else 0 := by
  unfold trailing
  rw [List.reverse_concat, List.takeWhile_cons]
  split <;> rfl

end trailing

/-! ### Windows -/

section windows

variable {δ : Type} [DecidableEq δ]

/-- A sample: its invocation, the signature of a failure, the facts it observed and how many of them were new, and
whether it was a normal daily occurrence. -/
structure Sampled (δ : Type) where
  invocation : String
  failure : Option δ
  observed : List δ
  newFacts : ℕ
  quiet : Bool
deriving DecidableEq

/-- The sample added a fact, or was a normal daily occurrence. -/
def Sampled.progressed (s : Sampled δ) : Bool := 0 < s.newFacts || s.quiet

/-- The length of the trailing run of results with one failure signature. -/
def trailingFailures (window : List (Sampled δ)) : ℕ :=
  match window.getLast?.bind Sampled.failure with
  | some signature => trailing (fun s => s.failure = some signature) window
  | none => 0

/-- The number of trailing samples without progress. -/
def trailingNoProgress (window : List (Sampled δ)) : ℕ := trailing (fun s => !s.progressed) window

/-- The reason of the first sample at which a counter reached its limit. -/
def firstReason (failureLimit noProgressLimit : ℕ) : List (Sampled δ) → List (Sampled δ) → Option BlockedReason
  | _, [] => none
  | seen, s :: rest =>
      if failureLimit ≤ trailingFailures (seen ++ [s]) then some .repeatedFailure
      else if noProgressLimit ≤ trailingNoProgress (seen ++ [s]) then some .noProgress
      else firstReason failureLimit noProgressLimit (seen ++ [s]) rest

theorem trailingFailures_concat (window : List (Sampled δ)) (s : Sampled δ) :
    trailingFailures (window ++ [s]) =
      if s.failure.isSome then
        (if window.getLast?.bind Sampled.failure = s.failure then trailingFailures window + 1 else 1)
      else 0 := by
  unfold trailingFailures
  rw [List.getLast?_concat, Option.bind_some]
  cases hs : s.failure with
  | none => rfl
  | some signature =>
      simp only [Option.isSome_some, if_true]
      rw [trailing_concat]
      simp only [hs, decide_true, if_true]
      split
      · next hlast => rw [hlast]
      · next hlast =>
          -- the last sample before has another signature, so its run ends there
          rcases List.eq_nil_or_concat window with rfl | ⟨before, last, rfl⟩
          · rfl
          · rw [List.concat_eq_append] at hlast ⊢
            rw [List.getLast?_concat, Option.bind_some] at hlast
            rw [trailing_concat, decide_eq_false hlast]
            rfl

theorem firstReason_concat (failureLimit noProgressLimit : ℕ) (seen window : List (Sampled δ)) (s : Sampled δ) :
    firstReason failureLimit noProgressLimit seen (window ++ [s]) =
      (firstReason failureLimit noProgressLimit seen window).orElse fun _ =>
        if failureLimit ≤ trailingFailures (seen ++ window ++ [s]) then some .repeatedFailure
        else if noProgressLimit ≤ trailingNoProgress (seen ++ window ++ [s]) then some .noProgress
        else none := by
  induction window generalizing seen with
  | nil =>
      rw [List.nil_append, List.append_nil]
      rfl
  | cons t rest ih =>
      rw [List.cons_append, firstReason, firstReason]
      split
      · rfl
      · split
        · rfl
        · rw [ih, List.append_assoc seen [t] rest]
          rfl

/-- A window has a reason exactly when a counter reached its limit at one of its samples. -/
theorem firstReason_isSome_iff (failureLimit noProgressLimit : ℕ) (seen window : List (Sampled δ)) :
    (firstReason failureLimit noProgressLimit seen window).isSome = true ↔
      ∃ before s after, window = before ++ s :: after ∧
        (failureLimit ≤ trailingFailures (seen ++ before ++ [s]) ∨
          noProgressLimit ≤ trailingNoProgress (seen ++ before ++ [s])) := by
  induction window generalizing seen with
  | nil =>
      constructor
      · intro h
        cases h
      · rintro ⟨before, s, after, h, _⟩
        cases before <;> cases h
  | cons t rest ih =>
      rw [firstReason]
      constructor
      · intro h
        split at h
        · next hreached =>
            refine ⟨[], t, rest, rfl, .inl ?_⟩
            rw [List.append_nil]
            exact hreached
        · split at h
          · next hreached =>
              refine ⟨[], t, rest, rfl, .inr ?_⟩
              rw [List.append_nil]
              exact hreached
          · obtain ⟨before, s, after, rfl, hreached⟩ := (ih (seen ++ [t])).mp h
            rw [List.append_assoc seen [t] before] at hreached
            exact ⟨t :: before, s, after, rfl, hreached⟩
      · rintro ⟨before, s, after, heq, hreached⟩
        split
        · rfl
        · next hfailures =>
            split
            · rfl
            · next hprogress =>
                cases before with
                | nil =>
                    obtain ⟨rfl, rfl⟩ := List.cons.inj heq
                    rw [List.append_nil] at hreached
                    exact (hreached.elim hfailures hprogress).elim
                | cons b before =>
                    obtain ⟨rfl, rfl⟩ := List.cons.inj heq
                    refine (ih (seen ++ [t])).mpr ⟨before, s, after, rfl, ?_⟩
                    rw [List.append_assoc seen [t] before]
                    exact hreached

/-- The row says what the window is. -/
structure WorkProgress.Measures (p : WorkProgress δ) (window : List (Sampled δ)) : Prop where
  failures : p.consecutiveFailures = trailingFailures window
  last : p.lastFailure = window.getLast?.bind Sampled.failure
  noProgress : p.noProgressCount = trailingNoProgress window
  blocked : p.blockedReason = firstReason p.failureLimit p.noProgressLimit [] window

theorem WorkProgress.Measures.fresh (failureLimit noProgressLimit : ℕ) :
    (⟨failureLimit, noProgressLimit, 0, 0, none, none⟩ : WorkProgress δ).Measures [] :=
  ⟨rfl, rfl, rfl, rfl⟩

theorem WorkProgress.Measures.reset (p : WorkProgress δ) : p.reset.Measures [] := ⟨rfl, rfl, rfl, rfl⟩

/-- **One sample** keeps the row in step with its window. -/
theorem WorkProgress.Measures.count {p : WorkProgress δ} {window : List (Sampled δ)} (h : p.Measures window)
    (s : Sampled δ) : (p.count s.failure s.progressed).Measures (window ++ [s]) := by
  have hfailures : (p.count s.failure s.progressed).consecutiveFailures = trailingFailures (window ++ [s]) := by
    rw [trailingFailures_concat, ← h.last, ← h.failures]
    rfl
  have hprogress : (p.count s.failure s.progressed).noProgressCount = trailingNoProgress (window ++ [s]) := by
    unfold trailingNoProgress
    rw [trailing_concat]
    have hbefore : p.noProgressCount = trailing (fun s => !s.progressed) window := h.noProgress
    rw [← hbefore]
    cases hs : s.progressed <;> rfl
  refine ⟨hfailures, ?_, hprogress, ?_⟩
  · rw [List.getLast?_concat]
    rfl
  · have hconcat := firstReason_concat p.failureLimit p.noProgressLimit [] window s
    rw [List.nil_append, ← h.blocked, ← hfailures, ← hprogress] at hconcat
    exact hconcat.symm

end windows

/-! ### One result -/

section results

variable {δ : Type} [DecidableEq δ] {casefold sha256 : String → String} {digest : Subject → δ} {db db' : ProgressStore δ}

/-- The facts that are not known for the revision. -/
def unknown (db : ProgressStore δ) (key : WorkRevision) (l : List δ) : Finset δ :=
  l.toFinset.filter fun fact => db.facts.lookup (key, fact) = none

/-- `insertFacts` counts the facts that are new and makes them known. -/
theorem insertFacts_spec {key : WorkRevision} {invocation : String} {l : List δ} {n : ℕ}
    (h : (insertFacts key invocation l).run db = .ok (n, db')) :
    n = (unknown db key l).card ∧ db' = { db with facts := db'.facts } ∧
      ∀ k fact, (db'.facts.lookup (k, fact)).isSome = true ↔
        (db.facts.lookup (k, fact)).isSome = true ∨ k = key ∧ fact ∈ l := by
  induction l generalizing db n with
  | nil =>
      obtain ⟨rfl, rfl⟩ := Tx.pure_ok.mp h
      exact ⟨rfl, rfl, fun k fact => by simp⟩
  | cons fact rest ih =>
      unfold insertFacts at h
      rw [Tx.bind_query_ok] at h
      split at h
      · next hknown =>
          obtain ⟨hn, hsame, hfacts⟩ := ih h
          have hunknown : unknown db key (fact :: rest) = unknown db key rest := by
            unfold unknown
            rw [List.toFinset_cons, Finset.filter_insert, if_neg]
            intro hnone
            rw [hnone] at hknown
            cases hknown
          refine ⟨hn.trans (by rw [hunknown]), hsame, fun k f => ?_⟩
          rw [hfacts, List.mem_cons]
          constructor
          · rintro (hold | ⟨hk, hf⟩)
            · exact .inl hold
            · exact .inr ⟨hk, .inr hf⟩
          · rintro (hold | ⟨rfl, rfl | hf⟩)
            · exact .inl hold
            · exact .inl hknown
            · exact .inr ⟨rfl, hf⟩
      · next hnew =>
          have hnone : db.facts.lookup (key, fact) = none := by simpa using hnew
          rw [Tx.bind_update_ok] at h
          obtain ⟨m, db₁, hrest, h⟩ := Tx.bind_ok.mp h
          obtain ⟨rfl, rfl⟩ := Tx.pure_ok.mp h
          obtain ⟨hm, hsame, hfacts⟩ := ih hrest
          have hinserted : ∀ k f, (db.facts.insert (key, fact) invocation).lookup (k, f) =
              if (k, f) = (key, fact) then some invocation else db.facts.lookup (k, f) :=
            fun k f => Table.lookup_insert_ite _ _ _ _
          have hunknown : unknown db key (fact :: rest) =
              insert fact (unknown { db with facts := db.facts.insert (key, fact) invocation } key rest) := by
            ext f
            simp only [unknown, List.toFinset_cons, Finset.mem_filter, Finset.mem_insert, List.mem_toFinset, hinserted]
            by_cases hf : f = fact
            · subst hf
              simp [hnone]
            · simp [hf]
          have hout : fact ∉ unknown { db with facts := db.facts.insert (key, fact) invocation } key rest := by
            simp [unknown, hinserted]
          refine ⟨?_, hsame, fun k f => ?_⟩
          · rw [hunknown, Finset.card_insert_of_notMem hout, hm]
          · rw [hfacts, hinserted, List.mem_cons]
            by_cases hkey : (k, f) = (key, fact)
            · obtain ⟨rfl, rfl⟩ := Prod.mk.inj hkey
              simp
            · rw [if_neg hkey]
              constructor
              · rintro (hold | ⟨hk, hf⟩)
                · exact .inl hold
                · exact .inr ⟨hk, .inr hf⟩
              · rintro (hold | ⟨rfl, rfl | hf⟩)
                · exact .inl hold
                · exact absurd rfl hkey
                · exact .inr ⟨rfl, hf⟩

/-- The rows of the revision after its first count. -/
def opened (db : ProgressStore δ) (key : WorkRevision) (limits : ℤ × ℤ) : WorkProgress δ :=
  (db.progress.lookup key).getD ⟨limits.1.toNat, limits.2.toNat, 0, 0, none, none⟩

omit [DecidableEq δ] in
theorem coordinates_ok {r : ProgressRun} {work : Uuid} {current : Bool} :
    (coordinates db r work).run db = .ok (current, db') ↔ db = db' ∧
      ∃ w, (db.works work).filter (fun w => w.accountId = r.accountId) = some w ∧
        Authority.ownsProgression r.runId r.requirementRevision r.workControlEpoch w = current := by
  unfold coordinates
  simp only [Tx.bind_demand_ok, Tx.pure_ok]
  constructor
  · rintro ⟨w, hw, howns, hsame⟩
    exact ⟨hsame, w, hw, howns⟩
  · rintro ⟨hsame, w, hw, howns⟩
    exact ⟨w, hw, howns, hsame⟩

omit [DecidableEq δ] in
theorem lookup_opened (key : WorkRevision) (limits : ℤ × ℤ) (k : WorkRevision) :
    (if (db.progress.lookup key).isSome then db.progress
      else db.progress.insert key ⟨limits.1.toNat, limits.2.toNat, 0, 0, none, none⟩).lookup k =
      if k = key then some (opened db k limits) else db.progress.lookup k := by
  split
  · next hfound =>
      split
      · next hk =>
          obtain ⟨row, hrow⟩ := Option.isSome_iff_exists.mp hfound
          unfold opened
          rw [hk, hrow]
          rfl
      · rfl
  · next hnone =>
      rw [Table.lookup_insert_ite]
      split
      · next hk =>
          have hnone : db.progress.lookup k = none := by
            rw [hk]
            simpa using hnone
          unfold opened
          rw [hnone]
          rfl
      · rfl

/-- The result counts for the Work: its Run coordinates the Work, the limits are allowed, and the invocation is complex,
made for this revision and not sampled yet. -/
structure Counts (db : ProgressStore δ) (limits : ℤ × ℤ) (r : ProgressRun) (work : Uuid) (i : Invocation)
    (p : ResultPayload) : Prop where
  run : r.work = some work
  complex : i.atomic = false
  coordinates : ∃ w, (db.works work).filter (fun w => w.accountId = r.accountId) = some w ∧
    Authority.ownsProgression r.runId r.requirementRevision r.workControlEpoch w = true
  counted : uncounted p = false
  allowed : (1 ≤ limits.1 ∧ limits.1 ≤ 100) ∧ 1 ≤ limits.2 ∧ limits.2 ≤ 100
  first : db.samples.lookup (r.accountId, i.invocationId) = none
  mandated : db.mandate r.accountId i.invocationId = some (work, r.requirementRevision)

theorem insertFacts_runs {key : WorkRevision} {invocation : String} {l : List δ} :
    ∃ n db', (insertFacts key invocation l).run db = .ok (n, db') := by
  induction l generalizing db with
  | nil => exact ⟨0, db, rfl⟩
  | cons fact rest ih =>
      unfold insertFacts
      simp only [Tx.bind_query_ok]
      split
      · exact ih
      · obtain ⟨n, db', h⟩ := ih
        exact ⟨n + 1, db', Tx.bind_update_ok.mpr (Tx.bind_ok.mpr ⟨n, db', h, rfl⟩)⟩

/-- **A result that counts** is sampled, with the signature and the facts of its payload. -/
theorem Counts.runs {limits : ℤ × ℤ} {r : ProgressRun} {work : Uuid} {i : Invocation} {p : ResultPayload}
    (h : Counts db limits r work i p) : ∃ db', (recordResult casefold sha256 digest limits r i p).run db = .ok ((), db') ∧
      db'.samples.lookup (r.accountId, i.invocationId) =
        some ⟨(r.accountId, work, r.requirementRevision), p.outcome, failureOf digest i p,
          (unknown db (r.accountId, work, r.requirementRevision) (resultFacts casefold sha256 digest db i p)).card⟩ := by
  have hcurrent : (Progress.coordinates db r work).run db = .ok (true, db) := coordinates_ok.mpr ⟨rfl, h.coordinates⟩
  have hlookup := @lookup_opened _ db (r.accountId, work, r.requirementRevision) limits
    (r.accountId, work, r.requirementRevision)
  rw [if_pos rfl] at hlookup
  generalize hprogress : (if (db.progress.lookup (r.accountId, work, r.requirementRevision)).isSome then db.progress
    else db.progress.insert (r.accountId, work, r.requirementRevision)
      ⟨limits.1.toNat, limits.2.toNat, 0, 0, none, none⟩) = progress at hlookup
  obtain ⟨n, db₁, hfacts⟩ := @insertFacts_runs δ _ { db with progress := progress }
    (r.accountId, work, r.requirementRevision) i.invocationId (resultFacts casefold sha256 digest db i p)
  obtain ⟨hn, hsame, _⟩ := insertFacts_spec hfacts
  refine ⟨{ db₁ with
      samples := db₁.samples.insert (r.accountId, i.invocationId)
        ⟨(r.accountId, work, r.requirementRevision), p.outcome, failureOf digest i p, n⟩
      progress := db₁.progress.insert (r.accountId, work, r.requirementRevision)
        ((opened db (r.accountId, work, r.requirementRevision) limits).count (failureOf digest i p)
          (0 < n || normalDaily r (failureOf digest i p) (resultFacts casefold sha256 digest db i p))) }, ?_, ?_⟩
  · unfold recordResult
    rw [h.run]
    dsimp only
    rw [if_neg (by rw [h.complex]; decide), Tx.bind_query_ok, Tx.bind_ok]
    refine ⟨true, db, hcurrent, ?_⟩
    rw [if_neg (by rw [h.counted]; decide), Tx.bind_check_ok, Tx.bind_update_ok, Tx.bind_query_ok]
    refine ⟨h.allowed, ?_⟩
    rw [hprogress, if_neg (by rw [h.first]; exact Bool.false_ne_true)]
    unfold sample
    rw [Tx.bind_query_ok, Tx.bind_query_ok, Tx.bind_check_ok, Tx.bind_ok]
    refine ⟨h.mandated, n, db₁, hfacts, ?_⟩
    rw [Tx.bind_query_ok, Tx.bind_demand_ok]
    rw [hsame]
    exact ⟨_, hlookup, rfl⟩
  · rw [hn]
    exact AList.lookup_insert _

/-- What a result did: nothing, or it opened the row of its revision, and possibly added one sample to it. -/
theorem recordResult_ok {limits : ℤ × ℤ} {r : ProgressRun} {i : Invocation} {p : ResultPayload} {u : Unit}
    (h : (recordResult casefold sha256 digest limits r i p).run db = .ok (u, db')) :
    db' = db ∨ ∃ work, r.work = some work ∧
      ((db.samples.lookup (r.accountId, i.invocationId)).isSome = true ∧ db'.samples = db.samples ∧ db'.facts = db.facts ∧
          (∀ k, db'.progress.lookup k = if k = (r.accountId, work, r.requirementRevision)
            then some (opened db k limits) else db.progress.lookup k) ∨
        Counts db limits r work i p ∧
          ∃ new, new = (unknown db (r.accountId, work, r.requirementRevision) (resultFacts casefold sha256 digest db i p)).card ∧
            db'.samples = db.samples.insert (r.accountId, i.invocationId)
              ⟨(r.accountId, work, r.requirementRevision), p.outcome, failureOf digest i p, new⟩ ∧
            (∀ k fact, (db'.facts.lookup (k, fact)).isSome = true ↔ (db.facts.lookup (k, fact)).isSome = true ∨
              k = (r.accountId, work, r.requirementRevision) ∧ fact ∈ resultFacts casefold sha256 digest db i p) ∧
            ∀ k, db'.progress.lookup k = if k = (r.accountId, work, r.requirementRevision)
              then some ((opened db k limits).count (failureOf digest i p)
                (0 < new || normalDaily r (failureOf digest i p) (resultFacts casefold sha256 digest db i p)))
              else db.progress.lookup k) := by
  unfold recordResult at h
  split at h
  · obtain ⟨_, rfl⟩ := Tx.pure_ok.mp h
    exact .inl rfl
  · next work hwork =>
      split at h
      · obtain ⟨_, rfl⟩ := Tx.pure_ok.mp h
        exact .inl rfl
      · next hcomplex =>
        rw [Tx.bind_query_ok] at h
        obtain ⟨current, db₀, hcurrent, h⟩ := Tx.bind_ok.mp h
        obtain ⟨rfl, hcoordinates⟩ := (@coordinates_ok δ db db₀ r work current).mp hcurrent
        split at h
        · obtain ⟨_, rfl⟩ := Tx.pure_ok.mp h
          exact .inl rfl
        · next hproceeds =>
          rw [Tx.bind_check_ok, Tx.bind_update_ok, Tx.bind_query_ok] at h
          rw [not_or, Bool.not_eq_false, Bool.not_eq_true] at hproceeds
          refine .inr ⟨work, hwork, ?_⟩
          have hopened := @lookup_opened _ db (r.accountId, work, r.requirementRevision) limits
          obtain ⟨hallowed, h⟩ := h
          generalize (if (db.progress.lookup (r.accountId, work, r.requirementRevision)).isSome then db.progress
            else db.progress.insert (r.accountId, work, r.requirementRevision)
              ⟨limits.1.toNat, limits.2.toNat, 0, 0, none, none⟩) = progress at h hopened
          split at h
          · next hsampled =>
              obtain ⟨_, rfl⟩ := Tx.pure_ok.mp h
              exact .inl ⟨hsampled, rfl, rfl, hopened⟩
          · next hsampled =>
              have hnone : db.samples.lookup (r.accountId, i.invocationId) = none := by simpa using hsampled
              unfold sample at h
              rw [Tx.bind_query_ok, Tx.bind_query_ok, Tx.bind_check_ok] at h
              obtain ⟨hmandate, h⟩ := h
              obtain ⟨new, db₁, hfacts, h⟩ := Tx.bind_ok.mp h
              obtain ⟨hnew, hsame, hknown⟩ := insertFacts_spec hfacts
              rw [Tx.bind_query_ok, Tx.bind_demand_ok] at h
              obtain ⟨state, hstate, h⟩ := h
              obtain rfl := Tx.update_ok.mp h
              rw [hsame] at hstate
              have hstate := (hopened _).symm.trans hstate
              rw [if_pos rfl] at hstate
              obtain rfl := Option.some.inj hstate
              have hcounts : Counts db limits r work i p :=
                ⟨hwork, by simpa using hcomplex, hproceeds.1 ▸ hcoordinates, hproceeds.2, hallowed, hnone, hmandate⟩
              refine .inr ⟨hcounts, new, hnew, ?_, hknown, fun k => ?_⟩
              · rw [hsame]
              · rw [hsame]
                show (AList.insert _ _ _).lookup k = _
                rw [Table.lookup_insert_ite]
                split
                · next hk =>
                    subst hk
                    rfl
                · next hk =>
                    have hrow := hopened k
                    rw [if_neg hk] at hrow
                    exact hrow

end results

/-! ### Histories -/

section histories

variable {δ : Type} [DecidableEq δ] (casefold sha256 : String → String) (digest : Subject → δ)

/-- One committed transaction: the result of a Run, a reset of a Work, or a change of what they read. -/
inductive Event where
  | result (limits : ℤ × ℤ) (r : ProgressRun) (i : Invocation) (p : ResultPayload)
  | reset (account work : Uuid)
  | surroundings (works : Uuid → Option WorkAuthority) (mandate : Uuid → String → Option (Uuid × ℕ))
      (reports : Uuid → String → Option (List ResearchClaim)) (refs : Uuid → String → List ResultRef)

/-- The database, all samples in their order, and the window of each revision: its samples since its last reset. -/
structure World (δ : Type) where
  db : ProgressStore δ
  log : List (WorkRevision × Sampled δ)
  windows : WorkRevision → List (Sampled δ)

/-- The revision and the sample of a result, as the database holds it afterwards. -/
def sampledBy (db db' : ProgressStore δ) (r : ProgressRun) (i : Invocation) (p : ResultPayload) :
    Option (WorkRevision × Sampled δ) :=
  match db.samples.lookup (r.accountId, i.invocationId), db'.samples.lookup (r.accountId, i.invocationId) with
  | none, some s =>
      let observed := resultFacts casefold sha256 digest db i p
      some (s.revision, ⟨i.invocationId, s.failureSignature, observed, s.newFacts, normalDaily r s.failureSignature observed⟩)
  | _, _ => none

/-- The sample of a result that counts for the Work. -/
def sampleOf (db : ProgressStore δ) (r : ProgressRun) (work : Uuid) (i : Invocation) (p : ResultPayload) :
    WorkRevision × Sampled δ :=
  let key : WorkRevision := (r.accountId, work, r.requirementRevision)
  let observed := resultFacts casefold sha256 digest db i p
  let failure := failureOf digest i p
  (key, ⟨i.invocationId, failure, observed, (unknown db key observed).card, normalDaily r failure observed⟩)

/-- The revision a reset is about. -/
def resetOf (db : ProgressStore δ) (account work : Uuid) : Option WorkRevision :=
  ((db.works work).filter fun w => w.accountId = account).map fun w => (account, work, w.currentRequirementRevision)

def World.after (w : World δ) : Event → World δ
  | .result limits r i p =>
      let db := (recordResult casefold sha256 digest limits r i p).commit w.db
      match sampledBy casefold sha256 digest w.db db r i p with
      | some e => ⟨db, w.log ++ [e], Function.update w.windows e.1 (w.windows e.1 ++ [e.2])⟩
      | none => ⟨db, w.log, w.windows⟩
  | .reset account work =>
      match resetOf w.db account work with
      | some key => ⟨(Progress.reset account work).commit w.db, w.log, Function.update w.windows key []⟩
      | none => ⟨(Progress.reset account work).commit w.db, w.log, w.windows⟩
  | .surroundings works mandate reports refs =>
      ⟨{ w.db with works := works, mandate := mandate, reports := reports, refs := refs }, w.log, w.windows⟩

/-- A store without progress rows. -/
def World.start (db : ProgressStore δ) : World δ :=
  ⟨{ db with progress := ∅, samples := ∅, facts := ∅ }, [], fun _ => []⟩

def World.run (db : ProgressStore δ) (events : List Event) : World δ :=
  events.foldl (World.after casefold sha256 digest) (World.start db)

/-- The facts of an entry that no earlier entry of its revision observed. -/
def freshFacts (before : List (WorkRevision × Sampled δ)) (e : WorkRevision × Sampled δ) : Finset δ :=
  e.2.observed.toFinset.filter fun fact => ∀ e' ∈ before, e'.1 = e.1 → fact ∉ e'.2.observed

/-- The rows agree with the samples. -/
structure Tracked (w : World δ) : Prop where
  rows : ∀ key p, w.db.progress.lookup key = some p → p.Measures (w.windows key)
  closed : ∀ key, w.db.progress.lookup key = none → w.windows key = []
  known : ∀ key fact, (w.db.facts.lookup (key, fact)).isSome = true ↔ ∃ e ∈ w.log, e.1 = key ∧ fact ∈ e.2.observed
  sampled : ∀ e ∈ w.log, (w.db.samples.lookup (e.1.1, e.2.invocation)).isSome = true
  once : (w.log.map fun e => (e.1.1, e.2.invocation)).Nodup
  counted : ∀ before e after, w.log = before ++ e :: after → e.2.newFacts = (freshFacts before e).card

theorem Tracked.start (db : ProgressStore δ) : Tracked (World.start db) := by
  refine ⟨fun key p hp => ?_, fun _ _ => rfl, fun key fact => ?_, nofun, List.nodup_nil, fun before e after h => ?_⟩
  · have hp : (∅ : Table WorkRevision (WorkProgress δ)).lookup key = some p := hp
    rw [AList.lookup_empty] at hp
    cases hp
  · show ((∅ : Table (WorkRevision × δ) String).lookup (key, fact)).isSome = true ↔ _
    rw [AList.lookup_empty]
    constructor
    · intro h
      cases h
    · rintro ⟨_, hmem, _⟩
      cases hmem
  · have hlength := congrArg List.length h
    rw [List.length_append, List.length_cons] at hlength
    simp [World.start] at hlength

variable {casefold sha256 digest}

omit [DecidableEq δ] in
theorem commit_cases {α : Type} (m : ProgressTx δ α) (db : ProgressStore δ) :
    m.commit db = db ∨ ∃ a, m.run db = .ok (a, m.commit db) := by
  unfold Tx.commit
  cases h : m.run db with
  | error e => exact .inl rfl
  | ok p => exact .inr ⟨p.1, rfl⟩

omit [DecidableEq δ] in
theorem sampledBy_same {db db' : ProgressStore δ} (h : db'.samples = db.samples) (r : ProgressRun) (i : Invocation)
    (p : ResultPayload) : sampledBy casefold sha256 digest db db' r i p = none := by
  unfold sampledBy
  rw [h]
  cases db.samples.lookup (r.accountId, i.invocationId) <;> rfl

section counting

variable {db : ProgressStore δ} {limits : ℤ × ℤ} {r : ProgressRun} {work : Uuid} {i : Invocation} {p : ResultPayload}

theorem sampledBy_counts (h : Counts db limits r work i p) :
    sampledBy casefold sha256 digest db ((recordResult casefold sha256 digest limits r i p).commit db) r i p =
      some (sampleOf casefold sha256 digest db r work i p) := by
  obtain ⟨db', hrun, hsample⟩ := @Counts.runs _ _ casefold sha256 digest _ _ _ _ _ _ h
  have hcommit : (recordResult casefold sha256 digest limits r i p).commit db = db' := by
    unfold Tx.commit
    rw [hrun]
  unfold sampledBy
  rw [hcommit, h.first, hsample]
  rfl

/-- A result that counts for no Work is not sampled. -/
theorem sampledBy_idle (h : ∀ work, ¬Counts db limits r work i p) :
    sampledBy casefold sha256 digest db ((recordResult casefold sha256 digest limits r i p).commit db) r i p = none := by
  rcases commit_cases (recordResult casefold sha256 digest limits r i p) db with hsame | ⟨u, hrun⟩
  · exact sampledBy_same (by rw [hsame]) r i p
  · obtain hsame | ⟨work, _, ⟨_, hsame, _, _⟩ | ⟨hcounts, _⟩⟩ := recordResult_ok hrun
    · exact sampledBy_same (by rw [hsame]) r i p
    · exact sampledBy_same hsame r i p
    · exact absurd hcounts (h work)

end counting

/-- The row of a revision, opened or there before, measures its window. -/
theorem Tracked.opened {w : World δ} (hw : Tracked w) (key : WorkRevision) (limits : ℤ × ℤ) :
    (Progress.opened w.db key limits).Measures (w.windows key) := by
  unfold Progress.opened
  cases hp : w.db.progress.lookup key with
  | none =>
      rw [hw.closed key hp]
      exact .fresh _ _
  | some p => exact hw.rows key p hp

/-- A result that adds no sample keeps the rows in step, when it opens at most the row of its revision. -/
theorem Tracked.unsampled {w : World δ} (hw : Tracked w) {db' : ProgressStore δ} {key : WorkRevision} {limits : ℤ × ℤ}
    (hsamples : db'.samples = w.db.samples) (hfacts : db'.facts = w.db.facts)
    (hprogress : ∀ k, db'.progress.lookup k = if k = key then some (Progress.opened w.db k limits) else w.db.progress.lookup k) :
    Tracked ⟨db', w.log, w.windows⟩ := by
  refine ⟨fun k p hp => ?_, fun k hnone => ?_, fun k fact => ?_, fun e he => ?_, hw.once, hw.counted⟩
  · have hp : db'.progress.lookup k = some p := hp
    rw [hprogress] at hp
    split at hp
    · obtain rfl := Option.some.inj hp
      exact hw.opened k limits
    · exact hw.rows k p hp
  · have hnone : db'.progress.lookup k = none := hnone
    rw [hprogress] at hnone
    split at hnone
    · cases hnone
    · exact hw.closed k hnone
  · show (db'.facts.lookup (k, fact)).isSome = true ↔ _
    rw [hfacts]
    exact hw.known k fact
  · show (db'.samples.lookup _).isSome = true
    rw [hsamples]
    exact hw.sampled e he

/-- A result that adds a sample. -/
theorem Tracked.sample {w : World δ} (hw : Tracked w) {db' : ProgressStore δ} {key : WorkRevision} {limits : ℤ × ℤ}
    {s : Sampled δ} {row : ProgressSample δ} (hnone : w.db.samples.lookup (key.1, s.invocation) = none)
    (hnew : s.newFacts = (unknown w.db key s.observed).card)
    (hsamples : db'.samples = w.db.samples.insert (key.1, s.invocation) row)
    (hfacts : ∀ k fact, (db'.facts.lookup (k, fact)).isSome = true ↔
      (w.db.facts.lookup (k, fact)).isSome = true ∨ k = key ∧ fact ∈ s.observed)
    (hprogress : ∀ k, db'.progress.lookup k = if k = key
      then some ((Progress.opened w.db k limits).count s.failure s.progressed) else w.db.progress.lookup k) :
    Tracked ⟨db', w.log ++ [(key, s)], Function.update w.windows key (w.windows key ++ [s])⟩ := by
  have hcard : s.newFacts = (freshFacts w.log (key, s)).card := by
    rw [hnew]
    congr 1
    ext fact
    simp only [unknown, freshFacts, Finset.mem_filter, List.mem_toFinset]
    have hknown := hw.known key fact
    constructor
    · rintro ⟨hmem, hfree⟩
      refine ⟨hmem, fun e he hkey hobserved => ?_⟩
      rw [hfree] at hknown
      cases hknown.mpr ⟨e, he, hkey, hobserved⟩
    · rintro ⟨hmem, hfree⟩
      refine ⟨hmem, ?_⟩
      rw [← Option.not_isSome_iff_eq_none, hknown]
      rintro ⟨e, he, hkey, hobserved⟩
      exact hfree e he hkey hobserved
  refine ⟨fun k p hp => ?_, fun k hnone => ?_, fun k fact => ?_, fun e he => ?_, ?_, fun before e after hlog => ?_⟩
  · have hp : db'.progress.lookup k = some p := hp
    rw [hprogress] at hp
    split at hp
    · next hk =>
        obtain rfl := Option.some.inj hp
        subst hk
        dsimp only
        rw [Function.update_self]
        exact (hw.opened k limits).count s
    · next hk =>
        dsimp only
        rw [Function.update_of_ne hk]
        exact hw.rows k p hp
  · have hnone : db'.progress.lookup k = none := hnone
    rw [hprogress] at hnone
    split at hnone
    · cases hnone
    · next hk =>
        dsimp only
        rw [Function.update_of_ne hk]
        exact hw.closed k hnone
  · show (db'.facts.lookup (k, fact)).isSome = true ↔ _
    rw [hfacts, hw.known]
    constructor
    · rintro (⟨e, he, hkey, hobserved⟩ | ⟨rfl, hobserved⟩)
      · exact ⟨e, List.mem_append_left _ he, hkey, hobserved⟩
      · exact ⟨(k, s), List.mem_append_right _ (List.mem_singleton.mpr rfl), rfl, hobserved⟩
    · rintro ⟨e, he, rfl, hobserved⟩
      rcases List.mem_append.mp he with he | he
      · exact .inl ⟨e, he, rfl, hobserved⟩
      · obtain rfl := List.mem_singleton.mp he
        exact .inr ⟨rfl, hobserved⟩
  · show (db'.samples.lookup _).isSome = true
    rw [hsamples, Table.lookup_insert_ite]
    split
    · rfl
    · next hother =>
        rcases List.mem_append.mp he with he | he
        · exact hw.sampled e he
        · obtain rfl := List.mem_singleton.mp he
          exact absurd rfl hother
  · rw [List.map_append, List.nodup_append]
    refine ⟨hw.once, List.nodup_singleton _, ?_⟩
    rintro a ha b hb rfl
    obtain ⟨e, he, rfl⟩ := List.mem_map.mp ha
    have heq : (e.1.1, e.2.invocation) = (key.1, s.invocation) := List.mem_singleton.mp hb
    have hsome := hw.sampled e he
    rw [heq, hnone] at hsome
    cases hsome
  · rcases List.eq_nil_or_concat after with rfl | ⟨rest, last, rfl⟩
    · obtain ⟨rfl, hlast⟩ := List.append_inj' hlog rfl
      obtain rfl := List.singleton_inj.mp hlast
      exact hcard
    · rw [List.concat_eq_append, ← List.cons_append, ← List.append_assoc] at hlog
      obtain ⟨hbefore, _⟩ := List.append_inj' hlog rfl
      exact hw.counted before e rest hbefore

omit [DecidableEq δ] in
theorem reset_ok {db db' : ProgressStore δ} {account work : Uuid} {u : Unit}
    (h : (Progress.reset account work).run db = .ok (u, db')) : ∃ key, resetOf db account work = some key ∧
      db' = { db with progress := Table.modify key WorkProgress.reset db.progress } := by
  unfold Progress.reset at h
  rw [Tx.bind_query_ok, Tx.bind_demand_ok] at h
  obtain ⟨row, hrow, h⟩ := h
  obtain rfl := Tx.update_ok.mp h
  refine ⟨(account, work, row.currentRequirementRevision), ?_, rfl⟩
  unfold resetOf
  rw [hrow]
  rfl

omit [DecidableEq δ] in
theorem reset_raises {db : ProgressStore δ} {account work : Uuid} (h : resetOf db account work = none) :
    (Progress.reset account work).commit db = db := by
  refine Tx.commit_rule (fun s => s = db) rfl fun u s hrun => ?_
  obtain ⟨key, hkey, _⟩ := reset_ok hrun
  rw [h] at hkey
  cases hkey

omit [DecidableEq δ] in
theorem reset_commit {db : ProgressStore δ} {account work : Uuid} {key : WorkRevision} (h : resetOf db account work = some key) :
    (Progress.reset account work).commit db = { db with progress := Table.modify key WorkProgress.reset db.progress } := by
  obtain ⟨row, hrow, rfl⟩ := Option.map_eq_some_iff.mp h
  have hrun : (Progress.reset account work).run db = .ok ((), { db with
      progress := Table.modify (account, work, row.currentRequirementRevision) WorkProgress.reset db.progress }) := by
    unfold Progress.reset
    rw [Tx.bind_query_ok, Tx.bind_demand_ok]
    exact ⟨row, hrow, rfl⟩
  unfold Tx.commit
  rw [hrun]

/-- **One step** keeps the rows in step with the samples. -/
theorem Tracked.after {w : World δ} (hw : Tracked w) (event : Event) :
    Tracked (w.after casefold sha256 digest event) := by
  cases event with
  | result limits r i p =>
      unfold World.after
      dsimp only
      rcases commit_cases (recordResult casefold sha256 digest limits r i p) w.db with hsame | ⟨u, hrun⟩
      · rw [hsame, sampledBy_same rfl]
        exact hw
      · rcases recordResult_ok hrun with hsame | ⟨work, _, ⟨_, hsamples, hfacts, hprogress⟩ |
          ⟨hcounts, new, rfl, hsamples, hfacts, hprogress⟩⟩
        · rw [hsame, sampledBy_same rfl]
          exact hw
        · rw [sampledBy_same hsamples]
          exact hw.unsampled hsamples hfacts hprogress
        · rw [sampledBy_counts hcounts]
          exact hw.sample hcounts.first rfl hsamples hfacts hprogress
  | reset account work =>
      unfold World.after
      dsimp only
      cases hkey : resetOf w.db account work with
      | none =>
          dsimp only
          rw [reset_raises hkey]
          exact hw
      | some key =>
          dsimp only
          rw [reset_commit hkey]
          refine ⟨fun k p hp => ?_, fun k hnone => ?_, hw.known, hw.sampled, hw.once, hw.counted⟩
          · have hp : (Table.modify key WorkProgress.reset w.db.progress).lookup k = some p := hp
            rw [Table.lookup_modify] at hp
            split at hp
            · next hk =>
                subst hk
                obtain ⟨before, _, rfl⟩ := Option.map_eq_some_iff.mp hp
                dsimp only
                rw [Function.update_self]
                exact .reset before
            · next hk =>
                dsimp only
                rw [Function.update_of_ne hk]
                exact hw.rows k p hp
          · have hnone : (Table.modify key WorkProgress.reset w.db.progress).lookup k = none := hnone
            rw [Table.lookup_modify] at hnone
            split at hnone
            · next hk =>
                subst hk
                dsimp only
                rw [Function.update_self]
            · next hk =>
                dsimp only
                rw [Function.update_of_ne hk]
                exact hw.closed k hnone
  | surroundings works mandate reports refs => exact ⟨hw.rows, hw.closed, hw.known, hw.sampled, hw.once, hw.counted⟩

theorem Tracked.run (db : ProgressStore δ) (events : List Event) : Tracked (World.run casefold sha256 digest db events) := by
  unfold World.run
  exact List.foldlRecOn events (World.after casefold sha256 digest) (Tracked.start db) fun _ hw event _ => hw.after event

/-- The event resets the window of the revision. -/
def Event.Resets (w : World δ) (key : WorkRevision) : Event → Prop
  | .reset account work => resetOf w.db account work = some key
  | _ => False

/-- A row keeps its limits, and its reason until its window is reset. -/
theorem row_after (w : World δ) (event : Event) {key : WorkRevision} {p : WorkProgress δ}
    (hp : w.db.progress.lookup key = some p) :
    ∃ p', (w.after casefold sha256 digest event).db.progress.lookup key = some p' ∧
      p'.failureLimit = p.failureLimit ∧ p'.noProgressLimit = p.noProgressLimit ∧
      (event.Resets w key ∨ ∀ reason, p.blockedReason = some reason → p'.blockedReason = some reason) := by
  have hsame : ∃ p', w.db.progress.lookup key = some p' ∧ p'.failureLimit = p.failureLimit ∧
      p'.noProgressLimit = p.noProgressLimit ∧
      (event.Resets w key ∨ ∀ reason, p.blockedReason = some reason → p'.blockedReason = some reason) :=
    ⟨p, hp, rfl, rfl, .inr fun _ h => h⟩
  cases event with
  | result limits r i payload =>
      have hdb : (w.after casefold sha256 digest (.result limits r i payload)).db =
          (recordResult casefold sha256 digest limits r i payload).commit w.db := by
        unfold World.after
        dsimp only
        split <;> rfl
      rw [hdb]
      rcases commit_cases (recordResult casefold sha256 digest limits r i payload) w.db with hstore | ⟨u, hrun⟩
      · rw [hstore]
        exact hsame
      · have hopened : Progress.opened w.db key limits = p := by
          unfold Progress.opened
          rw [hp]
          rfl
        rcases recordResult_ok hrun with hstore | ⟨work, _, ⟨_, _, _, hprogress⟩ | ⟨_, new, _, _, _, hprogress⟩⟩
        · rw [hstore]
          exact hsame
        · rw [hprogress, hopened]
          split
          · exact ⟨p, rfl, rfl, rfl, .inr fun _ h => h⟩
          · exact hsame
        · rw [hprogress, hopened]
          split
          · refine ⟨_, rfl, rfl, rfl, .inr fun reason h => ?_⟩
            unfold WorkProgress.count
            dsimp only
            rw [h]
            rfl
          · exact hsame
  | reset account work =>
      have hdb : (w.after casefold sha256 digest (.reset account work)).db = (Progress.reset account work).commit w.db := by
        unfold World.after
        dsimp only
        split <;> rfl
      rw [hdb]
      cases hkey : resetOf w.db account work with
      | none =>
          rw [reset_raises hkey]
          exact hsame
      | some k =>
          rw [reset_commit hkey]
          show ∃ p', (Table.modify k WorkProgress.reset w.db.progress).lookup key = some p' ∧ _
          rw [Table.lookup_modify]
          split
          · next hk =>
              subst hk
              rw [hp]
              exact ⟨p.reset, rfl, rfl, rfl, .inl hkey⟩
          · exact hsame
  | surroundings works mandate reports refs => exact hsame

/-- What holds after a history. -/
structure Protected (casefold sha256 : String → String) (digest : Subject → δ) (w : World δ) : Prop where
  /-- The row counts the trailing run of one failure signature and the trailing run of samples without progress; it is
  blocked for the first sample at which a counter reached its limit, so exactly when there is one. -/
  row : ∀ key p, w.db.progress.lookup key = some p →
    p.consecutiveFailures = trailingFailures (w.windows key) ∧ p.noProgressCount = trailingNoProgress (w.windows key) ∧
      p.blockedReason = firstReason p.failureLimit p.noProgressLimit [] (w.windows key) ∧
      (p.blockedReason.isSome = true ↔ ∃ before s after, w.windows key = before ++ s :: after ∧
        (p.failureLimit ≤ trailingFailures (before ++ [s]) ∨ p.noProgressLimit ≤ trailingNoProgress (before ++ [s])))
  closed : ∀ key, w.db.progress.lookup key = none → w.windows key = []
  once : (w.log.map fun e => (e.1.1, e.2.invocation)).Nodup
  /-- Progress is a fact that no earlier sample of the revision observed. -/
  fresh : ∀ before e after, w.log = before ++ e :: after → e.2.newFacts = (freshFacts before e).card
  /-- A result that counts is sampled, with the signature and the facts of its payload. -/
  sampled : ∀ limits r i p work, Counts w.db limits r work i p →
    ∃ key s, (key, s) = sampleOf casefold sha256 digest w.db r work i p ∧
      (w.after casefold sha256 digest (.result limits r i p)).log = w.log ++ [(key, s)] ∧
      (w.after casefold sha256 digest (.result limits r i p)).windows key = w.windows key ++ [s]
  /-- Any other result, a replay for one, adds no sample. -/
  idle : ∀ limits r i p, (∀ work, ¬Counts w.db limits r work i p) →
    (w.after casefold sha256 digest (.result limits r i p)).log = w.log ∧
      (w.after casefold sha256 digest (.result limits r i p)).windows = w.windows
  replayed : ∀ e ∈ w.log, ∀ limits r i p work, r.accountId = e.1.1 → i.invocationId = e.2.invocation →
    ¬Counts w.db limits r work i p
  /-- The limits are those of the first count, and a reason stays until a reset. -/
  kept : ∀ event key p, w.db.progress.lookup key = some p →
    ∃ p', (w.after casefold sha256 digest event).db.progress.lookup key = some p' ∧ p'.failureLimit = p.failureLimit ∧
      p'.noProgressLimit = p.noProgressLimit ∧
      (event.Resets w key ∨ ∀ reason, p.blockedReason = some reason → p'.blockedReason = some reason)

/-- **Progress protection**, in every history of results, resets and changes of what they read. -/
theorem progress_protection (casefold sha256 : String → String) (digest : Subject → δ) (db : ProgressStore δ)
    (events : List Event) : Protected casefold sha256 digest (World.run casefold sha256 digest db events) := by
  have hw : Tracked (World.run casefold sha256 digest db events) := .run db events
  generalize World.run casefold sha256 digest db events = w at hw ⊢
  refine ⟨fun key p hp => ?_, hw.closed, hw.once, hw.counted, fun limits r i p work hcounts => ⟨_, _, rfl, ?_, ?_⟩,
    fun limits r i p hidle => ?_, fun e he limits r i p work haccount hinvocation hcounts => ?_,
    fun event key p hp => row_after w event hp⟩
  · have hmeasures := hw.rows key p hp
    refine ⟨hmeasures.failures, hmeasures.noProgress, hmeasures.blocked, ?_⟩
    rw [hmeasures.blocked]
    exact firstReason_isSome_iff p.failureLimit p.noProgressLimit [] _
  · unfold World.after
    dsimp only
    rw [sampledBy_counts hcounts]
    rfl
  · unfold World.after
    dsimp only
    rw [sampledBy_counts hcounts]
    exact Function.update_self _ _ _
  · unfold World.after
    dsimp only
    rw [sampledBy_idle hidle]
    exact ⟨rfl, rfl⟩
  · have hsampled := hw.sampled e he
    rw [← haccount, ← hinvocation, hcounts.first] at hsampled
    cases hsampled

end histories

/-! ### Three failures -/

/-- A Work that its Run coordinates. -/
def coordinated : ProgressStore ℕ where
  works _ := some ⟨1, .active, some 2, 1, 1⟩
  mandate _ _ := some (3, 1)
  reports _ _ := none
  refs _ _ := []
  progress := ∅
  samples := ∅
  facts := ∅

/-- An invocation of it that fails. -/
def failing (invocation : String) : Event :=
  .result (3, 3) ⟨1, 2, some 3, 1, 1, false⟩ ⟨1, invocation, "research", "1", "", false⟩
    ⟨.failed, [], [], some ⟨"unavailable", "transient"⟩⟩

/-- The third failure with one signature blocks the Work; a replay of the third is not sampled again. -/
theorem progress_protection_blocked :
    (World.run id id (fun _ => 0) coordinated [failing "a", failing "b", failing "c", failing "c"]).db.progress.lookup (1, 3, 1) =
      some ⟨3, 3, 3, 3, some 0, some .repeatedFailure⟩ ∧
    trailingFailures ((World.run id id (fun _ => 0) coordinated [failing "a", failing "b", failing "c", failing "c"]).windows
      (1, 3, 1)) = 3 := by
  have hrow : (World.run id id (fun _ => 0) coordinated [failing "a", failing "b", failing "c", failing "c"]).db.progress.lookup
      (1, 3, 1) = some ⟨3, 3, 3, 3, some 0, some .repeatedFailure⟩ := by decide +kernel
  exact ⟨hrow, ((progress_protection id id (fun _ => 0) coordinated _).row (1, 3, 1) _ hrow).1.symm⟩

end HpAgent.Progress
