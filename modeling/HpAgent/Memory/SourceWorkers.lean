import HpAgent.Memory.SourceCommands

/-! # What workers do to sources

A worker holds what `loadAction` has returned, which may be old by the time of its transactions.

* `LoadedOk`: what stays true of it; `loadedOk_of_load`, `LoadedOk.evolves`.
* `sendState_quiet`, `progress_quiet`, `markSending_quiet`, `markVerifying_quiet`: these touch no source.
* `save_governs`, and `save_quiet`: a result of an action that the source has moved on from changes no source. -/

namespace HpAgent.Memory.Governance

open Library

variable {errorCode : Option String} {failure : Bool} {verification : Option Evidence}

/-! ### What a worker has loaded -/

/-- The action is the one that was loaded, and covers the scope that it asked for. -/
structure LoadedAs (l : Loaded) (a : Action) : Prop where
  same : SameAction l.action a
  scope : ∀ scope, l.action.requestPayload.bind Payload.newScope? = some scope → covers a.affectedScopes scope = true

/-- What stays true of an action that has been loaded. -/
def LoadedOk (db : Store) (l : Loaded) : Prop := ∃ a, db.actions.lookup l.id = some a ∧ LoadedAs l a

section loaded

variable {db db' : Store} {account id run : Uuid} {l : Loaded} {s : Source} {a : Action} {u : Unit} {owned : Bool}

theorem actionOf_eq_some : actionOf db account id = some a ↔ db.actions.lookup id = some a ∧ a.accountId = account := by
  unfold actionOf
  rw [Option.filter_eq_some_iff, decide_eq_true_eq]

theorem loadedOk_of_load (hsound : SoundRows db) (h : loadAction db account id run = some l) : LoadedOk db l := by
  obtain ⟨a, ha, h⟩ := Option.bind_eq_some_iff.mp h
  obtain ⟨s, _, h⟩ := Option.bind_eq_some_iff.mp h
  obtain ⟨r, _, h⟩ := Option.bind_eq_some_iff.mp h
  obtain ⟨row, _, h⟩ := Option.bind_eq_some_iff.mp h
  split at h
  · obtain rfl := Option.some.inj h
    have hrow := (actionOf_eq_some.mp ha).1
    exact ⟨a, hrow, .refl a, fun scope hscope => hsound.rescoped _ a scope hrow hscope⟩
  · cases h

theorem LoadedOk.evolves (h : LoadedOk db l) (hevolves : Evolves db db') : LoadedOk db' l := by
  obtain ⟨a, ha, hloaded⟩ := h
  obtain ⟨a', ha', hsame, haffected⟩ := hevolves.actions l.id a ha
  refine ⟨a', ha', hloaded.same.trans hsame, fun scope hscope => ?_⟩
  rw [haffected]
  exact hloaded.scope scope hscope

/-! ### Transactions that touch no source -/

/-- The invariant is kept, and the sources are as they were. -/
structure Quiet (db db' : Store) : Prop where
  sound : Sound db'
  evolves : Evolves db db'
  sources : db'.sources = db.sources

theorem Progressed.quiet (h : Progressed db db') (hsound : Sound db) (hsources : db'.sources = db.sources) : Quiet db db' := by
  refine ⟨h.finish_remembers hsound fun j r hr hstate => ?_, h.toEvolves, hsources⟩
  rw [hsources] at hr
  exact ⟨r, hr, hstate⟩

/-- **An action is amended** and keeps its scopes. -/
theorem updateAction_quiet {f : Action → Action} (hsound : Sound db)
    (hrun : (updateAction account id f).run db = .ok (u, db')) (hf : ∀ a, db.actions.lookup id = some a → Amends a (f a))
    (hscopes : ∀ a, (f a).affectedScopes = a.affectedScopes) : Quiet db db' :=
  ((Progressed.start hsound.toSoundRows).amend hrun hf (.inl hscopes)).quiet hsound (updateAction_sources hrun)

theorem sendState_quiet {state : SendState} (hsound : Sound db) (hrun : (sendState l state).run db = .ok (u, db')) :
    Quiet db db' :=
  updateAction_quiet hsound hrun (fun _ _ => ⟨⟨rfl, rfl, rfl, rfl⟩, .inl rfl, fun _ hv => hv⟩) fun _ => rfl

theorem progress_quiet {evidence : Evidence} (hsound : Sound db) (hrun : (progress l evidence).run db = .ok (u, db')) :
    Quiet db db' :=
  updateAction_quiet hsound hrun (fun _ _ => ⟨⟨rfl, rfl, rfl, rfl⟩, .inl rfl, fun _ hv => hv⟩) fun _ => rfl

theorem markVerifying_quiet (hsound : Sound db) (hrun : (markVerifying owned l).run db = .ok (u, db')) : Quiet db db' := by
  unfold markVerifying at hrun
  rw [Tx.bind_check_ok] at hrun
  exact updateAction_quiet hsound hrun.2 (fun _ _ => ⟨⟨rfl, rfl, rfl, rfl⟩, .inl rfl, nofun⟩) fun _ => rfl

theorem markSending_quiet (hsound : Sound db) (hrun : (markSending owned l).run db = .ok (u, db')) : Quiet db db' := by
  unfold markSending at hrun
  rw [Tx.bind_ok] at hrun
  obtain ⟨_, _, hlock, hrun⟩ := hrun
  obtain ⟨_, rfl⟩ := lockAccount_ok hlock
  rw [Tx.bind_check_ok, Tx.bind_check_ok, Tx.bind_query_ok, Tx.bind_demand_ok] at hrun
  obtain ⟨_, _, s, _, hrun⟩ := hrun
  rw [Tx.bind_query_ok, Tx.bind_demand_ok] at hrun
  obtain ⟨r, _, hrun⟩ := hrun
  rw [Tx.bind_check_ok] at hrun
  exact updateAction_quiet hsound hrun.2 (fun _ _ => ⟨⟨rfl, rfl, rfl, rfl⟩, .inl rfl, nofun⟩) fun _ => rfl

/-! ### Results -/

/-- A result as it is recorded. -/
def recorded (status : ActionStatus) (errorCode : Option String) (failure : Bool) (verification : Option Evidence)
    (a : Action) : Action :=
  { a with status := status, errorCode := errorCode, failureCount := a.failureCount + if failure then 1 else 0,
           verification := verification.orElse fun _ => a.verification }

/-- What a recorded result does further. -/
def finishes (status : ActionStatus) (l : Loaded) : Prop := status = .verified ∧ l.action.kind ≠ .retain

/-- **A result is recorded**; it is a verdict only where the source still stands at the action. -/
theorem save_ok {status : ActionStatus}
    (hrun : (save owned l status errorCode failure verification).run db = .ok (u, db')) :
    ∃ s status' errorCode' db₁, sourceOf db l.action.accountId l.action.sourceId = some s ∧
      (status' = .verified → outdated s l = false) ∧
      (updateAction l.action.accountId l.id (recorded status' errorCode' failure verification)).run db = .ok ((), db₁) ∧
      ((finishes status' l ∧ (applyVerified l).run db₁ = .ok (u, db')) ∨ ¬finishes status' l ∧ db' = db₁) := by
  unfold save at hrun
  rw [Tx.bind_check_ok, Tx.bind_query_ok, Tx.bind_demand_ok] at hrun
  obtain ⟨_, s, hs, hrun⟩ := hrun
  rw [Tx.bind_ok] at hrun
  obtain ⟨_, db₁, hrecord, hrun⟩ := hrun
  generalize hstatus : (if (decide (status = .verified) && outdated s l) = true then ActionStatus.uncertain else status)
    = status' at hrecord hrun
  refine ⟨s, status', _, db₁, hs, fun hverified => ?_, hrecord, ?_⟩
  · rw [hverified] at hstatus
    split at hstatus
    · cases hstatus
    next hdemoted =>
      rw [hstatus] at hdemoted
      simpa using hdemoted
  · split at hrun
    next hfinishes => exact .inl ⟨hfinishes, hrun⟩
    next hquiet =>
      obtain ⟨_, rfl⟩ := Tx.pure_ok.mp hrun
      exact .inr ⟨hquiet, rfl⟩

theorem isAt_of_outdated (h : outdated s l = false) : s.currentActionId = some l.id ∧ s.isAt l = true := by
  unfold outdated at h
  rw [Bool.or_eq_false_iff] at h
  have hat : s.isAt l = true := by simpa using h.1
  refine ⟨?_, hat⟩
  unfold Source.isAt at hat
  rw [Bool.and_eq_true, decide_eq_true_eq, decide_eq_true_eq] at hat
  exact hat.2

/-- **A result without further effects**: it is no verdict, or one on a Retain. -/
theorem recorded_quiet {status : ActionStatus}
    (hsound : Sound db) (hloaded : LoadedOk db l) (hkind : status = .verified → l.action.kind ≠ .delete)
    (hrun : (updateAction l.action.accountId l.id (recorded status errorCode failure verification)).run db = .ok (u, db')) :
    Quiet db db' := by
  refine updateAction_quiet hsound hrun (fun a ha => ⟨⟨rfl, rfl, rfl, rfl⟩, .inl rfl, fun hdelete hverified => ?_⟩)
    fun _ => rfl
  obtain ⟨a', ha', hsame⟩ := hloaded
  obtain rfl := Option.some.inj (ha.symm.trans ha')
  exact absurd (hsame.same.kind.symm.trans hdelete) (hkind hverified)

/-- **A stale result**: an action that the source has moved on from changes no source. -/
theorem save_quiet {status : ActionStatus}
    (hstale : ∀ s, sourceOf db l.action.accountId l.action.sourceId = some s → s.isAt l = false)
    (hrun : (save owned l status errorCode failure verification).run db = .ok (u, db')) : db'.sources = db.sources := by
  obtain ⟨s, status', _, db₁, hs, hverdict, hrecord, ⟨hfinishes, _⟩ | ⟨_, rfl⟩⟩ := save_ok hrun
  · have hat := (isAt_of_outdated (hverdict hfinishes.1)).2
    rw [hstale s hs] at hat
    cases hat
  · exact updateAction_sources hrecord

/-! ### Verdicts -/

/-- A source that stands at the action is changed, and not forgotten. -/
structure Reopens (s s' : Source) (a : Action) : Prop where
  accountId : s'.accountId = s.accountId
  parent : s'.parent = s.parent
  current : s'.currentActionId = s.currentActionId
  state : s'.state = s.state ∨ s'.state = .active
  covers : a.kind ≠ .retain → covers a.affectedScopes s'.scope = true

/-- **A source changes at its action**, which is no deletion. -/
theorem reopen_governs {f : Source → Source} {source : Uuid} (hsound : Sound db) (hs : sourceOf db account source = some s)
    (hcurrent : s.currentActionId = some id) (ha : db.actions.lookup id = some a) (hkind : a.kind ≠ .delete)
    (hf : Reopens s (f s) a) (hrun : (updateSource account source f).run db = .ok (u, db')) :
    Sound db' ∧ Evolves db db' ∧ db'.actions = db.actions ∧ sourceOf db' account source = some (f s) := by
  obtain ⟨hrow, haccount⟩ := sourceOf_eq_some.mp hs
  obtain ⟨a', ha', hsource, howner⟩ := hsound.current _ _ _ hrow hcurrent
  obtain rfl := Option.some.inj (ha.symm.trans ha')
  have hopen : s.state ≠ .forgotten := fun hstate => by
    obtain ⟨aid, b, haid, hb, hdelete⟩ := hsound.forgotten _ _ hrow hstate
    obtain rfl := Option.some.inj (hcurrent.symm.trans haid)
    obtain rfl := Option.some.inj (ha.symm.trans hb)
    exact hkind hdelete
  have hopen' : (f s).state ≠ .forgotten := by
    rcases hf.state with hstate | hstate
    · rw [hstate]
      exact hopen
    · rw [hstate]
      decide
  have hprogressed := (Progressed.start hsound.toSoundRows).openAction hrun (fun r hr => by
    obtain rfl := Option.some.inj (hrow.symm.trans hr)
    exact ⟨hf.accountId, hf.parent, hf.current.trans hcurrent, fun hstate => absurd hstate hopen,
      ⟨fun hstate => absurd hstate hopen', fun hdelete => absurd hdelete hkind⟩, hf.covers⟩) ha hsource
    (howner.trans haccount)
  have hlookup := lookup_updateSource hrun
  have hrow' : db'.sources.lookup source = some (f s) := by
    rw [hlookup, hrow, Option.map_some, if_pos ⟨rfl, haccount⟩]
  refine ⟨hprogressed.finish_remembers hsound fun j r hr hstate => ?_, hprogressed.toEvolves, updateSource_actions hrun,
    sourceOf_eq_some.mpr ⟨hrow', hf.accountId.trans haccount⟩⟩
  by_cases hj : j = source
  · rw [hj, hrow'] at hr
    rw [← Option.some.inj hr] at hstate
    exact absurd hstate hopen'
  · rw [hlookup] at hr
    obtain ⟨r₀, hr₀, hr⟩ := Option.map_eq_some_iff.mp hr
    rw [if_neg fun hkey => hj hkey.1] at hr
    exact ⟨r, hr ▸ hr₀, hstate⟩

/-- The scope of a source that is moved, and the state of one that is reopened. -/
theorem applyVerified_governs (hsound : Sound db) (hloaded : LoadedOk db l)
    (hs : sourceOf db l.action.accountId l.action.sourceId = some s) (hcurrent : s.currentActionId = some l.id)
    (hkind : l.action.kind ≠ .delete) (hrun : (applyVerified l).run db = .ok (u, db')) : Sound db' ∧ Evolves db db' := by
  obtain ⟨a, ha, hsame⟩ := hloaded
  have hkind' : a.kind ≠ .delete := fun h => hkind (hsame.same.kind.symm.trans h)
  have hcovers : a.kind ≠ .retain → covers a.affectedScopes s.scope = true :=
    hsound.covered _ s l.id a (sourceOf_eq_some.mp hs).1 hcurrent ha
  -- the scope moves first, if it does
  obtain ⟨db₁, s₁, hsound₁, hevolves₁, ha₁, hs₁, hcurrent₁, hcovers₁, hrun⟩ : ∃ db₁ s₁, Sound db₁ ∧ Evolves db db₁ ∧
      db₁.actions.lookup l.id = some a ∧ sourceOf db₁ l.action.accountId l.action.sourceId = some s₁ ∧
      s₁.currentActionId = some l.id ∧ (a.kind ≠ .retain → covers a.affectedScopes s₁.scope = true) ∧
      (do updateSource l.action.accountId l.action.sourceId fun s => { s with state := .active }
          updateAction l.action.accountId l.id fun a => { a with requestPayload := none } : GovernanceTx Unit).run db₁
        = .ok (u, db') := by
    unfold applyVerified at hrun
    rw [if_neg hkind] at hrun
    split at hrun
    next scope _ hscope =>
      rw [Tx.bind_ok] at hrun
      obtain ⟨_, db₁, hmove, hrun⟩ := hrun
      obtain ⟨hsound₁, hevolves₁, hactions₁, hs₁⟩ := reopen_governs hsound hs hcurrent ha hkind'
        ⟨rfl, rfl, rfl, .inl rfl, fun _ => hsame.scope scope hscope⟩ hmove
      exact ⟨db₁, _, hsound₁, hevolves₁, hactions₁ ▸ ha, hs₁, hcurrent, fun _ => hsame.scope scope hscope, hrun⟩
    next =>
      exact ⟨db, s, hsound, .refl db, ha, hs, hcurrent, hcovers, hrun⟩
  rw [Tx.bind_ok] at hrun
  obtain ⟨_, db₂, hopen, hclear⟩ := hrun
  obtain ⟨hsound₂, hevolves₂, hactions₂, _⟩ := reopen_governs hsound₁ hs₁ hcurrent₁ ha₁ hkind'
    ⟨rfl, rfl, rfl, .inr rfl, hcovers₁⟩ hopen
  have hquiet := updateAction_quiet hsound₂ hclear (fun _ _ => ⟨⟨rfl, rfl, rfl, rfl⟩, .inr rfl, fun _ hv => hv⟩) fun _ => rfl
  exact ⟨hquiet.sound, (hevolves₁.trans hevolves₂).trans hquiet.evolves⟩

/-- What the actions become when a deletion is verified: those of its source lose what they say. -/
structure Cleared (l : Loaded) (db db' : Store) : Prop where
  sources : db'.sources = db.sources
  inv : ∀ j b', db'.actions.lookup j = some b' → ∃ b, db.actions.lookup j = some b ∧ SameAction b b' ∧
    b'.affectedScopes = b.affectedScopes ∧ (b'.requestPayload = b.requestPayload ∨ b'.requestPayload = none) ∧
    (b'.status = .verified → b.status = .verified ∨ j = l.id) ∧
    (b.accountId = l.action.accountId → b.sourceId = l.action.sourceId → b'.requestPayload = none)
  kept : ∀ j b, db.actions.lookup j = some b → ∃ b', db'.actions.lookup j = some b' ∧ SameAction b b' ∧
    b'.affectedScopes = b.affectedScopes

/-- An action after the deletion of the source of `l`. -/
def forgetRequest (l : Loaded) (a : Action) : Action :=
  if a.accountId = l.action.accountId ∧ a.sourceId = l.action.sourceId then
    { a with requestPayload := none, reason := "source_deleted" }
  else a

/-- What `forgetRequest` does to an action. -/
structure ForgetsRequest (l : Loaded) (a a' : Action) : Prop where
  same : SameAction a a'
  scopes : a'.affectedScopes = a.affectedScopes
  status : a'.status = a.status
  payload : a'.requestPayload = a.requestPayload ∨ a'.requestPayload = none
  cleared : a.accountId = l.action.accountId → a.sourceId = l.action.sourceId → a'.requestPayload = none

theorem forgetRequest_spec (l : Loaded) (a : Action) : ForgetsRequest l a (forgetRequest l a) := by
  unfold forgetRequest
  split
  next => exact ⟨⟨rfl, rfl, rfl, rfl⟩, rfl, rfl, .inr rfl, fun _ _ => rfl⟩
  next hother => exact ⟨.refl a, rfl, rfl, .inl rfl, fun h₁ h₂ => absurd ⟨h₁, h₂⟩ hother⟩

/-- The two statements of a verified deletion. -/
theorem cleared_of_delete {status : ActionStatus}
    {db₁ : Store} {v : Unit}
    (hrecord : (updateAction l.action.accountId l.id (recorded status errorCode failure verification)).run db = .ok (v, db₁))
    (hkind : l.action.kind = .delete) (hrun : (applyVerified l).run db₁ = .ok (u, db')) : Cleared l db db' := by
  unfold applyVerified at hrun
  rw [if_pos hkind] at hrun
  obtain rfl := Tx.update_ok.mp hrun
  have hsources := updateAction_sources hrecord
  -- a row after both statements is a row before them, recorded or not, and cleared or not
  have hlookup : ∀ j, (db₁.actions.updateWhere
      (fun _ a => a.accountId = l.action.accountId && a.sourceId = l.action.sourceId)
      fun a => { a with requestPayload := none, reason := "source_deleted" }).lookup j =
        (db.actions.lookup j).map fun b => forgetRequest l (if j = l.id ∧ b.accountId = l.action.accountId then
          recorded status errorCode failure verification b else b) := by
    intro j
    rw [Table.lookup_updateWhere, lookup_updateAction hrecord, Option.map_map]
    simp only [Bool.and_eq_true, decide_eq_true_eq]
    rfl
  have hrecorded : ∀ b : Action, SameAction b (recorded status errorCode failure verification b) :=
    fun _ => ⟨rfl, rfl, rfl, rfl⟩
  refine ⟨hsources, fun j b' hb' => ?_, fun j b hb => ?_⟩
  · obtain ⟨b, hb, rfl⟩ := Option.map_eq_some_iff.mp ((hlookup j).symm.trans hb')
    refine ⟨b, hb, ?_⟩
    by_cases hj : j = l.id ∧ b.accountId = l.action.accountId
    · rw [if_pos hj]
      have hforget := forgetRequest_spec l (recorded status errorCode failure verification b)
      exact ⟨(hrecorded b).trans hforget.same, hforget.scopes, hforget.payload, fun _ => .inr hj.1, hforget.cleared⟩
    · rw [if_neg hj]
      have hforget := forgetRequest_spec l b
      exact ⟨hforget.same, hforget.scopes, hforget.payload, fun hv => .inl (hforget.status ▸ hv), hforget.cleared⟩
  · refine ⟨_, (hlookup j).trans (by rw [hb, Option.map_some]), ?_⟩
    split
    · have hforget := forgetRequest_spec l (recorded status errorCode failure verification b)
      exact ⟨(hrecorded b).trans hforget.same, hforget.scopes⟩
    · exact ⟨(forgetRequest_spec l b).same, (forgetRequest_spec l b).scopes⟩

/-- **A verified deletion** leaves no frozen request of its source. -/
theorem Cleared.governs (h : Cleared l db db') (hsound : Sound db)
    (hs : sourceOf db l.action.accountId l.action.sourceId = some s) (hstate : s.state = .forgotten)
    (hloaded : LoadedOk db l) : Sound db' ∧ Evolves db db' := by
  obtain ⟨hrow, haccount⟩ := sourceOf_eq_some.mp hs
  have hsources := h.sources
  refine ⟨⟨⟨fun j b' hb' => ?_, fun j r k hr hk => ?_, fun j r hr hforgotten => ?_, fun j b' hb' hkind hstatus => ?_,
    fun j r k b' hr hk hb' hkind => ?_, fun j r k b' hr hk hb' hkind => ?_, fun j b' scope hb' hscope => ?_⟩, ?_⟩,
    fun j r hr => ⟨r, hsources ▸ hr, rfl, rfl, fun hforgotten => hforgotten⟩, fun j r hnone hr => ?_, h.kept⟩
  · obtain ⟨b, hb, hsame, _⟩ := h.inv j b' hb'
    rw [hsources, hsame.sourceId, hsame.accountId]
    exact hsound.owner j b hb
  · rw [hsources] at hr
    obtain ⟨b, hb, hsource, howner⟩ := hsound.current j r k hr hk
    obtain ⟨b', hb', hsame, _⟩ := h.kept k b hb
    exact ⟨b', hb', hsame.sourceId.trans hsource, hsame.accountId.trans howner⟩
  · rw [hsources] at hr
    obtain ⟨k, b, hk, hb, hkind⟩ := hsound.forgotten j r hr hforgotten
    obtain ⟨b', hb', hsame, _⟩ := h.kept k b hb
    exact ⟨k, b', hk, hb', hsame.kind.trans hkind⟩
  · obtain ⟨b, hb, hsame, _, _, hverdict, _⟩ := h.inv j b' hb'
    rw [hsources, hsame.sourceId]
    rcases hverdict hstatus with hold | rfl
    · obtain ⟨hforgotten, hnone⟩ := hsound.cleared j b hb (hsame.kind.symm.trans hkind) hold
      refine ⟨hforgotten, fun k c' hk hc => ?_⟩
      obtain ⟨c, hc₁, hsame', _, hpayload, _, _⟩ := h.inv k c' hk
      rcases hpayload with hkept | hcleared
      · rw [hkept]
        exact hnone k c hc₁ (hsame'.sourceId.symm.trans hc)
      · exact hcleared
    · -- the deletion that has been verified now
      obtain ⟨a, ha, hl⟩ := hloaded
      obtain rfl := Option.some.inj (ha.symm.trans hb)
      rw [hl.same.sourceId]
      refine ⟨⟨s, hrow, hstate⟩, fun k c' hk hc => ?_⟩
      obtain ⟨c, hc₁, hsame', _, _, _, hcleared⟩ := h.inv k c' hk
      have hsource : c.sourceId = l.action.sourceId := hsame'.sourceId.symm.trans hc
      obtain ⟨r, hr, howner⟩ := hsound.owner k c hc₁
      rw [hsource] at hr
      obtain rfl := Option.some.inj (hrow.symm.trans hr)
      exact hcleared (howner.symm.trans haccount) hsource
  · rw [hsources] at hr
    obtain ⟨b, hb, hsame, haffected, _⟩ := h.inv k b' hb'
    rw [haffected]
    exact hsound.covered j r k b hr hk hb fun hretain => hkind (hsame.kind.trans hretain)
  · rw [hsources] at hr
    obtain ⟨b, hb, hsame, _⟩ := h.inv k b' hb'
    exact hsound.deleted j r k b hr hk hb (hsame.kind.symm.trans hkind)
  · obtain ⟨b, hb, _, haffected, hpayload, _⟩ := h.inv j b' hb'
    rw [haffected]
    rcases hpayload with hkept | hcleared
    · rw [hkept] at hscope
      exact hsound.rescoped j b scope hb hscope
    · rw [hcleared] at hscope
      cases hscope
  · have hchildren := hsound.children
    unfold ChildrenForgotten at hchildren ⊢
    rw [hsources]
    exact hchildren
  · rw [hsources, hnone] at hr
    cases hr

/-- **A result** keeps the invariant. -/
theorem save_governs {status : ActionStatus}
    (hsound : Sound db) (hloaded : LoadedOk db l)
    (hrun : (save owned l status errorCode failure verification).run db = .ok (u, db')) : Sound db' ∧ Evolves db db' := by
  obtain ⟨s, status', _, db₁, hs, hverdict, hrecord, ⟨hfinishes, happly⟩ | ⟨hquiet, rfl⟩⟩ := save_ok hrun
  · have hcurrent := (isAt_of_outdated (hverdict hfinishes.1)).1
    by_cases hkind : l.action.kind = .delete
    · obtain ⟨a, ha, hsame⟩ := id hloaded
      have hstate := hsound.deleted _ s l.id a (sourceOf_eq_some.mp hs).1 hcurrent ha (hsame.same.kind.trans hkind)
      exact (cleared_of_delete hrecord hkind happly).governs hsound hs hstate hloaded
    · have hquiet := recorded_quiet hsound hloaded (fun _ => hkind) hrecord
      have hs₁ : sourceOf db₁ l.action.accountId l.action.sourceId = some s := by
        rw [sourceOf_eq_some, hquiet.sources]
        exact sourceOf_eq_some.mp hs
      obtain ⟨hsound', hevolves⟩ := applyVerified_governs hquiet.sound (hloaded.evolves hquiet.evolves) hs₁ hcurrent hkind
        happly
      exact ⟨hsound', hquiet.evolves.trans hevolves⟩
  · have hquiet := recorded_quiet hsound hloaded (fun hverified hdelete => hquiet ⟨hverified, by
      rw [hdelete]
      decide⟩) hrecord
    exact ⟨hquiet.sound, hquiet.evolves⟩

end loaded

end HpAgent.Memory.Governance
