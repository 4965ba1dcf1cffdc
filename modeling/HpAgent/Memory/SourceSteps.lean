import HpAgent.Memory.Sources

/-! # What the transactions on sources keep

* `Sound`: the invariant of the two tables.  A forgotten source stands at a deletion, its descendants are forgotten, and
  a verified deletion has left no frozen request.
* `Evolves`: what every transaction keeps of the rows there were.
* `Progressed`: the invariant without the descendants, in the middle of a transaction. -/

namespace HpAgent.Memory.Governance

open Library

/-! ### The invariant -/

/-- No deletion of the source is verified. -/
def Undeleted (db : Store) (source : Uuid) : Prop :=
  ∀ aid a, db.actions.lookup aid = some a → a.sourceId = source → a.kind = .delete → a.status ≠ .verified

/-- The rows of the two tables, each with those it refers to. -/
structure SoundRows (db : Store) : Prop where
  owner : ∀ aid a, db.actions.lookup aid = some a → ∃ s, db.sources.lookup a.sourceId = some s ∧ s.accountId = a.accountId
  current : ∀ id s aid, db.sources.lookup id = some s → s.currentActionId = some aid →
    ∃ a, db.actions.lookup aid = some a ∧ a.sourceId = id ∧ a.accountId = s.accountId
  forgotten : ∀ id s, db.sources.lookup id = some s → s.state = .forgotten →
    ∃ aid a, s.currentActionId = some aid ∧ db.actions.lookup aid = some a ∧ a.kind = .delete
  cleared : ∀ aid a, db.actions.lookup aid = some a → a.kind = .delete → a.status = .verified →
    (∃ s, db.sources.lookup a.sourceId = some s ∧ s.state = .forgotten) ∧
      ∀ bid b, db.actions.lookup bid = some b → b.sourceId = a.sourceId → b.requestPayload = none
  covered : ∀ id s aid a, db.sources.lookup id = some s → s.currentActionId = some aid → db.actions.lookup aid = some a →
    a.kind ≠ .retain → covers a.affectedScopes s.scope = true
  deleted : ∀ id s aid a, db.sources.lookup id = some s → s.currentActionId = some aid → db.actions.lookup aid = some a →
    a.kind = .delete → s.state = .forgotten
  rescoped : ∀ aid a scope, db.actions.lookup aid = some a → a.requestPayload.bind Payload.newScope? = some scope →
    covers a.affectedScopes scope = true

/-- The children of a forgotten source are forgotten. -/
def ChildrenForgotten (db : Store) : Prop :=
  ∀ id s p ps, db.sources.lookup id = some s → s.parent = some p → db.sources.lookup p = some ps →
    ps.accountId = s.accountId → ps.state = .forgotten → s.state = .forgotten

structure Sound (db : Store) : Prop extends SoundRows db where
  children : ChildrenForgotten db

/-- The columns of an action that never change. -/
structure SameAction (a a' : Action) : Prop where
  accountId : a'.accountId = a.accountId
  sourceId : a'.sourceId = a.sourceId
  generation : a'.generation = a.generation
  kind : a'.kind = a.kind

/-- What every transaction keeps of the rows there were. -/
structure Evolves (db db' : Store) : Prop where
  sources : ∀ id s, db.sources.lookup id = some s → ∃ s', db'.sources.lookup id = some s' ∧ s'.accountId = s.accountId ∧
    s'.parent = s.parent ∧ (s.state = .forgotten → s'.state = .forgotten)
  newSources : ∀ id s, db.sources.lookup id = none → db'.sources.lookup id = some s → s.parent = none
  actions : ∀ aid a, db.actions.lookup aid = some a → ∃ a', db'.actions.lookup aid = some a' ∧ SameAction a a' ∧
    a'.affectedScopes = a.affectedScopes

/-- A transaction that began at `base` has come to `db`, and its rows are sound so far. -/
structure Progressed (base db : Store) : Prop extends Evolves base db where
  sound : SoundRows db
  undeleted : ∀ source, Undeleted base source → Undeleted db source

section rows

variable {base db db' : Store} {account source id aid : Uuid} {u : Unit}

theorem SameAction.refl (a : Action) : SameAction a a := ⟨rfl, rfl, rfl, rfl⟩

theorem SameAction.trans {a a' a'' : Action} (h : SameAction a a') (h' : SameAction a' a'') : SameAction a a'' :=
  ⟨h'.accountId.trans h.accountId, h'.sourceId.trans h.sourceId, h'.generation.trans h.generation, h'.kind.trans h.kind⟩

theorem Evolves.refl (db : Store) : Evolves db db where
  sources _ s h := ⟨s, h, rfl, rfl, id⟩
  newSources _ _ h h' := by rw [h] at h'; cases h'
  actions _ a h := ⟨a, h, .refl a, rfl⟩

theorem Evolves.trans {db'' : Store} (h : Evolves db db') (h' : Evolves db' db'') : Evolves db db'' where
  sources id s hs := by
    obtain ⟨s₁, hs₁, haccount₁, hparent₁, hstate₁⟩ := h.sources id s hs
    obtain ⟨s₂, hs₂, haccount₂, hparent₂, hstate₂⟩ := h'.sources id s₁ hs₁
    exact ⟨s₂, hs₂, haccount₂.trans haccount₁, hparent₂.trans hparent₁, fun hstate => hstate₂ (hstate₁ hstate)⟩
  newSources id s hnone hs := by
    cases hs₁ : db'.sources.lookup id with
    | none => exact h'.newSources id s hs₁ hs
    | some s₁ =>
        obtain ⟨s₂, hs₂, _, hparent, _⟩ := h'.sources id s₁ hs₁
        obtain rfl := Option.some.inj (hs.symm.trans hs₂)
        exact hparent.trans (h.newSources id s₁ hnone hs₁)
  actions aid a ha := by
    obtain ⟨a₁, ha₁, hsame₁, haffected₁⟩ := h.actions aid a ha
    obtain ⟨a₂, ha₂, hsame₂, haffected₂⟩ := h'.actions aid a₁ ha₁
    exact ⟨a₂, ha₂, hsame₁.trans hsame₂, haffected₂.trans haffected₁⟩

theorem Progressed.start (h : SoundRows db) : Progressed db db where
  toEvolves := .refl db
  sound := h
  undeleted _ h := h

/-- An action that is new in the middle of a transaction was not there at its beginning. -/
theorem Evolves.fresh (h : Evolves base db) (hid : db.actions.lookup id = none) : base.actions.lookup id = none := by
  cases hb : base.actions.lookup id with
  | none => rfl
  | some a =>
      obtain ⟨a', ha', _⟩ := h.actions id a hb
      rw [hid] at ha'
      cases ha'

/-- The invariant looks at the two tables only. -/
theorem SoundRows.congr (h : SoundRows db) (hs : db'.sources = db.sources) (ha : db'.actions = db.actions) :
    SoundRows db' := by
  obtain ⟨howner, hcurrent, hforgotten, hcleared, hcovered, hdeleted, hrescoped⟩ := h
  rw [← hs, ← ha] at howner hcurrent hforgotten hcleared hcovered hdeleted
  rw [← ha] at hrescoped
  exact ⟨howner, hcurrent, hforgotten, hcleared, hcovered, hdeleted, hrescoped⟩

theorem Evolves.congr (h : Evolves base db) (hs : db'.sources = db.sources) (ha : db'.actions = db.actions) :
    Evolves base db' := by
  obtain ⟨hsources, hnew, hactions⟩ := h
  rw [← hs] at hsources hnew
  rw [← ha] at hactions
  exact ⟨hsources, hnew, hactions⟩

theorem Progressed.congr (h : Progressed base db) (hs : db'.sources = db.sources) (ha : db'.actions = db.actions) :
    Progressed base db' where
  toEvolves := h.toEvolves.congr hs ha
  sound := h.sound.congr hs ha
  undeleted source hb := by
    have hdb := h.undeleted source hb
    unfold Undeleted at hdb ⊢
    rw [ha]
    exact hdb

/-! ### Statements -/

theorem insertAction_ok {a : Action} (h : (insertAction id a).run db = .ok (u, db')) :
    db.actions.lookup id = none ∧ (∃ s, db.sources.lookup a.sourceId = some s ∧ s.accountId = a.accountId) ∧
      db' = { db with actions := db.actions.insert id a } := by
  unfold insertAction at h
  rw [Tx.bind_query_ok, Tx.bind_check_ok, Tx.bind_query_ok, Tx.bind_check_ok, Tx.update_ok] at h
  obtain ⟨htaken, howner, rfl⟩ := h
  rw [Bool.or_eq_false_iff] at htaken
  refine ⟨by simpa using htaken.1, ?_, rfl⟩
  obtain ⟨s, hs, haccount⟩ := Option.map_eq_some_iff.mp howner
  exact ⟨s, hs, haccount⟩

/-- The rows after an `UPDATE` of the sources. -/
theorem lookup_updateSource {f : Source → Source} (h : (updateSource account source f).run db = .ok (u, db'))
    (j : Uuid) : db'.sources.lookup j
      = (db.sources.lookup j).map fun s => if j = source ∧ s.accountId = account then f s else s := by
  obtain rfl := Tx.update_ok.mp h
  dsimp only
  rw [Table.lookup_updateWhere]
  simp only [Bool.and_eq_true, decide_eq_true_eq]

theorem updateSource_actions {f : Source → Source} (h : (updateSource account source f).run db = .ok (u, db')) :
    db'.actions = db.actions := by
  obtain rfl := Tx.update_ok.mp h
  rfl

/-- The rows after an `UPDATE` of one action. -/
theorem lookup_updateAction {f : Action → Action} (h : (updateAction account id f).run db = .ok (u, db')) (j : Uuid) :
    db'.actions.lookup j = (db.actions.lookup j).map fun a => if j = id ∧ a.accountId = account then f a else a := by
  obtain rfl := Tx.update_ok.mp h
  dsimp only
  rw [Table.lookup_updateWhere]
  simp only [Bool.and_eq_true, decide_eq_true_eq]

theorem updateAction_sources {f : Action → Action} (h : (updateAction account id f).run db = .ok (u, db')) :
    db'.sources = db.sources := by
  obtain rfl := Tx.update_ok.mp h
  rfl

/-! ### An action is opened -/

/-- **A new action** on a source without a verified deletion. -/
theorem Progressed.insertAction {a : Action} (h : Progressed base db)
    (hrun : (insertAction id a).run db = .ok (u, db')) (hnew : a.kind = .delete → a.status ≠ .verified)
    (hpayload : a.requestPayload = none ∨ Undeleted base a.sourceId)
    (hscope : ∀ scope, a.requestPayload.bind Payload.newScope? = some scope → covers a.affectedScopes scope = true) :
    Progressed base db' ∧ base.actions.lookup id = none ∧ db'.sources = db.sources ∧
      (∀ j, db'.actions.lookup j = if j = id then some a else db.actions.lookup j) ∧ db.actions.lookup id = none := by
  obtain ⟨hfree, howner, rfl⟩ := insertAction_ok hrun
  have hlookup : ∀ j, (db.actions.insert id a).lookup j = if j = id then some a else db.actions.lookup j :=
    fun j => Table.lookup_insert_ite db.actions id j a
  have hne : ∀ {j : Uuid} {b : Action}, db.actions.lookup j = some b → j ≠ id := by
    rintro j b hj rfl
    rw [hfree] at hj
    cases hj
  have hold : ∀ {j : Uuid} {b : Action}, db.actions.lookup j = some b → (db.actions.insert id a).lookup j = some b := by
    intro j b hj
    rw [hlookup, if_neg (hne hj)]
    exact hj
  refine ⟨⟨⟨h.sources, h.newSources, fun j b hj => ?_⟩, ⟨fun j b hj => ?_, fun j s k hs hk => ?_, fun j s hs hstate => ?_,
    fun j b hj hkind hstatus => ?_, fun j s k b hs hk hb hkind => ?_, fun j s k b hs hk hb hkind => ?_,
    fun j b scope hj hb => ?_⟩, fun source hsource => ?_⟩,
    h.toEvolves.fresh hfree, rfl, hlookup, hfree⟩
  · obtain ⟨b', hb', hsame, haffected⟩ := h.actions j b hj
    exact ⟨b', hold hb', hsame, haffected⟩
  · have hj' := (hlookup j).symm.trans hj
    split at hj'
    · obtain rfl := Option.some.inj hj'
      exact howner
    · exact h.sound.owner j b hj'
  · obtain ⟨b, hb, hrest⟩ := h.sound.current j s k hs hk
    exact ⟨b, hold hb, hrest⟩
  · obtain ⟨k, b, hk, hb, hkind⟩ := h.sound.forgotten j s hs hstate
    exact ⟨k, b, hk, hold hb, hkind⟩
  · have hj' := (hlookup j).symm.trans hj
    split at hj'
    · obtain rfl := Option.some.inj hj'
      exact absurd hstatus (hnew hkind)
    · obtain ⟨hforgotten, hnone⟩ := h.sound.cleared j b hj' hkind hstatus
      refine ⟨hforgotten, fun k c hk hc => ?_⟩
      have hk' := (hlookup k).symm.trans hk
      split at hk'
      · obtain rfl := Option.some.inj hk'
        rcases hpayload with hnone' | hundeleted
        · exact hnone'
        · exact absurd hstatus (h.undeleted _ hundeleted j b hj' hc.symm hkind)
      · exact hnone k c hk' hc
  · obtain ⟨b', hb', _⟩ := h.sound.current j s k hs hk
    obtain rfl := Option.some.inj ((hold hb').symm.trans hb)
    exact h.sound.covered j s k b' hs hk hb' hkind
  · obtain ⟨b', hb', _⟩ := h.sound.current j s k hs hk
    obtain rfl := Option.some.inj ((hold hb').symm.trans hb)
    exact h.sound.deleted j s k b' hs hk hb' hkind
  · have hj' := (hlookup j).symm.trans hj
    split at hj'
    · obtain rfl := Option.some.inj hj'
      exact hscope scope hb
    · exact h.sound.rescoped j b scope hj' hb
  · intro k c hk hc hkind
    have hk' := (hlookup k).symm.trans hk
    split at hk'
    · obtain rfl := Option.some.inj hk'
      exact hnew hkind
    · exact h.undeleted source hsource k c hk' hc hkind

/-- **A new source**, which no action is about yet. -/
theorem Progressed.insertSource {s : Source} (h : Progressed base db) (hfree : db.sources.lookup id = none)
    (hsources : db'.sources = db.sources.insert id s) (hactions : db'.actions = db.actions) (hparent : s.parent = none)
    (hcurrent : s.currentActionId = none) (hstate : s.state ≠ .forgotten) : Progressed base db' := by
  have hlookup : ∀ j, db'.sources.lookup j = if j = id then some s else db.sources.lookup j := by
    intro j
    rw [hsources]
    exact Table.lookup_insert_ite db.sources id j s
  have hold : ∀ {j : Uuid} {r : Source}, db.sources.lookup j = some r → db'.sources.lookup j = some r := by
    intro j r hj
    rw [hlookup, if_neg]
    · exact hj
    · rintro rfl
      rw [hfree] at hj
      cases hj
  have hinv : ∀ {j : Uuid} {r : Source}, db'.sources.lookup j = some r →
      db.sources.lookup j = some r ∨ r = s := by
    intro j r hr
    rw [hlookup] at hr
    split at hr
    · exact .inr (Option.some.inj hr).symm
    · exact .inl hr
  refine ⟨⟨fun j r hj => ?_, fun j r hj hr => ?_, fun j b hb => ?_⟩, ⟨fun j b hb => ?_, fun j r k hr hk => ?_,
    fun j r hr hforgotten => ?_, fun j b hb hkind hstatus => ?_, fun j r k b hr hk hb hkind => ?_,
    fun j r k b hr hk hb hkind => ?_, fun j b scope hb hscope => ?_⟩, fun source hsource k b hb => ?_⟩
  · obtain ⟨r', hr', hrest⟩ := h.sources j r hj
    exact ⟨r', hold hr', hrest⟩
  · rcases hinv hr with hr | rfl
    · exact h.newSources j r hj hr
    · exact hparent
  · rw [hactions]
    exact h.actions j b hb
  · rw [hactions] at hb
    obtain ⟨r, hr, howner⟩ := h.sound.owner j b hb
    exact ⟨r, hold hr, howner⟩
  · rw [hactions]
    rcases hinv hr with hr | rfl
    · exact h.sound.current j r k hr hk
    · rw [hcurrent] at hk
      cases hk
  · rw [hactions]
    rcases hinv hr with hr | rfl
    · exact h.sound.forgotten j r hr hforgotten
    · exact absurd hforgotten hstate
  · rw [hactions] at hb ⊢
    obtain ⟨⟨r, hr, hforgotten⟩, hnone⟩ := h.sound.cleared j b hb hkind hstatus
    exact ⟨⟨r, hold hr, hforgotten⟩, hnone⟩
  · rw [hactions] at hb
    rcases hinv hr with hr | rfl
    · exact h.sound.covered j r k b hr hk hb hkind
    · rw [hcurrent] at hk
      cases hk
  · rw [hactions] at hb
    rcases hinv hr with hr | rfl
    · exact h.sound.deleted j r k b hr hk hb hkind
    · rw [hcurrent] at hk
      cases hk
  · rw [hactions] at hb
    exact h.sound.rescoped j b scope hb hscope
  · rw [hactions] at hb
    exact h.undeleted source hsource k b hb

/-- What a source becomes when it moves to an action, or changes while it stands at one. -/
structure Opens (id : Uuid) (a : Action) (s s' : Source) : Prop where
  accountId : s'.accountId = s.accountId
  parent : s'.parent = s.parent
  current : s'.currentActionId = some id
  stays : s.state = .forgotten → s'.state = .forgotten
  forgets : s'.state = .forgotten ↔ a.kind = .delete
  covers : a.kind ≠ .retain → covers a.affectedScopes s'.scope = true

/-- **A source moves to an action.** -/
theorem Progressed.openAction {a : Action} {f : Source → Source} (h : Progressed base db)
    (hrun : (updateSource account source f).run db = .ok (u, db'))
    (hf : ∀ s, db.sources.lookup source = some s → Opens id a s (f s)) (ha : db.actions.lookup id = some a)
    (hsource : a.sourceId = source) (haccount : a.accountId = account) : Progressed base db' := by
  have hactions := updateSource_actions hrun
  have hlookup := lookup_updateSource hrun
  -- a row after the update is a row before it, opened or as it was
  have hinv : ∀ j s', db'.sources.lookup j = some s' → ∃ s, db.sources.lookup j = some s ∧
      (s' = s ∨ (j = source ∧ s.accountId = account ∧ s' = f s)) := by
    intro j s' hs'
    rw [hlookup] at hs'
    obtain ⟨s, hs, hs'⟩ := Option.map_eq_some_iff.mp hs'
    refine ⟨s, hs, ?_⟩
    split at hs'
    · next hkey => exact .inr ⟨hkey.1, hkey.2, hs'.symm⟩
    · exact .inl hs'.symm
  have hkept : ∀ j s, db.sources.lookup j = some s → ∃ s', db'.sources.lookup j = some s' ∧ s'.accountId = s.accountId ∧
      s'.parent = s.parent ∧ (s.state = .forgotten → s'.state = .forgotten) := by
    intro j s hs
    rw [hlookup, hs]
    refine ⟨_, rfl, ?_⟩
    dsimp only
    split
    · next hkey =>
        obtain ⟨rfl, _⟩ := hkey
        exact ⟨(hf s hs).accountId, (hf s hs).parent, (hf s hs).stays⟩
    · exact ⟨rfl, rfl, fun hstate => hstate⟩
  refine ⟨⟨fun j s hj => ?_, fun j s' hj hs' => ?_, fun j b hb => ?_⟩, ⟨fun j b hb => ?_, fun j s' k hs' hk => ?_,
    fun j s' hs' hstate => ?_, fun j b hb hkind hstatus => ?_, fun j s' k b hs' hk hb hkind => ?_,
    fun j s' k b hs' hk hb hkind => ?_, fun j b scope hb hscope => ?_⟩, fun j hj => ?_⟩
  · obtain ⟨s₁, hs₁, haccount₁, hparent₁, hstate₁⟩ := h.sources j s hj
    obtain ⟨s₂, hs₂, haccount₂, hparent₂, hstate₂⟩ := hkept j s₁ hs₁
    exact ⟨s₂, hs₂, haccount₂.trans haccount₁, hparent₂.trans hparent₁, fun hs => hstate₂ (hstate₁ hs)⟩
  · obtain ⟨s, hs, rfl | ⟨rfl, _, rfl⟩⟩ := hinv j s' hs'
    · exact h.newSources j s' hj hs
    · rw [(hf s hs).parent]
      exact h.newSources j s hj hs
  · rw [hactions]
    exact h.actions j b hb
  · rw [hactions] at hb
    obtain ⟨s, hs, howner⟩ := h.sound.owner j b hb
    obtain ⟨s₁, hs₁, haccount₁, _⟩ := hkept _ s hs
    exact ⟨s₁, hs₁, haccount₁.trans howner⟩
  · rw [hactions]
    obtain ⟨s, hs, rfl | ⟨rfl, hrow, rfl⟩⟩ := hinv j s' hs'
    · exact h.sound.current j s' k hs hk
    · rw [(hf s hs).current] at hk
      obtain rfl := Option.some.inj hk
      exact ⟨a, ha, hsource, by rw [(hf s hs).accountId, hrow, haccount]⟩
  · rw [hactions]
    obtain ⟨s, hs, rfl | ⟨rfl, hrow, rfl⟩⟩ := hinv j s' hs'
    · exact h.sound.forgotten j s' hs hstate
    · exact ⟨id, a, (hf s hs).current, ha, (hf s hs).forgets.mp hstate⟩
  · rw [hactions] at hb
    obtain ⟨⟨s, hs, hstate⟩, hnone⟩ := h.sound.cleared j b hb hkind hstatus
    obtain ⟨s₁, hs₁, _, _, hstate₁⟩ := hkept _ s hs
    refine ⟨⟨s₁, hs₁, hstate₁ hstate⟩, fun k c hk => ?_⟩
    rw [hactions] at hk
    exact hnone k c hk
  · rw [hactions] at hb
    obtain ⟨s, hs, rfl | ⟨rfl, hrow, rfl⟩⟩ := hinv j s' hs'
    · exact h.sound.covered j s' k b hs hk hb hkind
    · rw [(hf s hs).current] at hk
      obtain rfl := Option.some.inj hk
      obtain rfl := Option.some.inj (ha.symm.trans hb)
      exact (hf s hs).covers hkind
  · rw [hactions] at hb
    obtain ⟨s, hs, rfl | ⟨rfl, hrow, rfl⟩⟩ := hinv j s' hs'
    · exact h.sound.deleted j s' k b hs hk hb hkind
    · rw [(hf s hs).current] at hk
      obtain rfl := Option.some.inj hk
      obtain rfl := Option.some.inj (ha.symm.trans hb)
      exact (hf s hs).forgets.mpr hkind
  · rw [hactions] at hb
    exact h.sound.rescoped j b scope hb hscope
  · intro k c hk
    rw [hactions] at hk
    exact h.undeleted j hj k c hk

/-- What an action becomes without a verdict on a deletion: it may lose its frozen request. -/
structure Amends (a a' : Action) : Prop where
  same : SameAction a a'
  payload : a'.requestPayload = a.requestPayload ∨ a'.requestPayload = none
  verified : a.kind = .delete → a'.status = .verified → a.status = .verified

/-- **An action is amended**: a new one may also be given its scopes. -/
theorem Progressed.amend {f : Action → Action} (h : Progressed base db)
    (hrun : (updateAction account id f).run db = .ok (u, db')) (hf : ∀ a, db.actions.lookup id = some a → Amends a (f a))
    (haffected : (∀ a, (f a).affectedScopes = a.affectedScopes) ∨ base.actions.lookup id = none ∧
      ∀ a, db.actions.lookup id = some a →
        (∀ s, db.sources.lookup a.sourceId = some s → s.currentActionId = some id → a.kind ≠ .retain →
          covers (f a).affectedScopes s.scope = true) ∧
        ∀ scope, a.requestPayload.bind Payload.newScope? = some scope → covers (f a).affectedScopes scope = true) :
    Progressed base db' := by
  have hsources := updateAction_sources hrun
  have hlookup := lookup_updateAction hrun
  have hinv : ∀ j b', db'.actions.lookup j = some b' → ∃ b, db.actions.lookup j = some b ∧
      (b' = b ∨ (j = id ∧ b' = f b)) := by
    intro j b' hb'
    rw [hlookup] at hb'
    obtain ⟨b, hb, hb'⟩ := Option.map_eq_some_iff.mp hb'
    refine ⟨b, hb, ?_⟩
    split at hb'
    · next hkey => exact .inr ⟨hkey.1, hb'.symm⟩
    · exact .inl hb'.symm
  have hkept : ∀ j b, db.actions.lookup j = some b → ∃ b', db'.actions.lookup j = some b' ∧ SameAction b b' ∧
      (b' = b ∨ (j = id ∧ b' = f b)) := by
    intro j b hb
    rw [hlookup, hb]
    refine ⟨_, rfl, ?_⟩
    dsimp only
    split
    · next hkey =>
        obtain ⟨rfl, _⟩ := hkey
        exact ⟨(hf b hb).same, .inr ⟨rfl, rfl⟩⟩
    · exact ⟨.refl b, .inl rfl⟩
  refine ⟨⟨fun j s hj => ?_, fun j s hj hs => ?_, fun j b hb => ?_⟩, ⟨fun j b' hb' => ?_, fun j s k hs hk => ?_,
    fun j s hs hstate => ?_, fun j b' hb' hkind hstatus => ?_, fun j s k b' hs hk hb' hkind => ?_,
    fun j s k b' hs hk hb' hkind => ?_, fun j b' scope hb' hscope => ?_⟩, fun source hsource k c' hk hc hkind => ?_⟩
  · rw [hsources]
    exact h.sources j s hj
  · rw [hsources] at hs
    exact h.newSources j s hj hs
  · obtain ⟨b₁, hb₁, hsame₁, haffected₁⟩ := h.actions j b hb
    obtain ⟨b₂, hb₂, hsame₂, rfl | ⟨rfl, rfl⟩⟩ := hkept j b₁ hb₁
    · exact ⟨b₂, hb₂, hsame₁, haffected₁⟩
    · refine ⟨f b₁, hb₂, hsame₁.trans hsame₂, ?_⟩
      rcases haffected with hsame | ⟨hfresh, _⟩
      · exact (hsame b₁).trans haffected₁
      · rw [hfresh] at hb
        cases hb
  · rw [hsources]
    obtain ⟨b, hb, rfl | ⟨rfl, rfl⟩⟩ := hinv j b' hb'
    · exact h.sound.owner j b' hb
    · rw [(hf b hb).same.sourceId, (hf b hb).same.accountId]
      exact h.sound.owner j b hb
  · rw [hsources] at hs
    obtain ⟨b, hb, hsource, howner⟩ := h.sound.current j s k hs hk
    obtain ⟨b', hb', hsame, _⟩ := hkept k b hb
    exact ⟨b', hb', hsame.sourceId.trans hsource, hsame.accountId.trans howner⟩
  · rw [hsources] at hs
    obtain ⟨k, b, hk, hb, hkind⟩ := h.sound.forgotten j s hs hstate
    obtain ⟨b', hb', hsame, _⟩ := hkept k b hb
    exact ⟨k, b', hk, hb', hsame.kind.trans hkind⟩
  · rw [hsources]
    obtain ⟨b, hb, hverified, hsource⟩ : ∃ b, db.actions.lookup j = some b ∧ (b.kind = .delete ∧ b.status = .verified) ∧
        b'.sourceId = b.sourceId := by
      obtain ⟨b, hb, rfl | ⟨rfl, rfl⟩⟩ := hinv j b' hb'
      · exact ⟨b', hb, ⟨hkind, hstatus⟩, rfl⟩
      · have hamends := hf b hb
        have hkind' : b.kind = .delete := hamends.same.kind.symm.trans hkind
        exact ⟨b, hb, ⟨hkind', hamends.verified hkind' hstatus⟩, hamends.same.sourceId⟩
    rw [hsource]
    obtain ⟨hforgotten, hnone⟩ := h.sound.cleared j b hb hverified.1 hverified.2
    refine ⟨hforgotten, fun k c' hk hc => ?_⟩
    obtain ⟨c, hc₁, rfl | ⟨rfl, rfl⟩⟩ := hinv k c' hk
    · exact hnone k c' hc₁ hc
    · rcases (hf c hc₁).payload with hsame | hcleared
      · rw [hsame]
        exact hnone k c hc₁ ((hf c hc₁).same.sourceId.symm.trans hc)
      · exact hcleared
  · rw [hsources] at hs
    obtain ⟨b, hb, rfl | ⟨rfl, rfl⟩⟩ := hinv k b' hb'
    · exact h.sound.covered j s k b' hs hk hb hkind
    · have hkind' : b.kind ≠ .retain := fun he => hkind ((hf b hb).same.kind.trans he)
      rcases haffected with hsame | ⟨_, hcovers⟩
      · rw [hsame]
        exact h.sound.covered j s k b hs hk hb hkind'
      · obtain ⟨b₁, hb₁, hsource, _⟩ := h.sound.current j s k hs hk
        obtain rfl := Option.some.inj (hb.symm.trans hb₁)
        exact (hcovers b hb).1 s (by rw [hsource]; exact hs) hk hkind'
  · rw [hsources] at hs
    obtain ⟨b, hb, rfl | ⟨rfl, rfl⟩⟩ := hinv k b' hb'
    · exact h.sound.deleted j s k b' hs hk hb hkind
    · exact h.sound.deleted j s k b hs hk hb ((hf b hb).same.kind.symm.trans hkind)
  · obtain ⟨b, hb, rfl | ⟨rfl, rfl⟩⟩ := hinv j b' hb'
    · exact h.sound.rescoped j b' scope hb hscope
    · rcases (hf b hb).payload with hpayload | hcleared
      · rw [hpayload] at hscope
        rcases haffected with hsame | ⟨_, hcovers⟩
        · rw [hsame]
          exact h.sound.rescoped j b scope hb hscope
        · exact (hcovers b hb).2 scope hscope
      · rw [hcleared] at hscope
        cases hscope
  · obtain ⟨c, hc₁, rfl | ⟨rfl, rfl⟩⟩ := hinv k c' hk
    · exact h.undeleted source hsource k c' hc₁ hc hkind
    · intro hstatus
      have hamends := hf c hc₁
      have hkind' : c.kind = .delete := hamends.same.kind.symm.trans hkind
      exact h.undeleted source hsource k c hc₁ (hamends.same.sourceId.symm.trans hc) hkind' (hamends.verified hkind' hstatus)

/-- **The end of a transaction**: the sources it has forgotten are those of `D`, and the children of those are too. -/
theorem Progressed.finish (h : Progressed base db) (hchildren : ChildrenForgotten base) (D : Uuid → Prop)
    (hold : ∀ j, D j → base.sources.lookup j ≠ none)
    (hnew : ∀ j s, db.sources.lookup j = some s → s.state = .forgotten →
      (∃ s₀, base.sources.lookup j = some s₀ ∧ s₀.state = .forgotten) ∨ D j)
    (hclosed : ∀ j s p ps, base.sources.lookup j = some s → s.parent = some p → D p → base.sources.lookup p = some ps →
      ps.accountId = s.accountId → ∃ s', db.sources.lookup j = some s' ∧ s'.state = .forgotten) : Sound db := by
  refine ⟨h.sound, fun j s p ps hs hp hps haccount hstate => ?_⟩
  cases hbase : base.sources.lookup j with
  | none =>
      rw [h.newSources j s hbase hs] at hp
      cases hp
  | some s₀ =>
      obtain ⟨s', hs', haccount₀, hparent₀, hforgotten₀⟩ := h.sources j s₀ hbase
      obtain rfl := Option.some.inj (hs.symm.trans hs')
      cases hpbase : base.sources.lookup p with
      | none =>
          -- a source that is new cannot have been forgotten
          rcases hnew p ps hps hstate with ⟨p₀, hp₀, _⟩ | hD
          · rw [hpbase] at hp₀
            cases hp₀
          · exact absurd hpbase (hold p hD)
      | some p₀ =>
          obtain ⟨ps', hps', haccountp, _, _⟩ := h.sources p p₀ hpbase
          obtain rfl := Option.some.inj (hps.symm.trans hps')
          have hrow : p₀.accountId = s₀.accountId := by rw [← haccountp, ← haccount₀, haccount]
          rcases hnew p ps hps hstate with ⟨p₁, hp₁, hstate₁⟩ | hD
          · obtain rfl := Option.some.inj (hpbase.symm.trans hp₁)
            exact hforgotten₀ (hchildren j s₀ p p₀ hbase (hparent₀ ▸ hp) hpbase hrow hstate₁)
          · obtain ⟨s', hs', hstate'⟩ := hclosed j s₀ p p₀ hbase (hparent₀ ▸ hp) hD hpbase hrow
            obtain rfl := Option.some.inj (hs.symm.trans hs')
            exact hstate'

end rows

end HpAgent.Memory.Governance
