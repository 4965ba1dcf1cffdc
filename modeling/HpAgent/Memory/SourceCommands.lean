import HpAgent.Memory.SourceSteps

/-! # What the transactions on sources do

Every transaction keeps the invariant of the two tables.

* `Opened`: an action has been inserted, and its source has moved to it.
* `descendants_closed`: the recursive query finds every descendant.
* `openCommand_governs`, `command_governs`: a deletion forgets its source and all that descends from it.
* `reconcileScope_governs`, `revoke_governs`, `register_governs`. -/

namespace HpAgent.Memory.Governance

open Library

variable {affected : Affected} {request : RetainRequest}

theorem sourceOf_eq_some {db : Store} {account source : Uuid} {s : Source} :
    sourceOf db account source = some s ↔ db.sources.lookup source = some s ∧ s.accountId = account := by
  unfold sourceOf
  rw [Option.filter_eq_some_iff, decide_eq_true_eq]

theorem mem_sourcesOf {db : Store} {account id : Uuid} {s : Source} :
    (id, s) ∈ sourcesOf db account ↔ db.sources.lookup id = some s ∧ s.accountId = account := by
  unfold sourcesOf
  rw [List.mem_filter, List.mem_map, decide_eq_true_eq]
  constructor
  · rintro ⟨⟨⟨k, r⟩, hmem, heq⟩, haccount⟩
    obtain ⟨rfl, rfl⟩ := Prod.mk.inj heq
    exact ⟨AList.mem_lookup_iff.mpr hmem, haccount⟩
  · rintro ⟨hs, haccount⟩
    exact ⟨⟨⟨id, s⟩, AList.mem_lookup_iff.mp hs, rfl⟩, haccount⟩

/-- A source that is not forgotten has no verified deletion. -/
theorem SoundRows.undeleted {db : Store} {source : Uuid} (h : SoundRows db)
    (hstate : ∀ s, db.sources.lookup source = some s → s.state ≠ .forgotten) : Undeleted db source := by
  intro aid a ha hsource hkind hstatus
  obtain ⟨⟨s, hs, hforgotten⟩, _⟩ := h.cleared aid a ha hkind hstatus
  rw [hsource] at hs
  exact hstate s hs hforgotten

theorem SoundRows.undeleted_row {db : Store} {source : Uuid} {s : Source} (h : SoundRows db)
    (hs : db.sources.lookup source = some s) (hstate : s.state ≠ .forgotten) : Undeleted db source := by
  refine h.undeleted fun s' hs' => ?_
  obtain rfl := Option.some.inj (hs.symm.trans hs')
  exact hstate

theorem covers_of_mem {scope : Scope} {scopes : List Scope} (h : scope ∈ scopes) :
    covers (some (.scopes scopes)) scope = true := by
  unfold covers
  dsimp only
  rw [List.any_eq_true]
  refine ⟨scope, h, ?_⟩
  rw [List.all_eq_true]
  intro tag htag
  exact List.contains_iff_mem.mpr htag

/-! ### A transaction that forgets nothing -/

/-- Nothing has been forgotten since `base`. -/
def Remembers (base db : Store) : Prop :=
  ∀ j s, db.sources.lookup j = some s → s.state = .forgotten → ∃ s₀, base.sources.lookup j = some s₀ ∧ s₀.state = .forgotten

theorem Progressed.finish_remembers {base db : Store} (h : Progressed base db) (hsound : Sound base)
    (hremembers : Remembers base db) : Sound db :=
  h.finish hsound.children (fun _ => False) (fun _ hD => hD.elim) (fun j s hs hstate => .inl (hremembers j s hs hstate))
    fun _ _ _ _ _ _ hD => hD.elim

/-! ### An action is opened on a source -/

/-- A new action, and the source that has moved to it. -/
structure Opened (base db : Store) (id : Uuid) (a : Action) (s : Source) (f : Source → Source) (db' : Store) : Prop where
  progressed : Progressed base db'
  fresh : base.actions.lookup id = none
  action : db'.actions.lookup id = some a
  kept : ∀ j b, db.actions.lookup j = some b → db'.actions.lookup j = some b
  source : db'.sources.lookup a.sourceId = some (f s)
  others : ∀ j, j ≠ a.sourceId → db'.sources.lookup j = db.sources.lookup j

section opening

variable {base db db₁ db' : Store} {id : Uuid} {a : Action} {s : Source} {f : Source → Source} {u v : Unit}
variable {account : Uuid}

/-- **An action is inserted, and its source moves to it.** -/
theorem Progressed.opened (h : Progressed base db) (hinsert : (Governance.insertAction id a).run db = .ok (u, db₁))
    (hupdate : (updateSource a.accountId a.sourceId f).run db₁ = .ok (v, db')) (hf : Opens id a s (f s))
    (hs : db.sources.lookup a.sourceId = some s) (haccount : s.accountId = a.accountId)
    (hnew : a.kind = .delete → a.status ≠ .verified) (hundeleted : Undeleted base a.sourceId)
    (hscope : ∀ scope, a.requestPayload.bind Payload.newScope? = some scope → covers a.affectedScopes scope = true) :
    Opened base db id a s f db' := by
  obtain ⟨h₁, hfresh, hsources₁, hactions₁, hfree⟩ := h.insertAction hinsert hnew (.inr hundeleted) hscope
  have haction : db₁.actions.lookup id = some a := by rw [hactions₁, if_pos rfl]
  have hactions := updateSource_actions hupdate
  have hlookup := lookup_updateSource hupdate
  rw [hsources₁] at hlookup
  have hrow : ∀ {r : Source}, db₁.sources.lookup a.sourceId = some r → r = s := by
    intro r hr
    rw [hsources₁, hs] at hr
    exact (Option.some.inj hr).symm
  refine ⟨?_, hfresh, by rw [hactions, haction], fun j b hb => ?_, ?_, fun j hj => ?_⟩
  · refine h₁.openAction hupdate (fun r hr => ?_) haction rfl rfl
    rw [hrow hr]
    exact hf
  · rw [hactions, hactions₁, if_neg]
    · exact hb
    · rintro rfl
      rw [hfree] at hb
      cases hb
  · rw [hlookup, hs, Option.map_some, if_pos ⟨rfl, haccount⟩]
  · rw [hlookup]
    cases hj' : db.sources.lookup j with
    | none => rfl
    | some r => rw [Option.map_some, if_neg fun hkey => hj hkey.1]

theorem Opened.remembers (h : Opened base db id a s f db') (hremembers : Remembers base db)
    (hf : (f s).state ≠ .forgotten) : Remembers base db' := by
  intro j r hr hstate
  by_cases hj : j = a.sourceId
  · rw [hj, h.source] at hr
    rw [← Option.some.inj hr] at hstate
    exact absurd hstate hf
  · exact hremembers j r ((h.others j hj).symm.trans hr) hstate

/-- **The scopes of a new action** are set. -/
theorem Progressed.affect {g : Action → Action} (h : Progressed base db)
    (hrun : (updateAction account id g).run db = .ok (u, db')) (hg : Amends a (g a)) (hfresh : base.actions.lookup id = none)
    (ha : db.actions.lookup id = some a) (hs : db.sources.lookup a.sourceId = some s)
    (hcovers : covers (g a).affectedScopes s.scope = true)
    (hscope : ∀ scope, a.requestPayload.bind Payload.newScope? = some scope → covers (g a).affectedScopes scope = true) :
    Progressed base db' := by
  have hrow : ∀ b, db.actions.lookup id = some b → b = a := fun b hb => (Option.some.inj (ha.symm.trans hb)).symm
  refine h.amend hrun (fun b hb => hrow b hb ▸ hg) (.inr ⟨hfresh, fun b hb => ?_⟩)
  obtain rfl := hrow b hb
  refine ⟨fun r hr _ _ => ?_, hscope⟩
  obtain rfl := Option.some.inj (hs.symm.trans hr)
  exact hcovers

/-- **The new action is amended**, and given its scopes. -/
theorem Opened.affect {g : Action → Action} (h : Opened base base id a s f db)
    (hrun : (updateAction account id g).run db = .ok (u, db')) (hg : Amends a (g a)) (haccount : a.accountId = account)
    (hcovers : covers (g a).affectedScopes (f s).scope = true)
    (hscope : ∀ scope, a.requestPayload.bind Payload.newScope? = some scope → covers (g a).affectedScopes scope = true) :
    Opened base base id (g a) s f db' := by
  have hsources := updateAction_sources hrun
  have hlookup := lookup_updateAction hrun
  refine ⟨h.progressed.affect hrun hg h.fresh h.action h.source hcovers hscope, h.fresh, ?_, fun j b hb => ?_, ?_,
    fun j hj => ?_⟩
  · rw [hlookup, h.action, Option.map_some, if_pos ⟨rfl, haccount⟩]
  · rw [hlookup, h.kept j b hb, Option.map_some, if_neg]
    rintro ⟨rfl, _⟩
    rw [h.fresh] at hb
    cases hb
  · rw [hsources, hg.same.sourceId]
    exact h.source
  · rw [hsources]
    exact h.others j (hg.same.sourceId ▸ hj)

theorem invalidate_ok (hrun : (invalidate account id affected).run db = .ok (u, db')) :
    ∃ epoch db₁, db₁.sources = db.sources ∧ db₁.actions = db.actions ∧
      (updateAction account id fun a => { a with invalidationEpoch := some epoch, affectedScopes := some affected }).run db₁
        = .ok (u, db') := by
  unfold invalidate at hrun
  rw [Tx.bind_query_ok, Tx.bind_demand_ok] at hrun
  obtain ⟨row, _, hrun⟩ := hrun
  rw [Tx.bind_update_ok] at hrun
  refine ⟨row.memoryEpoch + 1, _, ?_, ?_, hrun⟩ <;> rfl

/-- **An invalidation** of scopes that meet that of the source. -/
theorem Progressed.invalidated (h : Progressed base db)
    (hrun : (invalidate account id affected).run db = .ok (u, db')) (hfresh : base.actions.lookup id = none)
    (ha : db.actions.lookup id = some a) (hs : db.sources.lookup a.sourceId = some s)
    (hcovers : covers (some affected) s.scope = true)
    (hscope : ∀ scope, a.requestPayload.bind Payload.newScope? = some scope → covers (some affected) scope = true) :
    Progressed base db' ∧ db'.sources = db.sources := by
  obtain ⟨epoch, db₁, hsources, hactions, hrun⟩ := invalidate_ok hrun
  refine ⟨?_, (updateAction_sources hrun).trans hsources⟩
  rw [← hactions] at ha
  rw [← hsources] at hs
  exact (h.congr hsources hactions).affect hrun ⟨⟨rfl, rfl, rfl, rfl⟩, .inl rfl, fun _ hv => hv⟩ hfresh ha hs
    hcovers hscope

end opening

/-! ### Descendants -/

section descendants

variable {db : Store} {account root : Uuid}

theorem monotoneIn_below (root : Uuid) : MonotoneIn (below root) := by
  intro xs ys e hsub h
  unfold below at h ⊢
  rw [Bool.or_eq_true, List.any_eq_true] at h ⊢
  rcases h with h | ⟨x, hx, h⟩
  · exact .inl h
  · exact .inr ⟨x, hsub x hx, h⟩

theorem mem_descendants {e : Uuid × Source} : e ∈ descendants db account root ↔
    e ∈ grow (below root) (sourcesOf db account) (sourcesOf db account).length := by
  unfold descendants
  exact List.mem_insertionSort _

theorem descendants_row {id : Uuid} {s : Source} (h : (id, s) ∈ descendants db account root) :
    db.sources.lookup id = some s ∧ s.accountId = account :=
  mem_sourcesOf.mp (grow_subset _ _ (mem_descendants.mp h))

/-- The root, or a row that the query finds. -/
def InDeletion (db : Store) (account root id : Uuid) : Prop :=
  id = root ∨ ∃ s, (id, s) ∈ descendants db account root

/-- **The recursive query finds every child** of the root and of the rows it finds. -/
theorem descendants_closed {id p : Uuid} {s : Source} (hs : db.sources.lookup id = some s) (haccount : s.accountId = account)
    (hp : s.parent = some p) (hfound : InDeletion db account root p) : (id, s) ∈ descendants db account root := by
  refine mem_descendants.mpr (mem_grow_of_closed _ (monotoneIn_below root) (mem_sourcesOf.mpr ⟨hs, haccount⟩) ?_)
  unfold below
  rw [Bool.or_eq_true, List.any_eq_true]
  rcases hfound with rfl | ⟨ps, hps⟩
  · exact .inl (decide_eq_true hp)
  · exact .inr ⟨(p, ps), mem_descendants.mp hps, decide_eq_true hp⟩

end descendants

/-! ### The loop of a deletion -/

/-- The iterations over some children have forgotten them, and nothing but them. -/
structure Visited (base : Store) (ids : List Uuid) (db : Store) (acc : Deletion) (db' : Store) (acc' : Deletion) : Prop where
  progressed : Progressed base db'
  forgotten : ∀ j ∈ ids, ∃ s, db'.sources.lookup j = some s ∧ s.state = .forgotten
  others : ∀ j, j ∉ ids → db'.sources.lookup j = db.sources.lookup j
  rows : ∀ j s, db.sources.lookup j = some s → ∃ s', db'.sources.lookup j = some s' ∧ s'.scope = s.scope ∧
    s'.accountId = s.accountId ∧ (s.state = .forgotten → s'.state = .forgotten)
  actions : ∀ j a, db.actions.lookup j = some a → db'.actions.lookup j = some a
  scopes : ∀ scope ∈ acc.scopes, scope ∈ acc'.scopes

/-- A child as it was read: its row has not been changed but by the deletion. -/
structure Current (base db : Store) (account : Uuid) (child : Uuid × Source) : Prop where
  row : ∃ s, db.sources.lookup child.1 = some s ∧ s.scope = child.2.scope ∧ s.accountId = account ∧
    (child.2.state = .forgotten → s.state = .forgotten)
  undeleted : child.2.state ≠ .forgotten → Undeleted base child.1

section loop

variable {base db db' db'' : Store} {acc acc' acc'' : Deletion} {account source : Uuid} {requestHash : Hashed → ℕ}
  {fresh : Uuid → Uuid} {now : Instant} {key reason : String}

theorem Visited.nil (h : Progressed base db) : Visited base [] db acc db acc :=
  ⟨h, nofun, fun _ _ => rfl, fun _ s hs => ⟨s, hs, rfl, rfl, id⟩, fun _ _ ha => ha, fun _ h => h⟩

theorem Visited.append {ids ids' : List Uuid} (h : Visited base ids db acc db' acc')
    (h' : Visited base ids' db' acc' db'' acc'') : Visited base (ids ++ ids') db acc db'' acc'' where
  progressed := h'.progressed
  forgotten j hj := by
    rcases List.mem_append.mp hj with hj | hj
    · obtain ⟨s, hs, hstate⟩ := h.forgotten j hj
      obtain ⟨s', hs', _, _, hstate'⟩ := h'.rows j s hs
      exact ⟨s', hs', hstate' hstate⟩
    · exact h'.forgotten j hj
  others j hj := by
    rw [List.mem_append, not_or] at hj
    exact (h'.others j hj.2).trans (h.others j hj.1)
  rows j s hs := by
    obtain ⟨s', hs', hscope, haccount, hstate⟩ := h.rows j s hs
    obtain ⟨s'', hs'', hscope', haccount', hstate'⟩ := h'.rows j s' hs'
    exact ⟨s'', hs'', hscope'.trans hscope, haccount'.trans haccount, fun h => hstate' (hstate h)⟩
  actions j a ha := h'.actions j a (h.actions j a ha)
  scopes scope hscope := h'.scopes scope (h.scopes scope hscope)

theorem Deletion.visit_scopes (acc : Deletion) (child : Uuid × Source) :
    ∀ scope ∈ acc.scopes, scope ∈ (acc.visit child).scopes := by
  intro scope hscope
  unfold Deletion.visit
  dsimp only
  split
  · exact hscope
  · exact List.mem_append_left _ hscope

theorem Current.visited (h : Visited base ids db acc db' acc') {child : Uuid × Source}
    (hc : Current base db account child) : Current base db' account child := by
  obtain ⟨s, hs, hscope, haccount, hstate⟩ := hc.row
  obtain ⟨s', hs', hscope', haccount', hstate'⟩ := h.rows child.1 s hs
  exact ⟨⟨s', hs', hscope'.trans hscope, haccount'.trans haccount, fun h => hstate' (hstate h)⟩, hc.undeleted⟩

/-- **One child**: what is forgotten already is passed over, anything else gets its own deletion. -/
theorem forgetChild_visited {child : Uuid × Source} (h : Progressed base db) (hc : Current base db account child)
    (hrun : (forgetChild requestHash fresh now account source key reason acc child).run db = .ok (acc', db')) :
    Visited base [child.1] db acc db' acc' := by
  obtain ⟨s, hs, hscope, haccount, hstate⟩ := hc.row
  unfold forgetChild at hrun
  split at hrun
  next hforgotten =>
    obtain ⟨rfl, rfl⟩ := Tx.pure_ok.mp hrun
    refine ⟨h, fun j hj => ?_, fun _ _ => rfl, fun _ s hs => ⟨s, hs, rfl, rfl, id⟩, fun _ _ ha => ha,
      acc.visit_scopes child⟩
    obtain rfl := List.mem_singleton.mp hj
    exact ⟨s, hs, hstate hforgotten⟩
  next hopen =>
    rw [Tx.bind_ok] at hrun
    obtain ⟨_, db₁, hinsert, hrun⟩ := hrun
    rw [Tx.bind_ok] at hrun
    obtain ⟨_, db₂, hupdate, hrun⟩ := hrun
    rw [Tx.bind_query_ok, Tx.bind_demand_ok] at hrun
    obtain ⟨_, _, hrun⟩ := hrun
    obtain ⟨rfl, rfl⟩ := Tx.pure_ok.mp hrun
    have hopened := h.opened hinsert hupdate
      ⟨rfl, rfl, rfl, fun _ => rfl, ⟨fun _ => rfl, fun _ => rfl⟩, fun _ => covers_of_mem (List.mem_singleton.mpr hscope)⟩ hs haccount
      (fun _ => nofun) (hc.undeleted hopen) nofun
    refine ⟨hopened.progressed, fun j hj => ?_, fun j hj => ?_, fun j s₁ hs₁ => ?_, hopened.kept, acc.visit_scopes child⟩
    · obtain rfl := List.mem_singleton.mp hj
      exact ⟨_, hopened.source, rfl⟩
    · exact hopened.others j fun heq => hj (List.mem_singleton.mpr heq)
    · by_cases hj : j = child.1
      · subst hj
        obtain rfl := Option.some.inj (hs.symm.trans hs₁)
        exact ⟨_, hopened.source, rfl, rfl, fun _ => rfl⟩
      · exact ⟨s₁, (hopened.others j hj).trans hs₁, rfl, rfl, id⟩

/-- **The loop** over the children. -/
theorem forgetChildren_visited {children : List (Uuid × Source)} (h : Progressed base db)
    (hc : ∀ child ∈ children, Current base db account child)
    (hrun : (children.foldlM (forgetChild requestHash fresh now account source key reason) acc).run db = .ok (acc', db')) :
    Visited base (children.map Prod.fst) db acc db' acc' := by
  induction children generalizing db acc with
  | nil =>
      obtain ⟨rfl, rfl⟩ := Tx.pure_ok.mp hrun
      exact .nil h
  | cons child rest ih =>
      rw [List.foldlM_cons, Tx.bind_ok] at hrun
      obtain ⟨acc₁, db₁, hfirst, hrest⟩ := hrun
      have hvisited := forgetChild_visited h (hc child List.mem_cons_self) hfirst
      have hrest := ih hvisited.progressed
        (fun c hmem => (hc c (List.mem_cons_of_mem _ hmem)).visited hvisited) hrest
      exact hvisited.append hrest

end loop

/-! ### Commands -/

section commands

variable {requestHash : Hashed → ℕ} {fresh : Uuid → Uuid} {now : Instant} {db db' : Store} {id account source : Uuid}
  {key : String} {payload : CommandPayload} {s : Source} {db₁ : Store}

/-- A transaction that has opened one action, and forgotten nothing unless it says so, is over. -/
theorem Opened.finish {a : Action} {f : Source → Source} (hsound : Sound db)
    (h : Opened db db id a s f db₁) (hf : (f s).state ≠ .forgotten) (hprogressed : Progressed db db')
    (hsources : db'.sources = db₁.sources) : Sound db' := by
  have hremembers := h.remembers (fun j r hr hstate => ⟨r, hr, hstate⟩) hf
  refine hprogressed.finish_remembers hsound fun j r hr hstate => ?_
  rw [hsources] at hr
  exact hremembers j r hr hstate

/-- **The children of a deletion**: once the source is forgotten, the loop forgets every descendant. -/
theorem deletion_visited {a : Action} {f : Source → Source} {db₂ : Store} {reason : String} {acc acc' : Deletion}
    (hsound : Sound db) (h : Opened db db id a s f db₁) (hkind : a.sourceId = source) (hs : db.sources.lookup source = some s)
    (hf : (f s).state = .forgotten)
    (hrun : ((descendants db₁ account source).foldlM (forgetChild requestHash fresh now account source key reason) acc).run
      db₁ = .ok (acc', db₂)) :
    Visited db ((descendants db₁ account source).map Prod.fst) db₁ acc db₂ acc' := by
  subst hkind
  refine forgetChildren_visited h.progressed (fun child hchild => ?_) hrun
  obtain ⟨hrow, haccount⟩ := descendants_row hchild
  refine ⟨⟨child.2, hrow, rfl, haccount, fun hstate => hstate⟩, fun hstate => ?_⟩
  by_cases hj : child.1 = a.sourceId
  · rw [hj, h.source] at hrow
    rw [← Option.some.inj hrow] at hstate
    exact absurd hf hstate
  · exact hsound.toSoundRows.undeleted_row ((h.others _ hj).symm.trans hrow) hstate

/-- **The end of a deletion**: the source and its descendants are forgotten. -/
theorem deletion_finish {a : Action} {f : Source → Source} {db₂ : Store} {acc acc' : Deletion} (hsound : Sound db)
    (h : Opened db db id a s f db₁) (hkind : a.sourceId = source) (hparent : (f s).parent = s.parent)
    (howner : (f s).accountId = s.accountId) (hs : db.sources.lookup source = some s) (haccount : s.accountId = account) (hstate : (f s).state = .forgotten)
    (hvisited : Visited db ((descendants db₁ account source).map Prod.fst) db₁ acc db₂ acc')
    (hprogressed : Progressed db db') (hsources : db'.sources = db₂.sources) :
    Sound db' ∧ ∃ r, db'.sources.lookup source = some r ∧ r.state = .forgotten := by
  subst hkind
  have hroot : ∃ r, db₂.sources.lookup a.sourceId = some r ∧ r.state = .forgotten := by
    obtain ⟨r, hr, _, _, hforgotten⟩ := hvisited.rows _ _ h.source
    exact ⟨r, hr, hforgotten hstate⟩
  have hchild : ∀ {j : Uuid} {r : Source}, (j, r) ∈ descendants db₁ account a.sourceId →
      j ∈ (descendants db₁ account a.sourceId).map Prod.fst :=
    fun hmem => List.mem_map.mpr ⟨_, hmem, rfl⟩
  -- a row after the source has moved is the source, or the row it was
  have hrow : ∀ j r, db.sources.lookup j = some r → ∃ r', db₁.sources.lookup j = some r' ∧ r'.parent = r.parent ∧
      r'.accountId = r.accountId := by
    intro j r hr
    by_cases hj : j = a.sourceId
    · subst hj
      obtain rfl := Option.some.inj (hs.symm.trans hr)
      exact ⟨_, h.source, hparent, howner⟩
    · exact ⟨r, (h.others j hj).trans hr, rfl, rfl⟩
  refine ⟨?_, by rw [hsources]; exact hroot⟩
  refine hprogressed.finish hsound.children (InDeletion db₁ account a.sourceId) (fun j hD => ?_) (fun j r hr hforgotten => ?_)
    fun j r p ps hr hp hD hps hsame => ?_
  · rcases hD with rfl | ⟨r, hr⟩
    · rw [hs]
      nofun
    · by_cases hj : j = a.sourceId
      · rw [hj, hs]
        nofun
      · rw [← h.others j hj, (descendants_row hr).1]
        nofun
  · rw [hsources] at hr
    by_cases hmem : j ∈ (descendants db₁ account a.sourceId).map Prod.fst
    · obtain ⟨⟨_, child⟩, hchild, rfl⟩ := List.mem_map.mp hmem
      exact .inr (.inr ⟨child, hchild⟩)
    · by_cases hj : j = a.sourceId
      · exact .inr (.inl hj)
      · rw [hvisited.others j hmem, h.others j hj] at hr
        exact .inl ⟨r, hr, hforgotten⟩
  · have howner : ps.accountId = account := by
      rcases hD with rfl | ⟨pr, hpr⟩
      · obtain rfl := Option.some.inj (hs.symm.trans hps)
        exact haccount
      · obtain ⟨hlookup, haccount'⟩ := descendants_row hpr
        obtain ⟨ps', hps', _, hsame'⟩ := hrow p ps hps
        obtain rfl := Option.some.inj (hlookup.symm.trans hps')
        exact hsame'.symm.trans haccount'
    obtain ⟨r', hr', hparent, haccount'⟩ := hrow j r hr
    have hfound := descendants_closed hr' (haccount'.trans (hsame.symm.trans howner)) (hparent.trans hp) hD
    rw [hsources]
    exact hvisited.forgotten j (hchild hfound)

/-- **What a command has found** covers the scope of its source. -/
theorem invalidateFound_progressed {base : Store} {a : Action} {r : Source} {kind : CommandKind} {found : Deletion}
    {u : Unit} (h : Progressed base db) (hfresh : base.actions.lookup id = none) (ha : db.actions.lookup id = some a)
    (hr : db.sources.lookup a.sourceId = some r) (hscope : r.scope ∈ found.scopes)
    (hpayload : a.requestPayload.bind Payload.newScope? = none)
    (hrun : (invalidateFound account id kind found).run db = .ok (u, db₁)) :
    Progressed base db₁ ∧ db₁.sources = db.sources := by
  unfold invalidateFound at hrun
  split at hrun
  · refine h.invalidated hrun hfresh ha hr ?_ fun scope hnew => ?_
    · split
      · rfl
      · exact covers_of_mem hscope
    · rw [hpayload] at hnew
      cases hnew
  · obtain ⟨_, rfl⟩ := Tx.pure_ok.mp hrun
    exact ⟨h, rfl⟩

/-- The row of a source that a command has moved to its action. -/
def commanded (id : Uuid) (payload : CommandPayload) (s : Source) (r : Source) : Source :=
  { r with generation := s.generation + 1, state := if payload.kind = .delete then .forgotten else .blocked,
           manualCuration := true, currentActionId := some id }

theorem CommandKind.action_eq_delete {kind : CommandKind} : kind.action = .delete ↔ kind = .delete := by
  cases kind <;> decide

/-- **An accepted command** keeps the invariant; a deletion forgets its source. -/
theorem openCommand_governs {result : CommandResult} (hsound : Sound db) (hs : sourceOf db account source = some s)
    (hrun : (openCommand requestHash fresh id now account source key payload s).run db = .ok (result, db')) :
    Sound db' ∧ Evolves db db' ∧
      (payload.kind = .delete → ∃ r, db'.sources.lookup source = some r ∧ r.state = .forgotten) := by
  obtain ⟨hrow, haccount⟩ := sourceOf_eq_some.mp hs
  unfold openCommand at hrun
  rw [Tx.bind_check_ok, Tx.bind_check_ok, Tx.bind_check_ok, Tx.bind_query_ok, Tx.bind_check_ok, Tx.bind_query_ok,
    Tx.bind_check_ok] at hrun
  obtain ⟨_, hopen, _, _, _, hrun⟩ := hrun
  rw [Tx.bind_ok] at hrun
  obtain ⟨_, db₁, hinsert, hrun⟩ := hrun
  rw [Tx.bind_ok] at hrun
  obtain ⟨_, db₂, hupdate, hrun⟩ := hrun
  rw [Tx.bind_ok] at hrun
  obtain ⟨_, db₃, haffect, hrun⟩ := hrun
  rw [Tx.bind_ok] at hrun
  obtain ⟨found, db₄, hloop, hrun⟩ := hrun
  rw [Tx.bind_ok] at hrun
  obtain ⟨_, db₅, hinvalidate, hrun⟩ := hrun
  obtain ⟨_, rfl⟩ := Tx.pure_ok.mp hrun
  have hforgets : (commanded id payload s s).state = .forgotten ↔ payload.kind = .delete := by
    unfold commanded
    split
    next h => exact ⟨fun _ => h, fun _ => rfl⟩
    next h => exact ⟨nofun, fun hkind => absurd hkind h⟩
  have hopens : Opens id
      { Action.new now account source (s.generation + 1) payload.kind.action "account" payload.reason ("command:" ++ key)
          (requestHash (.command source payload)) (some (.command payload)) with targetMemoryId := payload.memoryId }
      s (commanded id payload s s) :=
    ⟨rfl, rfl, rfl, fun hstate => absurd hstate hopen, hforgets.trans CommandKind.action_eq_delete.symm, fun _ => rfl⟩
  have hopened := (Progressed.start hsound.toSoundRows).opened hinsert hupdate hopens hrow haccount (fun _ => nofun)
    (hsound.toSoundRows.undeleted_row hrow hopen) nofun
  have hcovers : covers (some (.scopes [s.scope])) s.scope = true := covers_of_mem (List.mem_singleton.mpr rfl)
  have hopened := hopened.affect haffect ⟨⟨rfl, rfl, rfl, rfl⟩, .inl rfl, fun _ hv => hv⟩ rfl hcovers nofun
  unfold gatherDeletion at hloop
  by_cases hdelete : payload.kind = .delete
  · have hforgotten : (commanded id payload s s).state = .forgotten := if_pos hdelete
    simp only [if_pos hdelete] at hloop
    rw [Tx.bind_query_ok, Tx.bind_ok] at hloop
    obtain ⟨gathered, db₄, hchildren, hloop⟩ := hloop
    rw [Tx.bind_ok] at hloop
    obtain ⟨_, db₅, hevidence, hloop⟩ := hloop
    obtain ⟨rfl, rfl⟩ := Tx.pure_ok.mp hloop
    have hvisited := deletion_visited hsound hopened rfl hrow hforgotten hchildren
    have haction := hvisited.actions _ _ hopened.action
    obtain ⟨r, hr, hscope, _⟩ := hvisited.rows _ _ hopened.source
    have hamended := hvisited.progressed.amend hevidence
      (fun _ _ => ⟨⟨rfl, rfl, rfl, rfl⟩, .inl rfl, fun _ hv => hv⟩) (.inl fun _ => rfl)
    have hsources := updateAction_sources hevidence
    have haction' := lookup_updateAction hevidence id
    rw [haction, Option.map_some, if_pos ⟨rfl, rfl⟩] at haction'
    rw [← hsources] at hr
    obtain ⟨hprogressed, hsources'⟩ := invalidateFound_progressed hamended hopened.fresh haction' hr
      (hvisited.scopes _ (List.mem_singleton.mpr hscope)) rfl hinvalidate
    obtain ⟨hsound', hroot⟩ := deletion_finish hsound hopened rfl hopens.parent hopens.accountId hrow haccount hforgotten hvisited hprogressed
      (hsources'.trans hsources)
    exact ⟨hsound', hprogressed.toEvolves, fun _ => hroot⟩
  · simp only [if_neg hdelete] at hloop
    obtain ⟨rfl, rfl⟩ := Tx.pure_ok.mp hloop
    obtain ⟨hprogressed, hsources⟩ := invalidateFound_progressed hopened.progressed hopened.fresh hopened.action
      hopened.source (List.mem_singleton.mpr rfl) rfl hinvalidate
    exact ⟨hopened.finish hsound (fun hstate => hdelete (hforgets.mp hstate)) hprogressed hsources, hprogressed.toEvolves,
      fun h => absurd h hdelete⟩

theorem lockAccount_ok {row : MemoryAccount} (h : (lockAccount account).run db = .ok (row, db')) :
    db.accounts account = some row ∧ db = db' := by
  unfold lockAccount at h
  rw [Tx.bind_query_ok, Tx.demand_ok] at h
  exact h

theorem authorize_ok (h : (authorize account source).run db = .ok (s, db')) :
    sourceOf db account source = some s ∧ db = db' := by
  unfold authorize at h
  rw [Tx.bind_query_ok, Tx.bind_demand_ok] at h
  obtain ⟨⟨s', origin⟩, hfound, h⟩ := h
  rw [Tx.bind_check_ok, Tx.bind_ofExcept_ok] at h
  obtain ⟨_, _, _, h⟩ := h
  rw [Tx.bind_check_ok] at h
  obtain ⟨rfl, rfl⟩ := Tx.pure_ok.mp h.2
  obtain ⟨r, hr, hfound⟩ := Option.bind_eq_some_iff.mp hfound
  obtain ⟨_, _, hfound⟩ := Option.bind_eq_some_iff.mp hfound
  obtain ⟨_, _, hfound⟩ := Option.bind_eq_some_iff.mp hfound
  split at hfound
  · obtain ⟨rfl, _⟩ := Prod.mk.inj (Option.some.inj hfound)
    exact ⟨hr, rfl⟩
  · cases hfound

/-- The invariant looks at the two tables only. -/
theorem Sound.congr (h : Sound db) (hs : db'.sources = db.sources) (ha : db'.actions = db.actions) : Sound db' := by
  refine ⟨h.toSoundRows.congr hs ha, ?_⟩
  have hchildren := h.children
  unfold ChildrenForgotten at hchildren ⊢
  rw [hs]
  exact hchildren

/-- **A command** keeps the invariant; a deletion that is no replay forgets its source. -/
theorem command_governs {result : CommandResult × Bool} (hsound : Sound db)
    (hrun : (command requestHash fresh id now account source key payload).run db = .ok (result, db')) :
    Sound db' ∧ Evolves db db' ∧ (payload.kind = .delete → db.receipts.lookup (account, key) = none →
      actionByKey db account ("command:" ++ key) = none → ∃ r, db'.sources.lookup source = some r ∧ r.state = .forgotten) := by
  unfold command at hrun
  rw [Tx.bind_query_ok, Tx.bind_check_ok] at hrun
  obtain ⟨_, hrun⟩ := hrun
  rw [Tx.bind_ok] at hrun
  obtain ⟨_, _, hlock, hrun⟩ := hrun
  obtain ⟨_, rfl⟩ := lockAccount_ok hlock
  rw [Tx.bind_ok] at hrun
  obtain ⟨s, _, hauthorize, hrun⟩ := hrun
  obtain ⟨hs, rfl⟩ := authorize_ok hauthorize
  rw [Tx.bind_query_ok] at hrun
  split at hrun
  next receipt hold =>
    rw [Tx.bind_check_ok, Tx.bind_demand_ok] at hrun
    obtain ⟨_, _, _, hrun⟩ := hrun
    obtain ⟨_, rfl⟩ := Tx.pure_ok.mp hrun
    refine ⟨hsound, .refl _, fun _ hnone => ?_⟩
    rw [hold] at hnone
    cases hnone
  next hold =>
    rw [Tx.bind_query_ok] at hrun
    split at hrun
    next earlierId a hearlier =>
      rw [Tx.bind_check_ok] at hrun
      obtain ⟨_, hrun⟩ := hrun
      rw [pure_bind, Tx.bind_update_ok] at hrun
      obtain ⟨_, rfl⟩ := Tx.pure_ok.mp hrun
      refine ⟨hsound.congr rfl rfl, (Evolves.refl _).congr rfl rfl, fun _ _ hnone => ?_⟩
      rw [hearlier] at hnone
      cases hnone
    next hearlier =>
      rw [Tx.bind_ok] at hrun
      obtain ⟨opened, db₁, hopen, hrun⟩ := hrun
      rw [Tx.bind_update_ok] at hrun
      obtain ⟨_, rfl⟩ := Tx.pure_ok.mp hrun
      obtain ⟨hsound', hevolves, hforgotten⟩ := openCommand_governs hsound hs hopen
      exact ⟨hsound'.congr rfl rfl, hevolves.congr rfl rfl, fun hdelete _ _ => hforgotten hdelete⟩

end commands

/-! ### Scopes and revocations -/

section system

variable {requestHash : Hashed → ℕ} {fresh : Uuid → Uuid} {now : Instant} {base db db' : Store} {id account source : Uuid}

/-- **The reconciliation of a scope** keeps the invariant. -/
theorem reconcileScope_governs {generation : ℕ} {result : Option Uuid} (hsound : Sound db)
    (hrun : (reconcileScope requestHash id now account source generation).run db = .ok (result, db')) :
    Sound db' ∧ Evolves db db' := by
  unfold reconcileScope at hrun
  rw [Tx.bind_ok] at hrun
  obtain ⟨_, _, hlock, hrun⟩ := hrun
  obtain ⟨_, rfl⟩ := lockAccount_ok hlock
  rw [Tx.bind_query_ok, Tx.bind_demand_ok] at hrun
  obtain ⟨⟨s, origin⟩, hfound, hrun⟩ := hrun
  obtain ⟨s', hs, hfound⟩ := Option.bind_eq_some_iff.mp hfound
  obtain ⟨_, _, hfound⟩ := Option.bind_eq_some_iff.mp hfound
  obtain ⟨_, _, hfound⟩ := Option.bind_eq_some_iff.mp hfound
  obtain ⟨rfl, _⟩ := Prod.mk.inj (Option.some.inj hfound)
  obtain ⟨hrow, haccount⟩ := sourceOf_eq_some.mp hs
  rw [Tx.bind_check_ok, Tx.bind_ofExcept_ok] at hrun
  obtain ⟨_, destination, _, hrun⟩ := hrun
  rw [Tx.bind_check_ok] at hrun
  obtain ⟨_, hrun⟩ := hrun
  split at hrun
  · obtain ⟨_, rfl⟩ := Tx.pure_ok.mp hrun
    exact ⟨hsound, .refl _⟩
  · rw [Tx.bind_query_ok, Tx.bind_check_ok] at hrun
    obtain ⟨⟨hactive, _⟩, hrun⟩ := hrun
    rw [Tx.bind_ok] at hrun
    obtain ⟨_, db₁, hinsert, hrun⟩ := hrun
    rw [Tx.bind_ok] at hrun
    obtain ⟨_, db₂, hupdate, hrun⟩ := hrun
    rw [Tx.bind_ok] at hrun
    obtain ⟨_, db₃, hinvalidate, hrun⟩ := hrun
    obtain ⟨_, rfl⟩ := Tx.pure_ok.mp hrun
    have hopen : s'.state ≠ .forgotten := by
      rw [hactive]
      decide
    have hopened := (Progressed.start hsound.toSoundRows).opened hinsert hupdate
      ⟨rfl, rfl, rfl, fun hstate => absurd hstate hopen, ⟨(by intros; contradiction), (by intros; contradiction)⟩, fun _ => rfl⟩
      hrow haccount (fun _ => by contradiction) (hsound.toSoundRows.undeleted_row hrow hopen) fun _ _ => rfl
    obtain ⟨hprogressed, hsources⟩ := hopened.progressed.invalidated hinvalidate hopened.fresh hopened.action
      hopened.source (by
        split
        · exact covers_of_mem List.mem_cons_self
        · rfl) fun scope hscope => by
        obtain rfl := Option.some.inj hscope
        split
        · exact covers_of_mem (List.mem_cons_of_mem _ (List.mem_singleton.mpr rfl))
        · rfl
    exact ⟨hopened.finish hsound (by simp) hprogressed hsources, hprogressed.toEvolves⟩

/-- Revocations in the middle of a transaction: nothing has been forgotten, and no scope has changed. -/
structure Revoking (base db : Store) : Prop where
  progressed : Progressed base db
  rows : ∀ j r', db.sources.lookup j = some r' → ∃ r, base.sources.lookup j = some r ∧ r'.scope = r.scope ∧
    r'.accountId = r.accountId ∧ (r'.state = .forgotten → r.state = .forgotten)

/-- **A revocation is recorded** on a source as it was read. -/
theorem recordRevocation_revoking {e : Uuid × Source} {reason : String} {u : Unit}
    (h : Revoking base db) (hbase : SoundRows base) (hrow : base.sources.lookup e.1 = some e.2)
    (haccount : e.2.accountId = account) (hcovers : covers (some affected) e.2.scope = true)
    (hrun : (recordRevocation requestHash id now account e reason affected).run db = .ok (u, db')) : Revoking base db' := by
  unfold recordRevocation at hrun
  split at hrun
  next =>
    obtain ⟨_, rfl⟩ := Tx.pure_ok.mp hrun
    exact h
  next hopen =>
    rw [Tx.bind_ok] at hrun
    obtain ⟨row, _, hlock, hrun⟩ := hrun
    obtain ⟨_, rfl⟩ := lockAccount_ok hlock
    rw [Tx.bind_update_ok, Tx.bind_ok] at hrun
    obtain ⟨_, db₁, hinsert, hrun⟩ := hrun
    rw [Tx.bind_ok] at hrun
    obtain ⟨_, db₂, hupdate, hrun⟩ := hrun
    -- the row has its scope still, and is not forgotten
    obtain ⟨s, hs, _⟩ := h.progressed.sources e.1 e.2 hrow
    obtain ⟨r, hr, hscope, hsame, hstate⟩ := h.rows e.1 s hs
    obtain rfl := Option.some.inj (hrow.symm.trans hr)
    have hopened := (h.progressed.congr (by rfl) (by rfl)).opened hinsert hupdate
      ⟨rfl, rfl, rfl, fun hforgotten => absurd (hstate hforgotten) hopen, ⟨nofun, nofun⟩, fun _ => hscope ▸ hcovers⟩ hs
      (hsame.trans haccount) nofun (hbase.undeleted_row hrow hopen) nofun
    have hsources := updateAction_sources hrun
    refine ⟨hopened.progressed.amend hrun (fun _ _ => ⟨⟨rfl, rfl, rfl, rfl⟩, .inl rfl, fun _ hv => hv⟩)
      (.inl fun _ => rfl), fun j r' hr' => ?_⟩
    rw [hsources] at hr'
    by_cases hj : j = e.1
    · subst hj
      obtain rfl := Option.some.inj (hopened.source.symm.trans hr')
      exact ⟨e.2, hrow, hscope, hsame, nofun⟩
    · exact h.rows j r' ((hopened.others j hj).symm.trans hr')

/-- **The loop** over the sources that were read. -/
theorem revocations_revoking {sources : List (Uuid × Source)} {reason : String} {affected : Uuid × Source → Affected}
    {u : Unit} (h : Revoking base db) (hbase : SoundRows base)
    (hrows : ∀ e ∈ sources, base.sources.lookup e.1 = some e.2 ∧ e.2.accountId = account)
    (hcovers : ∀ e ∈ sources, covers (some (affected e)) e.2.scope = true)
    (hrun : (sources.forM fun e => recordRevocation requestHash (fresh e.1) now account e reason (affected e)).run db
      = .ok (u, db')) : Revoking base db' := by
  induction sources generalizing db with
  | nil =>
      obtain ⟨_, rfl⟩ := Tx.pure_ok.mp hrun
      exact h
  | cons e rest ih =>
      obtain ⟨_, db₁, hfirst, hrest⟩ := Tx.bind_ok.mp hrun
      obtain ⟨hrow, haccount⟩ := hrows e List.mem_cons_self
      have hstep := recordRevocation_revoking h hbase hrow haccount (hcovers e List.mem_cons_self) hfirst
      exact ih hstep (fun r hr => hrows r (List.mem_cons_of_mem _ hr)) (fun r hr => hcovers r (List.mem_cons_of_mem _ hr))
        hrest

/-- **The revocation of a grant** keeps the invariant. -/
theorem revoke_governs {subject : Subject} {u : Unit} (hsound : Sound db)
    (hrun : (revoke requestHash fresh now account subject).run db = .ok (u, db')) : Sound db' ∧ Evolves db db' := by
  unfold revoke at hrun
  rw [Tx.bind_ok] at hrun
  obtain ⟨_, _, hlock, hrun⟩ := hrun
  obtain ⟨_, rfl⟩ := lockAccount_ok hlock
  rw [Tx.bind_update_ok, Tx.bind_query_ok] at hrun
  obtain ⟨db₁, hsources, hactions, hrun⟩ : ∃ db₁ : Store, db₁.sources = db.sources ∧ db₁.actions = db.actions ∧
      ((sourcesFrom db₁ account subject).forM fun e => recordRevocation requestHash (fresh e.1) now account e
        "resource_grant_revoked" (if e.2.policyVersion ≠ "chat-v2" then .account else .scopes [e.2.scope])).run db₁
        = .ok (u, db') :=
    ⟨_, by rfl, by rfl, hrun⟩
  have hstart : Revoking db db₁ := by
    refine ⟨(Progressed.start hsound.toSoundRows).congr hsources hactions, fun j r' hr' => ?_⟩
    rw [hsources] at hr'
    exact ⟨r', hr', rfl, rfl, fun hstate => hstate⟩
  have hrows : ∀ e ∈ sourcesFrom db₁ account subject, db.sources.lookup e.1 = some e.2 ∧ e.2.accountId = account := by
    intro e he
    rw [← hsources]
    exact mem_sourcesOf.mp (List.mem_of_mem_filter he)
  have hloop := revocations_revoking hstart hsound.toSoundRows hrows (fun e _ => by
    split
    · rfl
    · exact covers_of_mem (List.mem_singleton.mpr rfl)) hrun
  refine ⟨hloop.progressed.finish_remembers hsound fun j r hr hstate => ?_, hloop.progressed.toEvolves⟩
  obtain ⟨r₀, hr₀, _, _, hforgotten⟩ := hloop.rows j r hr
  exact ⟨r₀, hr₀, hforgotten hstate⟩

end system

/-! ### Registration -/

section registration

variable {requestHash : Hashed → ℕ} {now : Instant} {base db db' : Store} {id operation account : Uuid} {u : Unit}

theorem registeredState_ne_forgotten (blocked : Bool) (decision : Decision) : registeredState blocked decision ≠ .forgotten := by
  cases blocked <;> cases decision <;> decide

/-- **The insertion of a source** keeps what there was. -/
theorem insertSource_progressed {s : Source} (hsound : SoundRows db) (hparent : s.parent = none)
    (hcurrent : s.currentActionId = none) (hstate : s.state ≠ .forgotten)
    (hrun : (insertSource id s).run db = .ok (u, db')) : Progressed db db' ∧ Remembers db db' := by
  unfold insertSource at hrun
  rw [Tx.update_ok] at hrun
  split at hrun
  next =>
    subst hrun
    exact ⟨.start hsound, fun j r hr hforgotten => ⟨r, hr, hforgotten⟩⟩
  next hfree =>
    subst hrun
    rw [Bool.or_eq_true, not_or] at hfree
    have hnone : db.sources.lookup id = none := by simpa using hfree.1
    refine ⟨(Progressed.start hsound).insertSource hnone rfl rfl hparent hcurrent hstate, fun j r hr hforgotten => ?_⟩
    have hr' := (Table.lookup_insert_ite db.sources id j s).symm.trans hr
    split at hr'
    · rw [← Option.some.inj hr'] at hforgotten
      exact absurd hforgotten hstate
    · exact ⟨r, hr', hforgotten⟩

/-- **The freezing of a request** opens the only Retain of its source. -/
theorem freeze_progressed {source : Uuid × Source} {actionKey : String} (hsound : SoundRows base)
    (h : Progressed base db) (hremembers : Remembers base db) (hrow : db.sources.lookup source.1 = some source.2)
    (hactive : source.2.state = .active)
    (hrun : (freeze requestHash id operation now source request actionKey).run db = .ok (u, db')) :
    Progressed base db' ∧ Remembers base db' := by
  unfold freeze at hrun
  rw [Tx.bind_query_ok] at hrun
  split at hrun
  · obtain ⟨_, rfl⟩ := Tx.check_ok.mp hrun
    exact ⟨h, hremembers⟩
  · rw [Tx.bind_check_ok, Tx.bind_check_ok] at hrun
    obtain ⟨_, _, hrun⟩ := hrun
    rw [Tx.bind_ok] at hrun
    obtain ⟨_, db₁, hinsert, hupdate⟩ := hrun
    have hopen : source.2.state ≠ .forgotten := by
      rw [hactive]
      decide
    have hundeleted : Undeleted base source.1 := by
      refine hsound.undeleted fun s hs hforgotten => ?_
      obtain ⟨s', hs', _, _, hstays⟩ := h.sources _ s hs
      obtain rfl := Option.some.inj (hrow.symm.trans hs')
      exact hopen (hstays hforgotten)
    have hopened := h.opened hinsert hupdate
      ⟨rfl, rfl, rfl, fun hstate => hstate, ⟨fun hstate => absurd hstate hopen, nofun⟩, fun hkind => absurd rfl hkind⟩ hrow rfl
      nofun hundeleted nofun
    exact ⟨hopened.progressed, hopened.remembers hremembers hopen⟩

/-- **The registration of a Run** keeps the invariant. -/
theorem register_governs {actionId eventAccount eventRun : Uuid} {owned : Bool} {run : Option (Uuid × Uuid)}
    {scope : Scope} {decision : Decision} {qualitySnapshot : Option ℕ} (hsound : Sound db)
    (hrun : (register requestHash id actionId operation now owned eventAccount eventRun run request scope decision
      qualitySnapshot).run db = .ok (u, db')) : Sound db' ∧ Evolves db db' := by
  unfold register at hrun
  rw [Tx.bind_ok] at hrun
  obtain ⟨_, _, hlock, hrun⟩ := hrun
  obtain ⟨_, rfl⟩ := lockAccount_ok hlock
  rw [Tx.bind_check_ok] at hrun
  obtain ⟨_, hrun⟩ := hrun
  split at hrun
  · obtain ⟨_, rfl⟩ := Tx.pure_ok.mp hrun
    exact ⟨hsound, .refl _⟩
  · rw [Tx.bind_check_ok, Tx.bind_query_ok] at hrun
    obtain ⟨_, hrun⟩ := hrun
    rw [Tx.bind_query_ok, Tx.bind_demand_ok] at hrun
    obtain ⟨r, _, hrun⟩ := hrun
    rw [Tx.bind_ok] at hrun
    obtain ⟨_, db₁, hinsert, hrun⟩ := hrun
    obtain ⟨hprogressed, hremembers⟩ := insertSource_progressed hsound.toSoundRows rfl rfl
      (registeredState_ne_forgotten _ _) hinsert
    rw [Tx.bind_query_ok, Tx.bind_demand_ok] at hrun
    obtain ⟨source, hfound, hrun⟩ := hrun
    rw [Tx.bind_check_ok] at hrun
    obtain ⟨_, hrun⟩ := hrun
    split at hrun
    next hallowed =>
      have hrow : db₁.sources.lookup source.1 = some source.2 := by
        obtain ⟨e, he, rfl⟩ := Option.map_eq_some_iff.mp hfound
        exact AList.mem_lookup_iff.mpr (List.mem_of_find?_eq_some he)
      obtain ⟨hprogressed, hremembers⟩ := freeze_progressed hsound.toSoundRows hprogressed hremembers hrow hallowed.2.2.1 hrun
      exact ⟨hprogressed.finish_remembers hsound hremembers, hprogressed.toEvolves⟩
    next =>
      obtain ⟨_, rfl⟩ := Tx.pure_ok.mp hrun
      exact ⟨hprogressed.finish_remembers hsound hremembers, hprogressed.toEvolves⟩

end registration

end HpAgent.Memory.Governance
