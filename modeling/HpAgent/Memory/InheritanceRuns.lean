import HpAgent.Memory.Inheritance

/-! # Inherited memory over every history

Memory that has reached a Run goes on to the Runs whose contexts keep its answer.  A manifest that covers a scope is refused by
every later revocation of the scope, so an answer whose manifest covers all that has reached its Run leaves the contexts when
any of it is revoked.

`load_base` passes the scopes of a kept answer on, except when they are unknown: then it passes none on, although the unknown
scopes of the Run itself make its whole manifest unknown (`HidesUnknown`).

* `Covers`, `Unmet`, `Carries`: what a binding says about memory that has come along.
* `Tainted`: every manifest and every loaded context carries what has reached it, as an invariant.
* `taint_inherited`: the laws of the histories in which no context hides unknown scopes. -/

namespace HpAgent.Memory

open Library

variable {scopes : Option (List Scope)} {result : Option Manifest} {w : World} {actions : List ChatAction}
variable {current : Option (List Scope)} {parent : Option Uuid} {recalled : List String}

/-! ### Memory that comes along -/

/-- The scopes stand for the scope. -/
def Covers (scopes : Option (List Scope)) (scope : Scope) : Prop := ∀ own, scopes = some own → scope ∈ own

/-- No revocation after the first epoch and up to the second meets the scope. -/
def Unmet (db : ContextStore) (account : Uuid) (scope : Scope) (low high : ℕ) : Prop :=
  ∀ k affected, Revoked db account k affected → low < k → k ≤ high → intersects (some [scope]) affected = false

/-- A binding covers memory of an epoch, and came before every revocation that meets it. -/
structure Carries (db : ContextStore) (account : Uuid) (b : Binding) (t : Scope × ℕ) : Prop where
  since : t.2 ≤ memoryEpoch db account
  bound : b.epoch ≤ memoryEpoch db account
  covers : Covers b.scopes t.1
  unmet : Unmet db account t.1 t.2 b.epoch

section carries

variable {db db' : ContextStore} {account : Uuid} {b : Binding} {t : Scope × ℕ} {scope : Scope}

theorem Covers.meets (h : Covers scopes scope) {affected : Option Affected}
    (hmeets : intersects (some [scope]) affected = true) : Meets scopes affected := by
  cases scopes with
  | none => exact ⟨nofun, rfl⟩
  | some own =>
      have hmem := h own rfl
      refine ⟨fun heq => ?_, ?_⟩
      · obtain rfl := Option.some.inj heq
        cases hmem
      · cases affected with
        | none => rfl
        | some affected =>
            cases affected with
            | account => rfl
            | scopes hit =>
                have hhit : hit.contains scope = true := by simpa [intersects] using hmeets
                exact List.any_eq_true.mpr ⟨scope, hmem, hhit⟩

theorem Unmet.later {low high : ℕ} (h : Unmet db account scope low high) (hlater : Later db db')
    (hhigh : high ≤ memoryEpoch db account) : Unmet db' account scope low high := by
  intro k affected hrevoked hlow hk
  exact h k affected ((hlater.revoked account k affected (hk.trans hhigh)).mp hrevoked) hlow hk

theorem Carries.later (h : Carries db account b t) (hlater : Later db db') : Carries db' account b t :=
  ⟨h.since.trans (hlater.epochs account), h.bound.trans (hlater.epochs account), h.covers, h.unmet.later hlater h.bound⟩

/-- Nothing has been revoked while the epoch is zero. -/
theorem unmet_of_zero (hdb : Recorded db) (hzero : memoryEpoch db account = 0) (low high : ℕ) :
    Unmet db account scope low high := by
  intro k affected hrevoked _ _
  have hwithin := hdb.within account k affected hrevoked
  omega

/-- A manifest that passes its check has met no revocation of what it covers. -/
theorem Carries.unmet_of_check (h : Carries db account b t) (hdb : Recorded db) {m : Manifest}
    (hm : Faithful db account m b) (hcheck : checkManifest db account (some m) (memoryEpoch db account) = .ok result) :
    Unmet db account t.1 t.2 (memoryEpoch db account) := by
  intro k affected hrevoked hlow hk
  by_cases hbefore : k ≤ b.epoch
  · exact h.unmet k affected hrevoked hlow hbefore
  · have hnone := ((hm.checkManifest_ok hdb).mp hcheck).1
    by_contra hmeets
    exact hnone ⟨k, affected, hrevoked, Nat.lt_of_not_le hbefore, h.covers.meets (by simpa using hmeets)⟩

/-- A check from an earlier epoch extends what is known up to there. -/
theorem Unmet.of_check {low middle : ℕ} (h : Unmet db account scope low middle) (hdb : Recorded db) {m : Manifest}
    (hcovers : Covers m.scopes scope) (hepoch : m.epoch ≤ middle)
    (hcheck : checkManifest db account (some m) (memoryEpoch db account) = .ok result) :
    Unmet db account scope low (memoryEpoch db account) := by
  intro k affected hrevoked hlow hk
  by_contra hmeets
  obtain ⟨-, hnone, -⟩ := (checkManifest_ok hdb).mp hcheck
  have hbefore := hnone k affected hrevoked (hcovers.meets (by simpa using hmeets))
  exact hmeets (h k affected hrevoked hlow (hbefore.trans hepoch))

end carries

/-! ### Lists of scopes -/

theorem mem_addScopes {own more : List Scope} {scope : Scope} : scope ∈ addScopes own more ↔ scope ∈ own ∨ scope ∈ more := by
  unfold addScopes
  induction more generalizing own with
  | nil => simp
  | cons s rest ih =>
      rw [List.foldl_cons, ih]
      split
      · next hmem =>
          constructor
          · rintro (h | h)
            · exact .inl h
            · exact .inr (List.mem_cons_of_mem s h)
          · rintro (h | h)
            · exact .inl h
            · obtain rfl | h := List.mem_cons.mp h
              · exact .inl hmem
              · exact .inr h
      · simp [or_assoc]

/-- Scopes to which others were added still cover what they covered. -/
theorem Covers.add {scope : Scope} (h : Covers scopes scope) (more : List Scope) :
    Covers (scopes.map fun own => addScopes own more) scope := by
  intro own hown
  obtain ⟨before, hbefore, rfl⟩ := Option.map_eq_some_iff.mp hown
  exact mem_addScopes.mpr (.inl (h before hbefore))

theorem Covers.added {more : List Scope} {scope : Scope} (h : scope ∈ more) (scopes : Option (List Scope)) :
    Covers (scopes.map fun own => addScopes own more) scope := by
  intro own hown
  obtain ⟨before, -, rfl⟩ := Option.map_eq_some_iff.mp hown
  exact mem_addScopes.mpr (.inr h)

theorem covers_none (scope : Scope) : Covers none scope := nofun

theorem Covers.merge_left {base : Option (List Scope)} {scope : Scope} (h : Covers current scope) :
    Covers (mergeScopes current base) scope := by
  unfold mergeScopes
  cases current with
  | none => exact covers_none scope
  | some own =>
      cases base with
      | none => exact covers_none scope
      | some more => exact h.add more

theorem Covers.merge_right {base : Option (List Scope)} {scope : Scope} (h : Covers base scope) :
    Covers (mergeScopes current base) scope := by
  unfold mergeScopes
  cases current with
  | none => exact covers_none scope
  | some own =>
      cases base with
      | none => exact covers_none scope
      | some more => exact Covers.added (h more rfl) (some own)

/-! ### What a context takes over -/

/-- The scopes of the messages so far, with those of a manifest. -/
def Handed (scopes : Option (List Scope)) : Option Manifest → Prop
  | none => scopes = none
  | some m => ∀ own, m.scopes = some own → ∀ scope ∈ own, Covers scopes scope

/-- The kept answers passed their checks, and their known scopes are handed on. -/
def Inherits (db : ContextStore) (account : Uuid) (epoch : ℕ) (acc : Inherited) : Prop :=
  ∀ p ∈ acc.kept, (∃ result, checkManifest db account (rootContext db account p) epoch = .ok result) ∧
    Handed acc.scopes (rootContext db account p)

section inherits

variable {db : ContextStore} {account : Uuid} {epoch : ℕ} {acc : Inherited}

/-- A check returns a manifest with the scopes of the one it was given. -/
theorem checkManifest_scopes {m : Manifest}
    (h : checkManifest db account (some m) epoch = .ok result) : ∃ m', result = some m' ∧ m'.scopes = m.scopes := by
  unfold checkManifest at h
  dsimp only at h
  split at h
  · cases h
  · split at h
    · exact ⟨_, (Except.ok.inj h).symm, rfl⟩
    · split at h
      · cases h
      · split at h
        · cases h
        · exact ⟨_, (Except.ok.inj h).symm, rfl⟩

theorem Handed.add {context : Option Manifest} (h : Handed scopes context) (more : List Scope) :
    Handed (scopes.map fun own => addScopes own more) context := by
  cases context with
  | none =>
      obtain rfl : scopes = none := h
      exact rfl
  | some m => exact fun own hown scope hmem => (h own hown scope hmem).add more

theorem handed_none (context : Option Manifest) : Handed none context := by
  cases context with
  | none => exact rfl
  | some m => exact fun _ _ scope _ => covers_none scope

theorem Inherits.message (h : Inherits db account epoch acc) (producer : Uuid) :
    Inherits db account epoch (inheritMessage db account epoch acc producer) := by
  unfold inheritMessage
  cases hcheck : checkManifest db account (rootContext db account producer) epoch with
  | error e => exact h
  | ok result =>
      cases result with
      | none =>
          intro p hp
          obtain hp | hp := List.mem_append.mp hp
          · exact ⟨(h p hp).1, handed_none _⟩
          · obtain rfl := List.mem_singleton.mp hp
            exact ⟨⟨none, hcheck⟩, handed_none _⟩
      | some m' =>
          intro p hp
          obtain hp | hp := List.mem_append.mp hp
          · exact ⟨(h p hp).1, (h p hp).2.add _⟩
          · obtain rfl := List.mem_singleton.mp hp
            refine ⟨⟨some m', hcheck⟩, ?_⟩
            obtain ⟨m, hm⟩ := manifest_of_check hcheck
            rw [hm] at hcheck ⊢
            obtain ⟨_, heq, hsame⟩ := checkManifest_scopes hcheck
            obtain rfl := Option.some.inj heq
            intro own hown scope hmem
            refine Covers.added ?_ acc.scopes
            rw [hsame, hown]
            exact hmem

theorem inherits_messages (db : ContextStore) (account : Uuid) (epoch : ℕ) (producers : List Uuid) :
    Inherits db account epoch (producers.foldl (inheritMessage db account epoch) ⟨some [], [], []⟩) := by
  induction producers using List.reverseRecOn with
  | nil => nofun
  | append_singleton producers p ih =>
      rw [List.foldl_concat]
      exact ih.message p

/-- Answers that were kept stay. -/
theorem kept_message (producer : Uuid) {p : Uuid} (h : p ∈ acc.kept) : p ∈ (inheritMessage db account epoch acc producer).kept := by
  unfold inheritMessage
  split
  · exact h
  · exact List.mem_append_left _ h
  · exact List.mem_append_left _ h

theorem kept_of_message {producer p : Uuid} (h : p ∈ (inheritMessage db account epoch acc producer).kept) :
    p ∈ acc.kept ∨ p = producer := by
  unfold inheritMessage at h
  split at h
  · exact .inl h
  · simpa using h
  · simpa using h

theorem kept_producers {producers : List Uuid} {p : Uuid}
    (h : p ∈ (producers.foldl (inheritMessage db account epoch) acc).kept) : p ∈ acc.kept ∨ p ∈ producers := by
  induction producers using List.reverseRecOn generalizing p with
  | nil => exact .inl h
  | append_singleton producers q ih =>
      rw [List.foldl_concat] at h
      obtain hold | rfl := kept_of_message h
      · obtain hacc | hmem := ih hold
        · exact .inl hacc
        · exact .inr (List.mem_append_left _ hmem)
      · exact .inr (List.mem_append_right _ (List.mem_singleton.mpr rfl))

/-- An answer whose Run passes its check is kept. -/
theorem kept_of_pass {producers : List Uuid} {p : Uuid} (hp : p ∈ producers)
    (hcheck : checkManifest db account (rootContext db account p) epoch = .ok result) :
    p ∈ (producers.foldl (inheritMessage db account epoch) acc).kept := by
  induction producers using List.reverseRecOn with
  | nil => cases hp
  | append_singleton producers q ih =>
      rw [List.foldl_concat]
      obtain hold | hlast := List.mem_append.mp hp
      · exact kept_message q (ih hold)
      · obtain rfl := List.mem_singleton.mp hlast
        unfold inheritMessage
        rw [hcheck]
        cases result with
        | none => exact List.mem_append_right _ (List.mem_singleton.mpr rfl)
        | some m => exact List.mem_append_right _ (List.mem_singleton.mpr rfl)

theorem Covers.own {scope : Scope} (h : Covers acc.scopes scope) (current : Option Manifest) :
    Covers (inheritOwn acc current).scopes scope := by
  unfold inheritOwn
  cases current with
  | none => exact covers_none scope
  | some m =>
      dsimp only
      cases hacc : acc.scopes with
      | none => exact covers_none scope
      | some own =>
          cases hm : m.scopes with
          | none => exact covers_none scope
          | some more =>
              rw [hacc] at h
              exact h.add more

end inherits

/-- A context keeps an answer with unknown scopes, and nothing else makes the scopes of the context unknown. -/
def HidesUnknown (db : ContextStore) (account run : Uuid) (producers : List Uuid) : Prop :=
  (∃ p ∈ producers, ∃ m, checkManifest db account (rootContext db account p) (memoryEpoch db account) = .ok (some m) ∧
    m.scopes = none) ∧
  (∀ p ∈ producers, checkManifest db account (rootContext db account p) (memoryEpoch db account) ≠ .ok none) ∧
  ∃ m, rootContext db account run = some m ∧ m.scopes ≠ none

/-- What `load_base` returns. -/
theorem loadBase_ok {db db' : ContextStore} {account run : Uuid} {producers : List Uuid} {base : Base}
    (h : (loadBase account run producers).run db = .ok (base, db')) :
    ∃ id x current, findExecution db account run none = some (id, x) ∧
      checkManifest db account x.memoryContext (memoryEpoch db account) = .ok current ∧ base.account = account ∧
      base.epoch = memoryEpoch db account ∧
      base.scopes = (inheritOwn (producers.foldl (inheritMessage db account (memoryEpoch db account)) ⟨some [], [], []⟩) current).scopes ∧
      base.kept = (producers.foldl (inheritMessage db account (memoryEpoch db account)) ⟨some [], [], []⟩).kept := by
  unfold loadBase at h
  rw [Tx.bind_query_ok, Tx.bind_demand_ok] at h
  obtain ⟨⟨id, x⟩, hfound, h⟩ := h
  rw [Tx.bind_ok] at h
  obtain ⟨n, db₁, hepoch, h⟩ := h
  obtain ⟨rfl, -, rfl⟩ := accountEpoch_ok hepoch
  rw [Tx.bind_query_ok, Tx.bind_query_ok, Tx.bind_ofExcept_ok] at h
  obtain ⟨current, hcheck, h⟩ := h
  obtain ⟨rfl, -⟩ := Tx.pure_ok.mp h
  refine ⟨id, x, current, hfound, hcheck, rfl, rfl, rfl, ?_⟩
  cases current with
  | none => rfl
  | some m => rfl

/-- A context that hides no unknown scopes covers what the manifests of its answers cover. -/
theorem loadBase_covers {db db' : ContextStore} {account run : Uuid} {producers : List Uuid} {base : Base}
    (h : (loadBase account run producers).run db = .ok (base, db')) (hknown : ¬HidesUnknown db account run producers)
    {p : Uuid} (hp : p ∈ base.kept) :
    (∃ result, checkManifest db account (rootContext db account p) (memoryEpoch db account) = .ok result) ∧
      (rootContext db account p = none → base.scopes = none) ∧
      ∀ m, rootContext db account p = some m → ∀ scope, Covers m.scopes scope → Covers base.scopes scope := by
  obtain ⟨id, x, current, hfound, hcheck, -, -, hscopes, hkept⟩ := loadBase_ok h
  have hinherits := inherits_messages db account (memoryEpoch db account) producers
  rw [hkept] at hp
  obtain ⟨hpass, hhanded⟩ := hinherits p hp
  have hunknown (hnone : (producers.foldl (inheritMessage db account (memoryEpoch db account)) ⟨some [], [], []⟩).scopes = none) :
      base.scopes = none := by
    rw [hscopes]
    unfold inheritOwn
    cases current with
    | none => rfl
    | some m =>
        dsimp only
        rw [hnone]
  refine ⟨hpass, fun hnone => ?_, fun m hm scope hcovers => ?_⟩
  · rw [hnone] at hhanded
    exact hunknown hhanded
  · rw [hm] at hhanded
    cases hown : m.scopes with
    | some own =>
        rw [hscopes]
        exact Covers.own (hhanded own hown scope (hcovers own hown)) current
    | none =>
        -- the scopes of this answer are not handed on, so something else must have made the context unknown
        have hbase : base.scopes = none := by
          by_contra hne
          refine hknown ⟨⟨p, (kept_producers hp).resolve_left nofun, ?_⟩, fun q hq hnone => hne (hunknown ?_), ?_⟩
          · obtain ⟨result, hresult⟩ := hpass
            rw [hm] at hresult
            obtain ⟨m', rfl, hsame⟩ := checkManifest_scopes hresult
            rw [hm]
            exact ⟨m', hresult, hsame.trans hown⟩
          · have hqhanded := (hinherits q (kept_of_pass hq hnone)).2
            cases hq : rootContext db account q with
            | none =>
                rw [hq] at hqhanded
                exact hqhanded
            | some mq =>
                rw [hq] at hnone
                obtain ⟨_, hresult, -⟩ := checkManifest_scopes hnone
                cases hresult
          · have hown : rootContext db account run = x.memoryContext := by
              unfold rootContext
              rw [hfound]
              rfl
            rw [hown]
            cases hx : x.memoryContext with
            | none =>
                rw [hx] at hcheck
                obtain ⟨-, rfl⟩ := checkManifest_none.mp hcheck
                exact absurd hscopes hne
            | some mx =>
                refine ⟨mx, rfl, fun hnone => hne ?_⟩
                rw [hx] at hcheck
                obtain ⟨mc, rfl, hsame⟩ := checkManifest_scopes hcheck
                rw [hscopes]
                unfold inheritOwn
                dsimp only
                rw [hsame, hnone]
                split
                · next heq => cases heq
                · rfl
        rw [hbase]
        exact covers_none scope

/-! ### The invariant -/

/-- Manifests and loaded contexts carry the memory that has reached them. -/
structure Tainted (s : ChatWorld) : Prop where
  sound : Sound s.world
  known : ∀ id x, s.world.db.executions.lookup id = some x → ∀ t ∈ s.reached id, t.2 ≤ memoryEpoch s.world.db x.accountId
  rows : ∀ id x m, s.world.db.executions.lookup id = some x → x.memoryContext = some m →
    ∀ t ∈ s.reached id, Carries s.world.db x.accountId (s.world.bound (x.accountId, id)) t
  loaded : ∀ base ∈ s.loaded, ∀ t ∈ base.seen, Carries s.world.db base.account ⟨base.epoch, base.scopes⟩ t

theorem tainted_start : Tainted ChatWorld.start := ⟨sound_start, nofun, nofun, nofun⟩

/-- Every Execution was there, and one with a manifest had one. -/
def RowsFrom (db db' : ContextStore) : Prop :=
  ∀ id x', db'.executions.lookup id = some x' → ∃ x, db.executions.lookup id = some x ∧ x'.accountId = x.accountId ∧
    ∀ m', x'.memoryContext = some m' → ∃ m, x.memoryContext = some m

theorem rowsFrom_of_eq {db db' : ContextStore} (h : db'.executions = db.executions) : RowsFrom db db' := by
  intro id x' hx'
  rw [h] at hx'
  exact ⟨x', hx', rfl, fun m' hm' => ⟨m', hm'⟩⟩

theorem Refreshes.rowsFrom {db db' : ContextStore} (h : Refreshes db db') (hdb : Recorded db) : RowsFrom db db' := by
  intro id x' hx'
  obtain ⟨x, hx, haccount, hmanifest⟩ := h.executions id x' hx'
  refine ⟨x, hx, haccount, fun m' hm' => ?_⟩
  obtain ⟨m, hm, -⟩ := hmanifest hdb unknown m' hm'
  exact ⟨m, hm⟩

section tainted

variable {s : ChatWorld} {db : ContextStore} {account : Uuid} {db' : ContextStore}

theorem Tainted.of_rows (h : Tainted s) (hmoves : Moves s.world w) (hrows : RowsFrom s.world.db w.db)
    (hbound : w.bound = s.world.bound) : Tainted { s with world := w } := by
  refine ⟨hmoves.sound, fun id x' hx' t ht => ?_, fun id x' m' hx' hm' t ht => ?_, fun base hbase t ht => ?_⟩
  · obtain ⟨x, hx, haccount, -⟩ := hrows id x' hx'
    rw [haccount]
    exact (h.known id x hx t ht).trans (hmoves.later.epochs x.accountId)
  · obtain ⟨x, hx, haccount, hmanifest⟩ := hrows id x' hx'
    obtain ⟨m, hm⟩ := hmanifest m' hm'
    rw [haccount]
    have hcarries := (h.rows id x m hx hm t ht).later hmoves.later
    rw [← hbound] at hcarries
    exact hcarries
  · exact (h.loaded base hbase t ht).later hmoves.later

theorem Tainted.of_refreshes (h : Tainted s) (hrefreshes : Refreshes s.world.db db) :
    Tainted { s with world := ⟨db, s.world.bound, s.world.frozen⟩ } :=
  h.of_rows (h.sound.of_refreshes hrefreshes) (hrefreshes.rowsFrom h.sound.recorded) rfl

/-- What an Execution carries up to now, when its manifest passes its check. -/
theorem Tainted.carried (h : Tainted s) {id : Uuid} {x : ExecutionRow}
    (hx : s.world.db.executions.lookup id = some x)
    (hcheck : checkManifest s.world.db x.accountId x.memoryContext (memoryEpoch s.world.db x.accountId) = .ok result)
    {t : Scope × ℕ} (ht : t ∈ s.reached id) :
    Covers (result.bind Manifest.scopes) t.1 ∧
      Unmet s.world.db x.accountId t.1 t.2 (memoryEpoch s.world.db x.accountId) := by
  cases hm : x.memoryContext with
  | none =>
      rw [hm] at hcheck
      obtain ⟨hzero, rfl⟩ := checkManifest_none.mp hcheck
      exact ⟨covers_none t.1, unmet_of_zero h.sound.recorded hzero _ _⟩
  | some m =>
      rw [hm] at hcheck
      have hfaithful := h.sound.executions id x m hx hm
      have hcarries := h.rows id x m hx hm t ht
      obtain ⟨m', rfl, hsame⟩ := checkManifest_scopes hcheck
      refine ⟨?_, hcarries.unmet_of_check h.sound.recorded hfaithful hcheck⟩
      show Covers m'.scopes t.1
      rw [hsame, hfaithful.scopes]
      exact hcarries.covers

/-! ### Steps that bind nothing -/

/-- The actions that leave the Executions and their bindings to what they are. -/
def Action.quiet : Action → Bool
  | .createExecution _ _ _ _ _ | .bindContext _ _ _ _ _ => false
  | _ => true

theorem quiet_act (h : Sound w) (a : Action) (hquiet : a.quiet = true) :
    RowsFrom w.db (w.act a).db ∧ (w.act a).bound = w.bound := by
  have hrefl : RowsFrom w.db w.db := rowsFrom_of_eq rfl
  unfold World.act
  split
  · next u db' hrun =>
      cases a with
      | openAccount account =>
          have hrun : (Memory.openAccount account).run w.db = .ok (u, db') := hrun
          unfold Memory.openAccount at hrun
          rw [Tx.bind_query_ok, Tx.bind_check_ok, Tx.update_ok] at hrun
          obtain ⟨-, rfl⟩ := hrun
          exact ⟨hrefl, rfl⟩
      | createRun run account =>
          have hrun := Tx.update_ok.mp hrun
          subst hrun
          exact ⟨hrefl, rfl⟩
      | createExecution id account run root parent => cases hquiet
      | setStatus id executable =>
          have hrun := Tx.update_ok.mp hrun
          subst hrun
          refine ⟨fun j x' hx' => ?_, rfl⟩
          dsimp only at hx'
          rw [Table.lookup_modify] at hx'
          split at hx'
          · next hj =>
              subst hj
              obtain ⟨x, hx, rfl⟩ := Option.map_eq_some_iff.mp hx'
              exact ⟨x, hx, rfl, fun m' hm' => ⟨m', hm'⟩⟩
          · exact hrefl j x' hx'
      | retain id account affected =>
          exact ⟨rowsFrom_of_eq (insertAction_retains _ _ _ hrun).executions, rfl⟩
      | recordRevocation id account forgotten affected =>
          exact ⟨rowsFrom_of_eq (recordRevocation_logs forgotten affected _ _ _ hrun).1.executions, rfl⟩
      | command account id scope children invalidation =>
          exact ⟨rowsFrom_of_eq (command_logs scope children invalidation _ _ _ hrun).1.executions, rfl⟩
      | reconcileScope account id affected =>
          exact ⟨rowsFrom_of_eq (reconcileScope_logs affected _ _ _ hrun).1.executions, rfl⟩
      | bindContext account execution scopes documents epoch => cases hquiet
      | checkExecution account run execution advance =>
          have hrun : (do let _ ← Memory.checkExecution account run execution advance : ContextTx Unit).run w.db = .ok (u, db') := hrun
          rw [Tx.bind_ok] at hrun
          obtain ⟨result, db₁, hcheck, hrun⟩ := hrun
          obtain ⟨-, rfl⟩ := Tx.pure_ok.mp hrun
          exact ⟨(checkExecution_refreshes _ _ _ hcheck).rowsFrom h.recorded, rfl⟩
      | insertSnapshot id account run operation execution contentHash =>
          have hrun : (do let _ ← Memory.insertSnapshot id account run operation execution contentHash : ContextTx Unit).run w.db = .ok (u, db') := hrun
          rw [Tx.bind_ok] at hrun
          obtain ⟨result, db₁, hinsert, hrun⟩ := hrun
          obtain ⟨-, rfl⟩ := Tx.pure_ok.mp hrun
          obtain ⟨manifest, db₂, hcheck, rfl | ⟨-, rfl⟩⟩ := insertSnapshot_ok hinsert
          · exact ⟨(checkExecution_refreshes _ _ _ hcheck).rowsFrom h.recorded, rfl⟩
          · exact ⟨(checkExecution_refreshes _ _ _ hcheck).rowsFrom h.recorded, rfl⟩
      | markDispatched account id fence fenced admitted =>
          obtain ⟨s, result, db₁, hrefreshes, -, -, -, rfl⟩ := markDispatched_ok hrun
          exact ⟨hrefreshes.rowsFrom h.recorded, rfl⟩
  · exact ⟨hrefl, rfl⟩

theorem Tainted.quiet (h : Tainted s) (a : Action) (hquiet : a.quiet = true) : Tainted { s with world := s.world.act a } := by
  obtain ⟨hrows, hbound⟩ := quiet_act h.sound a hquiet
  exact h.of_rows (moves_act h.sound a) hrows hbound

/-! ### New Executions -/

theorem Tainted.insert (h : Tainted s) {id : Uuid} {x : ExecutionRow} {memory : List (Scope × ℕ)}
    (hmoves : Moves s.world w) (hrow : w.db.executions = s.world.db.executions.insert id x)
    (hbound : ∀ account j, j ≠ id → w.bound (account, j) = s.world.bound (account, j))
    (hknown : ∀ t ∈ memory, t.2 ≤ memoryEpoch s.world.db x.accountId)
    (hnew : ∀ m, x.memoryContext = some m → ∀ t ∈ memory, Carries s.world.db x.accountId (w.bound (x.accountId, id)) t) :
    Tainted { s with world := w, reached := Function.update s.reached id memory } := by
  refine ⟨hmoves.sound, fun j y hy t ht => ?_, fun j y m hy hm t ht => ?_, fun base hbase t ht =>
    (h.loaded base hbase t ht).later hmoves.later⟩
  · dsimp only at hy ht
    rw [hrow, Table.lookup_insert_ite] at hy
    refine Nat.le_trans ?_ (hmoves.later.epochs y.accountId)
    split at hy
    · next hj =>
        subst hj
        obtain rfl := Option.some.inj hy
        rw [Function.update_self] at ht
        exact hknown t ht
    · next hj =>
        rw [Function.update_of_ne hj] at ht
        exact h.known j y hy t ht
  · dsimp only at hy ht
    rw [hrow, Table.lookup_insert_ite] at hy
    refine Carries.later ?_ hmoves.later
    split at hy
    · next hj =>
        subst hj
        obtain rfl := Option.some.inj hy
        rw [Function.update_self] at ht
        exact hnew m hm t ht
    · next hj =>
        rw [Function.update_of_ne hj] at ht
        rw [hbound y.accountId j hj]
        exact h.rows j y m hy hm t ht

/-- The row that `createExecution` writes. -/
def childRow (db : ContextStore) (account run : Uuid) (root : Bool) (parent : Option Uuid) : ExecutionRow :=
  ⟨account, run, root, true,
    match parent with
    | none => some emptyManifest
    | some p => ((db.executions.lookup p).filter fun x => x.accountId = account).bind ExecutionRow.memoryContext⟩

theorem act_of_ok {a : Action} {u : Unit} (h : a.tx.run w.db = .ok (u, db')) :
    w.act a = ⟨db', a.rebind w, a.refreeze w⟩ := by
  unfold World.act
  rw [h]

theorem act_createExecution {id run : Uuid} {root : Bool}
    (hfree : w.db.executions.lookup id = none) :
    w.act (.createExecution id account run root parent) =
      ⟨{ w.db with executions := w.db.executions.insert id (childRow w.db account run root parent) },
        (Action.createExecution id account run root parent).rebind w, w.frozen⟩ := by
  have hrun : (Action.createExecution id account run root parent).tx.run w.db =
      .ok ((), { w.db with executions := w.db.executions.insert id (childRow w.db account run root parent) }) := by
    show (Memory.createExecution id account run root parent).run w.db = _
    unfold Memory.createExecution
    rw [Tx.bind_query_ok, Tx.bind_check_ok, Tx.update_ok]
    exact ⟨by simp [hfree], rfl⟩
  exact act_of_ok hrun

theorem Tainted.createExecution (h : Tainted s) {id run : Uuid} {root : Bool}
    (hfree : s.world.db.executions.lookup id = none) :
    Tainted
      { s with
        world := s.world.act (.createExecution id account run root parent)
        reached := Function.update s.reached id (s.handedOn account parent) } := by
  have hmoves := moves_act h.sound (.createExecution id account run root parent)
  rw [act_createExecution hfree] at hmoves ⊢
  refine h.insert hmoves rfl (fun other j hj => ?_) (fun t ht => ?_) fun m hm t ht => ?_
  · unfold Action.rebind
    dsimp only
    rw [Function.update_of_ne (by simp [hj])]
  · cases parent with
    | none => cases ht
    | some p =>
        unfold ChatWorld.handedOn at ht
        rw [Option.map_some, Option.getD_some] at ht
        split at ht
        · next hp =>
            obtain ⟨x, hx, haccount⟩ := (Option.any_eq_true _ _).mp hp
            obtain rfl := of_decide_eq_true haccount
            exact h.known p x hx t ht
        · cases ht
  · cases parent with
    | none => cases ht
    | some p =>
        obtain ⟨x, hx, hcontext⟩ := Option.bind_eq_some_iff.mp hm
        obtain ⟨hlookup, haccount⟩ := Option.filter_eq_some_iff.mp hx
        obtain rfl := of_decide_eq_true haccount
        unfold ChatWorld.handedOn at ht
        rw [Option.map_some, Option.getD_some, hlookup, Option.any_some, if_pos haccount] at ht
        unfold Action.rebind
        have hsame : (childRow s.world.db x.accountId run root (some p)).accountId = x.accountId := rfl
        dsimp only
        rw [hsame, Function.update_self]
        exact h.rows p x m hlookup hcontext t ht

theorem Tainted.memory (h : Tainted s) (a : Action) : Tainted (s.memory a) := by
  cases a with
  | bindContext account execution scopes documents epoch => exact h
  | createExecution id account run root parent =>
      unfold ChatWorld.memory
      dsimp only
      split
      · exact h
      · split
        · exact h
        · next hfree => exact h.createExecution (by simpa using hfree)
  | openAccount account => exact h.quiet _ rfl
  | createRun run account => exact h.quiet _ rfl
  | setStatus id executable => exact h.quiet _ rfl
  | retain id account affected => exact h.quiet _ rfl
  | recordRevocation id account forgotten affected => exact h.quiet _ rfl
  | command account id scope children invalidation => exact h.quiet _ rfl
  | reconcileScope account id affected => exact h.quiet _ rfl
  | checkExecution account run execution advance => exact h.quiet _ rfl
  | insertSnapshot id account run operation execution contentHash => exact h.quiet _ rfl
  | markDispatched account id fence fenced admitted => exact h.quiet _ rfl

theorem Tainted.legacyExecution (h : Tainted s) (id account run : Uuid) (recalled : List Scope) :
    Tainted
      { s with
        world := { s.world with db := { s.world.db with executions := s.world.db.executions.insert id (ChatWorld.legacyRow account run) } }
        reached := Function.update s.reached id (recalled.map fun scope => (scope, memoryEpoch s.world.db account)) } := by
  have hmoves : Moves s.world { s.world with
      db := { s.world.db with executions := s.world.db.executions.insert id (ChatWorld.legacyRow account run) } } := by
    refine h.sound.of_contexts rfl rfl rfl (fun j x m hx hm => ?_) h.sound.snapshots
    dsimp only at hx
    rw [Table.lookup_insert_ite] at hx
    split at hx
    · obtain rfl := Option.some.inj hx
      cases hm
    · exact h.sound.executions j x m hx hm
  refine h.insert hmoves rfl (fun _ _ _ => rfl) (fun t ht => ?_) fun m hm => ?_
  · obtain ⟨scope, -, rfl⟩ := List.mem_map.mp ht
    exact Nat.le_refl _
  · cases hm

/-! ### Contexts and bindings -/

theorem mem_reachedRuns {runs : List Uuid} {t : Scope × ℕ} (h : t ∈ s.reachedRuns account runs) :
    ∃ p ∈ runs, ∃ id x, findExecution s.world.db account p none = some (id, x) ∧ t ∈ s.reached id := by
  obtain ⟨p, hp, ht⟩ := List.mem_flatMap.mp h
  refine ⟨p, hp, ?_⟩
  cases hfound : findExecution s.world.db account p none with
  | none =>
      rw [hfound] at ht
      cases ht
  | some e =>
      rw [hfound] at ht
      exact ⟨e.1, e.2, rfl, ht⟩

/-- A loaded context carries what has reached the Runs whose answers it keeps. -/
theorem Tainted.load (h : Tainted s) {run : Uuid} {producers : List Uuid} {base : Base}
    (hload : (loadBase account run producers).run s.world.db = .ok (base, db))
    (hknown : ¬HidesUnknown s.world.db account run producers) :
    Tainted { s with loaded := { base with seen := s.reachedRuns account base.kept } :: s.loaded } := by
  refine ⟨h.sound, h.known, h.rows, fun other hother t ht => ?_⟩
  obtain rfl | hold := List.mem_cons.mp hother
  · obtain ⟨_, _, _, -, -, haccount, hepoch, -, -⟩ := loadBase_ok hload
    obtain ⟨p, hp, id, x, hfound, hreached⟩ := mem_reachedRuns ht
    obtain ⟨⟨result, hcheck⟩, hmissing, hcovers⟩ := loadBase_covers hload hknown hp
    have hroot : rootContext s.world.db account p = x.memoryContext := by
      unfold rootContext
      rw [hfound]
      rfl
    obtain ⟨hx, hxaccount⟩ := findExecution_spec hfound
    subst hxaccount
    dsimp only
    rw [haccount, hepoch]
    rw [hroot] at hcheck hmissing hcovers
    obtain ⟨hcovered, hunmet⟩ := h.carried hx hcheck hreached
    refine ⟨h.known id x hx t hreached, Nat.le_refl _, ?_, hunmet⟩
    cases hm : x.memoryContext with
    | none =>
        dsimp only
        rw [hmissing hm]
        exact covers_none t.1
    | some m =>
        refine hcovers m hm t.1 ?_
        rw [hm] at hcheck
        obtain ⟨m', rfl, hsame⟩ := checkManifest_scopes hcheck
        rw [← hsame]
        exact hcovered
  · exact h.loaded other hold t ht

/-- A binding carries what had reached its Execution and what reaches it now, when both are covered up to now. -/
theorem Tainted.bound (h : Tainted s) {base : Base} {documents : List String} {epoch : ℕ}
    {u : Unit} {memory : List (Scope × ℕ)}
    (hrun : (Memory.bindContext base.account base.execution scopes documents epoch).run s.world.db = .ok (u, db))
    (hnew : ∀ t ∈ memory, t.2 ≤ memoryEpoch s.world.db base.account ∧ Covers scopes t.1 ∧
      Unmet s.world.db base.account t.1 t.2 (memoryEpoch s.world.db base.account))
    (hold : ∀ x, s.world.db.executions.lookup base.execution = some x → x.accountId = base.account →
      ∀ t ∈ s.reached base.execution, Covers scopes t.1 ∧
        Unmet s.world.db base.account t.1 t.2 (memoryEpoch s.world.db base.account)) :
    Tainted (s.bound base db scopes memory) := by
  have hmoves := h.sound.bindContext hrun
  obtain ⟨m, result, -, hscopes, hcheck, hdb⟩ := bindContext_ok hrun
  have hnow (t : Scope × ℕ) (hsince : t.2 ≤ memoryEpoch s.world.db base.account)
      (hcarried : Covers scopes t.1 ∧ Unmet s.world.db base.account t.1 t.2 (memoryEpoch s.world.db base.account)) :
      Carries db base.account ⟨memoryEpoch s.world.db base.account, scopes⟩ t :=
    Carries.later ⟨hsince, Nat.le_refl _, hcarried.1, hcarried.2⟩ hmoves.later
  have hother (j : Uuid) (x : ExecutionRow) (hne : ¬(x.accountId = base.account ∧ j = base.execution)) :
      (s.bound base db scopes memory).world.bound (x.accountId, j) = s.world.bound (x.accountId, j) := by
    unfold ChatWorld.bound
    dsimp only
    rw [Function.update_of_ne (by simpa [Prod.mk.injEq] using hne)]
  by_cases hrow : (s.world.db.executions.lookup base.execution).any (fun x => x.accountId = base.account) = true
  · rw [if_pos hrow] at hdb
    obtain ⟨y, hy, hmatch⟩ := (Option.any_eq_true _ _).mp hrow
    have haccount := of_decide_eq_true hmatch
    have hlookup (j : Uuid) : db.executions.lookup j =
        if j = base.execution then some { y with memoryContext := some m } else s.world.db.executions.lookup j := by
      rw [hdb, lookup_setContext, hy]
      rfl
    have hreached : (s.bound base db scopes memory).reached =
        Function.update s.reached base.execution (s.reached base.execution ++ memory) := by
      unfold ChatWorld.bound
      dsimp only
      rw [hlookup, if_pos rfl, Option.any_some, if_pos hmatch]
    have hcarries (t : Scope × ℕ) (ht : t ∈ s.reached base.execution ++ memory) :
        Carries db base.account ⟨memoryEpoch s.world.db base.account, scopes⟩ t := by
      obtain hbefore | hadded := List.mem_append.mp ht
      · have hsince := h.known base.execution y hy t hbefore
        rw [haccount] at hsince
        exact hnow t hsince (hold y hy haccount t hbefore)
      · exact hnow t (hnew t hadded).1 (hnew t hadded).2
    refine ⟨hmoves.sound, fun j x hx t ht => ?_, fun j x m' hx hm t ht => ?_, fun other hmem t ht =>
      (h.loaded other hmem t ht).later hmoves.later⟩
    · have hrowj : db.executions.lookup j = some x := hx
      rw [hlookup] at hrowj
      rw [hreached] at ht
      split at hrowj
      · next hj =>
          subst hj
          obtain rfl := Option.some.inj hrowj
          rw [Function.update_self] at ht
          dsimp only
          rw [haccount]
          exact (hcarries t ht).since
      · next hj =>
          rw [Function.update_of_ne hj] at ht
          exact (h.known j x hrowj t ht).trans (hmoves.later.epochs x.accountId)
    · have hrowj : db.executions.lookup j = some x := hx
      rw [hlookup] at hrowj
      rw [hreached] at ht
      split at hrowj
      · next hj =>
          subst hj
          obtain rfl := Option.some.inj hrowj
          rw [Function.update_self] at ht
          unfold ChatWorld.bound
          dsimp only
          rw [haccount, Function.update_self]
          exact hcarries t ht
      · next hj =>
          rw [Function.update_of_ne hj] at ht
          rw [hother j x fun hboth => hj hboth.2]
          exact (h.rows j x m' hrowj hm t ht).later hmoves.later
  · rw [if_neg hrow] at hdb
    subst hdb
    have hreached : (s.bound base s.world.db scopes memory).reached = s.reached := by
      unfold ChatWorld.bound
      dsimp only
      rw [if_neg hrow]
    refine ⟨hmoves.sound, fun j x hx t ht => ?_, fun j x m' hx hm t ht => ?_, h.loaded⟩
    · rw [hreached] at ht
      exact h.known j x hx t ht
    · rw [hreached] at ht
      have hne : ¬(x.accountId = base.account ∧ j = base.execution) := by
        rintro ⟨hx', rfl⟩
        have hrowx : s.world.db.executions.lookup base.execution = some x := hx
        rw [hrowx, Option.any_some] at hrow
        exact hrow (decide_eq_true hx')
      rw [hother j x hne]
      exact h.rows j x m' hx hm t ht

/-- What `bind_base` does: the fence, the check of the Execution, and the binding. -/
theorem bindBase_ok {base : Base} {fenced : Except Error Unit}
    (h : (bindBase base fenced).run db = .ok (scopes, db')) :
    ∃ db₁ db₂ current documents, Refreshes db db₁ ∧
      (checkExecution base.account base.run (some base.execution) true).run db₁ = .ok (current, db₂) ∧
      scopes = mergeScopes (current.bind Manifest.scopes) base.scopes ∧
      (Memory.bindContext base.account base.execution scopes documents
        (min base.epoch ((current.map Manifest.epoch).getD 0))).run db₂ = .ok ((), db') := by
  unfold bindBase at h
  rw [Tx.bind_ok] at h
  obtain ⟨u, db₁, hfence, h⟩ := h
  rw [Tx.bind_ok] at h
  obtain ⟨current, db₂, hcheck, h⟩ := h
  dsimp only at h
  rw [Tx.bind_ok] at h
  obtain ⟨u', db₃, hbind, h⟩ := h
  obtain ⟨rfl, rfl⟩ := Tx.pure_ok.mp h
  exact ⟨db₁, db₂, current, _, assertFence_refreshes _ fenced _ _ _ hfence, hcheck, rfl, hbind⟩

theorem bound_congr (base : Base) (db : ContextStore) (scopes : Option (List Scope)) (memory : List (Scope × ℕ))
    (hepochs : w.db.epochs = s.world.db.epochs) (hbound : w.bound = s.world.bound) (hfrozen : w.frozen = s.world.frozen) :
    ({ s with world := w } : ChatWorld).bound base db scopes memory = s.bound base db scopes memory := by
  unfold ChatWorld.bound
  dsimp only
  rw [memoryEpoch_congr hepochs, hbound, hfrozen]

/-- An Execution that is asked for by its key is the one that is found. -/
theorem findExecution_key {run id execution : Uuid} {x : ExecutionRow}
    (h : findExecution db account run (some execution) = some (id, x)) : id = execution := by
  obtain ⟨y, -, heq⟩ := Option.map_eq_some_iff.mp h
  exact (Prod.mk.inj heq).1.symm

/-- Nothing before the first revocation meets a scope. -/
theorem unmet_zero {scope : Scope} (hdb : Recorded db) (low : ℕ) :
    Unmet db account scope low 0 := by
  intro k affected hrevoked _ hk
  have hwithin := hdb.within account k affected hrevoked
  omega

theorem Tainted.bind (h : Tainted s) {base : Base} (hbase : base ∈ s.loaded) {fenced : Except Error Unit}
    (hrun : (bindBase base fenced).run s.world.db = .ok (scopes, db)) :
    Tainted (s.bound base db scopes base.seen) := by
  obtain ⟨db₁, db₂, current, documents, hfirst, hcheck, rfl, hbind⟩ := bindBase_ok hrun
  have hsecond := checkExecution_refreshes _ _ _ hcheck
  have hone := h.of_refreshes hfirst
  have htwo := hone.of_refreshes hsecond
  have hrecorded : Recorded db₂ := htwo.sound.recorded
  have hlater : Later db₁ db₂ := later_of_eq hsecond.epochs hsecond.actions
  obtain ⟨m, result, hepoch, hscopes, hpass, -⟩ := bindContext_ok hbind
  rw [← bound_congr base db _ base.seen (w := ⟨db₂, s.world.bound, s.world.frozen⟩) (hsecond.epochs.trans hfirst.epochs) rfl rfl]
  refine htwo.bound hbind (fun t ht => ?_) fun x hx haccount t ht => ?_
  · have hcarries := htwo.loaded base hbase t ht
    have hcovers : Covers (mergeScopes (current.bind Manifest.scopes) base.scopes) t.1 := hcarries.covers.merge_right
    refine ⟨hcarries.since, hcovers, hcarries.unmet.of_check hrecorded (m := m) ?_ ?_ hpass⟩
    · rw [hscopes]
      exact hcovers
    · rw [hepoch]
      exact Nat.min_le_left _ _
  · obtain ⟨-, ⟨-, rfl, rfl⟩ | ⟨id, y, hfound, hcurrent, -⟩⟩ := checkExecution_ok hcheck
    · -- no manifest to check: the scopes are unknown, so the binding passes only before any revocation
      have hcovers : Covers (mergeScopes ((none : Option Manifest).bind Manifest.scopes) base.scopes) t.1 := covers_none t.1
      refine ⟨hcovers, (unmet_zero hrecorded t.2).of_check hrecorded (m := m) ?_ ?_ hpass⟩
      · rw [hscopes]
        exact hcovers
      · rw [hepoch]
        exact Nat.min_le_right _ _
    · obtain rfl := findExecution_key hfound
      obtain ⟨hy, hyaccount⟩ := findExecution_spec hfound
      rw [← hyaccount] at hcurrent
      obtain ⟨hcovers, hunmet⟩ := hone.carried hy hcurrent ht
      refine ⟨hcovers.merge_left, ?_⟩
      rw [hyaccount] at hunmet
      have hsame : memoryEpoch db₂ base.account = memoryEpoch db₁ base.account := memoryEpoch_congr hsecond.epochs
      show Unmet db₂ base.account t.1 t.2 (memoryEpoch db₂ base.account)
      rw [hsame]
      exact Unmet.later hunmet hlater (Nat.le_refl _)

/-- What the second binding of `recall_long_term` does: the fence, the check of the Execution, and the binding. -/
theorem bindRecalled_ok {base : Base} {scope : Scope}
    {fenced : Except Error Unit}
    (h : (bindRecalled base scope recalled fenced).run db = .ok (scopes, db')) :
    ∃ db₁ x current documents, Refreshes db db₁ ∧ db₁.executions.lookup base.execution = some x ∧
      x.accountId = base.account ∧
      checkManifest db₁ base.account x.memoryContext (memoryEpoch db₁ base.account) = .ok current ∧
      scopes = ((x.memoryContext.bind Manifest.scopes).map fun own => addScopes own [scope]) ∧
      (Memory.bindContext base.account base.execution scopes documents base.epoch).run db₁ = .ok ((), db') := by
  unfold bindRecalled at h
  rw [Tx.bind_ok] at h
  obtain ⟨u, db₁, hfence, h⟩ := h
  rw [Tx.bind_query_ok, Tx.bind_demand_ok] at h
  obtain ⟨x, hfound, h⟩ := h
  obtain ⟨hx, hmatch⟩ := Option.filter_eq_some_iff.mp hfound
  rw [Tx.bind_ok] at h
  obtain ⟨n, db₂, hepoch, h⟩ := h
  obtain ⟨rfl, -, rfl⟩ := accountEpoch_ok hepoch
  rw [Tx.bind_query_ok, Tx.bind_ofExcept_ok] at h
  obtain ⟨current, hcheck, h⟩ := h
  dsimp only at h
  rw [Tx.bind_ok] at h
  obtain ⟨u', db₃, hbind, h⟩ := h
  obtain ⟨rfl, rfl⟩ := Tx.pure_ok.mp h
  exact ⟨db₂, x, current, _, assertFence_refreshes _ fenced _ _ _ hfence, hx, of_decide_eq_true hmatch, hcheck, rfl, hbind⟩

theorem Tainted.recall (h : Tainted s) {base : Base} {scope : Scope} {fenced : Except Error Unit}
    (hrun : (bindRecalled base scope recalled fenced).run s.world.db = .ok (scopes, db)) :
    Tainted (s.bound base db scopes [(scope, base.epoch)]) := by
  obtain ⟨db₁, x, current, documents, hfirst, hx, haccount, hcheck, rfl, hbind⟩ := bindRecalled_ok hrun
  have hone := h.of_refreshes hfirst
  have hrecorded : Recorded db₁ := hone.sound.recorded
  obtain ⟨m, result, hepoch, hscopes, hpass, -⟩ := bindContext_ok hbind
  rw [← bound_congr base db _ _ (w := ⟨db₁, s.world.bound, s.world.frozen⟩) hfirst.epochs rfl rfl]
  refine hone.bound hbind (fun t ht => ?_) fun y hy _ t ht => ?_
  · obtain rfl := List.mem_singleton.mp ht
    have hcovers : Covers ((x.memoryContext.bind Manifest.scopes).map fun own => addScopes own [scope]) scope :=
      Covers.added (List.mem_singleton.mpr rfl) _
    obtain ⟨hwithin, -, -⟩ := (checkManifest_ok hrecorded).mp hpass
    rw [hepoch] at hwithin
    have hempty : Unmet db₁ base.account scope base.epoch base.epoch := by
      intro k affected _ hlow hk
      omega
    refine ⟨hwithin, hcovers, hempty.of_check hrecorded (m := m) ?_ (Nat.le_of_eq hepoch) hpass⟩
    rw [hscopes]
    exact hcovers
  · rw [← haccount] at hcheck
    obtain ⟨hcovers, hunmet⟩ := hone.carried hx hcheck ht
    rw [haccount] at hunmet
    refine ⟨?_, hunmet⟩
    cases hm : x.memoryContext with
    | none => exact covers_none t.1
    | some mx =>
        rw [hm] at hcheck
        obtain ⟨m', rfl, hsame⟩ := checkManifest_scopes hcheck
        have hcovers : Covers m'.scopes t.1 := hcovers
        rw [hsame] at hcovers
        exact hcovers.add [scope]

/-! ### Runs -/

/-- The action loads a context that hides unknown scopes. -/
def ChatWorld.Hides (s : ChatWorld) : ChatAction → Prop
  | .load run => ∃ chat, s.runs run = some chat ∧ HidesUnknown s.world.db chat.account run (s.producers chat)
  | _ => False

theorem Tainted.act (h : Tainted s) (a : ChatAction) (hknown : ¬s.Hides a) : Tainted (s.act a) := by
  unfold ChatWorld.act
  cases a with
  | memory a => exact h.memory a
  | legacyExecution id account run recalled =>
      dsimp only
      split
      · exact h
      · exact h.legacyExecution id account run recalled
  | submit run chat =>
      dsimp only
      split
      · exact h
      · exact ⟨h.sound, h.known, h.rows, h.loaded⟩
  | retry run chat =>
      dsimp only
      split
      · exact h
      · exact ⟨h.sound, h.known, h.rows, h.loaded⟩
  | load run =>
      dsimp only
      split
      · exact h
      · next chat hchat =>
          split
          · exact h
          · next base db hload => exact h.load hload fun hhides => hknown ⟨chat, hchat, hhides⟩
  | bind base fenced =>
      dsimp only
      split
      · exact h
      · next hbase =>
          split
          · exact h
          · next scopes db hrun => exact h.bind (not_not.mp hbase) hrun
  | «recall» base scope documents fenced =>
      dsimp only
      split
      · exact h
      · split
        · exact h
        · next scopes db hrun => exact h.recall hrun
  | complete run =>
      dsimp only
      split
      · exact h
      · exact ⟨h.sound, h.known, h.rows, h.loaded⟩

end tainted

/-- No context of the history hides unknown scopes. -/
def NoneHidden (actions : List ChatAction) : Prop :=
  ∀ before a after, actions = before ++ a :: after → ¬(ChatWorld.run before).Hides a

theorem NoneHidden.of_append {a : ChatAction} (h : NoneHidden (actions ++ [a])) :
    NoneHidden actions ∧ ¬(ChatWorld.run actions).Hides a := by
  refine ⟨fun before b after heq => h before b (after ++ [a]) ?_, h actions a [] rfl⟩
  rw [heq, List.append_assoc]
  rfl

theorem NoneHidden.concat {a : ChatAction} (h : NoneHidden actions)
    (ha : ¬(ChatWorld.run actions).Hides a) : NoneHidden (actions ++ [a]) := by
  intro before b after heq
  obtain rfl | ⟨front, last, rfl⟩ := after.eq_nil_or_concat
  · obtain ⟨rfl, hlast⟩ := List.append_inj' heq rfl
    obtain rfl := List.singleton_inj.mp hlast
    exact ha
  · have heq : actions ++ [a] = (before ++ b :: front) ++ [last] := by
      rw [heq]
      simp
    obtain ⟨rfl, -⟩ := List.append_inj' heq rfl
    exact h before b front rfl

/-- Only loads hide something. -/
theorem NoneHidden.append (h : NoneHidden actions) (more : List ChatAction)
    (hmore : ∀ a ∈ more, ∀ run, a ≠ .load run) : NoneHidden (actions ++ more) := by
  induction more using List.reverseRecOn with
  | nil =>
      rw [List.append_nil]
      exact h
  | append_singleton more a ih =>
      rw [← List.append_assoc]
      refine (ih fun b hb => hmore b (List.mem_append_left _ hb)).concat ?_
      have hload := hmore a (List.mem_append_right _ (List.mem_singleton.mpr rfl))
      cases a with
      | load run => exact absurd rfl (hload run)
      | _ => exact not_false

/-- A load of a Run whose earlier answers all have known scopes. -/
theorem NoneHidden.load (h : NoneHidden actions) (run : Uuid)
    (hknown : ∀ chat, (ChatWorld.run actions).runs run = some chat → ∀ p ∈ (ChatWorld.run actions).producers chat,
      (rootContext (ChatWorld.run actions).world.db chat.account p).all (fun m => m.scopes.isSome) = true) :
    NoneHidden (actions ++ [.load run]) := by
  refine h.concat ?_
  rintro ⟨chat, hchat, ⟨p, hp, m', hcheck, hnone⟩, -, -⟩
  have hall := hknown chat hchat p hp
  obtain ⟨m, hm⟩ := manifest_of_check hcheck
  rw [hm] at hcheck hall
  obtain ⟨_, heq, hsame⟩ := checkManifest_scopes hcheck
  obtain rfl := Option.some.inj heq
  rw [Option.all_some, ← hsame, hnone] at hall
  cases hall

theorem tainted_run (h : NoneHidden actions) : Tainted (ChatWorld.run actions) := by
  unfold ChatWorld.run
  induction actions using List.reverseRecOn with
  | nil => exact tainted_start
  | append_singleton actions a ih =>
      obtain ⟨hbefore, hlast⟩ := h.of_append
      rw [List.foldl_concat]
      exact (ih hbefore).act a hlast

/-! ### The laws -/

/-- What holds of the contexts and the manifests of a history. -/
structure InheritanceLaws (s : ChatWorld) : Prop where
  /-- The scopes of a context cover the memory that had reached the Runs whose answers it keeps. -/
  context : ∀ base ∈ s.loaded, ∀ t ∈ base.seen, Covers base.scopes t.1
  /-- The manifest of an Execution covers the memory that has reached it. -/
  manifest : ∀ id x m, s.world.db.executions.lookup id = some x → x.memoryContext = some m →
    ∀ t ∈ s.reached id, Covers m.scopes t.1
  /-- No revocation between a memory and a context that keeps an answer that it has reached meets its scope. -/
  withdrawn : ∀ base ∈ s.loaded, ∀ t ∈ base.seen, Unmet s.world.db base.account t.1 t.2 base.epoch

/-- Memory taint is inherited, as long as no context hides unknown scopes. -/
theorem taint_inherited (actions : List ChatAction) (h : NoneHidden actions) : InheritanceLaws (ChatWorld.run actions) := by
  have htainted := tainted_run h
  refine ⟨fun base hbase t ht => (htainted.loaded base hbase t ht).covers, fun id x m hx hm t ht => ?_,
    fun base hbase t ht => (htainted.loaded base hbase t ht).unmet⟩
  rw [(htainted.sound.executions id x m hx hm).scopes]
  exact (htainted.rows id x m hx hm t ht).covers

/-- A Run of a conversation with its Execution. -/
def asked (run execution : Uuid) (watermark : ℕ) : List ChatAction :=
  [.submit run ⟨1, 5, watermark⟩, .memory (.createExecution execution 1 run true none)]

/-- The context of the first Run. -/
def firstBase (scopes : Option (List Scope)) : Base := ⟨1, 10, 100, 0, scopes, [], [], []⟩

/-- The first Run binds its context, recalls private memory and answers. -/
def recalling (scopes : Option (List Scope)) : List ChatAction :=
  [.bind (firstBase scopes) (.ok ()), .recall (firstBase scopes) ["private"] [] (.ok ()), .complete 10] ++ asked 20 200 3

/-- Private memory of the account is revoked. -/
def revoking : List ChatAction := [.memory (.recordRevocation 7 1 false (.scopes [["private"]]))]

/-- A conversation whose second context is loaded before and after a revocation. -/
def revokedConversation : List ChatAction :=
  (([] ++ (.memory (.openAccount 1) :: asked 10 100 1)) ++ [.load 10] ++ recalling (some []) ++ [.load 20]) ++ revoking ++ [.load 20]

theorem taint_inherited_revoked :
    InheritanceLaws (ChatWorld.run revokedConversation) ∧
      (ChatWorld.run revokedConversation).loaded.map (fun base => (base.kept, base.scopes, base.seen)) =
        [([], some [], []), ([10], some [["private"]], [(["private"], 0)]), ([], some [], [])] := by
  refine ⟨taint_inherited _ ?_, by decide +kernel⟩
  have hnil : NoneHidden [] := by
    intro before a after heq
    cases before with
    | nil => cases heq
    | cons b rest => cases heq
  have hopen := hnil.append (.memory (.openAccount 1) :: asked 10 100 1) (by simp [asked])
  have hfirst := (hopen.load 10 (by decide +kernel)).append (recalling (some [])) (by simp [recalling, asked])
  have hsecond := (hfirst.load 20 (by decide +kernel)).append revoking (by simp [revoking])
  exact hsecond.load 20 (by decide +kernel)

/-- A conversation that began before memory was recorded: its first Run has unknown scopes, and recalls private memory.  The
context of the second Run has no scopes at all, so its answer outlives the revocation. -/
def legacyConversation : List ChatAction :=
  [.memory (.openAccount 1), .submit 10 ⟨1, 5, 1⟩, .legacyExecution 100 1 10 [], .load 10] ++ recalling none ++
    [.load 20, .bind ⟨1, 20, 200, 0, some [], [], [10], [(["private"], 0)]⟩ (.ok ()), .complete 20] ++ revoking ++
    asked 30 300 5 ++ [.load 30]

theorem unknown_scopes_hidden :
    ¬(∀ actions, InheritanceLaws (ChatWorld.run actions)) ∧
      (ChatWorld.run legacyConversation).loaded.map (fun base => (base.kept, base.scopes, base.seen)) =
        [([20], some [], [(["private"], 0)]), ([10], some [], [(["private"], 0)]), ([], none, [])] := by
  have hloaded : (ChatWorld.run legacyConversation).loaded.map (fun base => (base.kept, base.scopes, base.seen)) =
      [([20], some [], [(["private"], 0)]), ([10], some [], [(["private"], 0)]), ([], none, [])] := by decide +kernel
  refine ⟨fun h => ?_, hloaded⟩
  have hmem : ([20], some [], [(["private"], 0)]) ∈ (ChatWorld.run legacyConversation).loaded.map
      (fun base => (base.kept, base.scopes, base.seen)) := by
    rw [hloaded]
    exact List.mem_cons_self
  obtain ⟨base, hbase, heq⟩ := List.mem_map.mp hmem
  simp only [Prod.mk.injEq] at heq
  obtain ⟨-, hscopes, hseen⟩ := heq
  have hcovers := (h legacyConversation).context base hbase (["private"], 0) (by simp [hseen]) [] hscopes
  cases hcovers

end HpAgent.Memory
