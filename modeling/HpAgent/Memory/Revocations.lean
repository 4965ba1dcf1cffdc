import HpAgent.Memory.Context

/-! # Revocations over whole histories

The revocations of an account carry the numbers `1, 2, …` up to its epoch (`Recorded`).  A check therefore reads every
revocation after the epoch of a manifest, and passes when none of them affects it (`checkManifest_ok`).

A check that passes moves the epoch of a manifest forward over revocations that do not affect it.  So the revocations
that affect a manifest and come after its epoch are those that came after it was bound (`Faithful`), however many
checks have passed in between.

* `World`: the store with the epoch at which every manifest was bound.
* `memory_revocation`: the laws over every history. -/

namespace HpAgent.Memory

open Library

variable {result : Option Manifest}

/-! ### The numbers of the revocations -/

/-- `memory_epoch`, zero before there is an account. -/
def memoryEpoch (db : ContextStore) (account : Uuid) : ℕ := (db.epochs account).getD 0

/-- The revocation that an action records: its account, its epoch and what it affects. -/
def MemoryAction.revocation (a : MemoryAction) : Option (Uuid × ℕ × Option Affected) :=
  a.invalidationEpoch.map fun k => (a.accountId, k, a.affectedScopes)

def revocation (db : ContextStore) (id : Uuid) : Option (Uuid × ℕ × Option Affected) :=
  (db.actions.lookup id).bind MemoryAction.revocation

/-- A revocation of the account. -/
def Revoked (db : ContextStore) (account : Uuid) (k : ℕ) (affected : Option Affected) : Prop :=
  ∃ id, revocation db id = some (account, k, affected)

/-- The invalidation epochs of an account are the numbers from one to its epoch, each once. -/
structure Recorded (db : ContextStore) : Prop where
  within : ∀ account k affected, Revoked db account k affected → 0 < k ∧ k ≤ memoryEpoch db account
  complete : ∀ account k, 0 < k → k ≤ memoryEpoch db account → ∃ affected, Revoked db account k affected
  unique : ∀ i j account k a b, revocation db i = some (account, k, a) → revocation db j = some (account, k, b) → i = j

theorem revocation_eq_some {db : ContextStore} {id account : Uuid} {k : ℕ} {affected : Option Affected} :
    revocation db id = some (account, k, affected) ↔
      ∃ a, db.actions.lookup id = some a ∧ a.accountId = account ∧ a.invalidationEpoch = some k ∧
        a.affectedScopes = affected := by
  unfold revocation MemoryAction.revocation
  rw [Option.bind_eq_some_iff]
  constructor
  · rintro ⟨a, ha, h⟩
    obtain ⟨k', hk, heq⟩ := Option.map_eq_some_iff.mp h
    simp only [Prod.mk.injEq] at heq
    obtain ⟨haccount, rfl, haffected⟩ := heq
    exact ⟨a, ha, haccount, hk, haffected⟩
  · rintro ⟨a, ha, rfl, hk, rfl⟩
    refine ⟨a, ha, ?_⟩
    rw [hk]
    rfl

theorem mem_revocationsAfter {db : ContextStore} {account : Uuid} {c k : ℕ} {affected : Option Affected} :
    (k, affected) ∈ revocationsAfter db account c ↔ Revoked db account k affected ∧ c < k := by
  unfold revocationsAfter
  rw [List.mem_mergeSort, List.mem_filterMap]
  constructor
  · rintro ⟨⟨id, a⟩, hmem, h⟩
    split at h
    · next haccount =>
        obtain ⟨k', hk, heq⟩ := Option.map_eq_some_iff.mp h
        obtain ⟨hepoch, hlt⟩ := Option.filter_eq_some_iff.mp hk
        simp only [Prod.mk.injEq] at heq
        obtain ⟨rfl, haffected⟩ := heq
        exact ⟨⟨id, revocation_eq_some.mpr ⟨a, AList.mem_lookup_iff.mpr hmem, haccount, hepoch, haffected⟩⟩,
          of_decide_eq_true hlt⟩
    · cases h
  · rintro ⟨⟨id, h⟩, hlt⟩
    obtain ⟨a, ha, haccount, hepoch, haffected⟩ := revocation_eq_some.mp h
    refine ⟨⟨id, a⟩, AList.mem_lookup_iff.mp ha, ?_⟩
    rw [if_pos haccount, hepoch, Option.filter_some, if_pos (decide_eq_true hlt), Option.map_some, haffected]

theorem pairwise_revocationsAfter (db : ContextStore) (account : Uuid) (c : ℕ) :
    ((revocationsAfter db account c).map Prod.fst).Pairwise (· ≤ ·) := by
  rw [List.pairwise_map]
  have hsorted : (revocationsAfter db account c).Pairwise fun a b => decide (a.1 ≤ b.1) = true :=
    List.pairwise_mergeSort
      (fun a b c hab hbc => decide_eq_true ((of_decide_eq_true hab).trans (of_decide_eq_true hbc)))
      (fun a b => by simpa using Nat.le_total a.1 b.1) _
  exact hsorted.imp fun h => of_decide_eq_true h

theorem Recorded.nodup_revocationsAfter {db : ContextStore} (h : Recorded db) (account : Uuid) (c : ℕ) :
    ((revocationsAfter db account c).map Prod.fst).Nodup := by
  unfold revocationsAfter
  refine ((List.mergeSort_perm _ _).map Prod.fst).nodup_iff.mpr ?_
  unfold List.Nodup
  rw [List.pairwise_map, List.pairwise_filterMap]
  refine db.actions.nodupKeys.nodup.pairwise_of_forall_ne fun e he e' he' hne r hr r' hr' heq => hne ?_
  have hrow (e : Sigma fun _ : Uuid => MemoryAction) (he : e ∈ db.actions.entries) (r : ℕ × Option Affected)
      (hr : (if e.2.accountId = account then
        (e.2.invalidationEpoch.filter fun k => c < k).map fun k => (k, e.2.affectedScopes) else none) = some r) :
      revocation db e.1 = some (account, r.1, r.2) := by
    split at hr
    · next haccount =>
        obtain ⟨k, hk, rfl⟩ := Option.map_eq_some_iff.mp hr
        obtain ⟨hepoch, -⟩ := Option.filter_eq_some_iff.mp hk
        exact revocation_eq_some.mpr ⟨e.2, AList.mem_lookup_iff.mpr he, haccount, hepoch, rfl⟩
    · cases hr
  have hkey : e.1 = e'.1 := h.unique e.1 e'.1 account r.1 r.2 r'.2 (hrow e he r hr) (heq ▸ hrow e' he' r' hr')
  exact db.actions.nodupKeys.eq_of_fst_eq he he' hkey

/-- The revocations after `c` are numbered from `c + 1` to the epoch of the account. -/
theorem Recorded.revocationsAfter_epochs {db : ContextStore} (h : Recorded db) (account : Uuid) (c : ℕ) :
    (revocationsAfter db account c).map Prod.fst = List.range' (c + 1) (memoryEpoch db account - c) := by
  refine List.Perm.eq_of_pairwise' (pairwise_revocationsAfter db account c) ?_ ?_
  · exact (List.pairwise_lt_range' (s := c + 1) (n := memoryEpoch db account - c)).imp Nat.le_of_lt
  · rw [List.perm_ext_iff_of_nodup (h.nodup_revocationsAfter account c) List.nodup_range']
    intro k
    rw [List.mem_range'_1]
    constructor
    · intro hmem
      obtain ⟨⟨k', affected⟩, hrow, rfl⟩ := List.mem_map.mp hmem
      obtain ⟨hrevoked, hlt⟩ := mem_revocationsAfter.mp hrow
      have hle := (h.within account _ affected hrevoked).2
      dsimp only
      omega
    · intro hk
      obtain ⟨affected, hrevoked⟩ := h.complete account k (by omega) (by omega)
      exact List.mem_map.mpr ⟨(k, affected), mem_revocationsAfter.mpr ⟨hrevoked, by omega⟩, rfl⟩

/-! ### What a check decides -/

/-- A revocation meets scopes unless no memory has been seen at all. -/
def Meets (scopes : Option (List Scope)) (affected : Option Affected) : Prop :=
  scopes ≠ some [] ∧ intersects scopes affected = true

/-- The rows that a check reads are all the revocations since. -/
theorem Recorded.no_gap {db : ContextStore} (h : Recorded db) (account : Uuid) (c : ℕ) :
    ¬((revocationsAfter db account c).length ≠ memoryEpoch db account - c ∨
      (revocationsAfter db account c).zipIdx.any (fun r => r.1.1 ≠ c + r.2 + 1) = true) := by
  have hepochs := h.revocationsAfter_epochs account c
  have hlength : (revocationsAfter db account c).length = memoryEpoch db account - c := by
    rw [← List.length_map (f := Prod.fst), hepochs, List.length_range']
  simp only [not_or, not_not, List.any_eq_true, decide_eq_true_eq, not_exists, not_and]
  refine ⟨hlength, fun r hr => ?_⟩
  have hget := List.mem_zipIdx_iff_getElem?.mp hr
  have hfst : ((revocationsAfter db account c).map Prod.fst)[r.2]? = some r.1.1 := by
    rw [List.getElem?_map, hget]
    rfl
  rw [hepochs] at hfst
  obtain ⟨hlt, heq⟩ := List.getElem?_eq_some_iff.mp hfst
  rw [List.getElem_range'] at heq
  omega

/-- A check passes when no revocation after the epoch of the manifest affects it, and moves its epoch. -/
theorem checkManifest_ok {db : ContextStore} (h : Recorded db) {account : Uuid} {m : Manifest} :
    checkManifest db account (some m) (memoryEpoch db account) = .ok result ↔
      m.epoch ≤ memoryEpoch db account ∧
        (∀ k affected, Revoked db account k affected → Meets m.scopes affected → k ≤ m.epoch) ∧
        result = some { m with epoch := memoryEpoch db account } := by
  unfold checkManifest
  dsimp only
  by_cases hepoch : memoryEpoch db account < m.epoch
  · rw [if_pos hepoch]
    constructor
    · nofun
    · rintro ⟨hle, -⟩
      omega
  · rw [if_neg hepoch]
    have hle : m.epoch ≤ memoryEpoch db account := by omega
    by_cases hscopes : m.scopes = some []
    · rw [if_pos hscopes]
      constructor
      · intro hok
        exact ⟨hle, fun k affected _ hmeets => absurd hscopes hmeets.1, (Except.ok.inj hok).symm⟩
      · rintro ⟨-, -, rfl⟩
        rfl
    · rw [if_neg hscopes, if_neg (h.no_gap account m.epoch)]
      by_cases hany : (revocationsAfter db account m.epoch).any (fun r => intersects m.scopes r.2) = true
      · rw [if_pos hany]
        constructor
        · nofun
        · rintro ⟨-, hnone, -⟩
          obtain ⟨⟨k, affected⟩, hrow, hmeets⟩ := List.any_eq_true.mp hany
          obtain ⟨hrevoked, hlt⟩ := mem_revocationsAfter.mp hrow
          have hbefore := hnone k affected hrevoked ⟨hscopes, hmeets⟩
          omega
      · rw [if_neg hany]
        constructor
        · intro hok
          refine ⟨hle, fun k affected hrevoked hmeets => ?_, (Except.ok.inj hok).symm⟩
          by_contra hafter
          have hrow := mem_revocationsAfter.mpr ⟨hrevoked, Nat.lt_of_not_le hafter⟩
          exact hany (List.any_eq_true.mpr ⟨(k, affected), hrow, hmeets.2⟩)
        · rintro ⟨-, -, rfl⟩
          rfl

/-- Nothing can be proved about memory that was never recorded, so the first revocation refuses it. -/
theorem checkManifest_none {db : ContextStore} {account : Uuid} {epoch : ℕ} :
    checkManifest db account none epoch = .ok result ↔ epoch = 0 ∧ result = none := by
  unfold checkManifest
  dsimp only
  split
  · next hepoch =>
      constructor
      · nofun
      · rintro ⟨hzero, -⟩
        exact absurd hzero hepoch
  · next hepoch =>
      constructor
      · intro hok
        exact ⟨not_not.mp hepoch, (Except.ok.inj hok).symm⟩
      · rintro ⟨-, rfl⟩
        rfl

/-! ### Manifests and where they were bound -/

/-- The epoch of the account when a manifest was bound, and the scopes it was bound with. -/
structure Binding where
  epoch : ℕ
  scopes : Option (List Scope)
deriving DecidableEq, Repr

/-- A manifest that has passed every check since it was bound. -/
structure Faithful (db : ContextStore) (account : Uuid) (m : Manifest) (b : Binding) : Prop where
  scopes : m.scopes = b.scopes
  checked : m.epoch ≤ memoryEpoch db account
  bound : b.epoch ≤ memoryEpoch db account
  since : ∀ k affected, Revoked db account k affected → Meets b.scopes affected → (m.epoch < k ↔ b.epoch < k)

/-- A revocation since the binding that meets its scopes. -/
def RevokedSince (db : ContextStore) (account : Uuid) (b : Binding) : Prop :=
  ∃ k affected, Revoked db account k affected ∧ b.epoch < k ∧ Meets b.scopes affected

section faithful

variable {db db' : ContextStore} {account : Uuid} {m : Manifest} {b : Binding}

/-- A check of a faithful manifest looks at the revocations since it was bound. -/
theorem Faithful.checkManifest_ok (h : Faithful db account m b) (hdb : Recorded db) :
    checkManifest db account (some m) (memoryEpoch db account) = .ok result ↔
      ¬RevokedSince db account b ∧ result = some { m with epoch := memoryEpoch db account } := by
  rw [Memory.checkManifest_ok hdb, h.scopes]
  constructor
  · rintro ⟨-, hnone, hresult⟩
    refine ⟨?_, hresult⟩
    rintro ⟨k, affected, hrevoked, hlt, hmeets⟩
    have hbefore := hnone k affected hrevoked hmeets
    have hafter := (h.since k affected hrevoked hmeets).mpr hlt
    omega
  · rintro ⟨hnone, hresult⟩
    refine ⟨h.checked, fun k affected hrevoked hmeets => ?_, hresult⟩
    by_contra hafter
    have hlt := (h.since k affected hrevoked hmeets).mp (Nat.lt_of_not_le hafter)
    exact hnone ⟨k, affected, hrevoked, hlt, hmeets⟩

/-- A check that passes leaves a faithful manifest. -/
theorem Faithful.advance (h : Faithful db account m b) (hdb : Recorded db) {m' : Manifest}
    (hok : checkManifest db account (some m) (memoryEpoch db account) = .ok (some m')) : Faithful db account m' b := by
  obtain ⟨hnone, heq⟩ := (h.checkManifest_ok hdb).mp hok
  obtain rfl := Option.some.inj heq
  refine ⟨h.scopes, Nat.le_refl _, h.bound, fun k affected hrevoked hmeets => ?_⟩
  have hle := (hdb.within account k affected hrevoked).2
  constructor
  · intro hlt
    dsimp only at hlt
    omega
  · intro hlt
    exact absurd ⟨k, affected, hrevoked, hlt, hmeets⟩ hnone

/-- A manifest that passes its check is faithful from then on. -/
theorem faithful_of_check (hdb : Recorded db)
    (hok : checkManifest db account (some m) (memoryEpoch db account) = .ok result) :
    Faithful db account m ⟨memoryEpoch db account, m.scopes⟩ := by
  obtain ⟨hle, hnone, -⟩ := (Memory.checkManifest_ok hdb).mp hok
  refine ⟨rfl, hle, Nat.le_refl _, fun k affected hrevoked hmeets => ?_⟩
  have hbefore := hnone k affected hrevoked hmeets
  have hwithin := (hdb.within account k affected hrevoked).2
  dsimp only
  omega

theorem revoked_congr (hactions : db'.actions = db.actions) {k : ℕ} {affected : Option Affected} :
    Revoked db' account k affected ↔ Revoked db account k affected := by
  unfold Revoked revocation
  rw [hactions]

theorem memoryEpoch_congr (hepochs : db'.epochs = db.epochs) : memoryEpoch db' account = memoryEpoch db account := by
  unfold memoryEpoch
  rw [hepochs]

theorem Faithful.congr (h : Faithful db account m b) (hepochs : db'.epochs = db.epochs)
    (hactions : db'.actions = db.actions) : Faithful db' account m b := by
  refine ⟨h.scopes, ?_, ?_, fun k affected hrevoked => h.since k affected ((revoked_congr hactions).mp hrevoked)⟩
  · rw [memoryEpoch_congr hepochs]
    exact h.checked
  · rw [memoryEpoch_congr hepochs]
    exact h.bound

theorem Recorded.congr (h : Recorded db) (hepochs : ∀ account, memoryEpoch db' account = memoryEpoch db account)
    (hsame : ∀ id, revocation db' id = revocation db id) : Recorded db' := by
  refine ⟨fun account k affected hrevoked => ?_, fun account k hpos hle => ?_, fun i j account k a b hi hj => ?_⟩
  · obtain ⟨id, hid⟩ := hrevoked
    rw [hsame] at hid
    rw [hepochs]
    exact h.within account k affected ⟨id, hid⟩
  · rw [hepochs] at hle
    obtain ⟨affected, id, hid⟩ := h.complete account k hpos hle
    exact ⟨affected, id, (hsame id).trans hid⟩
  · rw [hsame] at hi hj
    exact h.unique i j account k a b hi hj

end faithful

/-- Revocations come after those there are. -/
structure Later (db db' : ContextStore) : Prop where
  epochs : ∀ account, memoryEpoch db account ≤ memoryEpoch db' account
  revoked : ∀ account k affected, k ≤ memoryEpoch db account →
    (Revoked db' account k affected ↔ Revoked db account k affected)

theorem later_of_eq {db db' : ContextStore} (hepochs : db'.epochs = db.epochs) (hactions : db'.actions = db.actions) :
    Later db db' :=
  ⟨fun _ => (memoryEpoch_congr hepochs).ge, fun _ _ _ _ => revoked_congr hactions⟩

instance : IsPreorder ContextStore Later where
  refl _ := ⟨fun _ => Nat.le_refl _, fun _ _ _ _ => Iff.rfl⟩
  trans _ _ _ h h' :=
    ⟨fun account => (h.epochs account).trans (h'.epochs account), fun account k affected hle =>
      (h'.revoked account k affected (hle.trans (h.epochs account))).trans (h.revoked account k affected hle)⟩

/-! ### What a revocation does -/

/-- One more revocation of the account, under the next number. -/
structure Revokes (db db' : ContextStore) (account id : Uuid) (affected : Option Affected) : Prop where
  epochs : ∀ other, memoryEpoch db' other = if other = account then memoryEpoch db account + 1 else memoryEpoch db other
  new : revocation db id = none
  recorded : ∀ j, revocation db' j = if j = id then some (account, memoryEpoch db account + 1, affected) else revocation db j

section revokes

variable {db db' : ContextStore} {account id : Uuid} {affected : Option Affected}

theorem Revokes.revoked_iff (h : Revokes db db' account id affected) {other : Uuid} {k : ℕ} {a : Option Affected} :
    Revoked db' other k a ↔
      Revoked db other k a ∨ (other = account ∧ k = memoryEpoch db account + 1 ∧ a = affected) := by
  constructor
  · rintro ⟨j, hj⟩
    rw [h.recorded] at hj
    split at hj
    · simp only [Option.some.injEq, Prod.mk.injEq] at hj
      exact .inr ⟨hj.1.symm, hj.2.1.symm, hj.2.2.symm⟩
    · exact .inl ⟨j, hj⟩
  · rintro (⟨j, hj⟩ | ⟨rfl, rfl, rfl⟩)
    · refine ⟨j, ?_⟩
      have hne : j ≠ id := by
        rintro rfl
        rw [h.new] at hj
        cases hj
      rw [h.recorded, if_neg hne, hj]
    · exact ⟨id, by rw [h.recorded, if_pos rfl]⟩

theorem Revokes.recorded_of (h : Revokes db db' account id affected) (hdb : Recorded db) : Recorded db' := by
  refine ⟨fun other k a hrevoked => ?_, fun other k hpos hle => ?_, fun i j other k a b hi hj => ?_⟩
  · rw [h.epochs]
    obtain hold | ⟨rfl, rfl, -⟩ := h.revoked_iff.mp hrevoked
    · have hwithin := hdb.within other k a hold
      split
      · next heq =>
          subst heq
          omega
      · exact hwithin
    · rw [if_pos rfl]
      omega
  · rw [h.epochs] at hle
    by_cases hnew : other = account ∧ k = memoryEpoch db account + 1
    · exact ⟨affected, h.revoked_iff.mpr (.inr ⟨hnew.1, hnew.2, rfl⟩)⟩
    · have hold : k ≤ memoryEpoch db other := by
        split at hle
        · next heq =>
            subst heq
            have hne : k ≠ memoryEpoch db other + 1 := fun hk => hnew ⟨rfl, hk⟩
            omega
        · exact hle
      obtain ⟨a, ha⟩ := hdb.complete other k hpos hold
      exact ⟨a, h.revoked_iff.mpr (.inl ha)⟩
  · have hnext (i j : Uuid) (a b : Option Affected) (hi : revocation db' i = some (other, k, a))
        (hj : revocation db' j = some (other, k, b)) (heq : i = id) : j = id := by
      rw [h.recorded, if_pos heq] at hi
      simp only [Option.some.injEq, Prod.mk.injEq] at hi
      obtain ⟨rfl, rfl, -⟩ := hi
      by_contra hne
      rw [h.recorded, if_neg hne] at hj
      have hle := (hdb.within account _ b ⟨j, hj⟩).2
      omega
    by_cases hieq : i = id
    · rw [hieq, hnext i j a b hi hj hieq]
    · by_cases hjeq : j = id
      · exact absurd (hnext j i b a hj hi hjeq) hieq
      · rw [h.recorded, if_neg hieq] at hi
        rw [h.recorded, if_neg hjeq] at hj
        exact hdb.unique i j other k a b hi hj

theorem Revokes.later (h : Revokes db db' account id affected) : Later db db' := by
  refine ⟨fun other => ?_, fun other k a hle => ?_⟩
  · rw [h.epochs]
    split
    · next heq =>
        subst heq
        omega
    · exact Nat.le_refl _
  · rw [h.revoked_iff]
    constructor
    · rintro (hold | ⟨rfl, rfl, -⟩)
      · exact hold
      · omega
    · exact .inl

/-- A new revocation comes after every manifest that is bound already. -/
theorem Revokes.faithful (h : Revokes db db' account id affected) {other : Uuid} {m : Manifest} {b : Binding}
    (hm : Faithful db other m b) : Faithful db' other m b := by
  have hgrows := h.later.epochs other
  refine ⟨hm.scopes, hm.checked.trans hgrows, hm.bound.trans hgrows, fun k a hrevoked hmeets => ?_⟩
  obtain hold | ⟨rfl, rfl, -⟩ := h.revoked_iff.mp hrevoked
  · exact hm.since k a hold hmeets
  · have hchecked := hm.checked
    have hbound := hm.bound
    omega

end revokes

/-! ### The transactions that revoke -/

/-- Nothing but the rows of `memory_actions` and the epochs changes. -/
structure SameContexts (db db' : ContextStore) : Prop where
  executions : db'.executions = db.executions
  snapshots : db'.snapshots = db.snapshots
  dispatches : db'.dispatches = db.dispatches

/-- New actions that revoke nothing. -/
structure Retains (db db' : ContextStore) : Prop extends SameContexts db db' where
  epochs : db'.epochs = db.epochs
  actions : ∀ id a, db.actions.lookup id = some a → db'.actions.lookup id = some a
  revocations : ∀ id, revocation db' id = revocation db id

instance : IsPreorder ContextStore Retains where
  refl _ := ⟨⟨rfl, rfl, rfl⟩, rfl, fun _ _ h => h, fun _ => rfl⟩
  trans _ _ _ h h' :=
    ⟨⟨h'.executions.trans h.executions, h'.snapshots.trans h.snapshots, h'.dispatches.trans h.dispatches⟩,
      h'.epochs.trans h.epochs, fun id a ha => h'.actions id a (h.actions id a ha),
      fun id => (h'.revocations id).trans (h.revocations id)⟩

section revoking

variable {db db' : ContextStore} {account id : Uuid}

theorem insertAction_ok {a : MemoryAction} {u : Unit} (h : (insertAction id a).run db = .ok (u, db')) :
    db.actions.lookup id = none ∧ db' = { db with actions := db.actions.insert id a } := by
  unfold insertAction at h
  rw [Tx.bind_query_ok, Tx.bind_check_ok, Tx.update_ok] at h
  obtain ⟨hfree, rfl⟩ := h
  exact ⟨by simpa using hfree, rfl⟩

theorem revocation_insert (db : ContextStore) (id j : Uuid) (a : MemoryAction) :
    revocation { db with actions := db.actions.insert id a } j = if j = id then a.revocation else revocation db j := by
  unfold revocation
  dsimp only
  rw [Table.lookup_insert_ite]
  split
  · rfl
  · rfl

theorem insertAction_retains {affected : Option Affected} :
    Tx.Keeps Retains (insertAction id ⟨account, none, affected⟩) := by
  intro db u db' h
  obtain ⟨hfree, rfl⟩ := insertAction_ok h
  refine ⟨⟨rfl, rfl, rfl⟩, rfl, fun j a ha => ?_, fun j => ?_⟩
  · have hne : j ≠ id := by
      rintro rfl
      rw [hfree] at ha
      cases ha
    exact (AList.lookup_insert_ne hne).trans ha
  · rw [revocation_insert]
    split
    · next heq =>
        subst heq
        unfold revocation
        rw [hfree]
        rfl
    · rfl

theorem insertChildren_retains (children : List (Uuid × Scope)) :
    Tx.Keeps Retains (children.forM fun c => insertAction c.1 ⟨account, none, some (.scopes [c.2])⟩) := by
  induction children with
  | nil => exact Tx.Keeps.pure _
  | cons c rest ih => exact insertAction_retains.bind fun _ => ih

theorem accountEpoch_ok {n : ℕ} (h : (accountEpoch account).run db = .ok (n, db')) :
    n = memoryEpoch db account ∧ db.epochs account = some n ∧ db' = db := by
  unfold accountEpoch at h
  rw [Tx.bind_query_ok, Tx.demand_ok] at h
  obtain ⟨hn, rfl⟩ := h
  refine ⟨?_, hn, rfl⟩
  unfold memoryEpoch
  rw [hn]
  rfl

/-- A step of the revocation log: one more revocation with its account, its row and its scopes, or nothing. -/
def Logged (revoked : Option (Uuid × Uuid × Affected)) (db db' : ContextStore) : Prop :=
  match revoked with
  | some (account, id, affected) => Revokes db db' account id (some affected)
  | none => (∀ account, memoryEpoch db' account = memoryEpoch db account) ∧ ∀ id, revocation db' id = revocation db id

/-- A transaction that only moves the log. -/
def Logs (revoked : Option (Uuid × Uuid × Affected)) (db db' : ContextStore) : Prop :=
  SameContexts db db' ∧ Logged revoked db db'

theorem Retains.logs (h : Retains db db') : Logs none db db' :=
  ⟨h.toSameContexts, fun _ => memoryEpoch_congr h.epochs, h.revocations⟩

theorem memoryEpoch_setEpoch (db : ContextStore) (account other : Uuid) (n : ℕ) :
    memoryEpoch (setEpoch account n db) other = if other = account then n else memoryEpoch db other := by
  unfold memoryEpoch setEpoch
  dsimp only
  rw [Function.update_apply]
  split
  · rfl
  · rfl

/-- `invalidate` on an action that has revoked nothing yet. -/
theorem invalidate_revokes {affected : Affected} {a : MemoryAction} {u : Unit} (ha : db.actions.lookup id = some a)
    (haccount : a.accountId = account) (hnone : a.invalidationEpoch = none)
    (h : (invalidate account id affected).run db = .ok (u, db')) :
    SameContexts db db' ∧ Revokes db db' account id (some affected) := by
  unfold invalidate at h
  rw [Tx.bind_query_ok, Tx.bind_demand_ok] at h
  obtain ⟨n, hn, h⟩ := h
  rw [Tx.bind_update_ok, Tx.update_ok] at h
  subst h
  have hepoch : memoryEpoch db account = n := by
    unfold memoryEpoch
    rw [hn]
    rfl
  refine ⟨⟨rfl, rfl, rfl⟩, fun other => ?_, ?_, fun j => ?_⟩
  · rw [hepoch]
    exact memoryEpoch_setEpoch db account other (n + 1)
  · unfold revocation MemoryAction.revocation
    rw [ha, Option.bind_some, hnone]
    rfl
  · unfold revocation setEpoch
    dsimp only
    rw [Table.lookup_updateWhere, hepoch]
    by_cases hj : j = id
    · rw [if_pos hj, hj, ha, Option.map_some, Option.bind_some, if_pos (by simp [haccount])]
      unfold MemoryAction.revocation
      rw [Option.map_some, haccount]
    · rw [if_neg hj]
      cases hrow : db.actions.lookup j with
      | none => rfl
      | some r => rw [Option.map_some, if_neg (by simp [hj])]

theorem recordRevocation_logs (forgotten : Bool) (affected : Affected) :
    Tx.Keeps (Logs (if forgotten then none else some (account, id, affected)))
      (recordRevocation id account forgotten affected) := by
  intro db u db' h
  unfold recordRevocation at h
  split at h
  · next hforgotten =>
      rw [if_pos hforgotten]
      obtain ⟨-, rfl⟩ := Tx.pure_ok.mp h
      exact (refl_of Retains db).logs
  · next hforgotten =>
      rw [if_neg hforgotten]
      rw [Tx.bind_ok] at h
      obtain ⟨n, db₁, hepoch, h⟩ := h
      obtain ⟨rfl, -, rfl⟩ := accountEpoch_ok hepoch
      rw [Tx.bind_update_ok] at h
      obtain ⟨hfree, rfl⟩ := insertAction_ok h
      refine ⟨⟨rfl, rfl, rfl⟩, fun other => ?_, ?_, fun j => ?_⟩
      · exact memoryEpoch_setEpoch _ account other _
      · unfold revocation
        have hfree : db₁.actions.lookup id = none := hfree
        rw [hfree]
        rfl
      · exact revocation_insert _ id j _

/-- An action is recorded, and revokes. -/
theorem Retains.revokes {db₁ : ContextStore} {affected : Affected} (h : Retains db db₁)
    (h' : SameContexts db₁ db' ∧ Revokes db₁ db' account id (some affected)) : Logs (some (account, id, affected)) db db' := by
  obtain ⟨hsame, hrevokes⟩ := h'
  refine ⟨⟨hsame.executions.trans h.executions, hsame.snapshots.trans h.snapshots, hsame.dispatches.trans h.dispatches⟩,
    fun other => ?_, ?_, fun j => ?_⟩
  · rw [hrevokes.epochs, memoryEpoch_congr h.epochs, memoryEpoch_congr h.epochs]
  · rw [← h.revocations]
    exact hrevokes.new
  · rw [hrevokes.recorded, memoryEpoch_congr h.epochs, h.revocations]

theorem command_logs (scope : Scope) (children : List (Uuid × Scope)) (invalidation : Option Affected) :
    Tx.Keeps (Logs (invalidation.map fun affected => (account, id, affected)))
      (command account id scope children invalidation) := by
  intro db u db' h
  unfold command at h
  rw [Tx.bind_ok] at h
  obtain ⟨n, db₁, hepoch, h⟩ := h
  obtain ⟨-, -, rfl⟩ := accountEpoch_ok hepoch
  rw [Tx.bind_ok] at h
  obtain ⟨u₁, db₂, hinsert, h⟩ := h
  rw [Tx.bind_ok] at h
  obtain ⟨u₂, db₃, hchildren, h⟩ := h
  have hfirst := insertAction_retains _ _ _ hinsert
  have hrest := insertChildren_retains children _ _ _ hchildren
  have hall := trans_of Retains hfirst hrest
  cases invalidation with
  | none =>
      obtain ⟨-, rfl⟩ := Tx.pure_ok.mp h
      exact hall.logs
  | some affected =>
      obtain ⟨-, rfl⟩ := insertAction_ok hinsert
      have hrow := hrest.actions id _ (AList.lookup_insert _)
      exact hall.revokes (invalidate_revokes hrow rfl rfl h)

theorem reconcileScope_logs (affected : Affected) :
    Tx.Keeps (Logs (some (account, id, affected))) (reconcileScope account id affected) := by
  intro db u db' h
  unfold reconcileScope at h
  rw [Tx.bind_ok] at h
  obtain ⟨n, db₁, hepoch, h⟩ := h
  obtain ⟨-, -, rfl⟩ := accountEpoch_ok hepoch
  rw [Tx.bind_ok] at h
  obtain ⟨u₁, db₂, hinsert, h⟩ := h
  have hfirst := insertAction_retains _ _ _ hinsert
  obtain ⟨-, rfl⟩ := insertAction_ok hinsert
  exact hfirst.revokes (invalidate_revokes (AList.lookup_insert _) rfl rfl h)

end revoking

end HpAgent.Memory
