import HpAgent.Accounts.Bindings

/-! # Identity bindings over whole runs

A run begins in any store that keeps the laws: an account may have a QQ identity only, and Web accounts are merged into it.

* `Laws`: the invariant.
* `Closes`: what a command can do to the challenges that are there.
* `Merged`: what consolidation does.
* `binding_laws`: subjects, accounts and codes stay apart in every run.
* `consumption_binds`: what a consumption leaves that returns an account.
* `codes_closed`: what becomes of a code that was consumed or cancelled.
* `codes_bind_once`: what the commands do to the bindings, in every order. -/

namespace HpAgent.Accounts.Binding

open Library

variable {x : Identity}

/-! ### Rows that are alone -/

/-- No two rows are related. -/
def Alone {ρ : Type} (R : ρ → ρ → Prop) (t : Table Uuid ρ) : Prop :=
  ∀ i j x y, t.lookup i = some x → t.lookup j = some y → R x y → i = j

theorem Alone.insert {ρ : Type} {R : ρ → ρ → Prop} {t : Table Uuid ρ} (h : Alone R t) (hsymm : ∀ x y, R x y → R y x)
    {k : Uuid} {v : ρ} (hv : ∀ j y, t.lookup j = some y → ¬R v y) : Alone R (t.insert k v) := by
  intro i j x y hx hy hxy
  simp only [Table.lookup_insert_ite] at hx hy
  split_ifs at hx hy with hi hj hj
  · exact hi.trans hj.symm
  · obtain rfl := Option.some.inj hx
    exact absurd hxy (hv j y hy)
  · obtain rfl := Option.some.inj hy
    exact absurd (hsymm _ _ hxy) (hv i x hx)
  · exact h i j x y hx hy hxy

/-- Rows whose originals are related if they are. -/
theorem Alone.back {ρ : Type} {R : ρ → ρ → Prop} {t t' : Table Uuid ρ} (h : Alone R t)
    (hback : ∀ i j x' y', t'.lookup i = some x' → t'.lookup j = some y' → R x' y' →
      ∃ x y, t.lookup i = some x ∧ t.lookup j = some y ∧ (R x y ∨ i = j)) : Alone R t' := by
  intro i j x' y' hx' hy' hxy
  obtain ⟨x, y, hx, hy, hR | heq⟩ := hback i j x' y' hx' hy' hxy
  · exact h i j x y hx hy hR
  · exact heq

section bindings

variable {δ : Type} {db db' : Store δ}

/-- A subject has one identity, which is of an active account, and an account has one identity of each provider; an account has
one pending challenge, and a code has one challenge; who completed a challenge has an identity. -/
structure Laws (db : Store δ) : Prop where
  subjects : Alone (fun x y => x.provider = y.provider ∧ x.subject = y.subject) db.identities
  single : Alone (fun x y => x.provider = y.provider ∧ x.accountId = y.accountId) db.identities
  owners : ∀ i x, db.identities.lookup i = some x → db.accounts.lookup x.accountId = some true
  pending : Alone (fun x y => (x.status = .pending ∧ y.status = .pending) ∧ x.accountId = y.accountId) db.challenges
  codes : Alone (fun x y => x.code = y.code) db.challenges
  verified : ∀ i x s, db.challenges.lookup i = some x → x.status = .completed s →
    ∃ j y, db.identities.lookup j = some y ∧ y.provider = .qq ∧ y.subject = s

/-! ### The account of a subject -/

theorem accountOf_some {p : Provider} {s : String} {a : Uuid} (h : db.accountOf p s = some a) :
    ∃ i x, db.identities.lookup i = some x ∧ x.provider = p ∧ x.subject = s ∧ x.accountId = a := by
  obtain ⟨e, he, rfl⟩ := Option.map_eq_some_iff.mp h
  have hp := List.find?_some he
  rw [Bool.and_eq_true, decide_eq_true_eq, decide_eq_true_eq] at hp
  exact ⟨e.1, e.2, AList.mem_lookup_iff.mpr (List.mem_of_find?_eq_some he), hp.1, hp.2, rfl⟩

theorem accountOf_none {p : Provider} {s : String} (h : db.accountOf p s = none) {i : Uuid}
    (hx : db.identities.lookup i = some x) : ¬(p = x.provider ∧ s = x.subject) := by
  rintro ⟨rfl, rfl⟩
  have hno := List.find?_eq_none.mp (Option.map_eq_none_iff.mp h) ⟨i, x⟩ (AList.mem_lookup_iff.mp hx)
  simp at hno

theorem Laws.accountOf (h : Laws db) {i : Uuid} (hx : db.identities.lookup i = some x) :
    db.accountOf x.provider x.subject = some x.accountId := by
  cases hfind : db.accountOf x.provider x.subject with
  | none => exact absurd ⟨rfl, rfl⟩ (accountOf_none hfind hx)
  | some a =>
      obtain ⟨j, y, hy, hp, hs, rfl⟩ := accountOf_some hfind
      obtain rfl := h.subjects j i y x hy hx ⟨hp, hs⟩
      rw [Option.some.inj (hy.symm.trans hx)]

/-- The account of a subject is active. -/
theorem Laws.active (h : Laws db) {p : Provider} {s : String} {a : Uuid} (ha : db.accountOf p s = some a) :
    db.accounts.lookup a = some true := by
  obtain ⟨i, x, hx, -, -, rfl⟩ := accountOf_some ha
  exact h.owners i x hx

theorem mem_identitiesOf {a i : Uuid} :
    ⟨i, x⟩ ∈ db.identitiesOf a ↔ db.identities.lookup i = some x ∧ x.accountId = a := by
  rw [Store.identitiesOf, List.mem_filter, decide_eq_true_eq, ← Option.mem_def, AList.mem_lookup_iff]

theorem any_identitiesOf {a i : Uuid} {p : Provider}
    (h : ((db.identitiesOf a).any fun e => e.2.provider = p) = false) (hx : db.identities.lookup i = some x)
    (ha : x.accountId = a) : x.provider ≠ p := by
  simpa using List.any_eq_false.mp h ⟨i, x⟩ (mem_identitiesOf.mpr ⟨hx, ha⟩)

/-! ### Identities -/

theorem Laws.identity (h : Laws db) {id : Uuid}
    (hfree : ((db.identities.lookup id).isSome || (db.accountOf x.provider x.subject).isSome) = false)
    (hactive : db.accounts.lookup x.accountId = some true)
    (hother : ∀ j y, db.identities.lookup j = some y → y.accountId = x.accountId → y.provider ≠ x.provider) :
    Laws { db with identities := db.identities.insert id x } := by
  rw [Bool.or_eq_false_iff, Option.isSome_eq_false_iff, Option.isNone_iff_eq_none, Option.isSome_eq_false_iff,
    Option.isNone_iff_eq_none] at hfree
  refine ⟨?_, ?_, ?_, h.pending, h.codes, ?_⟩
  · exact h.subjects.insert (fun _ _ hxy => ⟨hxy.1.symm, hxy.2.symm⟩) fun j y hy => accountOf_none hfree.2 hy
  · exact h.single.insert (fun _ _ hxy => ⟨hxy.1.symm, hxy.2.symm⟩) fun j y hy hxy =>
      hother j y hy hxy.2.symm hxy.1.symm
  · intro i y hy
    simp only [Table.lookup_insert_ite] at hy
    split_ifs at hy
    · obtain rfl := Option.some.inj hy
      exact hactive
    · exact h.owners i y hy
  · intro i y s hy hs
    obtain ⟨j, z, hz, hbound⟩ := h.verified i y s hy hs
    exact ⟨j, z, Table.extends_insert hfree.1 j z hz, hbound⟩

/-- The only identity of an account goes to another account. -/
theorem Laws.move (h : Laws db) {source target binding : Uuid} {moved : Identity} (hne : target ≠ source)
    (hmoved : db.identities.lookup binding = some moved) (hweb : moved.provider = .web)
    (htarget : db.accounts.lookup target = some true)
    (honly : ∀ i x, db.identities.lookup i = some x → x.accountId = source → i = binding)
    (hfree : ∀ i x, db.identities.lookup i = some x → x.accountId = target → x.provider ≠ .web) :
    Laws { db with
      identities := Table.modify binding (fun x => { x with accountId := target }) db.identities
      accounts := Table.modify source (fun _ => false) db.accounts } := by
  have hback {i : Uuid} {x' : Identity}
      (hx' : (Table.modify binding (fun x => { x with accountId := target }) db.identities).lookup i = some x') :
      (i = binding ∧ x' = { moved with accountId := target }) ∨ (i ≠ binding ∧ db.identities.lookup i = some x') := by
    rw [Table.lookup_modify] at hx'
    split_ifs at hx' with hi
    · rw [hmoved] at hx'
      exact .inl ⟨hi, (Option.some.inj hx').symm⟩
    · exact .inr ⟨hi, hx'⟩
  have hstays {a : Uuid} (ha : a ≠ source) (hactive : db.accounts.lookup a = some true) :
      (Table.modify source (fun _ => false) db.accounts).lookup a = some true := by
    rw [Table.lookup_modify, if_neg ha]
    exact hactive
  refine ⟨?_, ?_, ?_, h.pending, h.codes, ?_⟩
  · refine h.subjects.back ?_
    intro i j x' y' hx' hy' hxy
    obtain ⟨rfl, rfl⟩ | ⟨-, hx⟩ := hback hx'
    · obtain ⟨rfl, -⟩ | ⟨-, hy⟩ := hback hy'
      · exact ⟨moved, moved, hmoved, hmoved, .inr rfl⟩
      · exact ⟨moved, y', hmoved, hy, .inl hxy⟩
    · obtain ⟨rfl, rfl⟩ | ⟨-, hy⟩ := hback hy'
      · exact ⟨x', moved, hx, hmoved, .inl hxy⟩
      · exact ⟨x', y', hx, hy, .inl hxy⟩
  · intro i j x' y' hx' hy' hxy
    obtain ⟨rfl, rfl⟩ | ⟨-, hx⟩ := hback hx'
    · obtain ⟨rfl, -⟩ | ⟨-, hy⟩ := hback hy'
      · rfl
      · exact absurd (hxy.1.symm.trans hweb) (hfree j y' hy hxy.2.symm)
    · obtain ⟨rfl, rfl⟩ | ⟨-, hy⟩ := hback hy'
      · exact absurd (hxy.1.trans hweb) (hfree i x' hx hxy.2)
      · exact h.single i j x' y' hx hy hxy
  · intro i x' hx'
    obtain ⟨-, rfl⟩ | ⟨hi, hx⟩ := hback hx'
    · exact hstays hne htarget
    · exact hstays (fun ha => hi (honly i x' hx ha)) (h.owners i x' hx)
  · intro i x s hx hs
    obtain ⟨j, y, hy, hp, hsubject⟩ := h.verified i x s hx hs
    have hj : j ≠ binding := by
      rintro rfl
      rw [Option.some.inj (hy.symm.trans hmoved), hweb] at hp
      cases hp
    refine ⟨j, y, ?_, hp, hsubject⟩
    rw [Table.lookup_modify, if_neg hj]
    exact hy

/-! ### Challenges -/

/-- A challenge stays, or it was pending and is closed. -/
def Closes (s : Option String) (t t' : Table Uuid (Challenge δ)) : Prop :=
  ∀ i, t'.lookup i = t.lookup i ∨ ∃ x x', t.lookup i = some x ∧ t'.lookup i = some x' ∧ x'.code = x.code ∧
    x.status = .pending ∧ (x'.status = .cancelled ∨ ∃ u ∈ s, x'.status = .completed u)

/-- What is closed stays as it is. -/
def Settled (t t' : Table Uuid (Challenge δ)) : Prop :=
  ∀ i x, t.lookup i = some x → x.status ≠ .pending → t'.lookup i = some x

section closes

variable {s : Option String} {t t' : Table Uuid (Challenge δ)}

theorem Closes.settled (h : Closes s t t') : Settled t t' := by
  intro i x hx hclosed
  obtain heq | ⟨y, _, hy, -, -, hp, -⟩ := h i
  · exact heq.trans hx
  · obtain rfl := Option.some.inj (hx.symm.trans hy)
    exact absurd hp hclosed

theorem Closes.back (h : Closes s t t') {i : Uuid} {x' : Challenge δ} (hx' : t'.lookup i = some x') :
    ∃ x, t.lookup i = some x ∧ x'.code = x.code ∧ (x' = x ∨ x'.status = .cancelled ∨ ∃ u ∈ s, x'.status = .completed u) := by
  obtain heq | ⟨x, y, hx, hy, hcode, -, hclosed⟩ := h i
  · exact ⟨x', heq.symm.trans hx', rfl, .inl rfl⟩
  · obtain rfl := Option.some.inj (hy.symm.trans hx')
    exact ⟨x, hx, hcode, .inr hclosed⟩

theorem Closes.pending (h : Closes s t t') {i : Uuid} {x : Challenge δ} (hx : t'.lookup i = some x) (hp : x.status = .pending) :
    t.lookup i = some x := by
  obtain ⟨y, hy, -, rfl | hcancelled | ⟨u, -, hcompleted⟩⟩ := h.back hx
  · exact hy
  · rw [hp] at hcancelled
    cases hcancelled
  · rw [hp] at hcompleted
    cases hcompleted

theorem Laws.close (h : Laws db) (hc : Closes s db.challenges t')
    (hs : ∀ u ∈ s, ∃ j y, db.identities.lookup j = some y ∧ y.provider = .qq ∧ y.subject = u) :
    Laws { db with challenges := t' } := by
  refine ⟨h.subjects, h.single, h.owners, ?_, ?_, ?_⟩
  · refine h.pending.back ?_
    intro i j x y hx hy hxy
    exact ⟨x, y, hc.pending hx hxy.1.1, hc.pending hy hxy.1.2, .inl hxy⟩
  · refine h.codes.back ?_
    intro i j x' y' hx' hy' hcode
    obtain ⟨x, hx, hxc, -⟩ := hc.back hx'
    obtain ⟨y, hy, hyc, -⟩ := hc.back hy'
    exact ⟨x, y, hx, hy, .inl (hxc.symm.trans (hcode.trans hyc))⟩
  · intro i x' u hx' hu
    obtain ⟨x, hx, -, rfl | hcancelled | ⟨v, hv, hcompleted⟩⟩ := hc.back hx'
    · exact h.verified i x' u hx hu
    · rw [hu] at hcancelled
      cases hcancelled
    · rw [hcompleted] at hu
      injection hu with hu
      exact hu ▸ hs v hv

theorem closes_cancelPending (a : Uuid) (spared : Option Uuid) : Closes s t (cancelPending a spared t) := by
  intro i
  unfold cancelPending
  rw [Table.lookup_updateWhere]
  cases hx : t.lookup i with
  | none => exact .inl rfl
  | some x =>
      rw [Option.map_some]
      split_ifs with hp
      · rw [Bool.and_eq_true, Bool.and_eq_true, decide_eq_true_eq, decide_eq_true_eq] at hp
        exact .inr ⟨x, _, rfl, rfl, rfl, hp.1.2, .inl rfl⟩
      · exact .inl rfl

theorem closes_modify {id : Uuid} {x : Challenge δ} (hx : t.lookup id = some x) (hp : x.status = .pending)
    {f : Challenge δ → Challenge δ} (hcode : (f x).code = x.code)
    (hclosed : (f x).status = .cancelled ∨ ∃ u ∈ s, (f x).status = .completed u) : Closes s t (Table.modify id f t) := by
  intro i
  rw [Table.lookup_modify]
  split_ifs with hi
  · subst hi
    rw [hx]
    exact .inr ⟨x, f x, rfl, rfl, hcode, hp, hclosed⟩
  · exact .inl rfl

end closes

/-! ### Commands -/

/-- The identities of QQ stay as they are, and so does what is closed. -/
structure Kept (db db' : Store δ) : Prop where
  settled : Settled db.challenges db'.challenges
  bound : ∀ i x, db.identities.lookup i = some x → x.provider = .qq → db'.identities.lookup i = some x

theorem Kept.refl (db : Store δ) : Kept db db := ⟨fun _ _ hx _ => hx, fun _ _ hx _ => hx⟩

theorem Kept.trans {db'' : Store δ} (h : Kept db db') (h' : Kept db' db'') : Kept db db'' :=
  ⟨fun i x hx hclosed => h'.settled i x (h.settled i x hx hclosed) hclosed,
    fun i x hx hqq => h'.bound i x (h.bound i x hx hqq) hqq⟩

/-- A subject of QQ keeps its account. -/
theorem Kept.accountOf (h : Kept db db') (hlaws : Laws db') {s : String} {a : Uuid} (ha : db.accountOf .qq s = some a) :
    db'.accountOf .qq s = some a := by
  obtain ⟨i, x, hx, hp, rfl, rfl⟩ := accountOf_some ha
  have haccount := hlaws.accountOf (h.bound i x hx hp)
  rw [hp] at haccount
  exact haccount

theorem insertIdentity_ok {id : Uuid} {u : Unit} : (insertIdentity id x).run db = .ok (u, db') ↔
    ((db.identities.lookup id).isSome || (db.accountOf x.provider x.subject).isSome) = false ∧
      { db with identities := db.identities.insert id x } = db' := by
  unfold insertIdentity
  rw [Tx.bind_query_ok, Tx.bind_check_ok, Tx.update_ok]

theorem register_laws (h : Laws db) (a binding : Uuid) (s : String) {u : Unit}
    (hrun : (register a binding s).run db = .ok (u, db')) : Laws db' ∧ Kept db db' := by
  unfold register at hrun
  rw [Tx.bind_query_ok, Tx.bind_check_ok, Tx.bind_update_ok] at hrun
  obtain ⟨hnew, hrun⟩ := hrun
  obtain ⟨_, _, hidentity, hrun⟩ := Tx.bind_ok.mp hrun
  obtain ⟨hfree, rfl⟩ := insertIdentity_ok.mp hidentity
  obtain rfl := Tx.update_ok.mp hrun
  have hmore {b : Uuid} (hb : db.accounts.lookup b = some true) : (db.accounts.insert a true).lookup b = some true :=
    Table.extends_insert (by simpa using hnew) b true hb
  have haccount : Laws { db with accounts := db.accounts.insert a true } :=
    ⟨h.subjects, h.single, fun i x hx => hmore (h.owners i x hx), h.pending, h.codes, h.verified⟩
  have hidentity := haccount.identity hfree (AList.lookup_insert _) (by
    intro j y hy ha
    have hold : y.accountId = a := ha
    rw [← hold, h.owners j y hy] at hnew
    cases hnew)
  rw [Bool.or_eq_false_iff, Option.isSome_eq_false_iff, Option.isNone_iff_eq_none] at hfree
  exact ⟨⟨hidentity.1, hidentity.2, hidentity.3, hidentity.4, hidentity.5, hidentity.6⟩, fun _ _ hx _ => hx,
    fun i x hx _ => Table.extends_insert hfree.1 i x hx⟩

/-- The account `source` had one identity, of the Web, and no user data; it is disabled, and its identity is of `target`. -/
structure Merged (source target : Uuid) (data : Uuid → Bool) (db db' : Store δ) : Prop where
  other : target ≠ source
  empty : data source = false
  disabled : db'.accounts.lookup source = some false
  moved : ∃ binding x, db.identitiesOf source = [⟨binding, x⟩] ∧ x.provider = .web ∧
    db'.identities.lookup binding = some { x with accountId := target }

/-- What a consumption of a pending challenge leaves that succeeds. -/
structure Consumed (s : String) (id source : Uuid) (data : Uuid → Bool) (db db' : Store δ) (r : Consumption) : Prop where
  laws : Laws db'
  closes : Closes (some s) db.challenges db'.challenges
  bound : ∀ i x, db.identities.lookup i = some x → x.provider = .qq → db'.identities.lookup i = some x
  account : db'.accountOf .qq s = some r.accountId
  challenge : r.challengeId = id ∧ ∃ x, db'.challenges.lookup id = some x ∧ x.status = .completed s
  accounts : if r.consolidated = true then db.accountOf .qq s = some r.accountId ∧ Merged source r.accountId data db db'
    else r.accountId = source ∧ db'.accounts = db.accounts

theorem consolidate_ok {source target id : Uuid} {data : Uuid → Bool} {u : Unit}
    (hrun : (consolidateEmptyWebAccount source target id data).run db = .ok (u, db')) :
    ∃ binding x, db.identitiesOf source = [⟨binding, x⟩] ∧ x.provider = .web ∧
      ((db.identitiesOf target).any fun e => e.2.provider = .web) = false ∧ data source = false ∧
        db' = db.merged source target id binding := by
  unfold consolidateEmptyWebAccount at hrun
  rw [Tx.bind_query_ok] at hrun
  dsimp only at hrun
  rw [Tx.bind_check_ok, Tx.bind_query_ok, Tx.bind_check_ok, Tx.bind_demand_ok] at hrun
  obtain ⟨⟨hone, hweb⟩, hother, binding, hbinding, hrun⟩ := hrun
  rw [Tx.bind_query_ok, Tx.bind_check_ok, Tx.bind_check_ok, Tx.bind_query_ok, Tx.bind_check_ok, Tx.update_ok] at hrun
  obtain ⟨-, hdata, -, rfl⟩ := hrun
  obtain ⟨e, he⟩ := List.length_eq_one_iff.mp hone
  rw [he] at hweb hbinding
  by_cases hp : e.2.provider = .web
  · rw [List.filter_cons_of_pos (by simpa using hp)] at hbinding
    obtain rfl := Option.some.inj hbinding
    exact ⟨e.1, e.2, he, hp, hother, hdata, rfl⟩
  · rw [List.filter_cons_of_neg (by simpa using hp)] at hweb
    cases hweb

theorem consumePending_ok (h : Laws db) {id : Uuid} {x : Challenge δ} (hx : db.challenges.lookup id = some x)
    (hp : x.status = .pending) {s : String} {binding : Uuid} {data : Uuid → Bool} {r : Consumption}
    (hrun : (consumePending id x s binding data).run db = .ok (r, db')) : Consumed s id x.accountId data db db' r := by
  have hcomplete : Closes (some s) db.challenges
      (Table.modify id (fun x => { x with status := .completed s }) db.challenges) :=
    closes_modify hx hp rfl (.inr ⟨s, rfl, rfl⟩)
  have hthere {t : Table Uuid (Challenge δ)} {y : Challenge δ} (hy : t.lookup id = some y) :
      ∃ x, (Table.modify id (fun x => { x with status := .completed s }) t).lookup id = some x ∧ x.status = .completed s := by
    rw [Table.lookup_modify, if_pos rfl, hy]
    exact ⟨_, rfl, rfl⟩
  unfold consumePending at hrun
  rw [Tx.bind_query_ok, Tx.bind_check_ok, Tx.bind_query_ok] at hrun
  obtain ⟨hsource, hrun⟩ := hrun
  split at hrun
  next hbound =>
    rw [Tx.bind_query_ok, Tx.bind_check_ok] at hrun
    obtain ⟨hother, hrun⟩ := hrun
    obtain ⟨_, _, hidentity, hrun⟩ := Tx.bind_ok.mp hrun
    obtain ⟨hfree, rfl⟩ := insertIdentity_ok.mp hidentity
    obtain ⟨_, _, hdone, hrun⟩ := Tx.bind_ok.mp hrun
    obtain rfl := Tx.update_ok.mp hdone
    obtain ⟨rfl, rfl⟩ := Tx.pure_ok.mp hrun
    have hrow : (db.identities.insert binding ⟨x.accountId, .qq, s⟩).lookup binding = some ⟨x.accountId, .qq, s⟩ :=
      AList.lookup_insert _
    have hlaws := (h.identity hfree hsource fun j y hy ha => any_identitiesOf hother hy ha).close hcomplete
      (by rintro u ⟨⟩; exact ⟨_, _, hrow, rfl, rfl⟩)
    rw [Bool.or_eq_false_iff, Option.isSome_eq_false_iff, Option.isNone_iff_eq_none] at hfree
    exact ⟨hlaws, hcomplete, fun i y hy _ => Table.extends_insert hfree.1 i y hy, hlaws.accountOf hrow, ⟨rfl, hthere hx⟩, rfl, rfl⟩
  next target hbound =>
    obtain ⟨i, y, hy, hqq, hs, rfl⟩ := accountOf_some hbound
    split_ifs at hrun with hsame
    · obtain ⟨_, _, hdone, hrun⟩ := Tx.bind_ok.mp hrun
      obtain rfl := Tx.update_ok.mp hdone
      obtain ⟨rfl, rfl⟩ := Tx.pure_ok.mp hrun
      have hlaws := h.close hcomplete (by rintro u ⟨⟩; exact ⟨i, y, hy, hqq, hs⟩)
      exact ⟨hlaws, hcomplete, fun _ _ hz _ => hz, hbound, ⟨rfl, hthere hx⟩, hsame, rfl⟩
    · rw [Tx.bind_query_ok, Tx.bind_check_ok] at hrun
      obtain ⟨hactive, hrun⟩ := hrun
      obtain ⟨_, _, hmerge, hrun⟩ := Tx.bind_ok.mp hrun
      obtain ⟨binding, moved, hone, hweb, hfree, hdata, rfl⟩ := consolidate_ok hmerge
      obtain ⟨_, _, hdone, hrun⟩ := Tx.bind_ok.mp hrun
      obtain rfl := Tx.update_ok.mp hdone
      obtain ⟨rfl, rfl⟩ := Tx.pure_ok.mp hrun
      have hmem : ⟨binding, moved⟩ ∈ db.identitiesOf x.accountId := by
        rw [hone]
        exact List.mem_singleton_self _
      obtain ⟨hmoved, -⟩ := mem_identitiesOf.mp hmem
      -- the others of the account are cancelled, and this one goes to the target and is completed
      have hspared : (cancelPending x.accountId (some id) db.challenges).lookup id = some x := by
        unfold cancelPending
        rw [Table.lookup_updateWhere, hx]
        simp
      have hgone : (Table.modify id (fun z => { z with accountId := y.accountId })
          (cancelPending x.accountId (some id) db.challenges)).lookup id = some { x with accountId := y.accountId } := by
        rw [Table.lookup_modify, if_pos rfl, hspared]
        rfl
      obtain ⟨done, hdone, hcompleted⟩ := hthere hgone
      have hall : Closes (some s) db.challenges (Table.modify id (fun z => { z with status := .completed s })
          (Table.modify id (fun z => { z with accountId := y.accountId })
            (cancelPending x.accountId (some id) db.challenges))) := by
        intro j
        by_cases hj : j = id
        · rw [hj, Table.lookup_modify, if_pos rfl, hgone]
          exact .inr ⟨x, _, hx, rfl, rfl, hp, .inr ⟨s, rfl, rfl⟩⟩
        · rw [Table.lookup_modify, if_neg hj, Table.lookup_modify, if_neg hj]
          exact closes_cancelPending _ _ j
      have hlaws := (h.close hall (by rintro u ⟨⟩; exact ⟨i, y, hy, hqq, hs⟩)).move hsame hmoved hweb hactive ?_
        fun j z hz ha => any_identitiesOf hfree hz ha
      · have hrows : ∀ j z, db.identities.lookup j = some z → z.provider = .qq →
            (Table.modify binding (fun z => { z with accountId := y.accountId }) db.identities).lookup j = some z := by
          intro j z hz hp
          rw [Table.lookup_modify, if_neg]
          · exact hz
          · rintro rfl
            rw [Option.some.inj (hz.symm.trans hmoved), hweb] at hp
            cases hp
        have haccount := hlaws.accountOf (hrows i y hy hqq)
        rw [hqq, hs] at haccount
        refine ⟨hlaws, hall, hrows, haccount, ⟨rfl, done, hdone, hcompleted⟩, hbound, hsame, hdata, ?_, binding, moved,
            hone, hweb, ?_⟩
        · exact (Table.lookup_modify ..).trans (by rw [if_pos rfl, hsource]; rfl)
        · exact (Table.lookup_modify ..).trans (by rw [if_pos rfl, hmoved]; rfl)
      · intro j z hz ha
        have hmem : ⟨j, z⟩ ∈ db.identitiesOf x.accountId := mem_identitiesOf.mpr ⟨hz, ha⟩
        rw [hone, List.mem_singleton] at hmem
        exact (Sigma.mk.inj hmem).1

variable [DecidableEq δ]

theorem createQqChallenge_laws (h : Laws db) (active : Bool) (a id : Uuid) (code : δ) (expiresAt : Instant) {u : Unit}
    (hrun : (createQqChallenge active a id code expiresAt).run db = .ok (u, db')) : Laws db' ∧ Kept db db' := by
  unfold createQqChallenge at hrun
  rw [Tx.bind_check_ok, Tx.bind_update_ok, Tx.bind_query_ok, Tx.bind_check_ok, Tx.update_ok] at hrun
  obtain ⟨-, hfree, rfl⟩ := hrun
  have hcloses : Closes none db.challenges (cancelPending a none db.challenges) := closes_cancelPending a none
  have hlaws := h.close hcloses (by simp)
  dsimp only at hfree
  rw [Bool.or_eq_false_iff, Option.isSome_eq_false_iff, Option.isNone_iff_eq_none, List.any_eq_false] at hfree
  -- all of the account are closed
  have hnone {i : Uuid} {x : Challenge δ} (hx : (cancelPending a none db.challenges).lookup i = some x)
      (hp : x.status = .pending) : a ≠ x.accountId := by
    have hold := hcloses.pending hx hp
    unfold cancelPending at hx
    rw [Table.lookup_updateWhere, hold, Option.map_some] at hx
    split_ifs at hx with hcond
    · rw [← Option.some.inj hx] at hp
      cases hp
    · rintro rfl
      exact hcond (by simp [hp])
  refine ⟨⟨h.subjects, h.single, h.owners, ?_, ?_, ?_⟩, fun i x hx hclosed =>
    Table.extends_insert hfree.1 i x (hcloses.settled i x hx hclosed), fun _ _ hx _ => hx⟩
  · exact hlaws.pending.insert (fun _ _ hxy => ⟨hxy.1.symm, hxy.2.symm⟩) fun j y hy hxy => hnone hy hxy.1.2 hxy.2
  · refine hlaws.codes.insert (fun _ _ hxy => hxy.symm) fun j y hy heq => hfree.2 ⟨j, y⟩ (AList.mem_lookup_iff.mp hy) ?_
    exact decide_eq_true heq.symm
  · intro i x s hx hs
    simp only [Table.lookup_insert_ite] at hx
    split_ifs at hx
    · obtain rfl := Option.some.inj hx
      cases hs
    · exact hlaws.verified i x s hx hs

/-- What a consumption can do. -/
theorem consume_ok {code : δ} {subject : Option String} {binding : Uuid} {now : Instant} {data : Uuid → Bool}
    {r : Option Consumption} (hrun : (consumeQqChallenge code subject binding now data).run db = .ok (r, db')) :
    ∃ s id x, subject = some s ∧ db.challenges.lookup id = some x ∧ x.code = code ∧
      ((x.status = .completed s ∧ db' = db ∧ ∃ a, db.accountOf .qq s = some a ∧ r = some ⟨id, a, false⟩) ∨
        (x.status = .pending ∧ x.expiresAt ≤ now ∧ r = none ∧
          db' = { db with challenges := Table.modify id (fun x => { x with status := .cancelled }) db.challenges }) ∨
        (x.status = .pending ∧ now < x.expiresAt ∧
          ∃ c, r = some c ∧ (consumePending id x s binding data).run db = .ok (c, db'))) := by
  unfold consumeQqChallenge at hrun
  rw [Tx.bind_demand_ok] at hrun
  obtain ⟨s, rfl, hrun⟩ := hrun
  rw [Tx.bind_query_ok, Tx.bind_demand_ok] at hrun
  obtain ⟨⟨id, x⟩, hfind, hrun⟩ := hrun
  have hx := AList.mem_lookup_iff.mpr (List.mem_of_find?_eq_some hfind)
  have hcode : x.code = code := by simpa using List.find?_some hfind
  refine ⟨s, id, x, rfl, hx, hcode, ?_⟩
  dsimp only at hrun
  split at hrun
  next verified hstatus =>
    rw [Tx.bind_check_ok, Tx.bind_query_ok, Tx.bind_demand_ok] at hrun
    obtain ⟨rfl, a, ha, hrun⟩ := hrun
    obtain ⟨rfl, rfl⟩ := Tx.pure_ok.mp hrun
    exact .inl ⟨hstatus, rfl, a, ha, rfl⟩
  · exact (Tx.raise_ok.mp hrun).elim
  next hstatus =>
    split_ifs at hrun with hexpired
    · rw [Tx.bind_update_ok] at hrun
      obtain ⟨rfl, rfl⟩ := Tx.pure_ok.mp hrun
      exact .inr (.inl ⟨hstatus, hexpired, rfl, rfl⟩)
    · obtain ⟨c, _, hpending, hrun⟩ := Tx.bind_ok.mp hrun
      obtain ⟨rfl, rfl⟩ := Tx.pure_ok.mp hrun
      exact .inr (.inr ⟨hstatus, not_le.mp hexpired, c, rfl, hpending⟩)

/-! ### Every run -/

theorem step_laws (h : Laws db) (x : Step δ) : Laws (step db x) ∧ Kept db (step db x) := by
  have hsame : Laws db ∧ Kept db db := ⟨h, .refl db⟩
  let P (db' : Store δ) : Prop := Laws db' ∧ Kept db db'
  cases x with
  | register a binding s => exact Tx.commit_rule P hsame fun _ _ => register_laws h a binding s
  | create active a id code expiresAt =>
      exact Tx.commit_rule P hsame fun _ _ => createQqChallenge_laws h active a id code expiresAt
  | consume code subject binding now data =>
      refine Tx.commit_rule P hsame fun r db' hrun => ?_
      obtain ⟨s, id, x, -, hx, -, ⟨-, rfl, -⟩ | ⟨hp, -, -, rfl⟩ | ⟨hp, -, c, -, hpending⟩⟩ := consume_ok hrun
      · exact hsame
      · have hcloses : Closes none db.challenges (Table.modify id (fun x => { x with status := .cancelled }) db.challenges) :=
          closes_modify hx hp rfl (.inl rfl)
        exact ⟨h.close hcloses (by simp), hcloses.settled, fun _ _ hx _ => hx⟩
      · have hconsumed := consumePending_ok h hx hp hpending
        exact ⟨hconsumed.laws, hconsumed.closes.settled, hconsumed.bound⟩

theorem run_laws (h : Laws db) (steps : List (Step δ)) : Laws (run db steps) ∧ Kept db (run db steps) := by
  induction steps generalizing db with
  | nil => exact ⟨h, .refl db⟩
  | cons x steps ih =>
      obtain ⟨hlaws, hkept⟩ := step_laws h x
      exact ⟨(ih hlaws).1, hkept.trans (ih hlaws).2⟩

/-- **Identity bindings.**  The laws hold in every run, and a subject of QQ keeps its account. -/
theorem binding_laws (h : Laws db) (steps : List (Step δ)) :
    Laws (run db steps) ∧ ∀ s a, db.accountOf .qq s = some a → (run db steps).accountOf .qq s = some a := by
  obtain ⟨hlaws, hkept⟩ := run_laws h steps
  exact ⟨hlaws, fun s a ha => hkept.accountOf hlaws ha⟩

/-- A consumption that returns an account was made with the code of a challenge that the subject completed before, and
changes nothing then, or that is pending and not expired.  Then the account is the one of the challenge, or this one was merged
into the account that the subject had.  The account is the one of the subject, and active, and the challenge is completed by
the subject. -/
theorem consumption_binds (h : Laws db) (steps : List (Step δ)) {code : δ} {s : String} {binding : Uuid} {now : Instant}
    {data : Uuid → Bool} {r : Consumption}
    (hrun : (consumeQqChallenge code (some s) binding now data).run (run db steps) = .ok (some r, db')) :
    (∃ x, (run db steps).challenges.lookup r.challengeId = some x ∧ x.code = code ∧
      (x.status = .completed s ∧ db' = run db steps ∨ x.status = .pending ∧ now < x.expiresAt ∧
        if r.consolidated = true then
          (run db steps).accountOf .qq s = some r.accountId ∧ Merged x.accountId r.accountId data (run db steps) db'
        else r.accountId = x.accountId ∧ db'.accounts = (run db steps).accounts)) ∧
    db'.accountOf .qq s = some r.accountId ∧ db'.accounts.lookup r.accountId = some true ∧
    ∃ x, db'.challenges.lookup r.challengeId = some x ∧ x.code = code ∧ x.status = .completed s := by
  have h := (run_laws h steps).1
  obtain ⟨_, id, x, ⟨⟩, hx, hcode, ⟨hs, rfl, a, ha, hr⟩ | ⟨-, -, hr, -⟩ | ⟨hp, hnow, c, hr, hpending⟩⟩ := consume_ok hrun
  · obtain rfl := Option.some.inj hr
    exact ⟨⟨x, hx, hcode, .inl ⟨hs, rfl⟩⟩, ha, h.active ha, x, hx, hcode, hs⟩
  · cases hr
  · obtain rfl := Option.some.inj hr
    obtain ⟨hlaws, hcloses, -, haccount, ⟨rfl, y, hy, hcompleted⟩, haccounts⟩ := consumePending_ok h hx hp hpending
    obtain ⟨x', hx', hsame, -⟩ := hcloses.back hy
    obtain rfl := Option.some.inj (hx'.symm.trans hx)
    exact ⟨⟨x', hx, hcode, .inr ⟨hp, hnow, haccounts⟩⟩, haccount, hlaws.active haccount, y, hy, hsame.trans hcode, hcompleted⟩

/-- A code that was consumed or cancelled, at any later time: for the subject that completed it, its consumption returns the
account that the subject had then and has now, which is active, and changes nothing; for everyone else it is refused. -/
theorem codes_closed {start : Store δ} (hstart : Laws start) (steps later : List (Step δ)) {id : Uuid} {x : Challenge δ}
    (hx : (run start steps).challenges.lookup id = some x) (hclosed : x.status ≠ .pending) (s : String)
    (binding : Uuid) (now : Instant) (data : Uuid → Bool) :
    let db := run start (steps ++ later)
    let result := (consumeQqChallenge x.code (some s) binding now data).run db
    if x.status = .completed s then
      ∃ a, (run start steps).accountOf .qq s = some a ∧ db.accountOf .qq s = some a ∧ db.accounts.lookup a = some true ∧
        result = .ok (some ⟨id, a, false⟩, db)
    else ∃ message, result = .error (.challengeNotFound message) := by
  intro db result
  have hbefore := (run_laws hstart steps).1
  have happend : db = run (run start steps) later := List.foldl_append
  obtain ⟨h, hkept⟩ : Laws db ∧ Kept (run start steps) db := by
    rw [happend]
    exact run_laws hbefore later
  have hthere : db.challenges.lookup id = some x := hkept.settled id x hx hclosed
  have hfind : db.challenges.entries.find? (fun e => e.2.code = x.code) = some ⟨id, x⟩ := by
    cases hfind : db.challenges.entries.find? fun e => e.2.code = x.code with
    | none =>
        have hno := List.find?_eq_none.mp hfind ⟨id, x⟩ (AList.mem_lookup_iff.mp hthere)
        simp at hno
    | some e =>
        have he := AList.mem_lookup_iff.mpr (List.mem_of_find?_eq_some hfind)
        obtain rfl := h.codes e.1 id e.2 x he hthere (by simpa using List.find?_some hfind)
        rw [← Option.some.inj (he.symm.trans hthere)]
  have hresult : result = (consumeQqChallenge x.code (some s) binding now data).run db := rfl
  simp only [consumeQqChallenge, StateT.run, bind, StateT.bind, Except.bind, Tx.demand, Tx.query, hfind] at hresult
  cases hstatus : x.status with
  | pending => exact absurd hstatus hclosed
  | cancelled =>
      rw [hstatus] at hresult
      exact ⟨_, hresult⟩
  | completed verified =>
      rw [hstatus] at hresult
      by_cases hs : verified = s
      · subst hs
        obtain ⟨j, y, hy, hp, rfl⟩ := hbefore.verified id x _ hx hstatus
        have hhad := hbefore.accountOf hy
        rw [hp] at hhad
        have haccount := hkept.accountOf h hhad
        simp only [StateT.bind, Tx.check, Tx.query, Tx.demand, haccount, bind, Except.bind, if_true] at hresult
        rw [if_pos rfl]
        exact ⟨_, hhad, haccount, h.active haccount, hresult⟩
      · simp only [StateT.bind, Tx.check, if_neg hs, bind, Except.bind] at hresult
        rw [if_neg (by simpa using hs)]
        exact ⟨_, hresult⟩

/-- **Identity bindings, for every order of commands.**  The laws hold, a code is completed by one subject only, a code that has
no pending challenge in time neither makes nor moves a binding, and a completed code changes nothing for the subject that
completed it. -/
theorem codes_bind_once {start : Store δ} (hstart : Laws start) (steps : List (Step δ)) :
    let db := run start steps
    Laws db ∧
    (∀ i x s, db.challenges.lookup i = some x → x.status = .completed s →
      ∀ later j y s', (run db later).challenges.lookup j = some y → y.code = x.code → y.status = .completed s' → s' = s) ∧
    (∀ code subject binding now data,
      (∀ i x, db.challenges.lookup i = some x → x.code = code → x.status = .pending → x.expiresAt ≤ now) →
      (step db (.consume code subject binding now data)).identities = db.identities ∧
        (step db (.consume code subject binding now data)).accounts = db.accounts) ∧
    ∀ i x s binding now data, db.challenges.lookup i = some x → x.status = .completed s →
      step db (.consume x.code (some s) binding now data) = db := by
  intro db
  have h : Laws db := (run_laws hstart steps).1
  refine ⟨h, ?_, ?_, ?_⟩
  · intro i x s hx hs later j y s' hy hcode hs'
    obtain ⟨hlater, hkept⟩ := run_laws h later
    have hx' := hkept.settled i x hx (by rw [hs]; nofun)
    obtain rfl := hlater.codes j i y x hy hx' hcode
    rw [Option.some.inj (hy.symm.trans hx'), hs] at hs'
    injection hs' with hs'
    exact hs'.symm
  · intro code subject binding now data hnone
    refine Tx.commit_rule (fun db' : Store δ => db'.identities = db.identities ∧ db'.accounts = db.accounts) ⟨rfl, rfl⟩
        fun r db' hrun => ?_
    obtain ⟨s, id, x, -, hx, hcode, ⟨-, rfl, -⟩ | ⟨-, -, -, rfl⟩ | ⟨hp, hnow, -⟩⟩ := consume_ok hrun
    · exact ⟨rfl, rfl⟩
    · exact ⟨rfl, rfl⟩
    · exact absurd (hnone id x hx hcode hp) (not_le.mpr hnow)
  · intro i x s binding now data hx hs
    refine Tx.commit_rule (fun db' => db' = db) rfl fun r db' hrun => ?_
    obtain ⟨_, id, y, -, hy, hcode, ⟨-, rfl, -⟩ | ⟨hp, -⟩ | ⟨hp, -⟩⟩ := consume_ok hrun
    · rfl
    all_goals
      obtain rfl := h.codes id i y x hy hx hcode
      rw [Option.some.inj (hy.symm.trans hx), hs] at hp
      cases hp

end bindings

/-! ### A Web account and a subject -/

/-- An account that has a QQ identity only. -/
def qqOnly : Store ℕ := ⟨(∅ : Table Uuid Bool).insert 2 true, (∅ : Table Uuid Identity).insert 20 ⟨2, .qq, "onebot11:42"⟩, [], ∅⟩

theorem qqOnly_laws : Laws qqOnly := by
  have hnone : Laws (δ := ℕ) ⟨(∅ : Table Uuid Bool).insert 2 true, ∅, [], ∅⟩ := by
    refine ⟨?_, ?_, ?_, ?_, ?_, ?_⟩
    · exact fun _ _ _ _ hx => absurd hx (by simp)
    · exact fun _ _ _ _ hx => absurd hx (by simp)
    · exact fun _ _ hx => absurd hx (by simp)
    · exact fun _ _ _ _ hx => absurd hx (by simp)
    · exact fun _ _ _ _ hx => absurd hx (by simp)
    · exact fun _ _ _ hx => absurd hx (by simp)
  exact hnone.identity rfl rfl fun _ _ hy => absurd hy (by simp)

/-- A Web account asks for a code. -/
def askedRun : List (Step ℕ) := [.register 1 10 "ann", .create true 1 5 7 100]

/-- The subject sends it in time. -/
def answeredRun : List (Step ℕ) := askedRun ++ [.consume 7 (some "onebot11:42") 11 50 fun _ => false]

theorem binding_laws_merged : Laws (run qqOnly answeredRun) ∧ (run qqOnly answeredRun).accountOf .qq "onebot11:42" = some 2 ∧
    (run qqOnly answeredRun).accountOf .web "ann" = some 2 ∧ (run qqOnly answeredRun).accounts.lookup 1 = some false := by
  obtain ⟨hlaws, hkept⟩ := binding_laws qqOnly_laws answeredRun
  exact ⟨hlaws, hkept _ _ rfl, rfl, rfl⟩

theorem consumption_binds_merged : ∃ x, (run qqOnly askedRun).challenges.lookup 5 = some x ∧
    Merged x.accountId 2 (fun _ => false) (run qqOnly askedRun) (run qqOnly answeredRun) := by
  have hrun : (consumeQqChallenge 7 (some "onebot11:42") 11 50 fun _ => false).run (run qqOnly askedRun) =
      .ok (some ⟨5, 2, true⟩, run qqOnly answeredRun) := rfl
  obtain ⟨⟨x, hx, -, ⟨hs, -⟩ | ⟨-, -, -, hmerged⟩⟩, -⟩ := consumption_binds qqOnly_laws askedRun hrun
  · have hasked : (run qqOnly askedRun).challenges.lookup 5 = some ⟨1, 7, 100, .pending⟩ := rfl
    obtain rfl := Option.some.inj (hasked.symm.trans hx)
    cases hs
  · exact ⟨x, hx, hmerged⟩

theorem codes_bind_once_merged : Laws (run qqOnly answeredRun) ∧
    step (run qqOnly answeredRun) (.consume 7 (some "onebot11:42") 12 999 fun _ => false) = run qqOnly answeredRun := by
  have hx : (run qqOnly answeredRun).challenges.lookup 5 = some ⟨2, 7, 100, .completed "onebot11:42"⟩ := rfl
  obtain ⟨hlaws, -, -, hagain⟩ := codes_bind_once qqOnly_laws answeredRun
  exact ⟨hlaws, hagain 5 _ _ 12 999 (fun _ => false) hx rfl⟩

theorem codes_closed_answered : (consumeQqChallenge 7 (some "onebot11:42") 12 999 fun _ => false).run
    (run qqOnly (answeredRun ++ [.register 3 30 "bob"])) = .ok (some ⟨5, 2, false⟩,
        run qqOnly (answeredRun ++ [.register 3 30 "bob"])) := by
  have hx : (run qqOnly answeredRun).challenges.lookup 5 = some ⟨2, 7, 100, .completed "onebot11:42"⟩ := rfl
  obtain ⟨a, ha, -, -, h⟩ := codes_closed qqOnly_laws answeredRun [.register 3 30 "bob"] hx (by decide) "onebot11:42" 12 999
      fun _ => false
  have haccount : (run qqOnly answeredRun).accountOf .qq "onebot11:42" = some 2 := rfl
  obtain rfl := Option.some.inj (haccount.symm.trans ha)
  exact h

end HpAgent.Accounts.Binding
