import HpAgent.Accounts.Holdings

/-! # What consolidation leaves behind

A consolidation is refused where one of the tables it asks has a row of the account, and their rows stay, except for the receipts.
The tables of the Workspace are not asked.

* `holds_iff`, `consolidate_ok`: what is asked, and what is done.
* `RowsKept`, `rows_run`: the rows of the data tables stay.
* `consolidation_strands_iff`: an account that owns something is merged exactly if it owns nothing but its Workspace. -/

namespace HpAgent.Accounts

open Library

section accounts

variable {δ : Type} {db db' : AccountStore δ}

/-! ### What an account owns -/

/-- A data table has a row of the account. -/
def Recorded (db : AccountStore δ) (account : Uuid) : Prop := ∃ table id, (db.rows table).lookup id = some account

/-- A receipt of the account is there. -/
def Receipted (db : AccountStore δ) (account : Uuid) : Prop := ∃ operation key digest, db.receipts.lookup (account, operation, key) = some digest

/-- The account has a file, or a Workspace entry that its Workspace did not start with. -/
def OwnsWorkspace (db : AccountStore δ) (account : Uuid) : Prop :=
  (∃ id n, db.catalog.nodes.lookup id = some n ∧ n.accountId = account ∧ id ∉ db.initial) ∨
    ∃ id f, db.catalog.files.lookup id = some f ∧ f.accountId = account

/-- The account has a row that its user created. -/
def Owns (db : AccountStore δ) (account : Uuid) : Prop := Recorded db account ∨ Receipted db account ∨ OwnsWorkspace db account

theorem holds_iff {account : Uuid} : db.holds account = true ↔ Recorded db account ∨ Receipted db account := by
  unfold AccountStore.holds
  rw [Bool.or_eq_true, List.any_eq_true, List.any_eq_true]
  apply or_congr
  · constructor
    · rintro ⟨table, _, hrow⟩
      obtain ⟨e, he, haccount⟩ := List.any_eq_true.mp hrow
      have howner : e.2 = account := of_decide_eq_true haccount
      refine ⟨table, e.1, ?_⟩
      rw [← howner]
      exact AList.mem_lookup_iff.mpr he
    · rintro ⟨table, id, hrow⟩
      refine ⟨table, ?_, List.any_eq_true.mpr ⟨⟨id, account⟩, AList.mem_lookup_iff.mp hrow, decide_eq_true rfl⟩⟩
      cases table <;> decide
  · constructor
    · rintro ⟨⟨⟨owner, operation, key⟩, digest⟩, he, haccount⟩
      have howner : owner = account := of_decide_eq_true haccount
      subst howner
      exact ⟨operation, key, digest, AList.mem_lookup_iff.mpr he⟩
    · rintro ⟨operation, key, digest, hreceipt⟩
      exact ⟨⟨(account, operation, key), digest⟩, AList.mem_lookup_iff.mp hreceipt, decide_eq_true rfl⟩

/-! ### What consolidation asks and does -/

/-- The identities allow a merge: the source has its Web identity, with a credential, and nothing else, and the target has none. -/
def Mergeable (db : AccountStore δ) (source target : Uuid) : Prop :=
  (db.identitiesOf source).length = 1 ∧ activeWeb (db.identitiesOf target) = [] ∧
    ∃ e, activeWeb (db.identitiesOf source) = [e] ∧ e.1 ∈ db.credentials

theorem consolidate_ok {source target challenge : Uuid} :
    (∃ u db', (consolidateEmptyWebAccount source target challenge).run db = .ok (u, db')) ↔
      Mergeable db source target ∧ db.holds source = false := by
  unfold consolidateEmptyWebAccount Mergeable
  constructor
  · rintro ⟨u, db', h⟩
    rw [Tx.bind_query_ok, Tx.bind_check_ok] at h
    obtain ⟨⟨hone, hweb⟩, h⟩ := h
    rw [Tx.bind_query_ok, Tx.bind_check_ok] at h
    obtain ⟨hother, h⟩ := h
    rw [Tx.bind_demand_ok] at h
    obtain ⟨binding, hbinding, h⟩ := h
    rw [Tx.bind_query_ok, Tx.bind_check_ok] at h
    obtain ⟨hcredential, h⟩ := h
    rw [Tx.bind_query_ok, Tx.bind_check_ok] at h
    obtain ⟨hdata, _⟩ := h
    obtain ⟨e, he⟩ := List.length_eq_one_iff.mp hweb
    refine ⟨⟨hone, hother, e, he, ?_⟩, hdata⟩
    rw [he] at hbinding
    cases hbinding
    exact List.contains_iff_mem.mp hcredential
  · rintro ⟨⟨hone, hother, e, he, hcredential⟩, hdata⟩
    refine ⟨(), db.merged source target challenge e.1, ?_⟩
    rw [Tx.bind_query_ok, Tx.bind_check_ok]
    refine ⟨⟨hone, by rw [he]; rfl⟩, ?_⟩
    rw [Tx.bind_query_ok, Tx.bind_check_ok]
    refine ⟨hother, ?_⟩
    rw [Tx.bind_demand_ok]
    refine ⟨e.1, by rw [he]; rfl, ?_⟩
    rw [Tx.bind_query_ok, Tx.bind_check_ok]
    refine ⟨List.contains_iff_mem.mpr hcredential, ?_⟩
    rw [Tx.bind_query_ok, Tx.bind_check_ok]
    exact ⟨hdata, rfl⟩

/-! ### Rows that stay -/

/-- The rows of the data tables stay. -/
def RowsKept (db db' : AccountStore δ) : Prop := ∀ table, Table.Extends (db.rows table) (db'.rows table)

instance : IsPreorder (AccountStore δ) RowsKept where
  refl _ _ := refl_of Table.Extends _
  trans _ _ _ h h' table := trans_of Table.Extends (h table) (h' table)

theorem insertRow_keeps (table : DataTable) (id account : Uuid) : Tx.Keeps RowsKept (insertRow table id account : AccountTx δ Unit) := by
  intro db u db' h
  unfold insertRow at h
  rw [Tx.bind_query_ok, Tx.bind_check_ok] at h
  obtain ⟨hfree, h⟩ := h
  obtain rfl := Tx.update_ok.mp h
  intro t
  show Table.Extends (db.rows t) (Function.update db.rows table ((db.rows table).insert id account) t)
  by_cases ht : t = table
  · subst ht
    rw [Function.update_self]
    apply Table.extends_insert
    simpa using hfree
  · rw [Function.update_of_ne ht]
    exact refl_of Table.Extends _

theorem claim_keeps [DecidableEq δ] (account : Uuid) (operation key : String) (digest : δ) : Tx.Keeps RowsKept (claim account operation key digest) := by
  unfold claim
  refine .bind (.query _) fun existing => ?_
  cases existing with
  | none => exact .bind (.update fun _ _ => refl_of Table.Extends _) fun _ => .pure _
  | some _ => exact .bind (.check _ _) fun _ => .pure _

variable [DecidableEq δ] (host : Workspace.Host δ)

theorem tx_keeps (x : Step δ) : Tx.Keeps RowsKept (x.tx host) := by
  have hupdate {f : AccountStore δ → AccountStore δ} (h : ∀ s, (f s).rows = s.rows) :
      Tx.Keeps RowsKept (Tx.update f : AccountTx δ Unit) := by
    apply Tx.Keeps.update
    intro s table
    rw [h]
    exact refl_of Table.Extends _
  cases x with
  | register _ _ => exact .bind (.query _) fun _ => .bind (.check _ _) fun _ => hupdate fun _ => rfl
  | bindQq _ _ => exact .bind (.query _) fun _ => .bind (.check _ _) fun _ => hupdate fun _ => rfl
  | createChallenge _ _ => exact hupdate fun _ => rfl
  | createConversation account key digest conversation =>
      apply Tx.Keeps.bind (claim_keeps account _ key digest)
      intro fresh
      cases fresh with
      | true => exact insertRow_keeps .conversations conversation account
      | false => exact .pure ()
  | acceptWork account work => exact insertRow_keeps .works work account
  | createArtifact account key digest artifact =>
      apply Tx.Keeps.bind (claim_keeps account _ key digest)
      intro fresh
      cases fresh with
      | true => exact insertRow_keeps .artifacts artifact account
      | false => exact .pure ()
  | write table id account => exact insertRow_keeps table id account
  | openWorkspace account workspace root first second third =>
      refine .bind (.query _) fun active => .bind (.check _ _) fun _ => .bind (.query _) fun existing => ?_
      cases existing with
      | some _ => exact .pure ()
      | none =>
          refine .bind ?_ fun _ => hupdate fun _ => rfl
          intro s u s' hs
          obtain ⟨t, _, rfl⟩ := Tx.within_ok.mp hs
          exact fun _ => refl_of Table.Extends _
  | createWorkspaceUpload account key digest file expiresAt =>
      apply Tx.Keeps.bind (claim_keeps account _ key digest)
      intro fresh
      cases fresh with
      | true =>
          exact .bind (.query _) fun _ => .bind (.demand _ _) fun _ => .bind (.query _) fun _ => .bind (.check _ _) fun _ =>
            hupdate fun _ => rfl
      | false => exact .pure ()
  | catalog _ => exact hupdate fun _ => rfl
  | expireReceipts _ => exact hupdate fun _ => rfl
  | consolidate source target challenge =>
      exact .bind (.query _) fun _ => .bind (.check _ _) fun _ => .bind (.query _) fun _ => .bind (.check _ _) fun _ =>
        .bind (.demand _ _) fun _ => .bind (.query _) fun _ => .bind (.check _ _) fun _ => .bind (.query _) fun _ =>
        .bind (.check _ _) fun _ => hupdate fun _ => rfl

/-- Rows of the data tables stay to the end of a run. -/
theorem rows_run (db : AccountStore δ) (steps : List (Step δ)) : RowsKept db (steps.foldl (step host) db) := by
  induction steps generalizing db with
  | nil => exact refl_of RowsKept db
  | cons x rest ih => exact trans_of RowsKept ((tx_keeps host x).commit db) (ih _)

/-! ### Consolidation in a run -/

/-- A consolidation that succeeds leaves nothing behind. -/
def StrandsNothing (db : AccountStore δ) (source target challenge : Uuid) : Prop :=
  ∀ u db', (consolidateEmptyWebAccount source target challenge).run db = .ok (u, db') → ¬ Owns db source

/-- **Consolidation.**  Rows are left behind exactly if the identities allow the merge and the account owns something in its
Workspace and nothing else.  An account that ever had a row of a data table is always refused, and a refusal changes nothing. -/
theorem consolidation_strands_iff (steps : List (Step δ)) (source target challenge : Uuid) :
    (StrandsNothing (run host steps) source target challenge ↔
        Recorded (run host steps) source ∨ Receipted (run host steps) source ∨ ¬ OwnsWorkspace (run host steps) source ∨
          ¬ Mergeable (run host steps) source target) ∧
      (∀ before after, steps = before ++ after → Recorded (run host before) source →
        step host (run host steps) (.consolidate source target challenge) = run host steps) ∧
      ∀ e, (consolidateEmptyWebAccount source target challenge).run (run host steps) = .error e →
        step host (run host steps) (.consolidate source target challenge) = run host steps := by
  have hrefused (db : AccountStore δ) (e : AccountError) (h : (consolidateEmptyWebAccount source target challenge).run db = .error e) :
      step host db (.consolidate source target challenge) = db := by
    show (consolidateEmptyWebAccount source target challenge).commit db = db
    unfold Tx.commit
    rw [h]
  refine ⟨?_, ?_, hrefused _⟩
  · constructor
    · intro hstrands
      by_contra hnone
      simp only [not_or, not_not] at hnone
      obtain ⟨hrows, hreceipts, hworkspace, hmerge⟩ := hnone
      have hfree : (run host steps).holds source = false := by
        apply Bool.eq_false_of_not_eq_true
        rw [holds_iff]
        exact not_or.mpr ⟨hrows, hreceipts⟩
      obtain ⟨u, db', hok⟩ := (@consolidate_ok δ (run host steps) source target challenge).mpr ⟨hmerge, hfree⟩
      exact hstrands u db' hok (.inr (.inr hworkspace))
    · intro hcases u db' hok howns
      obtain ⟨hmerge, hfree⟩ := consolidate_ok.mp ⟨u, db', hok⟩
      have hnone : ¬ (Recorded (run host steps) source ∨ Receipted (run host steps) source) := by
        rw [← holds_iff, hfree]
        exact Bool.false_ne_true
      rcases hcases with hrows | hreceipts | hworkspace | hunmerged
      · exact hnone (.inl hrows)
      · exact hnone (.inr hreceipts)
      · rcases howns with hrows | hreceipts | howned
        · exact hnone (.inl hrows)
        · exact hnone (.inr hreceipts)
        · exact hworkspace howned
      · exact hunmerged hmerge
  · rintro before after rfl ⟨table, id, hrow⟩
    have hkept : Recorded (run host (before ++ after)) source := by
      refine ⟨table, id, ?_⟩
      have hrun : run host (before ++ after) = after.foldl (step host) (run host before) := List.foldl_append ..
      rw [hrun]
      exact rows_run host (run host before) after table id source hrow
    cases hresult : (consolidateEmptyWebAccount source target challenge).run (run host (before ++ after)) with
    | error e => exact hrefused _ e hresult
    | ok p =>
        obtain ⟨_, hfree⟩ := consolidate_ok.mp ⟨p.1, p.2, hresult⟩
        have hheld := holds_iff.mpr (.inl hkept)
        rw [hfree] at hheld
        cases hheld

end accounts

/-! ### A Workspace that is left behind -/

/-- Names as they are. -/
def plainHost : Workspace.Host ℕ := ⟨id, id, id, fun _ => 0⟩

/-- A Web account with a directory, and the account of a QQ identity. -/
def strandedRun : List (Step ℕ) :=
  [.register 1 10, .bindQq 2 20, .openWorkspace 1 100 101 102 103 104, .catalog (.createDirectory (.ok ()) "notes" 105 1 101)]

/-- The account is merged and its directory is left behind. -/
theorem consolidation_strands_directory :
    (∃ u db', (consolidateEmptyWebAccount 1 2 5).run (run plainHost strandedRun) = .ok (u, db') ∧ db'.accounts.lookup 1 = some false) ∧
      Owns (run plainHost strandedRun) 1 := by
  constructor
  · refine ⟨(), (run plainHost strandedRun).merged 1 2 5 10, ?_, ?_⟩
    · rfl
    · rfl
  · exact .inr (.inr (.inl ⟨105, ⟨1, 100, some 101, .directory, "notes", "notes", none, none, false⟩, rfl, rfl, by decide⟩))

/-- The account that has created a conversation is refused, with a directory or without. -/
theorem consolidation_strands_iff_conversation :
    StrandsNothing (run plainHost (strandedRun ++ [.createConversation 1 "key" 7 200])) 1 2 5 ∧
      step plainHost (run plainHost (strandedRun ++ [.createConversation 1 "key" 7 200])) (.consolidate 1 2 5) =
        run plainHost (strandedRun ++ [.createConversation 1 "key" 7 200]) := by
  have hrow : Recorded (run plainHost (strandedRun ++ [.createConversation 1 "key" 7 200])) 1 := ⟨.conversations, 200, rfl⟩
  obtain ⟨hiff, hrefused, _⟩ := consolidation_strands_iff plainHost (strandedRun ++ [.createConversation 1 "key" 7 200]) 1 2 5
  exact ⟨hiff.mpr (.inl hrow), hrefused _ [] (List.append_nil _).symm hrow⟩

end HpAgent.Accounts
