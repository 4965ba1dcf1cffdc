import HpAgent.Budget.Dispatch

/-! # Runs of the model dispatch

The step lemma `Step.dispatching` and what the invariant says of a whole run.

* `dispatch_owned`: a request is sent at most once, by the caller that inserted its marker under an open
  reservation; when it is sent the reservation is open or settled by terminal recovery; a dispatched
  reservation is never released, and a released one never dispatched later.
* `sent_after_recovery`: terminal recovery may settle the reservation between the marker and the send. -/

namespace HpAgent.Budget

open Library

/-! ### Background steps -/

section background

variable {db db' : Ledgers}

theorem Background.modelStep (h : Background db db') : ModelStep db db' := by
  cases h with
  | recover run => exact .call (.recover run) trivial
  | createRunBudget run mode limits reserve => exact .createRunBudget run mode limits reserve
  | createWorkBudget account work limits => exact .createWorkBudget account work limits
  | changeWorkLimits account work limits => exact .changeWorkLimits account work limits
  | surroundings authority invocations hruns => exact .surroundings authority invocations hruns

/-- A transaction moves rows as its successful runs do. -/
theorem commit_moves {α : Type} {closes : Closing} {m : BudgetTx α}
    (hm : ∀ a db', m.run db = .ok (a, db') → AccountMoves closes db db') : AccountMoves closes db (m.commit db) := by
  unfold Tx.commit
  cases h : m.run db with
  | ok p => exact hm p.1 p.2 h
  | error e => exact refl_of (AccountMoves closes) db

theorem Background.rows (h : Background db db') :
    (∀ key row, db.accountUsage.lookup key = some row → db'.accountUsage.lookup key = some row ∨
      ∃ row', db'.accountUsage.lookup key = some row' ∧ ClosedAs (closesRecovered db) key row row') ∧
    db'.snapshots = db.snapshots ∧ db'.dispatches = db.dispatches := by
  have hmoves : ∀ {db'}, AccountMoves (closesRecovered db) db db' → (∀ key row, db.accountUsage.lookup key = some row →
      db'.accountUsage.lookup key = some row ∨
        ∃ row', db'.accountUsage.lookup key = some row' ∧ ClosedAs (closesRecovered db) key row row') ∧
      db'.snapshots = db.snapshots ∧ db'.dispatches = db.dispatches :=
    fun hm => ⟨hm.rows, hm.same.snapshots, hm.same.dispatches⟩
  cases h with
  | recover run => exact hmoves (commit_moves fun _ _ h => Coordinator.recoverTerminalInUow_moves _ h)
  | createRunBudget run mode limits reserve =>
      refine hmoves (commit_moves fun _ _ h => ?_)
      unfold RunBudget.createSnapshot at h
      rw [Tx.bind_query_ok, Tx.bind_check_ok] at h
      obtain rfl := Tx.update_ok.mp h.2
      exact .of_runSide rfl
  | createWorkBudget account work limits =>
      refine hmoves (commit_moves fun _ _ h => ?_)
      unfold WorkBudget.create at h
      rw [Tx.bind_query_ok, Tx.bind_check_ok] at h
      obtain rfl := Tx.update_ok.mp h.2
      exact .of_unchanged rfl ⟨rfl, rfl, rfl⟩
  | changeWorkLimits account work limits =>
      refine hmoves (commit_moves fun _ _ h => ?_)
      obtain rfl := Tx.update_ok.mp h
      exact .of_unchanged rfl ⟨rfl, rfl, rfl⟩
  | surroundings authority invocations hruns => exact ⟨fun _ _ hrow => .inl hrow, rfl, rfl⟩

end background

/-! ### One step -/

section steps

variable {w : World} {i : ℕ} {a : Attempt} {id : Uuid} {day : Date} {db : Ledgers}

theorem Dispatching.background (h : Dispatching w) (hb : Background w.db db) : Dispatching { w with db := db } := by
  obtain ⟨hrows, hsnap, hdisp⟩ := hb.rows
  refine h.carry (closesRecovered w.db) rfl
    (hb.modelStep.coordinated h.coordinated) hrows (fun id s hs => by rw [← hs, ← hsnap]) hdisp
    (fun j a p hat => .inl hat) ⟨fun id s day row row' hs hd hrow hclosed => ?_,
      fun j a id day day' row row' hat hrow hclosed => ?_⟩
  · -- the row of a dispatched snapshot is settled
    unfold closesRecovered at hclosed
    rw [h.coordinated.row_snapshot hs hrow, Option.any_some, if_pos hd] at hclosed
    rw [hclosed.1]
    nofun
  · obtain ⟨hm, _⟩ := h.owner j a id day hat
    obtain ⟨s, hs, haccount, _, hop⟩ := h.snapshotFor j a _ id hat rfl
    obtain ⟨s', hs', hd⟩ := h.markedDispatched j id hm
    obtain rfl := Option.some.inj (hs.symm.trans hs')
    rw [haccount] at hd
    have hallowed := hclosed.allowed
    unfold closesRecovered at hallowed
    rw [h.coordinated.row_snapshot hs (by rw [hop, hrow]), Option.any_some, if_pos hd, ← hclosed.tokens] at hallowed
    exact .inr hallowed

theorem Dispatching.freeze {now : Instant} {fresh : Uuid} {p : Phase} (h : Dispatching w)
    (hrun : (a.freeze now fresh).run w.db = .ok (id, db))
    (hown : ∀ id s, w.db.snapshots.lookup id = some s → s.operationId = a.operation → s.runId = a.run)
    (hp : p = .frozen id ∨ p = Phase.begun.raised) : Dispatching (w.move i a p db) := by
  have hc : Coordinated db := h.coordinated.freeze hown hrun
  have hdb : (∀ id s, w.db.snapshots.lookup id = some s → db.snapshots.lookup id = some s) ∧
      db.accountUsage = w.db.accountUsage ∧ db.dispatches = w.db.dispatches ∧ SnapshotFor db a id := by
    obtain ⟨_, ⟨rfl, row, hold⟩ | ⟨rfl, _, hfresh, rfl⟩⟩ := Snapshots.freeze_ok hrun
    · obtain ⟨hs, hfor⟩ := Snapshots.ofOperation_some hold
      exact ⟨fun _ _ hs => hs, rfl, rfl, row, hs, hfor⟩
    · refine ⟨fun j s hs => ?_, rfl, rfl, _, AList.lookup_insert _, rfl, rfl, rfl⟩
      rw [Table.lookup_insert_ite, if_neg]
      · exact hs
      · rintro rfl
        rw [hfresh] at hs
        cases hs
  obtain ⟨hsnap, haccount, hdisp, hfor⟩ := hdb
  have hnew : Enters (w.move i a p db) i a p := by
    rcases hp with rfl | rfl
    · refine ⟨nofun, fun id' hid => ?_, nofun⟩
      obtain rfl := Option.some.inj hid
      exact hfor
    · exact .finished
  refine h.carry closesNothing rfl hc (fun key row hrow => .inl ?_) hsnap hdisp (callers_move hnew) spares_nothing
  rw [World.move, haccount, hrow]

theorem Dispatching.reserve {now : Instant} {r : AccountMutation × Mutation} {p : Phase} (h : Dispatching w)
    (hat : w.callers i = some (a, .frozen id)) (hrun : (a.reserve now id).run w.db = .ok (r, db))
    (hp : p = .afterReserve id r ∨ p = (Phase.frozen id).raised) : Dispatching (w.move i a p db) := by
  obtain ⟨s, hs, hfor⟩ := h.snapshotFor i a _ id hat rfl
  have hc : Coordinated db := by
    refine Coordinator.reserve_coordinated ?_ hs hfor h.coordinated hrun
    rfl
  have hm : AccountMoves closesNothing w.db db := Coordinator.reserve_moves _ _ _ _ _ _ _ _ _ hrun
  refine h.move _ hc hm ?_ spares_nothing
  rcases hp with rfl | rfl
  · unfold Phase.afterReserve
    split
    · exact .finished
    · refine ⟨nofun, fun id' hid => ?_, nofun⟩
      obtain rfl := Option.some.inj hid
      exact SnapshotFor.of_same ⟨s, hs, hfor⟩ hm.same
  · exact .finished

theorem marked_cons {e : Event} {log : List Event} {j : ℕ} {id' : Uuid} :
    Marked (e :: log) j id' ↔ (∃ row, e = .marked j id' row) ∨ Marked log j id' := by
  unfold Marked
  simp only [List.mem_cons, exists_or, eq_comm]

theorem sent_cons {e : Event} {log : List Event} {j : ℕ} {id' : Uuid} :
    Sent (e :: log) j id' ↔ (∃ row, e = .sent j id' row) ∨ Sent log j id' := by
  unfold Sent
  simp only [List.mem_cons, exists_or, eq_comm]

/-- Nobody has marked a snapshot that is not dispatched. -/
theorem Dispatching.unmarked {s : Snapshot} (h : Dispatching w) (hs : w.db.snapshots.lookup id = some s)
    (hfresh : Coordinator.dispatched w.db s.accountId id = false) (j : ℕ) : ¬Marked w.log j id := by
  intro hm
  obtain ⟨s', hs', hd⟩ := h.markedDispatched j id hm
  obtain rfl := Option.some.inj (hs.symm.trans hs')
  rw [hfresh] at hd
  cases hd

/-- Whoever has sent a snapshot has marked it. -/
theorem Dispatching.marked_of_sent {j : ℕ} (h : Dispatching w) (hsent : Sent w.log j id) : Marked w.log j id := by
  obtain ⟨row, hmem⟩ := hsent
  obtain ⟨l₁, l₂, hlog⟩ := List.append_of_mem hmem
  obtain ⟨⟨row', hmarked, _⟩, _⟩ := h.sendMarked l₁ l₂ j id row hlog
  refine ⟨some row', ?_⟩
  rw [hlog]
  exact List.mem_append_right _ (List.mem_cons_of_mem _ hmarked)

/-- The marker is the only one that is new. -/
theorem dispatched_insert {account account' id' : Uuid} : Coordinator.dispatched
      { db with dispatches := db.dispatches.insert (account, id) () } account' id' = true ↔
    (account' = account ∧ id' = id) ∨ Coordinator.dispatched db account' id' = true := by
  unfold Coordinator.dispatched
  dsimp only
  rw [Table.lookup_insert_ite]
  by_cases hk : (account', id') = (account, id)
  · rw [if_pos hk]
    obtain ⟨rfl, rfl⟩ := Prod.mk.inj hk
    simp
  · rw [if_neg hk]
    constructor
    · exact .inr
    · rintro (⟨rfl, rfl⟩ | hd)
      · exact absurd rfl hk
      · exact hd

/-- **The marker.** It is inserted once, under an open reservation, and its caller has not sent anything. -/
theorem Dispatching.mark {shouldSettle : Bool} {now : Instant} {p : Phase} (h : Dispatching w)
    (hat : w.callers i = some (a, .reserved id day shouldSettle))
    (hrun : (a.markDispatched now id).run w.db = .ok ((), db))
    (hp : p = .owned id day ∨ p = (Phase.reserved id day shouldSettle).raised) :
    Dispatching ((w.move i a p db).record (.marked i id (reservationOf w.db a.account a.operation))) := by
  obtain ⟨s₀, day₀, row₀, hs₀, haccount₀, hrow₀, hstate₀, hfresh, _, rfl⟩ := Snapshots.markDispatched_ok hrun
  obtain ⟨s, hs, haccount, hrun₀, hop⟩ := h.snapshotFor i a _ id hat rfl
  obtain rfl := Option.some.inj (hs.symm.trans hs₀)
  rw [hop] at hrow₀
  have hreservation := h.coordinated.reservationOf_eq hrow₀
  have hunmarked : ∀ j, ¬Marked w.log j id := h.unmarked hs (by rw [haccount, hfresh])
  have hmarks : ∀ j id', Marked (.marked i id (reservationOf w.db a.account a.operation) :: w.log) j id' →
      (j = i ∧ id' = id) ∨ Marked w.log j id' := by
    intro j id' hm
    obtain ⟨row, heq⟩ | hold := marked_cons.mp hm
    · cases heq
      exact .inl ⟨rfl, rfl⟩
    · exact .inr hold
  have hphase : p.snapshot = some id ∧ p.requestOut = false := by
    rcases hp with rfl | rfl <;> exact ⟨rfl, rfl⟩
  constructor
  case coordinated =>
    exact h.coordinated.of_sameRows ⟨h.coordinated.conserved.run, h.coordinated.conserved.work,
      h.coordinated.conserved.account⟩ rfl rfl rfl rfl rfl
  case snapshotFor =>
    intro j a' p' id' hat' hid
    rcases callers_cases hat' with ⟨rfl, rfl, rfl⟩ | ⟨_, hold⟩
    · obtain rfl := Option.some.inj (hphase.1.symm.trans hid)
      exact ⟨s, hs, haccount, hrun₀, hop⟩
    · exact h.snapshotFor j a' p' id' hold hid
  case markedDispatched =>
    intro j id' hm
    rcases hmarks j id' hm with ⟨rfl, rfl⟩ | hold
    · exact ⟨s, hs, dispatched_insert.mpr (.inl ⟨haccount, rfl⟩)⟩
    · obtain ⟨s', hs', hd⟩ := h.markedDispatched j id' hold
      exact ⟨s', hs', dispatched_insert.mpr (.inr hd)⟩
  case dispatchedFrozen =>
    intro account id' hd
    rcases dispatched_insert.mp hd with ⟨rfl, rfl⟩ | hold
    · exact ⟨s, hs, haccount⟩
    · exact h.dispatchedFrozen account id' hold
  case markedRow =>
    intro j id' row hmem
    rcases List.mem_cons.mp hmem with heq | hmem
    · cases heq
      exact ⟨row₀, hreservation, hstate₀⟩
    · exact h.markedRow j id' row hmem
  case markedOnce =>
    intro j k id' hj hk
    rcases hmarks j id' hj with ⟨hji, hid⟩ | hj'
    · rcases hmarks k id' hk with ⟨hki, _⟩ | hk'
      · rw [hji, hki]
      · exact absurd (hid ▸ hk') (hunmarked k)
    · rcases hmarks k id' hk with ⟨_, hid⟩ | hk'
      · exact absurd (hid ▸ hj') (hunmarked j)
      · exact h.markedOnce j k id' hj' hk'
  case notReleased =>
    intro id' s' hs' hd
    rcases dispatched_insert.mp hd with ⟨_, rfl⟩ | hold
    · obtain rfl := Option.some.inj (hs.symm.trans hs')
      refine ⟨day₀, row₀, ?_, by rw [hstate₀]; nofun⟩
      rw [haccount, hop]
      exact hrow₀
    · exact h.notReleased id' s' hs' hold
  case owner =>
    intro j a' id' day' hat'
    have hsents : ∀ k id', Sent (.marked i id (reservationOf w.db a.account a.operation) :: w.log) k id' → Sent w.log k id' :=
      fun k id' hsent => (sent_cons.mp hsent).resolve_left nofun
    rcases callers_cases hat' with ⟨rfl, rfl, hphase'⟩ | ⟨_, hold⟩
    · obtain rfl : id' = id := by
        rw [← hphase'] at hphase
        exact Option.some.inj hphase.1
      exact ⟨⟨_, List.mem_cons_self⟩, fun hsent => hunmarked j (h.marked_of_sent (hsents j id' hsent)), day₀, row₀, hrow₀,
        .inl hstate₀⟩
    · obtain ⟨hm, hs, hrest⟩ := h.owner j a' id' day' hold
      exact ⟨marked_cons.mpr (.inr hm), fun hs' => hs (hsents j id' hs'), hrest⟩
  case requestOut =>
    intro j a' p' id' hat' hout hid
    rcases callers_cases hat' with ⟨rfl, rfl, rfl⟩ | ⟨_, hold⟩
    · rw [hphase.2] at hout
      cases hout
    · exact marked_cons.mpr (.inr (h.requestOut j a' p' id' hold hout hid))
  case sendMarked =>
    intro l₁ l₂ j id' row hlog
    cases l₁ with
    | nil => cases hlog
    | cons e l₁ => exact h.sendMarked l₁ l₂ j id' row (List.cons.inj hlog).2
  case sentOnce => exact h.sentOnce

/-- **The send.** Its caller owns the marker, and nobody has sent the request before. -/
theorem Dispatching.send (h : Dispatching w) (hat : w.callers i = some (a, .owned id day)) :
    Dispatching ((w.move i a (.sent id day) w.db).record (.sent i id (reservationOf w.db a.account a.operation))) := by
  obtain ⟨hmarked, hunsent, day₀, row₀, hrow₀, hopen⟩ := h.owner i a id day hat
  have hreservation := h.coordinated.reservationOf_eq hrow₀
  have hmarks : ∀ j id', Marked (.sent i id (reservationOf w.db a.account a.operation) :: w.log) j id' → Marked w.log j id' :=
    fun j id' hm => (marked_cons.mp hm).resolve_left nofun
  constructor
  case coordinated => exact h.coordinated
  case snapshotFor =>
    intro j a' p' id' hat' hid
    rcases callers_cases hat' with ⟨rfl, rfl, rfl⟩ | ⟨_, hold⟩
    · exact h.snapshotFor j a' _ id' hat hid
    · exact h.snapshotFor j a' p' id' hold hid
  case markedDispatched => exact fun j id' hm => h.markedDispatched j id' (hmarks j id' hm)
  case dispatchedFrozen => exact h.dispatchedFrozen
  case markedRow =>
    intro j id' row hmem
    rcases List.mem_cons.mp hmem with heq | hmem
    · cases heq
    · exact h.markedRow j id' row hmem
  case markedOnce => exact fun j k id' hj hk => h.markedOnce j k id' (hmarks j id' hj) (hmarks k id' hk)
  case notReleased => exact h.notReleased
  case owner =>
    intro j a' id' day' hat'
    rcases callers_cases hat' with ⟨_, _, hbad⟩ | ⟨hj, hold⟩
    · cases hbad
    · obtain ⟨hm, hs, hrest⟩ := h.owner j a' id' day' hold
      refine ⟨marked_cons.mpr (.inr hm), fun hsent => ?_, hrest⟩
      obtain ⟨row, heq⟩ | hsent := sent_cons.mp hsent
      · cases heq
        exact hj rfl
      · exact hs hsent
  case requestOut =>
    intro j a' p' id' hat' hout hid
    refine marked_cons.mpr (.inr ?_)
    rcases callers_cases hat' with ⟨rfl, rfl, rfl⟩ | ⟨_, hold⟩
    · obtain rfl := Option.some.inj hid
      exact hmarked
    · exact h.requestOut j a' p' id' hold hout hid
  case sendMarked =>
    intro l₁ l₂ j id' row hlog
    cases l₁ with
    | nil =>
        obtain ⟨rowm, hmem⟩ := hmarked
        obtain ⟨row', rfl, hstate⟩ := h.markedRow i id rowm hmem
        cases hlog
        exact ⟨⟨row', hmem, hstate⟩, row₀, hreservation, hopen⟩
    | cons e l₁ => exact h.sendMarked l₁ l₂ j id' row (List.cons.inj hlog).2
  case sentOnce =>
    refine List.nodup_cons.mpr ⟨fun hmem => ?_, h.sentOnce⟩
    -- an earlier send would be by the owner of the marker, which is this caller
    obtain ⟨e, he, hsent⟩ := List.mem_filterMap.mp (show id ∈ w.log.filterMap Event.sentSnapshot from hmem)
    cases e with
    | marked _ _ _ => cases hsent
    | sent j id' row =>
        obtain rfl := Option.some.inj hsent
        obtain rfl := h.markedOnce j i id' (h.marked_of_sent ⟨row, he⟩) hmarked
        exact hunsent ⟨row, he⟩

/-- **One step keeps the invariant.** -/
theorem Step.dispatching {w' : World} (hstep : Step w w') (h : Dispatching w) : Dispatching w' := by
  cases hstep with
  | begin a hfree => exact h.move_quiet ⟨nofun, nofun, nofun⟩
  | freeze now fresh p hat hrun hown hp => exact h.freeze hrun hown hp
  | reserve now p hat hrun hp => exact h.reserve hat hrun hp
  | mark now p hat hrun hp => exact h.mark hat hrun hp
  | @markConflict i a id day shouldSettle now message hat hrun =>
      refine h.move_quiet ⟨nofun, fun id' hid => ?_, nofun⟩
      exact h.snapshotFor i a _ id' hat hid
  | send hat => exact h.send hat
  | @settle i a id day input output total source r db p hat hrun hp =>
      obtain ⟨hsame, hc⟩ := Coordinator.settle_coordinated RunBudget.clampsNegative_max h.coordinated hrun
      refine h.move_settle hat rfl rfl hc (Coordinator.settle_moves _ _ _ _ _ _ _ _ _ hrun) ?_
      rcases hp with rfl | rfl
      · exact .finished
      · exact .raised h hat fun id s hs => by rw [hsame.snapshots, hs]
  | @settleFailed i a id day r db hat hrun =>
      obtain ⟨_, hc⟩ := Coordinator.settle_coordinated RunBudget.clampsNegative_max h.coordinated hrun
      exact h.move_settle hat rfl rfl hc (Coordinator.settle_moves _ _ _ _ _ _ _ _ _ hrun) .finished
  | @releaseFailed i a id day r db hat hrun =>
      obtain ⟨_, hc⟩ := Coordinator.release_coordinated RunBudget.clampsNegative_max h.coordinated hrun
      have hfor := h.snapshotFor i a _ id hat rfl
      have hnone := hfor.undispatched (Coordinator.release_undispatched _ hrun)
      refine h.move _ hc (Coordinator.release_moves _ _ _ _ _ _ hrun) .finished
        ⟨fun id' s _ _ _ hs hd _ hclosed => ?_, fun j a' id' _ _ _ _ hown _ hclosed => ?_⟩
      · -- a dispatched row of this operation would be this attempt's, which has no marker
        obtain ⟨s', hs', haccount, _, hop⟩ := hfor
        obtain rfl := h.coordinated.frozen.unique _ _ _ _ hs hs' (hclosed.2.1.trans hop.symm)
        have hacc : s.accountId = a.account := hclosed.1
        rw [hacc, hnone] at hd
        cases hd
      · have hown' := h.snapshotFor j a' _ id' hown rfl
        obtain ⟨rfl, haccount, _⟩ := hown'.unique h.coordinated hfor hclosed.allowed.2.1
        obtain ⟨s, hs, hd⟩ := h.markedDispatched j id' (h.owner j a' id' _ hown).1
        obtain ⟨s', hs', hacc, _⟩ := hown'
        obtain rfl := Option.some.inj (hs.symm.trans hs')
        rw [hacc, haccount, hnone] at hd
        cases hd
  | raise hat => exact h.move_quiet (.raised h hat fun _ _ hs => hs)
  | crash hat => exact h.move_quiet .finished
  | background hb => exact h.background hb

end steps

/-! ### Runs -/

theorem dispatching_start (authority : Authority) : Dispatching (World.start authority) where
  coordinated := coordinated_start authority
  snapshotFor _ _ _ _ hat := by cases hat
  markedDispatched _ _ hm := by obtain ⟨_, hmem⟩ := hm; cases hmem
  dispatchedFrozen _ _ hd := by cases hd
  markedRow _ _ _ hmem := by cases hmem
  markedOnce _ _ _ hm := by obtain ⟨_, hmem⟩ := hm; cases hmem
  notReleased _ _ hs := by cases hs
  owner _ _ _ _ hat := by cases hat
  requestOut _ _ _ _ hat := by cases hat
  sendMarked l₁ _ _ _ _ hlog := by cases l₁ <;> cases hlog
  sentOnce := List.nodup_nil

/-- Every reachable world satisfies the invariant. -/
theorem World.Reachable.dispatching {authority : Authority} {w : World} (h : World.Reachable authority w) :
    Dispatching w := by
  induction h with
  | refl => exact dispatching_start authority
  | tail _ hstep ih => exact hstep.dispatching ih

/-- Closed rows and snapshots stay through a step. -/
theorem Step.stays {w w' : World} (hstep : Step w w') :
    (∀ key row, w.db.accountUsage.lookup key = some row → row.state ≠ .reserved →
      w'.db.accountUsage.lookup key = some row) ∧
    ∀ id s, w.db.snapshots.lookup id = some s → w'.db.snapshots.lookup id = some s := by
  have hmoves : ∀ {closes : Closing} {db}, AccountMoves closes w.db db →
      (∀ key row, w.db.accountUsage.lookup key = some row → row.state ≠ .reserved →
        db.accountUsage.lookup key = some row) ∧
      ∀ id s, w.db.snapshots.lookup id = some s → db.snapshots.lookup id = some s := by
    intro closes db hm
    refine ⟨fun key row hrow hstate => ?_, fun id s hs => by rw [hm.same.snapshots, hs]⟩
    rcases hm.rows key row hrow with hkept | ⟨_, _, hclosed⟩
    · exact hkept
    · exact absurd hclosed.was hstate
  cases hstep with
  | freeze now fresh p hat hrun hown hp =>
      obtain ⟨_, ⟨rfl, _⟩ | ⟨_, _, hfresh, rfl⟩⟩ := Snapshots.freeze_ok hrun
      · exact ⟨fun _ _ hrow _ => hrow, fun _ _ hs => hs⟩
      · refine ⟨fun _ _ hrow _ => hrow, fun j s hs => ?_⟩
        refine (Table.lookup_insert_ite _ _ _ _).trans ?_
        rw [if_neg]
        · exact hs
        · rintro rfl
          rw [hfresh] at hs
          cases hs
  | reserve now p hat hrun hp =>
      have hm : AccountMoves closesNothing w.db _ := Coordinator.reserve_moves _ _ _ _ _ _ _ _ _ hrun
      exact hmoves hm
  | mark now p hat hrun hp =>
      obtain ⟨_, _, _, _, _, _, _, _, _, rfl⟩ := Snapshots.markDispatched_ok hrun
      exact ⟨fun _ _ hrow _ => hrow, fun _ _ hs => hs⟩
  | settle input output total source p hat hrun hp => exact hmoves (Coordinator.settle_moves _ _ _ _ _ _ _ _ _ hrun)
  | settleFailed hat hrun => exact hmoves (Coordinator.settle_moves _ _ _ _ _ _ _ _ _ hrun)
  | releaseFailed hat hrun => exact hmoves (Coordinator.release_moves _ _ _ _ _ _ hrun)
  | background hb =>
      obtain ⟨hrows, hsnap, _⟩ := hb.rows
      refine ⟨fun key row hrow hstate => ?_, fun id s hs => by rw [← hs, ← hsnap]⟩
      rcases hrows key row hrow with hkept | ⟨_, _, hclosed⟩
      · exact hkept
      · exact absurd hclosed.was hstate
  | _ => exact ⟨fun _ _ hrow _ => hrow, fun _ _ hs => hs⟩

/-- A released reservation stays, in every later world. -/
theorem released_stays {w w' : World} (h : Dispatching w) (hrun : Relation.ReflTransGen Step w w') {id : Uuid}
    {s : Snapshot} {key : AccountUsageKey} {row : AccountUsage} (hs : w.db.snapshots.lookup id = some s)
    (hrow : w.db.accountUsage.lookup key = some row) (hstate : row.state = .released) :
    Dispatching w' ∧ w'.db.snapshots.lookup id = some s ∧ w'.db.accountUsage.lookup key = some row := by
  induction hrun with
  | refl => exact ⟨h, hs, hrow⟩
  | tail _ hstep ih =>
      obtain ⟨hd, hs', hrow'⟩ := ih
      obtain ⟨hrows, hsnaps⟩ := hstep.stays
      exact ⟨hstep.dispatching hd, hsnaps id s hs', hrows key row hrow' (by rw [hstate]; nofun)⟩

/-- No reservation of a dispatched snapshot is released. -/
theorem Dispatching.not_released {w : World} (h : Dispatching w) {id : Uuid} {s : Snapshot} {day : Date}
    {row : AccountUsage} (hs : w.db.snapshots.lookup id = some s)
    (hd : Coordinator.dispatched w.db s.accountId id = true)
    (hrow : w.db.accountUsage.lookup ⟨s.accountId, day, s.operationId⟩ = some row) : row.state ≠ .released := by
  obtain ⟨day', row', hrow', hstate⟩ := h.notReleased id s hs hd
  obtain rfl := h.coordinated.one_day hrow hrow'
  obtain rfl := Option.some.inj (hrow.symm.trans hrow')
  exact hstate

/-- **Model dispatch ownership.** A request is sent at most once; it is sent by the one caller that inserted
its marker, which it did under an open reservation; at the send the reservation is open or settled at its
estimate; a dispatched reservation is never released and a released one never dispatched afterwards. -/
theorem dispatch_owned {authority : Authority} {w : World} (h : World.Reachable authority w) :
    (w.log.filterMap Event.sentSnapshot).Nodup ∧
    (∀ i j id, Marked w.log i id → Marked w.log j id → i = j) ∧
    (∀ l₁ l₂ i id row, w.log = l₁ ++ .sent i id row :: l₂ →
      (∃ row', Event.marked i id (some row') ∈ l₂ ∧ row'.state = .reserved) ∧
        ∃ row', row = some row' ∧ OpenOrRecovered row') ∧
    (∀ id s day row, w.db.snapshots.lookup id = some s → Coordinator.dispatched w.db s.accountId id = true →
      w.db.accountUsage.lookup ⟨s.accountId, day, s.operationId⟩ = some row → row.state ≠ .released) ∧
    ∀ w', Relation.ReflTransGen Step w w' → ∀ id s day row, w.db.snapshots.lookup id = some s →
      w.db.accountUsage.lookup ⟨s.accountId, day, s.operationId⟩ = some row → row.state = .released →
      Coordinator.dispatched w'.db s.accountId id = false := by
  have hd := h.dispatching
  refine ⟨hd.sentOnce, hd.markedOnce, hd.sendMarked, fun id s day row hs hm hrow => hd.not_released hs hm hrow,
    fun w' hrun id s day row hs hrow hstate => ?_⟩
  obtain ⟨hd', hs', hrow'⟩ := released_stays hd hrun hs hrow hstate
  by_contra hm
  rw [Bool.not_eq_false] at hm
  exact hd'.not_released hs' hm hrow' hstate

/-! ### Recovery between the marker and the send -/

def soloAttempt : Attempt := ⟨none, 1, 7, "model:1", 5, 1, "standard", false, 6, 4⟩

/-- The surroundings after the Run has failed. -/
def failedAuthority : Authority :=
  { soloAuthority with runs := fun r => if r = 7 then some ⟨1, .chat 3, .failed⟩ else none }

def soloBegun : World :=
  { World.start soloAuthority with db := soloBudget }.move 0 soloAttempt .begun soloBudget

def soloHolding : World :=
  (soloBegun.move 0 soloAttempt (.frozen 9) ((soloAttempt.freeze 0 9).commit soloBegun.db))

def soloHeld : World :=
  soloHolding.move 0 soloAttempt (.reserved 9 0 true) ((soloAttempt.reserve 0 9).commit soloHolding.db)

def soloOwned : World :=
  (soloHeld.move 0 soloAttempt (.owned 9 0) ((soloAttempt.markDispatched 0 9).commit soloHeld.db)).record
    (.marked 0 9 (reservationOf soloHeld.db 1 "model:1"))

def soloFailed : World :=
  { soloOwned with db := { soloOwned.db with authority := failedAuthority, invocations := fun _ => none } }

def soloRecovered : World :=
  { soloFailed with db := (Coordinator.recoverTerminalInUow (max 0) 7).commit soloFailed.db }

def soloSent : World :=
  (soloRecovered.move 0 soloAttempt (.sent 9 0) soloRecovered.db).record
    (.sent 0 9 (reservationOf soloRecovered.db 1 "model:1"))

theorem reachable_soloOwned : World.Reachable soloAuthority soloOwned := by
  have hbudget : Step (World.start soloAuthority) { World.start soloAuthority with db := soloBudget } :=
    .background (.createRunBudget 7 .enforce (fun _ => some 100) 0)
  have hbegun : Step { World.start soloAuthority with db := soloBudget } soloBegun := .begin soloAttempt rfl
  have hfreeze : Step soloBegun soloHolding :=
    .freeze (a := soloAttempt) 0 9 _ rfl (Tx.run_commit (a := 9) rfl) (fun _ _ hs => by cases hs) (.inl rfl)
  have hreserve : Step soloHolding soloHeld := by
    obtain ⟨r, hr, hphase⟩ : ∃ r, (soloAttempt.reserve 0 9).run soloHolding.db
        = .ok (r, (soloAttempt.reserve 0 9).commit soloHolding.db) ∧ Phase.reserved 9 0 true = .afterReserve 9 r :=
      ⟨_, Tx.run_commit rfl, rfl⟩
    exact .reserve (a := soloAttempt) 0 _ rfl hr (.inl hphase)
  have hmark : Step soloHeld soloOwned :=
    .mark (a := soloAttempt) 0 _ rfl (Tx.run_commit (a := ()) rfl) (.inl rfl)
  exact ((((Relation.ReflTransGen.refl.tail hbudget).tail hbegun).tail hfreeze).tail hreserve).tail hmark

theorem reachable_soloSent : World.Reachable soloAuthority soloSent := by
  have hruns : KeepsRuns soloOwned.db.authority failedAuthority := by
    intro run r hr
    have hsolo : (if run = 7 then some (⟨1, .chat 3, .running⟩ : Run) else none) = some r := hr
    split at hsolo
    · next h7 =>
        obtain rfl := Option.some.inj hsolo
        exact ⟨⟨1, .chat 3, .failed⟩, if_pos h7, rfl, rfl⟩
    · cases hsolo
  have hfailed : Step soloOwned soloFailed := .background (.surroundings failedAuthority (fun _ => none) hruns)
  have hrecover : Step soloFailed soloRecovered := .background (.recover 7)
  have hsend : Step soloRecovered soloSent := .send (a := soloAttempt) rfl
  exact ((reachable_soloOwned.tail hfailed).tail hrecover).tail hsend

theorem dispatch_owned_sent :
    soloSent.log.filterMap Event.sentSnapshot = [9] ∧ (soloSent.log.filterMap Event.sentSnapshot).Nodup :=
  ⟨rfl, (dispatch_owned reachable_soloSent).1⟩

/-- A request can be sent after terminal recovery has settled its reservation. -/
theorem sent_after_recovery : ¬∀ authority w, World.Reachable authority w → ∀ i id row,
    Event.sent i id row ∈ w.log → ∃ r, row = some r ∧ r.state = .reserved := by
  intro hall
  have hmem : Event.sent 0 9 (some ⟨some 9, .settled, 10, some 10, some .estimated⟩) ∈ soloSent.log := by
    decide +kernel
  obtain ⟨r, hr, hstate⟩ := hall soloAuthority soloSent reachable_soloSent 0 9 _ hmem
  obtain rfl := Option.some.inj hr
  cases hstate

end HpAgent.Budget
