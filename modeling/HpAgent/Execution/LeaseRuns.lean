import HpAgent.Execution.Leases

/-! # Fencing over whole runs

The lease calls of any number of segments and attempts in any order, with the triggers and commands that
revoke a lease, and with whatever else happens to the rows those calls only read.  The clock of every call is
its own: nothing is assumed of it, so a lease may expire between any two calls.

`World` adds to the store the grants handed out so far and the segment releases that have committed.
`Fenced` is kept by every step (`Step.fenced`).  `lease_exclusion` reads off it that tokens increase between
owners, that a guarded write needs the latest token and an unexpired lease, and that a released segment
never owns its lease again. -/

namespace HpAgent.Execution

open Library

/-- A token handed out for an Execution. -/
structure Grant where
  executionId : Uuid
  owner : Option String
  token : ℕ
deriving DecidableEq, Repr

/-- The store, the grants (latest first) and the committed releases. -/
structure World where
  db : LeaseStore
  grants : List Grant
  released : List SegmentInput

/-- The grants of one Execution, latest first. -/
def World.grantsOf (w : World) (e : Uuid) : List (Option String × ℕ) :=
  (w.grants.filter fun g => g.executionId = e).map fun g => (g.owner, g.token)

/-- One committed call; a call that raises leaves the store as it was. -/
inductive Step : World → World → Prop
  | acquireLease {w : World} {fence : Option Fence} {account run : Uuid} {execution : Option Uuid} {clock : Clock}
      {lease : ExecutionLease} {db' : LeaseStore}
      (h : (acquireLease fence account run execution clock).run w.db = .ok (lease, db')) :
      Step w ⟨db', ⟨lease.executionId, none, lease.fencingToken⟩ :: w.grants, w.released⟩
  | validateAndRenewLease {w : World} {fence : Option Fence} {account run : Uuid} {token : ℕ}
      {execution : Option Uuid} {clock : Clock} {lease : ExecutionLease} {db' : LeaseStore}
      (h : (validateAndRenewLease fence account run token execution clock).run w.db = .ok (lease, db')) :
      Step w ⟨db', w.grants, w.released⟩
  | releaseLease {w : World} {fence : Option Fence} {account run : Uuid} {token : ℕ} {execution : Option Uuid}
      {found : Bool} {db' : LeaseStore}
      (h : (releaseLease fence account run token execution).run w.db = .ok (found, db')) :
      Step w ⟨db', w.grants, w.released⟩
  | acquireSegment {w : World} {request : SegmentInput} {clock : Clock} {token : ℕ} {db' : LeaseStore}
      (h : (acquireSegment request clock).run w.db = .ok (token, db')) :
      Step w ⟨db', ⟨request.executionId, some request.segmentId, token⟩ :: w.grants, w.released⟩
  | releaseSegment {w : World} {request : SegmentInput} {db' : LeaseStore}
      (h : (releaseSegment request).run w.db = .ok ((), db')) :
      Step w ⟨db', w.grants, request :: w.released⟩
  | revoke {w : World} {execution : Uuid} {db' : LeaseStore}
      (h : (revoke execution).run w.db = .ok ((), db')) :
      Step w ⟨db', w.grants, w.released⟩
  /-- Other rows change; an Execution keeps its account and Run. -/
  | surroundings {w : World} {db' : LeaseStore} (hleases : db'.leases = w.db.leases)
      (hsegments : db'.segments = w.db.segments)
      (hidentity : ∀ e i, w.db.identity e = some i → db'.identity e = some i) :
      Step w ⟨db', w.grants, w.released⟩

variable {w : World} {db db' : LeaseStore} {request : SegmentInput} {account : Uuid} {segment : Option String} {clock : Clock}
  {token : ℕ}

/-- The runs that start before the first lease call. -/
inductive Reachable : World → Prop
  | start {db : LeaseStore} (hleases : db.leases = ∅) (hsegments : db.segments = ∅) : Reachable ⟨db, [], []⟩
  | step {w w' : World} (h : Reachable w) (hstep : Step w w') : Reachable w'

/-! ### The invariant -/

/-- The request has been released: its row, when it is its own, is a tombstone. -/
def Tombstoned (db : LeaseStore) (request : SegmentInput) : Prop :=
  db.identity request.executionId = some (request.accountId, request.runId) ∧
    ∃ s, db.segments.lookup request.segmentId = some s ∧ (s.matches request = true → s.state = .released)

/-- What holds between the calls. -/
structure Fenced (w : World) : Prop where
  tokens : ∀ e, (w.db.register e).Consistent (w.grantsOf e)
  leaseRows : ∀ e l, w.db.leases.lookup e = some l → w.db.identity e = some (l.accountId, l.runId)
  owners : ∀ e l sid, w.db.leases.lookup e = some l → l.ownerSegmentId = some sid →
    ∃ s, w.db.segments.lookup sid = some s ∧ s.state = .active ∧ s.executionId = e
  segmentRows : ∀ sid s, w.db.segments.lookup sid = some s →
    w.db.identity s.executionId = some (s.accountId, s.runId)
  tombstones : ∀ request ∈ w.released, Tombstoned w.db request

theorem Fenced.start (hleases : db.leases = ∅) (hsegments : db.segments = ∅) :
    Fenced ⟨db, [], []⟩ := by
  have hlease : ∀ e, db.leases.lookup e = none := by
    intro e
    rw [hleases]
    exact AList.lookup_empty e
  have hsegment : ∀ sid, db.segments.lookup sid = none := by
    intro sid
    rw [hsegments]
    exact AList.lookup_empty sid
  constructor
  · intro e
    simp [LeaseStore.register, hlease, World.grantsOf, Register.consistent_fresh]
  · intro e l h
    simp [hlease] at h
  · intro e l sid h
    simp [hlease] at h
  · intro sid s h
    simp [hsegment] at h
  · simp

theorem grantsOf_cons_self (w : World) (db' : LeaseStore) (e : Uuid) (o : Option String) (t : ℕ) :
    World.grantsOf ⟨db', ⟨e, o, t⟩ :: w.grants, w.released⟩ e = (o, t) :: w.grantsOf e := by
  simp [World.grantsOf]

theorem grantsOf_cons_of_ne (w : World) (db' : LeaseStore) {e j : Uuid} (o : Option String) (t : ℕ) (h : j ≠ e) :
    World.grantsOf ⟨db', ⟨e, o, t⟩ :: w.grants, w.released⟩ j = w.grantsOf j := by
  simp [World.grantsOf, Ne.symm h]

/-- A tombstone stays while its row and the identity of its Execution stay. -/
theorem Tombstoned.mono (h : Tombstoned db request)
    (hidentity : ∀ e i, db.identity e = some i → db'.identity e = some i)
    (hsegment : ∀ s, db.segments.lookup request.segmentId = some s →
      ∃ s', db'.segments.lookup request.segmentId = some s' ∧
        (s'.matches request = true → s.matches request = true ∧ (s.state = .released → s'.state = .released))) :
    Tombstoned db' request := by
  obtain ⟨hid, s, hs, hstate⟩ := h
  obtain ⟨s', hs', hsame⟩ := hsegment s hs
  refine ⟨hidentity _ _ hid, s', hs', ?_⟩
  intro hmatch
  have hbefore := hsame hmatch
  exact hbefore.2 (hstate hbefore.1)

/-! ### The steps -/

/-- A call that rewrites the lease of one Execution and no segment. -/
theorem Fenced.rewriteLease (hw : Fenced w) {e : Uuid} {l l' : Lease}
    (hl : w.db.leases.lookup e = some l)
    (hleases : ∀ j, db'.leases.lookup j = if j = e then some l' else w.db.leases.lookup j)
    (hsegments : db'.segments = w.db.segments) (hidentity : db'.identity = w.db.identity)
    (hcolumns : l'.accountId = l.accountId ∧ l'.runId = l.runId)
    (howner : l'.ownerSegmentId = l.ownerSegmentId ∨ l'.ownerSegmentId = none)
    (htoken : (l.register).Consistent (w.grantsOf e) → (l'.register).Consistent (w.grantsOf e)) :
    Fenced ⟨db', w.grants, w.released⟩ := by
  constructor
  · intro j
    by_cases hj : j = e
    · subst hj
      have hnew : db'.register j = l'.register := register_of_lookup (by simp [hleases])
      have hold : w.db.register j = l.register := register_of_lookup hl
      show (db'.register j).Consistent (w.grantsOf j)
      rw [hnew]
      apply htoken
      rw [← hold]
      exact hw.tokens j
    · have hsame : db'.register j = w.db.register j := by simp [LeaseStore.register, hleases, hj]
      show (db'.register j).Consistent (w.grantsOf j)
      rw [hsame]
      exact hw.tokens j
  · intro j r hr
    show db'.identity j = _
    rw [hidentity]
    rw [hleases] at hr
    split at hr
    · next hj =>
        obtain rfl := Option.some.inj hr
        rw [hj, hcolumns.1, hcolumns.2]
        exact hw.leaseRows e l hl
    · exact hw.leaseRows j r hr
  · intro j r sid hr hsid
    show ∃ s, db'.segments.lookup sid = some s ∧ _
    rw [hsegments]
    rw [hleases] at hr
    split at hr
    · next hj =>
        obtain rfl := Option.some.inj hr
        have hown : l.ownerSegmentId = some sid := by
          rcases howner with h | h
          · rw [← h, hsid]
          · simp [h] at hsid
        rw [hj]
        exact hw.owners e l sid hl hown
    · exact hw.owners j r sid hr hsid
  · intro sid s hs
    show db'.identity s.executionId = _
    rw [hidentity]
    apply hw.segmentRows sid s
    rw [← hsegments]
    exact hs
  · intro request hrequest
    apply (hw.tombstones request hrequest).mono
    · intro j i hi
      rw [hidentity]
      exact hi
    · intro s hs
      exact ⟨s, by rw [hsegments]; exact hs, fun h => ⟨h, id⟩⟩

/-- The register after a grant. -/
theorem consistent_granted {run e : Uuid} {row : Lease}
    {grants : List (Option String × ℕ)}
    (hc : (db.register e).Consistent grants)
    (hrow : row = (db.leases.lookup e).getD (Lease.unheld account run))
    (hfree : row.active clock.tested = true ∧ row.ownerSegmentId = segment ∧ token = row.fencingToken ∨
      row.active clock.tested = false ∧ token = row.fencingToken + 1) (t : Instant) :
    (Lease.register { row with ownerSegmentId := segment, fencingToken := token, leaseExpiresAt := some t }).Consistent
      ((segment, token) :: grants) := by
  have hregister : db.register e = row.register := by
    rw [hrow]
    exact register_unheld db account run e
  rw [hregister] at hc
  rcases hfree with ⟨hactive, rfl, rfl⟩ | ⟨-, rfl⟩
  · obtain ⟨t', -, hheld⟩ := held_of_active hactive
    exact hc.again hheld
  · exact hc.take

/-- Nothing the invariant reads has changed. -/
theorem Fenced.unchanged (hw : Fenced w)
    (hleases : ∀ e, db'.leases.lookup e = w.db.leases.lookup e)
    (hsegments : ∀ sid, db'.segments.lookup sid = w.db.segments.lookup sid)
    (hidentity : ∀ e i, w.db.identity e = some i → db'.identity e = some i) :
    Fenced ⟨db', w.grants, w.released⟩ := by
  constructor
  · intro e
    have hregister : db'.register e = w.db.register e := by simp [LeaseStore.register, hleases]
    show (db'.register e).Consistent (w.grantsOf e)
    rw [hregister]
    exact hw.tokens e
  · intro e l hl
    rw [hleases] at hl
    exact hidentity _ _ (hw.leaseRows e l hl)
  · intro e l sid hl howner
    rw [hleases] at hl
    show ∃ s, db'.segments.lookup sid = some s ∧ _
    rw [hsegments]
    exact hw.owners e l sid hl howner
  · intro sid s hs
    rw [hsegments] at hs
    exact hidentity _ _ (hw.segmentRows sid s hs)
  · intro request hrequest
    apply (hw.tombstones request hrequest).mono hidentity
    intro s hs
    exact ⟨s, by rw [hsegments]; exact hs, fun h => ⟨h, id⟩⟩

/-- A grant, to nobody in particular or to an active segment. -/
theorem Fenced.grant (hw : Fenced w) {run e : Uuid}
    {lease : ExecutionLease} (h : Granted w.db db' account run e segment clock lease)
    (hsegments : db'.segments = w.db.segments)
    (hsegment : ∀ sid, segment = some sid →
      ∃ s, w.db.segments.lookup sid = some s ∧ s.state = .active ∧ s.executionId = e) :
    Fenced ⟨db', ⟨lease.executionId, segment, lease.fencingToken⟩ :: w.grants, w.released⟩ := by
  obtain ⟨row, token, hrow, hid, hfree, rfl, hleases, hidentity⟩ := h
  constructor
  · intro j
    by_cases hj : j = e
    · subst hj
      rw [grantsOf_cons_self]
      show (db'.register j).Consistent _
      rw [register_of_lookup (by rw [hleases, if_pos rfl])]
      exact consistent_granted (hw.tokens j) hrow hfree clock.expiry
    · rw [grantsOf_cons_of_ne w db' segment token hj]
      have hsame : db'.register j = w.db.register j := by simp [LeaseStore.register, hleases, hj]
      show (db'.register j).Consistent (w.grantsOf j)
      rw [hsame]
      exact hw.tokens j
  · intro j r hr
    show db'.identity j = _
    rw [hidentity]
    rw [hleases] at hr
    split at hr
    · next hj =>
        obtain rfl := Option.some.inj hr
        rw [hj, hid]
        cases hl : w.db.leases.lookup e with
        | none => simp [hrow, hl, Lease.unheld]
        | some l =>
            have hcolumns := hw.leaseRows e l hl
            rw [hid] at hcolumns
            simpa [hrow, hl] using hcolumns
    · exact hw.leaseRows j r hr
  · intro j r sid hr hsid
    show ∃ s, db'.segments.lookup sid = some s ∧ _
    rw [hsegments]
    rw [hleases] at hr
    split at hr
    · next hj =>
        obtain rfl := Option.some.inj hr
        rw [hj]
        exact hsegment sid hsid
    · exact hw.owners j r sid hr hsid
  · intro sid s hs
    show db'.identity s.executionId = _
    rw [hidentity]
    apply hw.segmentRows sid s
    rw [← hsegments]
    exact hs
  · intro request hrequest
    apply (hw.tombstones request hrequest).mono
    · intro j i hi
      rw [hidentity]
      exact hi
    · intro s hs
      exact ⟨s, by rw [hsegments]; exact hs, fun h => ⟨h, id⟩⟩

/-- A segment's row is written: nobody's lease depends on it, or it becomes active. -/
theorem Fenced.writeSegment (hw : Fenced w) {sid : String} {s : Segment}
    (hleases : db'.leases = w.db.leases) (hidentity : db'.identity = w.db.identity)
    (hsegments : ∀ j, db'.segments.lookup j = if j = sid then some s else w.db.segments.lookup j)
    (hid : w.db.identity s.executionId = some (s.accountId, s.runId))
    (hsame : ∀ r, w.db.segments.lookup sid = some r →
      r.executionId = s.executionId ∧ r.accountId = s.accountId ∧ r.runId = s.runId ∧
        (r.state = .released → s.state = .released))
    (howned : s.state = .active ∨ ∀ e l, w.db.leases.lookup e = some l → l.ownerSegmentId ≠ some sid) :
    Fenced ⟨db', w.grants, w.released⟩ := by
  constructor
  · intro e
    have hregister : db'.register e = w.db.register e := by simp [LeaseStore.register, hleases]
    show (db'.register e).Consistent (w.grantsOf e)
    rw [hregister]
    exact hw.tokens e
  · intro e l hl
    show db'.identity e = _
    rw [hidentity]
    apply hw.leaseRows e l
    rw [← hleases]
    exact hl
  · intro e l owner hl howner
    rw [hleases] at hl
    show ∃ s, db'.segments.lookup owner = some s ∧ _
    obtain ⟨r, hr, hactive, hexecution⟩ := hw.owners e l owner hl howner
    rw [hsegments]
    split
    · next hj =>
        subst hj
        refine ⟨s, rfl, ?_, ?_⟩
        · apply howned.resolve_right
          intro hfree
          exact hfree e l hl howner
        · rw [← (hsame r hr).1]
          exact hexecution
    · exact ⟨r, hr, hactive, hexecution⟩
  · intro j r hr
    show db'.identity r.executionId = _
    rw [hidentity]
    rw [hsegments] at hr
    split at hr
    · obtain rfl := Option.some.inj hr
      exact hid
    · exact hw.segmentRows j r hr
  · intro request hrequest
    apply (hw.tombstones request hrequest).mono
    · intro e i hi
      rw [hidentity]
      exact hi
    · intro r hr
      rw [hsegments]
      split
      · next hj =>
          rw [hj] at hr
          obtain ⟨hexecution, haccount, hrun, hreleased⟩ := hsame r hr
          refine ⟨s, rfl, ?_⟩
          intro hmatch
          refine ⟨?_, hreleased⟩
          simpa [Segment.matches, hexecution, haccount, hrun] using hmatch
      · exact ⟨r, hr, fun h => ⟨h, id⟩⟩

/-- A segment request whose row is its own. -/
theorem matches_iff {s : Segment} :
    s.matches request = true ↔
      s.runId = request.runId ∧ s.accountId = request.accountId ∧ s.executionId = request.executionId := by
  simp [Segment.matches, and_assoc]

theorem Fenced.segmentAcquired (hw : Fenced w)
    (h : (acquireSegment request clock).run w.db = .ok (token, db')) :
    Fenced ⟨db', ⟨request.executionId, some request.segmentId, token⟩ :: w.grants, w.released⟩ := by
  obtain ⟨s, lease, hs, hmatch, hopen, hgranted, rfl, hsegments⟩ := acquireSegment_ok h
  obtain ⟨hrun, haccount, hexecution⟩ := matches_iff.mp hmatch
  have hid : w.db.identity request.executionId = some (request.accountId, request.runId) := by
    obtain ⟨_, _, _, hid, _⟩ := hgranted
    exact hid
  have hkept : ({ w.db with segments := db'.segments } : LeaseStore).leases = w.db.leases := rfl
  have hactive : Fenced ⟨{ w.db with segments := db'.segments }, w.grants, w.released⟩ := by
    apply hw.writeSegment hkept rfl hsegments
    · show w.db.identity s.executionId = _
      rw [hexecution, haccount, hrun]
      exact hid
    · intro r hr
      have hrs : s = r := by simp [hs, hr]
      rw [← hrs]
      exact ⟨rfl, rfl, rfl, fun hreleased => absurd hreleased hopen⟩
    · exact .inl rfl
  have hexe : lease.executionId = request.executionId := by
    obtain ⟨_, _, _, _, _, hlease, _⟩ := hgranted
    rw [hlease]
  rw [← hexe]
  apply hactive.grant (h := hgranted) rfl
  intro sid hsid
  obtain rfl := Option.some.inj hsid
  refine ⟨{ s with state := .active, fencingToken := some lease.fencingToken }, ?_, rfl, hexecution⟩
  show db'.segments.lookup request.segmentId = _
  rw [hsegments, if_pos rfl]

/-- The lease a release leaves behind is not the segment's. -/
theorem owner_withoutSegment {l : Lease}
    (h : some (l.accountId, l.runId) = some (request.accountId, request.runId)) :
    (l.withoutSegment request).ownerSegmentId ≠ some request.segmentId := by
  have hcolumns : l.accountId = request.accountId ∧ l.runId = request.runId := by simpa using h
  unfold Lease.withoutSegment
  split
  · simp
  · next hother =>
      intro howner
      exact hother ⟨hcolumns.1, hcolumns.2, howner⟩

theorem Fenced.segmentReleased (hw : Fenced w)
    (h : (releaseSegment request).run w.db = .ok ((), db')) :
    Fenced ⟨db', w.grants, request :: w.released⟩ := by
  obtain ⟨s, hs, hid, hsegments, hleases, hbase⟩ := releaseSegment_ok h
  have hidentity := LeaseStore.identity_congr hbase
  have hsid : s.matches request = true ∨ w.db.segments.lookup request.segmentId = some s := by
    cases hrow : w.db.segments.lookup request.segmentId with
    | none =>
        left
        rw [matches_iff, hs, hrow]
        exact ⟨rfl, rfl, rfl⟩
    | some r =>
        right
        simp [hs, hrow]
  have hdisowned : Fenced ⟨{ w.db with leases := db'.leases }, w.grants, w.released⟩ := by
    cases hl : w.db.leases.lookup request.executionId with
    | none =>
        apply hw.unchanged
        · intro j
          show db'.leases.lookup j = _
          rw [hleases, hl]
          split
          · next hj => rw [hj, hl]; rfl
          · rfl
        · intro sid
          rfl
        · intro j i hi
          exact hi
    | some l =>
        rw [hl] at hleases
        refine hw.rewriteLease hl hleases rfl rfl ?_ ?_ ?_
        · unfold Lease.withoutSegment
          split <;> exact ⟨rfl, rfl⟩
        · unfold Lease.withoutSegment
          split
          · exact .inr rfl
          · exact .inl rfl
        · intro hc
          unfold Lease.withoutSegment
          split
          · exact hc.drop
          · exact hc
  have hsegment : Fenced ⟨db', w.grants, w.released⟩ := by
    by_cases hmatch : s.matches request = true
    · rw [if_pos hmatch] at hsegments
      obtain ⟨hrun, haccount, hexecution⟩ := matches_iff.mp hmatch
      refine hdisowned.writeSegment rfl hidentity hsegments ?_ ?_ ?_
      · show w.db.identity s.executionId = some (s.accountId, s.runId)
        rw [hexecution, haccount, hrun]
        exact hid
      · intro r hr
        have hrs : s = r := by
          have hrow : w.db.segments.lookup request.segmentId = some r := hr
          simp [hs, hrow]
        rw [← hrs]
        exact ⟨rfl, rfl, rfl, fun _ => rfl⟩
      · right
        intro e l hl howner
        obtain ⟨r, hr, -, hre⟩ := hdisowned.owners e l request.segmentId hl howner
        have hrs : s = r := by
          have hrow : w.db.segments.lookup request.segmentId = some r := hr
          simp [hs, hrow]
        rw [← hrs, hexecution] at hre
        have hl : db'.leases.lookup request.executionId = some l := by rw [hre]; exact hl
        rw [hleases, if_pos rfl] at hl
        obtain ⟨l₀, hl₀, rfl⟩ := Option.map_eq_some_iff.mp hl
        exact owner_withoutSegment (by rw [← hw.leaseRows _ l₀ hl₀, hid]) howner
    · have hrow := hsid.resolve_left hmatch
      apply hdisowned.unchanged
      · intro e
        rfl
      · intro sid
        rw [hsegments, if_neg hmatch]
        split
        · next hj => rw [hj]; exact hrow.symm
        · rfl
      · intro e i hi
        rw [hidentity]
        exact hi
  constructor
  · exact hsegment.tokens
  · exact hsegment.leaseRows
  · exact hsegment.owners
  · exact hsegment.segmentRows
  · intro r hr
    rcases List.mem_cons.mp hr with rfl | hr
    · refine ⟨?_, if s.matches r then { s with state := .released } else s, ?_, ?_⟩
      · show db'.identity r.executionId = _
        rw [hidentity]
        exact hid
      · show db'.segments.lookup r.segmentId = _
        rw [hsegments, if_pos rfl]
      · split
        · intro _
          rfl
        · next hmatch =>
            intro h
            exact absurd h hmatch
    · exact hsegment.tombstones r hr

/-- **Every step keeps the invariant.** -/
theorem Step.fenced {w' : World} (h : Step w w') (hw : Fenced w) : Fenced w' := by
  cases h with
  | acquireLease h =>
      obtain ⟨id, hgranted, hsegments⟩ := acquireLease_ok h
      exact hw.grant hgranted hsegments nofun
  | validateAndRenewLease h =>
      obtain ⟨row, hrow, -, hactive, hleases, hsegments, hbase⟩ := validateAndRenewLease_ok h
      have hidentity := LeaseStore.identity_congr hbase
      apply hw.rewriteLease hrow hleases hsegments hidentity ⟨rfl, rfl⟩ (.inl rfl)
      intro hc
      obtain ⟨t, -, hheld⟩ := held_of_active hactive
      exact hc.renew hheld
  | releaseLease h =>
      rcases releaseLease_ok h with rfl | ⟨id, row, hrow, hleases, hsegments, hbase⟩
      · exact hw
      · have hidentity := LeaseStore.identity_congr hbase
        apply hw.rewriteLease hrow hleases hsegments hidentity ⟨rfl, rfl⟩ (.inr rfl)
        intro hc
        exact hc.drop
  | acquireSegment h => exact hw.segmentAcquired h
  | releaseSegment h => exact hw.segmentReleased h
  | @revoke execution db' h =>
      unfold Execution.revoke at h
      rw [Tx.update_ok] at h
      obtain rfl := h
      cases hl : w.db.leases.lookup execution with
      | none =>
          apply hw.unchanged
          · intro e
            simp [Table.modify, hl]
          · intro sid
            rfl
          · intro e i hi
            exact hi
      | some l =>
          have hleases : ∀ j, (Table.modify execution
              (fun l : Lease => { l with ownerSegmentId := none, leaseExpiresAt := none, fencingToken := l.fencingToken + 1 })
              w.db.leases).lookup j = if j = execution then
                some { l with ownerSegmentId := none, leaseExpiresAt := none, fencingToken := l.fencingToken + 1 }
              else w.db.leases.lookup j := by
            intro j
            rw [Table.lookup_modify, hl]
            rfl
          refine hw.rewriteLease hl hleases rfl rfl ⟨rfl, rfl⟩ (.inr rfl) ?_
          intro hc
          exact hc.revoke
  | surroundings hleases hsegments hidentity =>
      apply hw.unchanged
      · intro e
        rw [hleases]
      · intro sid
        rw [hsegments]
      · exact hidentity

theorem Reachable.fenced (h : Reachable w) : Fenced w := by
  induction h with
  | start hleases hsegments => exact Fenced.start hleases hsegments
  | step _ hstep ih => exact hstep.fenced ih

/-! ### Mutual exclusion -/

/-- The token is the latest handed out for the Execution, and its lease has not expired at `now`. -/
def HoldsLatest (w : World) (now : Instant) (e : Uuid) (token : ℕ) : Prop :=
  (∃ l, w.db.leases.lookup e = some l ∧ l.fencingToken = token ∧ l.active now = true) ∧
    ∀ g ∈ w.grants, g.executionId = e → g.token ≤ token

/-- A lease row bounds every grant of its Execution. -/
theorem Fenced.bounded (hw : Fenced w) {e : Uuid} {l : Lease} (hl : w.db.leases.lookup e = some l) :
    ∀ g ∈ w.grants, g.executionId = e → g.token ≤ l.fencingToken := by
  intro g hg he
  have hmem : (g.owner, g.token) ∈ w.grantsOf e := by
    apply List.mem_map_of_mem
    simp [hg, he]
  have hbound := (hw.tokens e).bounded _ hmem
  rw [register_of_lookup hl] at hbound
  exact hbound

/-- What the fence check found when it passed. -/
theorem assertExecutionFence_ok {a : Authority} {now : Instant} {f : Fence}
    (h : a.assertExecutionFence now (some f) = .ok ()) :
    ∃ l, a.leases f.executionId = some l ∧ l.fencingToken = f.token ∧ now < l.leaseExpiresAt :=
  (Authority.assertExecutionFence_found h).2.2

theorem Fenced.holdsLatest_of_assert (hw : Fenced w) {now : Instant} {f : Fence}
    (h : w.db.authority.assertExecutionFence now (some f) = .ok ()) :
    HoldsLatest w now f.executionId f.token := by
  obtain ⟨fl, hfl, htoken, hnow⟩ := assertExecutionFence_ok h
  obtain ⟨l, hl, hfence⟩ := Option.bind_eq_some_iff.mp hfl
  obtain ⟨t, ht, rfl⟩ := Option.map_eq_some_iff.mp hfence
  refine ⟨⟨l, hl, htoken, ?_⟩, ?_⟩
  · simpa [Lease.active, ht] using hnow
  · rw [← htoken]
    exact hw.bounded hl

theorem Fenced.holdsLatest_of_renewal (hw : Fenced w) {fence : Option Fence} {run : Uuid}
    {execution : Option Uuid} {lease : ExecutionLease}
    (h : (validateAndRenewLease fence account run token execution clock).run w.db = .ok (lease, db')) :
    HoldsLatest w clock.tested lease.executionId token := by
  obtain ⟨row, hrow, htoken, hactive, -⟩ := validateAndRenewLease_ok h
  refine ⟨⟨row, hrow, htoken, hactive⟩, ?_⟩
  rw [← htoken]
  exact hw.bounded hrow

/-- A released segment does not own the lease of its Execution. -/
theorem Fenced.disowned (hw : Fenced w) (h : request ∈ w.released) :
    ∀ l, w.db.leases.lookup request.executionId = some l → l.ownerSegmentId ≠ some request.segmentId := by
  intro l hl howner
  obtain ⟨hid, s, hs, hreleased⟩ := hw.tombstones request h
  obtain ⟨r, hr, hactive, hexecution⟩ := hw.owners _ l _ hl howner
  obtain rfl : s = r := Option.some.inj (hs.symm.trans hr)
  have hrow := hw.segmentRows _ s hs
  rw [hexecution, hid] at hrow
  have hmatch : s.matches request = true := by
    rw [matches_iff]
    have hpair : request.accountId = s.accountId ∧ request.runId = s.runId := by simpa using hrow
    exact ⟨hpair.2.symm, hpair.1.symm, hexecution⟩
  have hstate := hreleased hmatch
  rw [hactive] at hstate
  cases hstate

/-- A released segment is not granted the lease again. -/
theorem Fenced.closed {w : World} (hw : Fenced w) {request : SegmentInput} (h : request ∈ w.released)
    {clock : Clock} {token : ℕ} {db' : LeaseStore} :
    (acquireSegment request clock).run w.db ≠ .ok (token, db') := by
  intro hrun
  obtain ⟨-, s, hs, hreleased⟩ := hw.tombstones request h
  obtain ⟨r, lease, hr, hmatch, hopen, -⟩ := acquireSegment_ok hrun
  have hrs : r = s := by simp [hr, hs]
  rw [hrs] at hmatch hopen
  exact hopen (hreleased hmatch)

/-- **Leases are mutually exclusive.**  In every reachable state tokens handed out for an Execution have
strictly increased between different owners; a write under a token passes its guard only if that token is
the latest handed out and its lease is unexpired; and a released segment neither owns the lease of its
Execution nor can acquire it. -/
theorem lease_exclusion {w : World} (h : Reachable w) :
    (∀ e, (w.grantsOf e).Pairwise fun later earlier => earlier.1 ≠ later.1 → earlier.2 < later.2) ∧
    (∀ now f, w.db.authority.assertExecutionFence now (some f) = .ok () →
      HoldsLatest w now f.executionId f.token) ∧
    (∀ fence account run token execution clock lease db',
      (validateAndRenewLease fence account run token execution clock).run w.db = .ok (lease, db') →
        HoldsLatest w clock.tested lease.executionId token) ∧
    ∀ request ∈ w.released,
      (∀ l, w.db.leases.lookup request.executionId = some l → l.ownerSegmentId ≠ some request.segmentId) ∧
        ∀ clock token db', (acquireSegment request clock).run w.db ≠ .ok (token, db') := by
  have hw := h.fenced
  refine ⟨?_, ?_, ?_, ?_⟩
  · intro e
    exact (hw.tokens e).ordered
  · intro now f hassert
    exact hw.holdsLatest_of_assert hassert
  · intro fence account run token execution clock lease db' hrenew
    exact hw.holdsLatest_of_renewal hrenew
  · intro request hrequest
    refine ⟨hw.disowned hrequest, ?_⟩
    intro clock token db'
    exact hw.closed hrequest

/-! ### A takeover -/

/-- One running Execution of a conversation Run. -/
def takeoverStart : LeaseStore where
  base :=
    { accounts := fun a => if a = 1 then some ⟨true, none⟩ else none
      conversations := fun _ _ => true
      runs := fun r => if r = 7 then some ⟨1, .chat 3, .running⟩ else none
      works := fun _ => none
      executions := fun e => if e = 5 then some ⟨1, 7, .running, false⟩ else none
      rootExecution := fun r => if r = 7 then some 5 else none
      leases := fun _ => none
      snapshotRevoked := fun _ => false }
  leases := ∅
  segments := ∅
  waiting := fun _ => false

def firstSegment : SegmentInput := ⟨"first", 1, 7, 5⟩

def secondSegment : SegmentInput := ⟨"second", 1, 7, 5⟩

/-- The second segment takes over from the first when its lease of ten has run out, and the first is then
released. -/
def takeover : World :=
  ⟨(releaseSegment firstSegment).commit
      ((acquireSegment secondSegment ⟨20, 20, 10⟩).commit
        ((acquireSegment firstSegment ⟨0, 0, 10⟩).commit takeoverStart)),
    [⟨5, some "second", 2⟩, ⟨5, some "first", 1⟩], [firstSegment]⟩

theorem reachable_takeover : Reachable takeover := by
  have hstart : Reachable ⟨takeoverStart, [], []⟩ := .start rfl rfl
  have hfirst : Reachable ⟨(acquireSegment firstSegment ⟨0, 0, 10⟩).commit takeoverStart, [⟨5, some "first", 1⟩], []⟩ :=
    hstart.step (.acquireSegment (Tx.run_commit (a := 1) rfl))
  have hsecond : Reachable
      ⟨(acquireSegment secondSegment ⟨20, 20, 10⟩).commit
          ((acquireSegment firstSegment ⟨0, 0, 10⟩).commit takeoverStart),
        [⟨5, some "second", 2⟩, ⟨5, some "first", 1⟩], []⟩ :=
    hfirst.step (.acquireSegment (Tx.run_commit (a := 2) rfl))
  exact hsecond.step (.releaseSegment (Tx.run_commit rfl))

theorem lease_exclusion_takeover :
    HoldsLatest takeover 25 5 2 ∧
      (∀ clock token db', (acquireSegment firstSegment clock).run takeover.db ≠ .ok (token, db')) :=
  ⟨(lease_exclusion reachable_takeover).2.1 25 ⟨1, 7, 5, 2⟩ (by decide),
    ((lease_exclusion reachable_takeover).2.2.2 firstSegment (List.mem_singleton.mpr rfl)).2⟩

end HpAgent.Execution
