import HpAgent.Web.WorkView
import Mathlib.Data.List.Induction
import Mathlib.Order.Basic

/-! # Whether the browser catches up

The row version that is shown of a Work never goes back.  An event makes the browser ask for its Work, or share a request that
is on its way; the answer of a shared request may be older than the event.

* `version_upsert`: what a response does to the versions that are shown.
* `Tracks`: every event is shown, or a request is on its way that will show it.
* `StaleJoin`: an event shares an answer that is older.
* `work_view`: without such a step, and without a refresh that fails, the browser catches up. -/

namespace HpAgent.Web

variable {v : View} {s : System} {emitted : List HpWorkEvent}

/-! ### What is shown -/

/-- The row version that is shown of a Work. -/
def View.version (v : View) (id : Uuid) : Option ℕ := (v.shown id).map HpWork.rowVersion

theorem View.shown_workId {id : Uuid} {w : HpWork} (h : v.shown id = some w) : w.workId = id := by
  have hfound : decide (w.workId = id) = true := List.find?_some (p := fun w : HpWork => decide (w.workId = id)) h
  exact of_decide_eq_true hfound

theorem find_map_ite (items : List HpWork) (work : HpWork) (id : Uuid) :
    (items.map fun w => if w.workId = work.workId then work else w).find? (fun w => w.workId = id) =
      (items.find? fun w => w.workId = id).map fun w => if w.workId = work.workId then work else w := by
  induction items with
  | nil => rfl
  | cons w rest ih =>
      rw [List.map_cons, List.find?_cons, List.find?_cons]
      have hsame : (if w.workId = work.workId then work else w).workId = w.workId := by
        split_ifs with h
        · exact h.symm
        · rfl
      rw [hsame]
      cases decide (w.workId = id) with
      | true => rfl
      | false => exact ih

/-- A response changes the Works that are shown and nothing else. -/
theorem View.upsert_eq (v : View) (work : HpWork) : v.upsert work = { v with items := (v.upsert work).items } := by
  unfold View.upsert
  cases v.shown work.workId with
  | none => rfl
  | some old =>
      dsimp only
      split_ifs <;> rfl

/-- A response is shown where it is not older than what is. -/
theorem View.version_upsert (v : View) (work : HpWork) (id : Uuid) :
    (v.upsert work).version id = if id = work.workId then some (max ((v.version id).getD 0) work.rowVersion) else v.version id := by
  unfold View.upsert
  cases hold : v.shown work.workId with
  | none =>
      show ((v.items ++ [work]).find? fun w => w.workId = id).map _ = _
      rw [List.find?_append]
      split_ifs with hid
      · subst hid
        have hnone : v.items.find? (fun w => w.workId = work.workId) = none := hold
        unfold View.version
        rw [hold, hnone, Option.none_or, List.find?_singleton, if_pos (decide_eq_true rfl)]
        exact congrArg some (Nat.zero_max _).symm
      · rw [List.find?_singleton, if_neg (by simpa using fun h => hid h.symm), Option.or_none]
        rfl
  | some old =>
      dsimp only
      split_ifs with hless hid hid
      · subst hid
        unfold View.version
        rw [hold]
        exact congrArg some (Nat.max_eq_left (Nat.le_of_lt hless)).symm
      · rfl
      · subst hid
        unfold View.version
        show ((v.items.map fun w => if w.workId = work.workId then work else w).find? _).map _ = _
        have hfind : v.items.find? (fun w => w.workId = work.workId) = some old := hold
        rw [find_map_ite, hfind, hold, Option.map_some, if_pos (View.shown_workId hold)]
        exact congrArg some (Nat.max_eq_right (Nat.le_of_not_lt hless)).symm
      · unfold View.version
        show ((v.items.map fun w => if w.workId = work.workId then work else w).find? _).map _ = (v.items.find? _).map _
        rw [find_map_ite]
        cases hfind : v.items.find? (fun w => w.workId = id) with
        | none => rfl
        | some w =>
            have hne : w.workId ≠ work.workId := fun h => hid ((View.shown_workId hfind).symm.trans h)
            rw [Option.map_some, if_neg hne]

/-- No version that is shown goes back, and no Work is taken off. -/
def Rises (v v' : View) : Prop := ∀ id n, v.version id = some n → ∃ m, v'.version id = some m ∧ n ≤ m

theorem Rises.refl (v : View) : Rises v v := fun _ n h => ⟨n, h, Nat.le_refl n⟩

theorem Rises.trans {a b c : View} (hab : Rises a b) (hbc : Rises b c) : Rises a c := by
  intro id n hn
  obtain ⟨m, hm, hle⟩ := hab id n hn
  obtain ⟨k, hk, hle'⟩ := hbc id m hm
  exact ⟨k, hk, Nat.le_trans hle hle'⟩

theorem rises_upsert (v : View) (work : HpWork) : Rises v (v.upsert work) := by
  intro id n hn
  rw [View.version_upsert]
  split_ifs
  · rw [hn]
    exact ⟨_, rfl, Nat.le_max_left _ _⟩
  · exact ⟨n, hn, Nat.le_refl n⟩

/-! ### Server -/

/-- What the events that were sent say about the server: they are numbered, and a later one was sent at no older row version. -/
structure Emits (s : System) : Prop where
  numbered : ∀ e ∈ s.emitted, 0 < e.eventSeq ∧ e.eventSeq ≤ s.eventSeqs e.workId
  held : ∀ e ∈ s.emitted, e.emittedAt ≤ s.versions e.workId
  ordered : ∀ e ∈ s.emitted, ∀ e' ∈ s.emitted, e.workId = e'.workId → e.eventSeq ≤ e'.eventSeq → e.emittedAt ≤ e'.emittedAt

theorem le_update_succ (f : Uuid → ℕ) (id k : Uuid) : f k ≤ Function.update f id (f id + 1) k := by
  by_cases hid : k = id
  · rw [hid, Function.update_self]
    omega
  · exact Nat.le_of_eq (Function.update_of_ne hid ..).symm

theorem emits_start : Emits .start := ⟨nofun, nofun, nofun⟩

theorem Emits.commit (h : Emits s) (id : Uuid) : Emits (s.step (.commit id)) where
  numbered := h.numbered
  held e he := Nat.le_trans (h.held e he) (le_update_succ s.versions id e.workId)
  ordered := h.ordered

theorem Emits.emit (h : Emits s) (id : Uuid) : Emits (s.step (.emit id)) := by
  have hseqs (e : HpWorkEvent) (he : e ∈ s.emitted) :
      e.eventSeq ≤ Function.update s.eventSeqs id (s.eventSeqs id + 1) e.workId :=
    Nat.le_trans (h.numbered e he).2 (le_update_succ s.eventSeqs id e.workId)
  constructor
  case numbered =>
      intro e he
      rcases List.mem_append.mp he with he | he
      · exact ⟨(h.numbered e he).1, hseqs e he⟩
      · cases List.mem_singleton.mp he
        refine ⟨Nat.succ_pos _, ?_⟩
        show s.eventSeqs id + 1 ≤ Function.update s.eventSeqs id (s.eventSeqs id + 1) id
        exact Nat.le_of_eq (Function.update_self id (s.eventSeqs id + 1) s.eventSeqs).symm
  case held =>
      intro e he
      rcases List.mem_append.mp he with he | he
      · exact h.held e he
      · cases List.mem_singleton.mp he
        exact Nat.le_refl _
  case ordered =>
      intro e he e' he' hid hle
      rcases List.mem_append.mp he with he | he <;> rcases List.mem_append.mp he' with he' | he'
      · exact h.ordered e he e' he' hid hle
      · cases List.mem_singleton.mp he'
        have := h.held e he
        rwa [hid] at this
      · cases List.mem_singleton.mp he
        have hseq := (h.numbered e' he').2
        rw [← hid] at hseq
        dsimp only at hle hseq
        omega
      · cases List.mem_singleton.mp he
        cases List.mem_singleton.mp he'
        exact Nat.le_refl _

/-- Only the server changes what it holds and sends. -/
theorem Emits.step (h : Emits s) (a : Action) : Emits (s.step a) := by
  cases a with
  | commit id => exact h.commit id
  | emit id => exact h.emit id
  | receive e =>
      show Emits (if e ∈ s.emitted then { s with view := s.view.receive e } else s)
      split_ifs
      · exact ⟨h.numbered, h.held, h.ordered⟩
      · exact h
  | refresh _ | load _ | cancelScan | command _ | answer _ _ _ _ | arrive _ _ | forget _ | fail _ _ | unavailable _ | reset =>
      exact ⟨h.numbered, h.held, h.ordered⟩

/-! ### Requests on their way -/

namespace View

/-- The version is shown, or a request is on its way that has not been answered with an older one. -/
def Covers (v : View) (id : Uuid) (n : ℕ) : Prop :=
  (∃ m, v.version id = some m ∧ n ≤ m) ∨
    ∃ r answer, v.refreshes id = some r ∧ v.requests r = some (.refresh id v.generation answer false) ∧ ∀ m, answer = some m → n ≤ m

/-- A request that is shared is one of this generation for the Work; what it has brought is shown. -/
def Shares (v : View) (id : Uuid) (r : ℕ) : Prop :=
  r < v.sent ∧ ∃ answer landed, v.requests r = some (.refresh id v.generation answer landed) ∧
    (landed = true → ∃ n m, answer = some n ∧ v.version id = some m ∧ n ≤ m)

end View

/-- The view keeps track of the events it was handed. -/
structure Tracks (emitted : List HpWorkEvent) (v : View) : Prop where
  known : ∀ e ∈ v.received, e ∈ emitted
  cursor : ∀ id, v.cursors id = 0 ∨ ∃ e ∈ v.received, e.workId = id ∧ e.eventSeq = v.cursors id
  shared : ∀ id r, v.refreshes id = some r → v.Shares id r
  covered : ∀ e ∈ v.received, v.Covers e.workId e.emittedAt

theorem tracks_start : Tracks [] .start := ⟨nofun, fun _ => .inl rfl, nofun, nofun⟩

theorem Tracks.emit (h : Tracks emitted v) (e : HpWorkEvent) : Tracks (emitted ++ [e]) v where
  known e' he' := List.mem_append_left _ (h.known e' he')
  cursor := h.cursor
  shared := h.shared
  covered := h.covered

/-- A change that leaves the refreshes of this generation alone and takes nothing back. -/
structure Quiet (v v' : View) : Prop where
  rises : Rises v v'
  generation : v'.generation = v.generation
  cursors : v'.cursors = v.cursors
  received : v'.received = v.received
  refreshes : v'.refreshes = v.refreshes
  sent : v.sent ≤ v'.sent
  requests : ∀ r id answer landed, r < v.sent → v.requests r = some (.refresh id v.generation answer landed) → v'.requests r = v.requests r

namespace Quiet

theorem refl (v : View) : Quiet v v := ⟨.refl v, rfl, rfl, rfl, rfl, Nat.le_refl _, fun _ _ _ _ _ _ => rfl⟩

theorem trans {a b c : View} (hab : Quiet a b) (hbc : Quiet b c) : Quiet a c where
  rises := hab.rises.trans hbc.rises
  generation := hbc.generation.trans hab.generation
  cursors := hbc.cursors.trans hab.cursors
  received := hbc.received.trans hab.received
  refreshes := hbc.refreshes.trans hab.refreshes
  sent := Nat.le_trans hab.sent hbc.sent
  requests := by
    intro r id answer landed hr h
    have hb : b.requests r = a.requests r := hab.requests r id answer landed hr h
    have hbr : b.requests r = some (.refresh id b.generation answer landed) := by rw [hb, h, hab.generation]
    exact (hbc.requests r id answer landed (Nat.lt_of_lt_of_le hr hab.sent) hbr).trans hb

theorem shares {v' : View} (q : Quiet v v') {id : Uuid} {r : ℕ} (h : v.Shares id r) : v'.Shares id r := by
  obtain ⟨hr, answer, landed, hrequest, hshown⟩ := h
  refine ⟨Nat.lt_of_lt_of_le hr q.sent, answer, landed, ?_, ?_⟩
  · rw [q.requests r id answer landed hr hrequest, hrequest, q.generation]
  · intro hlanded
    obtain ⟨n, m, ha, hm, hle⟩ := hshown hlanded
    obtain ⟨k, hk, hle'⟩ := q.rises id m hm
    exact ⟨n, k, ha, hk, Nat.le_trans hle hle'⟩

theorem covers {v' : View} (q : Quiet v v') (hshared : ∀ id r, v.refreshes id = some r → v.Shares id r) {id : Uuid} {n : ℕ}
    (h : v.Covers id n) : v'.Covers id n := by
  rcases h with ⟨m, hm, hle⟩ | ⟨r, answer, hr, hrequest, hfresh⟩
  · obtain ⟨k, hk, hle'⟩ := q.rises id m hm
    exact .inl ⟨k, hk, Nat.le_trans hle hle'⟩
  · refine .inr ⟨r, answer, ?_, ?_, hfresh⟩
    · rw [q.refreshes, hr]
    · rw [q.requests r id answer false (hshared id r hr).1 hrequest, hrequest, q.generation]

theorem tracks {v' : View} (q : Quiet v v') (h : Tracks emitted v) : Tracks emitted v' where
  known := by
    rw [q.received]
    exact h.known
  cursor := by
    rw [q.received, q.cursors]
    exact h.cursor
  shared := by
    intro id r hr
    rw [q.refreshes] at hr
    exact q.shares (h.shared id r hr)
  covered := by
    intro e he
    rw [q.received] at he
    exact q.covers h.shared (h.covered e he)

theorem upsert (v : View) (work : HpWork) : Quiet v (v.upsert work) := by
  have hrises := rises_upsert v work
  rw [View.upsert_eq] at hrises ⊢
  exact ⟨hrises, rfl, rfl, rfl, rfl, Nat.le_refl _, fun _ _ _ _ _ _ => rfl⟩

theorem upserts (works : List HpWork) (v : View) : Quiet v (works.foldl View.upsert v) := by
  induction works generalizing v with
  | nil => exact refl v
  | cons w rest ih => exact (upsert v w).trans (ih _)

theorem send (v : View) (request : Request) : Quiet v (v.send request) where
  rises := .refl v
  generation := rfl
  cursors := rfl
  received := rfl
  refreshes := rfl
  sent := Nat.le_succ _
  requests _ _ _ _ hr _ := Function.update_of_ne (Nat.ne_of_lt hr) ..

/-- A page or a command leaves the requests. -/
theorem settle (v : View) {r : ℕ} (h : ∀ id answer landed, v.requests r ≠ some (.refresh id v.generation answer landed)) :
    Quiet v (v.settle r) where
  rises := .refl v
  generation := rfl
  cursors := rfl
  received := rfl
  refreshes := rfl
  sent := Nat.le_refl _
  requests := by
    intro r' id answer landed _ hr'
    apply Function.update_of_ne
    intro heq
    subst heq
    exact h id answer landed hr'

/-- The scan's own fields are not about any Work. -/
theorem endScan (v : View) (token : ℕ) : Quiet v (v.endScan token) := ⟨.refl v, rfl, rfl, rfl, rfl, Nat.le_refl _, fun _ _ _ _ _ _ => rfl⟩

theorem cancelScan (v : View) : Quiet v v.cancelScan := ⟨.refl v, rfl, rfl, rfl, rfl, Nat.le_refl _, fun _ _ _ _ _ _ => rfl⟩

theorem load (v : View) (resume : Bool) : Quiet v (v.load resume) := by
  unfold View.load
  cases v.scanPromise with
  | some _ => exact refl v
  | none =>
      apply Quiet.trans _ (send _ _)
      exact ⟨.refl v, rfl, rfl, rfl, rfl, Nat.le_refl _, fun _ _ _ _ _ _ => rfl⟩

theorem nextBefore (v : View) (next : Option ℕ) : Quiet v { v with nextBefore := next } :=
  ⟨.refl v, rfl, rfl, rfl, rfl, Nat.le_refl _, fun _ _ _ _ _ _ => rfl⟩

theorem page (v : View) (scan : Scan) (works : List HpWork) (next : Option ℕ) : Quiet v (v.page scan works next) := by
  unfold View.page
  dsimp only
  split_ifs
  · exact endScan v scan.token
  · have hworks := upserts works v
    cases next with
    | none => exact (hworks.trans (nextBefore _ none)).trans (endScan _ scan.token)
    | some cursor =>
        dsimp only
        split_ifs
        · exact (hworks.trans (nextBefore _ none)).trans (endScan _ scan.token)
        · exact (hworks.trans (nextBefore _ (some cursor))).trans (send _ _)

end Quiet

/-! ### Refreshes -/

theorem Tracks.refresh (h : Tracks emitted v) (id : Uuid) : Tracks emitted (v.refresh id) := by
  unfold View.refresh
  cases hid : v.refreshes id with
  | some r => exact h
  | none =>
      dsimp only
      constructor
      case known => exact h.known
      case cursor => exact h.cursor
      case shared =>
        intro id' r hr
        have hr' : Function.update v.refreshes id (some v.sent) id' = some r := hr
        by_cases heq : id' = id
        · rw [heq, Function.update_self] at hr'
          cases hr'
          rw [heq]
          exact ⟨Nat.lt_succ_self _, none, false, Function.update_self .., nofun⟩
        · rw [Function.update_of_ne heq] at hr'
          exact (Quiet.send v _).shares (h.shared id' r hr')
      case covered =>
        intro e he
        rcases h.covered e he with hshown | ⟨r, answer, hr, hrequest, hfresh⟩
        · exact .inl hshown
        · have hne : e.workId ≠ id := by
            intro heq
            rw [heq, hid] at hr
            cases hr
          have hlt : r < v.sent := (h.shared _ r hr).1
          refine .inr ⟨r, answer, (Function.update_of_ne hne ..).trans hr, ?_, hfresh⟩
          exact (Function.update_of_ne (Nat.ne_of_lt hlt) ..).trans hrequest

/-- A refresh that has landed is shown. -/
theorem Tracks.land (h : Tracks emitted v) {r n m : ℕ} {id : Uuid}
    (hrequest : v.requests r = some (.refresh id v.generation (some n) false)) (hshown : v.version id = some m) (hle : n ≤ m) :
    Tracks emitted (v.land r (.refresh id v.generation (some n) true)) where
  known := h.known
  cursor := h.cursor
  shared := by
    intro id' r' hr'
    obtain ⟨hlt, answer, landed, hrequest', hlanded⟩ := h.shared id' r' hr'
    by_cases heq : r' = r
    · subst heq
      have hsame := Option.some.inj (hrequest.symm.trans hrequest')
      cases hsame
      exact ⟨hlt, some n, true, Function.update_self .., fun _ => ⟨n, m, rfl, hshown, hle⟩⟩
    · exact ⟨hlt, answer, landed, (Function.update_of_ne heq ..).trans hrequest', hlanded⟩
  covered := by
    intro e he
    rcases h.covered e he with hcovered | ⟨r', answer, hr', hrequest', hfresh⟩
    · exact .inl hcovered
    · by_cases heq : r' = r
      · subst heq
        have hsame := Option.some.inj (hrequest.symm.trans hrequest')
        injection hsame with hid _ hanswer _
        rw [← hid]
        exact .inl ⟨m, hshown, Nat.le_trans (hfresh n hanswer.symm) hle⟩
      · exact .inr ⟨r', answer, hr', (Function.update_of_ne heq ..).trans hrequest', hfresh⟩

/-- A request of an earlier generation is about nothing that is shown. -/
theorem Quiet.land (v : View) {r generation : ℕ} {id : Uuid} {answer answer' : Option ℕ} {landed landed' : Bool}
    (hrequest : v.requests r = some (.refresh id generation answer landed)) (hne : generation ≠ v.generation) :
    Quiet v (v.land r (.refresh id generation answer' landed')) where
  rises := .refl v
  generation := rfl
  cursors := rfl
  received := rfl
  refreshes := rfl
  sent := Nat.le_refl _
  requests := by
    intro r' id' a l _ hr'
    apply Function.update_of_ne
    intro heq
    rw [heq, hrequest] at hr'
    injection hr' with hr'
    injection hr' with _ hgeneration
    exact hne hgeneration

theorem Tracks.forget (h : Tracks emitted v) (r : ℕ) : Tracks emitted (v.forget r) := by
  unfold View.forget
  split
  case h_2 => exact h
  case h_1 id generation answer hrequest =>
      -- the request is shared by its own Work or by none
      have hkept (id' : Uuid) (r' : ℕ) (hne : r' ≠ r) (hr' : v.refreshes id' = some r') :
          (if v.refreshes id = some r then Function.update v.refreshes id none else v.refreshes) id' = some r' := by
        split_ifs with hshared
        · have hid : id' ≠ id := by
            intro heq
            rw [heq, hshared] at hr'
            exact hne (Option.some.inj hr').symm
          rw [Function.update_of_ne hid, hr']
        · exact hr'
      have hold (id' : Uuid) (r' : ℕ)
          (hr' : (if v.refreshes id = some r then Function.update v.refreshes id none else v.refreshes) id' = some r') :
          v.refreshes id' = some r' ∧ r' ≠ r := by
        split_ifs at hr' with hshared
        · by_cases hid : id' = id
          · rw [hid, Function.update_self] at hr'
            cases hr'
          · rw [Function.update_of_ne hid] at hr'
            refine ⟨hr', ?_⟩
            intro heq
            obtain ⟨_, _, _, hrequest', _⟩ := h.shared id' r' hr'
            rw [heq, hrequest] at hrequest'
            injection hrequest' with hrequest'
            injection hrequest' with hsame
            exact hid hsame.symm
        · refine ⟨hr', ?_⟩
          intro heq
          obtain ⟨_, _, _, hrequest', _⟩ := h.shared id' r' hr'
          rw [heq, hrequest] at hrequest'
          injection hrequest' with hrequest'
          injection hrequest' with hsame
          rw [heq, ← hsame] at hr'
          exact hshared hr'
      constructor
      case known => exact h.known
      case cursor => exact h.cursor
      case shared =>
        intro id' r' hr'
        obtain ⟨hr, hne⟩ := hold id' r' hr'
        obtain ⟨hlt, answer', landed', hrequest', hlanded⟩ := h.shared id' r' hr
        exact ⟨hlt, answer', landed', (Function.update_of_ne hne ..).trans hrequest', hlanded⟩
      case covered =>
        intro e he
        rcases h.covered e he with hcovered | ⟨r', answer', hr', hrequest', hfresh⟩
        · exact .inl hcovered
        · have hne : r' ≠ r := by
            intro heq
            rw [heq, hrequest] at hrequest'
            cases hrequest'
          exact .inr ⟨r', answer', hkept _ _ hne hr', (Function.update_of_ne hne ..).trans hrequest', hfresh⟩

/-! ### Answers -/

/-- The server answers a refresh with what it has, and only once. -/
theorem answerOf_refresh (s : System) (listed : List Uuid) (next : Option ℕ) (snapshot : Bool) (id : Uuid) (generation : ℕ)
    (answer : Option ℕ) (landed : Bool) :
    s.answerOf listed next snapshot (.refresh id generation answer landed) =
      .refresh id generation (if answer = none ∧ landed = false then some (s.versions id) else answer) landed := by
  cases answer with
  | some n =>
      rw [if_neg (fun h => Option.some_ne_none n h.1)]
      rfl
  | none =>
      cases landed with
      | false => rfl
      | true => rfl

theorem Tracks.answer (hs : Emits s) (h : Tracks s.emitted s.view) (r : ℕ) (listed : List Uuid) (next : Option ℕ)
    (snapshot : Bool) : Tracks s.emitted (s.step (.answer r listed next snapshot)).view := by
  have hrequests (r' : ℕ) : (s.step (.answer r listed next snapshot)).view.requests r' =
      if r' = r then (s.view.requests r').map (s.answerOf listed next snapshot) else s.view.requests r' := by
    show Function.update s.view.requests r _ r' = _
    split_ifs with heq
    · rw [heq, Function.update_self]
    · exact Function.update_of_ne heq ..
  constructor
  case known => exact h.known
  case cursor => exact h.cursor
  case shared =>
      intro id r' hr'
      obtain ⟨hlt, answer, landed, hrequest, hlanded⟩ := h.shared id r' hr'
      by_cases heq : r' = r
      · refine ⟨hlt, if answer = none ∧ landed = false then some (s.versions id) else answer, landed, ?_, ?_⟩
        · rw [hrequests, if_pos heq, hrequest, Option.map_some, answerOf_refresh]
          rfl
        · intro hl
          rw [if_neg (fun hn => Bool.false_ne_true (hn.2.symm.trans hl))]
          exact hlanded hl
      · refine ⟨hlt, answer, landed, ?_, hlanded⟩
        rw [hrequests, if_neg heq]
        exact hrequest
  case covered =>
      intro e he
      rcases h.covered e he with hcovered | ⟨r', answer, hr', hrequest, hfresh⟩
      · exact .inl hcovered
      · by_cases heq : r' = r
        · refine .inr ⟨r', if answer = none ∧ false = false then some (s.versions e.workId) else answer, hr', ?_, ?_⟩
          · rw [hrequests, if_pos heq, hrequest, Option.map_some, answerOf_refresh]
            rfl
          · intro m hm
            split_ifs at hm with hnone
            · cases hm
              exact hs.held e (h.known e he)
            · exact hfresh m hm
        · refine .inr ⟨r', answer, hr', ?_, hfresh⟩
          rw [hrequests, if_neg heq]
          exact hrequest

theorem Tracks.arrive (h : Tracks emitted v) (r : ℕ) (valid : Bool) :
    Tracks emitted (System.arrive v r valid) := by
  unfold System.arrive
  split
  case h_1 id generation version hrequest =>
      split_ifs with hgeneration
      · subst hgeneration
        have hquiet := Quiet.upsert v ⟨id, version⟩
        have hshown : (v.upsert ⟨id, version⟩).version id = some (max ((v.version id).getD 0) version) := by
          rw [View.version_upsert, if_pos rfl]
        have hrequest' : (v.upsert ⟨id, version⟩).requests r = some (.refresh id (v.upsert ⟨id, version⟩).generation (some version) false) := by
          rw [View.upsert_eq]
          exact hrequest
        have hlanded := (hquiet.tracks h).land hrequest' hshown (Nat.le_max_right _ _)
        rw [hquiet.generation] at hlanded
        exact hlanded
      · exact (Quiet.land v hrequest hgeneration).tracks h
  case h_2 scan works next hrequest =>
      apply ((Quiet.settle v ?_).trans (Quiet.page _ scan works next)).tracks h
      intro id answer landed hrefresh
      rw [hrequest] at hrefresh
      cases hrefresh
  case h_3 id snapshot hrequest =>
      have hsettle : Quiet v (v.settle r) := by
        apply Quiet.settle
        intro id answer landed hrefresh
        rw [hrequest] at hrefresh
        cases hrefresh
      split_ifs
      · exact hsettle.tracks h
      · cases snapshot with
        | some work => exact (hsettle.trans (Quiet.upsert _ work)).tracks h
        | none => exact (hsettle.tracks h).refresh id
  case h_4 => exact h

/-! ### Events -/

/-- An event shares the answer of a request that is older than the event. -/
def StaleJoin (s : System) (a : Action) : Prop :=
  ∃ e r id generation version landed, a = .receive e ∧ e ∈ s.emitted ∧ s.view.cursors e.workId < e.eventSeq ∧
    s.view.refreshes e.workId = some r ∧ s.view.requests r = some (.refresh id generation (some version) landed) ∧ version < e.emittedAt

/-- A refresh of this generation fails, or finds its Work gone. -/
def FailedRefresh (s : System) (a : Action) : Prop :=
  ∃ r id answer, ((∃ refused, a = .fail r refused) ∨ a = .unavailable r) ∧
    s.view.requests r = some (.refresh id s.view.generation answer false)

/-- An event that comes late says nothing new. -/
theorem Tracks.receive_late (hs : Emits s) (h : Tracks s.emitted s.view) {e : HpWorkEvent} (he : e ∈ s.emitted)
    (hlate : e.eventSeq ≤ s.view.cursors e.workId) : s.view.Covers e.workId e.emittedAt := by
  rcases h.cursor e.workId with hzero | ⟨e', he', hid, hseq⟩
  · have hpos := (hs.numbered e he).1
    omega
  · have hle := hs.ordered e he e' (h.known e' he') hid.symm (by omega)
    rcases h.covered e' he' with ⟨m, hm, hle'⟩ | ⟨r, answer, hr, hrequest, hfresh⟩
    · exact .inl ⟨m, hid ▸ hm, Nat.le_trans hle hle'⟩
    · exact .inr ⟨r, answer, hid ▸ hr, hid ▸ hrequest, fun m hm => Nat.le_trans hle (hfresh m hm)⟩

/-- After a refresh has been asked for, the event is covered, unless it shares an answer that is older. -/
theorem Tracks.covers_refresh (h : Tracks emitted v) {id : Uuid} {n : ℕ}
    (hfresh : ∀ r id' generation version landed, v.refreshes id = some r → v.requests r = some (.refresh id' generation (some version) landed) →
      n ≤ version) : (v.refresh id).Covers id n := by
  unfold View.refresh
  cases hid : v.refreshes id with
  | none => exact .inr ⟨v.sent, none, Function.update_self .., Function.update_self .., nofun⟩
  | some r =>
      obtain ⟨_, answer, landed, hrequest, hlanded⟩ := h.shared id r hid
      cases hl : landed with
      | true =>
          obtain ⟨k, m, ha, hm, hle⟩ := hlanded hl
          subst ha
          exact .inl ⟨m, hm, Nat.le_trans (hfresh r _ _ k landed hid hrequest) hle⟩
      | false =>
          rw [hl] at hrequest
          refine .inr ⟨r, answer, hid, hrequest, ?_⟩
          intro m hm
          subst hm
          exact hfresh r _ _ m false hid hrequest

theorem Tracks.receive (hs : Emits s) (h : Tracks s.emitted s.view) {e : HpWorkEvent} (he : e ∈ s.emitted)
    (hjoin : ¬ StaleJoin s (.receive e)) : Tracks s.emitted (s.view.receive e) := by
  have hknown : ∀ e' ∈ s.view.received ++ [e], e' ∈ s.emitted := by
    intro e' he'
    rcases List.mem_append.mp he' with he' | he'
    · exact h.known e' he'
    · cases List.mem_singleton.mp he'
      exact he
  unfold View.receive
  dsimp only
  split_ifs with hlate
  · constructor
    case known => exact hknown
    case cursor =>
      intro id
      rcases h.cursor id with hzero | ⟨e', he', hid, hseq⟩
      · exact .inl hzero
      · exact .inr ⟨e', List.mem_append_left _ he', hid, hseq⟩
    case shared => exact h.shared
    case covered =>
      intro e' he'
      rcases List.mem_append.mp he' with he' | he'
      · exact h.covered e' he'
      · cases List.mem_singleton.mp he'
        exact h.receive_late hs he hlate
  · -- the event is noted before its Work is asked for
    have hasked := h.refresh e.workId
    have hcovers : (s.view.refresh e.workId).Covers e.workId e.emittedAt := by
      apply h.covers_refresh
      intro r id' generation version landed hr hrequest
      by_contra hold
      exact hjoin ⟨e, r, id', generation, version, landed, rfl, he, Nat.lt_of_not_le hlate, hr, hrequest, Nat.lt_of_not_le hold⟩
    have hnoted : ({ s.view with
          received := s.view.received ++ [e]
          cursors := Function.update s.view.cursors e.workId e.eventSeq } : View).refresh e.workId =
        { s.view.refresh e.workId with
          received := s.view.received ++ [e]
          cursors := Function.update s.view.cursors e.workId e.eventSeq } := by
      unfold View.refresh
      dsimp only
      cases s.view.refreshes e.workId with
      | none => rfl
      | some _ => rfl
    rw [hnoted]
    constructor
    case known => exact hknown
    case cursor =>
      intro id
      by_cases hid : id = e.workId
      · subst hid
        have hnow : e.eventSeq = Function.update s.view.cursors e.workId e.eventSeq e.workId := by rw [Function.update_self]
        exact .inr ⟨e, List.mem_append_right _ (List.mem_singleton_self e), rfl, hnow⟩
      · rcases h.cursor id with hzero | ⟨e', he', hid', hseq⟩
        · exact .inl ((Function.update_of_ne hid ..).trans hzero)
        · exact .inr ⟨e', List.mem_append_left _ he', hid', hseq.trans (Function.update_of_ne hid ..).symm⟩
    case shared => exact hasked.shared
    case covered =>
      intro e' he'
      rcases List.mem_append.mp he' with he' | he'
      · apply hasked.covered
        have hsame : (s.view.refresh e.workId).received = s.view.received := by
          unfold View.refresh
          cases s.view.refreshes e.workId <;> rfl
        rw [hsame]
        exact he'
      · cases List.mem_singleton.mp he'
        exact hcovers

/-! ### Steps and runs -/

theorem Tracks.fail (h : Tracks emitted v) {r : ℕ} (refused : Bool)
    (hcurrent : ∀ id answer, v.requests r ≠ some (.refresh id v.generation answer false)) : Tracks emitted (System.fail v r refused) := by
  unfold System.fail
  split
  case h_1 id generation answer hrequest =>
      have hne : generation ≠ v.generation := fun heq => hcurrent id answer (heq ▸ hrequest)
      exact (Quiet.land v hrequest hne).tracks h
  case h_2 => exact h
  case h_3 scan answer hrequest =>
      apply ((Quiet.settle v ?_).trans (Quiet.endScan _ scan.token)).tracks h
      intro id a l hrefresh
      rw [hrequest] at hrefresh
      cases hrefresh
  case h_4 id answer hrequest =>
      have hsettle : Quiet v (v.settle r) := by
        apply Quiet.settle
        intro id' a l hrefresh
        rw [hrequest] at hrefresh
        cases hrefresh
      split_ifs
      · exact (hsettle.tracks h).refresh id
      · exact hsettle.tracks h
  case h_5 => exact h

theorem Tracks.unavailable (h : Tracks emitted v) {r : ℕ}
    (hcurrent : ∀ id answer, v.requests r ≠ some (.refresh id v.generation answer false)) :
    Tracks emitted (System.unavailable v r) := by
  unfold System.unavailable
  split
  case h_1 id generation answer hrequest =>
      have hne : generation ≠ v.generation := fun heq => hcurrent id answer (heq ▸ hrequest)
      rw [if_neg hne]
      exact (Quiet.land v hrequest hne).tracks h
  case h_2 => exact h

theorem Tracks.step (hs : Emits s) (h : Tracks s.emitted s.view) {a : Action} (hjoin : ¬ StaleJoin s a)
    (hfailed : ¬ FailedRefresh s a) : Tracks (s.step a).emitted (s.step a).view := by
  cases a with
  | commit id => exact h
  | emit id => exact h.emit _
  | receive e =>
      show Tracks (if e ∈ s.emitted then { s with view := s.view.receive e } else s).emitted
        (if e ∈ s.emitted then { s with view := s.view.receive e } else s).view
      split_ifs with he
      · exact h.receive hs he hjoin
      · exact h
  | refresh id => exact h.refresh id
  | load resume => exact (Quiet.load s.view resume).tracks h
  | cancelScan => exact (Quiet.cancelScan s.view).tracks h
  | command id => exact (Quiet.send s.view _).tracks h
  | answer r listed next snapshot => exact h.answer hs r listed next snapshot
  | arrive r valid => exact h.arrive r valid
  | forget r => exact h.forget r
  | fail r refused => exact h.fail refused fun id answer hr => hfailed ⟨r, id, answer, .inl ⟨refused, rfl⟩, hr⟩
  | unavailable r => exact h.unavailable fun id answer hr => hfailed ⟨r, id, answer, .inr rfl, hr⟩
  | reset => exact ⟨nofun, fun _ => .inl rfl, nofun, nofun⟩

theorem run_concat (actions : List Action) (a : Action) : run (actions ++ [a]) = (run actions).step a := by
  unfold run
  rw [List.foldl_append]
  rfl

theorem emits_run (actions : List Action) : Emits (run actions) := by
  induction actions using List.reverseRecOn with
  | nil => exact emits_start
  | append_singleton actions a ih =>
      rw [run_concat]
      exact ih.step a

theorem tracks_run (actions : List Action)
    (h : ∀ before a after, actions = before ++ a :: after → ¬ StaleJoin (run before) a ∧ ¬ FailedRefresh (run before) a) :
    Tracks (run actions).emitted (run actions).view := by
  induction actions using List.reverseRecOn with
  | nil => exact tracks_start
  | append_singleton actions a ih =>
      rw [run_concat]
      obtain ⟨hjoin, hfailed⟩ := h actions a [] rfl
      apply Tracks.step (emits_run actions) _ hjoin hfailed
      apply ih
      intro before b after heq
      exact h before b (after ++ [a]) (by rw [heq]; simp)

/-! ### What does not go back -/

/-- What a step shows of a Work that stays listed is not older than what was shown. -/
def KeepsVersions (v v' : View) : Prop := ∀ id n m, v.version id = some n → v'.version id = some m → n ≤ m

theorem Rises.keeps {v' : View} (h : Rises v v') : KeepsVersions v v' := by
  intro id n m hn hm
  obtain ⟨k, hk, hle⟩ := h id n hn
  cases hk.symm.trans hm
  exact hle

theorem rises_refresh (v : View) (id : Uuid) : Rises v (v.refresh id) := by
  unfold View.refresh
  cases v.refreshes id <;> exact .refl v

theorem rises_receive (v : View) (e : HpWorkEvent) : Rises v (v.receive e) := by
  unfold View.receive
  dsimp only
  split_ifs
  · exact .refl v
  · exact rises_refresh { v with received := v.received ++ [e], cursors := Function.update v.cursors e.workId e.eventSeq } e.workId

theorem rises_forget (v : View) (r : ℕ) : Rises v (v.forget r) := by
  unfold View.forget
  split <;> exact .refl v

theorem rises_arrive (v : View) (r : ℕ) (valid : Bool) : Rises v (System.arrive v r valid) := by
  unfold System.arrive
  split
  case h_1 id generation version hrequest =>
      split_ifs
      · exact rises_upsert v ⟨id, version⟩
      · exact .refl v
  case h_2 scan works next hrequest => exact (Quiet.page (v.settle r) scan works next).rises
  case h_3 id snapshot hrequest =>
      split_ifs
      · exact .refl v
      · cases snapshot with
        | some work => exact rises_upsert (v.settle r) work
        | none => exact rises_refresh (v.settle r) id
  case h_4 => exact .refl v

theorem rises_fail (v : View) (r : ℕ) (refused : Bool) : Rises v (System.fail v r refused) := by
  unfold System.fail
  split
  case h_1 => exact .refl v
  case h_2 => exact .refl v
  case h_3 scan answer hrequest => exact .refl v
  case h_4 id answer hrequest =>
      split_ifs
      · exact rises_refresh (v.settle r) id
      · exact .refl v
  case h_5 => exact .refl v

theorem version_filter (items : List HpWork) (id gone : Uuid) :
    (items.filter fun w => w.workId ≠ gone).find? (fun w => w.workId = id) =
      if id = gone then none else items.find? fun w => w.workId = id := by
  induction items with
  | nil => simp
  | cons w rest ih =>
      rw [List.filter_cons, List.find?_cons]
      by_cases hw : w.workId = gone
      · rw [if_neg (by simpa using hw), ih]
        split_ifs with hid
        · rfl
        · have hne : w.workId ≠ id := fun h => hid (h.symm.trans hw)
          rw [decide_eq_false hne]
      · rw [if_pos (by simpa using hw), List.find?_cons, ih]
        by_cases hid : w.workId = id
        · have hne : id ≠ gone := fun h => hw (hid.trans h)
          rw [decide_eq_true hid, if_neg hne, if_neg hne]
        · rw [decide_eq_false hid]

theorem keeps_unavailable (v : View) (r : ℕ) : KeepsVersions v (System.unavailable v r) := by
  unfold System.unavailable
  split
  case h_1 id generation answer hrequest =>
      split_ifs
      · intro id' n m hn hm
        have hfiltered : ((v.items.filter fun w => w.workId ≠ id).find? fun w => w.workId = id').map HpWork.rowVersion = some m := hm
        rw [version_filter] at hfiltered
        split_ifs at hfiltered
        · cases hfiltered
        · have hsame : v.version id' = some m := hfiltered
          rw [hn] at hsame
          cases hsame
          exact Nat.le_refl _
      · exact (Rises.refl v).keeps
  case h_2 => exact (Rises.refl v).keeps

theorem keeps_step (s : System) (a : Action) : KeepsVersions s.view (s.step a).view := by
  cases a with
  | commit id | emit id | cancelScan | command id | answer r listed next snapshot => exact (Rises.refl s.view).keeps
  | receive e =>
      show KeepsVersions s.view (if e ∈ s.emitted then { s with view := s.view.receive e } else s).view
      split_ifs
      · exact (rises_receive s.view e).keeps
      · exact (Rises.refl s.view).keeps
  | refresh id => exact (rises_refresh s.view id).keeps
  | load resume => exact (Quiet.load s.view resume).rises.keeps
  | arrive r valid => exact (rises_arrive s.view r valid).keeps
  | forget r => exact (rises_forget s.view r).keeps
  | fail r refused => exact (rises_fail s.view r refused).keeps
  | unavailable r => exact keeps_unavailable s.view r
  | reset => exact fun _ _ _ _ => nofun

/-! ### Catching up -/

/-- No request is on its way, and none is shared. -/
def View.Settled (v : View) : Prop := ∀ r, v.requests r = none

/-- Every event that was received is shown. -/
def View.CaughtUp (v : View) : Prop := ∀ e ∈ v.received, ∃ n, v.version e.workId = some n ∧ e.emittedAt ≤ n

theorem Tracks.caughtUp (h : Tracks emitted v) (hsettled : v.Settled) : v.CaughtUp := by
  intro e he
  rcases h.covered e he with hshown | ⟨r, _, _, hrequest, _⟩
  · exact hshown
  · rw [hsettled r] at hrequest
    cases hrequest

/-- **The Work view.**  A Work that stays listed is never shown at an older version; and where no event shares an answer that is
older and no refresh fails, every event that was received is shown once nothing is on its way. -/
theorem work_view (actions : List Action) :
    (∀ before a after, actions = before ++ a :: after → KeepsVersions (run before).view (run (before ++ [a])).view) ∧
      ((∀ before a after, actions = before ++ a :: after → ¬ StaleJoin (run before) a ∧ ¬ FailedRefresh (run before) a) →
        (run actions).view.Settled → (run actions).view.CaughtUp) := by
  constructor
  · intro before a after _
    rw [run_concat]
    exact keeps_step _ a
  · intro h hsettled
    exact (tracks_run actions h).caughtUp hsettled

/-- One request was sent, answered, shown and forgotten. -/
theorem settled_once {a b c : Option Request}
    (h : v.requests = Function.update (Function.update (Function.update (Function.update (fun _ => none) 0 a) 0 b) 0 c) 0 none) :
    v.Settled := by
  intro r
  rw [h, Function.update_idem, Function.update_idem, Function.update_idem]
  by_cases hr : r = 0
  · rw [hr, Function.update_self]
  · rw [Function.update_of_ne hr]

/-- The Work is asked for only when its event has come. -/
theorem work_view_asked :
    (run [.commit 1, .emit 1, .receive ⟨1, 1, 1⟩, .answer 0 [] none false, .arrive 0 true, .forget 0]).view.CaughtUp := by
  apply (work_view _).2
  · intro before a after heq
    have hmem : a ∈ [Action.commit 1, .emit 1, .receive ⟨1, 1, 1⟩, .answer 0 [] none false, .arrive 0 true, .forget 0] := by
      rw [heq]
      exact List.mem_append_right _ (List.mem_cons_self ..)
    constructor
    · rintro ⟨e, r, id, generation, version, landed, rfl, -, -, hr, -⟩
      rcases before with _ | ⟨_, _ | ⟨_, _ | ⟨_, before⟩⟩⟩
      · cases heq
      · cases heq
      · cases heq
        cases hr
      · simp only [List.cons_append, List.cons.injEq] at heq
        have hlast : Action.receive e ∈ [Action.answer 0 [] none false, .arrive 0 true, .forget 0] := by
          rw [heq.2.2.2]
          exact List.mem_append_right _ (List.mem_cons_self ..)
        simp at hlast
    · rintro ⟨r, id, answer, ⟨refused, rfl⟩ | rfl, -⟩ <;> simp at hmem
  · exact settled_once rfl

/-- A request that the server has answered stands in for the one that an event asks for. -/
def staleRun : List Action :=
  [.commit 1, .refresh 1, .answer 0 [] none false, .commit 1, .emit 1, .receive ⟨1, 1, 2⟩, .arrive 0 true, .forget 0]

/-- The card stays at the older version. -/
theorem work_view_stays_stale :
    (∀ before a after, staleRun = before ++ a :: after → ¬ FailedRefresh (run before) a) ∧ (run staleRun).view.Settled ∧
      ¬ (run staleRun).view.CaughtUp := by
  refine ⟨?_, ?_, ?_⟩
  · intro before a after heq
    have hmem : a ∈ staleRun := by
      rw [heq]
      exact List.mem_append_right _ (List.mem_cons_self ..)
    rintro ⟨r, id, answer, ⟨refused, rfl⟩ | rfl, -⟩ <;> simp [staleRun] at hmem
  · exact settled_once rfl
  · intro h
    obtain ⟨n, hn, hle⟩ := h ⟨1, 1, 2⟩ (List.mem_singleton_self _)
    have hone : (run staleRun).view.version 1 = some 1 := rfl
    rw [hone] at hn
    cases hn
    exact absurd hle (by decide)

end HpAgent.Web
