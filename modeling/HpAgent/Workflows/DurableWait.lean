import HpAgent.Workflows.Segments
import Mathlib.Logic.Function.Basic

/-! # Durable waits

A wait sleeps until it is notified, or for a while, and asks its probe whether it is over.  Notifications come at any
time; between two awaits of the workflow nothing else happens.

* `step`: one notification, or one outcome of what the wait is waiting for.
* `Unheard`: a notification has come and no probe was started since.
* `segments_and_waits`: the laws of the segments and of the waits. -/

namespace HpAgent.Workflows

/-- The states of a row of `agent_run_waits`. -/
inductive WaitState where
  | waiting
  | resumed
  | cancelled
  | expired
deriving DecidableEq, Repr

/-- A call of `DurableWait.run`. -/
structure WaitCall where
  waitId : String
  probe : Bool
deriving DecidableEq, Repr

/-- How the loop was left. -/
inductive Ending where
  | answered
  | deadline
  | raised
  | evicted
deriving DecidableEq, Repr

inductive Phase where
  | idle
  | beginning
  | probing (observed : ℕ)
  | waiting (observed : ℕ)
  | finishing (ending : Ending)
  | done (ending : Ending)
deriving DecidableEq, Repr

inductive WaitEvent where
  | notified (waitId : String)
  | probe
  | answered
  | deadline
  | reported (state : WaitState)
deriving DecidableEq, Repr

/-- The object, the call and the row of the wait. -/
structure DurableWait where
  waitId : Option String
  generation : ℕ
  phase : Phase
  row : Option WaitState
  log : List WaitEvent
deriving DecidableEq, Repr

/-- `late` says that the deadline has been reached when the loop looks at the clock. -/
inductive WaitMove where
  | notify (waitId : String)
  | call
  | begun (late : Bool)
  | beginRaises
  | probed (answer late : Bool)
  | probeRaises
  | wake (late : Bool)
  | timer (late : Bool)
  | cancel
  | evict
  | finished (active : Bool)
  | finishRaises
deriving DecidableEq, Repr

/-- The state that is reported for an ending. -/
def WaitCall.state (w : WaitCall) : Ending → WaitState
  | .answered => .resumed
  | .deadline => if w.probe then .expired else .resumed
  | .raised | .evicted => .cancelled

namespace DurableWait

/-- The object before the call. -/
def start (waitId : Option String) (generation : ℕ) (row : Option WaitState) : DurableWait := ⟨waitId, generation, .idle, row, []⟩

/-- The clock is looked at. -/
def check (s : DurableWait) (observed : ℕ) (late : Bool) : DurableWait :=
  if late then { s with phase := .finishing .deadline, log := s.log ++ [.deadline] } else { s with phase := .waiting observed }

/-- The top of the loop. -/
def top (w : WaitCall) (s : DurableWait) (late : Bool) : DurableWait :=
  if w.probe then { s with phase := .probing s.generation, log := s.log ++ [.probe] } else s.check s.generation late

/-- `begin_wait`. -/
def beginWait : Option WaitState → Option WaitState
  | none => some .waiting
  | row => row

/-- `finish_wait`. -/
def finishWait (state : WaitState) (active : Bool) : Option WaitState → Option WaitState
  | some .waiting => some (if active then state else .cancelled)
  | row => row

/-- The loop is left. -/
def leave (s : DurableWait) (ending : Ending) : DurableWait := { s with phase := .finishing ending }

/-- A move that is not possible changes nothing. -/
def step (w : WaitCall) (s : DurableWait) : WaitMove → DurableWait
  | .notify waitId =>
      { s with generation := if some waitId = s.waitId then s.generation + 1 else s.generation, log := s.log ++ [.notified waitId] }
  | .call =>
      match s.phase with
      | .idle => { s with waitId := some w.waitId, phase := .beginning }
      | _ => s
  | .begun late =>
      match s.phase with
      | .beginning => top w { s with row := beginWait s.row } late
      | _ => s
  | .beginRaises =>
      match s.phase with
      | .beginning => s.leave .raised
      | _ => s
  | .probed answer late =>
      match s.phase, answer with
      | .probing _, true => { s.leave .answered with log := s.log ++ [.answered] }
      | .probing observed, false => s.check observed late
      | _, _ => s
  | .probeRaises =>
      match s.phase with
      | .probing _ => s.leave .raised
      | _ => s
  | .wake late =>
      match s.phase with
      | .waiting observed => if s.generation = observed then s else s.top w late
      | _ => s
  | .timer late =>
      match s.phase with
      | .waiting _ => s.top w late
      | _ => s
  | .cancel =>
      match s.phase with
      | .beginning | .probing _ | .waiting _ => s.leave .raised
      | _ => s
  | .evict =>
      match s.phase with
      | .beginning | .probing _ | .waiting _ => { s with waitId := none, phase := .done .evicted }
      | _ => s
  | .finished active =>
      match s.phase with
      | .finishing e =>
          { s with
            waitId := none
            phase := .done e
            row := finishWait (w.state e) active s.row
            log := s.log ++ [.reported (w.state e)] }
      | _ => s
  | .finishRaises =>
      match s.phase with
      | .finishing e => { s with phase := .done e }
      | _ => s

/-- A run of the wait. -/
def run (w : WaitCall) (s : DurableWait) (moves : List WaitMove) : DurableWait := moves.foldl (step w) s

/-- The number of probes. -/
def probes (s : DurableWait) : ℕ := s.log.count .probe

/-- The loop has not been left. -/
def Open : Phase → Prop
  | .finishing _ | .done _ => False
  | _ => True

instance (phase : Phase) : Decidable (Open phase) := by
  cases phase <;> unfold Open <;> infer_instance

/-- What the workflow does on its own when nothing ends the wait. -/
def onward : Phase → List WaitMove
  | .idle => [.call, .begun false]
  | .beginning => [.begun false]
  | .probing _ => [.probed false false, .wake false]
  | .waiting _ => [.wake false]
  | _ => []

/-! ### Notifications -/

/-- A notification has come since the last probe was started. -/
def unheard (w : WaitCall) (log : List WaitEvent) : Bool :=
  log.foldl (fun u e => match e with
    | .notified waitId => u || waitId = w.waitId
    | .probe => false
    | _ => u) false

/-- While a probe has been started and the loop goes on, the generation counts the notifications since. -/
structure Counted (w : WaitCall) (s : DurableWait) (observed : ℕ) : Prop where
  waitId : s.waitId = some w.waitId
  le : observed ≤ s.generation
  lt : unheard w s.log = true → observed < s.generation

/-- The loop of a wait with a probe. -/
def Watches (w : WaitCall) (s : DurableWait) : Prop :=
  match s.phase with
  | .beginning => s.waitId = some w.waitId
  | .probing observed | .waiting observed => Counted w s observed
  | _ => True

section notifications

variable {w : WaitCall} {s : DurableWait}

theorem unheard_probe (w : WaitCall) (log : List WaitEvent) : unheard w (log ++ [.probe]) = false := by
  unfold unheard
  rw [List.foldl_concat]

theorem unheard_notified (w : WaitCall) (log : List WaitEvent) (waitId : String) :
    unheard w (log ++ [.notified waitId]) = (unheard w log || decide (waitId = w.waitId)) := by
  unfold unheard
  rw [List.foldl_concat]

theorem watches_top (hprobe : w.probe = true) (hwait : s.waitId = some w.waitId) (late : Bool) : Watches w (s.top w late) := by
  unfold top
  rw [if_pos hprobe]
  refine ⟨hwait, le_rfl, fun h => ?_⟩
  dsimp only at h
  rw [unheard_probe] at h
  cases h

theorem Counted.notify {observed : ℕ} (h : Counted w s observed) (waitId : String) : Counted w (s.step w (.notify waitId)) observed := by
  unfold step
  dsimp only
  by_cases hsame : waitId = w.waitId
  · have hown : some waitId = s.waitId := by rw [hsame, h.waitId]
    have hle := h.le
    rw [if_pos hown]
    exact ⟨h.waitId, by dsimp only; omega, fun _ => by dsimp only; omega⟩
  · have hother : some waitId ≠ s.waitId := by
      rw [h.waitId]
      exact fun heq => hsame (Option.some.inj heq)
    rw [if_neg hother]
    refine ⟨h.waitId, h.le, fun hu => h.lt ?_⟩
    dsimp only at hu
    rw [unheard_notified, decide_eq_false hsame, Bool.or_false] at hu
    exact hu

theorem Watches.step (hprobe : w.probe = true) (h : Watches w s) (m : WaitMove) : Watches w (s.step w m) := by
  have hw := h
  unfold Watches at hw
  cases m with
  | notify waitId =>
      have hphase : (s.step w (.notify waitId)).phase = s.phase := rfl
      unfold Watches
      rw [hphase]
      split at hw
      · next hs => exact hw
      · next observed hs => exact hw.notify waitId
      · next observed hs => exact hw.notify waitId
      · trivial
  | call =>
      unfold DurableWait.step
      dsimp only
      split
      · exact rfl
      · exact h
  | begun late =>
      unfold DurableWait.step
      dsimp only
      split
      · next hs =>
          rw [hs] at hw
          exact watches_top (s := { s with row := beginWait s.row }) hprobe hw late
      · exact h
  | probed answer late =>
      unfold DurableWait.step
      dsimp only
      split
      · trivial
      · next observed hs =>
          rw [hs] at hw
          unfold check
          split
          · trivial
          · exact ⟨hw.waitId, hw.le, hw.lt⟩
      · exact h
  | wake late =>
      unfold DurableWait.step
      dsimp only
      split
      · next observed hs =>
          rw [hs] at hw
          split
          · exact h
          · exact watches_top hprobe hw.waitId late
      · exact h
  | timer late =>
      unfold DurableWait.step
      dsimp only
      split
      · next observed hs =>
          rw [hs] at hw
          exact watches_top hprobe hw.waitId late
      · exact h
  | beginRaises =>
      unfold DurableWait.step
      dsimp only
      split
      · trivial
      · exact h
  | probeRaises =>
      unfold DurableWait.step
      dsimp only
      split
      · trivial
      · exact h
  | cancel =>
      unfold DurableWait.step
      dsimp only
      split <;> trivial
  | evict =>
      unfold DurableWait.step
      dsimp only
      split <;> trivial
  | finished active =>
      unfold DurableWait.step
      dsimp only
      split
      · trivial
      · exact h
  | finishRaises =>
      unfold DurableWait.step
      dsimp only
      split
      · trivial
      · exact h

theorem run_concat (w : WaitCall) (s : DurableWait) (moves : List WaitMove) (m : WaitMove) :
    run w s (moves ++ [m]) = (run w s moves).step w m := List.foldl_concat _ _ _ _

theorem run_append (w : WaitCall) (s : DurableWait) (a b : List WaitMove) : run w s (a ++ b) = run w (run w s a) b :=
  List.foldl_append

/-- Asleep, a wait has heard every notification. -/
theorem watches_run (hprobe : w.probe = true) (waitId : Option String) (generation : ℕ) (row : Option WaitState)
    (moves : List WaitMove) : Watches w (run w (start waitId generation row) moves) := by
  induction moves using List.reverseRecOn with
  | nil => trivial
  | append_singleton moves m ih =>
      rw [run_concat]
      exact ih.step hprobe m

/-! ### A probe follows -/

/-- A notification is waited for: a probe has been started since, or the loop has been left, or it is still to come. -/
inductive Answered (w : WaitCall) (n : ℕ) (s : DurableWait) : Prop
  | probed (h : n < s.probes)
  | ended (h : ¬Open s.phase)
  | coming (hopen : Open s.phase) (hcount : s.probes = n) (h : unheard w s.log = true)

theorem probes_snoc (log : List WaitEvent) (e : WaitEvent) : log.count .probe ≤ (log ++ [e]).count .probe := by
  rw [List.count_append]
  omega

theorem probes_top (hprobe : w.probe = true) (late : Bool) : (s.top w late).probes = s.probes + 1 := by
  unfold top probes
  rw [if_pos hprobe]
  dsimp only
  rw [List.count_append]
  rfl

theorem step_probes (hprobe : w.probe = true) (m : WaitMove) : s.probes ≤ (s.step w m).probes := by
  have htop (t : DurableWait) (late : Bool) : t.probes ≤ (t.top w late).probes := by
    rw [probes_top hprobe]
    omega
  cases m with
  | notify waitId => exact probes_snoc s.log _
  | begun late =>
      unfold step
      dsimp only
      split
      · exact htop { s with row := beginWait s.row } late
      · exact le_rfl
  | probed answer late =>
      unfold step
      dsimp only
      split
      · exact probes_snoc s.log _
      · unfold check
        split
        · exact probes_snoc s.log _
        · exact le_rfl
      · exact le_rfl
  | wake late =>
      unfold step
      dsimp only
      split
      · split
        · exact le_rfl
        · exact htop _ late
      · exact le_rfl
  | timer late =>
      unfold step
      dsimp only
      split
      · exact htop _ late
      · exact le_rfl
  | finished active =>
      unfold step
      dsimp only
      split
      · exact probes_snoc s.log _
      · exact le_rfl
  | _ =>
      unfold step
      dsimp only
      split <;> exact le_rfl

theorem step_over (h : ¬Open s.phase) (m : WaitMove) : ¬Open (s.step w m).phase := by
  unfold Open at h
  split at h
  · next e hs =>
      cases m <;> unfold step <;> simp only [hs] <;> trivial
  · next e hs =>
      cases m <;> unfold step <;> simp only [hs] <;> trivial
  · exact absurd trivial h

/-- A notification that has come while the loop was not left is waited for. -/
theorem Answered.step {n : ℕ} (hprobe : w.probe = true) (h : Answered w n s) (m : WaitMove) : Answered w n (s.step w m) := by
  cases h with
  | probed h => exact .probed (h.trans_le (step_probes hprobe m))
  | ended h => exact .ended (step_over h m)
  | coming hopen hcount hu =>
      have htop (t : DurableWait) (ht : t.log = s.log) (late : Bool) : Answered w n (t.top w late) := by
        apply Answered.probed
        rw [probes_top hprobe]
        unfold probes at hcount ⊢
        rw [ht]
        omega
      cases m with
      | notify waitId =>
          refine .coming hopen ?_ ?_
          · rw [← hcount]
            show (s.log ++ [WaitEvent.notified waitId]).count WaitEvent.probe = s.log.count WaitEvent.probe
            rw [List.count_append]
            rfl
          · show unheard w (s.log ++ [.notified waitId]) = true
            rw [unheard_notified, hu]
            rfl
      | call =>
          unfold DurableWait.step
          dsimp only
          split
          · exact .coming trivial hcount hu
          · exact .coming hopen hcount hu
      | begun late =>
          unfold DurableWait.step
          dsimp only
          split
          · exact htop { s with row := beginWait s.row } rfl late
          · exact .coming hopen hcount hu
      | probed answer late =>
          unfold DurableWait.step
          dsimp only
          split
          · exact .ended id
          · unfold check
            split
            · exact .ended id
            · exact .coming trivial hcount hu
          · exact .coming hopen hcount hu
      | wake late =>
          unfold DurableWait.step
          dsimp only
          split
          · split
            · exact .coming hopen hcount hu
            · exact htop s rfl late
          · exact .coming hopen hcount hu
      | timer late =>
          unfold DurableWait.step
          dsimp only
          split
          · exact htop s rfl late
          · exact .coming hopen hcount hu
      | _ =>
          unfold DurableWait.step
          dsimp only
          split <;> first | exact .ended id | exact .coming hopen hcount hu

/-- What is still to come does come, when nothing ends the wait: the wait is not asleep. -/
theorem onward_probes (hprobe : w.probe = true) (hwatches : Watches w s) (hopen : Open s.phase) (hu : unheard w s.log = true) :
    s.probes < (run w s (onward s.phase)).probes := by
  have htop (t : DurableWait) (ht : t.log = s.log) (late : Bool) : s.probes < (t.top w late).probes := by
    rw [probes_top hprobe]
    unfold probes
    rw [ht]
    omega
  unfold Watches at hwatches
  cases hs : s.phase with
  | idle =>
      have hrun : run w s (onward .idle) = top w { s with waitId := some w.waitId, phase := .beginning, row := beginWait s.row } false := by
        unfold run onward
        simp only [List.foldl_cons, List.foldl_nil, DurableWait.step, hs]
      rw [hrun]
      exact htop { s with waitId := some w.waitId, phase := .beginning, row := beginWait s.row } rfl false
  | beginning =>
      have hrun : run w s (onward .beginning) = top w { s with row := beginWait s.row } false := by
        unfold run onward
        simp only [List.foldl_cons, List.foldl_nil, DurableWait.step, hs]
      rw [hrun]
      exact htop { s with row := beginWait s.row } rfl false
  | probing observed =>
      rw [hs] at hwatches
      have hne : s.generation ≠ observed := (hwatches.lt hu).ne'
      have hrun : run w s (onward (.probing observed)) = top w { s with phase := .waiting observed } false := by
        unfold run onward
        simp only [List.foldl_cons, List.foldl_nil, DurableWait.step, hs, check, Bool.false_eq_true, if_false, if_neg hne]
      rw [hrun]
      exact htop { s with phase := .waiting observed } rfl false
  | waiting observed =>
      rw [hs] at hwatches
      have hne : s.generation ≠ observed := (hwatches.lt hu).ne'
      have hrun : run w s (onward (.waiting observed)) = top w s false := by
        unfold run onward
        simp only [List.foldl_cons, List.foldl_nil, DurableWait.step, hs, if_neg hne]
      rw [hrun]
      exact htop s rfl false
  | finishing e =>
      rw [hs] at hopen
      exact hopen.elim
  | done e =>
      rw [hs] at hopen
      exact hopen.elim

/-- What a report of `resumed` rests on. -/
def cause (w : WaitCall) : WaitEvent := if w.probe then .answered else .deadline

/-- A wait is reported as resumed, in its row as well, only with its cause. -/
structure Grounded (w : WaitCall) (row : Option WaitState) (s : DurableWait) : Prop where
  reported : .reported .resumed ∈ s.log → cause w ∈ s.log
  ending : ∀ e, s.phase = .finishing e → w.state e = .resumed → cause w ∈ s.log
  row : s.row = some .resumed → row = some .resumed ∨ cause w ∈ s.log

variable {row : Option WaitState}

/-- A move that leaves the row alone, and adds at most an event that is no report. -/
theorem Grounded.quiet {t : DurableWait} (h : Grounded w row s) (hrow : t.row = some .resumed → s.row = some .resumed)
    (hlog : ∃ es, t.log = s.log ++ es ∧ .reported .resumed ∉ es)
    (hending : ∀ e, t.phase = .finishing e → w.state e = .resumed → cause w ∈ t.log) : Grounded w row t := by
  obtain ⟨es, hlog, hnone⟩ := hlog
  refine ⟨fun hmem => ?_, hending, fun hresumed => ?_⟩
  · rw [hlog] at hmem ⊢
    exact List.mem_append_left _ (h.reported ((List.mem_append.mp hmem).resolve_right hnone))
  · rw [hlog]
    exact (h.row (hrow hresumed)).imp id (List.mem_append_left _)

theorem grounded_same (h : Grounded w row s) (waitId : Option String) (phase : Phase) (hphase : ∀ e, phase = .finishing e → e = .raised) :
    Grounded w row { s with waitId := waitId, phase := phase } := by
  refine h.quiet id ⟨[], (List.append_nil _).symm, List.not_mem_nil⟩ fun e he hresumed => ?_
  rw [hphase e he] at hresumed
  cases hresumed

theorem grounded_check (h : Grounded w row s) (observed : ℕ) (late : Bool) : Grounded w row (s.check observed late) := by
  unfold check
  split
  · refine h.quiet id ⟨[.deadline], rfl, by simp⟩ fun e he hresumed => ?_
    obtain rfl := Phase.finishing.inj he
    have hstate : w.state .deadline = if w.probe then .expired else .resumed := rfl
    rw [hstate] at hresumed
    split at hresumed
    · cases hresumed
    · next hprobe =>
        unfold cause
        rw [if_neg hprobe]
        exact List.mem_append_right _ (List.mem_singleton.mpr rfl)
  · exact h.quiet id ⟨[], (List.append_nil _).symm, List.not_mem_nil⟩ nofun

theorem grounded_top (h : Grounded w row s) (late : Bool) : Grounded w row (s.top w late) := by
  unfold top
  split
  · exact h.quiet id ⟨[.probe], rfl, by simp⟩ nofun
  · exact grounded_check h _ late

theorem grounded_answered (h : Grounded w row s) (hprobe : w.probe = true) :
    Grounded w row { s.leave .answered with log := s.log ++ [.answered] } := by
  refine h.quiet id ⟨[.answered], rfl, by simp⟩ fun e he hresumed => ?_
  unfold cause
  rw [if_pos hprobe]
  exact List.mem_append_right _ (List.mem_singleton.mpr rfl)

theorem grounded_finished (h : Grounded w row s) {e : Ending} (hs : s.phase = .finishing e) (active : Bool) :
    Grounded w row { s with
      waitId := none
      phase := .done e
      row := finishWait (w.state e) active s.row
      log := s.log ++ [.reported (w.state e)] } := by
  have hcause (hresumed : w.state e = .resumed) : cause w ∈ s.log ++ [.reported (w.state e)] :=
    List.mem_append_left _ (h.ending e hs hresumed)
  refine ⟨fun hmem => ?_, nofun, fun hresumed => ?_⟩
  · obtain hbefore | hnow := List.mem_append.mp hmem
    · exact List.mem_append_left _ (h.reported hbefore)
    · exact hcause (WaitEvent.reported.inj (List.mem_singleton.mp hnow)).symm
  · dsimp only at hresumed
    unfold finishWait at hresumed
    split at hresumed
    · cases active with
      | true => exact .inr (hcause (Option.some.inj hresumed))
      | false => cases hresumed
    · exact (h.row hresumed).imp id (List.mem_append_left _)

/-- Only a wait with a probe is ever probing. -/
def ProbesOnly (w : WaitCall) (s : DurableWait) : Prop := ∀ observed, s.phase = .probing observed → w.probe = true

theorem probesOnly_top (w : WaitCall) (s : DurableWait) (late : Bool) : ProbesOnly w (s.top w late) := by
  intro observed
  unfold top
  split
  · next hprobe => exact fun _ => hprobe
  · unfold check
    split <;> nofun

theorem ProbesOnly.step (h : ProbesOnly w s) (m : WaitMove) : ProbesOnly w (s.step w m) := by
  cases m with
  | notify waitId => exact h
  | begun late =>
      unfold DurableWait.step
      dsimp only
      split
      · exact probesOnly_top w _ late
      · exact h
  | wake late =>
      unfold DurableWait.step
      dsimp only
      split
      · split
        · exact h
        · exact probesOnly_top w s late
      · exact h
  | timer late =>
      unfold DurableWait.step
      dsimp only
      split
      · exact probesOnly_top w s late
      · exact h
  | probed answer late =>
      unfold DurableWait.step
      dsimp only
      split
      · nofun
      · unfold check
        split <;> nofun
      · exact h
  | _ =>
      unfold DurableWait.step
      dsimp only
      split <;> first | (intro _ hphase; cases hphase) | exact h

theorem Grounded.step (hprobing : ProbesOnly w s) (h : Grounded w row s) (m : WaitMove) : Grounded w row (s.step w m) := by
  cases m with
  | notify waitId =>
      refine h.quiet id ⟨[.notified waitId], rfl, by simp⟩ fun e he hresumed => ?_
      exact List.mem_append_left _ (h.ending e he hresumed)
  | call =>
      unfold DurableWait.step
      dsimp only
      split
      · exact grounded_same h _ _ nofun
      · exact h
  | begun late =>
      unfold DurableWait.step
      dsimp only
      split
      · apply grounded_top
        refine h.quiet (fun hrow => ?_) ⟨[], (List.append_nil _).symm, List.not_mem_nil⟩ h.ending
        dsimp only at hrow
        cases hs : s.row with
        | none =>
            rw [hs] at hrow
            cases hrow
        | some state =>
            rw [hs] at hrow
            exact hrow
      · exact h
  | probed answer late =>
      unfold DurableWait.step
      dsimp only
      split
      · next observed hs => exact grounded_answered h (hprobing observed hs)
      · exact grounded_check h _ late
      · exact h
  | wake late =>
      unfold DurableWait.step
      dsimp only
      split
      · split
        · exact h
        · exact grounded_top h late
      · exact h
  | timer late =>
      unfold DurableWait.step
      dsimp only
      split
      · exact grounded_top h late
      · exact h
  | finished active =>
      unfold DurableWait.step
      dsimp only
      split
      · next e hs => exact grounded_finished h hs active
      · exact h
  | beginRaises =>
      unfold DurableWait.step
      dsimp only
      split
      · exact grounded_same h _ _ fun e he => (Phase.finishing.inj he).symm
      · exact h
  | probeRaises =>
      unfold DurableWait.step
      dsimp only
      split
      · exact grounded_same h _ _ fun e he => (Phase.finishing.inj he).symm
      · exact h
  | cancel =>
      unfold DurableWait.step
      dsimp only
      split
      · exact grounded_same h _ _ fun e he => (Phase.finishing.inj he).symm
      · exact grounded_same h _ _ fun e he => (Phase.finishing.inj he).symm
      · exact grounded_same h _ _ fun e he => (Phase.finishing.inj he).symm
      · exact h
  | evict =>
      unfold DurableWait.step
      dsimp only
      split
      · exact grounded_same h _ _ nofun
      · exact grounded_same h _ _ nofun
      · exact grounded_same h _ _ nofun
      · exact h
  | finishRaises =>
      unfold DurableWait.step
      dsimp only
      split
      · exact grounded_same h _ _ nofun
      · exact h

theorem grounded_run (w : WaitCall) (waitId : Option String) (generation : ℕ) (row : Option WaitState) (moves : List WaitMove) :
    ProbesOnly w (run w (start waitId generation row) moves) ∧ Grounded w row (run w (start waitId generation row) moves) := by
  induction moves using List.reverseRecOn with
  | nil => exact ⟨nofun, nofun, nofun, .inl⟩
  | append_singleton moves m ih =>
      rw [run_concat]
      exact ⟨ih.1.step m, ih.2.step ih.1 m⟩

end notifications

end DurableWait

/-- A notification that comes before the loop is left is waited for ever after. -/
theorem DurableWait.answered_run {w : WaitCall} (hprobe : w.probe = true) {s : DurableWait} (hopen : DurableWait.Open s.phase)
    (after : List WaitMove) : DurableWait.Answered w s.probes (s.run w (.notify w.waitId :: after)) := by
  have hfirst : DurableWait.Answered w s.probes (s.step w (.notify w.waitId)) := by
    refine .coming hopen ?_ ?_
    · show (s.log ++ [WaitEvent.notified w.waitId]).count WaitEvent.probe = s.log.count WaitEvent.probe
      rw [List.count_append]
      rfl
    · show DurableWait.unheard w (s.log ++ [.notified w.waitId]) = true
      rw [DurableWait.unheard_notified, decide_eq_true rfl, Bool.or_true]
  have hrun : s.run w (.notify w.waitId :: after) = (s.step w (.notify w.waitId)).run w after := rfl
  rw [hrun]
  induction after using List.reverseRecOn with
  | nil => exact hfirst
  | append_singleton after m ih =>
      rw [DurableWait.run_concat]
      exact (ih rfl).step hprobe m

/-! ### The laws -/

/-- In every run, the body of a segment is run at most as often as the policy says, and every segment that was acquired
is released before the next acquire or backoff, and its release is asked for in any case.  A notification that comes
while a wait with a probe is not over leads to a further probe, unless the wait is over first; and a wait is reported as
resumed only after its probe has said so or, without a probe, after its deadline. -/
theorem segments_and_waits (retry : RetryPolicy) (outcomes : List Outcome) (w : WaitCall) (waitId : Option String)
    (generation : ℕ) (row : Option WaitState) (moves : List WaitMove) :
    bodies (Loop.run retry outcomes).log ≤ retry.maximumAttempts ∧
      Orderly (Loop.run retry outcomes).log ∧
      ((Loop.run retry outcomes).position = .done →
        ∀ a b j, (Loop.run retry outcomes).log = a ++ .acquired j :: b → .release j ∈ b) ∧
      (w.probe = true → ∀ before after, moves = before ++ .notify w.waitId :: after →
        DurableWait.Open (DurableWait.run w (.start waitId generation row) before).phase →
        (DurableWait.run w (.start waitId generation row) before).probes <
            (DurableWait.run w (.start waitId generation row) moves).probes ∨
          ¬DurableWait.Open (DurableWait.run w (.start waitId generation row) moves).phase ∨
          (DurableWait.run w (.start waitId generation row) moves).probes <
            (DurableWait.run w (DurableWait.run w (.start waitId generation row) moves)
              (DurableWait.onward (DurableWait.run w (.start waitId generation row) moves).phase)).probes) ∧
      (.reported .resumed ∈ (DurableWait.run w (.start waitId generation row) moves).log →
        DurableWait.cause w ∈ (DurableWait.run w (.start waitId generation row) moves).log) ∧
      ((DurableWait.run w (.start waitId generation row) moves).row = some .resumed →
        row = some .resumed ∨ DurableWait.cause w ∈ (DurableWait.run w (.start waitId generation row) moves).log) := by
  have hkept := kept_run retry outcomes
  obtain ⟨-, hgrounded⟩ := DurableWait.grounded_run w waitId generation row moves
  refine ⟨bodies_run_le retry outcomes, hkept.orderly, fun hdone a b j => release_of_done hdone, ?_, hgrounded.reported, hgrounded.row⟩
  rintro hprobe before after rfl hopen
  have hanswered := DurableWait.answered_run hprobe hopen after
  rw [← DurableWait.run_append] at hanswered
  cases hanswered with
  | probed h => exact .inl h
  | ended h => exact .inr (.inl h)
  | coming hopen' hcount hu =>
      have hwatches := DurableWait.watches_run hprobe waitId generation row (before ++ .notify w.waitId :: after)
      exact .inr (.inr (DurableWait.onward_probes hprobe hwatches hopen' hu))

/-- A wait without a probe resumes at its deadline, and a notification that comes during the last probe before the
deadline is followed by none. -/
theorem wait_ends_without_probe :
    (.reported .resumed ∈ (DurableWait.run ⟨"w", false⟩ (.start none 0 none) [.call, .begun true, .finished true]).log ∧
      (DurableWait.run ⟨"w", false⟩ (.start none 0 none) [.call, .begun true, .finished true]).probes = 0) ∧
    (DurableWait.run ⟨"w", true⟩ (.start none 0 none) [.call, .begun false]).probes =
      (DurableWait.run ⟨"w", true⟩ (.start none 0 none)
        [.call, .begun false, .notify "w", .probed false true, .finished true]).probes := by
  decide

end HpAgent.Workflows
