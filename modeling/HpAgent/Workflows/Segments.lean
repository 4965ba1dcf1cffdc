import Mathlib.Data.List.Induction
import Mathlib.Data.List.Infix

/-! # Segments of a workflow

A segment runs an activity while it holds the lease of its execution.  The loop of `execute_segment` acquires a segment,
runs the body once, releases the segment, and waits before it tries again.

* `step`: one outcome of what the workflow is waiting for.
* `Clear`: every segment that was acquired has been released.
* `run_keeps`: what a run of the loop keeps. -/

namespace HpAgent.Workflows

/-- The cause of a failed activity, when it is an application error. -/
structure ApplicationError where
  type : Option String
  nonRetryable : Bool
deriving DecidableEq, Repr

/-- A failed activity. -/
structure ActivityError where
  cancelled : Bool
  cause : Option ApplicationError
deriving DecidableEq, Repr

/-- A bounded retry policy; the delays are left out. -/
structure RetryPolicy where
  maximumAttempts : ℕ
  nonRetryableErrorTypes : List String
  bounded : 0 < maximumAttempts

/-- How the body of the `try` was left. -/
inductive Ended where
  | returned
  | failed (error : ActivityError)
  | raised
deriving DecidableEq, Repr

/-- Where the loop stands; each attempt has a segment of its own. -/
inductive Position where
  | acquiring (attempt : ℕ)
  /-- another segment has the lease -/
  | conflict (attempt : ℕ)
  | running (attempt : ℕ)
  | releasing (attempt : ℕ) (ended : Ended)
  | backoff (attempt : ℕ)
  | done
deriving DecidableEq, Repr

inductive Event where
  | acquire (attempt : ℕ)
  | acquired (attempt : ℕ)
  | body (attempt : ℕ)
  | release (attempt : ℕ)
  | released (attempt : ℕ)
  | backoff (attempt : ℕ)
deriving DecidableEq, Repr

structure Loop where
  position : Position
  log : List Event
deriving DecidableEq, Repr

/-- What the workflow is told.  An acquire that fails may have been committed all the same. -/
inductive Outcome where
  | acquired
  | conflict
  | acquireRaises (committed : Bool)
  | awake
  | cancelled
  | returns
  | fails (error : ActivityError)
  | raises
  | released
  | releaseRaises
deriving DecidableEq, Repr

/-- The error ends the loop: it is a cancellation, it must not be retried, or this was the last attempt. -/
def RetryPolicy.givesUp (retry : RetryPolicy) (attempt : ℕ) (error : ActivityError) : Bool :=
  error.cancelled ||
    (match error.cause with
      | none => false
      | some cause =>
          cause.type = some "run_not_executable" || (cause.nonRetryable && cause.type ≠ some "stale_fencing_token") ||
            cause.type.any fun type => retry.nonRetryableErrorTypes.contains type) ||
    attempt = retry.maximumAttempts

namespace Loop

def start : Loop := ⟨.acquiring 1, [.acquire 1]⟩

/-- `finally`: the segment is released, whether it was acquired or not. -/
def leave (l : Loop) (attempt : ℕ) (ended : Ended) : Loop := ⟨.releasing attempt ended, l.log ++ [.release attempt]⟩

/-- What follows the release. -/
def proceed (retry : RetryPolicy) (l : Loop) (attempt : ℕ) (ended : Ended) : Loop :=
  match ended with
  | .failed error =>
      if retry.givesUp attempt error then ⟨.done, l.log ++ [.released attempt]⟩
      else ⟨.backoff attempt, l.log ++ [.released attempt] ++ [.backoff attempt]⟩
  | _ => ⟨.done, l.log ++ [.released attempt]⟩

/-- One outcome; one that the workflow is not waiting for changes nothing. -/
def step (retry : RetryPolicy) (l : Loop) (outcome : Outcome) : Loop :=
  match l.position, outcome with
  | .acquiring k, .acquired => ⟨.running k, l.log ++ [.acquired k] ++ [.body k]⟩
  | .acquiring k, .conflict => ⟨.conflict k, l.log ++ [.backoff k]⟩
  | .acquiring k, .acquireRaises true => leave ⟨.acquiring k, l.log ++ [.acquired k]⟩ k .raised
  | .acquiring k, .acquireRaises false => l.leave k .raised
  | .conflict k, .awake => ⟨.acquiring k, l.log ++ [.acquire k]⟩
  | .conflict k, .cancelled => l.leave k .raised
  | .running k, .returns => l.leave k .returned
  | .running k, .fails error => l.leave k (.failed error)
  | .running k, .raises => l.leave k .raised
  | .releasing k ended, .released => l.proceed retry k ended
  | .releasing _ _, .releaseRaises => ⟨.done, l.log⟩
  | .backoff k, .awake => ⟨.acquiring (k + 1), l.log ++ [.acquire (k + 1)]⟩
  | .backoff _, .cancelled => ⟨.done, l.log⟩
  | _, _ => l

/-- `execute_segment`, under any order of outcomes. -/
def run (retry : RetryPolicy) (outcomes : List Outcome) : Loop := outcomes.foldl (step retry) start

end Loop

/-! ### Logs -/

/-- Every segment that was acquired, but perhaps this one, is followed by this event. -/
def Followed (f : ℕ → Event) (k : Option ℕ) (log : List Event) : Prop :=
  ∀ a b j, log = a ++ .acquired j :: b → some j = k ∨ f j ∈ b

/-- Every segment that was acquired has been released. -/
def Clear (log : List Event) : Prop := ∀ a b j, log = a ++ .acquired j :: b → .released j ∈ b

/-- Before every acquire and every backoff, the segments acquired until then have been released. -/
def Orderly (log : List Event) : Prop :=
  ∀ a b e, log = a ++ e :: b → (∃ k, e = .acquire k ∨ e = .backoff k) → Clear a

/-- The number of times the body was run. -/
def bodies (log : List Event) : ℕ := log.countP fun e => match e with | .body _ => true | _ => false

theorem Followed.clear {log : List Event} (h : Followed .released none log) : Clear log :=
  fun a b j hlog => (h a b j hlog).resolve_left nofun

/-- A split of a longer log is one of the log, or ends with the new event. -/
theorem split_snoc {log a b : List Event} {e f : Event} (h : log ++ [e] = a ++ f :: b) :
    (∃ b', b = b' ++ [e] ∧ log = a ++ f :: b') ∨ b = [] ∧ f = e ∧ log = a := by
  induction b using List.reverseRecOn with
  | nil =>
      obtain ⟨hlog, he⟩ := List.append_inj' h rfl
      exact .inr ⟨rfl, (List.cons.inj he).1.symm, hlog⟩
  | append_singleton b' last _ =>
      rw [← List.cons_append, ← List.append_assoc] at h
      obtain ⟨hlog, he⟩ := List.append_inj' h rfl
      exact .inl ⟨b', by rw [(List.cons.inj he).1], hlog⟩

section followed

variable {f : ℕ → Event} {k : Option ℕ} {log : List Event} {e : Event}

theorem Followed.snoc (h : Followed f k log) (he : ∀ j, e = .acquired j → some j = k) : Followed f k (log ++ [e]) := by
  intro a b j hlog
  obtain ⟨b', rfl, hbefore⟩ | ⟨-, hsame, -⟩ := split_snoc hlog
  · obtain hk | hmem := h a b' j hbefore
    · exact .inl hk
    · exact .inr (List.mem_append_left _ hmem)
  · exact .inl (he j hsame.symm)

theorem Followed.acquired (h : Followed f none log) (k : ℕ) : Followed f (some k) (log ++ [.acquired k]) := by
  intro a b j hlog
  obtain ⟨b', rfl, hbefore⟩ | ⟨-, hsame, -⟩ := split_snoc hlog
  · exact .inr (List.mem_append_left _ ((h a b' j hbefore).resolve_left nofun))
  · exact .inl (congrArg some (Event.acquired.inj hsame))

theorem Followed.follow {k : ℕ} (h : Followed f (some k) log) (hf : ∀ j, f k ≠ .acquired j) : Followed f none (log ++ [f k]) := by
  intro a b j hlog
  obtain ⟨b', rfl, hbefore⟩ | ⟨-, hsame, -⟩ := split_snoc hlog
  · obtain hk | hmem := h a b' j hbefore
    · rw [Option.some.inj hk]
      exact .inr (List.mem_append_right _ (List.mem_singleton.mpr rfl))
    · exact .inr (List.mem_append_left _ hmem)
  · exact absurd hsame.symm (hf j)

theorem Followed.but (h : Followed f none log) (k : Option ℕ) : Followed f k log :=
  fun a b j hlog => .inr ((h a b j hlog).resolve_left nofun)

theorem Orderly.snoc (h : Orderly log) (he : (∃ k, e = .acquire k ∨ e = .backoff k) → Clear log) : Orderly (log ++ [e]) := by
  intro a b f hlog hf
  obtain ⟨b', rfl, hbefore⟩ | ⟨-, rfl, rfl⟩ := split_snoc hlog
  · exact h a b' f hbefore hf
  · exact he hf

/-- An event that neither acquires nor waits. -/
theorem Orderly.other (h : Orderly log) (hacquire : ∀ k, e ≠ .acquire k) (hbackoff : ∀ k, e ≠ .backoff k) :
    Orderly (log ++ [e]) :=
  h.snoc fun ⟨k, hk⟩ => hk.elim (fun hk => absurd hk (hacquire k)) fun hk => absurd hk (hbackoff k)

theorem Orderly.acquired (h : Orderly log) (k : ℕ) : Orderly (log ++ [.acquired k]) := h.other nofun nofun

end followed

/-! ### What the loop keeps -/

/-- The segments that are held, and the attempts so far, where the loop stands. -/
def Fits (retry : RetryPolicy) (l : Loop) : Prop :=
  match l.position with
  | .acquiring k | .conflict k =>
      Followed .released none l.log ∧ Followed .release none l.log ∧ bodies l.log + 1 ≤ k ∧ k ≤ retry.maximumAttempts
  | .running k =>
      Followed .released (some k) l.log ∧ Followed .release (some k) l.log ∧ bodies l.log ≤ k ∧ k ≤ retry.maximumAttempts
  | .releasing k _ =>
      Followed .released (some k) l.log ∧ Followed .release none l.log ∧ bodies l.log ≤ k ∧ k ≤ retry.maximumAttempts
  | .backoff k =>
      Followed .released none l.log ∧ Followed .release none l.log ∧ bodies l.log ≤ k ∧ k + 1 ≤ retry.maximumAttempts
  | .done => Followed .release none l.log ∧ bodies l.log ≤ retry.maximumAttempts

structure Kept (retry : RetryPolicy) (l : Loop) : Prop where
  orderly : Orderly l.log
  fits : Fits retry l

section kept

variable {retry : RetryPolicy} {l : Loop} {k : ℕ}

theorem bodies_snoc (log : List Event) (e : Event) :
    bodies (log ++ [e]) = bodies log + bodies [e] := List.countP_append

theorem followed_nil (f : ℕ → Event) : Followed f none [] := fun a b j h => absurd h (by simp)

theorem orderly_nil : Orderly [] := fun a b e h => absurd h (by simp)

theorem kept_start (retry : RetryPolicy) : Kept retry .start := by
  have hclear : Clear [] := (followed_nil .released).clear
  exact ⟨orderly_nil.snoc fun _ => hclear, (followed_nil .released).snoc nofun, (followed_nil .release).snoc nofun, le_rfl,
    retry.bounded⟩

/-- The segment is being released. -/
theorem kept_leave (ended : Ended) (horderly : Orderly l.log) (hreleased : Followed .released (some k) l.log)
    (hrelease : Followed .release (some k) l.log) (hbodies : bodies l.log ≤ k) (hk : k ≤ retry.maximumAttempts) :
    Kept retry (l.leave k ended) := by
  refine ⟨horderly.other nofun nofun, hreleased.snoc nofun, hrelease.follow nofun, ?_, hk⟩
  show bodies (l.log ++ [.release k]) ≤ k
  rw [bodies_snoc]
  exact hbodies

theorem kept_proceed (ended : Ended) (horderly : Orderly l.log) (hreleased : Followed .released (some k) l.log)
    (hrelease : Followed .release none l.log) (hbodies : bodies l.log ≤ k) (hk : k ≤ retry.maximumAttempts) :
    Kept retry (l.proceed retry k ended) := by
  have hnow : Followed .released none (l.log ++ [.released k]) := hreleased.follow nofun
  have horderly' : Orderly (l.log ++ [.released k]) := horderly.other nofun nofun
  have hrelease' : Followed .release none (l.log ++ [.released k]) := hrelease.snoc nofun
  have hbodies' : bodies (l.log ++ [.released k]) ≤ k := by
    rw [bodies_snoc]
    exact hbodies
  unfold Loop.proceed
  split
  · split
    · exact ⟨horderly', hrelease', hbodies'.trans hk⟩
    · next error hretry =>
        have hlast : k ≠ retry.maximumAttempts := by
          intro hlast
          unfold RetryPolicy.givesUp at hretry
          rw [decide_eq_true hlast, Bool.or_true] at hretry
          exact hretry rfl
        refine ⟨horderly'.snoc fun _ => hnow.clear, hnow.snoc nofun, hrelease'.snoc nofun, ?_, by omega⟩
        show bodies (l.log ++ [.released k] ++ [.backoff k]) ≤ k
        rw [bodies_snoc]
        exact hbodies'
  · exact ⟨horderly', hrelease', hbodies'.trans hk⟩

theorem Kept.step (h : Kept retry l) (outcome : Outcome) : Kept retry (l.step retry outcome) := by
  have hfits := h.fits
  unfold Fits at hfits
  unfold Loop.step
  split
  · next hposition =>
      rw [hposition] at hfits
      obtain ⟨hreleased, hrelease, hbodies, hk⟩ := hfits
      refine ⟨(h.orderly.acquired _).other nofun nofun, (hreleased.acquired _).snoc nofun, (hrelease.acquired _).snoc nofun,
        ?_, hk⟩
      rw [bodies_snoc, bodies_snoc]
      exact hbodies
  · next hposition =>
      rw [hposition] at hfits
      obtain ⟨hreleased, hrelease, hbodies, hk⟩ := hfits
      refine ⟨h.orderly.snoc fun _ => hreleased.clear, hreleased.snoc nofun, hrelease.snoc nofun, ?_, hk⟩
      rw [bodies_snoc]
      exact hbodies
  · next hposition =>
      rw [hposition] at hfits
      obtain ⟨hreleased, hrelease, hbodies, hk⟩ := hfits
      apply kept_leave .raised (h.orderly.acquired _) (hreleased.acquired _) (hrelease.acquired _) _ hk
      rw [bodies_snoc]
      exact Nat.le_of_succ_le hbodies
  · next hposition =>
      rw [hposition] at hfits
      obtain ⟨hreleased, hrelease, hbodies, hk⟩ := hfits
      exact kept_leave .raised h.orderly (hreleased.but _) (hrelease.but _) (Nat.le_of_succ_le hbodies) hk
  · next hposition =>
      rw [hposition] at hfits
      obtain ⟨hreleased, hrelease, hbodies, hk⟩ := hfits
      refine ⟨h.orderly.snoc fun _ => hreleased.clear, hreleased.snoc nofun, hrelease.snoc nofun, ?_, hk⟩
      rw [bodies_snoc]
      exact hbodies
  · next hposition =>
      rw [hposition] at hfits
      obtain ⟨hreleased, hrelease, hbodies, hk⟩ := hfits
      exact kept_leave .raised h.orderly (hreleased.but _) (hrelease.but _) (Nat.le_of_succ_le hbodies) hk
  · next hposition =>
      rw [hposition] at hfits
      obtain ⟨hreleased, hrelease, hbodies, hk⟩ := hfits
      exact kept_leave .returned h.orderly hreleased hrelease hbodies hk
  · next error hposition =>
      rw [hposition] at hfits
      obtain ⟨hreleased, hrelease, hbodies, hk⟩ := hfits
      exact kept_leave (.failed error) h.orderly hreleased hrelease hbodies hk
  · next hposition =>
      rw [hposition] at hfits
      obtain ⟨hreleased, hrelease, hbodies, hk⟩ := hfits
      exact kept_leave .raised h.orderly hreleased hrelease hbodies hk
  · next k ended hposition =>
      rw [hposition] at hfits
      obtain ⟨hreleased, hrelease, hbodies, hk⟩ := hfits
      exact kept_proceed ended h.orderly hreleased hrelease hbodies hk
  · next hposition =>
      rw [hposition] at hfits
      obtain ⟨-, hrelease, hbodies, hk⟩ := hfits
      exact ⟨h.orderly, hrelease, hbodies.trans hk⟩
  · next hposition =>
      rw [hposition] at hfits
      obtain ⟨hreleased, hrelease, hbodies, hk⟩ := hfits
      refine ⟨h.orderly.snoc fun _ => hreleased.clear, hreleased.snoc nofun, hrelease.snoc nofun, ?_, hk⟩
      rw [bodies_snoc]
      exact Nat.succ_le_succ hbodies
  · next hposition =>
      rw [hposition] at hfits
      obtain ⟨-, hrelease, hbodies, hk⟩ := hfits
      exact ⟨h.orderly, hrelease, hbodies.trans (Nat.le_of_succ_le hk)⟩
  · exact h

theorem kept_run (retry : RetryPolicy) (outcomes : List Outcome) : Kept retry (Loop.run retry outcomes) := by
  induction outcomes using List.reverseRecOn with
  | nil => exact kept_start retry
  | append_singleton outcomes outcome ih =>
      unfold Loop.run
      rw [List.foldl_concat]
      exact ih.step outcome

/-- The body is never run more often than the policy says. -/
theorem bodies_run_le (retry : RetryPolicy) (outcomes : List Outcome) :
    bodies (Loop.run retry outcomes).log ≤ retry.maximumAttempts := by
  have hfits := (kept_run retry outcomes).fits
  unfold Fits at hfits
  split at hfits
  · omega
  · omega
  · omega
  · omega
  · omega
  · exact hfits.2

/-- When the loop is over, the release of every segment that was acquired has been asked for. -/
theorem release_of_done {outcomes : List Outcome} (h : (Loop.run retry outcomes).position = .done) {a b : List Event} {j : ℕ}
    (hlog : (Loop.run retry outcomes).log = a ++ .acquired j :: b) : .release j ∈ b := by
  have hfits := (kept_run retry outcomes).fits
  unfold Fits at hfits
  rw [h] at hfits
  exact (hfits.1 a b j hlog).resolve_left nofun

end kept

end HpAgent.Workflows
