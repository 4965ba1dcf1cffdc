import HpAgent.Files.Uploads
import Mathlib.Data.List.Induction

/-! # A ready file has its bytes

While the row is not deleted the staging path belongs to the upload that opened it, so only one upload at a time stages,
looks and publishes.  The object of a ready row is lost in one way: an upload that comes late deletes the object it took for
its own.

* `Sound`: the invariant that every step keeps but the late delete.
* `LateDelete`, `Overtaken`: that step, and the order of steps that leads to it.
* `ready_has_bytes_iff`: a run keeps the bytes of a ready file exactly if no upload is overtaken. -/

namespace HpAgent.Files

variable {p : ℕ} {actions : List Action}

section uploads

variable {δ : Type} {k : Intake δ} {s : FileState δ}

/-! ### The invariant -/

/-- The upload has the staging path open, or has not yet published what is there. -/
def Upload.holds : Upload δ → Bool
  | .writing _ _ | .staged _ _ | .looked _ _ _ => true
  | _ => false

/-- The upload may still write its bytes. -/
def Upload.mayWrite : Upload δ → Bool
  | .idle | .admitted _ _ | .writing _ _ => true
  | _ => false

/-- The object has this size and this hash. -/
def Has (k : Intake δ) (s : FileState δ) (size : ℕ) (sha256 : δ) : Prop :=
  ∃ q, s.object = some q ∧ (s.contents q).length = size ∧ k.sha256 (s.contents q) = sha256

/-- A ready row has its object, with the size and the hash that the row records. -/
def Matches (k : Intake δ) (s : FileState δ) : Prop :=
  s.row.status = .ready → s.row.storageKey = true ∧ ∃ sha256, s.row.sha256 = some sha256 ∧ Has k s s.row.sizeBytes sha256

/-- What every step but the late delete keeps. -/
structure Sound (k : Intake δ) (s : FileState δ) : Prop where
  holder : s.row.status ≠ .deleted → ∀ p, (s.uploads p).holds = true → s.staging = some p
  staged : ∀ p size sha256, s.uploads p = .staged size sha256 → (s.contents p).length = size ∧ k.sha256 (s.contents p) = sha256
  looked : ∀ p size sha256 taken, s.uploads p = .looked size sha256 taken →
    (s.contents p).length = size ∧ k.sha256 (s.contents p) = sha256
  free : s.row.status ≠ .deleted → ∀ p size sha256, s.uploads p = .looked size sha256 false → s.object = none
  settled : s.row.status ≠ .deleted → ∀ q, s.object = some q → (s.uploads q).mayWrite = false
  published : s.row.status = .uploading → ∀ p size sha256, s.uploads p = .published size sha256 → Has k s size sha256
  late : ∀ p, s.uploads p = .late → s.row.status ≠ .uploading
  cleaning : ∀ c x, s.cleanings c = some x → s.row.status = .deleted
  ready : Matches k s

/-! ### Frame rules -/

@[grind =] theorem uploads_setUpload (s : FileState δ) (p q : ℕ) (u : Upload δ) :
    (s.setUpload p u).uploads q = if q = p then u else s.uploads q :=
  Function.update_apply _ _ _ _

@[grind =] theorem row_setUpload (s : FileState δ) (p : ℕ) (u : Upload δ) : (s.setUpload p u).row = s.row := rfl

/-- The upload of `p` moves on. -/
theorem Sound.setUpload (h : Sound k s) {u : Upload δ}
    (hholds : u.holds = true → s.row.status ≠ .deleted → s.staging = some p)
    (hstaged : ∀ size sha256, u = .staged size sha256 ∨ (∃ taken, u = .looked size sha256 taken) →
      (s.contents p).length = size ∧ k.sha256 (s.contents p) = sha256)
    (hfree : ∀ size sha256, u = .looked size sha256 false → s.row.status ≠ .deleted → s.object = none)
    (hwrites : u.mayWrite = true → s.row.status ≠ .deleted → s.object ≠ some p)
    (hpublished : ∀ size sha256, u = .published size sha256 → s.row.status = .uploading → Has k s size sha256)
    (hlate : u = .late → s.row.status ≠ .uploading) : Sound k (s.setUpload p u) := by
  have hat := fun q => uploads_setUpload s p q u
  refine ⟨fun hrow q hq => ?_, fun q size sha hq => ?_, fun q size sha taken hq => ?_, fun hrow q size sha hq => ?_, fun hrow q hq => ?_,
    fun hrow q size sha hq => ?_, fun q hq => ?_, h.cleaning, h.ready⟩
  · rw [hat] at hq
    split_ifs at hq with hp
    · exact hp ▸ hholds hq hrow
    · exact h.holder hrow q hq
  · rw [hat] at hq
    split_ifs at hq with hp
    · exact hp ▸ hstaged size sha (.inl hq)
    · exact h.staged q size sha hq
  · rw [hat] at hq
    split_ifs at hq with hp
    · exact hp ▸ hstaged size sha (.inr ⟨taken, hq⟩)
    · exact h.looked q size sha taken hq
  · rw [hat] at hq
    split_ifs at hq with hp
    · exact hfree size sha hq hrow
    · exact h.free hrow q size sha hq
  · rw [hat]
    split_ifs with hp
    · subst hp
      by_contra hwrite
      exact hwrites (by simpa using hwrite) hrow hq
    · exact h.settled hrow q hq
  · rw [hat] at hq
    split_ifs at hq with hp
    · exact hpublished size sha hq hrow
    · exact h.published hrow q size sha hq
  · rw [hat] at hq
    split_ifs at hq with hp
    · exact hlate hq
    · exact h.late q hq

/-- An upload that leaves, or waits for its row. -/
theorem Sound.leave (h : Sound k s) {u : Upload δ} (hu : u = .finished ∨ ∃ code, u = .rejecting code) :
    Sound k (s.setUpload p u) := by
  obtain rfl | ⟨code, rfl⟩ := hu
  all_goals exact h.setUpload nofun nofun nofun nofun nofun nofun

/-- No other upload holds the staging path. -/
theorem Sound.sole (h : Sound k s) {q : ℕ} (hrow : s.row.status ≠ .deleted) (hp : (s.uploads p).holds = true)
    (hq : (s.uploads q).holds = true) : q = p :=
  Option.some.inj ((h.holder hrow q hq).symm.trans (h.holder hrow p hp))

/-- The staging path is removed when nobody holds it. -/
theorem Sound.unstage (h : Sound k s) (hnone : s.row.status ≠ .deleted → ∀ p, (s.uploads p).holds = false) :
    Sound k { s with staging := none } := by
  refine ⟨fun hrow p hp => ?_, h.staged, h.looked, h.free, h.settled, h.published, h.late, h.cleaning, h.ready⟩
  have hp : (s.uploads p).holds = true := hp
  rw [hnone hrow p] at hp
  cases hp

/-- An upload gives up the staging path. -/
theorem Sound.release (h : Sound k s) {u : Upload δ} (hp : (s.uploads p).holds = true) (hu : u.holds = false)
    (hset : Sound k (s.setUpload p u)) : Sound k ({ s with staging := none }.setUpload p u) := by
  refine hset.unstage fun hrow q => ?_
  show (Function.update s.uploads p u q).holds = false
  rw [Function.update_apply]
  split_ifs with hq
  · exact hu
  · by_contra hother
    exact hq (h.sole hrow hp (by simpa using hother))

/-- The row is rewritten; a ready row stays as it is but for when it expires. -/
theorem Sound.setRow (h : Sound k s) {row : FileRow δ} (hdeleted : s.row.status = .deleted → row.status = .deleted)
    (huploading : row.status = .uploading → s.row.status = .uploading) (hready : row.status = .ready → Matches k { s with row := row }) :
    Sound k { s with row := row } := by
  have hlive : row.status ≠ .deleted → s.row.status ≠ .deleted := fun hne heq => hne (hdeleted heq)
  exact ⟨fun hrow => h.holder (hlive hrow), h.staged, h.looked, fun hrow => h.free (hlive hrow), fun hrow => h.settled (hlive hrow),
    fun hrow => h.published (huploading hrow), fun p hp hrow => h.late p hp (huploading hrow),
    fun c x hc => hdeleted (h.cleaning c x hc), fun hrow => hready hrow hrow⟩

/-- A cleanup moves on. -/
theorem Sound.setCleaning (h : Sound k s) {c : ℕ} {x : Option Cleaning} (hx : x.isSome = true → s.row.status = .deleted) :
    Sound k (s.setCleaning c x) := by
  refine ⟨h.holder, h.staged, h.looked, h.free, h.settled, h.published, h.late, fun d y hd => ?_, h.ready⟩
  have hd : Function.update s.cleanings c x d = some y := hd
  rw [Function.update_apply] at hd
  split_ifs at hd with heq
  · exact hx (by rw [hd]; rfl)
  · exact h.cleaning d y hd

/-- The object path is removed from a row that is deleted, or that no upload may mark ready. -/
theorem Sound.removeObject (h : Sound k s) (huploading : s.row.status ≠ .uploading) (hready : s.row.status ≠ .ready) :
    Sound k { s with object := none } :=
  ⟨h.holder, h.staged, h.looked, fun _ _ _ _ _ => rfl, nofun, fun hrow => absurd hrow huploading, h.late, h.cleaning,
    fun hrow => absurd hrow hready⟩

/-- An upload writes its bytes. -/
theorem Sound.setContents (h : Sound k s) (hp : (s.uploads p).mayWrite = true) (b : Bytes) :
    Sound k { s with contents := Function.update s.contents p b } := by
  -- the object of a row that is not deleted was written by another upload
  have hkeeps : ∀ {size sha256}, s.row.status ≠ .deleted → Has k s size sha256 →
      Has k { s with contents := Function.update s.contents p b } size sha256 := by
    rintro size sha256 hrow ⟨q, hq, hbytes⟩
    have hne : q ≠ p := by
      rintro rfl
      rw [h.settled hrow q hq] at hp
      cases hp
    refine ⟨q, hq, ?_⟩
    show (Function.update s.contents p b q).length = size ∧ k.sha256 (Function.update s.contents p b q) = sha256
    rw [Function.update_of_ne hne]
    exact hbytes
  have hother : ∀ q, (s.uploads q).mayWrite = false → Function.update s.contents p b q = s.contents q := by
    intro q hq
    refine Function.update_of_ne ?_ _ _
    rintro rfl
    rw [hp] at hq
    cases hq
  refine ⟨h.holder, fun q size sha256 hq => ?_, fun q size sha256 taken hq => ?_, h.free, h.settled, fun hrow q size sha256 hq => ?_,
    h.late, h.cleaning, fun hrow => ?_⟩
  · show (Function.update s.contents p b q).length = size ∧ k.sha256 (Function.update s.contents p b q) = sha256
    have hq : s.uploads q = .staged size sha256 := hq
    rw [hother q (by rw [hq]; rfl)]
    exact h.staged q size sha256 hq
  · show (Function.update s.contents p b q).length = size ∧ k.sha256 (Function.update s.contents p b q) = sha256
    have hq : s.uploads q = .looked size sha256 taken := hq
    rw [hother q (by rw [hq]; rfl)]
    exact h.looked q size sha256 taken hq
  · have hrow : s.row.status = .uploading := hrow
    exact hkeeps (by rw [hrow]; decide) (h.published hrow q size sha256 hq)
  · obtain ⟨hkey, sha256, hsha, hhas⟩ := h.ready hrow
    have hrow : s.row.status = .ready := hrow
    exact ⟨hkey, sha256, hsha, hkeeps (by rw [hrow]; decide) hhas⟩

/-- The staging path is opened when it is free. -/
theorem Sound.openStaging (h : Sound k s) (hfree : s.staging = none) (p : ℕ) : Sound k { s with staging := some p } := by
  refine ⟨fun hrow q hq => ?_, h.staged, h.looked, h.free, h.settled, h.published, h.late, h.cleaning, h.ready⟩
  have hholds := h.holder hrow q hq
  rw [hfree] at hholds
  cases hholds

/-- What was staged becomes the object. -/
theorem Sound.move (h : Sound k s) {q size : ℕ} {sha256 : δ} (hp : s.uploads p = .looked size sha256 false)
    (hq : s.staging = some q) : Sound k ({ s with staging := none, object := some q }.setUpload p (.published size sha256)) := by
  have hholds : (s.uploads p).holds = true := by
    rw [hp]
    rfl
  have hat : ∀ r, Function.update s.uploads p (.published size sha256) r = if r = p then .published size sha256 else s.uploads r :=
    fun r => Function.update_apply _ _ _ _
  -- while the row is not deleted nothing was published before, and what is staged is the upload's own
  have hnothing : ∀ {size sha256}, s.row.status ≠ .deleted → ¬Has k s size sha256 := by
    rintro size' sha' hrow ⟨r, hr, -⟩
    rw [h.free hrow p size sha256 hp] at hr
    cases hr
  have hown : s.row.status ≠ .deleted → q = p := fun hrow => Option.some.inj (hq.symm.trans (h.holder hrow p hholds))
  refine ⟨fun hrow r hr => ?_, fun r size' sha' hr => ?_, fun r size' sha' taken hr => ?_, fun hrow r size' sha' hr => ?_,
    fun hrow r hr => ?_, fun hrow r size' sha' hr => ?_, fun r hr => ?_, h.cleaning, fun hrow => ?_⟩
  · have hr : (Function.update s.uploads p (.published size sha256) r).holds = true := hr
    rw [hat] at hr
    split_ifs at hr with heq
    · cases hr
    · exact absurd (h.sole hrow hholds hr) heq
  · have hr : Function.update s.uploads p (.published size sha256) r = .staged size' sha' := hr
    rw [hat] at hr
    split_ifs at hr
    exact h.staged r size' sha' hr
  · have hr : Function.update s.uploads p (.published size sha256) r = .looked size' sha' taken := hr
    rw [hat] at hr
    split_ifs at hr
    exact h.looked r size' sha' taken hr
  · have hr : Function.update s.uploads p (.published size sha256) r = .looked size' sha' false := hr
    rw [hat] at hr
    split_ifs at hr with heq
    exact absurd (h.sole hrow hholds (by rw [hr]; rfl)) heq
  · obtain rfl := Option.some.inj hr
    show (Function.update s.uploads p (.published size sha256) q).mayWrite = false
    rw [hat, if_pos (hown hrow)]
    rfl
  · have hrow : s.row.status = .uploading := hrow
    have hlive : s.row.status ≠ .deleted := by
      rw [hrow]
      decide
    have hr : Function.update s.uploads p (.published size sha256) r = .published size' sha' := hr
    rw [hat] at hr
    split_ifs at hr with heq
    · obtain ⟨rfl, rfl⟩ := Upload.published.inj hr
      obtain rfl := hown hlive
      exact ⟨q, rfl, h.looked q size sha256 false hp⟩
    · exact absurd (h.published hrow r size' sha' hr) (hnothing hlive)
  · have hr : Function.update s.uploads p (.published size sha256) r = .late := hr
    rw [hat] at hr
    split_ifs at hr
    exact h.late r hr
  · obtain ⟨-, sha', -, hhas⟩ := h.ready hrow
    have hrow : s.row.status = .ready := hrow
    exact absurd hhas (hnothing (by rw [hrow]; decide))

/-! ### Steps -/

/-- An upload deletes the object it took for its own, and another upload has made the row ready. -/
def LateDelete (s : FileState δ) (a : Action) : Prop := ∃ p, a = .compensate p ∧ s.uploads p = .late ∧ s.row.status = .ready

theorem claimDeletion_deleted {row : FileRow δ} {retained : Bool} {now : Instant} (h : (claimDeletion row retained now).2 = true) :
    (claimDeletion row retained now).1.status = .deleted := by
  unfold claimDeletion at h ⊢
  split_ifs at h ⊢ with hdeleted
  · exact hdeleted
  · rfl

theorem Sound.claimDeletion (h : Sound k s) (retained : Bool) (now : Instant) :
    Sound k { s with row := (claimDeletion s.row retained now).1 } := by
  unfold Files.claimDeletion
  split_ifs with hdeleted hretained
  · exact h
  · exact h
  · exact h.setRow (fun _ => rfl) nofun nofun

theorem Sound.refuse (h : Sound k s) (hp : (s.uploads p).holds = true) (code : String) : Sound k (s.refuse p code) :=
  h.release hp rfl (h.leave (.inr ⟨code, rfl⟩))

theorem Sound.adopt (h : Sound k s) {size : ℕ} (hp : (s.uploads p).holds = true) : Sound k (s.adopt k p size) := by
  unfold FileState.adopt
  cases hobject : s.object with
  | none => exact h.leave (.inl rfl)
  | some q =>
      dsimp only
      split_ifs with hsize
      · exact h.leave (.inr ⟨_, rfl⟩)
      · rw [← hobject]
        refine h.release hp rfl (h.setUpload (u := .published _ _) nofun nofun nofun nofun (fun size' sha' heq _ => ?_) nofun)
        obtain ⟨rfl, rfl⟩ := Upload.published.inj heq
        exact ⟨q, hobject, rfl, rfl⟩

theorem Sound.markReady (h : Sound k s) {size : ℕ} {sha256 : δ} (hp : s.uploads p = .published size sha256) (ttl : ℤ) (now : Instant) :
    Sound k (s.markReady ttl p size sha256 now) := by
  unfold FileState.markReady
  split_ifs with hrow
  · have hhas := h.published hrow p size sha256 hp
    refine Sound.leave ?_ (.inl rfl)
    refine h.setRow (fun hdeleted => ?_) nofun fun _ _ => ⟨rfl, sha256, rfl, hhas⟩
    rw [hrow] at hdeleted
    cases hdeleted
  · exact h.setUpload (u := .late) nofun nofun nofun nofun nofun fun _ => hrow

theorem Sound.rejectRow (h : Sound k s) (code : String) : Sound k { s with row := rejectRow s.row code } := by
  unfold Files.rejectRow
  split_ifs with hrow
  · refine h.setRow (fun hdeleted => ?_) nofun nofun
    rw [hrow] at hdeleted
    cases hdeleted
  · exact h

theorem Sound.read [DecidableEq δ] (h : Sound k s) (p : ℕ) : Sound k (Files.step k s (.read p)) := by
  unfold Files.step
  dsimp only
  cases hp : s.uploads p with
  | idle =>
      split_ifs
      · refine h.setUpload nofun nofun nofun (fun _ hrow hobject => ?_) nofun nofun
        have hsettled := h.settled hrow p hobject
        rw [hp] at hsettled
        cases hsettled
      · exact h.leave (.inl rfl)
  | _ => exact h

theorem Sound.stage [DecidableEq δ] (h : Sound k s) (p : ℕ) : Sound k (Files.step k s (.stage p)) := by
  unfold Files.step
  dsimp only
  cases hp : s.uploads p with
  | admitted declaredSize declaredSha256 =>
      dsimp only
      split_ifs with hlarge htaken
      · exact h.leave (.inr ⟨_, rfl⟩)
      · exact h.leave (.inl rfl)
      · have hmay : (s.uploads p).mayWrite = true := by
          rw [hp]
          rfl
        have hopen := (h.setContents hmay []).openStaging (by simpa using htaken) p
        refine hopen.setUpload (fun _ _ => rfl) nofun nofun (fun _ hrow hobject => ?_) nofun nofun
        have hsettled := h.settled hrow p hobject
        rw [hmay] at hsettled
        cases hsettled
  | _ => exact h

theorem Sound.write [DecidableEq δ] (h : Sound k s) (p : ℕ) (chunk : Bytes) : Sound k (Files.step k s (.write p chunk)) := by
  unfold Files.step
  dsimp only
  cases hp : s.uploads p with
  | writing declaredSize declaredSha256 =>
      dsimp only
      have hholds : (s.uploads p).holds = true := by
        rw [hp]
        rfl
      split_ifs
      · exact h.refuse hholds _
      · exact h.refuse hholds _
      · refine h.setContents ?_ _
        rw [hp]
        rfl
  | _ => exact h

theorem Sound.finish [DecidableEq δ] (h : Sound k s) (p : ℕ) : Sound k (Files.step k s (.finish p)) := by
  unfold Files.step
  dsimp only
  cases hp : s.uploads p with
  | writing declaredSize declaredSha256 =>
      dsimp only
      have hholds : (s.uploads p).holds = true := by
        rw [hp]
        rfl
      split_ifs
      · exact h.refuse hholds _
      · exact h.refuse hholds _
      · exact h.refuse hholds _
      · refine h.setUpload (u := .staged _ _) (fun _ hrow => h.holder hrow p hholds) (fun size sha256 heq => ?_) nofun nofun nofun nofun
        obtain heq | ⟨taken, heq⟩ := heq
        · obtain ⟨rfl, rfl⟩ := Upload.staged.inj heq
          exact ⟨rfl, rfl⟩
        · cases heq
  | _ => exact h

theorem Sound.look [DecidableEq δ] (h : Sound k s) (p : ℕ) : Sound k (Files.step k s (.look p)) := by
  unfold Files.step
  dsimp only
  cases hp : s.uploads p with
  | staged size sha256 =>
      refine h.setUpload (fun _ hrow => h.holder hrow p ?_) (fun size' sha' heq => ?_) (fun size' sha' heq _ => ?_) nofun nofun nofun
      · rw [hp]
        rfl
      · obtain heq | ⟨taken, heq⟩ := heq
        · cases heq
        · obtain ⟨rfl, rfl, -⟩ := Upload.looked.inj heq
          exact h.staged p size sha256 hp
      · obtain ⟨-, -, hnone⟩ := Upload.looked.inj heq
        simpa using hnone
  | _ => exact h

theorem Sound.publish [DecidableEq δ] (h : Sound k s) (p : ℕ) : Sound k (Files.step k s (.publish p)) := by
  unfold Files.step
  dsimp only
  cases hp : s.uploads p with
  | looked size sha256 taken =>
      cases taken with
      | true =>
          refine h.adopt ?_
          rw [hp]
          rfl
      | false =>
              cases hstaging : s.staging with
          | none => exact h.leave (.inl rfl)
          | some q => exact h.move hp hstaging
  | _ => exact h

theorem Sound.clean [DecidableEq δ] (h : Sound k s) (c : ℕ) : Sound k (Files.step k s (.clean c)) := by
  unfold Files.step
  dsimp only
  cases hc : s.cleanings c with
  | none => exact h
  | some x =>
      have hdeleted := h.cleaning c x hc
      have hremove : Sound k { s with object := none } := by
        refine h.removeObject ?_ ?_
        all_goals
          rw [hdeleted]
          decide
      cases x with
      | claimed storageKey =>
          cases storageKey with
          | true => exact hremove.setCleaning fun _ => hdeleted
          | false => exact (h.unstage fun hrow => absurd hdeleted hrow).setCleaning fun _ => hdeleted
      | unstaged => exact hremove.setCleaning fun _ => hdeleted
      | removed =>
          refine Sound.setCleaning ?_ nofun
          unfold completeRow
          split_ifs
          refine h.setRow id id fun hready => ?_
          have hready : s.row.status = .ready := hready
          rw [hdeleted] at hready
          cases hready

/-- **Every step but the late delete keeps the invariant.** -/
theorem Sound.step [DecidableEq δ] (h : Sound k s) {a : Action} (hlate : ¬LateDelete s a) : Sound k (step k s a) := by
  cases a with
  | read p => exact h.read p
  | stage p => exact h.stage p
  | write p chunk => exact h.write p chunk
  | finish p => exact h.finish p
  | abort p =>
      unfold Files.step
      dsimp only
      cases hp : s.uploads p with
      | writing declaredSize declaredSha256 =>
          refine h.release ?_ rfl (h.leave (.inl rfl))
          rw [hp]
          rfl
      | _ => exact h
  | look p => exact h.look p
  | publish p => exact h.publish p
  | markReady p now =>
      unfold Files.step
      dsimp only
      cases hp : s.uploads p with
      | published size sha256 => exact h.markReady hp _ _
      | _ => exact h
  | compensate p =>
      unfold Files.step
      dsimp only
      cases hp : s.uploads p with
      | late =>
          have hready : s.row.status ≠ .ready := fun hrow => hlate ⟨p, rfl, hp, hrow⟩
          exact (h.removeObject (h.late p hp) hready).leave (.inl rfl)
      | _ => exact h
  | reject p =>
      unfold Files.step
      dsimp only
      cases hp : s.uploads p with
      | rejecting code => exact (h.rejectRow code).leave (.inl rfl)
      | _ => exact h
  | die p => exact h.leave (.inl rfl)
  | bind =>
      unfold Files.step
      dsimp only
      split_ifs with hrow
      · exact h.setRow id id fun _ hready => h.ready hready
      · exact h
  | delete retained now => exact h.claimDeletion retained now
  | claim c retained now =>
      unfold Files.step
      dsimp only
      cases hc : s.cleanings c with
      | none =>
          split_ifs with hclaim
          · exact (h.claimDeletion retained now).setCleaning fun _ => claimDeletion_deleted hclaim.2
          · exact h
      | some x => exact h
  | clean c => exact h.clean c
  | dieCleaning c => exact h.setCleaning nofun

/-! ### The object of a ready row -/

/-- The object path and the bytes there are what they were. -/
def SameObject (s s' : FileState δ) : Prop := s'.object = s.object ∧ ∀ q, s.object = some q → s'.contents q = s.contents q

theorem Sound.contents_ne (h : Sound k s) (hrow : s.row.status = .ready) (hp : (s.uploads p).mayWrite = true) (b : Bytes)
    {q : ℕ} (hq : s.object = some q) : Function.update s.contents p b q = s.contents q := by
  refine Function.update_of_ne ?_ _ _
  rintro rfl
  rw [h.settled (by rw [hrow]; decide) q hq] at hp
  cases hp

/-- **No step but the late delete removes or replaces the object of a ready row.** -/
theorem Sound.sameObject [DecidableEq δ] (h : Sound k s) (hrow : s.row.status = .ready) {a : Action} (hlate : ¬LateDelete s a) :
    SameObject s (Files.step k s a) := by
  have hlive : s.row.status ≠ .deleted := by
    rw [hrow]
    decide
  have hsame : SameObject s s := ⟨rfl, fun _ _ => rfl⟩
  unfold Files.step
  cases a with
  | stage p =>
      dsimp only
      cases hp : s.uploads p with
      | admitted declaredSize declaredSha256 =>
          dsimp only
          split_ifs
          · exact hsame
          · exact hsame
          · refine ⟨rfl, fun q hq => h.contents_ne hrow ?_ [] hq⟩
            rw [hp]
            rfl
      | _ => exact hsame
  | write p chunk =>
      dsimp only
      cases hp : s.uploads p with
      | writing declaredSize declaredSha256 =>
          dsimp only
          split_ifs
          · exact hsame
          · exact hsame
          · refine ⟨rfl, fun q hq => h.contents_ne hrow ?_ _ hq⟩
            rw [hp]
            rfl
      | _ => exact hsame
  | publish p =>
      dsimp only
      cases hp : s.uploads p with
      | looked size sha256 taken =>
          cases taken with
          | true =>
              dsimp only [FileState.adopt]
              repeat' split
              all_goals exact hsame
          | false =>
              -- the object path was free when the upload looked, and a ready row has its object
              obtain ⟨-, sha', -, q, hq, -⟩ := h.ready hrow
              rw [h.free hlive p size sha256 hp] at hq
              cases hq
      | _ => exact hsame
  | compensate p =>
      dsimp only
      cases hp : s.uploads p with
      | late => exact absurd ⟨p, rfl, hp, hrow⟩ hlate
      | _ => exact hsame
  | clean c =>
      dsimp only
      cases hc : s.cleanings c with
      | none => exact hsame
      | some x => exact absurd (h.cleaning c x hc) hlive
  | _ =>
      -- these touch neither the object path nor the bytes
      dsimp only [FileState.markReady]
      repeat' split
      all_goals exact hsame

/-! ### Runs -/

theorem start_sound (k : Intake δ) (declaredSize : ℕ) (declaredSha256 : Option δ) (expiresAt : Instant) :
    Sound k (FileState.start declaredSize declaredSha256 expiresAt) :=
  ⟨nofun, nofun, nofun, nofun, nofun, nofun, nofun, nofun, nofun⟩

variable [DecidableEq δ]

/-- In every state of the run a ready row has its bytes, and no step removes or replaces the object of a ready row. -/
structure BytesKept (k : Intake δ) (s : FileState δ) (actions : List Action) : Prop where
  holds : ∀ before after, actions = before ++ after → Matches k (run k s before)
  kept : ∀ before a after, actions = before ++ a :: after → (run k s before).row.status = .ready →
    SameObject (run k s before) (run k s (before ++ [a]))

/-- Another upload makes the row ready after `p` has read it and before `p` calls `mark_ready`, and `p` lives to its compensating
delete while the row is still ready. -/
def Overtaken (k : Intake δ) (s : FileState δ) (actions : List Action) : Prop :=
  ∃ p first meanwhile now between after,
    actions = (first ++ .read p :: meanwhile) ++ .markReady p now :: between ++ .compensate p :: after ∧
    (run k s first).row.status = .uploading ∧
    (∃ size sha256, (run k s (first ++ .read p :: meanwhile)).uploads p = .published size sha256) ∧
    (run k s (first ++ .read p :: meanwhile)).row.status = .ready ∧
    .die p ∉ between ∧ .compensate p ∉ between ∧
    (run k s ((first ++ .read p :: meanwhile) ++ .markReady p now :: between)).row.status = .ready

theorem run_concat (k : Intake δ) (s : FileState δ) (actions : List Action) (a : Action) :
    run k s (actions ++ [a]) = step k (run k s actions) a := by
  unfold run
  rw [List.foldl_append]
  rfl

theorem run_append (k : Intake δ) (s : FileState δ) (before after : List Action) :
    run k s (before ++ after) = run k (run k s before) after :=
  List.foldl_append

theorem sound_run (h : Sound k s)
    (hlate : ∀ before a after, actions = before ++ a :: after → ¬LateDelete (run k s before) a) : Sound k (run k s actions) := by
  induction actions using List.reverseRecOn with
  | nil => exact h
  | append_singleton actions a ih =>
      rw [run_concat]
      refine (ih fun before b after heq => ?_).step (hlate actions a [] rfl)
      refine hlate before b (after ++ [a]) ?_
      rw [heq, List.append_assoc]
      rfl

/-! ### Where a late delete comes from -/

/-- An upload becomes late in its `mark_ready` only, and stays so until it dies or compensates. -/
theorem late_step {a : Action} : (step k s a).uploads p = .late ↔
    (s.uploads p = .late ∧ a ≠ .die p ∧ a ≠ .compensate p) ∨
      ∃ now, a = .markReady p now ∧ (∃ size sha256, s.uploads p = .published size sha256) ∧ s.row.status ≠ .uploading := by
  cases a <;> grind [Files.step, FileState.refuse, FileState.adopt, FileState.setCleaning, FileState.markReady]

theorem late_run (h : s.uploads p ≠ .late) : (run k s actions).uploads p = .late ↔
    ∃ before now between, actions = before ++ .markReady p now :: between ∧
      (∃ size sha256, (run k s before).uploads p = .published size sha256) ∧ (run k s before).row.status ≠ .uploading ∧
      .die p ∉ between ∧ .compensate p ∉ between := by
  induction actions using List.reverseRecOn with
  | nil => simp [run, h]
  | append_singleton actions a ih =>
      rw [run_concat, late_step, ih]
      constructor
      · rintro (⟨⟨before, now, between, rfl, hp, hrow, hdie, hgone⟩, hd, hc⟩ | ⟨now, rfl, hp, hrow⟩)
        · exact ⟨before, now, between ++ [a], by simp, hp, hrow, by simp [hdie, hd.symm], by simp [hgone, hc.symm]⟩
        · exact ⟨actions, now, [], rfl, hp, hrow, List.not_mem_nil, List.not_mem_nil⟩
      · rintro ⟨before, now, between, heq, hp, hrow, hdie, hgone⟩
        obtain rfl | ⟨earlier, b, rfl⟩ := between.eq_nil_or_concat
        · obtain ⟨rfl, hb⟩ := List.append_inj' heq rfl
          exact .inr ⟨now, List.head_eq_of_cons_eq hb, hp, hrow⟩
        · rw [List.concat_eq_append, ← List.cons_append, ← List.append_assoc] at heq
          obtain ⟨rfl, hb⟩ := List.append_inj' heq rfl
          obtain rfl := List.head_eq_of_cons_eq hb
          simp only [List.concat_eq_append, List.mem_append, List.mem_singleton, not_or] at hdie hgone
          exact .inl ⟨⟨before, now, earlier, rfl, hp, hrow, hdie.1, hgone.1⟩, Ne.symm hdie.2, Ne.symm hgone.2⟩

/-- A row that is not `uploading` stays as it is, or is deleted for good. -/
theorem status_step {a : Action} (h : s.row.status ≠ .uploading) :
    (step k s a).row.status = s.row.status ∨ (step k s a).row.status = .deleted := by
  cases a <;> grind [Files.step, FileState.refuse, FileState.adopt, FileState.setCleaning, FileState.markReady, rejectRow, claimDeletion,
    completeRow]

theorem ready_before (h : s.row.status ≠ .uploading) (hready : (run k s actions).row.status = .ready) :
    s.row.status = .ready := by
  induction actions generalizing s with
  | nil => exact hready
  | cons a actions ih =>
      have hstep := status_step (k := k) (a := a) h
      have hs := ih (by grind) hready
      grind

/-- The upload has read the row, and has not ended. -/
def Upload.engaged : Upload δ → Bool
  | .idle | .finished => false
  | _ => true

/-- An upload begins by reading a row that is `uploading`. -/
theorem engaged_step {a : Action} (h : ((step k s a).uploads p).engaged = true) :
    (s.uploads p).engaged = true ∨ a = .read p ∧ s.row.status = .uploading := by
  cases a <;> grind [Files.step, FileState.refuse, FileState.adopt, FileState.setCleaning, FileState.markReady, Upload.engaged]

theorem engaged_run (h : (s.uploads p).engaged = false)
    (hp : ((run k s actions).uploads p).engaged = true) :
    ∃ first meanwhile, actions = first ++ .read p :: meanwhile ∧ (run k s first).row.status = .uploading := by
  induction actions using List.reverseRecOn with
  | nil =>
      rw [show run k s [] = s from rfl, h] at hp
      cases hp
  | append_singleton actions a ih =>
      rw [run_concat] at hp
      obtain hbefore | ⟨rfl, hrow⟩ := engaged_step hp
      · obtain ⟨first, meanwhile, rfl, hrow⟩ := ih hbefore
        exact ⟨first, meanwhile ++ [a], by simp, hrow⟩
      · exact ⟨actions, [], rfl, hrow⟩

/-- **A late delete is the delete of an upload that was overtaken.** -/
theorem overtaken_iff (h : ∀ p, s.uploads p = .idle) : Overtaken k s actions ↔
    ∃ before a after, actions = before ++ a :: after ∧ LateDelete (run k s before) a := by
  have hlate : ∀ p, s.uploads p ≠ .late := by simp [h]
  constructor
  · rintro ⟨p, first, meanwhile, now, between, after, heq, -, hp, hready, hdie, hgone, hstill⟩
    refine ⟨_, _, after, heq, p, rfl, (late_run (hlate p)).mpr ⟨_, now, between, rfl, hp, ?_, hdie, hgone⟩, hstill⟩
    simp [hready]
  · rintro ⟨before, a, after, rfl, p, rfl, hp, hstill⟩
    obtain ⟨before, now, between, rfl, ⟨size, sha256, hpub⟩, hrow, hdie, hgone⟩ := (late_run (hlate p)).mp hp
    obtain ⟨first, meanwhile, rfl, hread⟩ := engaged_run (k := k) (p := p) (by rw [h]; rfl) (by rw [hpub]; rfl)
    refine ⟨p, first, meanwhile, now, between, after, rfl, hread, ⟨size, sha256, hpub⟩, ?_, hdie, hgone, hstill⟩
    rw [run_append] at hstill
    exact ready_before hrow hstill

/-- **A run keeps the bytes of a ready file exactly if no upload is overtaken by another one.** -/
theorem ready_has_bytes_iff (k : Intake δ) (declaredSize : ℕ) (declaredSha256 : Option δ) (expiresAt : Instant) (actions : List Action) :
    BytesKept k (FileState.start declaredSize declaredSha256 expiresAt) actions ↔
      ¬Overtaken k (FileState.start declaredSize declaredSha256 expiresAt) actions := by
  rw [overtaken_iff fun p => rfl]
  constructor
  · rintro h ⟨before, a, after, hactions, p, rfl, hp, hrow⟩
    have hmatches := h.holds (before ++ [.compensate p]) after (by rw [hactions, List.append_assoc]; rfl)
    rw [run_concat] at hmatches
    unfold step at hmatches
    dsimp only at hmatches
    rw [hp] at hmatches
    obtain ⟨-, sha256, -, q, hq, -⟩ := hmatches hrow
    cases hq
  · intro h
    have hlate : ∀ before a after, actions = before ++ a :: after →
        ¬LateDelete (run k (FileState.start declaredSize declaredSha256 expiresAt) before) a :=
      fun before a after hactions hdelete => h ⟨before, a, after, hactions, hdelete⟩
    have hsound : ∀ before after, actions = before ++ after → Sound k (run k (FileState.start declaredSize declaredSha256 expiresAt) before) := by
      intro before after hactions
      refine sound_run (start_sound k declaredSize declaredSha256 expiresAt) fun earlier a later heq => ?_
      exact hlate earlier a (later ++ after) (by rw [hactions, heq, List.append_assoc]; rfl)
    refine ⟨fun before after hactions => (hsound before after hactions).ready, fun before a after hactions hrow => ?_⟩
    rw [run_concat]
    exact (hsound before (a :: after) hactions).sameObject hrow (hlate before a after hactions)

end uploads

/-- A store of small files that takes any bytes, and for a hash the bytes themselves. -/
def smallFiles : Intake Bytes := ⟨10, fun _ => true, fun _ => true, id, 100⟩

/-- Two PUTs of the same bytes: the second one reads the row and publishes before the first one marks it ready. -/
def twoPuts : List Action :=
  [.read 0, .stage 0, .write 0 [7], .finish 0, .look 0, .publish 0, .read 1, .stage 1, .write 1 [7], .finish 1, .look 1, .publish 1,
    .markReady 0 5, .markReady 1 6, .compensate 1]

/-- The second PUT of `twoPuts` deletes the object of the first: the row is ready, and its object path is empty. -/
theorem two_puts_lose_bytes : ¬BytesKept smallFiles (FileState.start 1 none 3600) twoPuts := by
  intro h
  have hready : (run smallFiles (FileState.start 1 none 3600) twoPuts).row.status = .ready := by decide
  have hobject : (run smallFiles (FileState.start 1 none 3600) twoPuts).object = none := by decide
  obtain ⟨-, sha256, -, q, hq, -⟩ := h.holds twoPuts [] (List.append_nil _).symm hready
  rw [hobject] at hq
  cases hq

end HpAgent.Files
