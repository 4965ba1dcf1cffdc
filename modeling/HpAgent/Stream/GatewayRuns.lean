import HpAgent.Stream.Gateway
import Mathlib.Data.List.Induction
import Mathlib.Algebra.Order.BigOperators.Group.List

/-! # When a stream overflows

The queue holds the backlog, so a full queue is a backlog over its limit.  The count of bytes is never decreased, so it
is the size of everything that was received: the stream overflows at the frame that brings this over the limit,
whatever the client has consumed (`overflow_by_backlog`).

* `Running`: what the state of a connection is, while it is not degraded.
* `History`: what a run has gone through.
* `prompt`: the run of a client that consumes every frame at once. -/

namespace HpAgent.Stream

open Library

variable {κ : Type} [DecidableEq κ] {seen : List κ} {n : ℕ} {raw : List Char}

/-! ### What the writer gets past -/

/-- The stream ids seen after a frame, when the writer gets past it. -/
def seenAfter (d : Decoding κ) (seen : List κ) (raw : List Char) : Option (List κ) :=
  match normalizeEvent d.loads raw with
  | none => some seen
  | some event => (Connection.addStreamId d.key seen event.streamId).filter fun seen => seen.length ≤ 1

/-- The stream ids seen after some frames, when the writer gets past them all. -/
def seenAfterAll (d : Decoding κ) (seen : List κ) : List (List Char) → Option (List κ)
  | [] => some seen
  | raw :: rest => (seenAfter d seen raw).bind fun seen => seenAfterAll d seen rest

/-- How many frames the writer gets past. -/
def passed (d : Decoding κ) (seen : List κ) : List (List Char) → ℕ
  | [] => 0
  | raw :: rest =>
      match seenAfter d seen raw with
      | none => 0
      | some seen => passed d seen rest + 1

/-- What a client that consumes every frame at once has left when a frame arrives: this frame, and those since the first
one that the writer does not get past. -/
def leastBacklog (d : Decoding κ) (frames : List (List Char)) (i : ℕ) : List (List Char) :=
  (frames.take (i + 1)).drop (min i (passed d [] frames))

/-- The size of frames, as the reader counts it. -/
def size (frames : List (List Char)) : ℕ := (frames.map List.length).sum

/-- Up to the frame that brings the size of all frames over the byte limit, some least backlog is over a limit. -/
def Backed (c : Settings) (d : Decoding κ) (frames : List (List Char)) : Prop :=
  ∀ k, size (frames.take k) ≤ c.sseHandshakeBufferBytes → c.sseHandshakeBufferBytes < size (frames.take (k + 1)) →
    ∃ i ≤ k, Exceeds c (leastBacklog d frames i)

theorem seenAfterAll_append (d : Decoding κ) (seen : List κ) (a b : List (List Char)) :
    seenAfterAll d seen (a ++ b) = (seenAfterAll d seen a).bind fun seen => seenAfterAll d seen b := by
  induction a generalizing seen with
  | nil => rfl
  | cons raw rest ih =>
      show (seenAfter d seen raw).bind _ = ((seenAfter d seen raw).bind _).bind _
      rw [Option.bind_assoc]
      exact congrArg _ (funext fun seen => ih seen)

/-- The writer has not got past more frames than it can. -/
theorem le_passed {d : Decoding κ} {frames : List (List Char)} (hn : n ≤ frames.length)
    (h : (seenAfterAll d seen (frames.take n)).isSome) : n ≤ passed d seen frames := by
  induction frames generalizing seen n with
  | nil => exact hn
  | cons raw rest ih =>
      cases n with
      | zero => exact Nat.zero_le _
      | succ n =>
          rw [List.take_succ_cons, seenAfterAll] at h
          rw [passed]
          cases hseen : seenAfter d seen raw with
          | none =>
              rw [hseen] at h
              cases h
          | some seen' =>
              rw [hseen] at h
              have hrest := ih (Nat.le_of_succ_le_succ hn) h
              show n + 1 ≤ passed d seen' rest + 1
              omega

theorem isSome_of_le_passed {d : Decoding κ} {frames : List (List Char)}
    (h : n ≤ passed d seen frames) : (seenAfterAll d seen (frames.take n)).isSome := by
  induction frames generalizing seen n with
  | nil =>
      rw [List.take_nil]
      rfl
  | cons raw rest ih =>
      cases n with
      | zero => rfl
      | succ n =>
          rw [passed] at h
          rw [List.take_succ_cons, seenAfterAll]
          cases hseen : seenAfter d seen raw with
          | none =>
              rw [hseen] at h
              exact absurd h (Nat.not_succ_le_zero n)
          | some seen' =>
              rw [hseen] at h
              exact ih (Nat.le_of_succ_le_succ h)

theorem passed_append_le (d : Decoding κ) (seen : List κ) (a b : List (List Char)) : passed d seen a ≤ passed d seen (a ++ b) := by
  induction a generalizing seen with
  | nil => exact Nat.zero_le _
  | cons raw rest ih =>
      show passed d seen (raw :: rest) ≤ passed d seen (raw :: (rest ++ b))
      rw [passed, passed]
      cases seenAfter d seen raw with
      | none => exact le_rfl
      | some seen' => exact Nat.succ_le_succ (ih seen')

/-! ### Backlogs -/

theorem Exceeds.of_suffix {c : Settings} {a b : List (List Char)} (h : a <:+ b) (ha : Exceeds c a) : Exceeds c b := by
  obtain ⟨pre, rfl⟩ := h
  unfold Exceeds at *
  rw [List.length_append, List.map_append, List.sum_append]
  omega

theorem leastBacklog_suffix {d : Decoding κ} {frames received : List (List Char)} {settled i : ℕ}
    (hreceived : received = frames.take (i + 1)) (hsettled : settled ≤ i) (hpassed : settled ≤ passed d [] frames) :
    leastBacklog d frames i <:+ received.drop settled := by
  rw [leastBacklog, hreceived]
  exact List.drop_suffix_drop_left _ (le_min hsettled hpassed)

/-! ### Every run -/

section runs

variable {c : Settings} {d : Decoding κ} {frames : List (List Char)} {s : Connection κ}

/-- How the queue and the seen stream ids go with the backlog. -/
def Fits (d : Decoding κ) (s : Connection κ) : Prop :=
  match s.phase with
  | .handling raw => s.backlog = raw :: s.queue ∧ seenAfterAll d [] (s.received.take s.settled) = some s.seenStreamIds
  | .confirming _ | .sending _ _ =>
      (∃ raw, s.backlog = raw :: s.queue) ∧ seenAfterAll d [] (s.received.take (s.settled + 1)) = some s.seenStreamIds
  | .leaving | .closed => s.queue <:+ s.backlog ∧ s.settled ≤ passed d [] s.received
  | _ => s.backlog = s.queue ∧ seenAfterAll d [] (s.received.take s.settled) = some s.seenStreamIds

/-- The state of a connection that is not degraded. -/
structure Running (c : Settings) (d : Decoding κ) (frames : List (List Char)) (s : Connection κ) : Prop where
  split : s.received ++ s.incoming = frames
  counted : s.bytesUsed = size s.received
  within : s.bytesUsed ≤ c.sseHandshakeBufferBytes
  settled : s.settled ≤ s.received.length
  fits : Fits d s

theorem running_start (c : Settings) (d : Decoding κ) (frames : List (List Char)) : Running c d frames (.start frames) :=
  ⟨rfl, rfl, Nat.zero_le _, Nat.zero_le _, rfl, rfl⟩

omit [DecidableEq κ] in
theorem lt_length_of_backlog {rest : List (List Char)} (h : s.backlog = raw :: rest) :
    s.settled + 1 ≤ s.received.length := by
  have hlength := congrArg List.length h
  unfold Connection.backlog at hlength
  rw [List.length_drop, List.length_cons] at hlength
  omega

/-- The queue is the end of the backlog. -/
theorem Fits.queue (h : Fits d s) : s.queue <:+ s.backlog := by
  unfold Fits at h
  split at h
  · rw [h.1]
    exact List.suffix_cons _ _
  · obtain ⟨⟨raw, hraw⟩, -⟩ := h
    rw [hraw]
    exact List.suffix_cons _ _
  · obtain ⟨⟨raw, hraw⟩, -⟩ := h
    rw [hraw]
    exact List.suffix_cons _ _
  · exact h.1
  · exact h.1
  · exact h.1 ▸ List.suffix_rfl

theorem Fits.settled_le (hsettled : s.settled ≤ s.received.length) (h : Fits d s) : s.settled ≤ passed d [] s.received := by
  unfold Fits at h
  split at h
  · exact le_passed hsettled (by rw [h.2]; rfl)
  · obtain ⟨⟨raw, hraw⟩, hseen⟩ := h
    exact Nat.le_of_succ_le (le_passed (lt_length_of_backlog hraw) (by rw [hseen]; rfl))
  · obtain ⟨⟨raw, hraw⟩, hseen⟩ := h
    exact Nat.le_of_succ_le (le_passed (lt_length_of_backlog hraw) (by rw [hseen]; rfl))
  · exact h.2
  · exact h.2
  · exact le_passed hsettled (by rw [h.2]; rfl)

/-- A connection that sends no more frames. -/
theorem Running.stop (h : Running c d frames s) (phase : Phase) (reader : Bool) (seen : List κ)
    (hphase : phase = .leaving ∨ phase = .closed) :
    Running c d frames { s with phase := phase, reader := reader, seenStreamIds := seen } := by
  have hpassed := h.fits.settled_le h.settled
  refine ⟨h.split, h.counted, h.within, h.settled, ?_⟩
  obtain rfl | rfl := hphase
  · exact ⟨h.fits.queue, hpassed⟩
  · exact ⟨h.fits.queue, hpassed⟩

/-- The head of the backlog is done. -/
theorem Running.settle {raw : List Char} (h : Running c d frames s) (hraw : s.backlog = raw :: s.queue)
    (hseen : seenAfterAll d [] (s.received.take (s.settled + 1)) = some s.seenStreamIds) : Running c d frames s.settle := by
  refine ⟨h.split, h.counted, h.within, lt_length_of_backlog hraw, ?_, hseen⟩
  show s.received.drop (s.settled + 1) = s.queue
  rw [← List.drop_drop]
  exact congrArg (List.drop 1) hraw

theorem seenAfterAll_next (hraw : s.backlog = raw :: s.queue)
    (hseen : seenAfterAll d [] (s.received.take s.settled) = some s.seenStreamIds) :
    seenAfterAll d [] (s.received.take (s.settled + 1)) = seenAfter d s.seenStreamIds raw := by
  have hnext : s.received.take (s.settled + 1) = s.received.take s.settled ++ [raw] := by
    rw [List.take_add, show s.received.drop s.settled = raw :: s.queue from hraw]
    rfl
  rw [hnext, seenAfterAll_append, hseen]
  exact Option.bind_fun_some _

theorem Running.handle (h : Running c d frames s) (hphase : s.phase = .handling raw) :
    Running c d frames (s.handle d raw) := by
  have hfits := h.fits
  unfold Fits at hfits
  rw [hphase] at hfits
  obtain ⟨hraw, hseen⟩ := hfits
  have hnext := seenAfterAll_next hraw hseen
  unfold seenAfter at hnext
  unfold Connection.handle
  cases hevent : normalizeEvent d.loads raw with
  | none =>
      rw [hevent] at hnext
      exact h.settle hraw hnext
  | some event =>
      rw [hevent] at hnext
      dsimp only at hnext ⊢
      cases hadd : Connection.addStreamId d.key s.seenStreamIds event.streamId with
      | none => exact h.stop .closed false s.seenStreamIds (.inr rfl)
      | some seen =>
          rw [hadd] at hnext
          dsimp only
          by_cases hmany : 1 < seen.length
          · rw [if_pos hmany]
            exact h.stop .leaving s.reader seen (.inl rfl)
          · have hfew : seen.length ≤ 1 := Nat.le_of_not_lt hmany
            rw [Option.filter_some, if_pos (decide_eq_true hfew)] at hnext
            rw [if_neg hmany]
            split
            · exact ⟨h.split, h.counted, h.within, h.settled, ⟨raw, hraw⟩, hnext⟩
            · exact ⟨h.split, h.counted, h.within, h.settled, ⟨raw, hraw⟩, hnext⟩

/-- A connection whose writer has nothing in hand. -/
def Phase.Idle : Phase → Prop
  | .subscribing | .reading | .greeting _ | .checking | .waiting | .ticking => True
  | _ => False

theorem Running.idle (h : Running c d frames s) (hidle : s.phase.Idle) (phase : Phase) (hphase : phase.Idle) (reader : Bool)
    (reason : Option DegradedReason) :
    Running c d frames { s with phase := phase, reader := reader, degradedReason := reason } := by
  have hfits : s.backlog = s.queue ∧ seenAfterAll d [] (s.received.take s.settled) = some s.seenStreamIds := by
    have hfits := h.fits
    unfold Fits at hfits
    cases hs : s.phase <;> rw [hs] at hidle hfits <;> first | exact hfits | cases hidle
  refine ⟨h.split, h.counted, h.within, h.settled, ?_⟩
  unfold Fits
  cases phase <;> first | exact hfits | cases hphase

/-- A move of the writer, or of the client. -/
theorem Running.step (h : Running c d frames s) (m : Move) (hreceive : m ≠ .receive)
    (hstep : (s.step c d m).degradedReason = none) : Running c d frames (s.step c d m) := by
  cases m with
  | receive => exact absurd rfl hreceive
  | subscribe ok =>
      unfold Connection.step
      dsimp only
      split
      · next hphase => exact h.idle (by rw [hphase]; trivial) .reading trivial ok _
      · exact h
  | lose =>
      unfold Connection.step at hstep ⊢
      dsimp only at hstep ⊢
      split at hstep
      · cases hstep
      · next hrunning =>
          rw [if_neg hrunning]
          exact h
  | read snapshot =>
      have hfits := h.fits
      unfold Fits at hfits
      unfold Connection.step
      dsimp only
      split
      · exact h.stop .leaving s.reader s.seenStreamIds (.inl rfl)
      · next hphase => exact h.idle (by rw [hphase]; trivial) (.greeting _) trivial s.reader s.degradedReason
      · next hphase =>
          rw [hphase] at hfits
          obtain ⟨⟨raw, hraw⟩, hseen⟩ := hfits
          exact h.settle hraw hseen
      · next hphase =>
          rw [hphase] at hfits
          exact ⟨h.split, h.counted, h.within, h.settled, hfits⟩
      · next hphase =>
          rw [hphase] at hfits
          obtain ⟨⟨raw, hraw⟩, hseen⟩ := hfits
          exact h.settle hraw hseen
      · exact h
  | check =>
      unfold Connection.step
      dsimp only
      split
      · next hphase =>
          split
          · exact h.idle (by rw [hphase]; trivial) .waiting trivial s.reader s.degradedReason
          · exact h.stop .leaving s.reader s.seenStreamIds (.inl rfl)
      · exact h
  | take =>
      have hfits := h.fits
      unfold Fits at hfits
      unfold Connection.step
      dsimp only
      split
      · next raw rest hphase hqueue =>
          rw [hphase, hqueue] at hfits
          exact ⟨h.split, h.counted, h.within, h.settled, hfits⟩
      · exact h
  | timeout valid =>
      unfold Connection.step
      dsimp only
      split
      · next hphase =>
          cases valid with
          | true => exact h.idle (by rw [hphase]; trivial) .ticking trivial s.reader s.degradedReason
          | false => exact h.stop .leaving s.reader s.seenStreamIds (.inl rfl)
      · exact h
  | handle =>
      unfold Connection.step
      dsimp only
      split
      · next raw hphase => exact h.handle hphase
      · exact h
  | resume =>
      have hfits := h.fits
      unfold Fits at hfits
      unfold Connection.step
      dsimp only
      split
      · exact h.stop .closed false s.seenStreamIds (.inr rfl)
      · next hphase =>
          split
          · exact h.idle (by rw [hphase]; trivial) .checking trivial s.reader s.degradedReason
          · exact h.stop .leaving s.reader s.seenStreamIds (.inl rfl)
      · next hphase =>
          rw [hphase] at hfits
          obtain ⟨⟨raw, hraw⟩, hseen⟩ := hfits
          exact h.settle hraw hseen
      · next hphase =>
          rw [hphase] at hfits
          obtain ⟨⟨raw, hraw⟩, hseen⟩ := hfits
          exact (h.settle hraw hseen).stop .closed false s.seenStreamIds (.inr rfl)
      · next hphase => exact h.idle (by rw [hphase]; trivial) .checking trivial s.reader s.degradedReason
      · exact h.stop .closed false s.seenStreamIds (.inr rfl)
      · exact h
  | disconnect => exact h.stop .closed false s.seenStreamIds (.inr rfl)

/-- Only the reader receives, and only the reader finds the buffer too small. -/
theorem step_quiet (m : Move) (hreceive : m ≠ .receive) : (s.step c d m).received = s.received ∧
    ((s.step c d m).degradedReason = s.degradedReason ∨ (s.step c d m).degradedReason = some .redisUnavailable) := by
  cases m with
  | receive => exact absurd rfl hreceive
  | subscribe ok =>
      unfold Connection.step
      dsimp only
      split
      · cases ok with
        | true => exact ⟨rfl, .inl rfl⟩
        | false => exact ⟨rfl, .inr rfl⟩
      · exact ⟨rfl, .inl rfl⟩
  | lose =>
      unfold Connection.step
      dsimp only
      split
      · exact ⟨rfl, .inr rfl⟩
      · exact ⟨rfl, .inl rfl⟩
  | handle =>
      unfold Connection.step Connection.handle
      dsimp only
      split
      · split
        · exact ⟨rfl, .inl rfl⟩
        · split
          · exact ⟨rfl, .inl rfl⟩
          · split
            · exact ⟨rfl, .inl rfl⟩
            · split <;> exact ⟨rfl, .inl rfl⟩
      · exact ⟨rfl, .inl rfl⟩
  | read snapshot =>
      unfold Connection.step
      dsimp only
      split <;> exact ⟨rfl, .inl rfl⟩
  | check =>
      unfold Connection.step
      dsimp only
      split <;> exact ⟨rfl, .inl rfl⟩
  | take =>
      unfold Connection.step
      dsimp only
      split <;> exact ⟨rfl, .inl rfl⟩
  | timeout valid =>
      unfold Connection.step
      dsimp only
      split <;> exact ⟨rfl, .inl rfl⟩
  | resume =>
      unfold Connection.step
      dsimp only
      split <;> exact ⟨rfl, .inl rfl⟩
  | disconnect => exact ⟨rfl, .inl rfl⟩

theorem size_append (a b : List (List Char)) : size (a ++ b) = size a + size b := by
  unfold size
  rw [List.map_append, List.sum_append]

theorem size_take_mono (frames : List (List Char)) {m : ℕ} (h : n ≤ m) : size (frames.take n) ≤ size (frames.take m) := by
  have hsplit : frames.take n ++ (frames.take m).drop n = frames.take m := by
    have hboth := List.take_append_drop n (frames.take m)
    rw [List.take_take, Nat.min_eq_left h] at hboth
    exact hboth
  rw [← hsplit, size_append]
  omega

theorem Running.take_received (h : Running c d frames s) : frames.take s.received.length = s.received := by
  rw [← h.split, List.take_left]

/-- The state after a frame. -/
structure Received (c : Settings) (d : Decoding κ) (frames : List (List Char)) (s s' : Connection κ) (data : List Char) : Prop where
  received : s'.received = s.received ++ [data]
  settled : s'.settled = s.settled
  next : s'.received = frames.take (s.received.length + 1)
  follows : s'.degradedReason = none → Running c d frames s'
  overflow : s'.degradedReason = some .handshakeBufferOverflow → Exceeds c s'.backlog ∨
    c.sseHandshakeBufferBytes < size (frames.take (s.received.length + 1))

theorem backlog_append (data : List Char) (h : Running c d frames s) :
    (s.received ++ [data]).drop s.settled = s.backlog ++ [data] :=
  List.drop_append_of_le_length h.settled

theorem suffix_snoc {a b : List (List Char)} (h : a <:+ b) (data : List Char) : a ++ [data] <:+ b ++ [data] := by
  obtain ⟨pre, rfl⟩ := h
  exact ⟨pre, (List.append_assoc pre a [data]).symm⟩

theorem Fits.enqueue {data : List Char} {rest : List (List Char)} (h : Running c d frames s) :
    Fits d { s with incoming := rest, received := s.received ++ [data], bytesUsed := n, queue := s.queue ++ [data] } := by
  have htake : (s.received ++ [data]).take s.settled = s.received.take s.settled := List.take_append_of_le_length h.settled
  have hbacklog := backlog_append data h
  have hpassed : s.settled ≤ passed d [] (s.received ++ [data]) :=
    (h.fits.settled_le h.settled).trans (passed_append_le d [] s.received [data])
  have hfits := h.fits
  unfold Fits at hfits ⊢
  dsimp only
  unfold Connection.backlog at hfits hbacklog ⊢
  rw [hbacklog, htake]
  split at hfits
  · rw [hfits.1]
    exact ⟨rfl, hfits.2⟩
  · obtain ⟨⟨raw, hraw⟩, hseen⟩ := hfits
    rw [hraw, List.take_append_of_le_length (lt_length_of_backlog hraw)]
    exact ⟨⟨raw, rfl⟩, hseen⟩
  · obtain ⟨⟨raw, hraw⟩, hseen⟩ := hfits
    rw [hraw, List.take_append_of_le_length (lt_length_of_backlog hraw)]
    exact ⟨⟨raw, rfl⟩, hseen⟩
  · exact ⟨suffix_snoc hfits.1 data, hpassed⟩
  · exact ⟨suffix_snoc hfits.1 data, hpassed⟩
  · rw [hfits.1]
    exact ⟨rfl, hfits.2⟩

/-- The reader takes a frame. -/
theorem received_readPubsub {data : List Char} {rest : List (List Char)} (h : Running c d frames s) (hincoming : s.incoming = data :: rest)
    (hrunning : s.degradedReason = none) : Received c d frames s (s.readPubsub c) data := by
  have hsplit : (s.received ++ [data]) ++ rest = frames := by
    rw [← h.split, hincoming, List.append_assoc]
    rfl
  have hnext : s.received ++ [data] = frames.take (s.received.length + 1) := by
    rw [← hsplit, List.take_append_of_le_length (by simp)]
    simp
  have hcounted : s.bytesUsed + data.length = size (s.received ++ [data]) := by
    rw [size_append, h.counted]
    rfl
  unfold Connection.readPubsub
  rw [hincoming]
  dsimp only
  by_cases hbytes : c.sseHandshakeBufferBytes < s.bytesUsed + data.length
  · rw [if_pos hbytes]
    refine ⟨rfl, rfl, hnext, nofun, fun _ => .inr ?_⟩
    rw [← hnext, ← hcounted]
    exact hbytes
  · rw [if_neg hbytes]
    by_cases hroom : s.queue.length < c.sseHandshakeBufferEvents
    · rw [if_pos hroom]
      refine ⟨rfl, rfl, hnext, fun _ => ?_, fun hdegraded => ?_⟩
      · exact ⟨hsplit, hcounted, Nat.le_of_not_lt hbytes, h.settled.trans (by simp), .enqueue h⟩
      · exact absurd (hrunning.symm.trans hdegraded) nofun
    · rw [if_neg hroom]
      refine ⟨rfl, rfl, hnext, nofun, fun _ => .inl (.inl ?_)⟩
      show c.sseHandshakeBufferEvents < ((s.received ++ [data]).drop s.settled).length
      have hqueue := h.fits.queue.length_le
      rw [backlog_append data h, List.length_append, List.length_singleton]
      omega

theorem run_concat (c : Settings) (d : Decoding κ) (frames : List (List Char)) (moves : List Move) (m : Move) :
    Connection.run c d frames (moves ++ [m]) = (Connection.run c d frames moves).step c d m := by
  unfold Connection.run
  rw [List.foldl_concat]

/-- What a run has gone through: its state while it is not degraded, a least backlog for every frame that was received,
and the reason of an overflow. -/
structure History (c : Settings) (d : Decoding κ) (frames : List (List Char)) (moves : List Move) : Prop where
  follows : (Connection.run c d frames moves).degradedReason = none → Running c d frames (Connection.run c d frames moves)
  least : ∀ i < (Connection.run c d frames moves).received.length,
    ∃ n ≤ moves.length, leastBacklog d frames i <:+ (Connection.run c d frames (moves.take n)).backlog
  overflow : (Connection.run c d frames moves).degradedReason = some .handshakeBufferOverflow →
    (∃ n ≤ moves.length, Exceeds c (Connection.run c d frames (moves.take n)).backlog) ∨
      ∃ k < (Connection.run c d frames moves).received.length, size (frames.take k) ≤ c.sseHandshakeBufferBytes ∧
        c.sseHandshakeBufferBytes < size (frames.take (k + 1))

/-- A moment of a run is one of a longer run. -/
theorem moment_concat {P : Connection κ → Prop} {moves : List Move} {m : Move}
    (h : ∃ n ≤ moves.length, P (Connection.run c d frames (moves.take n))) :
    ∃ n ≤ (moves ++ [m]).length, P (Connection.run c d frames ((moves ++ [m]).take n)) := by
  obtain ⟨n, hn, hP⟩ := h
  refine ⟨n, hn.trans (by simp), ?_⟩
  rw [List.take_append_of_le_length hn]
  exact hP

theorem moment_last {P : Connection κ → Prop} {moves : List Move} {m : Move}
    (h : P ((Connection.run c d frames moves).step c d m)) :
    ∃ n ≤ (moves ++ [m]).length, P (Connection.run c d frames ((moves ++ [m]).take n)) := by
  refine ⟨_, le_rfl, ?_⟩
  rw [List.take_length, run_concat]
  exact h

/-- A move that receives nothing adds nothing to the history. -/
theorem History.quiet {moves : List Move} {m : Move} (h : History c d frames moves)
    (hreceived : ((Connection.run c d frames moves).step c d m).received = (Connection.run c d frames moves).received)
    (hfollows : ((Connection.run c d frames moves).step c d m).degradedReason = none →
      Running c d frames ((Connection.run c d frames moves).step c d m))
    (hoverflow : ((Connection.run c d frames moves).step c d m).degradedReason = some .handshakeBufferOverflow →
      (Connection.run c d frames moves).degradedReason = some .handshakeBufferOverflow) :
    History c d frames (moves ++ [m]) := by
  refine ⟨?_, ?_, ?_⟩
  · rw [run_concat]
    exact hfollows
  · rw [run_concat, hreceived]
    exact fun i hi => moment_concat (P := fun s => _ <:+ s.backlog) (h.least i hi)
  · rw [run_concat, hreceived]
    intro hdegraded
    obtain hexceeds | hfull := h.overflow (hoverflow hdegraded)
    · exact .inl (moment_concat (P := fun s => Exceeds c s.backlog) hexceeds)
    · exact .inr hfull

theorem History.receive {moves : List Move} {data : List Char} (h : History c d frames moves)
    (hfollows : Running c d frames (Connection.run c d frames moves))
    (hstep : Received c d frames (Connection.run c d frames moves) ((Connection.run c d frames moves).step c d .receive) data) :
    History c d frames (moves ++ [.receive]) := by
  have hlength : ((Connection.run c d frames moves).step c d .receive).received.length =
      (Connection.run c d frames moves).received.length + 1 := by
    rw [hstep.received, List.length_append, List.length_singleton]
  refine ⟨?_, ?_, ?_⟩
  · rw [run_concat]
    exact hstep.follows
  · rw [run_concat, hlength]
    intro i hi
    by_cases hlast : i < (Connection.run c d frames moves).received.length
    · exact moment_concat (P := fun s => _ <:+ s.backlog) (h.least i hlast)
    · obtain rfl : i = (Connection.run c d frames moves).received.length := by omega
      refine moment_last (P := fun s => _ <:+ s.backlog) ?_
      have hpassed := hfollows.fits.settled_le hfollows.settled
      unfold Connection.backlog
      rw [hstep.settled]
      have hall := passed_append_le d [] (Connection.run c d frames moves).received (Connection.run c d frames moves).incoming
      rw [hfollows.split] at hall
      exact leastBacklog_suffix hstep.next hfollows.settled (hpassed.trans hall)
  · rw [run_concat, hlength]
    intro hdegraded
    obtain hexceeds | hfull := hstep.overflow hdegraded
    · exact .inl (moment_last (P := fun s => Exceeds c s.backlog) hexceeds)
    · refine .inr ⟨_, Nat.lt_succ_self _, ?_, hfull⟩
      rw [hfollows.take_received, ← hfollows.counted]
      exact hfollows.within

theorem history (c : Settings) (d : Decoding κ) (frames : List (List Char)) (moves : List Move) : History c d frames moves := by
  induction moves using List.reverseRecOn with
  | nil => exact ⟨fun _ => running_start c d frames, nofun, nofun⟩
  | append_singleton moves m ih =>
      by_cases hreceive : m = .receive
      · subst hreceive
        have hidle (hsame : (Connection.run c d frames moves).step c d .receive = Connection.run c d frames moves) :
            History c d frames (moves ++ [.receive]) :=
          ih.quiet (by rw [hsame]) (by rw [hsame]; exact ih.follows) (by rw [hsame]; exact id)
        by_cases hrunning : (Connection.run c d frames moves).reader ∧ (Connection.run c d frames moves).degradedReason = none
        · have hread : (Connection.run c d frames moves).step c d .receive = (Connection.run c d frames moves).readPubsub c :=
            if_pos hrunning
          cases hincoming : (Connection.run c d frames moves).incoming with
          | nil =>
              apply hidle
              rw [hread, Connection.readPubsub, hincoming]
          | cons data rest =>
              have hfollows := ih.follows hrunning.2
              apply ih.receive hfollows
              rw [hread]
              exact received_readPubsub hfollows hincoming hrunning.2
        · exact hidle (if_neg hrunning)
      · have hquiet := step_quiet (c := c) (d := d) (s := Connection.run c d frames moves) m hreceive
        have hbefore {r : Option DegradedReason} (hr : r ≠ some .redisUnavailable)
            (h : ((Connection.run c d frames moves).step c d m).degradedReason = r) :
            (Connection.run c d frames moves).degradedReason = r := by
          obtain hsame | hlost := hquiet.2
          · exact hsame.symm.trans h
          · exact absurd (h.symm.trans hlost) hr
        exact ih.quiet hquiet.1 (fun hnone => (ih.follows (hbefore nofun hnone)).step m hreceive hnone) (hbefore (by decide))

/-- A run overflows by its backlog alone, when the frames make every client have one. -/
theorem Backed.overflowsByBacklog (h : Backed c d frames) (moves : List Move) : OverflowsByBacklog c d frames moves := by
  intro hdegraded
  have hhistory := history c d frames moves
  obtain hexceeds | ⟨k, hk, hwithin, hover⟩ := hhistory.overflow hdegraded
  · exact hexceeds
  · obtain ⟨i, hi, hexceeds⟩ := h k hwithin hover
    obtain ⟨n, hn, hsuffix⟩ := hhistory.least i (by omega)
    exact ⟨n, hn, hexceeds.of_suffix hsuffix⟩

end runs

/-! ### A client that consumes every frame at once -/

section prompt

variable {c : Settings} {d : Decoding κ} {frames : List (List Char)}

/-- The backlog is within the limits after every one of these moves. -/
def Calm (c : Settings) (d : Decoding κ) (s : Connection κ) : List Move → Prop
  | [] => True
  | m :: rest => ¬Exceeds c (s.step c d m).backlog ∧ Calm c d (s.step c d m) rest

theorem Calm.append {s : Connection κ} {a b : List Move} (ha : Calm c d s a) (hb : Calm c d (a.foldl (Connection.step c d) s) b) :
    Calm c d s (a ++ b) := by
  induction a generalizing s with
  | nil => exact hb
  | cons m rest ih => exact ⟨ha.1, ih ha.2 hb⟩

theorem Calm.moment {s : Connection κ} {moves : List Move} (hs : ¬Exceeds c s.backlog) (h : Calm c d s moves) (n : ℕ) :
    ¬Exceeds c ((moves.take n).foldl (Connection.step c d) s).backlog := by
  induction moves generalizing s n with
  | nil =>
      rw [List.take_nil]
      exact hs
  | cons m rest ih =>
      cases n with
      | zero => exact hs
      | succ n => exact ih h.1 h.2 n

theorem not_exceeds_nil (c : Settings) : ¬Exceeds c [] := by
  unfold Exceeds
  simp

/-- The writer is about to look for a frame. -/
def ready (incoming received : List (List Char)) (n bytes : ℕ) (queue : List (List Char)) (seen : List κ) : Connection κ :=
  ⟨incoming, received, n, queue, bytes, none, true, seen, .checking⟩

/-- The snapshot of a running Run is sent. -/
def opening : List Move := [.subscribe true, .read (some false), .resume]

theorem run_opening (c : Settings) (d : Decoding κ) (frames : List (List Char)) :
    opening.foldl (Connection.step c d) (.start frames) = ready frames [] 0 0 [] [] := rfl

theorem calm_opening (c : Settings) (d : Decoding κ) (frames : List (List Char)) : Calm c d (.start frames) opening :=
  ⟨not_exceeds_nil c, not_exceeds_nil c, not_exceeds_nil c, trivial⟩

/-- A frame is received and consumed, and if it claims that the Run has ended, the Run is not found. -/
def consume : List Move := [.receive, .check, .take, .handle, .read none, .resume]

theorem step_receive (incoming received queue : List (List Char)) (n bytes : ℕ) (seen : List κ) :
    (ready incoming received n bytes queue seen).step c d .receive =
      (ready incoming received n bytes queue seen).readPubsub c := by
  unfold Connection.step
  exact if_pos ⟨rfl, rfl⟩

theorem receive_ready {incoming received queue : List (List Char)} {bytes : ℕ}
    (hbytes : bytes + raw.length ≤ c.sseHandshakeBufferBytes) (hroom : queue.length < c.sseHandshakeBufferEvents) :
    (ready (raw :: incoming) received n bytes queue seen).step c d .receive =
      ready incoming (received ++ [raw]) n (bytes + raw.length) (queue ++ [raw]) seen := by
  rw [step_receive]
  unfold Connection.readPubsub ready
  dsimp only
  rw [if_neg (Nat.not_lt.mpr hbytes), if_pos hroom]

theorem receive_full (incoming received queue : List (List Char)) (n : ℕ) {bytes : ℕ} (seen : List κ)
    (hfull : c.sseHandshakeBufferBytes < bytes + raw.length) :
    ((ready (raw :: incoming) received n bytes queue seen).step c d .receive).degradedReason = some .handshakeBufferOverflow ∧
      ((ready (raw :: incoming) received n bytes queue seen).step c d .receive).backlog = (received ++ [raw]).drop n := by
  rw [step_receive]
  unfold Connection.readPubsub ready
  dsimp only
  rw [if_pos hfull]
  exact ⟨rfl, rfl⟩

/-- The writer has a frame in hand, and nothing is queued. -/
def inHand (incoming received : List (List Char)) (n bytes : ℕ) (seen : List κ) (phase : Phase) : Connection κ :=
  ⟨incoming, received, n, [], bytes, none, true, seen, phase⟩

theorem handle_inHand {incoming received : List (List Char)} {bytes : ℕ} {seen' : List κ}
    (hseen : seenAfter d seen raw = some seen') :
    (inHand incoming received n bytes seen (.handling raw)).handle d raw = ready incoming received (n + 1) bytes [] seen' ∨
      (∃ event, (inHand incoming received n bytes seen (.handling raw)).handle d raw =
        inHand incoming received n bytes seen' (.confirming event)) ∨
      ∃ event, (inHand incoming received n bytes seen (.handling raw)).handle d raw =
        inHand incoming received n bytes seen' (.sending event false) := by
  unfold seenAfter at hseen
  unfold Connection.handle
  cases hevent : normalizeEvent d.loads raw with
  | none =>
      rw [hevent] at hseen
      obtain rfl := Option.some.inj hseen
      exact .inl rfl
  | some event =>
      rw [hevent] at hseen
      dsimp only at hseen ⊢
      obtain ⟨hadd, hfew⟩ := Option.filter_eq_some_iff.mp hseen
      have hadd' : Connection.addStreamId d.key (inHand incoming received n bytes seen (.handling raw)).seenStreamIds
          event.streamId = some seen' := hadd
      have hnot : ¬1 < seen'.length := Nat.not_lt.mpr (of_decide_eq_true hfew)
      rw [hadd']
      dsimp only
      rw [if_neg hnot]
      split
      · exact .inr (.inl ⟨event, rfl⟩)
      · exact .inr (.inr ⟨event, rfl⟩)

/-- A frame that the writer gets past leaves nothing behind. -/
theorem consume_ready (incoming : List (List Char)) {received : List (List Char)} {bytes : ℕ} {seen' : List κ}
    (hbytes : bytes + raw.length ≤ c.sseHandshakeBufferBytes) (hseen : seenAfter d seen raw = some seen')
    (hn : n = received.length) (hraw : ¬Exceeds c [raw]) :
    Calm c d (ready (raw :: incoming) received n bytes [] seen) consume ∧
      consume.foldl (Connection.step c d) (ready (raw :: incoming) received n bytes [] seen) =
        ready incoming (received ++ [raw]) (n + 1) (bytes + raw.length) [] seen' := by
  have hroom : ([] : List (List Char)).length < c.sseHandshakeBufferEvents := c.events_pos
  have hone : ¬Exceeds c ((received ++ [raw]).drop n) := by
    rw [hn, List.drop_left]
    exact hraw
  have hnone : ¬Exceeds c ((received ++ [raw]).drop (n + 1)) := by
    rw [hn, List.drop_of_length_le (by simp)]
    exact not_exceeds_nil c
  have hreceive : (ready (raw :: incoming) received n bytes [] seen).step c d .receive =
      ready incoming (received ++ [raw]) n (bytes + raw.length) [raw] seen := receive_ready hbytes hroom
  have hrest : ∀ s : Connection κ, s = ready incoming (received ++ [raw]) (n + 1) (bytes + raw.length) [] seen' ∨
      (∃ event, s = inHand incoming (received ++ [raw]) n (bytes + raw.length) seen' (.confirming event)) ∨
      (∃ event, s = inHand incoming (received ++ [raw]) n (bytes + raw.length) seen' (.sending event false)) →
      ¬Exceeds c s.backlog ∧ Calm c d s [.read none, .resume] ∧ [Move.read none, .resume].foldl (Connection.step c d) s =
        ready incoming (received ++ [raw]) (n + 1) (bytes + raw.length) [] seen' := by
    intro s hs
    obtain rfl | ⟨event, rfl⟩ | ⟨event, rfl⟩ := hs
    · exact ⟨hnone, ⟨hnone, hnone, trivial⟩, rfl⟩
    · exact ⟨hone, ⟨hnone, hnone, trivial⟩, rfl⟩
    · exact ⟨hone, ⟨hone, hnone, trivial⟩, rfl⟩
  obtain ⟨hhandled, hcalm, hend⟩ := hrest _ (handle_inHand hseen)
  unfold consume
  rw [List.foldl_cons, Calm, hreceive]
  exact ⟨⟨hone, hone, hone, hhandled, hcalm⟩, hend⟩

/-- The frames that the writer gets past are consumed one after another. -/
theorem consume_all {k : ℕ} (hk : n ≤ k) (hpassed : n ≤ passed d [] frames) (hlength : k < frames.length)
    (hsize : size (frames.take k) ≤ c.sseHandshakeBufferBytes) (hcalm : ∀ i ≤ k, ¬Exceeds c (leastBacklog d frames i)) :
    ∃ seen, seenAfterAll d [] (frames.take n) = some seen ∧
      Calm c d (ready frames [] 0 0 [] []) (List.replicate n consume).flatten ∧
      (List.replicate n consume).flatten.foldl (Connection.step c d) (ready frames [] 0 0 [] []) =
        ready (frames.drop n) (frames.take n) n (size (frames.take n)) [] seen := by
  induction n with
  | zero => exact ⟨[], rfl, trivial, rfl⟩
  | succ n ih =>
      obtain ⟨seen, hseen, hbefore, hstate⟩ := ih (by omega) (by omega)
      have hn : n < frames.length := by omega
      have htake : frames.take (n + 1) = frames.take n ++ [frames.get ⟨n, hn⟩] := by
        rw [List.take_add_one, List.getElem?_eq_getElem hn]
        rfl
      have hdrop : frames.drop n = frames.get ⟨n, hn⟩ :: frames.drop (n + 1) := List.drop_eq_getElem_cons hn
      have hsome := isSome_of_le_passed hpassed
      rw [htake, seenAfterAll_append, hseen] at hsome
      obtain ⟨seen', hseen'⟩ := Option.isSome_iff_exists.mp hsome
      have hnext : seenAfter d seen (frames.get ⟨n, hn⟩) = some seen' := (Option.bind_fun_some _).symm.trans hseen'
      have hbytes : size (frames.take n) + (frames.get ⟨n, hn⟩).length = size (frames.take (n + 1)) := by
        rw [htake, size_append]
        rfl
      have hwithin : size (frames.take (n + 1)) ≤ c.sseHandshakeBufferBytes := (size_take_mono frames hk).trans hsize
      have hraw : ¬Exceeds c [frames.get ⟨n, hn⟩] := by
        have hleast := hcalm n (by omega)
        rw [leastBacklog, Nat.min_eq_left (by omega), htake, List.drop_left' (by simp; omega)] at hleast
        exact hleast
      obtain ⟨hcalm', hend⟩ := consume_ready (frames.drop (n + 1)) (hbytes.le.trans hwithin) hnext
        (List.length_take_of_le hn.le).symm hraw
      refine ⟨seen', ?_, ?_, ?_⟩
      · rw [htake, seenAfterAll_append, hseen]
        exact hseen'
      · rw [List.replicate_succ', List.flatten_concat]
        refine hbefore.append ?_
        rw [hstate, hdrop]
        exact hcalm'
      · rw [List.replicate_succ', List.flatten_concat, List.foldl_append, hstate, hdrop, hend, hbytes, ← htake]

/-- The frames that come after the one that the writer does not get past wait in the queue. -/
theorem receive_rest (seen : List κ) {k m : ℕ} (hm : n + m ≤ k) (hlength : k < frames.length)
    (hsize : size (frames.take k) ≤ c.sseHandshakeBufferBytes) (hcalm : ∀ i ≤ k, ¬Exceeds c (leastBacklog d frames i))
    (hleast : ∀ i, n ≤ i → i ≤ k → leastBacklog d frames i = (frames.take (i + 1)).drop n) :
    Calm c d (ready (frames.drop n) (frames.take n) n (size (frames.take n)) [] seen) (List.replicate m .receive) ∧
      (List.replicate m .receive).foldl (Connection.step c d) (ready (frames.drop n) (frames.take n) n (size (frames.take n)) [] seen) =
        ready (frames.drop (n + m)) (frames.take (n + m)) n (size (frames.take (n + m))) ((frames.take (n + m)).drop n) seen := by
  induction m with
  | zero =>
      refine ⟨trivial, ?_⟩
      rw [Nat.add_zero, List.drop_of_length_le (List.length_take_le n frames)]
      rfl
  | succ m ih =>
      obtain ⟨hbefore, hstate⟩ := ih (by omega)
      have hi : n + m < frames.length := by omega
      have htake : frames.take (n + m + 1) = frames.take (n + m) ++ [frames.get ⟨n + m, hi⟩] := by
        rw [List.take_add_one, List.getElem?_eq_getElem hi]
        rfl
      have hdrop : frames.drop (n + m) = frames.get ⟨n + m, hi⟩ :: frames.drop (n + m + 1) := List.drop_eq_getElem_cons hi
      have hqueue : (frames.take (n + m)).drop n ++ [frames.get ⟨n + m, hi⟩] = (frames.take (n + m + 1)).drop n := by
        rw [htake, List.drop_append_of_le_length]
        rw [List.length_take_of_le hi.le]
        omega
      have hbytes : size (frames.take (n + m)) + (frames.get ⟨n + m, hi⟩).length = size (frames.take (n + m + 1)) := by
        rw [htake, size_append]
        rfl
      have hwithin : size (frames.take (n + m + 1)) ≤ c.sseHandshakeBufferBytes := (size_take_mono frames (by omega)).trans hsize
      have hbacklog : ¬Exceeds c ((frames.take (n + m + 1)).drop n) := by
        rw [← hleast (n + m) (by omega) (by omega)]
        exact hcalm (n + m) (by omega)
      have hroom : ((frames.take (n + m)).drop n).length < c.sseHandshakeBufferEvents := by
        unfold Exceeds at hbacklog
        rw [← hqueue, List.length_append, List.length_singleton] at hbacklog
        omega
      have hreceive : (ready (frames.drop (n + m)) (frames.take (n + m)) n (size (frames.take (n + m))) ((frames.take (n + m)).drop n)
          seen).step c d .receive = ready (frames.drop (n + m + 1)) (frames.take (n + m + 1)) n (size (frames.take (n + m + 1)))
            ((frames.take (n + m + 1)).drop n) seen := by
        rw [hdrop, receive_ready (hbytes.le.trans hwithin) hroom, hqueue, hbytes, ← htake]
      rw [List.replicate_succ']
      refine ⟨hbefore.append ?_, ?_⟩
      · rw [hstate]
        refine ⟨?_, trivial⟩
        rw [hreceive]
        exact hbacklog
      · rw [List.foldl_concat, hstate, hreceive]
        rfl

/-- The client consumes every frame at once until the writer stops, and the rest is received up to a frame. -/
def prompt (d : Decoding κ) (frames : List (List Char)) (k : ℕ) : List Move :=
  opening ++ (List.replicate (min k (passed d [] frames)) consume).flatten ++
    List.replicate (k - min k (passed d [] frames)) .receive ++ [.receive]

/-- When no least backlog is over a limit, the client that consumes every frame at once sees the overflow without any
backlog over a limit. -/
theorem prompt_overflows {k : ℕ} (hsize : size (frames.take k) ≤ c.sseHandshakeBufferBytes)
    (hover : c.sseHandshakeBufferBytes < size (frames.take (k + 1))) (hcalm : ∀ i ≤ k, ¬Exceeds c (leastBacklog d frames i)) :
    ¬OverflowsByBacklog c d frames (prompt d frames k) := by
  have hlength : k < frames.length := by
    by_contra hshort
    rw [List.take_of_length_le (by omega)] at hsize hover
    omega
  have htake : frames.take (k + 1) = frames.take k ++ [frames.get ⟨k, hlength⟩] := by
    rw [List.take_add_one, List.getElem?_eq_getElem hlength]
    rfl
  have hdrop : frames.drop k = frames.get ⟨k, hlength⟩ :: frames.drop (k + 1) := List.drop_eq_getElem_cons hlength
  obtain ⟨seen, -, hconsume, hconsumed⟩ := consume_all (n := min k (passed d [] frames)) (min_le_left _ _) (min_le_right _ _)
    hlength hsize hcalm
  have hleast : ∀ i, min k (passed d [] frames) ≤ i → i ≤ k →
      leastBacklog d frames i = (frames.take (i + 1)).drop (min k (passed d [] frames)) := by
    intro i hfrom hto
    rw [leastBacklog]
    congr 1
    omega
  obtain ⟨hreceive, hreceived⟩ := receive_rest seen (m := k - min k (passed d [] frames)) (by omega) hlength hsize hcalm hleast
  rw [Nat.add_sub_cancel' (min_le_left _ _)] at hreceived
  -- the state when the last frame arrives
  have hstate : (opening ++ (List.replicate (min k (passed d [] frames)) consume).flatten ++
      List.replicate (k - min k (passed d [] frames)) Move.receive).foldl (Connection.step c d) (.start frames) =
      ready (frames.drop k) (frames.take k) (min k (passed d [] frames)) (size (frames.take k))
        ((frames.take k).drop (min k (passed d [] frames))) seen := by
    rw [List.foldl_append, List.foldl_append, run_opening, hconsumed, hreceived]
  have hfull : c.sseHandshakeBufferBytes < size (frames.take k) + (frames.get ⟨k, hlength⟩).length := by
    rw [htake, size_append] at hover
    exact hover
  obtain ⟨hreason, hbacklog⟩ := receive_full (d := d) (frames.drop (k + 1)) (frames.take k)
    ((frames.take k).drop (min k (passed d [] frames))) (min k (passed d [] frames)) seen hfull
  rw [← hdrop] at hreason hbacklog
  rw [← htake, ← hleast k (min_le_left _ _) le_rfl] at hbacklog
  intro hrun
  have hdegraded : (Connection.run c d frames (prompt d frames k)).degradedReason = some .handshakeBufferOverflow := by
    unfold Connection.run prompt
    rw [List.foldl_concat, hstate]
    exact hreason
  obtain ⟨n, -, hexceeds⟩ := hrun hdegraded
  refine Calm.moment (not_exceeds_nil c) ?_ n hexceeds
  refine (Calm.append (Calm.append (calm_opening c d frames) ?_) ?_).append ?_
  · rw [run_opening]
    exact hconsume
  · rw [List.foldl_append, run_opening, hconsumed]
    exact hreceive
  · rw [hstate]
    refine ⟨?_, trivial⟩
    rw [hbacklog]
    exact hcalm k le_rfl

/-- The stream overflows only by its backlog, in every run, when and only when up to the frame that brings the size of
all frames over the byte limit some frame alone, or the frames since the one that stops the writer, are over a limit. -/
theorem overflow_by_backlog (c : Settings) (d : Decoding κ) (frames : List (List Char)) :
    (∀ moves, OverflowsByBacklog c d frames moves) ↔ Backed c d frames := by
  constructor
  · intro h k hsize hover
    by_contra hnone
    have hcalm : ∀ i ≤ k, ¬Exceeds c (leastBacklog d frames i) := fun i hi hexceeds => hnone ⟨i, hi, hexceeds⟩
    exact prompt_overflows hsize hover hcalm (h _)
  · exact fun h moves => h.overflowsByBacklog moves

/-- Frames that say no more than that they are deltas. -/
def delta : List Char := "\x7b\"type\":\"message.delta\"\x7d".toList

def deltas : Decoding (List Char) where
  loads raw := if raw = delta then some (.obj [("type".toList, .str "message.delta".toList)]) else none
  key id := match id with
    | .str s => some s
    | _ => none

/-- Two frames that fit the buffer one after the other, to a client that takes each at once. -/
theorem overflows_without_backlog :
    ¬∀ moves, OverflowsByBacklog ⟨2, 40, by decide, by decide⟩ deltas [delta, delta] moves := by
  intro h
  have hrun := h (opening ++ consume ++ [.receive])
  revert hrun
  decide +kernel

end prompt

end HpAgent.Stream
