import HpAgent.Stream.RunFeed
import Mathlib.Data.List.Induction
import Mathlib.Data.List.Nodup
import Mathlib.Data.List.Perm.Subperm

/-! # What the sequencer of a feed delivers

The frames of a stream arrive in any order, some of them twice and some never.  The sequencer delivers the online events from the
first one that arrives, number by number.

* `drain_spec`: what leaves the buffer.
* `Sequenced`: the baseline, the next number, and what waits beyond it.
* `Sequenced.accept`: one event.
* `feed_delivers_in_sequence`: a whole stream. -/

namespace HpAgent.Stream

open Library

/-- The place of an online event: its stream and its number. -/
def place (e : SseEnvelope) : Option (List Char × ℕ) := e.streamId.bind fun id => e.eventSeq.map fun n => (id, n)

theorem place_eq_some {e : SseEnvelope} {p : List Char × ℕ} : place e = some p ↔ e.streamId = some p.1 ∧ e.eventSeq = some p.2 := by
  obtain ⟨id, n⟩ := p
  unfold place
  cases e.streamId <;> cases e.eventSeq <;> simp

/-- Consecutive numbers of a stream. -/
def consecutive (id : List Char) (first count : ℕ) : List (List Char × ℕ) := (List.range' first count).map fun n => (id, n)

theorem consecutive_append (id : List Char) (first m n : ℕ) :
    consecutive id first m ++ consecutive id (first + m) n = consecutive id first (m + n) := by
  unfold consecutive
  rw [← List.map_append, List.range'_append_1]

/-! ### The buffer -/

namespace StreamSequencer

/-- The buffer holds events of the stream under their numbers, each number once, all of them beyond the next one and within the
window. -/
structure Window (id : List Char) (next : ℕ) (buffered : List (ℕ × SseEnvelope)) : Prop where
  nodup : (buffered.map Prod.fst).Nodup
  placed : ∀ p ∈ buffered, place p.2 = some (id, p.1)
  beyond : ∀ p ∈ buffered, next < p.1 ∧ p.1 ≤ next + maxGap

/-- As many numbers fit beyond the next one as the buffer may hold. -/
theorem Window.length_le {id : List Char} {next : ℕ} {buffered : List (ℕ × SseEnvelope)} (h : Window id next buffered) :
    buffered.length ≤ maxGap := by
  have hsub : (buffered.map Prod.fst).Subperm (List.range' (next + 1) maxGap) := by
    refine List.subperm_of_subset h.nodup fun n hn => ?_
    obtain ⟨p, hp, rfl⟩ := List.mem_map.mp hn
    have hbeyond := h.beyond p hp
    rw [List.mem_range'_1]
    omega
  have hlength := hsub.length_le
  rwa [List.length_map, List.length_range'] at hlength

/-- What `drain` delivers and what it leaves. -/
structure Drained (id : List Char) (next : ℕ) (buffered : List (ℕ × SseEnvelope)) (events : List SseEnvelope) (last : ℕ)
    (rest : List (ℕ × SseEnvelope)) : Prop where
  le : next ≤ last
  in_order : events.filterMap place = consecutive id next (last - next)
  from_buffer : ∀ e ∈ events, e ∈ buffered.map Prod.snd
  sublist : rest.Sublist buffered
  numbers : ∀ n, n ∈ buffered.map Prod.fst ↔ (next ≤ n ∧ n < last) ∨ n ∈ rest.map Prod.fst
  beyond : ∀ p ∈ rest, last < p.1

theorem drain_spec {id : List Char} {fuel next : ℕ} {buffered : List (ℕ × SseEnvelope)} (hfuel : buffered.length ≤ fuel)
    (hplaced : ∀ p ∈ buffered, place p.2 = some (id, p.1)) (hnext : ∀ p ∈ buffered, next ≤ p.1) :
    Drained id next buffered (drain fuel next buffered).1 (drain fuel next buffered).2.1 (drain fuel next buffered).2.2 := by
  induction fuel generalizing next buffered with
  | zero =>
      obtain rfl := List.eq_nil_of_length_eq_zero (Nat.le_zero.mp hfuel)
      exact ⟨le_rfl, by simp [drain, consecutive], by simp [drain], .refl _, by simp [drain], by simp [drain]⟩
  | succ fuel ih =>
      cases hfind : buffered.find? fun entry => entry.1 = next with
      | none =>
          have hstop : drain (fuel + 1) next buffered = ([], next, buffered) := by
            unfold drain
            rw [hfind]
          rw [hstop]
          rw [List.find?_eq_none] at hfind
          have hnot : ∀ p ∈ buffered, p.1 ≠ next := fun p hp => by simpa using hfind p hp
          refine ⟨le_rfl, by simp [consecutive], by simp, .refl _, fun n => ?_, fun p hp => ?_⟩
          · dsimp only
            exact (or_iff_right (by omega)).symm
          · have hle := hnext p hp
            have hne := hnot p hp
            dsimp only
            omega
      | some entry =>
          obtain ⟨hentry, hnumber⟩ : entry ∈ buffered ∧ entry.1 = next :=
            ⟨List.mem_of_find?_eq_some hfind, by simpa using List.find?_some hfind⟩
          have hmem : ∀ p, p ∈ (buffered.filter fun entry => entry.1 ≠ next) ↔ p ∈ buffered ∧ p.1 ≠ next := by
            intro p
            rw [List.mem_filter, decide_eq_true_eq]
          have hshort : (buffered.filter fun entry => entry.1 ≠ next).length ≤ fuel := by
            have hlt : (buffered.filter fun entry => entry.1 ≠ next).length < buffered.length := by
              rw [List.length_filter_lt_length_iff_exists]
              exact ⟨entry, hentry, by simp [hnumber]⟩
            omega
          have hrest := @ih (next + 1) _ hshort (fun p hp => hplaced p ((hmem p).mp hp).1) fun p hp => by
            have hle := hnext p ((hmem p).mp hp).1
            have hne := ((hmem p).mp hp).2
            omega
          have hstep : drain (fuel + 1) next buffered =
              (entry.2 :: (drain fuel (next + 1) (buffered.filter fun entry => entry.1 ≠ next)).1,
                (drain fuel (next + 1) (buffered.filter fun entry => entry.1 ≠ next)).2) := by
            rw [drain, hfind]
          rw [hstep]
          generalize drain fuel (next + 1) (buffered.filter fun entry => entry.1 ≠ next) = drained at hrest ⊢
          obtain ⟨events, last, rest⟩ := drained
          dsimp only at hrest ⊢
          have hle := hrest.le
          refine ⟨by omega, ?_, ?_, hrest.sublist.trans List.filter_sublist, fun n => ?_, hrest.beyond⟩
          · rw [List.filterMap_cons, hplaced entry hentry, hnumber, hrest.in_order]
            have hcount : last - next = 1 + (last - (next + 1)) := by omega
            rw [hcount, ← consecutive_append]
            rfl
          · intro e he
            rw [List.mem_cons] at he
            rcases he with rfl | he
            · exact List.mem_map_of_mem hentry
            · obtain ⟨p, hp, rfl⟩ := List.mem_map.mp (hrest.from_buffer e he)
              exact List.mem_map_of_mem ((hmem p).mp hp).1
          · by_cases hn : n = next
            · subst hn
              exact iff_of_true (List.mem_map.mpr ⟨entry, hentry, hnumber⟩) (.inl (by omega))
            · have hfilter : n ∈ buffered.map Prod.fst ↔ n ∈ (buffered.filter fun entry => entry.1 ≠ next).map Prod.fst := by
                rw [List.mem_map, List.mem_map]
                constructor
                · rintro ⟨p, hp, rfl⟩
                  exact ⟨p, (hmem p).mpr ⟨hp, hn⟩, rfl⟩
                · rintro ⟨p, hp, rfl⟩
                  exact ⟨p, ((hmem p).mp hp).1, rfl⟩
              rw [hfilter, hrest.numbers n]
              refine or_congr_left ?_
              omega

/-! ### One event -/

/-- What is delivered. -/
def Accepted.events : Accepted → List SseEnvelope
  | .delivered events => events
  | _ => []

/-- After the events `taken`, of which `out` have been delivered: everything from the baseline `first` up to `next`, in order; what
waits in the buffer lies beyond. -/
structure Sequenced (s : StreamSequencer) (taken out : List SseEnvelope) (id : List Char) (first next : ℕ) : Prop where
  stream : s.streamId = some id
  expects : s.nextSeq = some next
  lt : first < next
  window : Window id next s.buffered
  own : ∀ p ∈ taken.filterMap place, p.1 = id
  baseline : (taken.filterMap place).head? = some (id, first)
  arrived : ∀ n, first ≤ n → ((id, n) ∈ taken.filterMap place ↔ n < next ∨ n ∈ s.buffered.map Prod.fst)
  in_order : out.filterMap place = consecutive id first (next - first)
  out_taken : ∀ e ∈ out, e ∈ taken
  buffered_taken : ∀ p ∈ s.buffered, p.2 ∈ taken

/-- Before the first numbered event, or after it. -/
def InSequence (s : StreamSequencer) (taken out : List SseEnvelope) : Prop :=
  (s = .start ∧ taken.filterMap place = [] ∧ out.filterMap place = [] ∧ ∀ e ∈ out, e ∈ taken) ∨
    ∃ id first next, Sequenced s taken out id first next

/-- The event is of another stream, or too far ahead of the next number. -/
def Unplaceable (s : StreamSequencer) (e : SseEnvelope) : Prop :=
  ∃ id next stream n, s.streamId = some id ∧ s.nextSeq = some next ∧ place e = some (stream, n) ∧ (stream ≠ id ∨ next + maxGap < n)

theorem accept_unnumbered (s : StreamSequencer) {e : SseEnvelope} (h : place e = none) : s.accept e = (s, .delivered [e]) := by
  unfold accept
  unfold place at h
  cases hstream : e.streamId with
  | none => rfl
  | some id =>
      cases hseq : e.eventSeq with
      | none => rfl
      | some n =>
          rw [hstream, hseq] at h
          cases h

theorem accept_first {e : SseEnvelope} {id : List Char} {n : ℕ} (h : place e = some (id, n)) :
    start.accept e = (⟨some id, some (n + 1), []⟩, .delivered [e]) := by
  obtain ⟨hstream, hseq⟩ := place_eq_some.mp h
  unfold accept
  rw [hstream, hseq]
  rfl

theorem accept_foreign {s : StreamSequencer} {e : SseEnvelope} {id stream : List Char} {n : ℕ} (hs : s.streamId = some id)
    (h : place e = some (stream, n)) (hne : stream ≠ id) : s.accept e = (s, .degraded) := by
  obtain ⟨hstream, hseq⟩ := place_eq_some.mp h
  unfold accept
  rw [hstream, hseq, hs]
  dsimp only
  rw [if_pos hne]

/-- An event of the stream, by its number. -/
theorem accept_own {s : StreamSequencer} {e : SseEnvelope} {id : List Char} {next n : ℕ} (hs : s.streamId = some id)
    (hnext : s.nextSeq = some next) (h : place e = some (id, n)) : s.accept e =
      if n < next then (s, .duplicate)
      else if n = next then
        ({ s with
            nextSeq := some (drain s.buffered.length (n + 1) s.buffered).2.1
            buffered := (drain s.buffered.length (n + 1) s.buffered).2.2 },
          .delivered (e :: (drain s.buffered.length (n + 1) s.buffered).1))
      else if maxGap < n - next ∨ s.buffered.any (fun entry => entry.1 = n) then (s, .degraded)
      else if maxGap < (s.buffered ++ [(n, e)]).length then ({ s with buffered := s.buffered ++ [(n, e)] }, .degraded)
      else ({ s with buffered := s.buffered ++ [(n, e)] }, .delivered []) := by
  obtain ⟨hstream, hseq⟩ := place_eq_some.mp h
  unfold accept
  rw [hstream, hseq, hs]
  dsimp only
  rw [if_neg (not_not_intro rfl), hnext]
  rfl

theorem filterMap_place_concat_none {events : List SseEnvelope} {e : SseEnvelope} (h : place e = none) :
    (events ++ [e]).filterMap place = events.filterMap place := by
  rw [List.filterMap_append, List.filterMap_cons_none h, List.filterMap_nil, List.append_nil]

theorem filterMap_place_concat {events : List SseEnvelope} {e : SseEnvelope} {p : List Char × ℕ} (h : place e = some p) :
    (events ++ [e]).filterMap place = events.filterMap place ++ [p] := by
  rw [List.filterMap_append, List.filterMap_cons_some h, List.filterMap_nil]

theorem mem_concat_of_mem {events more : List SseEnvelope} {x : SseEnvelope} (h : x ∈ events) : x ∈ events ++ more :=
  List.mem_append_left _ h

section step

variable {s : StreamSequencer} {taken out : List SseEnvelope} {id : List Char} {first next n : ℕ} {e : SseEnvelope}

theorem Sequenced.own_concat (h : Sequenced s taken out id first next) (n : ℕ) :
    ∀ p ∈ taken.filterMap place ++ [(id, n)], p.1 = id := by
  intro p hp
  rw [List.mem_append, List.mem_singleton] at hp
  rcases hp with hp | rfl
  · exact h.own p hp
  · rfl

theorem Sequenced.concat_head (h : Sequenced s taken out id first next) (p : List Char × ℕ) :
    (taken.filterMap place ++ [p]).head? = some (id, first) := by
  rw [List.head?_append, h.baseline]
  rfl

theorem Sequenced.unnumbered (h : Sequenced s taken out id first next) (he : place e = none) :
    Sequenced s (taken ++ [e]) (out ++ [e]) id first next := by
  refine ⟨h.stream, h.expects, h.lt, h.window, ?_, ?_, ?_, ?_, fun x hx => ?_, fun p hp => mem_concat_of_mem (h.buffered_taken p hp)⟩
  · rw [filterMap_place_concat_none he]
    exact h.own
  · rw [filterMap_place_concat_none he]
    exact h.baseline
  · rw [filterMap_place_concat_none he]
    exact h.arrived
  · rw [filterMap_place_concat_none he]
    exact h.in_order
  · rw [List.mem_append, List.mem_singleton] at hx
    rcases hx with hx | rfl
    · exact mem_concat_of_mem (h.out_taken x hx)
    · simp

/-- An event from before the baseline is dropped. -/
theorem Sequenced.past (h : Sequenced s taken out id first next) (he : place e = some (id, n)) (hn : n < first) :
    Sequenced s (taken ++ [e]) out id first next := by
  refine ⟨h.stream, h.expects, h.lt, h.window, ?_, ?_, fun m hm => ?_, h.in_order, fun x hx => mem_concat_of_mem (h.out_taken x hx),
    fun p hp => mem_concat_of_mem (h.buffered_taken p hp)⟩
  · rw [filterMap_place_concat he]
    exact h.own_concat n
  · rw [filterMap_place_concat he]
    exact h.concat_head _
  · rw [filterMap_place_concat he, List.mem_append, List.mem_singleton, ← h.arrived m hm]
    refine or_iff_left fun heq => ?_
    have hmn := (Prod.mk.inj heq).2
    omega

/-- The next event is delivered, and with it what follows in the buffer. -/
theorem Sequenced.following (h : Sequenced s taken out id first n) (he : place e = some (id, n)) :
    Sequenced { s with
        nextSeq := some (drain s.buffered.length (n + 1) s.buffered).2.1
        buffered := (drain s.buffered.length (n + 1) s.buffered).2.2 }
      (taken ++ [e]) (out ++ e :: (drain s.buffered.length (n + 1) s.buffered).1) id first
      (drain s.buffered.length (n + 1) s.buffered).2.1 := by
  have hdrained := @drain_spec id _ (n + 1) _ (le_refl s.buffered.length) h.window.placed fun p hp =>
    (h.window.beyond p hp).1
  generalize drain s.buffered.length (n + 1) s.buffered = drained at hdrained ⊢
  obtain ⟨events, last, rest⟩ := drained
  dsimp only at hdrained ⊢
  have hle := hdrained.le
  have hlt := h.lt
  refine ⟨h.stream, rfl, by omega, ⟨?_, fun p hp => h.window.placed p (hdrained.sublist.subset hp), fun p hp => ?_⟩, ?_, ?_, fun m hm => ?_,
    ?_, fun x hx => ?_, fun p hp => mem_concat_of_mem (h.buffered_taken p (hdrained.sublist.subset hp))⟩
  · exact h.window.nodup.sublist (hdrained.sublist.map _)
  · have hbeyond := h.window.beyond p (hdrained.sublist.subset hp)
    have hlast := hdrained.beyond p hp
    omega
  · rw [filterMap_place_concat he]
    exact h.own_concat n
  · rw [filterMap_place_concat he]
    exact h.concat_head _
  · rw [filterMap_place_concat he, List.mem_append, List.mem_singleton, h.arrived m hm, hdrained.numbers m, Prod.mk.injEq]
    constructor
    · rintro ((hm' | ⟨-, hm'⟩ | hm') | ⟨-, rfl⟩)
      · exact .inl (by omega)
      · exact .inl hm'
      · exact .inr hm'
      · exact .inl (by omega)
    · rintro (hm' | hm')
      · by_cases hcase : m < n
        · exact .inl (.inl hcase)
        · by_cases heq : m = n
          · exact .inr ⟨rfl, heq⟩
          · exact .inl (.inr (.inl ⟨by omega, hm'⟩))
      · exact .inl (.inr (.inr hm'))
  · rw [List.filterMap_append, List.filterMap_cons_some he, h.in_order, hdrained.in_order]
    have hcount : last - first = (n - first) + (1 + (last - (n + 1))) := by omega
    have hstart : first + (n - first) = n := by omega
    rw [hcount, ← consecutive_append, hstart, ← consecutive_append]
    rfl
  · rw [List.mem_append, List.mem_cons] at hx
    rcases hx with hx | rfl | hx
    · exact mem_concat_of_mem (h.out_taken x hx)
    · simp
    · obtain ⟨p, hp, rfl⟩ := List.mem_map.mp (hdrained.from_buffer x hx)
      exact mem_concat_of_mem (h.buffered_taken p hp)

/-- An event within the window waits. -/
theorem Sequenced.ahead (h : Sequenced s taken out id first next) (he : place e = some (id, n)) (hn : next < n) (hgap : n ≤ next + maxGap)
    (hnew : n ∉ s.buffered.map Prod.fst) :
    Sequenced { s with buffered := s.buffered ++ [(n, e)] } (taken ++ [e]) out id first next := by
  refine ⟨h.stream, h.expects, h.lt, ⟨?_, fun p hp => ?_, fun p hp => ?_⟩, ?_, ?_, fun m hm => ?_, h.in_order,
    fun x hx => mem_concat_of_mem (h.out_taken x hx), fun p hp => ?_⟩
  · dsimp only
    rw [List.map_append, List.map_singleton, ← List.concat_eq_append]
    exact h.window.nodup.concat hnew
  · rw [List.mem_append, List.mem_singleton] at hp
    rcases hp with hp | rfl
    · exact h.window.placed p hp
    · exact he
  · rw [List.mem_append, List.mem_singleton] at hp
    rcases hp with hp | rfl
    · exact h.window.beyond p hp
    · exact ⟨hn, hgap⟩
  · rw [filterMap_place_concat he]
    exact h.own_concat n
  · rw [filterMap_place_concat he]
    exact h.concat_head _
  · rw [filterMap_place_concat he, List.mem_append, List.mem_singleton, h.arrived m hm, List.map_append, List.mem_append,
      List.map_singleton, List.mem_singleton, Prod.mk.injEq, or_assoc]
    simp only [true_and]
  · rw [List.mem_append, List.mem_singleton] at hp
    rcases hp with hp | rfl
    · exact mem_concat_of_mem (h.buffered_taken p hp)
    · simp

/-- **One event: it is accepted and the sequence goes on, or it cannot be placed and nothing changes.** -/
theorem InSequence.accept (h : InSequence s taken out) (hnew : ∀ p, place e = some p → p ∉ taken.filterMap place) :
    ((s.accept e).2 ≠ .degraded ∧ InSequence (s.accept e).1 (taken ++ [e]) (out ++ (s.accept e).2.events)) ∨
      ((s.accept e).2 = .degraded ∧ (s.accept e).1 = s ∧ Unplaceable s e) := by
  cases hplace : place e with
  | none =>
      rw [accept_unnumbered s hplace]
      refine .inl ⟨nofun, ?_⟩
      rcases h with ⟨rfl, htaken, hout, hmem⟩ | ⟨id, first, next, h⟩
      · refine .inl ⟨rfl, (filterMap_place_concat_none hplace).trans htaken, (filterMap_place_concat_none hplace).trans hout,
          fun x hx => ?_⟩
        rw [Accepted.events, List.mem_append, List.mem_singleton] at hx
        rcases hx with hx | rfl
        · exact mem_concat_of_mem (hmem x hx)
        · simp
      · exact .inr ⟨id, first, next, h.unnumbered hplace⟩
  | some p =>
      obtain ⟨stream, n⟩ := p
      have hfresh := hnew _ hplace
      rcases h with ⟨rfl, htaken, hout, hmem⟩ | ⟨id, first, next, h⟩
      · -- the first number is the baseline
        rw [accept_first hplace]
        refine .inl ⟨nofun, .inr ⟨stream, n, n + 1, rfl, rfl, Nat.lt_succ_self n, ⟨List.nodup_nil, by simp, by simp⟩, ?_, ?_, fun m hm => ?_,
          ?_, fun x hx => ?_, by simp⟩⟩
        · rw [filterMap_place_concat hplace, htaken]
          simp
        · rw [filterMap_place_concat hplace, htaken]
          rfl
        · rw [filterMap_place_concat hplace, htaken]
          simp only [List.nil_append, List.mem_singleton, Prod.mk.injEq, true_and, List.map_nil, List.not_mem_nil, or_false]
          omega
        · rw [Accepted.events, filterMap_place_concat hplace, hout]
          have hone : n + 1 - n = 1 := by omega
          rw [hone]
          rfl
        · rw [Accepted.events, List.mem_append, List.mem_singleton] at hx
          rcases hx with hx | rfl
          · exact mem_concat_of_mem (hmem x hx)
          · simp
      · by_cases hstream : stream = id
        · subst hstream
          have hold : first ≤ n → ¬(n < next ∨ n ∈ s.buffered.map Prod.fst) := fun hle => (h.arrived n hle).not.mp hfresh
          rw [accept_own h.stream h.expects hplace]
          by_cases hpast : n < next
          · rw [if_pos hpast]
            have hbefore : n < first := by
              by_contra hle
              exact hold (by omega) (.inl hpast)
            refine .inl ⟨nofun, .inr ⟨stream, first, next, ?_⟩⟩
            show Sequenced s (taken ++ [e]) (out ++ []) stream first next
            rw [List.append_nil]
            exact h.past hplace hbefore
          · rw [if_neg hpast]
            by_cases heq : n = next
            · subst heq
              rw [if_pos rfl]
              exact .inl ⟨nofun, .inr ⟨stream, first, _, h.following hplace⟩⟩
            · have hlt := h.lt
              rw [if_neg heq]
              have hwaits : n ∉ s.buffered.map Prod.fst := fun hmem => hold (by omega) (.inr hmem)
              have hany : ¬s.buffered.any (fun entry => entry.1 = n) = true := by
                rw [List.any_eq_true]
                rintro ⟨p, hp, hn⟩
                exact hwaits (List.mem_map.mpr ⟨p, hp, by simpa using hn⟩)
              by_cases hgap : maxGap < n - next
              · rw [if_pos (.inl hgap)]
                exact .inr ⟨rfl, rfl, stream, next, stream, n, h.stream, h.expects, hplace, .inr (by omega)⟩
              · have hahead := h.ahead hplace (by omega) (by omega) hwaits
                have hroom := hahead.window.length_le
                rw [if_neg (not_or.mpr ⟨hgap, hany⟩), if_neg (not_lt.mpr hroom)]
                refine .inl ⟨nofun, .inr ⟨stream, first, next, ?_⟩⟩
                rw [Accepted.events, List.append_nil]
                exact hahead
        · rw [accept_foreign h.stream hplace hstream]
          exact .inr ⟨rfl, rfl, id, next, stream, n, h.stream, h.expects, hplace, .inl hstream⟩

end step

end StreamSequencer

/-! ### The frames of a stream -/

namespace RunFeed

/-- The types of the frames that do not go to the sequencer. -/
def projected : List (List Char) :=
  ["stream.degraded".toList, "auth.expired".toList, "run.snapshot".toList, "run.succeeded".toList, "run.failed".toList,
    "run.cancelled".toList]

/-- An online event. -/
def Online (e : SseEnvelope) : Prop := e.eventType ≠ [] ∧ e.eventType ∉ projected

instance (e : SseEnvelope) : Decidable (Online e) := inferInstanceAs (Decidable (_ ∧ _))

/-- The event of a frame, if it gets to the sequencer. -/
def reaching (f : RunFeed) (frame : Option SseEnvelope) : Option SseEnvelope :=
  if f.degraded ∨ f.ended then none else frame.filter fun e => Online e ∧ e.eventId ∉ f.seenEventIds

/-- What the sequencer delivers for a frame. -/
def delivers (f : RunFeed) (frame : Option SseEnvelope) : List SseEnvelope :=
  match f.reaching frame with
  | some e => (f.sequencer.accept e).2.events
  | none => []

/-- What the sequencer delivers for the frames of a stream. -/
def deliveries (f : RunFeed) : List (Option SseEnvelope) → List SseEnvelope
  | [] => []
  | frame :: frames => f.delivers frame ++ deliveries (f.handleFrame frame) frames

theorem deliveries_append (f : RunFeed) (before after : List (Option SseEnvelope)) :
    f.deliveries (before ++ after) = f.deliveries before ++ (before.foldl handleFrame f).deliveries after := by
  induction before generalizing f with
  | nil => rfl
  | cons frame before ih => rw [List.cons_append, deliveries, deliveries, ih, List.append_assoc, List.foldl_cons]

theorem read_concat (before : List (Option SseEnvelope)) (frame : Option SseEnvelope) :
    read (before ++ [frame]) = (read before).handleFrame frame := by
  unfold read
  rw [List.foldl_append]
  rfl

theorem deliveries_concat (before : List (Option SseEnvelope)) (frame : Option SseEnvelope) :
    start.deliveries (before ++ [frame]) = start.deliveries before ++ (read before).delivers frame := by
  rw [deliveries_append, deliveries, deliveries, List.append_nil]
  rfl

theorem reaching_eq_some {f : RunFeed} {frame : Option SseEnvelope} {e : SseEnvelope} : f.reaching frame = some e ↔
    f.degraded = false ∧ f.ended = false ∧ frame = some e ∧ Online e ∧ e.eventId ∉ f.seenEventIds := by
  unfold reaching
  split
  · next h =>
      refine iff_of_false nofun fun hopen => ?_
      rw [hopen.1, hopen.2.1] at h
      simp at h
  · next h =>
      rw [not_or, Bool.not_eq_true, Bool.not_eq_true] at h
      rw [Option.filter_eq_some_iff, decide_eq_true_eq]
      simp only [h, true_and]

/-- An event that gets to the sequencer. -/
theorem handleFrame_reaching {f : RunFeed} {frame : Option SseEnvelope} {e : SseEnvelope} (h : f.reaching frame = some e) :
    f.handleFrame frame = { f with seenEventIds := e.eventId :: f.seenEventIds }.sequence e := by
  obtain ⟨hdegraded, hended, rfl, ⟨htype, honline⟩, hid⟩ := reaching_eq_some.mp h
  unfold projected at honline
  simp only [List.mem_cons, List.not_mem_nil, or_false, not_or] at honline
  obtain ⟨hstream, hauth, hsnapshot, hsucceeded, hfailed, hcancelled⟩ := honline
  unfold handleFrame
  rw [if_neg (by simp [hdegraded, hended])]
  dsimp only
  rw [if_neg htype, if_neg hid]
  unfold route
  rw [if_neg hstream, if_neg hauth, if_neg hsnapshot, if_neg]
  simp only [List.mem_cons, List.not_mem_nil, or_false, not_or]
  exact ⟨hsucceeded, hfailed, hcancelled⟩

/-- What a frame that does not get to the sequencer does to the feed. -/
structure Passed (f : RunFeed) (frame : Option SseEnvelope) (f' : RunFeed) : Prop where
  sequencer : f'.sequencer = f.sequencer
  kept : ∀ id ∈ f.seenEventIds, id ∈ f'.seenEventIds
  added : ∀ id ∈ f'.seenEventIds, id ∈ f.seenEventIds ∨ ∃ e, frame = some e ∧ e.eventId = id
  degraded : f'.degraded = true → f.degraded = true ∨ ∃ e, frame = some e ∧ e.eventType = "stream.degraded".toList
  opened : f'.degraded = false → f'.ended = false → f.degraded = false ∧ f.ended = false

theorem passed_self (f : RunFeed) (frame : Option SseEnvelope) : Passed f frame f :=
  ⟨rfl, fun _ h => h, fun _ h => .inl h, .inl, fun hdegraded hended => ⟨hdegraded, hended⟩⟩

/-- The server's notices and projections. -/
theorem route_projected {f : RunFeed} (hdegraded : f.degraded = false) (hended : f.ended = false) {e : SseEnvelope}
    (htype : e.eventType ∈ projected) : Passed f (some e) ({ f with seenEventIds := e.eventId :: f.seenEventIds }.route e) := by
  have hadded : ∀ id ∈ e.eventId :: f.seenEventIds, id ∈ f.seenEventIds ∨ ∃ x, some e = some x ∧ x.eventId = id := by
    intro id hid
    rcases List.mem_cons.mp hid with rfl | hid
    · exact .inr ⟨e, rfl, rfl⟩
    · exact .inl hid
  have hkept : ∀ id ∈ f.seenEventIds, id ∈ e.eventId :: f.seenEventIds := fun id hid => List.mem_cons_of_mem _ hid
  unfold route
  split
  · next hnotice =>
      unfold degrade
      rw [if_neg (by simp [hdegraded, hended])]
      exact ⟨rfl, hkept, hadded, fun _ => .inr ⟨e, rfl, hnotice⟩, nofun⟩
  · next hnotice =>
      split
      · refine ⟨rfl, hkept, hadded, fun h => ?_, nofun⟩
        exact .inl h
      · next hauth =>
          split
          · split
            · exact ⟨rfl, hkept, hadded, .inl, fun _ _ => ⟨hdegraded, hended⟩⟩
            · exact ⟨rfl, hkept, hadded, .inl, fun _ _ => ⟨hdegraded, hended⟩⟩
          · next hsnapshot =>
              split
              · split
                · exact ⟨rfl, hkept, hadded, .inl, nofun⟩
                · exact ⟨rfl, hkept, hadded, .inl, fun _ _ => ⟨hdegraded, hended⟩⟩
              · next hterminal =>
                  simp only [List.mem_cons, List.not_mem_nil, or_false, not_or] at hterminal
                  unfold projected at htype
                  simp only [List.mem_cons, List.not_mem_nil, or_false] at htype
                  simp only [hnotice, hauth, hsnapshot, hterminal, or_self] at htype

/-- A frame that does not get to the sequencer leaves it alone; only the server's own notice degrades the feed then. -/
theorem handleFrame_passed {f : RunFeed} {frame : Option SseEnvelope} (h : f.reaching frame = none) :
    Passed f frame (f.handleFrame frame) := by
  unfold handleFrame
  split
  · exact passed_self f frame
  · next hopen =>
      rw [not_or, Bool.not_eq_true, Bool.not_eq_true] at hopen
      cases frame with
      | none => exact passed_self f none
      | some e =>
          dsimp only
          split
          · exact passed_self f _
          · next htype =>
              split
              · exact passed_self f _
              · next hid =>
                  refine route_projected hopen.1 hopen.2 ?_
                  by_contra honline
                  have hreaches := reaching_eq_some.mpr ⟨hopen.1, hopen.2, rfl, ⟨htype, honline⟩, hid⟩
                  rw [h] at hreaches
                  cases hreaches

/-! ### What has arrived -/

/-- The places of the online events among the frames, as they arrive. -/
def numbered (frames : List (Option SseEnvelope)) : List (List Char × ℕ) :=
  frames.filterMap fun frame => (frame.filter fun e => Online e).bind place

theorem mem_numbered {frames : List (Option SseEnvelope)} {p : List Char × ℕ} :
    p ∈ numbered frames ↔ ∃ e, some e ∈ frames ∧ Online e ∧ place e = some p := by
  unfold numbered
  rw [List.mem_filterMap]
  constructor
  · rintro ⟨frame, hframe, hplace⟩
    obtain ⟨e, he, hp⟩ := Option.bind_eq_some_iff.mp hplace
    rw [Option.filter_eq_some_iff, decide_eq_true_eq] at he
    obtain ⟨rfl, honline⟩ := he
    exact ⟨e, hframe, honline, hp⟩
  · rintro ⟨e, he, honline, hplace⟩
    refine ⟨some e, he, ?_⟩
    rw [Option.filter_some, if_pos (decide_eq_true honline)]
    exact hplace

/-- The first number that arrives. -/
def baseline (frames : List (Option SseEnvelope)) : Option (List Char × ℕ) := (numbered frames).head?

/-- Every number from the baseline on has arrived up to the next one, and that one has not. -/
structure Upto (frames : List (Option SseEnvelope)) (id : List Char) (first next : ℕ) : Prop where
  baseline : baseline frames = some (id, first)
  lt : first < next
  arrived : ∀ n, first ≤ n → n < next → (id, n) ∈ numbered frames
  missing : (id, next) ∉ numbered frames

/-- Frames of one stream: copies of an event apart, an identifier and a number stand for one event. -/
structure OneStream (frames : List (Option SseEnvelope)) : Prop where
  ids : ∀ e e', some e ∈ frames → some e' ∈ frames → e.eventId = e'.eventId → e = e'
  numbers : ∀ e e' p, some e ∈ frames → some e' ∈ frames → place e = some p → place e' = some p → e = e'

theorem OneStream.initial {before after : List (Option SseEnvelope)} (h : OneStream (before ++ after)) : OneStream before :=
  ⟨fun e e' he he' => h.ids e e' (List.mem_append_left _ he) (List.mem_append_left _ he'),
    fun e e' p he he' => h.numbers e e' p (List.mem_append_left _ he) (List.mem_append_left _ he')⟩

/-- The events that the sequencer of a feed has accepted after the frames. -/
structure Taken (frames : List (Option SseEnvelope)) (f : RunFeed) (taken out : List SseEnvelope) : Prop where
  sequence : StreamSequencer.InSequence f.sequencer taken out
  seen : ∀ e ∈ taken, e.eventId ∈ f.seenEventIds ∧ some e ∈ frames ∧ Online e
  seen_frames : ∀ id ∈ f.seenEventIds, ∃ e, some e ∈ frames ∧ e.eventId = id
  first : ∀ p, (taken.filterMap place).head? = some p → baseline frames = some p
  all : f.degraded = false → f.ended = false → ∀ e, some e ∈ frames → Online e → e ∈ taken

theorem numbered_append (before after : List (Option SseEnvelope)) : numbered (before ++ after) = numbered before ++ numbered after :=
  List.filterMap_append

theorem baseline_append {before after : List (Option SseEnvelope)} {p : List Char × ℕ} (h : baseline before = some p) :
    baseline (before ++ after) = some p := by
  unfold baseline at h ⊢
  rw [numbered_append, List.head?_append, h]
  rfl

section feed

variable {frames : List (Option SseEnvelope)} {frame : Option SseEnvelope} {f : RunFeed} {taken out : List SseEnvelope}

/-- Why a feed degrades at a frame. -/
def Cause (f : RunFeed) (frame : Option SseEnvelope) : Prop :=
  ∃ e, frame = some e ∧ (e.eventType = "stream.degraded".toList ∨ StreamSequencer.Unplaceable f.sequencer e)

/-- A frame that does not get to the sequencer. -/
theorem Taken.passed (h : Taken frames f taken out) (hone : OneStream (frames ++ [frame])) (hpassed : f.reaching frame = none) :
    Taken (frames ++ [frame]) (f.handleFrame frame) taken out := by
  have hframe := handleFrame_passed hpassed
  refine ⟨by rw [hframe.sequencer]; exact h.sequence, fun e he => ?_, fun id hid => ?_, fun p hp => baseline_append (h.first p hp),
    fun hdegraded hended e he honline => ?_⟩
  · obtain ⟨hid, hmem, honline⟩ := h.seen e he
    exact ⟨hframe.kept _ hid, List.mem_append_left _ hmem, honline⟩
  · rcases hframe.added id hid with hold | ⟨e, rfl, hnew⟩
    · obtain ⟨e, he, hseen⟩ := h.seen_frames id hold
      exact ⟨e, List.mem_append_left _ he, hseen⟩
    · exact ⟨e, by simp, hnew⟩
  · obtain ⟨hopen, hopen'⟩ := hframe.opened hdegraded hended
    rcases List.mem_append.mp he with hold | hlast
    · exact h.all hopen hopen' e hold honline
    · -- an online event is passed over only if it was seen
      have hsome := (List.mem_singleton.mp hlast).symm
      by_cases hid : e.eventId ∈ f.seenEventIds
      · obtain ⟨e', he', hsame⟩ := h.seen_frames _ hid
        obtain rfl := hone.ids e' e (List.mem_append_left _ he') he hsame
        exact h.all hopen hopen' e' he' honline
      · have hreaches := reaching_eq_some.mpr ⟨hopen, hopen', hsome, honline, hid⟩
        rw [hpassed] at hreaches
        cases hreaches

/-- One frame. -/
theorem Taken.step (h : Taken frames f taken out) (hone : OneStream (frames ++ [frame])) :
    (∃ taken', Taken (frames ++ [frame]) (f.handleFrame frame) taken' (out ++ f.delivers frame)) ∧
      (f.degraded = false → (f.handleFrame frame).degraded = true → Cause f frame) := by
  unfold delivers
  cases hreaching : f.reaching frame with
  | none =>
      rw [List.append_nil]
      refine ⟨⟨taken, h.passed hone hreaching⟩, fun hopen hdegraded => ?_⟩
      rcases (handleFrame_passed hreaching).degraded hdegraded with hbefore | ⟨e, hframe, hnotice⟩
      · rw [hopen] at hbefore
        cases hbefore
      · exact ⟨e, hframe, .inl hnotice⟩
  | some e =>
      obtain ⟨hdegraded, hended, rfl, honline, hid⟩ := reaching_eq_some.mp hreaching
      rw [handleFrame_reaching hreaching]
      dsimp only
      have hfresh : ∀ p, place e = some p → p ∉ taken.filterMap place := by
        intro p hp hmem
        obtain ⟨e', he', hp'⟩ := List.mem_filterMap.mp hmem
        obtain ⟨hseen, hframe, -⟩ := h.seen e' he'
        obtain rfl := hone.numbers e' e p (List.mem_append_left _ hframe) (by simp) hp' hp
        exact hid hseen
      have hseen_frames : ∀ id ∈ e.eventId :: f.seenEventIds, ∃ x, some x ∈ frames ++ [some e] ∧ x.eventId = id := by
        intro id hid
        rcases List.mem_cons.mp hid with rfl | hid
        · exact ⟨e, by simp, rfl⟩
        · obtain ⟨x, hx, hxid⟩ := h.seen_frames id hid
          exact ⟨x, List.mem_append_left _ hx, hxid⟩
      have hkept : ∀ x ∈ taken, x.eventId ∈ e.eventId :: f.seenEventIds ∧ some x ∈ frames ++ [some e] ∧ Online x := by
        intro x hx
        obtain ⟨hxid, hxframe, hxonline⟩ := h.seen x hx
        exact ⟨List.mem_cons_of_mem _ hxid, List.mem_append_left _ hxframe, hxonline⟩
      unfold RunFeed.sequence
      rcases h.sequence.accept hfresh with ⟨hplaced, hsequence⟩ | ⟨hstopped, hsame, hcause⟩
      · generalize f.sequencer.accept e = accepted at hplaced hsequence ⊢
        obtain ⟨sequencer, accepted⟩ := accepted
        dsimp only at hplaced hsequence ⊢
        have htaken : ∀ callbacks, Taken (frames ++ [some e]) ⟨f.degraded, f.ended, e.eventId :: f.seenEventIds, sequencer, callbacks⟩
            (taken ++ [e]) (out ++ accepted.events) := by
          intro callbacks
          refine ⟨hsequence, fun x hx => ?_, hseen_frames, fun p hp => ?_, fun _ _ x hx hxonline => ?_⟩
          · rcases List.mem_append.mp hx with hx | hx
            · exact hkept x hx
            · obtain rfl := List.mem_singleton.mp hx
              exact ⟨by simp, by simp, honline⟩
          · rw [List.filterMap_append, List.head?_append] at hp
            cases hhead : (taken.filterMap place).head? with
            | some q =>
                rw [hhead] at hp
                obtain rfl := Option.some.inj hp
                exact baseline_append (h.first q hhead)
            | none =>
                -- nothing numbered has arrived before
                rw [hhead] at hp
                have hnone : numbered frames = [] := by
                  refine List.eq_nil_iff_forall_not_mem.mpr fun q hq => ?_
                  obtain ⟨x, hx, hxonline, hxplace⟩ := mem_numbered.mp hq
                  have hmem := List.mem_filterMap.mpr ⟨x, h.all hdegraded hended x hx hxonline, hxplace⟩
                  rw [List.head?_eq_none_iff.mp hhead] at hmem
                  cases hmem
                have hlast : numbered [some e] = [e].filterMap place := by
                  unfold numbered
                  rw [List.filterMap_cons, Option.filter_some, if_pos (decide_eq_true honline)]
                  rfl
                unfold baseline
                rw [numbered_append, hnone, List.nil_append, hlast]
                exact hp
          · rcases List.mem_append.mp hx with hx | hx
            · exact List.mem_append_left _ (h.all hdegraded hended x hx hxonline)
            · obtain rfl := Option.some.inj (List.mem_singleton.mp hx)
              simp
        cases accepted with
        | delivered events => exact ⟨⟨taken ++ [e], htaken _⟩, fun hopen hstop => by rw [hopen] at hstop; cases hstop⟩
        | duplicate => exact ⟨⟨taken ++ [e], htaken _⟩, fun hopen hstop => by rw [hopen] at hstop; cases hstop⟩
        | degraded => exact absurd rfl hplaced
      · generalize f.sequencer.accept e = accepted at hstopped hsame ⊢
        obtain ⟨sequencer, accepted⟩ := accepted
        dsimp only at hstopped hsame ⊢
        subst hstopped hsame
        refine ⟨⟨taken, ?_⟩, fun _ _ => ⟨e, rfl, .inr hcause⟩⟩
        have hnothing : StreamSequencer.Accepted.degraded.events = [] := rfl
        unfold degrade
        dsimp only
        rw [if_neg (by simp [hdegraded, hended]), hnothing, List.append_nil]
        exact ⟨h.sequence, hkept, hseen_frames, fun p hp => baseline_append (h.first p hp), nofun⟩

/-- A whole stream. -/
theorem exists_taken (hone : OneStream frames) : ∃ taken, Taken frames (read frames) taken (start.deliveries frames) := by
  induction frames using List.reverseRecOn with
  | nil => exact ⟨[], .inl ⟨rfl, rfl, rfl, nofun⟩, nofun, nofun, nofun, nofun⟩
  | append_singleton before frame ih =>
      obtain ⟨taken, htaken⟩ := ih hone.initial
      rw [read_concat, deliveries_concat]
      exact (htaken.step hone).1

/-- What has arrived while the feed is open. -/
theorem Taken.upto {id : List Char} {first next : ℕ} (h : Taken frames f taken out) (hdegraded : f.degraded = false)
    (hended : f.ended = false) (hsequence : StreamSequencer.Sequenced f.sequencer taken out id first next) :
    Upto frames id first next := by
  have hsame : ∀ p, p ∈ numbered frames ↔ p ∈ taken.filterMap place := by
    intro p
    rw [mem_numbered, List.mem_filterMap]
    constructor
    · rintro ⟨e, he, honline, hp⟩
      exact ⟨e, h.all hdegraded hended e he honline, hp⟩
    · rintro ⟨e, he, hp⟩
      obtain ⟨-, hframe, honline⟩ := h.seen e he
      exact ⟨e, hframe, honline, hp⟩
  have hlt := hsequence.lt
  refine ⟨h.first _ hsequence.baseline, hlt, fun n hfirst hnext => ?_, ?_⟩
  · rw [hsame, hsequence.arrived n hfirst]
    exact .inl hnext
  · rw [hsame, hsequence.arrived next hlt.le]
    rintro (hself | hwaits)
    · omega
    · obtain ⟨p, hp, hnumber⟩ := List.mem_map.mp hwaits
      have hbeyond := (hsequence.window.beyond p hp).1
      omega

/-- **For every order, repetition and loss of the frames of a stream, the numbered events that are delivered are consecutive from the
first one that arrived, each of them one of the frames.**  While the feed is open they reach up to the first number that is missing;
the feed degrades only at a notice of the server, at an event of another stream, or at one that is beyond the window of that
number; and the buffer never exceeds its bound. -/
theorem feed_delivers_in_sequence (frames : List (Option SseEnvelope)) (hone : OneStream frames) :
    (∃ count, (start.deliveries frames).filterMap place = (baseline frames).elim [] fun p => consecutive p.1 p.2 count) ∧
    (∀ e ∈ start.deliveries frames, some e ∈ frames) ∧
    ((read frames).degraded = false → (read frames).ended = false → ∀ id first, baseline frames = some (id, first) →
      ∃ next, Upto frames id first next ∧ (start.deliveries frames).filterMap place = consecutive id first (next - first)) ∧
    (∀ before frame after, frames = before ++ frame :: after → (read before).degraded = false →
      (read (before ++ [frame])).degraded = true → ∃ e, frame = some e ∧ (e.eventType = "stream.degraded".toList ∨
        ∃ id first next stream n, Upto before id first next ∧ place e = some (stream, n) ∧
          (stream ≠ id ∨ next + StreamSequencer.maxGap < n))) ∧
    ∀ before after, frames = before ++ after → (read before).sequencer.buffered.length ≤ StreamSequencer.maxGap := by
  obtain ⟨taken, htaken⟩ := exists_taken hone
  refine ⟨?_, fun e he => ?_, fun hdegraded hended id first hbaseline => ?_, ?_, ?_⟩
  · rcases htaken.sequence with ⟨-, -, hout, -⟩ | ⟨id, first, next, hsequence⟩
    · refine ⟨0, hout.trans ?_⟩
      cases baseline frames <;> rfl
    · refine ⟨next - first, ?_⟩
      rw [htaken.first _ hsequence.baseline]
      exact hsequence.in_order
  · have hmem : e ∈ taken := by
      rcases htaken.sequence with ⟨-, -, -, hout⟩ | ⟨id, first, next, hsequence⟩
      · exact hout e he
      · exact hsequence.out_taken e he
    exact (htaken.seen e hmem).2.1
  · rcases htaken.sequence with ⟨-, hnone, -⟩ | ⟨id', first', next, hsequence⟩
    · -- a number has arrived, so it was taken
      obtain ⟨e, he, honline, hp⟩ := mem_numbered.mp (List.mem_of_mem_head? hbaseline)
      have hmem := List.mem_filterMap.mpr ⟨e, htaken.all hdegraded hended e he honline, hp⟩
      rw [hnone] at hmem
      cases hmem
    · have hupto := htaken.upto hdegraded hended hsequence
      obtain ⟨rfl, rfl⟩ := Prod.mk.inj (Option.some.inj (hbaseline.symm.trans hupto.baseline))
      exact ⟨next, hupto, hsequence.in_order⟩
  · rintro before frame after rfl hopen hdegraded
    have hone' : OneStream (before ++ [frame]) := by
      have hsplit : before ++ frame :: after = (before ++ [frame]) ++ after := by simp
      rw [hsplit] at hone
      exact hone.initial
    obtain ⟨taken', htaken'⟩ := exists_taken hone'.initial
    rw [read_concat] at hdegraded
    obtain ⟨e, hframe, hcause⟩ := (htaken'.step hone').2 hopen hdegraded
    refine ⟨e, hframe, hcause.imp_right ?_⟩
    rintro ⟨id, next, stream, n, hstream, hnext, hplace, hfar⟩
    have hended : (read before).ended = false := by
      rw [← Bool.not_eq_true]
      intro hended
      unfold handleFrame at hdegraded
      rw [if_pos (.inr hended), hopen] at hdegraded
      cases hdegraded
    rcases htaken'.sequence with ⟨hstart, -⟩ | ⟨id', first, next', hsequence⟩
    · rw [hstart] at hstream
      cases hstream
    · obtain rfl := Option.some.inj (hstream.symm.trans hsequence.stream)
      obtain rfl := Option.some.inj (hnext.symm.trans hsequence.expects)
      exact ⟨id, first, next, stream, n, htaken'.upto hopen hended hsequence, hplace, hfar⟩
  · rintro before after rfl
    obtain ⟨taken', htaken'⟩ := exists_taken hone.initial
    rcases htaken'.sequence with ⟨hstart, -⟩ | ⟨id, first, next, hsequence⟩
    · rw [hstart]
      exact Nat.zero_le _
    · exact hsequence.window.length_le

end feed

/-- An event of a stream by its number. -/
def event (n : ℕ) : SseEnvelope :=
  { eventId := List.replicate n 'e'
    eventType := "run.progress".toList
    runId := []
    messageId := none
    streamId := some ['s']
    eventSeq := some n
    occurredAt := []
    payload := [] }

theorem oneStream_events (numbers : List ℕ) : OneStream (numbers.map fun n => some (event n)) := by
  have hevent : ∀ e, some e ∈ numbers.map (fun n => some (event n)) → ∃ n, e = event n := by
    intro e he
    obtain ⟨n, -, hn⟩ := List.mem_map.mp he
    exact ⟨n, (Option.some.inj hn).symm⟩
  refine ⟨fun e e' he he' hid => ?_, fun e e' p he he' hp hp' => ?_⟩
  · obtain ⟨n, rfl⟩ := hevent e he
    obtain ⟨m, rfl⟩ := hevent e' he'
    have hlength := congrArg List.length hid
    unfold event at hlength
    rw [List.length_replicate, List.length_replicate] at hlength
    rw [hlength]
  · obtain ⟨n, rfl⟩ := hevent e he
    obtain ⟨m, rfl⟩ := hevent e' he'
    have hnumber := hp.trans hp'.symm
    have hsame : some (['s'], n) = some (['s'], m) := hnumber
    rw [(Prod.mk.inj (Option.some.inj hsame)).2]

/-- The events 3, 5, 4 and 5 again, out of order. -/
def shuffled : List (Option SseEnvelope) := [3, 5, 4, 5].map fun n => some (event n)

theorem feed_delivers_in_sequence_shuffled : ∃ next, Upto shuffled ['s'] 3 next ∧
    (start.deliveries shuffled).filterMap place = consecutive ['s'] 3 (next - 3) :=
  (feed_delivers_in_sequence shuffled (oneStream_events [3, 5, 4, 5])).2.2.1 (by decide +kernel) (by decide +kernel) ['s'] 3
    (by decide +kernel)

end RunFeed

end HpAgent.Stream
