import HpAgent.Library.Clock

/-! # Daily instants

A daily requirement names a zone and a local time.  Its occurrences are one instant for each local day that shows the
time: an ambiguous time is used in its first fold, and a gap skips the day.

* `dailyOn_eq_some`, `dailyOn_eq_none`: the occurrence of a day.
* `nextDaily_isLeast`, `latestDaily_isGreatest`: what the two searches return, in a zone whose clock goes back only over
  times it has shown.
* `daily_instants`: the laws together, with the enumeration of the occurrences. -/

namespace HpAgent.Schedule

open Library

/-- `timing` of kind `daily`; `localTime` is the `HH:MM` of its `local_time`. -/
structure DailyTiming where
  zone : Zone
  localTime : ℤ
  nonneg : 0 ≤ localTime
  lt : localTime < dayLength

/-- `daily_on`: the instant of the local time on a day, unless the round trip shows another time. -/
def dailyOn (day : ℤ) (timing : DailyTiming) : Option ℤ := timing.zone.instantOf (day * dayLength + timing.localTime)

/-- `next_daily`; without a result it raises. -/
def nextDaily (timing : DailyTiming) (after : ℤ) : Option ℤ :=
  (List.range 4).findSome? fun offset : ℕ =>
    (dailyOn (timing.zone.date after + offset) timing).filter fun value => after < value

/-- `latest_daily`; without a result it raises. -/
def latestDaily (timing : DailyTiming) (now : ℤ) : Option ℤ :=
  (List.range 4).findSome? fun offset : ℕ =>
    (dailyOn (timing.zone.date now - offset) timing).filter fun value => value ≤ now

/-- The instants at which the timing is due. -/
def DailyTiming.Occurs (timing : DailyTiming) (u : ℤ) : Prop := ∃ day, dailyOn day timing = some u

/-- The clock has gone back behind the day of an occurrence that has passed. -/
def DailyTiming.SetBack (timing : DailyTiming) (now : ℤ) : Prop :=
  ∃ day u, timing.zone.date now < day ∧ dailyOn day timing = some u ∧ u ≤ now

/-- The instants that `next_daily` gives one after the other. -/
def dailies (timing : DailyTiming) (after : ℤ) : ℕ → Option ℤ
  | 0 => some after
  | n + 1 => (dailies timing after n).bind (nextDaily timing)

section laws

variable {timing : DailyTiming} {day day' after now u v : ℤ}

/-! ### The occurrence of a day -/

theorem dailyOn_eq_some : dailyOn day timing = some u ↔
    IsLeast { v | timing.zone.wall v = day * dayLength + timing.localTime } u :=
  Zone.instantOf_eq_some

theorem dailyOn_eq_none : dailyOn day timing = none ↔ ∀ v, timing.zone.wall v ≠ day * dayLength + timing.localTime :=
  Zone.instantOf_eq_none

/-- An occurrence shows its day. -/
theorem date_dailyOn (h : dailyOn day timing = some u) : timing.zone.date u = day := by
  unfold Zone.date
  rw [Zone.wall_instantOf h]
  have hnonneg := timing.nonneg
  have hlt := timing.lt
  unfold dayLength at hlt ⊢
  omega

theorem dailyOn_lt_iff (hz : timing.zone.Steady) (hu : dailyOn day timing = some u) (hv : dailyOn day' timing = some v) :
    u < v ↔ day < day' := by
  refine (hz.instantOf_lt_iff hu hv).trans ?_
  unfold dayLength
  omega

/-- Before an occurrence the clock shows its day or an earlier one. -/
theorem date_le_of_lt (hz : timing.zone.Steady) (hv : dailyOn day timing = some v) (huv : u < v) :
    timing.zone.date u ≤ day := by
  have hwall := hz.wall_lt hv huv
  have hnonneg := timing.nonneg
  have hlt := timing.lt
  unfold Zone.date
  unfold dayLength at hlt hwall ⊢
  omega

/-! ### The searches -/

/-- A search over numbers finds the first one with a value. -/
theorem findSome_range {α : Type} {f : ℕ → Option α} {n : ℕ} {b : α} (h : (List.range n).findSome? f = some b) :
    ∃ k < n, f k = some b ∧ ∀ j < k, f j = none := by
  induction n with
  | zero => cases h
  | succ n ih =>
      rw [List.range_succ, List.findSome?_append] at h
      cases hbefore : (List.range n).findSome? f with
      | some a =>
          rw [hbefore] at h
          obtain rfl := Option.some.inj h
          obtain ⟨k, hk, hvalue, hnone⟩ := ih hbefore
          exact ⟨k, by omega, hvalue, hnone⟩
      | none =>
          rw [hbefore] at h
          have hvalue : f n = some b := by simpa using h
          refine ⟨n, by omega, hvalue, fun j hj => ?_⟩
          exact List.findSome?_eq_none_iff.mp hbefore j (List.mem_range.mpr hj)

/-- The next occurrence is that of one of four days, and those before it have none after the instant. -/
theorem nextDaily_some (h : nextDaily timing after = some v) : ∃ k : ℕ, k < 4 ∧
    dailyOn (timing.zone.date after + k) timing = some v ∧ after < v ∧
    ∀ j < k, ∀ u, dailyOn (timing.zone.date after + j) timing = some u → u ≤ after := by
  obtain ⟨k, hk, hvalue, hnone⟩ := findSome_range h
  obtain ⟨hday, hlt⟩ := Option.filter_eq_some_iff.mp hvalue
  refine ⟨k, hk, hday, of_decide_eq_true hlt, fun j hj u hu => ?_⟩
  have hrefused := Option.filter_eq_none_iff.mp (hnone j hj) u hu
  simpa using hrefused

/-- The search raises only when none of the four days has an occurrence after the instant. -/
theorem nextDaily_none : nextDaily timing after = none ↔
    ∀ k : ℕ, k < 4 → ∀ u, dailyOn (timing.zone.date after + k) timing = some u → u ≤ after := by
  unfold nextDaily
  rw [List.findSome?_eq_none_iff]
  constructor
  · intro h k hk u hu
    have hrefused := Option.filter_eq_none_iff.mp (h k (List.mem_range.mpr hk)) u hu
    simpa using hrefused
  · intro h k hk
    refine Option.filter_eq_none_iff.mpr fun u hu => ?_
    have hle := h k (List.mem_range.mp hk) u hu
    simpa using hle

/-- The latest occurrence is that of one of four days, and those after it have none up to the instant. -/
theorem latestDaily_some (h : latestDaily timing now = some v) : ∃ k : ℕ, k < 4 ∧
    dailyOn (timing.zone.date now - k) timing = some v ∧ v ≤ now ∧
    ∀ j < k, ∀ u, dailyOn (timing.zone.date now - j) timing = some u → now < u := by
  obtain ⟨k, hk, hvalue, hnone⟩ := findSome_range h
  obtain ⟨hday, hle⟩ := Option.filter_eq_some_iff.mp hvalue
  refine ⟨k, hk, hday, of_decide_eq_true hle, fun j hj u hu => ?_⟩
  have hrefused := Option.filter_eq_none_iff.mp (hnone j hj) u hu
  simpa using hrefused

theorem latestDaily_none : latestDaily timing now = none ↔
    ∀ k : ℕ, k < 4 → ∀ u, dailyOn (timing.zone.date now - k) timing = some u → now < u := by
  unfold latestDaily
  rw [List.findSome?_eq_none_iff]
  constructor
  · intro h k hk u hu
    have hrefused := Option.filter_eq_none_iff.mp (h k (List.mem_range.mpr hk)) u hu
    simpa using hrefused
  · intro h k hk
    refine Option.filter_eq_none_iff.mpr fun u hu => ?_
    have hlt := h k (List.mem_range.mp hk) u hu
    simpa using hlt

/-- **The next occurrence** is the least after the instant. -/
theorem nextDaily_isLeast (hz : timing.zone.Steady) (h : nextDaily timing after = some v) :
    IsLeast { u | after < u ∧ timing.Occurs u } v := by
  obtain ⟨k, _, hday, hlt, hbefore⟩ := nextDaily_some h
  refine ⟨⟨hlt, _, hday⟩, fun u hu => ?_⟩
  obtain ⟨hafter, day, hu⟩ := hu
  have hdate := date_le_of_lt hz hu hafter
  -- an occurrence of an earlier day would be one of the days before
  by_contra hgt
  have hlater := (dailyOn_lt_iff hz hu hday).mp (not_le.mp hgt)
  obtain ⟨j, hj⟩ := Int.eq_ofNat_of_zero_le (show 0 ≤ day - timing.zone.date after by omega)
  obtain rfl : day = timing.zone.date after + j := by omega
  have hle := hbefore j (by omega) u hu
  omega

/-- **The latest occurrence** is the greatest up to the instant, unless the clock has gone back behind its day. -/
theorem latestDaily_isGreatest (hz : timing.zone.Steady) (hback : ¬ timing.SetBack now)
    (h : latestDaily timing now = some v) : IsGreatest { u | u ≤ now ∧ timing.Occurs u } v := by
  obtain ⟨k, _, hday, hle, hafter⟩ := latestDaily_some h
  refine ⟨⟨hle, _, hday⟩, fun u hu => ?_⟩
  obtain ⟨hpast, day, hu⟩ := hu
  have hdate : day ≤ timing.zone.date now := by
    by_contra hlater
    exact hback ⟨day, u, not_le.mp hlater, hu, hpast⟩
  by_contra hgt
  have hlater := (dailyOn_lt_iff hz hday hu).mp (not_le.mp hgt)
  obtain ⟨j, hj⟩ := Int.eq_ofNat_of_zero_le (show 0 ≤ timing.zone.date now - day by omega)
  obtain rfl : day = timing.zone.date now - j := by omega
  have hlt := hafter j (by omega) u hu
  omega

/-- At an occurrence the latest one is itself. -/
theorem latestDaily_self (h : timing.Occurs u) : latestDaily timing u = some u := by
  obtain ⟨day, hday⟩ := h
  have hdate := date_dailyOn hday
  subst hdate
  unfold latestDaily
  have hrange : List.range 4 = 0 :: [1, 2, 3] := rfl
  have hzero : timing.zone.date u - ((0 : ℕ) : ℤ) = timing.zone.date u := Int.sub_zero _
  rw [hrange, List.findSome?_cons, hzero, hday, Option.filter_some, if_pos (by simp)]

/-- What either search returns is an occurrence. -/
theorem occurs_of_nextDaily (h : nextDaily timing after = some v) : timing.Occurs v := by
  obtain ⟨k, _, hday, _⟩ := nextDaily_some h
  exact ⟨_, hday⟩

theorem occurs_of_latestDaily (h : latestDaily timing now = some v) : timing.Occurs v := by
  obtain ⟨k, _, hday, _⟩ := latestDaily_some h
  exact ⟨_, hday⟩

/-! ### One occurrence after the other -/

theorem dailies_succ (n : ℕ) : dailies timing after (n + 1) = some v ↔
    ∃ u, dailies timing after n = some u ∧ nextDaily timing u = some v :=
  Option.bind_eq_some_iff

/-- Each is after all before it. -/
theorem dailies_lt {m n : ℕ} (hmn : m < n) (hu : dailies timing after m = some u) (hv : dailies timing after n = some v) :
    u < v := by
  induction n generalizing v with
  | zero => cases hmn
  | succ n ih =>
      obtain ⟨w, hw, hnext⟩ := (dailies_succ n).mp hv
      obtain ⟨k, _, _, hlt, _⟩ := nextDaily_some hnext
      rcases Nat.lt_succ_iff_lt_or_eq.mp hmn with hmn | rfl
      · exact (ih hmn hw).trans hlt
      · obtain rfl := Option.some.inj (hu.symm.trans hw)
        exact hlt

/-- No occurrence is left out: it comes after finitely many, unless the search raises before. -/
theorem dailies_reaches (hz : timing.zone.Steady) (hreturns : ∀ n b, dailies timing after n = some b → nextDaily timing b ≠ none)
    (hv : timing.Occurs v) (hafter : after < v) : ∃ n, dailies timing after (n + 1) = some v := by
  -- by induction on how far the occurrence is from an instant that was given
  have hmain : ∀ (d : ℕ) n b, dailies timing after n = some b → b < v → v - b ≤ d →
      ∃ n, dailies timing after (n + 1) = some v := by
    intro d
    induction d with
    | zero =>
        intro n b _ hlt hle
        omega
    | succ d ih =>
        intro n b hb hlt hle
        obtain ⟨w, hw⟩ := Option.ne_none_iff_exists'.mp (hreturns n b hb)
        have hleast := nextDaily_isLeast hz hw
        have hwv : w ≤ v := hleast.2 ⟨hlt, hv⟩
        have hbw : b < w := hleast.1.1
        have hsucc := (dailies_succ n).mpr ⟨b, hb, hw⟩
        rcases eq_or_lt_of_le hwv with rfl | hwv
        · exact ⟨n, hsucc⟩
        · exact ih (n + 1) w hsucc hwv (by omega)
  exact hmain (v - after).toNat 0 after rfl hafter (by omega)

/-- **Daily instants.**  The occurrences are, for each local day that shows the time, the first instant that does; a day
whose gap skips the time has none.  `next_daily` raises only when the local day and the three after it have no occurrence
after the instant, and `latest_daily` only when the local day and the three before it have none up to it; the latest
occurrence of the next one is itself, and repeated `next_daily` goes forward.

In a zone whose clock goes back only over times it has shown, later days have later occurrences, and:

* `next_daily` returns the least occurrence after the instant;
* `latest_daily` returns the greatest occurrence up to the instant, when the clock has not gone back behind the day of one
  that has passed, and no occurrence is between the latest and the next;
* as long as it does not raise, repeated `next_daily` gives every occurrence after the instant exactly once, in order. -/
theorem daily_instants (timing : DailyTiming) :
    (∀ day u, dailyOn day timing = some u ↔
      IsLeast { v | timing.zone.wall v = day * dayLength + timing.localTime } u) ∧
    (∀ day, dailyOn day timing = none ↔ ∀ v, timing.zone.wall v ≠ day * dayLength + timing.localTime) ∧
    (∀ after, nextDaily timing after = none ↔
      ∀ k : ℕ, k < 4 → ∀ u, dailyOn (timing.zone.date after + k) timing = some u → u ≤ after) ∧
    (∀ now, latestDaily timing now = none ↔
      ∀ k : ℕ, k < 4 → ∀ u, dailyOn (timing.zone.date now - k) timing = some u → now < u) ∧
    (∀ after v, nextDaily timing after = some v → latestDaily timing v = some v) ∧
    (∀ after m n u v, m < n → dailies timing after m = some u → dailies timing after n = some v → u < v) ∧
    (timing.zone.Steady →
      (∀ day day' u v, dailyOn day timing = some u → dailyOn day' timing = some v → (u < v ↔ day < day')) ∧
      (∀ after v, nextDaily timing after = some v → IsLeast { u | after < u ∧ timing.Occurs u } v) ∧
      (∀ now v, ¬ timing.SetBack now → latestDaily timing now = some v →
        IsGreatest { u | u ≤ now ∧ timing.Occurs u } v) ∧
      (∀ now u v w, ¬ timing.SetBack now → latestDaily timing now = some u → nextDaily timing now = some v →
        timing.Occurs w → ¬ (u < w ∧ w < v)) ∧
      ∀ after, (∀ n b, dailies timing after n = some b → nextDaily timing b ≠ none) →
        ∀ v, (timing.Occurs v ∧ after < v) ↔ ∃ n, dailies timing after (n + 1) = some v) := by
  refine ⟨fun _ _ => dailyOn_eq_some, fun _ => dailyOn_eq_none, fun _ => nextDaily_none, fun _ => latestDaily_none,
    fun _ _ h => latestDaily_self (occurs_of_nextDaily h), fun _ _ _ _ _ => dailies_lt, fun hz =>
    ⟨fun _ _ _ _ => dailyOn_lt_iff hz, fun _ _ => nextDaily_isLeast hz, fun _ _ => latestDaily_isGreatest hz, ?_,
    fun after hreturns v => ⟨?_, ?_⟩⟩⟩
  · rintro now u v w hback hlatest hnext hw ⟨huw, hwv⟩
    rcases le_or_gt w now with hle | hgt
    · have hgreatest := (latestDaily_isGreatest hz hback hlatest).2 ⟨hle, hw⟩
      omega
    · have hleast := (nextDaily_isLeast hz hnext).2 ⟨hgt, hw⟩
      omega
  · rintro ⟨hv, hlt⟩
    exact dailies_reaches hz hreturns hv hlt
  · rintro ⟨n, hn⟩
    obtain ⟨u, _, hnext⟩ := (dailies_succ n).mp hn
    exact ⟨occurs_of_nextDaily hnext, dailies_lt (Nat.succ_pos n) rfl hn⟩

end laws

/-! ### Given zones -/

section given

/-- Microseconds of hours and minutes. -/
def hoursMinutes (h m : ℤ) : ℤ := (h * 60 + m) * 60000000

/-- The microseconds of a day of the epoch and a time. -/
def instant (day h m : ℤ) : ℤ := day * dayLength + hoursMinutes h m

/-- New York around 10 March 2024, when 02:00 to 03:00 is skipped, at half past two. -/
def newYork : DailyTiming where
  zone := .shift (instant 19792 7 0) (hoursMinutes (-5) 0) (hoursMinutes (-4) 0) (by decide) (by decide)
  localTime := hoursMinutes 2 30
  nonneg := by decide
  lt := by decide

/-- After the occurrence of 9 March comes that of 11 March. -/
theorem daily_instants_skipped : IsLeast { u | instant 19791 7 30 < u ∧ newYork.Occurs u } (instant 19793 6 30) := by
  obtain ⟨-, -, -, -, -, -, hsteady⟩ := daily_instants newYork
  exact (hsteady (Zone.shift_steady _ _ _ (by decide) (by decide))).2.1 _ _ (by decide)

/-- Saint John's around 7 November 2010, when the clock goes from 00:01 back to 23:01 of the day before, at midnight. -/
def saintJohns : DailyTiming where
  zone := .shift (instant 14920 2 31) (hoursMinutes (-2) (-30)) (hoursMinutes (-3) (-30)) (by decide) (by decide)
  localTime := 0
  nonneg := by decide
  lt := by decide

/-- A zone that skips 23:00 to 24:00 and ten minutes later goes back over it. -/
def erratic : Zone where
  offset u := if u < instant 0 23 0 then 0 else if u < instant 0 23 10 then hoursMinutes 1 0 else 0
  resolve x := if x < instant 1 0 0 then x else if x < instant 1 0 10 then x - hoursMinutes 1 0 else x
  bounded u := by
    split
    · decide
    · split
      · decide
      · decide
  first u := by
    unfold instant hoursMinutes dayLength
    by_cases hbefore : u < 0 * 86400000000 + (23 * 60 + 0) * 60000000
    · rw [if_pos hbefore, if_pos (by omega)]
      exact ⟨by omega, by rw [if_pos (by omega)]; omega⟩
    · rw [if_neg hbefore]
      by_cases hforward : u < 0 * 86400000000 + (23 * 60 + 10) * 60000000
      · rw [if_pos hforward, if_neg (by omega), if_pos (by omega)]
        exact ⟨by omega, by rw [if_neg (by omega), if_pos (by omega)]; omega⟩
      · rw [if_neg hforward]
        by_cases hskipped : u + 0 < 1 * 86400000000 + (0 * 60 + 0) * 60000000
        · rw [if_pos hskipped]
          exact ⟨by omega, by rw [if_neg (by omega), if_neg (by omega)]; omega⟩
        · rw [if_neg hskipped]
          by_cases hagain : u + 0 < 1 * 86400000000 + (0 * 60 + 10) * 60000000
          · rw [if_pos hagain]
            exact ⟨by omega, by rw [if_neg (by omega), if_pos (by omega)]; omega⟩
          · rw [if_neg hagain]
            exact ⟨by omega, by rw [if_neg (by omega), if_neg (by omega)]; omega⟩

/-- The zone at half past eleven in the evening. -/
def erraticEvening : DailyTiming where
  zone := erratic
  localTime := hoursMinutes 23 30
  nonneg := by decide
  lt := by decide

/-- **Not every day, and not in every zone.**  A day that skips the local time has no occurrence; where the clock goes
back over times it has skipped, `next_daily` passes over the least occurrence; and while the clock is behind the day of an
occurrence that has passed, `latest_daily` does not return it. -/
theorem daily_instants_exceptions :
    ((∃ u, newYork.zone.date u = 19792) ∧ dailyOn 19792 newYork = none) ∧
    (∃ after u v, after < u ∧ erraticEvening.Occurs u ∧ nextDaily erraticEvening after = some v ∧ u < v) ∧
    ∃ now u v, saintJohns.Occurs u ∧ u ≤ now ∧ latestDaily saintJohns now = some v ∧ v < u := by
  refine ⟨⟨⟨instant 19792 12 0, by decide⟩, by decide⟩, ?_, ?_⟩
  · exact ⟨instant 0 23 5, instant 0 23 30, instant 1 23 30, by decide, ⟨0, by decide⟩, by decide, by decide⟩
  · exact ⟨instant 14920 2 40, instant 14920 2 30, instant 14919 2 30, ⟨14920, by decide⟩, by decide, by decide, by decide⟩

end given

end HpAgent.Schedule
