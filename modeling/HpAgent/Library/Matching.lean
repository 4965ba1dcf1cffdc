import Mathlib.Data.List.Basic
import Mathlib.Data.List.TakeWhile

/-! # Matches in a text

A matcher says how long the match is that begins at a place of a text, if one does, from the character before the place
and what follows it.  `finditer` finds the matches from left to right, none of them overlapping another; `split` takes the
text apart at them, and `find` looks for a text in another.

* `finditer_ordered`: the matches are in order, none is empty, and all are in the text.
* `find_spec`, `find_first`: `find` finds the first place. -/

namespace HpAgent.Library

variable {s : List Char} {ms : List (ℕ × ℕ)}

/-- The length of the match here, from the character before and the text that follows. -/
abbrev Matcher := Option Char → List Char → Option ℕ

/-- `s[a:b]`. -/
def slice (s : List Char) (a b : ℕ) : List Char := (s.take b).drop a

/-- How many characters there are before the first that is not in the class. -/
def run (p : Char → Bool) (s : List Char) : ℕ := (s.takeWhile p).length

/-- `s.startswith(literal)`. -/
def startsWith (literal : String) (s : List Char) : Bool := literal.toList.isPrefixOf s

/-- The matches in the text `s`, which begins at `i`; the first `skip` characters belong to the match before. -/
def finditer (m : Matcher) : Option Char → ℕ → ℕ → List Char → List (ℕ × ℕ)
  | _, _, _, [] => []
  | _, skip + 1, i, c :: s => finditer m (some c) skip (i + 1) s
  | previous, 0, i, c :: s =>
      match m previous (c :: s) with
      | some (n + 1) => (i, i + n + 1) :: finditer m (some c) n (i + 1) s
      | _ => finditer m (some c) 0 (i + 1) s

/-- All the matches. -/
def spans (m : Matcher) (s : List Char) : List (ℕ × ℕ) := finditer m none 0 0 s

/-- There is a match. -/
def searches (m : Matcher) (s : List Char) : Bool := !(spans m s).isEmpty

/-- The texts of the matches. -/
def findall (m : Matcher) (s : List Char) : List (List Char) := (spans m s).map fun p => slice s p.1 p.2

/-- What is left of `s` from `i` on when these matches are taken out. -/
def pieces (s : List Char) : ℕ → List (ℕ × ℕ) → List (List Char)
  | i, [] => [s.drop i]
  | i, p :: rest => slice s i p.1 :: pieces s p.2 rest

def split (m : Matcher) (s : List Char) : List (List Char) := pieces s 0 (spans m s)

/-- Every match replaced. -/
def sub (m : Matcher) (replacement s : List Char) : List Char := List.intercalate replacement (split m s)

/-- The first place of `word` in `s[from:stop]`, counted from the start of `s`. -/
def find (s word : List Char) (start stop : ℕ) : Option ℕ :=
  (List.range' start (stop + 1 - start)).find? fun p => p + word.length ≤ stop && slice s p (p + word.length) = word

/-! ### Slices -/

theorem length_slice {a b : ℕ} (hb : b ≤ s.length) : (slice s a b).length = b - a := by
  rw [slice, List.length_drop, List.length_take, Nat.min_eq_left hb]

/-- A slice of a slice. -/
theorem slice_slice (s : List Char) {a b c d : ℕ} (hd : a + d ≤ b) : slice (slice s a b) c d = slice s (a + c) (a + d) := by
  unfold slice
  rw [List.take_drop, List.take_take, List.drop_drop, Nat.min_eq_left hd]

theorem slice_prefix (s : List Char) (a b : ℕ) : slice s a b <+: s.drop a := by
  rw [slice, List.drop_take]
  exact List.take_prefix _ _

/-! ### Runs of a class -/

theorem run_le (p : Char → Bool) (s : List Char) : run p s ≤ s.length := (List.takeWhile_sublist p).length_le

theorem take_run {p : Char → Bool} {c : Char} (hc : c ∈ s.take (run p s)) : p c = true := by
  have htake : s.take (run p s) = s.takeWhile p := (List.prefix_iff_eq_take.mp (List.takeWhile_prefix p)).symm
  rw [htake] at hc
  exact List.mem_takeWhile_imp hc

theorem drop_run (p : Char → Bool) (s : List Char) : s.drop (run p s) = s.dropWhile p := by
  have happend := List.takeWhile_append_dropWhile (p := p) (l := s)
  have hdrop := @List.drop_left _ (s.takeWhile p) (s.dropWhile p)
  rw [happend] at hdrop
  exact hdrop

/-! ### The matches -/

/-- A match is no longer than the text. -/
def Matcher.Fits (m : Matcher) : Prop := ∀ previous s n, m previous s = some n → n ≤ s.length

/-- The matches of `s` lie in it, are not empty, and follow one another. -/
structure Follow (low high : ℕ) (ms : List (ℕ × ℕ)) : Prop where
  inside : ∀ p ∈ ms, low ≤ p.1 ∧ p.1 < p.2 ∧ p.2 ≤ high
  ordered : ms.Pairwise fun p q => p.2 ≤ q.1

theorem Follow.nil (low high : ℕ) : Follow low high [] := ⟨by simp, List.Pairwise.nil⟩

theorem Follow.cons {low high : ℕ} {p : ℕ × ℕ} {ms : List (ℕ × ℕ)} (hlow : low ≤ p.1) (hp : p.1 < p.2) (hhigh : p.2 ≤ high)
    (h : Follow p.2 high ms) : Follow low high (p :: ms) := by
  refine ⟨?_, List.pairwise_cons.mpr ⟨fun q hq => (h.inside q hq).1, h.ordered⟩⟩
  intro q hq
  cases List.mem_cons.mp hq with
  | inl heq =>
      subst heq
      exact ⟨hlow, hp, hhigh⟩
  | inr htail =>
      have hin := h.inside q htail
      omega

theorem Follow.weaken {low low' high : ℕ} (h : Follow low high ms) (hle : low' ≤ low) :
    Follow low' high ms :=
  ⟨fun p hp => ⟨Nat.le_trans hle (h.inside p hp).1, (h.inside p hp).2⟩, h.ordered⟩

theorem Follow.tail {low high : ℕ} {p : ℕ × ℕ} {ms : List (ℕ × ℕ)} (h : Follow low high (p :: ms)) : Follow p.2 high ms := by
  have hpair := List.pairwise_cons.mp h.ordered
  refine ⟨fun q hq => ?_, hpair.2⟩
  have hin := h.inside q (List.mem_cons_of_mem p hq)
  exact ⟨hpair.1 q hq, hin.2⟩

theorem finditer_ordered {m : Matcher} (hm : m.Fits) (previous : Option Char) (skip i : ℕ) (s : List Char)
    (hskip : skip ≤ s.length) : Follow (i + skip) (i + s.length) (finditer m previous skip i s) := by
  induction s generalizing previous skip i with
  | nil => exact Follow.nil _ _
  | cons c s ih =>
      have hlength : i + (c :: s).length = i + 1 + s.length := by
        simp only [List.length_cons]
        omega
      rw [hlength]
      cases skip with
      | succ skip =>
          have h := ih (some c) skip (i + 1) (by simpa using hskip)
          have hlow : i + (skip + 1) = i + 1 + skip := by omega
          rw [hlow]
          exact h
      | zero =>
          have hrest := (ih (some c) 0 (i + 1) (Nat.zero_le _)).weaken (show i ≤ i + 1 + 0 by omega)
          unfold finditer
          cases hmatch : m previous (c :: s) with
          | none => exact hrest
          | some n =>
              cases n with
              | zero => exact hrest
              | succ n =>
                  have hn := hm previous (c :: s) (n + 1) hmatch
                  simp only [List.length_cons] at hn
                  have h := ih (some c) n (i + 1) (by omega)
                  have hlow : i + 1 + n = i + n + 1 := by omega
                  rw [hlow] at h
                  exact Follow.cons (by dsimp only; omega) (by dsimp only; omega) (by dsimp only; omega) h

theorem spans_ordered {m : Matcher} (hm : m.Fits) (s : List Char) : Follow 0 s.length (spans m s) := by
  have h := finditer_ordered hm none 0 0 s (Nat.zero_le _)
  simp only [Nat.zero_add] at h
  exact h

theorem Follow.append {a b c : ℕ} {ns : List (ℕ × ℕ)} (hab : a ≤ b) (hbc : b ≤ c) (hm : Follow a b ms) (hn : Follow b c ns) :
    Follow a c (ms ++ ns) := by
  refine ⟨?_, List.pairwise_append.mpr ⟨hm.ordered, hn.ordered, ?_⟩⟩
  · intro p hp
    cases List.mem_append.mp hp with
    | inl h =>
        have hin := hm.inside p h
        omega
    | inr h =>
        have hin := hn.inside p h
        omega
  · intro p hp q hq
    have hpin := hm.inside p hp
    have hqin := hn.inside q hq
    omega

theorem finditer_match {m : Matcher} (text before s : List Char) (skip : ℕ) (htext : text = before ++ s) :
    ∀ p ∈ finditer m before.getLast? skip before.length s,
      m (text.take p.1).getLast? (text.drop p.1) = some (p.2 - p.1) := by
  induction s generalizing before skip with
  | nil => exact fun p hp => absurd hp (by simp [finditer])
  | cons c s ih =>
      have hlast : (before ++ [c]).getLast? = some c := List.getLast?_concat
      have hlength : (before ++ [c]).length = before.length + 1 := by simp
      have hrest (k : ℕ) := ih (before ++ [c]) k (by simp [htext])
      rw [hlast, hlength] at hrest
      intro p hp
      cases skip with
      | succ skip => exact hrest skip p hp
      | zero =>
          unfold finditer at hp
          split at hp
          next n hmatch =>
            cases List.mem_cons.mp hp with
            | inl heq =>
                subst heq
                rw [htext, List.take_left, List.drop_left, hmatch]
                congr 1
                dsimp only
                omega
            | inr htail => exact hrest n p htail
          next => exact hrest 0 p hp

/-- A match is where the matcher says so. -/
theorem spans_match {m : Matcher} {p : ℕ × ℕ} (hp : p ∈ spans m s) :
    m (s.take p.1).getLast? (s.drop p.1) = some (p.2 - p.1) :=
  finditer_match s [] s 0 rfl p hp

/-! ### Pieces -/

/-- The pieces of a text between matches that leave something between them. -/
theorem pieces_ne_nil {i : ℕ} (hin : Follow i s.length ms) (hi : i < s.length)
    (hfirst : ∀ p ∈ ms, i < p.1) (hnext : ms.Pairwise fun p q => p.2 < q.1) (hlast : ∀ p ∈ ms, p.2 < s.length) :
    ∀ t ∈ pieces s i ms, t ≠ [] := by
  induction ms generalizing i with
  | nil =>
      intro t ht
      rw [pieces, List.mem_singleton] at ht
      subst ht
      rw [ne_eq, List.drop_eq_nil_iff]
      omega
  | cons p ms ih =>
      have hp := hin.inside p (List.mem_cons_self)
      have hpair := List.pairwise_cons.mp hnext
      intro t ht
      rw [pieces] at ht
      cases List.mem_cons.mp ht with
      | inl heq =>
          have hlength := length_slice (s := s) (a := i) (b := p.1) (by omega)
          have := hfirst p List.mem_cons_self
          subst heq
          intro hnil
          rw [hnil, List.length_nil] at hlength
          omega
      | inr htail =>
          apply ih hin.tail (hlast p List.mem_cons_self) hpair.1 hpair.2 _ t htail
          exact fun q hq => hlast q (List.mem_cons_of_mem p hq)

/-- A piece begins where the text begins or after a match. -/
theorem pieces_prefix {t : List Char} {i : ℕ} (ht : t ∈ pieces s i ms) :
    ∃ j ∈ i :: ms.map Prod.snd, t <+: s.drop j := by
  induction ms generalizing i with
  | nil =>
      rw [pieces, List.mem_singleton] at ht
      subst ht
      exact ⟨i, List.mem_cons_self, List.prefix_rfl⟩
  | cons p ms ih =>
      rw [pieces] at ht
      cases List.mem_cons.mp ht with
      | inl heq =>
          subst heq
          exact ⟨i, List.mem_cons_self, slice_prefix s i p.1⟩
      | inr htail =>
          obtain ⟨j, hj, hprefix⟩ := ih htail
          exact ⟨j, List.mem_cons_of_mem i hj, hprefix⟩

/-! ### Finding a text -/

/-- What `find` finds is there. -/
theorem find_spec {word : List Char} {start stop p : ℕ} (h : find s word start stop = some p) :
    start ≤ p ∧ p + word.length ≤ stop ∧ slice s p (p + word.length) = word := by
  have hp := List.find?_some h
  have hmem := List.mem_of_find?_eq_some h
  simp only [Bool.and_eq_true, decide_eq_true_eq] at hp
  rw [List.mem_range'_1] at hmem
  exact ⟨hmem.1, hp.1, hp.2⟩

/-- A text that is at `p` is found, no later than there. -/
theorem find_first {s word : List Char} {start stop p : ℕ} (hstart : start ≤ p) (hstop : p + word.length ≤ stop)
    (hword : slice s p (p + word.length) = word) : ∃ q, find s word start stop = some q ∧ q ≤ p := by
  have hmem : p ∈ List.range' start (stop + 1 - start) := by
    rw [List.mem_range'_1]
    omega
  have hsome : (find s word start stop).isSome = true := by
    rw [find, List.find?_isSome]
    exact ⟨p, hmem, by simp [hstop, hword]⟩
  obtain ⟨q, hq⟩ := Option.isSome_iff_exists.mp hsome
  refine ⟨q, hq, ?_⟩
  apply Nat.le_of_not_lt
  intro hlt
  -- the place `p` comes before `q`, so it was not taken
  have hbefore := List.find?_range'_eq_some.mp hq
  have hnot := hbefore.2.2 p hstart hlt
  simp [hstop, hword] at hnot

end HpAgent.Library
