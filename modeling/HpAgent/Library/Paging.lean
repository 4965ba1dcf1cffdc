import Mathlib.Data.List.Basic
import Mathlib.Data.List.Nodup
import Mathlib.Order.Lattice

/-! # Paging by a cursor

A listing is cut into pages: a page takes the first rows whose key is over the cursor, and the cursor of the next page is
the last key of this one.  The rows come in the order of the listing, which need not be that of the keys.

* `page`, `readPages`: one page, and all of them.
* `readPages_isSome`: every page moves the cursor on, so the pages end.
* `Aligned`: every page boundary separates the keys before it from those after it.
* `exhaustive_iff`: the pages enumerate the listing exactly if it is aligned.
* `aligned_iff_of_ordered`: what alignment means for a listing in an order of its own. -/

namespace HpAgent.Library

variable {α κ : Type} [LinearOrder κ] (key : α → κ) (size : ℕ)

/-- The rows whose key is over the cursor. -/
def remaining (cursor : κ) (l : List α) : List α := l.filter fun a => cursor < key a

/-- The rows of a page, and the cursor of the next one. -/
def page (cursor : κ) (l : List α) : List α × Option κ :=
  ((remaining key cursor l).take size,
    if size < (remaining key cursor l).length then ((remaining key cursor l).take size).getLast?.map key else none)

/-- The pages from a cursor on; the first argument bounds how many. -/
def readPages (l : List α) : ℕ → κ → Option (List α)
  | 0, _ => none
  | n + 1, cursor =>
      match (page key size cursor l).2 with
      | none => some (page key size cursor l).1
      | some next => (readPages l n next).map ((page key size cursor l).1 ++ ·)

/-- The pages end, and enumerate every row once. -/
def Exhaustive (cursor : κ) (l : List α) : Prop := ∃ n rows, readPages key size l n cursor = some rows ∧ rows.Perm l

/-- Every key is over the cursor, and the last key of a page is the greatest so far, and less than those to come. -/
structure Aligned (cursor : κ) (l : List α) : Prop where
  first : ∀ a ∈ l, cursor < key a
  boundary : ∀ before b after, l = before ++ b :: after → size ∣ before.length + 1 → after ≠ [] →
    (∀ a ∈ before, key a ≤ key b) ∧ ∀ a ∈ after, key b < key a

variable {key size} {cursor next : κ} {l rows : List α}

/-! ### Pages -/

theorem mem_remaining {a : α} : a ∈ remaining key cursor l ↔ a ∈ l ∧ cursor < key a := by
  unfold remaining
  rw [List.mem_filter, decide_eq_true_eq]

theorem remaining_remaining (h : cursor ≤ next) : remaining key next (remaining key cursor l) = remaining key next l := by
  unfold remaining
  rw [List.filter_filter]
  refine List.filter_congr fun a _ => ?_
  rw [← Bool.decide_and, decide_eq_decide]
  exact ⟨fun ha => ha.1, fun ha => ⟨ha, lt_of_le_of_lt h ha⟩⟩

theorem remaining_eq_self (h : ∀ a ∈ l, cursor < key a) : remaining key cursor l = l :=
  List.filter_eq_self.mpr fun a ha => decide_eq_true (h a ha)

/-- The cursor of the next page is the key of a row over the old one, and a row comes after it. -/
theorem page_next (h : (page key size cursor l).2 = some next) :
    ∃ b, ((remaining key cursor l).take size).getLast? = some b ∧ key b = next ∧ size < (remaining key cursor l).length := by
  unfold page at h
  split at h
  next hlong =>
    obtain ⟨b, hb, hkey⟩ := Option.map_eq_some_iff.mp h
    exact ⟨b, hb, hkey, hlong⟩
  next => cases h

theorem page_advances (h : (page key size cursor l).2 = some next) :
    cursor < next ∧ (remaining key next l).length < (remaining key cursor l).length := by
  obtain ⟨b, hb, rfl, -⟩ := page_next h
  have hmem : b ∈ remaining key cursor l := List.take_subset _ _ (List.mem_of_getLast? hb)
  have hover : cursor < key b := (mem_remaining.mp hmem).2
  refine ⟨hover, ?_⟩
  rw [← remaining_remaining (le_of_lt hover)]
  -- the last row of the page is over the old cursor and not over the new one
  refine Nat.lt_of_le_of_ne (List.length_filter_le _ _) fun heq => ?_
  have hall := List.length_filter_eq_length_iff.mp heq b hmem
  exact lt_irrefl _ (of_decide_eq_true hall)

/-- **The pages end.** -/
theorem readPages_isSome {n : ℕ} (h : (remaining key cursor l).length < n) : (readPages key size l n cursor).isSome = true := by
  induction n generalizing cursor with
  | zero => exact absurd h (Nat.not_lt_zero _)
  | succ n ih =>
      unfold readPages
      split
      · rfl
      next next hnext =>
        rw [Option.isSome_map]
        have hless := (page_advances hnext).2
        exact ih (by omega)

/-- Pages read only the rows over the cursor. -/
theorem readPages_remaining (n : ℕ) : readPages key size (remaining key cursor l) n cursor = readPages key size l n cursor := by
  have hpage : ∀ c, cursor ≤ c → page key size c (remaining key cursor l) = page key size c l := by
    intro c hc
    unfold page
    rw [remaining_remaining hc]
  have hall : ∀ n c, cursor ≤ c → readPages key size (remaining key cursor l) n c = readPages key size l n c := by
    intro n
    induction n with
    | zero => exact fun _ _ => rfl
    | succ n ih =>
        intro c hc
        unfold readPages
        rw [hpage c hc]
        split
        · rfl
        next next hnext => rw [ih next (le_trans hc (le_of_lt (page_advances hnext).1))]
  exact hall n cursor le_rfl

theorem mem_of_readPages {n : ℕ} (h : readPages key size l n cursor = some rows) {a : α} (ha : a ∈ rows) :
    a ∈ remaining key cursor l := by
  induction n generalizing cursor rows with
  | zero => cases h
  | succ n ih =>
      unfold readPages at h
      split at h
      · obtain rfl := Option.some.inj h
        exact List.take_subset _ _ ha
      next next hnext =>
        obtain ⟨later, hlater, rfl⟩ := Option.map_eq_some_iff.mp h
        rcases List.mem_append.mp ha with hpage | hafter
        · exact List.take_subset _ _ hpage
        · have hmem := mem_remaining.mp (ih hlater hafter)
          exact mem_remaining.mpr ⟨hmem.1, lt_trans (page_advances hnext).1 hmem.2⟩

/-! ### Boundaries -/

/-- The boundary of a page that does not end the listing. -/
theorem page_eq (hfirst : ∀ a ∈ l, cursor < key a) (hsize : 0 < size) (hlong : size < l.length) :
    ∃ before b, l.take size = before ++ [b] ∧ before.length + 1 = size ∧ page key size cursor l = (l.take size, some (key b)) := by
  have hlength : (l.take size).length = size := List.length_take_of_le (Nat.le_of_lt hlong)
  rcases List.eq_nil_or_concat (l.take size) with hnil | ⟨before, b, heq⟩
  · rw [hnil] at hlength
    exact absurd hlength (Nat.ne_of_lt hsize)
  · rw [List.concat_eq_append] at heq
    refine ⟨before, b, heq, ?_, ?_⟩
    · rw [← hlength, heq, List.length_append]
      rfl
    · unfold page
      rw [remaining_eq_self hfirst, if_pos hlong, heq, List.getLast?_concat]
      rfl

theorem readPages_last {n : ℕ} (hfirst : ∀ a ∈ l, cursor < key a) (hshort : l.length ≤ size) :
    readPages key size l (n + 1) cursor = some l := by
  have hpage : page key size cursor l = (l, none) := by
    unfold page
    rw [remaining_eq_self hfirst, if_neg (Nat.not_lt.mpr hshort), List.take_of_length_le hshort]
  unfold readPages
  rw [hpage]

/-- When the boundary separates the keys, the later pages are those of the later rows. -/
theorem remaining_boundary {before after : List α} {b : α} (hle : ∀ a ∈ before, key a ≤ key b) (hlt : ∀ a ∈ after, key b < key a) :
    remaining key (key b) ((before ++ [b]) ++ after) = after := by
  have hbefore : remaining key (key b) (before ++ [b]) = [] := by
    refine List.filter_eq_nil_iff.mpr fun a ha => ?_
    rw [decide_eq_true_eq, not_lt]
    rcases List.mem_append.mp ha with hmem | hmem
    · exact hle a hmem
    · rw [List.mem_singleton.mp hmem]
  have hsplit : remaining key (key b) ((before ++ [b]) ++ after) =
      remaining key (key b) (before ++ [b]) ++ remaining key (key b) after := List.filter_append _ _
  rw [hsplit, hbefore, remaining_eq_self hlt, List.nil_append]

theorem Aligned.tail {before after : List α} {b : α} (h : Aligned key size cursor (before ++ b :: after))
    (hlength : before.length + 1 = size) (hafter : after ≠ []) :
    Aligned key size (key b) after := by
  refine ⟨(h.boundary before b after rfl (hlength ▸ Nat.dvd_refl _) hafter).2, fun mid c rest heq hdvd hrest => ?_⟩
  obtain ⟨hle, hlt⟩ := h.boundary (before ++ b :: mid) c rest (by rw [heq, List.append_assoc]; rfl) (by
    rw [List.length_append, List.length_cons, show before.length + (mid.length + 1) + 1 = size + (mid.length + 1) by omega]
    exact (Nat.dvd_add_right (Nat.dvd_refl size)).mpr hdvd) hrest
  exact ⟨fun a ha => hle a (List.mem_append_right _ (List.mem_cons_of_mem _ ha)), hlt⟩

/-- The listing up to the end of its first page, and the rest. -/
theorem split_page {before : List α} {b : α} (htake : l.take size = before ++ [b]) : l = (before ++ [b]) ++ l.drop size := by
  rw [← htake, List.take_append_drop]

theorem Aligned.readPages_eq {n : ℕ} (h : Aligned key size cursor l) (hsize : 0 < size) (hn : l.length < n) :
    readPages key size l n cursor = some l := by
  induction n generalizing cursor l with
  | zero => exact absurd hn (Nat.not_lt_zero _)
  | succ n ih =>
      rcases Nat.lt_or_ge size l.length with hlong | hshort
      · obtain ⟨before, b, htake, hlength, hpage⟩ := page_eq h.first hsize hlong
        have hl := split_page htake
        have hdrop : (l.drop size).length = l.length - size := List.length_drop
        have hafter : l.drop size ≠ [] := by
          intro hnil
          rw [hnil] at hdrop
          simp only [List.length_nil] at hdrop
          omega
        have hcons : l = before ++ b :: l.drop size := hl.trans (List.append_assoc _ _ _)
        obtain ⟨hle, hlt⟩ := h.boundary before b _ hcons (hlength ▸ Nat.dvd_refl _) hafter
        have htail : Aligned key size (key b) (l.drop size) := by
          rw [hcons] at h
          exact h.tail hlength hafter
        have hrest : readPages key size l n (key b) = some (l.drop size) := by
          have hboundary : remaining key (key b) l = l.drop size := by
            have hremaining := remaining_boundary hle hlt
            rwa [← hl] at hremaining
          rw [← readPages_remaining, hboundary]
          exact ih htail (by omega)
        unfold readPages
        rw [hpage]
        show (readPages key size l n (key b)).map (l.take size ++ ·) = some l
        rw [hrest, Option.map_some, List.take_append_drop]
      · exact readPages_last h.first hshort

/-- A page whose boundary separates the keys, before an aligned rest. -/
theorem aligned_append {before after : List α} {b : α} (hlength : before.length + 1 = size)
    (hle : ∀ a ∈ before ++ [b], key a ≤ key b) (hlt : ∀ a ∈ after, key b < key a) (htail : Aligned key size (key b) after)
    (hfirst : ∀ a ∈ (before ++ [b]) ++ after, cursor < key a) : Aligned key size cursor ((before ++ [b]) ++ after) := by
  refine ⟨hfirst, fun mid c rest heq hdvd hne => ?_⟩
  have hsize : size ≤ mid.length + 1 := Nat.le_of_dvd (Nat.succ_pos _) hdvd
  have hbehind : ∀ more, mid = (before ++ [b]) ++ more → after = more ++ c :: rest →
      (∀ a ∈ mid, key a ≤ key c) ∧ ∀ a ∈ rest, key c < key a := by
    rintro more rfl hafter
    rw [List.length_append, List.length_append, List.length_singleton, hlength, Nat.add_assoc] at hdvd
    obtain ⟨hbefore, hrest⟩ := htail.boundary more c rest hafter ((Nat.dvd_add_right (Nat.dvd_refl size)).mp hdvd) hne
    have hc : c ∈ after := by
      rw [hafter]
      exact List.mem_append_right _ List.mem_cons_self
    refine ⟨fun a ha => ?_, hrest⟩
    rcases List.mem_append.mp ha with hmem | hmem
    · exact le_trans (hle a hmem) (le_of_lt (hlt c hc))
    · exact hbefore a hmem
  rcases List.append_eq_append_iff.mp heq with ⟨more, hmid, hafter⟩ | ⟨more, hpage, hrest⟩
  · exact hbehind more hmid hafter
  · cases more with
    | nil => exact hbehind [] (by rw [List.append_nil, hpage, List.append_nil]) hrest.symm
    | cons d more =>
        -- it is the boundary of this page
        have hpages := congrArg List.length hpage
        simp only [List.length_append, List.length_nil, List.length_cons] at hpages
        have hnil : more = [] := List.length_eq_zero_iff.mp (by omega)
        subst hnil
        obtain ⟨rfl, rfl⟩ := List.cons.inj hrest
        obtain ⟨rfl, hb⟩ := List.append_inj' hpage rfl
        obtain ⟨rfl, -⟩ := List.cons.inj hb
        exact ⟨fun a ha => hle a (List.mem_append_left _ ha), hlt⟩

/-- A traversal starts with the first row over its cursor. -/
theorem head_mem_readPages {n : ℕ} {a : α} {rest : List α} (hsize : 0 < size) (h : readPages key size l n cursor = some rows)
    (hrest : remaining key cursor l = a :: rest) : a ∈ rows := by
  obtain ⟨k, rfl⟩ := Nat.exists_eq_succ_of_ne_zero (Nat.ne_of_gt hsize)
  have hpage : a ∈ (page key (k + 1) cursor l).1 := by
    unfold page
    rw [hrest]
    exact List.mem_cons_self
  cases n with
  | zero => cases h
  | succ n =>
      unfold readPages at h
      split at h
      · obtain rfl := Option.some.inj h
        exact hpage
      next next hnext =>
        obtain ⟨later, -, rfl⟩ := Option.map_eq_some_iff.mp h
        exact List.mem_append_left _ hpage

/-- An enumeration of the rows shows that they are aligned. -/
theorem aligned_of_readPages {n : ℕ} (hsize : 0 < size) (hnodup : l.Nodup) (h : readPages key size l n cursor = some rows)
    (hperm : rows.Perm l) : Aligned key size cursor l := by
  induction n generalizing cursor l rows with
  | zero => cases h
  | succ n ih =>
      have hfirst : ∀ a ∈ l, cursor < key a := fun a ha =>
        (mem_remaining.mp (mem_of_readPages h (hperm.mem_iff.mpr ha))).2
      rcases Nat.lt_or_ge size l.length with hlong | hshort
      · obtain ⟨before, b, htake, hlength, hpage⟩ := page_eq hfirst hsize hlong
        unfold readPages at h
        rw [hpage] at h
        obtain ⟨later, hlater, rfl⟩ := Option.map_eq_some_iff.mp h
        have hl := split_page htake
        have hafter : later.Perm (l.drop size) := by
          rw [← List.perm_append_left_iff (l.take size)]
          exact hperm.trans (List.Perm.of_eq (List.take_append_drop size l).symm)
        have hlt : ∀ a ∈ l.drop size, key b < key a := fun a ha =>
          (mem_remaining.mp (mem_of_readPages hlater (hafter.mem_iff.mpr ha))).2
        have hle : ∀ a ∈ before ++ [b], key a ≤ key b := by
          -- a row of this page over its own cursor would be read again, and first
          have hsplit : remaining key (key b) l = remaining key (key b) (before ++ [b]) ++ l.drop size := by
            have happend : remaining key (key b) ((before ++ [b]) ++ l.drop size) =
                remaining key (key b) (before ++ [b]) ++ remaining key (key b) (l.drop size) := List.filter_append _ _
            rwa [← hl, remaining_eq_self hlt] at happend
          intro a ha
          by_contra hnot
          have hmem : a ∈ remaining key (key b) (before ++ [b]) := mem_remaining.mpr ⟨ha, not_le.mp hnot⟩
          obtain ⟨c, rest, hcons⟩ := List.exists_cons_of_ne_nil (List.ne_nil_of_mem hmem)
          have hc : c ∈ before ++ [b] := (mem_remaining.mp (hcons ▸ List.mem_cons_self)).1
          have hagain : c ∈ l.drop size := by
            have hnext : remaining key (key b) l = c :: (rest ++ l.drop size) := by
              rw [hsplit, hcons, List.cons_append]
            exact hafter.mem_iff.mp (head_mem_readPages hsize hlater hnext)
          rw [hl] at hnodup
          exact (List.nodup_append.mp hnodup).2.2 c hc c hagain rfl
        have htail : Aligned key size (key b) (l.drop size) := by
          have hremaining := remaining_boundary (fun a ha => hle a (List.mem_append_left _ ha)) hlt
          rw [← hl] at hremaining
          rw [← readPages_remaining, hremaining] at hlater
          exact ih (hnodup.sublist (List.drop_sublist _ _)) hlater hafter
        rw [hl]
        refine aligned_append hlength hle hlt htail ?_
        rwa [← hl]
      · refine ⟨hfirst, fun before b after heq hdvd hne => ?_⟩
        have hle := Nat.le_of_dvd (Nat.succ_pos _) hdvd
        have hpos := List.length_pos_of_ne_nil hne
        rw [heq, List.length_append, List.length_cons] at hshort
        omega

/-- **The pages enumerate a listing exactly if it is aligned.** -/
theorem exhaustive_iff (hsize : 0 < size) (hnodup : l.Nodup) : Exhaustive key size cursor l ↔ Aligned key size cursor l := by
  constructor
  · rintro ⟨n, rows, h, hperm⟩
    exact aligned_of_readPages hsize hnodup h hperm
  · intro h
    exact ⟨l.length + 1, l, h.readPages_eq hsize (Nat.lt_succ_self _), List.Perm.refl l⟩

/-! ### Listings in an order of their own -/

/-- A row with what comes before it, in a listing that is strictly ordered by `le`. -/
theorem countP_eq_of_ordered {le : α → α → Bool} (hrefl : ∀ a, le a a = true) {before after : List α} {b : α}
    (hsorted : (before ++ b :: after).Pairwise fun a c => le a c = true ∧ le c a = false) :
    (before ++ b :: after).countP (le · b) = before.length + 1 := by
  rw [List.pairwise_append, List.pairwise_cons] at hsorted
  have hbefore : before.countP (le · b) = before.length :=
    List.countP_eq_length.mpr fun a ha => (hsorted.2.2 a ha b List.mem_cons_self).1
  have hafter : after.countP (le · b) = 0 := by
    refine List.countP_eq_zero.mpr fun a ha => ?_
    rw [(hsorted.2.1.1 a ha).2]
    decide
  rw [List.countP_append, List.countP_cons, hbefore, hafter, if_pos (hrefl b)]

/-- **In a listing that is strictly ordered by `le`, the last row of a page is told by the number of rows up to it**: the
boundaries separate the keys if `le` and the keys agree there. -/
theorem aligned_iff_of_ordered {le : α → α → Bool} (hrefl : ∀ a, le a a = true)
    (hsorted : l.Pairwise fun a c => le a c = true ∧ le c a = false) :
    Aligned key size cursor l ↔ (∀ a ∈ l, cursor < key a) ∧ ∀ b ∈ l, size ∣ l.countP (le · b) → (∃ a ∈ l, le a b = false) →
      ∀ a ∈ l, le a b = true ↔ key a ≤ key b := by
  constructor
  · intro h
    refine ⟨h.first, fun b hb hdvd hlater a ha => ?_⟩
    obtain ⟨before, after, rfl⟩ := List.append_of_mem hb
    rw [countP_eq_of_ordered hrefl hsorted] at hdvd
    rw [List.pairwise_append, List.pairwise_cons] at hsorted
    have hne : after ≠ [] := by
      rintro rfl
      obtain ⟨c, hc, hafter⟩ := hlater
      rcases List.mem_append.mp hc with hmem | hmem
      · exact Bool.false_ne_true (hafter.symm.trans (hsorted.2.2 c hmem b List.mem_cons_self).1)
      · obtain rfl := List.mem_singleton.mp hmem
        exact Bool.false_ne_true (hafter.symm.trans (hrefl _))
    obtain ⟨hle, hlt⟩ := h.boundary before b after rfl hdvd hne
    rcases List.mem_append.mp ha with hmem | hmem
    · exact iff_of_true (hsorted.2.2 a hmem b List.mem_cons_self).1 (hle a hmem)
    · rcases List.mem_cons.mp hmem with rfl | hmem
      · exact iff_of_true (hrefl _) le_rfl
      · refine iff_of_false ?_ (not_le.mpr (hlt a hmem))
        rw [(hsorted.2.1.1 a hmem).2]
        decide
  · rintro ⟨hfirst, hagree⟩
    refine ⟨hfirst, ?_⟩
    rintro before b after rfl hdvd hne
    rw [← countP_eq_of_ordered hrefl hsorted] at hdvd
    rw [List.pairwise_append, List.pairwise_cons] at hsorted
    obtain ⟨c, rest, hc⟩ := List.exists_cons_of_ne_nil hne
    have hcafter : c ∈ after := by
      rw [hc]
      exact List.mem_cons_self
    have hin : ∀ a ∈ after, a ∈ before ++ b :: after := fun a ha => List.mem_append_right _ (List.mem_cons_of_mem _ ha)
    have hrow := hagree b (List.mem_append_right _ List.mem_cons_self) hdvd ⟨c, hin c hcafter, (hsorted.2.1.1 c hcafter).2⟩
    constructor
    · intro a ha
      exact (hrow a (List.mem_append_left _ ha)).mp (hsorted.2.2 a ha b List.mem_cons_self).1
    · intro a ha
      refine not_le.mp fun hle => ?_
      have hback := (hrow a (hin a ha)).mpr hle
      exact Bool.false_ne_true ((hsorted.2.1.1 a ha).2.symm.trans hback)

end HpAgent.Library
