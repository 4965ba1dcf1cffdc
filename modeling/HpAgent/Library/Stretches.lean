import Mathlib.Data.List.Forall2
import Mathlib.Data.List.SplitBy

/-! # Messages of one speaker in a row

Items that carry a key and some parts come in a row.  `joinLast` appends an item to what is there: to the last item when
the keys are equal, as a new one otherwise.  `stretches` is what this makes of a whole row.

* `foldl_joinLast`: the loop builds the stretches.
* `stretches_keys`: no two neighbours have one key.
* `stretches_parts`: the parts stay in order, each under its key.
* `stretches_eq_splitBy`: they are the runs of one key.
* `stretches_flagged`: no stretch is empty exactly when every run of one key has a part. -/

namespace HpAgent.Library

variable {κ β : Type} [DecidableEq κ]

/-- An item of the last key is joined to the last one. -/
def joinLast (result : List (κ × List β)) (m : κ × List β) : List (κ × List β) :=
  match result.getLast? with
  | some last => if last.1 = m.1 then result.dropLast ++ [(last.1, last.2 ++ m.2)] else result ++ [m]
  | none => result ++ [m]

/-- The stretches of a row after an item that is still open. -/
def stretchesFrom : κ → List β → List (κ × List β) → List (κ × List β)
  | k, parts, [] => [(k, parts)]
  | k, parts, (k', more) :: rest =>
      if k = k' then stretchesFrom k (parts ++ more) rest else (k, parts) :: stretchesFrom k' more rest

def stretches : List (κ × List β) → List (κ × List β)
  | [] => []
  | (k, parts) :: rest => stretchesFrom k parts rest

/-! ### The loop -/

theorem joinLast_snoc (before : List (κ × List β)) (last m : κ × List β) :
    joinLast (before ++ [last]) m =
      if last.1 = m.1 then before ++ [(last.1, last.2 ++ m.2)] else before ++ [last] ++ [m] := by
  unfold joinLast
  rw [List.getLast?_concat, List.dropLast_concat]

theorem foldl_joinLast_snoc (before : List (κ × List β)) (k : κ) (parts : List β) (items : List (κ × List β)) :
    items.foldl joinLast (before ++ [(k, parts)]) = before ++ stretchesFrom k parts items := by
  induction items generalizing before k parts with
  | nil => rfl
  | cons m rest ih =>
      obtain ⟨k', more⟩ := m
      rw [List.foldl_cons, joinLast_snoc, stretchesFrom]
      split
      · exact ih before k (parts ++ more)
      · rw [ih (before ++ [(k, parts)]) k' more, List.append_assoc]
        rfl

/-- **The loop builds the stretches.** -/
theorem foldl_joinLast (items : List (κ × List β)) : items.foldl joinLast [] = stretches items := by
  cases items with
  | nil => rfl
  | cons m rest => exact foldl_joinLast_snoc [] m.1 m.2 rest

/-! ### Keys and parts -/

theorem head_stretchesFrom (k : κ) (parts : List β) (items : List (κ × List β)) :
    ((stretchesFrom k parts items).map Prod.fst).head? = some k := by
  induction items generalizing parts with
  | nil => rfl
  | cons m rest ih =>
      obtain ⟨k', more⟩ := m
      unfold stretchesFrom
      split
      · exact ih (parts ++ more)
      · rfl

theorem stretchesFrom_keys (k : κ) (parts : List β) (items : List (κ × List β)) :
    ((stretchesFrom k parts items).map Prod.fst).IsChain (· ≠ ·) := by
  induction items generalizing k parts with
  | nil => exact List.isChain_singleton k
  | cons m rest ih =>
      obtain ⟨k', more⟩ := m
      unfold stretchesFrom
      split
      · exact ih k (parts ++ more)
      · next hne =>
          rw [List.map_cons]
          refine List.isChain_cons.mpr ⟨fun x hx => ?_, ih k' more⟩
          rw [head_stretchesFrom] at hx
          obtain rfl := Option.some.inj hx
          exact hne

/-- **No two neighbours have one key.** -/
theorem stretches_keys (items : List (κ × List β)) : ((stretches items).map Prod.fst).IsChain (· ≠ ·) := by
  cases items with
  | nil => exact List.isChain_nil
  | cons m rest => exact stretchesFrom_keys m.1 m.2 rest

/-- The parts, each with the key of its item. -/
def tagged (items : List (κ × List β)) : List (κ × β) := items.flatMap fun m => m.2.map fun part => (m.1, part)

omit [DecidableEq κ] in
@[simp] theorem tagged_cons (m : κ × List β) (items : List (κ × List β)) :
    tagged (m :: items) = m.2.map (fun part => (m.1, part)) ++ tagged items := List.flatMap_cons

theorem tagged_stretchesFrom (k : κ) (parts : List β) (items : List (κ × List β)) :
    tagged (stretchesFrom k parts items) = parts.map (fun part => (k, part)) ++ tagged items := by
  induction items generalizing k parts with
  | nil => rfl
  | cons m rest ih =>
      obtain ⟨k', more⟩ := m
      unfold stretchesFrom
      split
      · next heq =>
          obtain rfl := heq
          rw [ih, tagged_cons, List.map_append, List.append_assoc]
      · rw [tagged_cons, tagged_cons, ih]

/-- **The parts stay in order**, each under its key. -/
theorem stretches_parts (items : List (κ × List β)) : tagged (stretches items) = tagged items := by
  cases items with
  | nil => rfl
  | cons m rest =>
      show tagged (stretchesFrom m.1 m.2 rest) = _
      rw [tagged_stretchesFrom, tagged_cons]

/-- Items of the open key are taken in. -/
theorem stretchesFrom_run {k : κ} {run : List (κ × List β)} (h : ∀ m ∈ run, m.1 = k) (parts : List β)
    (rest : List (κ × List β)) :
    stretchesFrom k parts (run ++ rest) = stretchesFrom k (parts ++ run.flatMap Prod.snd) rest := by
  induction run generalizing parts with
  | nil => simp
  | cons m run ih =>
      obtain ⟨k', more⟩ := m
      obtain rfl : k' = k := h _ List.mem_cons_self
      rw [List.cons_append, stretchesFrom, if_pos rfl, ih fun m hm => h m (List.mem_cons_of_mem _ hm)]
      rw [List.flatMap_cons, List.append_assoc]

/-! ### Runs of one key -/

/-- One item for a run of one key. -/
def merged : List (κ × List β) → Option (κ × List β)
  | [] => none
  | m :: run => some (m.1, m.2 ++ run.flatMap Prod.snd)

/-- The same key. -/
def sameKey (a b : κ × List β) : Bool := a.1 = b.1

theorem key_of_chain {m : κ × List β} {run : List (κ × List β)} (h : (m :: run).IsChain fun a b => sameKey a b = true) :
    ∀ x ∈ run, x.1 = m.1 := by
  induction run generalizing m with
  | nil => exact fun x hx => absurd hx List.not_mem_nil
  | cons n run ih =>
      obtain ⟨hhead, htail⟩ := List.isChain_cons_cons.mp h
      have hkey : m.1 = n.1 := of_decide_eq_true hhead
      intro x hx
      obtain rfl | hx := List.mem_cons.mp hx
      · exact hkey.symm
      · exact (ih htail x hx).trans hkey.symm

/-- A row whose first item has another key starts a new stretch. -/
theorem stretchesFrom_new {k : κ} {items : List (κ × List β)} (h : ∀ m ∈ items.head?, m.1 ≠ k) (parts : List β) :
    stretchesFrom k parts items = (k, parts) :: stretches items := by
  cases items with
  | nil => rfl
  | cons m rest =>
      have hne : k ≠ m.1 := fun heq => h m rfl heq.symm
      obtain ⟨k', more⟩ := m
      unfold stretchesFrom
      rw [if_neg hne]
      rfl

/-- **The stretches are the runs of one key.** -/
theorem stretches_eq_splitBy (items : List (κ × List β)) : stretches items = (items.splitBy sameKey).filterMap merged := by
  have hruns : ∀ runs : List (List (κ × List β)), [] ∉ runs → (∀ run ∈ runs, run.IsChain fun a b => sameKey a b = true) →
      (runs.IsChain fun a b => ∃ ha hb, sameKey (a.getLast ha) (b.head hb) = false) →
      stretches runs.flatten = runs.filterMap merged := by
    intro runs
    induction runs with
    | nil => exact fun _ _ _ => rfl
    | cons run runs ih =>
        intro hnil hchain hnext
        have hrest := ih (fun hmem => hnil (List.mem_cons_of_mem _ hmem))
          (fun r hr => hchain r (List.mem_cons_of_mem _ hr)) (List.isChain_cons.mp hnext).2
        cases run with
        | nil => exact absurd List.mem_cons_self hnil
        | cons m run =>
            obtain ⟨k, parts⟩ := m
            have hkeys := key_of_chain (hchain _ List.mem_cons_self)
            have hhead : ∀ x ∈ runs.flatten.head?, x.1 ≠ k := by
              cases runs with
              | nil => exact fun x hx => absurd hx (by simp)
              | cons next runs =>
                  obtain ⟨hlast, hfirst, hne⟩ := (List.isChain_cons_cons.mp hnext).1
                  intro x hx heq
                  have hx : next.head hfirst = x := by
                    rw [List.flatten_cons, List.head?_append_of_ne_nil _ hfirst, List.head?_eq_some_head hfirst] at hx
                    exact Option.some.inj hx
                  have hlast_key : (((k, parts) :: run).getLast hlast).1 = k := by
                    obtain hin | hin := List.mem_cons.mp (List.getLast_mem hlast)
                    · rw [hin]
                    · exact hkeys _ hin
                  refine absurd hne ?_
                  rw [Bool.not_eq_false]
                  exact decide_eq_true (by rw [hlast_key, hx, heq])
            rw [List.flatten_cons, List.cons_append]
            show stretchesFrom k parts (run ++ runs.flatten) = _
            rw [stretchesFrom_run hkeys, stretchesFrom_new hhead, hrest]
            rfl
  have hsplit := hruns (items.splitBy sameKey) (List.nil_notMem_splitBy _ _) (fun _ => List.isChain_of_mem_splitBy)
    (List.isChain_getLast_head_splitBy _ _)
  rwa [List.flatten_splitBy] at hsplit

/-- **No stretch is empty** exactly when every run of one key has a part. -/
theorem stretches_nonempty_iff (items : List (κ × List β)) :
    (∀ m ∈ stretches items, m.2 ≠ []) ↔ ∀ run ∈ items.splitBy sameKey, ∃ m ∈ run, m.2 ≠ [] := by
  rw [stretches_eq_splitBy]
  have hone : ∀ run ∈ items.splitBy sameKey, ∀ m, merged run = some m → (m.2 ≠ [] ↔ ∃ x ∈ run, x.2 ≠ []) := by
    intro run hrun m hm
    cases run with
    | nil => cases hm
    | cons x run =>
        obtain rfl := Option.some.inj hm
        simp only [ne_eq, List.append_eq_nil_iff, List.flatMap_eq_nil_iff, List.mem_cons, exists_eq_or_imp]
        grind
  constructor
  · intro h run hrun
    cases hm : merged run with
    | none =>
        cases run with
        | nil => exact absurd hrun (List.nil_notMem_splitBy _ _)
        | cons x run => cases hm
    | some m => exact (hone run hrun m hm).mp (h m (List.mem_filterMap.mpr ⟨run, hrun, hm⟩))
  · intro h m hm
    obtain ⟨run, hrun, hmerged⟩ := List.mem_filterMap.mp hm
    exact (hone run hrun m hmerged).mpr (h run hrun)

/-! ### Rows in pieces -/

theorem splitBy_map {α γ : Type} (f : α → γ) (r : γ → γ → Bool) (l : List α) :
    (l.map f).splitBy r = (l.splitBy fun a b => r (f a) (f b)).map (List.map f) := by
  rw [List.splitBy_eq_iff]
  refine ⟨?_, ?_, ?_, ?_⟩
  · rw [← List.map_flatten, List.flatten_splitBy]
  · intro hmem
    obtain ⟨run, hrun, hnil⟩ := List.mem_map.mp hmem
    obtain rfl := List.map_eq_nil_iff.mp hnil
    exact List.nil_notMem_splitBy _ _ hrun
  · intro run hrun
    obtain ⟨run', hrun', rfl⟩ := List.mem_map.mp hrun
    exact (List.isChain_map f).mpr (List.isChain_of_mem_splitBy hrun')
  · refine (List.isChain_map _).mpr ((List.isChain_getLast_head_splitBy _ l).imp fun a b hab => ?_)
    obtain ⟨ha, hb, hne⟩ := hab
    refine ⟨by simpa using ha, by simpa using hb, ?_⟩
    rw [List.getLast_map, List.head_map]
    exact hne

/-- These items have one key, and the flag says whether they have a part. -/
def Flags (items : List (κ × List β)) (flags : List (κ × Bool)) : Prop :=
  (items = [] ∧ flags = []) ∨
    ∃ k, items ≠ [] ∧ (∀ m ∈ items, m.1 = k) ∧ flags = [(k, !(items.flatMap Prod.snd).isEmpty)]

/-- The items have one key. -/
def OneKey (items : List (κ × List β)) : Prop := ∀ m ∈ items, ∀ m' ∈ items, m.1 = m'.1

omit [DecidableEq κ] in
theorem Flags.oneKey {items : List (κ × List β)} {flags : List (κ × Bool)} (h : Flags items flags) : OneKey items := by
  obtain ⟨rfl, -⟩ | ⟨k, -, hkey, -⟩ := h
  · exact fun m hm => absurd hm List.not_mem_nil
  · exact fun m hm m' hm' => (hkey m hm).trans (hkey m' hm').symm

/-- The items of one piece, joined. -/
def asOne : List (κ × List β) → List (κ × List β)
  | [] => []
  | m :: rest => [(m.1, m.2 ++ rest.flatMap Prod.snd)]

theorem stretchesFrom_pieces {pieces : List (List (κ × List β))} (h : ∀ piece ∈ pieces, OneKey piece) (k₀ : κ)
    (parts : List β) :
    stretchesFrom k₀ parts pieces.flatten = stretchesFrom k₀ parts (pieces.map asOne).flatten := by
  induction pieces generalizing k₀ parts with
  | nil => rfl
  | cons piece pieces ih =>
      have hkey := h piece List.mem_cons_self
      have ih := ih fun p hp => h p (List.mem_cons_of_mem piece hp)
      cases piece with
      | nil => exact ih k₀ parts
      | cons m piece =>
          have hrest : ∀ x ∈ piece, x.1 = m.1 := fun x hx => hkey x (List.mem_cons_of_mem m hx) m List.mem_cons_self
          obtain ⟨k', more⟩ := m
          show stretchesFrom k₀ parts ((k', more) :: (piece ++ pieces.flatten)) =
            stretchesFrom k₀ parts ((k', more ++ piece.flatMap Prod.snd) :: (pieces.map asOne).flatten)
          rw [stretchesFrom, stretchesFrom]
          by_cases heq : k₀ = k'
          · rw [if_pos heq, if_pos heq, stretchesFrom_run (fun x hx => (hrest x hx).trans heq.symm), ih, List.append_assoc]
          · rw [if_neg heq, if_neg heq, stretchesFrom_run hrest, ih]

/-- A piece counts as one item. -/
theorem stretches_pieces {pieces : List (List (κ × List β))} (h : ∀ piece ∈ pieces, OneKey piece) :
    stretches pieces.flatten = stretches (pieces.map asOne).flatten := by
  induction pieces with
  | nil => rfl
  | cons piece pieces ih =>
      have hrest : ∀ p ∈ pieces, OneKey p := fun p hp => h p (List.mem_cons_of_mem piece hp)
      have hkey := h piece List.mem_cons_self
      cases piece with
      | nil => exact ih hrest
      | cons m piece =>
          have hsame : ∀ x ∈ piece, x.1 = m.1 := fun x hx => hkey x (List.mem_cons_of_mem m hx) m List.mem_cons_self
          show stretchesFrom m.1 m.2 (piece ++ pieces.flatten) =
            stretchesFrom m.1 (m.2 ++ piece.flatMap Prod.snd) (pieces.map asOne).flatten
          rw [stretchesFrom_run hsame, stretchesFrom_pieces hrest]

/-- The flag of an item. -/
def flagged (m : κ × List β) : κ × Bool := (m.1, !m.2.isEmpty)

omit [DecidableEq κ] in
theorem Flags.eq {items : List (κ × List β)} {flags : List (κ × Bool)} (h : Flags items flags) :
    flags = (asOne items).map flagged := by
  obtain ⟨rfl, rfl⟩ | ⟨k, hne, hkey, rfl⟩ := h
  · rfl
  · cases items with
    | nil => exact absurd rfl hne
    | cons m rest =>
        obtain rfl := hkey m List.mem_cons_self
        rfl

/-- **No stretch is empty** exactly when every run of flags of one key has a flag that is set. -/
theorem stretches_flagged {pieces : List (List (κ × List β))} {flags : List (List (κ × Bool))}
    (h : List.Forall₂ Flags pieces flags) :
    (∀ m ∈ stretches pieces.flatten, m.2 ≠ []) ↔
      ∀ run ∈ flags.flatten.splitBy fun a b => decide (a.1 = b.1), ∃ x ∈ run, x.2 = true := by
  have hkeys : ∀ piece ∈ pieces, OneKey piece := by
    induction h with
    | nil => exact fun piece hpiece => absurd hpiece List.not_mem_nil
    | cons hone _ ih =>
        intro piece hpiece
        obtain rfl | hpiece := List.mem_cons.mp hpiece
        · exact hone.oneKey
        · exact ih piece hpiece
  have hflags : flags.flatten = (pieces.map asOne).flatten.map flagged := by
    induction h with
    | nil => rfl
    | cons hone _ ih =>
        rw [List.flatten_cons, List.map_cons, List.flatten_cons, List.map_append, hone.eq,
          ih fun p hp => hkeys p (List.mem_cons_of_mem _ hp)]
  rw [stretches_pieces hkeys, stretches_nonempty_iff, hflags, splitBy_map]
  have hone : ∀ run : List (κ × List β), (∃ m ∈ run, m.2 ≠ []) ↔ ∃ x ∈ run.map flagged, x.2 = true := by
    intro run
    simp [flagged]
  constructor
  · intro hall run hrun
    obtain ⟨run', hrun', rfl⟩ := List.mem_map.mp hrun
    exact (hone run').mp (hall run' hrun')
  · intro hall run hrun
    exact (hone run).mpr (hall _ (List.mem_map.mpr ⟨run, hrun, rfl⟩))

end HpAgent.Library
