import HpAgent.Library.Json

/-! # Estimated tokens

The size of a text is estimated by its characters: one token for a CJK character, one for three ASCII characters, one for two
others.

* `estimateTokens`: the estimate.
* `estimateText_append_iff`: when a text in front adds nothing to it. -/

namespace HpAgent.Prompts

open Library

/-- `_CJK_RE`. -/
def isCjk (c : Char) : Bool :=
  (0x4E00 ≤ c.toNat && c.toNat ≤ 0x9FFF) || (0x3400 ≤ c.toNat && c.toNat ≤ 0x4DBF) || (0xF900 ≤ c.toNat && c.toNat ≤ 0xFAFF) ||
    (0x3000 ≤ c.toNat && c.toNat ≤ 0x303F) || (0x3040 ≤ c.toNat && c.toNat ≤ 0x309F) || (0x30A0 ≤ c.toNat && c.toNat ≤ 0x30FF) ||
    (0xAC00 ≤ c.toNat && c.toNat ≤ 0xD7AF)

inductive CharClass where
  | cjk
  | ascii
  | other
deriving DecidableEq, Repr

/-- The class of an item of what is iterated over: a character of a text, or a text of a list. -/
def classify (item : List Char) : CharClass :=
  if item.head?.any isCjk then .cjk else if item.all fun c => c.toNat < 128 then .ascii else .other

/-- The estimate for the items. -/
def estimateItems (items : List (List Char)) : ℕ :=
  let cjk := items.countP fun i => classify i = .cjk
  let asciiChars := items.countP fun i => classify i = .ascii
  let other := items.countP fun i => classify i = .other
  let estimated := cjk
  let estimated := if asciiChars = 0 then estimated else estimated + (asciiChars + 2) / 3
  let estimated := if other = 0 then estimated else estimated + (other + 1) / 2
  max estimated 1

/-- `estimate_tokens` of a text. -/
def estimateText (text : List Char) : ℕ := if text = [] then 0 else estimateItems (text.map fun c => [c])

/-- Whether a value counts as true. -/
def truthy : Json → Bool
  | .null => false
  | .bool b => b
  | .int n => n ≠ 0
  | .float t => t.1 ≠ "0.0".toList && t.1 ≠ "-0.0".toList
  | .str s => s ≠ []
  | .arr items => !items.isEmpty
  | .obj fields => !fields.isEmpty

/-- A value that is a text. -/
def asText : Json → Option (List Char)
  | .str s => some s
  | _ => none

/-- `estimate_tokens` of any value: it iterates over what it is given, and only texts have a class. -/
def estimateTokens (value : Json) : Option ℕ :=
  if truthy value then
    match value with
    | .str s => some (estimateText s)
    | .arr items => (items.mapM asText).map estimateItems
    | .obj fields => some (estimateItems (fields.map Prod.fst))
    | _ => none
  else some 0

@[simp] theorem estimateTokens_str (s : List Char) : estimateTokens (.str s) = some (estimateText s) := by
  unfold estimateTokens truthy estimateText
  by_cases h : s = [] <;> simp [h]

/-! ### The estimate as a sum -/

/-- The characters of a class. -/
def countOf (k : CharClass) (text : List Char) : ℕ := text.countP fun c => classify [c] = k

theorem countOf_append (k : CharClass) (s t : List Char) : countOf k (s ++ t) = countOf k s + countOf k t := List.countP_append

/-- Every character has one class. -/
theorem length_eq_counts (text : List Char) : text.length = countOf .cjk text + countOf .ascii text + countOf .other text := by
  induction text with
  | nil => rfl
  | cons c text ih =>
      unfold countOf at ih ⊢
      rw [List.countP_cons, List.countP_cons, List.countP_cons, List.length_cons, ih]
      cases classify [c] <;> simp <;> omega

theorem estimateText_eq (text : List Char) :
    estimateText text = countOf .cjk text + (countOf .ascii text + 2) / 3 + (countOf .other text + 1) / 2 := by
  have hlength := length_eq_counts text
  unfold estimateText
  split
  · next h =>
      subst h
      rfl
  · next h =>
      have hpos := List.length_pos_of_ne_nil h
      have hcount : ∀ k, (text.map fun c => [c]).countP (fun i => classify i = k) = countOf k text := fun k => List.countP_map
      unfold estimateItems
      dsimp only
      rw [hcount, hcount, hcount]
      split <;> split <;> omega

/-- The text in front is empty, or its characters disappear in the rounding. -/
def Absorbed (front text : List Char) : Prop :=
  countOf .cjk front = 0 ∧ (countOf .ascii front + countOf .ascii text + 2) / 3 = (countOf .ascii text + 2) / 3 ∧
    (countOf .other front + countOf .other text + 1) / 2 = (countOf .other text + 1) / 2

instance (front text : List Char) : Decidable (Absorbed front text) := inferInstanceAs (Decidable (_ ∧ _))

theorem estimateText_append_iff {front text : List Char} : estimateText (front ++ text) = estimateText text ↔ Absorbed front text := by
  rw [estimateText_eq, estimateText_eq, countOf_append, countOf_append, countOf_append]
  unfold Absorbed
  constructor
  · intro h
    refine ⟨?_, ?_, ?_⟩ <;> omega
  · rintro ⟨hcjk, hascii, hother⟩
    omega

end HpAgent.Prompts
