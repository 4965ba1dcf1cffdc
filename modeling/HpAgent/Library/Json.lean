import Mathlib.Data.List.Basic
import Mathlib.Data.Int.Basic
import Mathlib.Tactic.IntervalCases

/-! # JSON texts

JSON values and the text that a compact serializer writes for them: no blanks between tokens, non-ASCII characters as
they are, and quotation marks, backslashes and control characters escaped.  A float is carried as its own text.

`dumps_unbroken` says that no line break is left in such a text. -/

namespace HpAgent.Library

/-- A text without line breaks. -/
def Unbroken (text : List Char) : Prop := '\n' ∉ text ∧ '\r' ∉ text

theorem Unbroken.append {s t : List Char} (hs : Unbroken s) (ht : Unbroken t) : Unbroken (s ++ t) := by
  constructor
  · rw [List.mem_append, not_or]
    exact ⟨hs.1, ht.1⟩
  · rw [List.mem_append, not_or]
    exact ⟨hs.2, ht.2⟩

theorem Unbroken.cons {c : Char} {t : List Char} (hn : c ≠ '\n') (hr : c ≠ '\r') (ht : Unbroken t) : Unbroken (c :: t) := by
  constructor
  · rw [List.mem_cons, not_or]
    exact ⟨hn.symm, ht.1⟩
  · rw [List.mem_cons, not_or]
    exact ⟨hr.symm, ht.2⟩

theorem unbroken_nil : Unbroken [] := ⟨List.not_mem_nil, List.not_mem_nil⟩

instance (text : List Char) : Decidable (Unbroken text) := inferInstanceAs (Decidable (_ ∧ _))

/-- Texts are compared character by character. -/
instance lawfulText : LawfulBEq (List Char) := inferInstance

/-- JSON values. -/
inductive Json where
  | null
  | bool (b : Bool)
  | int (n : ℤ)
  | float (text : { t : List Char // Unbroken t })
  | str (s : List Char)
  | arr (items : List Json)
  | obj (fields : List (List Char × Json))

namespace Json

/-! ### Strings -/

def hexDigit (n : ℕ) : Char := Nat.digitChar n

/-- The escape of a character in a string. -/
def escapeChar (c : Char) : List Char :=
  if c = '"' then ['\\', '"']
  else if c = '\\' then ['\\', '\\']
  else if c = '\n' then ['\\', 'n']
  else if c = '\r' then ['\\', 'r']
  else if c = '\t' then ['\\', 't']
  else if c.toNat = 8 then ['\\', 'b']
  else if c.toNat = 12 then ['\\', 'f']
  else if c.toNat < 32 then ['\\', 'u', '0', '0', hexDigit (c.toNat / 16), hexDigit (c.toNat % 16)]
  else [c]

def dumpsString (s : List Char) : List Char := '"' :: (s.flatMap escapeChar ++ ['"'])

theorem hexDigit_unbroken {n : ℕ} (h : n < 16) : hexDigit n ≠ '\n' ∧ hexDigit n ≠ '\r' := by
  unfold hexDigit
  interval_cases n <;> decide

theorem escapeChar_unbroken (c : Char) : Unbroken (escapeChar c) := by
  unfold escapeChar
  split_ifs with hquote hslash hn hr ht hb hf hcontrol
  · decide
  · decide
  · decide
  · decide
  · decide
  · decide
  · decide
  · have hhigh := hexDigit_unbroken (n := c.toNat / 16) (by omega)
    have hlow := hexDigit_unbroken (n := c.toNat % 16) (by omega)
    exact .cons (by decide) (by decide) (.cons (by decide) (by decide) (.cons (by decide) (by decide)
      (.cons (by decide) (by decide) (.cons hhigh.1 hhigh.2 (.cons hlow.1 hlow.2 unbroken_nil)))))
  · exact .cons hn hr unbroken_nil

theorem dumpsString_unbroken (s : List Char) : Unbroken (dumpsString s) := by
  refine .cons (by decide) (by decide) (.append ?_ (by decide))
  induction s with
  | nil => exact unbroken_nil
  | cons c rest ih =>
      rw [List.flatMap_cons]
      exact (escapeChar_unbroken c).append ih

/-! ### Values -/

mutual

/-- The text of a value, with these separators between items and after the name of a field. -/
def dumps (comma colon : List Char) : Json → List Char
  | .null => "null".toList
  | .bool true => "true".toList
  | .bool false => "false".toList
  | .int n => (toString n).toList
  | .float text => text.1
  | .str s => dumpsString s
  | .arr items => '[' :: (dumpsItems comma colon items ++ [']'])
  | .obj fields => '{' :: (dumpsFields comma colon fields ++ ['}'])

def dumpsItems (comma colon : List Char) : List Json → List Char
  | [] => []
  | [j] => dumps comma colon j
  | j :: k :: rest => dumps comma colon j ++ (comma ++ dumpsItems comma colon (k :: rest))

def dumpsFields (comma colon : List Char) : List (List Char × Json) → List Char
  | [] => []
  | [(name, j)] => dumpsString name ++ (colon ++ dumps comma colon j)
  | (name, j) :: f :: rest => dumpsString name ++ (colon ++ (dumps comma colon j ++ (comma ++ dumpsFields comma colon (f :: rest))))

end

/-- The text of a field is part of the text of its object. -/
theorem dumps_infix (comma colon : List Char) {fields : List (List Char × Json)} {name : List Char} {j : Json}
    (h : (name, j) ∈ fields) : dumps comma colon j <:+: dumps comma colon (.obj fields) := by
  have hfields : dumps comma colon j <:+: dumpsFields comma colon fields := by
    induction fields with
    | nil => exact absurd h List.not_mem_nil
    | cons f rest ih =>
        cases rest with
        | nil =>
            obtain rfl := List.mem_singleton.mp h
            exact ⟨dumpsString name ++ colon, [], by simp [dumpsFields]⟩
        | cons g rest =>
            obtain hhead | hrest := List.mem_cons.mp h
            · obtain rfl := hhead
              exact ⟨dumpsString name ++ colon, comma ++ dumpsFields comma colon (g :: rest), by simp [dumpsFields]⟩
            · obtain ⟨pre, post, hsplit⟩ := ih hrest
              refine ⟨dumpsString f.1 ++ (colon ++ (dumps comma colon f.2 ++ (comma ++ pre))), post, ?_⟩
              rw [dumpsFields, ← hsplit]
              simp
  obtain ⟨pre, post, hsplit⟩ := hfields
  refine ⟨'{' :: pre, post ++ ['}'], ?_⟩
  rw [dumps, ← hsplit]
  simp

/-! ### No line breaks -/

theorem unbroken_of_isDigit {text : List Char} (h : ∀ c ∈ text, c.isDigit = true) : Unbroken text := by
  constructor
  · intro hmem
    exact absurd (h _ hmem) (by decide)
  · intro hmem
    exact absurd (h _ hmem) (by decide)

theorem natText_unbroken (n : ℕ) : Unbroken (toString n).toList :=
  unbroken_of_isDigit fun _ hc => Nat.isDigit_of_mem_toDigits (b := 10) (n := n) (by decide) (by decide) (by simpa using hc)

theorem intText_unbroken (n : ℤ) : Unbroken (toString n).toList := by
  cases n with
  | ofNat n => exact natText_unbroken n
  | negSucc n =>
      show Unbroken ("-" ++ toString (n + 1)).toList
      rw [String.toList_append]
      exact .append (by decide) (natText_unbroken (n + 1))

variable {comma colon : List Char}

mutual

theorem dumps_unbroken (hcomma : Unbroken comma) (hcolon : Unbroken colon) : ∀ j : Json, Unbroken (dumps comma colon j)
  | .null => (by decide : Unbroken "null".toList)
  | .bool true => (by decide : Unbroken "true".toList)
  | .bool false => (by decide : Unbroken "false".toList)
  | .int n => intText_unbroken n
  | .float text => text.2
  | .str s => dumpsString_unbroken s
  | .arr items => .cons (by decide) (by decide) ((dumpsItems_unbroken hcomma hcolon items).append (by decide))
  | .obj fields => .cons (by decide) (by decide) ((dumpsFields_unbroken hcomma hcolon fields).append (by decide))

theorem dumpsItems_unbroken (hcomma : Unbroken comma) (hcolon : Unbroken colon) :
    ∀ items : List Json, Unbroken (dumpsItems comma colon items)
  | [] => unbroken_nil
  | [j] => dumps_unbroken hcomma hcolon j
  | j :: k :: rest => (dumps_unbroken hcomma hcolon j).append (hcomma.append (dumpsItems_unbroken hcomma hcolon (k :: rest)))

theorem dumpsFields_unbroken (hcomma : Unbroken comma) (hcolon : Unbroken colon) :
    ∀ fields : List (List Char × Json), Unbroken (dumpsFields comma colon fields)
  | [] => unbroken_nil
  | [(name, j)] => (dumpsString_unbroken name).append (hcolon.append (dumps_unbroken hcomma hcolon j))
  | (name, j) :: f :: rest => (dumpsString_unbroken name).append (hcolon.append
      ((dumps_unbroken hcomma hcolon j).append (hcomma.append (dumpsFields_unbroken hcomma hcolon (f :: rest)))))

end

/-! ### Numbers -/

mutual

/-- No number in the value is infinite or not a number. -/
def finite : Json → Bool
  | .float text => text.val != "NaN".toList && text.val != "Infinity".toList && text.val != "-Infinity".toList
  | .arr items => finiteItems items
  | .obj fields => finiteFields fields
  | _ => true

def finiteItems : List Json → Bool
  | [] => true
  | j :: rest => finite j && finiteItems rest

def finiteFields : List (List Char × Json) → Bool
  | [] => true
  | (_, j) :: rest => finite j && finiteFields rest

end

/-! ### Reading values -/

/-- The truth value of a value; a float is carried as its text. -/
def truthy : Json → Bool
  | .null => false
  | .bool b => b
  | .int n => n != 0
  | .float text => text.val != "0.0".toList && text.val != "-0.0".toList
  | .str s => s != []
  | .arr items => !items.isEmpty
  | .obj fields => !fields.isEmpty

/-- `data.get(name)`. -/
def get (data : List (List Char × Json)) (name : String) : Json := (data.lookup name.toList).getD .null

end Json

end HpAgent.Library
