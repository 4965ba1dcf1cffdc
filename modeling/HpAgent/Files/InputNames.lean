import HpAgent.Library.Search
import HpAgent.Requirements.Requirement
import Mathlib.Data.List.DropRight
import Mathlib.Data.List.Forall2

/-! # The names of attached files

A message with files gives each of them a logical name in its Run.  A name that is taken, with case ignored, gets a number
between its base and its extension, and the base is cut so that the whole fits.

* `uniqueLogicalName`, `bindInputs`: the names, in the order of the files.
* `Roomy`: every file finds a free name that fits.
* `inputs_named`: the names are distinct and keep the extensions, and they fit exactly in that case.
* `twins_overlong`: two files whose name is one long extension. -/

namespace HpAgent.Files

open Library
open Requirements (strip)

/-- `str.casefold` folds every character by itself; a dash and the digits stay. -/
structure CaseFold where
  fold : Char → List Char
  dash : fold '-' = ['-']
  digit : ∀ c : Char, c.isDigit = true → fold c = [c]

def CaseFold.casefold (F : CaseFold) (name : List Char) : List Char := name.flatMap F.fold

/-- A file to attach, with its name as it is stored. -/
structure InputFile where
  fileId : ℕ
  displayName : List Char
  stored : 1 ≤ displayName.length ∧ displayName.length ≤ 255

/-- The rows of `message_files` and `run_files` for one file. -/
structure BoundInput where
  fileId : ℕ
  ordinal : ℕ
  logicalName : List Char
deriving DecidableEq, Repr

/-! ### Names -/

/-- `name[:stop]`, where a negative `stop` counts from the end. -/
def upTo (name : List Char) (stop : ℤ) : List Char :=
  if 0 ≤ stop then name.take stop.toNat else name.take (name.length + stop).toNat

/-- `name.replace("/", "_").replace("\\", "_").strip() or "file"`, cut. -/
def safeName (name : List Char) : List Char :=
  let safe := strip (name.map fun c => if c = '/' ∨ c = '\\' then '_' else c)
  (if safe = [] then "file".toList else safe).take 255

/-- The last dot of a name and what follows; nothing where there is no dot. -/
def extension (name : List Char) : List Char := if '.' ∈ name then '.' :: name.rtakeWhile (· ≠ '.') else []

/-- What stands before the extension. -/
def base (name : List Char) : List Char := name.take (name.length - (extension name).length)

def marker (counter : ℕ) : List Char := '-' :: (toString counter).toList

/-- `candidate`, with this counter. -/
def numbered (safe : List Char) (counter : ℕ) : List Char :=
  upTo (base safe) (255 - (extension safe).length - (marker counter).length) ++ marker counter ++ extension safe

/-- `_unique_logical_name`, for at most `fuel` rounds of its loop. -/
def uniqueLogicalName (F : CaseFold) (fuel : ℕ) (used : List (List Char)) (name : List Char) : Option (List Char) :=
  if F.casefold (safeName name) ∈ used then
    (search used (fun counter => F.casefold (numbered (safeName name) counter)) fuel 2).map (numbered (safeName name))
  else some (safeName name)

/-- `bind_inputs`: the names that are used are carried along. -/
def bindInputs (F : CaseFold) (fuel : ℕ) : List InputFile → List (List Char) → ℕ → Option (List BoundInput)
  | [], _, _ => some []
  | file :: files, used, ordinal => do
      let logicalName ← uniqueLogicalName F fuel used file.displayName
      let rest ← bindInputs F fuel files (F.casefold logicalName :: used) (ordinal + 1)
      return ⟨file.fileId, ordinal, logicalName⟩ :: rest

/-! ### One name -/

section names

variable {F : CaseFold} {name safe : List Char} {used : List (List Char)}

theorem casefold_append (s t : List Char) : F.casefold (s ++ t) = F.casefold s ++ F.casefold t := List.flatMap_append

theorem digits_isDigit (n : ℕ) : ∀ c ∈ (toString n).toList, c.isDigit = true := by
  intro c hc
  exact Nat.isDigit_of_mem_toDigits (b := 10) (n := n) (by decide) (by decide) (by simpa using hc)

theorem casefold_digits (n : ℕ) : F.casefold (toString n).toList = (toString n).toList := by
  have hstay : ∀ s : List Char, (∀ c ∈ s, c.isDigit = true) → s.flatMap F.fold = s := by
    intro s hs
    induction s with
    | nil => rfl
    | cons c s ih =>
        rw [List.flatMap_cons, F.digit c (hs c List.mem_cons_self), ih fun d hd => hs d (List.mem_cons_of_mem c hd)]
        rfl
  exact hstay _ (digits_isDigit n)

theorem casefold_marker (n : ℕ) : F.casefold (marker n) = marker n := by
  unfold marker CaseFold.casefold
  rw [List.flatMap_cons, F.dash]
  exact congrArg (['-'] ++ ·) (casefold_digits n)

/-- The number after the last dash. -/
theorem after_dash (s : List Char) (n : ℕ) : (s ++ marker n).rtakeWhile (· ≠ '-') = (toString n).toList := by
  have hdash : ∀ c ∈ (toString n).toList.reverse, decide (c ≠ '-') = true := by
    intro c hc
    have hdigit := digits_isDigit n c (List.mem_reverse.mp hc)
    refine decide_eq_true fun heq => ?_
    rw [heq] at hdigit
    exact absurd hdigit (by decide)
  unfold List.rtakeWhile marker
  rw [List.reverse_append, List.reverse_cons, List.append_assoc, List.takeWhile_append_of_pos hdash]
  simp

/-- **Two counters make two names**, with case ignored. -/
theorem casefold_numbered_injective (safe : List Char) : Function.Injective fun n => F.casefold (numbered safe n) := by
  intro m n h
  unfold numbered at h
  simp only [casefold_append, casefold_marker] at h
  have hnumber := congrArg (List.rtakeWhile (· ≠ '-')) (List.append_cancel_right h)
  rw [after_dash, after_dash] at hnumber
  have hvalue := congrArg (fun digits => Nat.ofDigitChars 10 digits 0) (show Nat.toDigits 10 m = Nat.toDigits 10 n by simpa using hnumber)
  simpa only [Nat.ofDigitChars_ten_toDigits] using hvalue

theorem marker_mono {m n : ℕ} (h : m ≤ n) : (marker m).length ≤ (marker n).length := by
  have hpos : 0 < (Nat.toDigits 10 n).length := Nat.length_toDigits_pos
  have hn : n < 10 ^ (Nat.toDigits 10 n).length := (Nat.length_toDigits_le_iff (by decide) hpos).mp (Nat.le_refl _)
  have hm : (Nat.toDigits 10 m).length ≤ (Nat.toDigits 10 n).length :=
    (Nat.length_toDigits_le_iff (by decide) hpos).mpr (by omega)
  unfold marker
  simpa using hm

theorem safeName_ne_nil (name : List Char) : safeName name ≠ [] := by
  unfold safeName
  dsimp only
  intro h
  rw [List.take_eq_nil_iff] at h
  obtain h | h := h
  · omega
  · split at h
    · exact absurd h (by decide)
    · next hne => exact hne h

theorem length_safeName_le (name : List Char) : (safeName name).length ≤ 255 := List.length_take_le _ _

theorem safeName_plain (name : List Char) : '/' ∉ safeName name ∧ '\\' ∉ safeName name := by
  have hplain : ∀ c ∈ safeName name, c ≠ '/' ∧ c ≠ '\\' := by
    intro c hc
    unfold safeName at hc
    have hc := List.mem_of_mem_take hc
    split at hc
    · have hletters : "file".toList = ['f', 'i', 'l', 'e'] := rfl
      rw [hletters] at hc
      simp only [List.mem_cons, List.not_mem_nil, or_false] at hc
      obtain rfl | rfl | rfl | rfl := hc <;> decide
    · have hmem : c ∈ name.map fun c => if c = '/' ∨ c = '\\' then '_' else c :=
        (List.dropWhile_sublist _).mem ((List.rdropWhile_prefix _ _).sublist.mem hc)
      obtain ⟨d, -, rfl⟩ := List.mem_map.mp hmem
      split
      · decide
      · next hne => exact not_or.mp hne
  exact ⟨fun h => (hplain _ h).1 rfl, fun h => (hplain _ h).2 rfl⟩

theorem rtakeWhile_append {p : Char → Bool} {c : Char} (hc : p c = false) {s t : List Char} (ht : ∀ d ∈ t, p d = true) :
    (s ++ c :: t).rtakeWhile p = t := by
  unfold List.rtakeWhile
  rw [List.reverse_append, List.reverse_cons, List.append_assoc, List.takeWhile_append_of_pos fun d hd => ht d (List.mem_reverse.mp hd)]
  simp [hc]

/-- A name with a dot, cut at its last one. -/
theorem last_dot {name : List Char} (h : '.' ∈ name) : ∃ s t, name = s ++ '.' :: t ∧ '.' ∉ t := by
  induction name with
  | nil => exact absurd h List.not_mem_nil
  | cons c name ih =>
      by_cases hlater : '.' ∈ name
      · obtain ⟨s, t, hname, ht⟩ := ih hlater
        exact ⟨c :: s, t, by rw [hname]; rfl, ht⟩
      · obtain rfl | hmem := List.mem_cons.mp h
        · exact ⟨[], name, rfl, hlater⟩
        · exact absurd hmem hlater

theorem extension_dot (s : List Char) {t : List Char} (ht : '.' ∉ t) : extension (s ++ '.' :: t) = '.' :: t := by
  have hdot : '.' ∈ s ++ '.' :: t := List.mem_append_right s List.mem_cons_self
  unfold extension
  rw [if_pos hdot, rtakeWhile_append (by decide)]
  intro d hd
  exact decide_eq_true fun heq => ht (heq ▸ hd)

theorem extension_plain {name : List Char} (h : '.' ∉ name) : extension name = [] := if_neg h

/-- The extension of a name that ends with another's extension, after something without a dot. -/
theorem extension_append {name middle : List Char} (hmiddle : '.' ∉ middle) (stop : ℤ) :
    extension (upTo (base name) stop ++ middle ++ extension name) = extension name := by
  by_cases hdot : '.' ∈ name
  · obtain ⟨s, t, rfl, ht⟩ := last_dot hdot
    rw [extension_dot s ht, extension_dot _ ht]
  · have hbase : '.' ∉ upTo (base name) stop := by
      intro hmem
      unfold upTo base at hmem
      split at hmem
      · exact hdot (List.mem_of_mem_take (List.mem_of_mem_take hmem))
      · exact hdot (List.mem_of_mem_take (List.mem_of_mem_take hmem))
    rw [extension_plain hdot, List.append_nil]
    refine extension_plain fun hmem => ?_
    obtain hmem | hmem := List.mem_append.mp hmem
    · exact hbase hmem
    · exact hmiddle hmem

theorem marker_plain (n : ℕ) : ∀ c ∈ marker n, c = '-' ∨ c.isDigit = true := by
  intro c hc
  obtain rfl | hc := List.mem_cons.mp hc
  · exact .inl rfl
  · exact .inr (digits_isDigit n c hc)

theorem not_mem_marker {c : Char} (hdash : c ≠ '-') (hdigit : c.isDigit = false) (n : ℕ) : c ∉ marker n := by
  intro hmem
  obtain h | h := marker_plain n c hmem
  · exact hdash h
  · rw [hdigit] at h
    cases h

theorem mem_extension {name : List Char} {c : Char} (h : c ∈ extension name) : c ∈ name := by
  by_cases hdot : '.' ∈ name
  · obtain ⟨s, t, rfl, ht⟩ := last_dot hdot
    rw [extension_dot s ht] at h
    exact List.mem_append_right s h
  · rw [extension_plain hdot] at h
    cases h

/-- A numbered name has the characters of the name, a dash and digits. -/
theorem mem_numbered {n : ℕ} {c : Char} (h : c ∈ numbered safe n) : c ∈ safe ∨ c ∈ marker n := by
  unfold numbered upTo base at h
  obtain h | h := List.mem_append.mp h
  · obtain h | h := List.mem_append.mp h
    · refine .inl ?_
      split at h
      · exact List.mem_of_mem_take (List.mem_of_mem_take h)
      · exact List.mem_of_mem_take (List.mem_of_mem_take h)
    · exact .inr h
  · exact .inl (mem_extension h)

/-- **A numbered name fits when its number and its extension do**: the base is cut to what they leave.  Where they leave
less than nothing, the end of the base is dropped instead, and the name is too long. -/
theorem length_numbered_le (safe : List Char) (n : ℕ) :
    (numbered safe n).length ≤ 255 ↔ (extension safe).length + (marker n).length ≤ 255 := by
  unfold numbered upTo
  split
  · simp only [List.length_append, List.length_take]
    omega
  · simp only [List.length_append, List.length_take]
    omega

end names

/-! ### The name of one file -/

/-- A free name that fits: the name itself, or one with a number. -/
def Fits (F : CaseFold) (used : List (List Char)) (safe : List Char) : Prop :=
  F.casefold safe ∉ used ∨ ∃ n, 2 ≤ n ∧ (extension safe).length + (marker n).length ≤ 255 ∧
    F.casefold (numbered safe n) ∉ used

/-- A name as it is uploaded: stripped, and without separators. -/
def Clean (name : List Char) : Prop := strip name = name ∧ '/' ∉ name ∧ '\\' ∉ name

/-- What the name in the row of a file has to do with the name of the file. -/
structure Named (displayName logicalName : List Char) : Prop where
  ne_nil : logicalName ≠ []
  slash : '/' ∉ logicalName
  backslash : '\\' ∉ logicalName
  extension_eq : extension logicalName = extension (safeName displayName)

theorem safeName_clean {name : List Char} (h : Clean name) (hne : name ≠ []) (hlength : name.length ≤ 255) :
    safeName name = name := by
  obtain ⟨hstrip, hslash, hbackslash⟩ := h
  have hmap : (name.map fun c => if c = '/' ∨ c = '\\' then '_' else c) = name := by
    refine (List.map_congr_left fun c hc => ?_).trans (List.map_id name)
    rw [if_neg]
    · rfl
    · rintro (rfl | rfl)
      · exact hslash hc
      · exact hbackslash hc
  unfold safeName
  rw [hmap, hstrip]
  dsimp only
  rw [if_neg hne, List.take_of_length_le hlength]

/-- The extension of an uploaded file is kept as it is. -/
theorem Named.extension_clean {file : InputFile} {logicalName : List Char} (h : Named file.displayName logicalName)
    (hclean : Clean file.displayName) : extension logicalName = extension file.displayName := by
  have hne : file.displayName ≠ [] := List.ne_nil_of_length_pos file.stored.1
  rw [h.extension_eq, safeName_clean hclean hne file.stored.2]

theorem named_safe (name : List Char) : Named name (safeName name) :=
  ⟨safeName_ne_nil name, (safeName_plain name).1, (safeName_plain name).2, rfl⟩

theorem named_numbered (name : List Char) (n : ℕ) : Named name (numbered (safeName name) n) where
  ne_nil := by
    unfold numbered marker
    simp
  slash := by
    intro hmem
    obtain h | h := mem_numbered hmem
    · exact (safeName_plain name).1 h
    · exact not_mem_marker (by decide) (by decide) n h
  backslash := by
    intro hmem
    obtain h | h := mem_numbered hmem
    · exact (safeName_plain name).2 h
    · exact not_mem_marker (by decide) (by decide) n h
  extension_eq := extension_append (not_mem_marker (by decide) (by decide) n) _

section one

variable (F : CaseFold) (used : List (List Char)) (name : List Char)

/-- **The name of one file** is free and keeps the extension, and it fits exactly when a free name does. -/
theorem uniqueLogicalName_spec :
    ∃ logicalName, (∀ fuel, used.length < fuel → uniqueLogicalName F fuel used name = some logicalName) ∧
      F.casefold logicalName ∉ used ∧ Named name logicalName ∧
      (logicalName.length ≤ 255 ↔ Fits F used (safeName name)) := by
  by_cases htaken : F.casefold (safeName name) ∈ used
  · obtain ⟨m, hsearch⟩ := search_ends (casefold_numbered_injective (F := F) (safeName name)) 2 (Nat.lt_succ_self used.length)
    obtain ⟨hle, hfree, hbefore⟩ := search_spec hsearch
    refine ⟨numbered (safeName name) m, ?_, hfree, named_numbered name m, ?_⟩
    · intro fuel hfuel
      unfold uniqueLogicalName
      rw [if_pos htaken, search_mono hsearch hfuel]
      rfl
    · rw [length_numbered_le]
      constructor
      · exact fun hfits => .inr ⟨m, hle, hfits, hfree⟩
      · rintro (hown | ⟨n, hn, hfits, hn_free⟩)
        · exact absurd htaken hown
        · have hfirst : m ≤ n := by
            by_contra hlt
            exact hn_free (hbefore n hn (by omega))
          have hmarker := marker_mono hfirst
          omega
  · refine ⟨safeName name, ?_, htaken, named_safe name, ?_⟩
    · intro fuel hfuel
      unfold uniqueLogicalName
      rw [if_neg htaken]
    · exact ⟨fun _ => .inl htaken, fun _ => length_safeName_le name⟩

end one

/-! ### The names of all files -/

/-- Every file, when its turn comes, finds a free name that fits. -/
def Roomy (F : CaseFold) (fuel : ℕ) : List (List Char) → List InputFile → Prop
  | _, [] => True
  | used, file :: files => Fits F used (safeName file.displayName) ∧
      ∀ logicalName ∈ uniqueLogicalName F fuel used file.displayName, Roomy F fuel (F.casefold logicalName :: used) files

/-- The rows of the files, after these names are used. -/
theorem bindInputs_spec (F : CaseFold) (files : List InputFile) (used : List (List Char)) (ordinal : ℕ) :
    ∃ rows, (∀ fuel, used.length + files.length < fuel → bindInputs F fuel files used ordinal = some rows) ∧
      (rows.map fun row => F.casefold row.logicalName).Nodup ∧ (∀ row ∈ rows, F.casefold row.logicalName ∉ used) ∧
      rows.map BoundInput.ordinal = List.range' ordinal files.length ∧
      List.Forall₂ (fun file row => row.fileId = file.fileId ∧ Named file.displayName row.logicalName) files rows ∧
      ∀ fuel, used.length + files.length < fuel →
        ((∀ row ∈ rows, row.logicalName.length ≤ 255) ↔ Roomy F fuel used files) := by
  induction files generalizing used ordinal with
  | nil => exact ⟨[], fun _ _ => rfl, by simp, by simp, rfl, .nil, fun _ _ => by simp [Roomy]⟩
  | cons file files ih =>
      obtain ⟨logicalName, hname, hfree, hnamed, hfits⟩ := uniqueLogicalName_spec F used file.displayName
      obtain ⟨rows, hrows, hnodup, hunused, hordinals, hforall, hroomy⟩ := ih (F.casefold logicalName :: used) (ordinal + 1)
      have hlength : ∀ fuel, used.length + (file :: files).length < fuel →
          used.length < fuel ∧ (F.casefold logicalName :: used).length + files.length < fuel := by
        intro fuel hfuel
        simp only [List.length_cons] at hfuel ⊢
        omega
      refine ⟨⟨file.fileId, ordinal, logicalName⟩ :: rows, ?_, ?_, ?_, ?_, .cons ⟨rfl, hnamed⟩ hforall, ?_⟩
      · intro fuel hfuel
        obtain ⟨hone, hrest⟩ := hlength fuel hfuel
        unfold bindInputs
        rw [hname fuel hone]
        dsimp only [Option.bind_eq_bind, Option.bind_some]
        rw [hrows fuel hrest]
        rfl
      · rw [List.map_cons, List.nodup_cons]
        refine ⟨?_, hnodup⟩
        intro hmem
        obtain ⟨row, hrow, heq⟩ := List.mem_map.mp hmem
        exact hunused row hrow (heq ▸ List.mem_cons_self)
      · intro row hrow
        obtain rfl | hrow := List.mem_cons.mp hrow
        · exact hfree
        · exact fun hmem => hunused row hrow (List.mem_cons_of_mem _ hmem)
      · rw [List.map_cons, hordinals]
        rfl
      · intro fuel hfuel
        obtain ⟨hone, hrest⟩ := hlength fuel hfuel
        rw [List.forall_mem_cons, hroomy fuel hrest, Roomy, hname fuel hone]
        simp only [Option.mem_def, Option.some.injEq, forall_eq']
        exact and_congr_left' hfits

/-- **The names of attached files** are distinct with case ignored, and each is a name for its file; they all fit exactly
when every file, when its turn comes, finds a free name that fits. -/
theorem inputs_named (F : CaseFold) (files : List InputFile) :
    ∃ rows, (∀ fuel, files.length < fuel → bindInputs F fuel files [] 0 = some rows) ∧
      (rows.map fun row => F.casefold row.logicalName).Nodup ∧
      List.Forall₂ (fun file row => row.fileId = file.fileId ∧ Named file.displayName row.logicalName ∧
        (Clean file.displayName → extension row.logicalName = extension file.displayName)) files rows ∧
      ((∀ row ∈ rows, row.logicalName.length ≤ 255) ↔ Roomy F (files.length + 1) [] files) := by
  obtain ⟨rows, hrows, hnodup, -, -, hforall, hroomy⟩ := bindInputs_spec F files [] 0
  simp only [List.length_nil, Nat.zero_add] at hrows hroomy
  refine ⟨rows, hrows, hnodup, hforall.imp ?_, hroomy _ (Nat.lt_succ_self _)⟩
  intro file row hrow
  exact ⟨hrow.1, hrow.2, hrow.2.extension_clean⟩

/-! ### A name that is all extension -/

/-- `str.casefold` on ASCII. -/
def asciiFold : CaseFold where
  fold c := [if 'A' ≤ c ∧ c ≤ 'Z' then c.toLower else c]
  dash := by decide
  digit c hc := by
    have hsmall : ¬('A' ≤ c ∧ c ≤ 'Z') := by
      rintro ⟨hlow, -⟩
      simp only [Char.isDigit, Bool.and_eq_true, decide_eq_true_eq] at hc
      have hle : (65 : UInt32) ≤ 57 := UInt32.le_trans hlow hc.2
      exact absurd hle (by decide)
    rw [if_neg hsmall]

/-- A dot and 254 letters. -/
def allExtension : List Char := '.' :: List.replicate 254 'x'

theorem allExtension_stored : 1 ≤ allExtension.length ∧ allExtension.length ≤ 255 := by
  unfold allExtension
  rw [List.length_cons, List.length_replicate]
  omega

/-- Two files with this name. -/
def twins : List InputFile := [⟨1, allExtension, allExtension_stored⟩, ⟨2, allExtension, allExtension_stored⟩]

theorem twins_overlong : ∃ rows, (∀ fuel, 2 < fuel → bindInputs asciiFold fuel twins [] 0 = some rows) ∧
    ∃ row ∈ rows, 255 < row.logicalName.length := by
  obtain ⟨rows, hrows, -, -, -, -, hroomy⟩ := bindInputs_spec asciiFold twins [] 0
  have hsafe : safeName allExtension = allExtension := by decide +kernel
  have hextension : (extension allExtension).length = 255 := by decide +kernel
  refine ⟨rows, hrows, ?_⟩
  by_contra hfits
  simp only [not_exists, not_and, Nat.not_lt] at hfits
  -- the second file finds the name taken, and no number fits
  have hsecond := (((hroomy 3 (by decide)).mp hfits).2 _ rfl).1
  dsimp only at hsecond
  rw [hsafe] at hsecond
  obtain hfree | ⟨n, -, hfits, -⟩ := hsecond
  · exact hfree List.mem_cons_self
  · have hmarker : 0 < (marker n).length := Nat.succ_pos _
    omega

end HpAgent.Files
