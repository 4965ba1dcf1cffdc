import HpAgent.Library.Loop
import HpAgent.Research.Terms
import Mathlib.Data.List.Sort

/-! # Excerpts of a source

`evidenceSpans` selects passages of a text that bear on an objective.  The units of the text are its paragraphs, and the
sentences of the paragraphs that are too long.  Passages are grown from them, and a loop takes the best passage each time
until the texts taken fill the limits on their number and on their bytes.

* `units`: the units, in the order of the text.
* `passagesOf`: the passage that begins at each unit.
* `Selection.step`: the body of the loop. -/

namespace HpAgent.Research

open Library Requirements

/-- A passage: where it begins and ends, and the paragraph it begins in. -/
structure Span where
  start : ℕ
  stop : ℕ
  index : ℕ
deriving DecidableEq, Repr

def fragment (text : List Char) (s : Span) : List Char := slice text s.start s.stop

/-! ### Units -/

/-- `\n[ \t]*\n`. -/
def blankLine : Matcher := fun _ s =>
  match s with
  | c :: rest =>
      let n := run (fun d => d = ' ' || d = '\t') rest
      if c = '\n' ∧ (rest.drop n).head? = some '\n' then some (n + 2) else none
  | [] => none

/-- `[.!?。！？]`. -/
def endsClause (c : Char) : Bool := ".!?。！？".toList.contains c

/-- `(?<=[.!?。！？])\s+`. -/
def sentenceBreak : Matcher := fun previous s => if previous.any endsClause then some (run isSpace s) else none

/-- The sentences that are not too long, each found after the one before it. -/
def sentenceUnits (text : List Char) (limit index stop : ℕ) : ℕ → List (List Char) → List Span
  | _, [] => []
  | offset, sentence :: rest =>
      match find text sentence offset stop with
      -- the pieces of a text are found in it (`sentences_found`)
      | none => []
      | some position =>
          let unit := ⟨position, position + sentence.length, index⟩
          (if sentence.length ≤ limit then [unit] else []) ++ sentenceUnits text limit index stop unit.stop rest

/-- The units of the paragraph between these places. -/
def paragraphUnits (text : List Char) (limit index left right : ℕ) : List Span :=
  let raw := slice text left right
  let start := left + raw.length - (raw.dropWhile isSpace).length
  let stop := right - raw.length + (raw.rdropWhile isSpace).length
  if stop ≤ start then []
  else if stop - start ≤ limit then [⟨start, stop, index⟩]
  else sentenceUnits text limit index stop start (split sentenceBreak (slice text start stop))

/-- The units of the paragraphs that begin at these places, numbered from `index` on. -/
def unitsFrom (text : List Char) (limit : ℕ) : ℕ → List ℕ → List Span
  | _, [] => []
  | index, left :: rest => paragraphUnits text limit index left (rest.headD text.length) ++ unitsFrom text limit (index + 1) rest

/-- `_units`. -/
def units (text : List Char) (limit : ℕ) : List Span :=
  unitsFrom text limit 0 (0 :: (spans blankLine text).map Prod.snd)

/-! ### Definitions in the text -/

variable (u : Unicode)

/-- `¶$`. -/
def pilcrowEnds : Matcher := fun _ s => if s = ['¶'] ∨ s = ['¶', '\n'] then some 1 else none

/-- `^async [A-Za-z_]\w*\(`. -/
def asyncSignature (s : List Char) : Bool :=
  startsWith "async " s && match s.drop 6 with
    | c :: rest => (isLetter c || c = '_') && (rest.drop (run u.word rest)).head? = some '('
    | [] => false

/-- `^#{1,6} `. -/
def markdownHeading (s : List Char) : Bool :=
  let n := run (fun c => c = '#') s
  1 ≤ n && n ≤ 6 && (s.drop n).head? = some ' '

/-- `definition`: extracted documentation, a heading, or the signature of an interface. -/
def isDefinition (value : List Char) : Bool :=
  value.length ≤ 160 && (searches pilcrowEnds value || markdownHeading value || startsWith "class " value || asyncSignature u value)

/-- What follows `\w+\.`. -/
def afterDot (s : List Char) : Option (List Char) :=
  match run u.word s, s.drop (run u.word s) with
  | _ + 1, '.' :: rest => some rest
  | _, _ => none

/-- `(?:\w+\.)*([A-Za-z][A-Za-z0-9_]*)`, where what follows the name has to satisfy `after`: the name.  As many words with
dots as there are come first. -/
def dottedName (after : List Char → Bool) : ℕ → List Char → Option (List Char)
  | 0, _ => none
  | fuel + 1, s =>
      let name := s.take (nameLength s)
      ((afterDot u s).bind (dottedName after fuel)).or
        (if name ≠ [] ∧ after (s.drop name.length) then some name else none)

/-- `re.search(r'(?:[\w]+\.)*([A-Za-z][A-Za-z0-9_]*)\(', value)[1]`. -/
def signatureName (value : List Char) : Option (List Char) :=
  value.tails.findSome? fun s => dottedName u (fun rest => rest.head? = some '(') (s.length + 1) s

/-- `re.match(r'class (?:[\w]+\.)*([A-Za-z][A-Za-z0-9_]*)', value)[1]`. -/
def ownerName (value : List Char) : Option (List Char) :=
  if startsWith "class " value then dottedName u (fun _ => true) (value.length + 1) (value.drop 6) else none

/-- Whether each unit is in the scope of a definition that was asked for. -/
def scopesFrom (text : List Char) (named : List (List Char)) : Bool → List Span → List (ℕ × Bool)
  | _, [] => []
  | inScope, s :: rest =>
      let value := fragment text s
      let now :=
        if isDefinition u value then
          match ownerName u value with
          | some owner => u.casefold owner ∈ named
          | none =>
              if value.getLast? = some '¶' ∧ '(' ∉ value ∧ '.' ∉ value then coveredTerms u value named != []
              else if coveredTerms u value named ≠ [] then true
              else inScope
        else inScope
      (s.start, now) :: scopesFrom text named now rest

/-! ### Passages -/

/-- What the selection is about: the text with its units, and the terms to cover. -/
structure Source where
  text : List Char
  units : List Span
  named : List (List Char)
  terms : List (List Char)
  scopes : List (ℕ × Bool)

/-- The source of an objective. -/
def sourceOf (text objective : List Char) (limit : ℕ) : Source :=
  let units := units text limit
  let concepts := namedConcepts u objective
  let first := if concepts ≠ [] then concepts else objectiveTerms u objective
  let defined := (units.map (fragment text)).filterMap fun value =>
    if isDefinition u value then (signatureName u value).map u.casefold else none
  let named := (concepts ++ (objectiveTerms u objective).filter fun t => t ∈ defined).eraseDups
  ⟨text, units, named, if named ≠ [] then named else first, scopesFrom u text named false units⟩

variable (S : Source)

/-- `scopes[start]`; every unit was entered. -/
def Source.scope (start : ℕ) : Bool := (S.scopes.lookup start).getD false

def Source.defines (s : Span) : Bool := isDefinition u (fragment S.text s)

/-- The names that were asked for and that this text has. -/
def Source.names (s : Span) : List (List Char) := coveredTerms u (fragment S.text s) S.named

/-- How far the passage that begins with `first`, and goes to `stop` so far, grows over the units that follow. -/
def Source.growFrom (limit : ℕ) (first : Span) : ℕ → List Span → ℕ
  | stop, [] => stop
  | stop, next :: rest =>
      if strip (slice S.text stop next.start) ≠ [] ∨ limit < next.stop - first.start then stop
      else if S.defines u next ∧ S.scope first.start ∧ ¬S.scope next.start then stop
      else if S.defines u next ∧ S.names u next ≠ []
          ∧ ¬(S.defines u first ∧ ∀ t ∈ S.names u next, t ∈ S.names u first) then stop
      else Source.growFrom limit first next.stop rest

/-- The passage that begins at each unit. -/
def Source.passagesFrom (limit : ℕ) : List Span → List Span
  | [] => []
  | first :: rest =>
      (if S.terms ≠ [] then ⟨first.start, S.growFrom u limit first first.stop rest, first.index⟩ else first)
        :: Source.passagesFrom limit rest

/-- Words of conditions and limits. -/
def restriction : Matcher := fun previous s =>
  (phrase u ["if", "when", "otherwise", "other than", "instead", "not", "only", "unless", "except", "must", "cannot",
    "caveats", "caveat", "limitations", "limitation", "restrictions", "restriction"] previous s).or
    (["不得", "仅", "除非", "限制"].findSome? fun p => if startsWith p s then some p.toList.length else none)

/-- The passage before the first definition that was asked for, if it states a condition; it comes first. -/
def Source.context (limit : ℕ) (candidates : List Span) : Option Span := do
  let head ← S.units.head?
  let span ← candidates.find? fun s => s.start = head.start
  let first ← S.units.find? fun s => S.defines u s && S.names u s != []
  if 0 < first.start ∧ first.start ≤ limit * 2 ∧ span.stop ≤ first.start ∧ searches (restriction u) (fragment S.text span)
  then some span else none

/-! ### The selection -/

/-- The state of the loop; `context` is the passage that is taken first. -/
structure Selection where
  candidates : List Span
  chosen : List Span
  seen : List (List Char)
  covered : List (List Char)
  remaining : ℕ
  context : Option Span

/-- `candidate not in candidates`, one after the other. -/
def addNew (candidates : List Span) (more : List Span) : List Span :=
  more.foldl (fun acc s => if s ∈ acc then acc else acc ++ [s]) candidates

/-- The numbers by which the best passage is chosen. -/
def Source.score (covered : List (List Char)) (s : Span) : List ℤ :=
  let text := fragment S.text s
  let hits := coveredTerms u text S.terms
  let anchor := ((S.units.find? fun v => v.start = s.start).map (fragment S.text)).getD []
  let fresh := (coveredTerms u anchor S.named).filter fun t => t ∉ covered
  [ (if isDefinition u anchor then fresh.length else 0 : ℕ),
    ((hits.filter fun t => t ∉ covered).filter fun t => t ∈ S.named).length,
    (S.scope s.start).toNat,
    (if hits ≠ [] ∨ S.scope s.start then (findall (restriction u) text).length else 0 : ℕ),
    ((S.terms.map fun t => (findall (termAt u t) text).length).sum : ℕ),
    -(s.start : ℤ) ]

/-- The order of tuples. -/
def lexLess : List ℤ → List ℤ → Bool
  | a :: s, b :: t => a < b || (a = b && lexLess s t)
  | _, _ => false

/-- `max(candidates, key=score)`: the first of the best. -/
def Source.best (covered : List (List Char)) (first : Span) (rest : List Span) : Span :=
  rest.foldl (fun m c => if lexLess (S.score u covered m) (S.score u covered c) then c else m) first

def overlaps (s t : Span) : Bool := s.start < t.stop && t.start < s.stop

def inside (s t : Span) : Bool := t.start ≤ s.start && s.stop ≤ t.stop

/-- `[.!?。！？]$`. -/
def endsSentence (s : List Char) : Bool :=
  s.getLast?.any endsClause || (s.getLast? = some '\n' && s.dropLast.getLast?.any endsClause)

/-- A short text that is no sentence. -/
def Source.bare (s : Span) : Bool :=
  S.terms != [] && (fragment S.text s).length < 40 && 40 ≤ (strip S.text).length && !endsSentence (fragment S.text s)

/-- The text has a scope that was asked for, the passage is not in it, and it adds no term. -/
def Source.offTopic (shared : Option Span) (covered : List (List Char)) (s : Span) : Bool :=
  some s ≠ shared && S.scopes.any Prod.snd && !S.scope s.start
    && (coveredTerms u (fragment S.text s) S.terms).all fun t => t ∈ covered

def size (text : List Char) (s : Span) : ℕ := (Utf8.encode (fragment text s)).length

/-- White space made single, and case folded. -/
def normalized (text : List Char) : List Char :=
  u.casefold (strip (sub (fun _ s => some (run isSpace s)) [' '] text))

/-- What becomes of the best passage. -/
def Source.consider (shared : Option Span) (st : Selection) (best : Span) : Selection :=
  let text := fragment S.text best
  let hits := coveredTerms u text S.terms
  if st.chosen.any (overlaps best) then
    -- its units that overlap nothing stay
    let apart := S.units.filter fun v => inside v best && !st.chosen.any (overlaps v)
    { st with candidates := addNew st.candidates apart }
  else if S.offTopic u shared st.covered best then st
  else if S.terms ≠ [] ∧ hits = [] ∧ ¬S.scope best.start ∧ st.chosen ≠ [] then st
  else if S.bare best then st
  else if normalized u text = [] ∨ normalized u text ∈ st.seen then st
  else if st.remaining < size S.text best then
    -- smaller units are tried again, never a part of one
    let smaller := S.units.filter fun v => inside v best && (v.start, v.stop) ≠ (best.start, best.stop)
    { st with candidates := addNew st.candidates smaller }
  else
    { st with
      chosen := st.chosen ++ [best]
      seen := normalized u text :: st.seen
      covered := if some best ≠ shared then st.covered ++ hits else st.covered
      remaining := st.remaining - size S.text best }

/-- The body of the loop; `none` when the loop is left. -/
def Source.step (maxSpans : ℕ) (shared : Option Span) (st : Selection) : Option Selection :=
  match st.candidates with
  | [] => none
  | first :: rest =>
      if st.chosen.length < maxSpans then
        let best :=
          match st.context with
          | some c => if c ∈ st.candidates then c else S.best u st.covered first rest
          | none => S.best u st.covered first rest
        some (S.consider u shared { st with candidates := st.candidates.erase best, context := none } best)
      else none

/-- The loop before its first round. -/
def Source.start (limit maxBytes : ℕ) : Selection :=
  let candidates := S.passagesFrom u limit S.units
  match S.context u limit candidates with
  | some c => ⟨c :: candidates.erase c, [], [], [], maxBytes, some c⟩
  | none => ⟨candidates, [], [], [], maxBytes, none⟩

/-- `sorted`. -/
def bySpan (s t : Span) : Prop := s.start < t.start ∨ (s.start = t.start ∧ (s.stop < t.stop ∨ (s.stop = t.stop ∧ s.index ≤ t.index)))

instance : DecidableRel bySpan := fun _ _ => inferInstanceAs (Decidable (_ ∨ _))

/-- `evidence_spans`; the loop takes fewer than `fuel` rounds, or there is no result. -/
def evidenceSpans (text objective : List Char) (limit maxSpans maxBytes : ℤ) (fuel : ℕ) : Option (Except Exn (List Span)) :=
  if min limit (min maxSpans maxBytes) ≤ 0 then some (.error (.valueError "positive excerpt limits required"))
  else
    let S := sourceOf u text objective limit.toNat
    if S.units = [] then some (.ok [])
    else
      let first := S.start u limit.toNat maxBytes.toNat
      (loop (S.step u maxSpans.toNat first.context) fuel first).map fun st => .ok (st.chosen.insertionSort bySpan)

end HpAgent.Research
