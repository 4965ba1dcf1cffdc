import HpAgent.Library.Matching
import HpAgent.Requirements.Requirement

/-! # The terms of an objective

Which words of an objective a source has to speak of: the names written as code or with capitals (`namedConcepts`), and the
other words that carry meaning (`objectiveTerms`).  `coveredTerms` are the terms that a text contains.

The tables of Unicode are a parameter (`Unicode`): which characters make up words, which are equal up to case, and how case
is folded. -/

namespace HpAgent.Research

open Library Requirements

/-- The tables of Unicode: `\w`, equality under `re.I`, and `casefold()` of a character, which is never empty. -/
structure Unicode where
  word : Char → Bool
  same : Char → Char → Bool
  fold : Char → List Char
  fold_ne : ∀ c, fold c ≠ []

/-- `[A-Za-z]`. -/
def isLetter (c : Char) : Bool := ('a' ≤ c && c ≤ 'z') || ('A' ≤ c && c ≤ 'Z')

/-- `[A-Za-z0-9_]`. -/
def isName (c : Char) : Bool := isLetter c || ('0' ≤ c && c ≤ '9') || c = '_'

/-- `https?://\S+`. -/
def url : Matcher := fun _ s =>
  let scheme := if startsWith "https://" s then 8 else if startsWith "http://" s then 7 else 0
  let n := run (fun c => !isSpace c) (s.drop scheme)
  if scheme = 0 ∨ n = 0 then none else some (scheme + n)

/-- `[A-Za-z][A-Za-z0-9_]{2,}`. -/
def longName : Matcher := fun _ s =>
  match s with
  | c :: rest => if isLetter c && 2 ≤ run isName rest then some (run isName rest + 1) else none
  | [] => none

/-- How long `[A-Za-z][A-Za-z0-9_]*` is here. -/
def nameLength : List Char → ℕ
  | c :: rest => if isLetter c then run isName rest + 1 else 0
  | [] => 0

def backquote : Char := Char.ofNat 96

/-- A name between backquotes, or one that begins with a capital and has at least three characters. -/
def conceptName : Matcher := fun previous s =>
  match s with
  | c :: rest =>
      if c = backquote then
        if 0 < nameLength rest ∧ (rest.drop (nameLength rest)).head? = some backquote then some (nameLength rest + 2) else none
      else if !previous.any isName && 'A' ≤ c && c ≤ 'Z' && 2 ≤ run isName rest then some (run isName rest + 1)
      else none
  | [] => none

/-- `_STOP`: the words of instructions. -/
def stopWords : List (List Char) :=
  ["html", "markdown", "json", "url", "urls", "uri", "uris", "utc", "pdf", "csv", "xml", "utf", "api", "evidenceitem",
    "evidenceid", "evidenceids", "find", "produce", "create", "make", "build", "write", "generate", "investigate",
    "summarize", "analyse", "analyze", "compare", "comparison", "explain", "describe", "research", "report", "evidence",
    "sources", "source", "public", "official", "documentation", "document", "docs", "python", "please", "using", "use",
    "based", "task", "tasks", "technical", "overview", "introduction", "async", "await", "exception", "exceptions",
    "method", "methods", "function", "functions", "property", "properties", "and", "the", "with", "for", "from", "into",
    "about", "this", "that", "all", "only", "not", "are", "can", "how", "what", "which", "their", "these", "those",
    "between", "summary", "differences", "behaviour", "behavior", "examples", "include", "including"].map String.toList

/-- `[A-Z][a-z]+`, the whole text. -/
def capitalised : List Char → Bool
  | c :: rest => 'A' ≤ c && c ≤ 'Z' && rest != [] && rest.all fun d => 'a' ≤ d && d ≤ 'z'
  | [] => false

variable (u : Unicode)

/-- `casefold()`. -/
def Unicode.casefold (s : List Char) : List Char := s.flatMap u.fold

/-- The text begins with `t`, up to case. -/
def Unicode.begins : List Char → List Char → Bool
  | [], _ => true
  | _ :: _, [] => false
  | a :: t, b :: s => u.same a b && Unicode.begins t s

/-- `\b`, between these two characters. -/
def Unicode.boundary (before after : Option Char) : Bool := before.any u.word != after.any u.word

/-- `\b(?:…)\b`, up to case; the first of the phrases that matches. -/
def phrase (phrases : List String) : Matcher := fun previous s =>
  if u.boundary previous s.head? then
    phrases.findSome? fun p =>
      let n := p.toList.length
      if u.begins p.toList s && u.boundary (s.take n).getLast? (s.drop n).head? then some n else none
  else none

/-- `(?<!\w)term(?!\w)`, up to case. -/
def termAt (term : List Char) : Matcher := fun previous s =>
  if !previous.any u.word && u.begins term s && !(s.drop term.length).head?.any u.word then some term.length else none

/-- The token of a match of `conceptName` in `plain`; a capital at the start of a sentence names nothing. -/
def conceptOf (plain : List Char) (place : ℕ × ℕ) : Option (List Char) :=
  let explicit := (plain.drop place.1).head? = some backquote
  let token := if explicit then slice plain (place.1 + 1) (place.2 - 1) else slice plain place.1 place.2
  let before := plain.take place.1
  let trimmed := before.rdropWhile isSpace
  let sentenceStart := trimmed = [] ∨ trimmed.getLast?.any (fun c => ".!?:;。！？：；".toList.contains c)
    ∨ before.getLast? = some '\n'
  if ¬explicit ∧ sentenceStart ∧ capitalised token ∧ (plain.drop place.2).head? = some ' ' then none
  else if u.casefold token ∈ stopWords then none
  else some (u.casefold token)

/-- `named_concepts`. -/
def namedConcepts (objective : List Char) : List (List Char) :=
  let plain := sub url [' '] objective
  let required := (spans conceptName plain).filterMap (conceptOf u plain)
  let known := (findall (phrase u ["gather", "create_task", "wait_for", "as_completed"]) plain).map u.casefold
  (required ++ known).eraseDups.take 32

/-- `objective_terms`. -/
def objectiveTerms (objective : List Char) : List (List Char) :=
  let plain := sub url [' '] objective
  let words := ((findall longName plain).map u.casefold).filter fun w => w ∉ stopWords
  (namedConcepts u objective ++ words).eraseDups.take 32

/-- `covered_terms`. -/
def coveredTerms (text : List Char) (terms : List (List Char)) : List (List Char) :=
  terms.filter fun t => searches (termAt u t) text

end HpAgent.Research
