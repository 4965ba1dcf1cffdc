import Mathlib.Data.List.DropRight
import Mathlib.Data.List.Infix

/-! # The parts of a URL

`urlsplit` reads the scheme and the network location of a URL without blanks and control characters, and `SplitUrl` the
user, the host and the port in the location.  What a character is in lower case and which locations are refused besides are
parameters.

`idnaEncode` writes a host name in ASCII, label by label.  Four characters end a label there; a dot at the end is kept, and
a name that is ASCII already is kept as it is.

`Within` says that a host is a domain or one of its subdomains. -/

namespace HpAgent.Library.Urls

abbrev Text := List Char

/-! ### Parts of a text -/

/-- `t.partition(sep)`. -/
def partition (sep : Char) (t : Text) : Text × Option Text :=
  match t.dropWhile (· ≠ sep) with
  | [] => (t, none)
  | _ :: after => (t.takeWhile (· ≠ sep), some after)

/-- `t.rpartition(sep)`. -/
def rpartition (sep : Char) (t : Text) : Option Text × Text :=
  match t.rdropWhile (· ≠ sep) with
  | [] => (none, t)
  | front => (some front.dropLast, t.rtakeWhile (· ≠ sep))

/-- `t.rstrip(".")`. -/
def bare (t : Text) : Text := t.rdropWhile (· = '.')

def isAscii (c : Char) : Bool := c.toNat < 128

/-! ### URLs -/

/-- What `urlsplit` returns, without path, query and fragment. -/
structure SplitUrl where
  scheme : Text
  netloc : Text
deriving DecidableEq, Repr

/-- `scheme_chars`. -/
def schemeChar (c : Char) : Bool := isAscii c && (c.isAlphanum || c = '+' || c = '-' || c = '.')

/-- The scheme in front of the first colon, and what comes after it. -/
def splitScheme (lower : Text → Text) (url : Text) : Text × Text :=
  match partition ':' url with
  | (front, some after) =>
      if (front.head?.any fun c => isAscii c && c.isAlpha) && front.all schemeChar then (lower front, after) else ([], url)
  | (_, none) => ([], url)

/-- The network location of what follows the scheme. -/
def netlocOf (rest : Text) : Text :=
  if ['/', '/'].isPrefixOf rest then (rest.drop 2).takeWhile fun c => c ≠ '/' && c ≠ '?' && c ≠ '#' else []

/-- `urlsplit`, which raises when it refuses the location. -/
def urlsplit (lower : Text → Text) (allowed : Text → Bool) (url : Text) : Option SplitUrl :=
  let parts := splitScheme lower url
  if allowed (netlocOf parts.2) then some ⟨parts.1, netlocOf parts.2⟩ else none

namespace SplitUrl

variable (u : SplitUrl)

/-- `username` and `password`, none unless there is an `@`. -/
def userinfo : Option Text := (rpartition '@' u.netloc).1

/-- `_hostinfo`. -/
def hostinfo : Text × Option Text :=
  let info := (rpartition '@' u.netloc).2
  match partition '[' info with
  | (_, some bracketed) =>
      let inner := partition ']' bracketed
      (inner.1, (partition ':' (inner.2.getD [])).2.filter (· ≠ []))
  | (_, none) =>
      let outer := partition ':' info
      (outer.1, outer.2.filter (· ≠ []))

/-- `hostname`; the zone of an address keeps its case. -/
def hostname (lower : Text → Text) : Option Text :=
  if u.hostinfo.1 = [] then none
  else
    match partition '%' u.hostinfo.1 with
    | (name, some zone) => some (lower name ++ '%' :: zone)
    | (name, none) => some (lower name)

/-- `port`, which raises on what is not a port. -/
def port : Option (Option ℕ) :=
  match u.hostinfo.2 with
  | none => some none
  | some digits =>
      if digits.all Char.isDigit then
        let n := digits.foldl (fun n c => 10 * n + (c.toNat - '0'.toNat)) 0
        if n ≤ 65535 then some (some n) else none
      else none

end SplitUrl

/-! ### Host names in ASCII -/

/-- The characters that end a label. -/
def isDot (c : Char) : Bool := c = '.' || c.toNat = 0x3002 || c.toNat = 0xFF0E || c.toNat = 0xFF61

/-- A label of ASCII characters that is not too long. -/
def labelFits (label : Text) : Bool := 0 < label.length && label.length < 64

/-- `encode("idna")`, with the encoding of one label. -/
def idnaEncode (toAscii : Text → Option Text) (t : Text) : Option Text :=
  if t = [] then some []
  else if t.all isAscii then
    let labels := t.splitOn '.'
    if labels.dropLast.all labelFits && labels.getLast?.all (fun label => label.length < 64) then some t else none
  else
    let labels := t.splitOnP isDot
    if labels.getLast? = some [] then (labels.dropLast.mapM toAscii).map fun parts => ['.'].intercalate parts ++ ['.']
    else (labels.mapM toAscii).map ['.'].intercalate

/-! ### Domains -/

/-- The host is the domain or one of its subdomains. -/
def Within (host domain : Text) : Prop := host = domain ∨ ('.' :: domain) <:+ host

instance (host domain : Text) : Decidable (Within host domain) := inferInstanceAs (Decidable (_ ∨ _))

/-- The name does not end in a dot. -/
def Closed (t : Text) : Prop := t.getLast? ≠ some '.'

instance (t : Text) : Decidable (Closed t) := inferInstanceAs (Decidable (_ ≠ _))

theorem bare_eq_self {t : Text} (h : Closed t) : bare t = t := by
  unfold bare
  refine List.rdropWhile_eq_self_iff.mpr fun hne => ?_
  intro hdot
  exact h (by rw [List.getLast?_eq_some_getLast hne, of_decide_eq_true hdot])

/-- Nothing that ends in a dot is within a domain that does not. -/
theorem not_within {host domain : Text} (hhost : ¬Closed host) (hdomain : Closed domain) (hne : domain ≠ []) :
    ¬Within host domain := by
  have hlast : host.getLast? = some '.' := not_not.mp hhost
  rintro (rfl | ⟨front, rfl⟩)
  · exact hhost hdomain
  · rw [List.getLast?_append_of_ne_nil _ (List.cons_ne_nil _ _), List.getLast?_cons_of_ne_nil hne] at hlast
    exact hdomain hlast

end HpAgent.Library.Urls
