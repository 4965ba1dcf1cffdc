import HpAgent.Library.Urls
import Mathlib.Data.List.Infix

/-! # Fetching a page

`readBytes` follows a page through at most five redirects.  Every hop is checked (`checkScope`), its host is resolved once
and the request goes to the address of that answer, with the host of `httpx.URL` in its `Host` header.

The checked host is the name that IDNA 2003 makes of the host of `urlsplit`; `httpx.URL` reads the URL itself.  What the
standard library and `httpx` make of a text is a parameter (`Std`) with the laws they follow. -/

namespace HpAgent.Retrieval

open Library.Urls

/-! ### What texts mean -/

/-- `ipaddress.ip_address`. -/
structure Address where
  isGlobal : Bool
  isMulticast : Bool
deriving DecidableEq, Repr

/-- `httpx.URL`: the host as it is sent, an address without its brackets. -/
structure HttpxUrl where
  scheme : Text
  host : Text
  port : Option ℕ

/-- The port that is connected to. -/
def HttpxUrl.effectivePort (p : HttpxUrl) : ℕ := p.port.getD (if p.scheme = "https".toList then 443 else 80)

/-- `URL.netloc`. -/
def HttpxUrl.netloc (p : HttpxUrl) : Text :=
  (if ':' ∈ p.host then '[' :: (p.host ++ [']']) else p.host) ++
    match p.port with
    | none => []
    | some n => ':' :: (toString n).toList

/-- The port of a URL without the default one of its scheme. -/
def withoutDefault (scheme : Text) : Option ℕ → Option ℕ
  | some n => if (scheme = "http".toList ∧ n = 80) ∨ (scheme = "https".toList ∧ n = 443) then none else some n
  | none => none

/-- A URL of the web without blanks, control characters and a user. -/
def WebUrl (url : Text) (u : SplitUrl) : Prop :=
  (∀ c ∈ url, 32 < c.toNat ∧ c.toNat ≠ 127) ∧ (u.scheme = "http".toList ∨ u.scheme = "https".toList) ∧ u.userinfo = none

/-- What the standard library and `httpx` make of texts: `str.lower`, the encoding of one label, the locations that
`urlsplit` admits, addresses, `urljoin`, `httpx.URL` and the text of a body with its content type. -/
structure Std where
  lower : Text → Text
  toAscii : Text → Option Text
  netlocAllowed : Text → Bool
  address : Text → Option Address
  urljoin : Text → Text → Option Text
  httpxUrl : Text → Option HttpxUrl
  decodeText : Text → List ℕ → Text
  lower_ascii : ∀ t : Text, (∀ c ∈ t, isAscii c = true) → lower t = t.map Char.toLower
  /-- Both parsers read one scheme and one port. -/
  same_authority : ∀ url u n p, urlsplit lower netlocAllowed url = some u → WebUrl url u → u.port = some n →
    httpxUrl url = some p → p.scheme = u.scheme ∧ p.port = withoutDefault u.scheme n

inductive FetchError where
  | denied (reason : String)
  | unicode
  | invalidUrl
  | connection
  | notAddress
  | join
  | status (code : ℕ)
deriving DecidableEq, Repr

variable (std : Std)

/-! ### The scope of a strategy -/

/-- `[a-z0-9](?:[a-z0-9.-]*[a-z0-9])?` with a dot and no two of them in a row. -/
def domainShape (d : Text) : Bool :=
  let plain := fun c : Char => c.isLower || c.isDigit
  d.all (fun c => plain c || c = '.' || c = '-') && d.head?.any plain && d.getLast?.any plain && '.' ∈ d &&
    !(['.', '.'] <:+: d : Bool)

/-- A domain as `SourceStrategy` keeps it. -/
abbrev SourceDomain := { d : Text // domainShape d = true }

/-- The domains of `SourceStrategy`. -/
structure SourceStrategy where
  allowed : List SourceDomain
  excluded : List SourceDomain
deriving DecidableEq

/-- `d.lower().rstrip('.')` in ASCII. -/
def canonicalDomain (d : Text) : Option Text := idnaEncode std.toAscii (bare (std.lower d))

/-- A configured domain. -/
def sourceDomain (d : Text) : Option SourceDomain :=
  (canonicalDomain std d).bind fun value => if h : domainShape value = true then some ⟨value, h⟩ else none

/-- `SourceStrategy(allowed_domains=…, excluded_domains=…)`. -/
def sourceStrategy (allowed excluded : List Text) : Option SourceStrategy := do
  let allowed ← allowed.mapM (sourceDomain std)
  let excluded ← excluded.mapM (sourceDomain std)
  return ⟨allowed, excluded⟩

/-- `domain_matches`. -/
def domainMatches (host : Text) (domains : List SourceDomain) : Bool :=
  domains.any fun d => Within host (bare (std.lower d.1))

/-- The suffixes of names that are not public. -/
def privateSuffixes : List Text := [".localhost".toList, ".local".toList, ".internal".toList]

/-- The checks of `public_web_url` on the host. -/
def publicHost (hostname : Text) : Bool :=
  let host := bare (std.lower hostname)
  host ≠ "localhost".toList && !(privateSuffixes.any fun s => s.isSuffixOf host) &&
    match std.address host with
    | none => '.' ∈ host
    | some a => a.isGlobal && !a.isMulticast

/-- `public_web_url`, without its exceptions. -/
def publicWebUrl (uri : Text) : Option SplitUrl :=
  if uri.any fun c => c.toNat ≤ 32 || c.toNat = 127 then none
  else do
    let u ← urlsplit std.lower std.netlocAllowed uri
    let hostname ← u.hostname std.lower
    let port ← u.port
    if uri.length ≤ 8192 ∧ (u.scheme = "http".toList ∨ u.scheme = "https".toList) ∧ u.userinfo = none ∧
        (port = none ∨ port = some 80 ∨ port = some 443) ∧ publicHost std hostname = true then some u else none

/-- The host of a URL in ASCII. -/
def SplitUrl.asciiHost (u : SplitUrl) : Option Text :=
  idnaEncode std.toAscii (bare (std.lower ((u.hostname std.lower).getD [])))

/-- `check_scope`: the host that is checked. -/
def checkScope (strategy : SourceStrategy) (uri : Text) : Except FetchError Text :=
  match publicWebUrl std uri with
  | none => .error (.denied "invalid_public_url")
  | some u =>
      match SplitUrl.asciiHost std u with
      | none => .error .unicode
      | some host =>
          if (strategy.allowed ≠ [] ∧ domainMatches std host strategy.allowed = false) ∨
              domainMatches std host strategy.excluded = true then
            .error (.denied "source_scope_denied")
          else .ok host

/-! ### Resolution -/

/-- An address that may be connected to. -/
def isPublic (ip : Text) : Bool := (std.address ip).any fun a => a.isGlobal && !a.isMulticast

/-- `resolve_public` with the addresses that `getaddrinfo` finds, none when it fails. -/
def resolvePublic : Option (List Text) → Except FetchError Text
  | none => .error .connection
  | some [] => .error (.denied "non_public_target")
  | some (ip :: rest) => if (ip :: rest).all (isPublic std) then .ok ip else .error (.denied "non_public_target")

/-! ### The loop -/

/-- A request with the URL and the host of its hop. -/
structure Request where
  url : Text
  host : Text
  ip : Text
  port : ℕ
  hostHeader : Text
  sni : Text
deriving DecidableEq, Repr

inductive Event where
  | resolve (host : Text) (port : ℕ)
  | send (r : Request)
deriving DecidableEq, Repr

structure Response where
  statusCode : ℕ
  location : Option Text
  contentType : Option Text
  chunks : List (List ℕ)
deriving DecidableEq, Repr

/-- What comes from outside: the answers of the resolver and of the servers, hop by hop; none when a connection breaks
or the time is over. -/
structure Outside where
  resolver : ℕ → Text → ℕ → Except FetchError Text
  respond : ℕ → Request → Option Response

/-- The default resolver. -/
def Outside.public (getaddrinfo : ℕ → Text → ℕ → Option (List Text)) (respond : ℕ → Request → Option Response) :
    Outside :=
  ⟨fun i host port => resolvePublic std (getaddrinfo i host port), respond⟩

/-- The bytes with the media type, the URL they came from and their text. -/
structure Fetched where
  body : List ℕ
  mime : Text
  url : Text
  html : Text
deriving DecidableEq, Repr

/-- What a call has done and how it ended. -/
structure Run where
  events : List Event
  outcome : Except FetchError Fetched

def Run.stop (e : FetchError) : Run := ⟨[], .error e⟩

/-- Something that was done before. -/
def Run.after (events : List Event) (r : Run) : Run := ⟨events ++ r.events, r.outcome⟩

/-- The chunks of a response, until they are too many. -/
def readBody (maxBytes : ℕ) : List (List ℕ) → List ℕ → Option (List ℕ)
  | [], body => some body
  | chunk :: rest, body => if maxBytes < (body ++ chunk).length then none else readBody maxBytes rest (body ++ chunk)

def isRedirect (code : ℕ) : Bool := code = 301 || code = 302 || code = 303 || code = 307 || code = 308

/-- The end of a hop that is not redirected. -/
def finish (maxBytes : ℕ) (url : Text) (r : Response) : Except FetchError Fetched :=
  if 200 ≤ r.statusCode ∧ r.statusCode ≤ 299 then
    match readBody maxBytes r.chunks [] with
    | none => .error (.denied "response_too_large")
    | some body =>
        let contentType := r.contentType.getD "text/html".toList
        .ok ⟨body, (partition ';' contentType).1, url, std.decodeText contentType body⟩
  else .error (.status r.statusCode)

/-- The request of a hop. -/
def requestOf (url host ip : Text) (logical : HttpxUrl) : Request where
  url := url
  host := host
  ip := ip
  port := logical.effectivePort
  hostHeader := logical.netloc
  sni := host

/-- The hops that are left, from the one with this number on. -/
def hops (strategy : SourceStrategy) (outside : Outside) (maxBytes : ℕ) : ℕ → ℕ → Text → Run
  | 0, _, _ => .stop (.denied "redirect_limit")
  | left + 1, i, current =>
      match checkScope std strategy current with
      | .error e => .stop e
      | .ok host =>
          match std.httpxUrl current with
          | none => .stop .invalidUrl
          | some logical =>
              let resolved := Run.after [.resolve host logical.effectivePort]
              match outside.resolver i host logical.effectivePort with
              | .error e => resolved (.stop e)
              | .ok ip =>
                  if std.address ip = none then resolved (.stop .notAddress)
                  else if isPublic std ip = false then resolved (.stop (.denied "non_public_target"))
                  else
                    let request := requestOf current host ip logical
                    let sent := Run.after [.resolve host logical.effectivePort, .send request]
                    match outside.respond i request with
                    | none => sent (.stop .connection)
                    | some response =>
                        if isRedirect response.statusCode then
                          match response.location.filter (· ≠ []) with
                          | none => sent (.stop (.denied "invalid_redirect"))
                          | some location =>
                              match std.urljoin current location with
                              | none => sent (.stop .join)
                              | some next => sent (hops strategy outside maxBytes left (i + 1) next)
                        else sent ⟨[], finish std maxBytes current response⟩

/-- `read_bytes`. -/
def readBytes (strategy : SourceStrategy) (outside : Outside) (maxBytes : ℕ) (uri : Text) : Run :=
  hops std strategy outside maxBytes 6 0 uri

end HpAgent.Retrieval
