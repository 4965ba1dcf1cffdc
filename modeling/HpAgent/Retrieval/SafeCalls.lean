import HpAgent.Retrieval.Fetcher

/-! # Safe calls of the fetcher

A call is `Safe` when every request goes to a public address and a web port in the name of the host that was checked, right
after the one resolution of this host, and the domains admit the host as they were configured.

* `hopped`: what one hop can do.
* `sent_hops`, `paired_hops`, `length_hops`, `body_hops`: the requests, their resolutions and the bounds, over all hops.
* `fetch_safe_iff`: the header names the host that was checked and the domains are enforced, exactly for pages whose URLs
  are `Plain`.
* `full_stop_passes`: a page of an excluded domain that is fetched. -/

namespace HpAgent.Retrieval

open Library.Urls

variable (std : Std)

/-! ### What is promised -/

/-- The events in pairs: every request comes right after the one resolution of its host, whose answer it goes to. -/
def Paired (resolver : ℕ → Text → ℕ → Except FetchError Text) : ℕ → List Event → Prop
  | _, [] => True
  | _, [.resolve _ _] => True
  | i, .resolve host port :: .send r :: rest =>
      r.host = host ∧ r.port = port ∧ resolver i host port = .ok r.ip ∧ Paired resolver (i + 1) rest
  | _, _ => False

/-- The requests of a run. -/
def Run.requests (run : Run) : List Request :=
  run.events.filterMap fun
    | .resolve _ _ => none
    | .send r => some r

/-- The name in a `Host` header, without the port. -/
def headerHost : Text → Text
  | '[' :: rest => rest.takeWhile (· ≠ ']')
  | header => header.takeWhile (· ≠ ':')

/-- Two spellings of one name: the case and a dot at the end do not matter. -/
def SameName (a b : Text) : Prop := bare (std.lower a) = bare (std.lower b)

/-- The host is in none of the domains as they were configured. -/
def Outdomain (domains : List Text) (host : Text) : Prop :=
  ∀ d ∈ domains, ∀ c, canonicalDomain std d = some c → ¬Within (bare host) c

/-- The domains as they were configured admit the host. -/
def Enforced (allowed excluded : List Text) (host : Text) : Prop :=
  (allowed = [] ∨ ∃ d ∈ allowed, ∃ c, canonicalDomain std d = some c ∧ Within (bare host) c) ∧
    Outdomain std excluded host

/-- A request goes to a public address and a web port, in the name of the host that was checked, which the domains admit. -/
structure SafeRequest (allowed excluded : List Text) (strategy : SourceStrategy) (r : Request) : Prop where
  target : isPublic std r.ip = true
  port : r.port = 80 ∨ r.port = 443
  accepted : checkScope std strategy r.url = .ok r.host
  sni : r.sni = r.host
  header : SameName std (headerHost r.hostHeader) r.host
  enforced : Enforced std allowed excluded r.host

/-- The requests of a run are safe, each after one resolution, at most six, and a body is not too long. -/
structure Safe (allowed excluded : List Text) (strategy : SourceStrategy) (outside : Outside) (maxBytes : ℕ) (run : Run) :
    Prop where
  requests : ∀ r ∈ run.requests, SafeRequest std allowed excluded strategy r
  paired : Paired outside.resolver 0 run.events
  six : run.requests.length ≤ 6
  body : ∀ f, run.outcome = .ok f → f.body.length ≤ maxBytes

/-- Both readings of the URL name one host, and its name in ASCII does not end in a dot if an excluded domain has it. -/
def Plain (excluded : List Text) (url : Text) : Prop :=
  ∀ u host logical, publicWebUrl std url = some u → SplitUrl.asciiHost std u = some host →
    std.httpxUrl url = some logical →
      SameName std (headerHost logical.netloc) host ∧ (Closed host ∨ Outdomain std excluded host)

/-! ### Domains -/

section domains

variable {std} {strategy : SourceStrategy} {host : Text} {allowed excluded : List Text}

theorem plain_fixed {c : Char} (h : c.isLower = true ∨ c.isDigit = true ∨ c = '.' ∨ c = '-') :
    isAscii c = true ∧ c.toLower = c := by
  have hrange : c.toNat < 65 ∨ 90 < c.toNat ∧ c.toNat < 128 := by
    rcases h with h | h | rfl | rfl
    · change (decide (c.val ≥ 'a'.val) && decide (c.val ≤ 'z'.val)) = true at h
      simp only [Bool.and_eq_true, decide_eq_true_eq, ge_iff_le, UInt32.le_iff_toNat_le] at h
      have hlow : 97 ≤ c.toNat := h.1
      have hhigh : c.toNat ≤ 122 := h.2
      omega
    · have hhigh : c.toNat ≤ 57 := (Char.isDigit_iff_toNat.mp h).2
      omega
    · decide
    · decide
  refine ⟨decide_eq_true (by omega), dif_neg ?_⟩
  rintro ⟨hlow, hhigh⟩
  have hlow : 65 ≤ c.toNat := UInt32.le_iff_toNat_le.mp hlow
  have hhigh : c.toNat ≤ 90 := UInt32.le_iff_toNat_le.mp hhigh
  omega

theorem shape_plain {d : Text} (h : domainShape d = true) :
    (∀ c ∈ d, c.isLower = true ∨ c.isDigit = true ∨ c = '.' ∨ c = '-') ∧ Closed d ∧ d ≠ [] := by
  simp only [domainShape, Bool.and_eq_true, List.all_eq_true, Bool.or_eq_true, decide_eq_true_eq] at h
  obtain ⟨⟨⟨⟨hall, -⟩, hlast⟩, hdot⟩, -⟩ := h
  refine ⟨fun c hc => by simpa [or_assoc] using hall c hc, ?_, List.ne_nil_of_mem hdot⟩
  intro hend
  rw [hend] at hlast
  revert hlast
  decide

/-- The domains of a strategy are as they are compared. -/
theorem bare_lower_domain (d : SourceDomain) : bare (std.lower d.1) = d.1 := by
  obtain ⟨hplain, hclosed, -⟩ := shape_plain d.2
  have hfixed : ∀ c ∈ d.1, isAscii c = true ∧ c.toLower = c := fun c hc => plain_fixed (hplain c hc)
  rw [std.lower_ascii d.1 fun c hc => (hfixed c hc).1, List.map_congr_left fun c hc => (hfixed c hc).2, List.map_id']
  exact bare_eq_self hclosed

theorem domainMatches_iff {domains : List SourceDomain} :
    domainMatches std host domains = true ↔ ∃ d ∈ domains, Within host d.1 := by
  unfold domainMatches
  simp only [List.any_eq_true, decide_eq_true_eq, bare_lower_domain]

theorem sourceDomain_ok {d : Text} {value : SourceDomain} (h : sourceDomain std d = some value) :
    canonicalDomain std d = some value.1 := by
  unfold sourceDomain at h
  obtain ⟨c, hc, h⟩ := Option.bind_eq_some_iff.mp h
  split at h
  · rw [hc, ← Option.some.inj h]
  · cases h

/-- A host is within the domains as they were configured when it is within those of the strategy. -/
theorem within_iff {raw : List Text} {domains : List SourceDomain} (h : raw.mapM (sourceDomain std) = some domains) :
    (∃ d ∈ raw, ∃ c, canonicalDomain std d = some c ∧ Within host c) ↔ ∃ d ∈ domains, Within host d.1 := by
  induction raw generalizing domains with
  | nil =>
      rw [List.mapM_nil] at h
      obtain rfl := Option.some.inj h
      simp
  | cons d rest ih =>
      rw [List.mapM_cons] at h
      obtain ⟨value, hvalue, h⟩ := Option.bind_eq_some_iff.mp h
      obtain ⟨values, hvalues, h⟩ := Option.bind_eq_some_iff.mp h
      obtain rfl := Option.some.inj h
      have hfirst : (∃ c, canonicalDomain std d = some c ∧ Within host c) ↔ Within host value.1 := by
        simp [sourceDomain_ok hvalue]
      rw [List.exists_mem_cons_iff, List.exists_mem_cons_iff, hfirst, ih hvalues]

theorem sourceStrategy_ok (h : sourceStrategy std allowed excluded = some strategy) :
    allowed.mapM (sourceDomain std) = some strategy.allowed ∧ excluded.mapM (sourceDomain std) = some strategy.excluded := by
  obtain ⟨first, hfirst, h⟩ := Option.bind_eq_some_iff.mp h
  obtain ⟨second, hsecond, h⟩ := Option.bind_eq_some_iff.mp h
  obtain rfl := Option.some.inj h
  exact ⟨hfirst, hsecond⟩

/-- A host within a domain of a strategy does not end in a dot. -/
theorem closed_of_within {d : SourceDomain} (h : Within host d.1) : Closed host := by
  obtain ⟨-, hclosed, hne⟩ := shape_plain d.2
  exact not_not.mp fun hopen => not_within hopen hclosed hne h

end domains

/-! ### The check -/

section check

variable {std} {strategy : SourceStrategy} {host url : Text} {allowed excluded : List Text}

theorem checkScope_ok (h : checkScope std strategy url = .ok host) :
    ∃ u, publicWebUrl std url = some u ∧ SplitUrl.asciiHost std u = some host ∧
      (strategy.allowed = [] ∨ domainMatches std host strategy.allowed = true) ∧
        domainMatches std host strategy.excluded = false := by
  unfold checkScope at h
  split at h
  · cases h
  · next u hurl =>
      refine ⟨u, hurl, ?_⟩
      split at h
      · cases h
      · next host' hhost =>
          split at h
          · cases h
          · next hscope =>
              obtain rfl := Except.ok.inj h
              rw [not_or, not_and_or, not_not, Bool.not_eq_false, Bool.not_eq_true] at hscope
              exact ⟨hhost, hscope.1, hscope.2⟩

/-- What is checked of a URL. -/
theorem publicWebUrl_ok {u : SplitUrl} (h : publicWebUrl std url = some u) :
    urlsplit std.lower std.netlocAllowed url = some u ∧ WebUrl url u ∧
      ∃ port, u.port = some port ∧ (port = none ∨ port = some 80 ∨ port = some 443) := by
  unfold publicWebUrl at h
  split at h
  · cases h
  · next hchars =>
      obtain ⟨v, hv, h⟩ := Option.bind_eq_some_iff.mp h
      obtain ⟨hostname, -, h⟩ := Option.bind_eq_some_iff.mp h
      obtain ⟨port, hport, h⟩ := Option.bind_eq_some_iff.mp h
      split at h
      · next hchecks =>
          obtain rfl := Option.some.inj h
          obtain ⟨-, hscheme, huser, hweb, -⟩ := hchecks
          refine ⟨hv, ⟨fun c hc => ?_, hscheme, huser⟩, port, hport, hweb⟩
          simp only [List.any_eq_true, Bool.or_eq_true, decide_eq_true_eq, not_exists, not_and] at hchars
          have := hchars c hc
          omega
      · cases h

/-- The port of a web URL without a default one is the default one of its scheme. -/
theorem getD_withoutDefault {scheme : Text} (h : scheme = "http".toList ∨ scheme = "https".toList) (n : ℕ) :
    (withoutDefault scheme (some n)).getD (if scheme = "https".toList then 443 else 80) = n := by
  unfold withoutDefault
  rcases h with rfl | rfl <;> by_cases h80 : n = 80 <;> by_cases h443 : n = 443 <;> simp_all

/-- A URL that was checked is fetched from a web port. -/
theorem effectivePort_checked {u : SplitUrl} {logical : HttpxUrl} (h : publicWebUrl std url = some u)
    (hlogical : std.httpxUrl url = some logical) : logical.effectivePort = 80 ∨ logical.effectivePort = 443 := by
  obtain ⟨hsplit, hweb, port, hport, hvalue⟩ := publicWebUrl_ok h
  obtain ⟨hscheme, hauthority⟩ := std.same_authority url u port logical hsplit hweb hport hlogical
  unfold HttpxUrl.effectivePort
  rw [hauthority, hscheme]
  rcases hvalue with rfl | rfl | rfl
  · unfold withoutDefault
    simp only [Option.getD_none]
    split <;> simp
  · exact .inl (getD_withoutDefault hweb.2.1 80)
  · exact .inr (getD_withoutDefault hweb.2.1 443)

/-- The domains are enforced on a host that was accepted, unless its name ends in a dot and is of an excluded domain. -/
theorem enforced_iff (hstrategy : sourceStrategy std allowed excluded = some strategy)
    (h : checkScope std strategy url = .ok host) :
    Enforced std allowed excluded host ↔ Closed host ∨ Outdomain std excluded host := by
  obtain ⟨hallowed, hexcluded⟩ := sourceStrategy_ok hstrategy
  obtain ⟨u, -, -, hin, hout⟩ := checkScope_ok h
  have hwithin : allowed = [] ∨ ∃ d ∈ allowed, ∃ c, canonicalDomain std d = some c ∧ Within (bare host) c := by
    rcases hin with hnone | hmatch
    · left
      rw [hnone] at hallowed
      cases allowed with
      | nil => rfl
      | cons d rest =>
          rw [List.mapM_cons] at hallowed
          obtain ⟨value, -, hallowed⟩ := Option.bind_eq_some_iff.mp hallowed
          obtain ⟨values, -, hallowed⟩ := Option.bind_eq_some_iff.mp hallowed
          cases hallowed
    · right
      obtain ⟨d, hd, hd'⟩ := domainMatches_iff.mp hmatch
      rw [bare_eq_self (closed_of_within hd')]
      exact (within_iff hallowed).mpr ⟨d, hd, hd'⟩
  unfold Enforced
  rw [and_iff_right hwithin]
  constructor
  · exact fun hall => .inr hall
  · rintro (hclosed | hall)
    · intro d hd c hc hwithin
      rw [bare_eq_self hclosed] at hwithin
      have hmatch := (within_iff hexcluded).mp ⟨d, hd, c, hc, hwithin⟩
      rw [← @domainMatches_iff std, hout] at hmatch
      cases hmatch
    · exact hall

end check

/-! ### Hops -/

section hops

variable {std} {strategy : SourceStrategy} {outside : Outside} {maxBytes : ℕ} {host url : Text} {allowed excluded : List Text}

/-- A request as a hop builds it. -/
structure Sent (std : Std) (strategy : SourceStrategy) (r : Request) (logical : HttpxUrl) : Prop where
  accepted : checkScope std strategy r.url = .ok r.host
  parsed : std.httpxUrl r.url = some logical
  built : r = requestOf r.url r.host r.ip logical
  target : isPublic std r.ip = true

/-- What one hop can do: it refuses the URL, gets no address, sends a request, or sends one and goes on. -/
inductive Hopped (std : Std) (strategy : SourceStrategy) (outside : Outside) (maxBytes left i : ℕ) : Run → Prop
  | refused (e : FetchError) : Hopped std strategy outside maxBytes left i (.stop e)
  | resolved (host : Text) (port : ℕ) (e : FetchError) :
      Hopped std strategy outside maxBytes left i (.after [.resolve host port] (.stop e))
  | answered (r : Request) (logical : HttpxUrl) (hsent : Sent std strategy r logical)
      (hresolved : outside.resolver i r.host r.port = .ok r.ip) (outcome : Except FetchError Fetched)
      (hbody : ∀ f, outcome = .ok f → f.body.length ≤ maxBytes) :
      Hopped std strategy outside maxBytes left i (.after [.resolve r.host r.port, .send r] ⟨[], outcome⟩)
  | redirected (r : Request) (logical : HttpxUrl) (hsent : Sent std strategy r logical)
      (hresolved : outside.resolver i r.host r.port = .ok r.ip) (next : Text) :
      Hopped std strategy outside maxBytes left i
        (.after [.resolve r.host r.port, .send r] (hops std strategy outside maxBytes left (i + 1) next))

theorem readBody_length {chunks : List (List ℕ)} {body result : List ℕ} (hbody : body.length ≤ maxBytes)
    (h : readBody maxBytes chunks body = some result) : result.length ≤ maxBytes := by
  induction chunks generalizing body with
  | nil =>
      obtain rfl := Option.some.inj h
      exact hbody
  | cons chunk rest ih =>
      unfold readBody at h
      split at h
      · cases h
      · next hfits => exact ih (not_lt.mp hfits) h

theorem finish_length {response : Response} {f : Fetched} (h : finish std maxBytes url response = .ok f) :
    f.body.length ≤ maxBytes := by
  unfold finish at h
  split at h
  · split at h
    · cases h
    · next body hbody =>
        obtain rfl := Except.ok.inj h
        exact readBody_length (Nat.zero_le _) hbody
  · cases h

theorem hopped (left i : ℕ) (current : Text) :
    Hopped std strategy outside maxBytes left i (hops std strategy outside maxBytes (left + 1) i current) := by
  unfold hops
  split
  · next e _ => exact .refused e
  · next host hscope =>
      split
      · exact .refused .invalidUrl
      · next logical hlogical =>
          dsimp only
          split
          · next e _ => exact .resolved host logical.effectivePort e
          · next ip hip =>
              split
              · exact .resolved host logical.effectivePort .notAddress
              · split
                · exact .resolved host logical.effectivePort _
                · next hpublic =>
                    have hsent : Sent std strategy (requestOf current host ip logical) logical :=
                      ⟨hscope, hlogical, rfl, Bool.not_eq_false _ ▸ hpublic⟩
                    split
                    · exact .answered _ logical hsent hip (.error .connection) fun f hf => by cases hf
                    · next response _ =>
                        split
                        · split
                          · exact .answered _ logical hsent hip (.error _) fun f hf => by cases hf
                          · split
                            · exact .answered _ logical hsent hip (.error _) fun f hf => by cases hf
                            · next next _ => exact .redirected _ logical hsent hip next
                        · exact .answered _ logical hsent hip _ fun f hf => finish_length hf

@[simp] theorem requests_resolved (port : ℕ) (r : Run) : (Run.after [.resolve host port] r).requests = r.requests := rfl

@[simp] theorem requests_sent (port : ℕ) (q : Request) (r : Run) :
    (Run.after [.resolve host port, .send q] r).requests = q :: r.requests := rfl

@[simp] theorem requests_stop (e : FetchError) : (Run.stop e).requests = [] := rfl

/-- What holds of a call that ends at once, and of a hop before calls of which it holds, holds of every call. -/
theorem hops_rule (P : ℕ → ℕ → Run → Prop) (hlimit : ∀ i, P 0 i (.stop (.denied "redirect_limit")))
    (hstep : ∀ left i run, (∀ next, P left (i + 1) (hops std strategy outside maxBytes left (i + 1) next)) →
      Hopped std strategy outside maxBytes left i run → P (left + 1) i run) (left i : ℕ) (current : Text) :
    P left i (hops std strategy outside maxBytes left i current) := by
  induction left generalizing i current with
  | zero => exact hlimit i
  | succ left ih => exact hstep left i _ (fun next => ih (i + 1) next) (hopped left i current)

/-- Every request is one of a hop that was checked. -/
theorem sent_hops (left i : ℕ) (current : Text) :
    ∀ r ∈ (hops std strategy outside maxBytes left i current).requests, ∃ logical, Sent std strategy r logical := by
  apply hops_rule (fun _ _ run => ∀ r ∈ run.requests, ∃ logical, Sent std strategy r logical)
  · simp
  · intro left i run ih h
    cases h with
    | refused e => simp
    | resolved host port e => simp
    | answered r logical hsent hresolved outcome hbody =>
        intro q hq
        obtain rfl := List.mem_singleton.mp hq
        exact ⟨logical, hsent⟩
    | redirected r logical hsent hresolved next =>
        intro q hq
        rw [requests_sent, List.mem_cons] at hq
        rcases hq with rfl | hq
        · exact ⟨logical, hsent⟩
        · exact ih next q hq

theorem paired_hops (left i : ℕ) (current : Text) :
    Paired outside.resolver i (hops std strategy outside maxBytes left i current).events := by
  apply hops_rule (fun _ i run => Paired outside.resolver i run.events)
  · intro i
    trivial
  · intro left i run ih h
    cases h with
    | refused e => trivial
    | resolved host port e => trivial
    | answered r logical hsent hresolved outcome hbody => exact ⟨rfl, rfl, hresolved, trivial⟩
    | redirected r logical hsent hresolved next => exact ⟨rfl, rfl, hresolved, ih next⟩

theorem length_hops (left i : ℕ) (current : Text) :
    (hops std strategy outside maxBytes left i current).requests.length ≤ left := by
  apply hops_rule (fun left _ run => run.requests.length ≤ left)
  · simp
  · intro left i run ih h
    cases h with
    | refused e => simp
    | resolved host port e => simp
    | answered r logical hsent hresolved outcome hbody => exact Nat.succ_le_succ (Nat.zero_le _)
    | redirected r logical hsent hresolved next =>
        have := ih next
        simp only [requests_sent, List.length_cons]
        omega

theorem body_hops (left i : ℕ) (current : Text) (f : Fetched)
    (h : (hops std strategy outside maxBytes left i current).outcome = .ok f) : f.body.length ≤ maxBytes := by
  revert h
  apply hops_rule (fun _ _ run => run.outcome = .ok f → f.body.length ≤ maxBytes)
  · intro i h
    cases h
  · intro left i run ih h
    cases h with
    | refused e => exact fun h => by cases h
    | resolved host port e => exact fun h => by cases h
    | answered r logical hsent hresolved outcome hbody => exact hbody f
    | redirected r logical hsent hresolved next => exact ih next

/-- A request is safe when the page is plain. -/
theorem safeRequest_iff (hstrategy : sourceStrategy std allowed excluded = some strategy) {r : Request}
    {logical : HttpxUrl} (h : Sent std strategy r logical) :
    SafeRequest std allowed excluded strategy r ↔ Plain std excluded r.url := by
  obtain ⟨haccepted, hparsed, hbuilt, htarget⟩ := h
  obtain ⟨u, hurl, hhost, -, -⟩ := checkScope_ok haccepted
  have hheader : r.hostHeader = logical.netloc := by rw [hbuilt]; rfl
  have hsni : r.sni = r.host := by rw [hbuilt]; rfl
  have hport : r.port = logical.effectivePort := by rw [hbuilt]; rfl
  have henforced := enforced_iff hstrategy haccepted
  constructor
  · intro hsafe u' host' logical' hurl' hhost' hparsed'
    obtain rfl := Option.some.inj (hurl.symm.trans hurl')
    obtain rfl := Option.some.inj (hhost.symm.trans hhost')
    obtain rfl := Option.some.inj (hparsed.symm.trans hparsed')
    exact ⟨hheader ▸ hsafe.header, henforced.mp hsafe.enforced⟩
  · intro hplain
    obtain ⟨hname, hscope⟩ := hplain u r.host logical hurl hhost hparsed
    exact
      { target := htarget
        port := hport ▸ effectivePort_checked hurl hparsed
        accepted := haccepted
        sni := hsni
        header := hheader ▸ hname
        enforced := henforced.mpr hscope }

end hops

/-! ### Safe calls -/

/-- A call is safe exactly when the pages it requests are plain. -/
theorem fetch_safe_iff (allowed excluded : List Text) (strategy : SourceStrategy)
    (hstrategy : sourceStrategy std allowed excluded = some strategy) (outside : Outside) (maxBytes : ℕ) (uri : Text) :
    Safe std allowed excluded strategy outside maxBytes (readBytes std strategy outside maxBytes uri) ↔
      ∀ r ∈ (readBytes std strategy outside maxBytes uri).requests, Plain std excluded r.url := by
  have hsent := @sent_hops std strategy outside maxBytes 6 0 uri
  constructor
  · intro hsafe r hr
    obtain ⟨logical, hlogical⟩ := hsent r hr
    exact (safeRequest_iff hstrategy hlogical).mp (hsafe.requests r hr)
  · intro hplain
    refine ⟨fun r hr => ?_, paired_hops 6 0 uri, length_hops 6 0 uri, body_hops 6 0 uri⟩
    obtain ⟨logical, hlogical⟩ := hsent r hr
    exact (safeRequest_iff hstrategy hlogical).mpr (hplain r hr)

/-! ### A full stop of another script -/

/-- Texts of ASCII characters and full stops. -/
def plainStd : Std where
  lower t := t.map Char.toLower
  toAscii label := if label.all isAscii && labelFits label then some (label.map Char.toLower) else none
  netlocAllowed netloc := '[' ∉ netloc && ']' ∉ netloc
  address ip := if ip = "93.184.216.34".toList then some ⟨true, false⟩ else none
  urljoin _ location := some location
  httpxUrl url :=
    (urlsplit (·.map Char.toLower) (fun netloc => '[' ∉ netloc && ']' ∉ netloc) url).bind fun u =>
      (u.hostname (·.map Char.toLower)).bind fun hostname =>
        (idnaEncode (fun label => if label.all isAscii && labelFits label then some (label.map Char.toLower) else none)
          hostname).bind fun host =>
          u.port.map fun port => ⟨u.scheme, host, withoutDefault u.scheme port⟩
  decodeText _ body := body.map Char.ofNat
  lower_ascii _ _ := rfl
  same_authority url u n p hsplit _ hport hparsed := by
    obtain ⟨v, hv, hparsed⟩ := Option.bind_eq_some_iff.mp hparsed
    obtain rfl := Option.some.inj (hsplit.symm.trans hv)
    obtain ⟨hostname, -, hparsed⟩ := Option.bind_eq_some_iff.mp hparsed
    obtain ⟨host, -, hparsed⟩ := Option.bind_eq_some_iff.mp hparsed
    rw [hport] at hparsed
    obtain rfl := Option.some.inj hparsed
    exact ⟨rfl, rfl⟩

/-- Every name has one address, and every page is empty. -/
def oneAddress : Outside :=
  .public plainStd (fun _ _ _ => some ["93.184.216.34".toList]) fun _ _ => some ⟨200, none, none, []⟩

def excludedDomain : List Text := ["example.com".toList]

def excludedStrategy : SourceStrategy := ⟨[], [⟨"example.com".toList, by decide⟩]⟩

/-- The URL of a page of the domain, with an ideographic full stop after the name. -/
def fullStopUrl : Text := "http://example.com".toList ++ [Char.ofNat 0x3002, '/']

def fullStopRequest : Request where
  url := fullStopUrl
  host := "example.com.".toList
  ip := "93.184.216.34".toList
  port := 80
  hostHeader := "example.com.".toList
  sni := "example.com.".toList

theorem sourceStrategy_excluded : sourceStrategy plainStd [] excludedDomain = some excludedStrategy := by
  decide +kernel

/-- A page of an excluded domain is fetched. -/
theorem full_stop_passes :
    sourceStrategy plainStd [] excludedDomain = some excludedStrategy ∧
      ¬Safe plainStd [] excludedDomain excludedStrategy oneAddress 1000
        (readBytes plainStd excludedStrategy oneAddress 1000 fullStopUrl) := by
  refine ⟨sourceStrategy_excluded, fun hsafe => ?_⟩
  have hsent : fullStopRequest ∈ (readBytes plainStd excludedStrategy oneAddress 1000 fullStopUrl).requests := by
    decide +kernel
  have hout := (hsafe.requests _ hsent).enforced.2
  exact hout _ List.mem_cons_self "example.com".toList (by decide +kernel) (by decide +kernel)

/-- `fetch_safe_iff` for that page. -/
theorem fetch_safe_iff_full_stop :
    Safe plainStd [] excludedDomain excludedStrategy oneAddress 1000
        (readBytes plainStd excludedStrategy oneAddress 1000 fullStopUrl) ↔
      ∀ r ∈ (readBytes plainStd excludedStrategy oneAddress 1000 fullStopUrl).requests,
        Plain plainStd excludedDomain r.url :=
  fetch_safe_iff plainStd [] excludedDomain excludedStrategy sourceStrategy_excluded oneAddress 1000 fullStopUrl

end HpAgent.Retrieval
