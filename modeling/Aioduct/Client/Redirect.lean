import Aioduct.Client.Prepare

/-!
# Redirects

`redirect.rs`, `resolve_redirect` of `client/mod.rs` and `process_redirect` of
`client/request_flow.rs`. Joining URLs is left to a library. Which hosts the HSTS store upgrades is
an argument.
-/

namespace Aioduct.Client

open Wire Http

inductive RedirectAction where
  | follow
  | stop

inductive RedirectPolicy where
  | none
  | limited (max : Nat)
  | custom (max : Nat) (decide : Uri → Uri → StatusCode → Method → RedirectAction)

namespace RedirectPolicy

def maxRedirects : RedirectPolicy → Nat
  | .none => 0
  | .limited max => max
  | .custom max _ => max

def check (policy : RedirectPolicy) (current next : Uri) (status : StatusCode) (method : Method) :
    RedirectAction :=
  match policy with
  | .none => .stop
  | .limited _ => .follow
  | .custom _ decide => decide current next status method

def isNone : RedirectPolicy → Bool
  | .none => true
  | _ => false

end RedirectPolicy

/-- `url::Url`, as far as it is looked at. -/
structure Url where
  scheme : Bytes
  host : Option Bytes
  port : Option UInt16 := .none
  path : Bytes
  query : Option Bytes := .none
  fragment : Option Bytes := .none

/-- The URL library, with the texts of its errors. -/
class UrlParser where
  parse : Bytes → Except Bytes Url
  join : Url → Bytes → Except Bytes Url
  /-- The text of the URL, read as a URI. -/
  toUri : Url → Except Bytes Uri
  /-- The host of a special scheme is in lower case. -/
  toUri_host : ∀ {url uri host}, url.scheme = ascii "http" ∨ url.scheme = ascii "https" →
    toUri url = .ok uri → hostOf uri = some host → lowercase host = host

/-- Absolute `http` and `https` URLs of a host and a path, in plain ASCII. -/
def parsePlainUrl (text : Bytes) : Except Bytes Url :=
  match splitOnce (ascii "://") text with
  | none => .error (ascii "relative URL without a base")
  | some (scheme, rest) =>
    if lowercase scheme == ascii "http" || lowercase scheme == ascii "https" then
      let path := rest.dropWhile (· != byte '/')
      .ok { scheme := lowercase scheme
            host := some (lowercase (rest.takeWhile (· != byte '/')))
            path := if path.isEmpty then ascii "/" else path }
    else .error (ascii "relative URL without a base")

@[reducible] def UrlParser.plain : UrlParser where
  parse := parsePlainUrl
  join := fun _ location => parsePlainUrl location
  toUri := fun url => .ok
    { scheme := some url.scheme
      authority := url.host.map fun host => ⟨lowercase host, lowercase host, url.port⟩
      path := url.path
      query := url.query
      pathAndQuery := some ⟨url.path⟩ }
  toUri_host := by
    rintro url uri host - huri hhost
    cases huri
    simp only [hostOf, Option.map_map, Option.map_eq_some_iff] at hhost
    obtain ⟨given, -, rfl⟩ := hhost
    exact lowercase_lowercase given

def invalidRedirectUrl (message : Bytes) : Error :=
  .invalidUrl (ascii "invalid redirect URL: " ++ message)

/-- Only an `http` or `https` target with a host is followed. -/
def checkTarget (next : Url) : Except Error Unit :=
  if !(next.scheme == ascii "http" || next.scheme == ascii "https") then
    .error (.redirect (ascii "redirect target scheme must be http or https, got `" ++ next.scheme ++
      ascii "`"))
  else if next.host.all List.isEmpty then
    .error (.redirect (ascii "redirect target must include a host"))
  else .ok ()

def inheritFragment (next : Url) (originalFragment : Option Bytes) : Url :=
  match next.fragment, originalFragment with
  | none, some fragment => if fragment.isEmpty then next else { next with fragment := some fragment }
  | _, _ => next

def requireBase (base : Uri) : Except Error Unit :=
  if base.scheme.isNone then .error (.invalidUrl (ascii "missing scheme in base"))
  else if base.authority.isNone then .error (.invalidUrl (ascii "missing authority in base"))
  else .ok ()

def resolveRedirect [UrlParser] (base : Uri) (location : Bytes) (originalFragment : Option Bytes) :
    Except Error (Uri × Option Bytes) := do
  requireBase base
  let baseUrl ← (UrlParser.parse base.display).mapError Error.invalidUrl
  let next ← (UrlParser.join baseUrl location).mapError invalidRedirectUrl
  checkTarget next
  let next := inheritFragment next originalFragment
  let uri ← (UrlParser.toUri next).mapError invalidRedirectUrl
  pure (uri, next.fragment)

/-- The authority of an upgraded URI: the default ports are dropped. -/
def upgradedAuthority (authority : Authority) : Authority :=
  match authority.port with
  | none => ⟨authority.host, authority.host, none⟩
  | some port =>
    if port = 80 ∨ port = 443 then ⟨authority.host, authority.host, none⟩
    else ⟨authority.host ++ ascii ":" ++ ascii (toString port.toNat), authority.host, some port⟩

/-- The text `https://authority/path?query` is read back as the URI of these parts. -/
def maybeUpgradeHsts (shouldUpgrade : Bytes → Bool) (uri : Uri) : Uri :=
  match uri.authority with
  | some authority =>
    if uri.scheme == some (ascii "http") && shouldUpgrade authority.host then
      { uri with
        scheme := some (ascii "https")
        authority := some (upgradedAuthority authority)
        pathAndQuery := some (uri.pathAndQuery.getD ⟨ascii "/"⟩) }
    else uri
  | none => uri

def effectivePort (uri : Uri) : UInt16 :=
  (uri.authority.bind Authority.port).getD (if isHttps uri then 443 else 80)

def sameOrigin (a b : Uri) : Bool :=
  a.scheme == b.scheme && (hostOf a).any (fun host => eqIgnoreCase host ((hostOf b).getD [])) &&
    effectivePort a == effectivePort b

def dropCredentials (sensitiveHeaders : List HeaderName) (headers : MarkedHeaderMap) :
    MarkedHeaderMap :=
  let headers := ((headers.remove .authorization).remove .cookie).remove .proxyAuthorization
  let marked := (headers.lines.filter fun line => line.2.sensitive).map Prod.fst
  sensitiveHeaders.foldl MultiMap.remove (marked.foldl MultiMap.remove headers)

/-- The text of the `Referer` line on the way from `current` to `next`. -/
def refererText (current next : Uri) : Bytes :=
  current.scheme.getD (ascii "http") ++ ascii "://" ++
    ((current.authority.map Authority.text).getD [] ++
      if sameOrigin current next then current.path else [])

def isDowngrade (current next : Uri) : Bool := isHttps current && !isHttps next

def setReferer (enabled : Bool) (current next : Uri) (headers : MarkedHeaderMap) :
    MarkedHeaderMap :=
  if enabled && !isDowngrade current next then
    match HeaderValue.fromStr (refererText current next) with
    | some value => headers.insert .referer ⟨value, false⟩
    | none => headers
  else headers

def updateHost (next : Uri) (headers : MarkedHeaderMap) : MarkedHeaderMap :=
  match next.authority with
  | some authority =>
    if headers.containsKey .host then
      match HeaderValue.fromStr authority.text with
      | some value => headers.insert .host ⟨value, false⟩
      | none => headers
    else headers
  | none => headers

def dropContentHeaders (headers : MarkedHeaderMap) : MarkedHeaderMap :=
  ((headers.remove .contentType).remove .contentLength).remove .contentEncoding

structure RedirectSettings where
  policy : RedirectPolicy := .limited 10
  referer : Bool := false
  sensitiveHeaders : List HeaderName := []

structure Redirection where
  uri : Uri
  method : Method
  body : Option RequestBody
  headers : MarkedHeaderMap
  fragment : Option Bytes

def isGetOrHead (method : Method) : Bool := method == .get || method == .head

def rewriteMethod (status : StatusCode) (method : Method) (bodyForReplay : Option Bytes)
    (headers : MarkedHeaderMap) : Except Error (Method × Option RequestBody × MarkedHeaderMap) :=
  if status = 301 ∨ status = 302 ∨ status = 303 then
    if isGetOrHead method then .ok (method, none, headers)
    else .ok (.get, none, dropContentHeaders headers)
  else if status = 307 ∨ status = 308 then
    match bodyForReplay with
    | some bytes => .ok (method, some (.buffered bytes), headers)
    | none =>
      if isGetOrHead method then .ok (method, none, headers)
      else .error (.redirect (ascii "cannot replay streaming body for 307/308 redirect"))
  else .error (.redirect (ascii "unexpected redirect status"))

def redirectHeaders (settings : RedirectSettings) (current next : Uri)
    (headers : MarkedHeaderMap) : MarkedHeaderMap :=
  let headers := updateHost next headers
  let headers :=
    if sameOrigin current next then headers else dropCredentials settings.sensitiveHeaders headers
  setReferer settings.referer current next headers

def locationOf (responseHeaders : HeaderMap) : Except Error Bytes :=
  match responseHeaders.get .location with
  | none => .error (.redirect (ascii "missing Location header"))
  | some value =>
    match value.toStr with
    | none => .error (.other HeaderValue.toStrError)
    | some location => .ok location

/-- `none` if the policy does not follow. -/
def followRedirect (settings : RedirectSettings) (status : StatusCode) (current next : Uri)
    (method : Method) (bodyForReplay : Option Bytes) (headers : MarkedHeaderMap)
    (fragment : Option Bytes) : Except Error (Option Redirection) :=
  match settings.policy.check current next status method with
  | .stop => .ok none
  | .follow => do
    let (method, body, headers) ← rewriteMethod status method bodyForReplay headers
    pure (some ⟨next, method, body, redirectHeaders settings current next headers, fragment⟩)

def processRedirect [UrlParser] (settings : RedirectSettings) (shouldUpgrade : Bytes → Bool)
    (status : StatusCode) (responseHeaders : HeaderMap) (current : Uri) (method : Method)
    (bodyForReplay : Option Bytes) (headers : MarkedHeaderMap) (originalFragment : Option Bytes) :
    Except Error (Option Redirection) := do
  let location ← locationOf responseHeaders
  let (next, fragment) ← resolveRedirect current location originalFragment
  followRedirect settings status current (maybeUpgradeHsts shouldUpgrade next) method bodyForReplay
    headers fragment

end Aioduct.Client
