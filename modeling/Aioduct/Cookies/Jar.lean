import Aioduct.Cookies.Parse
import Aioduct.Http.Header
import Aioduct.Wire.Assoc
import Aioduct.Wire.Keyed

/-!
# The cookie jar

`cookie/mod.rs`: cookies by domain behind a lock, which a panic leaves poisoned. Time is read once
for a call. The order in which the hash map is walked is an argument.
-/

namespace Aioduct.Cookies

open Wire Http

abbrev Entries := List (Bytes × List Cookie)

structure CookieJar where
  entries : Entries := []
  poisoned : Bool := false

def Cookie.key (c : Cookie) : Bytes × Option Bytes × Bytes := (c.name, c.domain, c.path)

def cookiesOf (entries : Entries) (domain : Bytes) : List Cookie :=
  (Assoc.get entries domain).getD []

/-- A deletion takes the cookie with the same key out, another cookie replaces it. -/
def storeCookie (entries : Entries) (domain : Bytes) (cookie : Cookie) : Entries :=
  let effectiveDomain := cookie.domain.getD domain
  Assoc.replaceOrAppend entries effectiveDomain
    (Keyed.apply Cookie.key Cookie.expired (cookiesOf entries effectiveDomain) cookie)

namespace CookieJar

def storeLine (now : SystemTime) (domain requestPath : Bytes) (jar : CookieJar)
    (value : HeaderValue) : CookieJar :=
  if jar.poisoned then jar
  else
    match value.toStr with
    | none => jar
    | some line =>
      match parseSetCookie now line domain requestPath with
      | .ok cookie => { jar with entries := storeCookie jar.entries domain cookie }
      | .error .refused => jar
      | .error .overflow => { jar with poisoned := true }

def storeFromResponse (now : SystemTime) (domain requestPath : Bytes) (headers : HeaderMap)
    (jar : CookieJar) : CookieJar :=
  (headers.getAll .setCookie).foldl (storeLine now domain requestPath) jar

def cookies (jar : CookieJar) : List Cookie := jar.entries.flatMap Prod.snd

end CookieJar

structure CookieRequest where
  now : SystemTime
  domain : Bytes
  isSecure : Bool
  path : Bytes
  siteForCookies : Option Bytes

namespace CookieRequest

variable (request : CookieRequest)

def isCrossSite : Bool := request.siteForCookies.any fun site => !isSameSite request.domain site

def selects (storedDomain : Bytes) (c : Cookie) : Bool :=
  let cookieDomain := c.domain.getD storedDomain
  (if c.hostOnly then request.domain == cookieDomain
    else domainMatches request.domain cookieDomain) &&
  (!c.secure || request.isSecure) &&
  pathMatches request.path c.path &&
  c.expiresAt.all (request.now < ·) &&
  (!request.isCrossSite || c.sameSite == some .none)

/-- The selection loop, when the map is walked in the order `order`. -/
def select (order : Entries) : List Cookie :=
  order.flatMap fun entry => entry.2.filter (request.selects entry.1)

end CookieRequest

def Cookie.pair (c : Cookie) : Bytes := c.name ++ ascii "=" ++ c.value

def cookieHeader (cookies : List Cookie) : Bytes :=
  (ascii "; ").intercalate (cookies.map Cookie.pair)

def mergedCookieText (existing : MarkedValue) (header : Bytes) : Bytes :=
  existing.value.toStr.getD [] ++ ascii "; " ++ header

/-- The `Cookie` line of a request after the jar's pairs have been added. -/
def mergeCookieHeader (headers : MarkedHeaderMap) (header : Bytes) (value : HeaderValue) :
    MarkedHeaderMap :=
  match headers.get .cookie with
  | some existing =>
    match HeaderValue.fromStr (mergedCookieText existing header) with
    | some merged => headers.insert .cookie ⟨merged, false⟩
    | none => headers
  | none => headers.insert .cookie ⟨value, false⟩

namespace CookieJar

variable (jar : CookieJar) (order : Entries) (request : CookieRequest)

def matchingCookies : List Cookie :=
  if jar.poisoned then [] else request.select order

def contribution : Option HeaderValue :=
  let cookies := jar.matchingCookies order request
  if cookies.isEmpty then none else HeaderValue.fromStr (cookieHeader cookies)

def applyToRequestTracking (headers : MarkedHeaderMap) : MarkedHeaderMap × Option HeaderValue :=
  match jar.contribution order request with
  | none => (headers, none)
  | some value => (mergeCookieHeader headers value.bytes value, some value)

end CookieJar

inductive JarCall where
  | storeFromResponse (now : SystemTime) (domain requestPath : Bytes) (headers : HeaderMap)
  | applyToRequest (order : Entries) (request : CookieRequest) (headers : MarkedHeaderMap)

/-- What a call leaves behind; sending changes nothing. -/
def CookieJar.call (jar : CookieJar) : JarCall → CookieJar
  | .storeFromResponse now domain requestPath headers =>
    jar.storeFromResponse now domain requestPath headers
  | .applyToRequest _ _ _ => jar

def run (calls : List JarCall) : CookieJar := calls.foldl CookieJar.call {}

end Aioduct.Cookies
