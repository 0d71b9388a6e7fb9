import Aioduct.Cache.Store
import Aioduct.Cookies.Jar
import Aioduct.DigestFields
import Aioduct.MessageSignatures.Automatic

/-!
# What the client adds to the headers of a request

`netrc.rs` and the helpers of `client/request_flow.rs` that change the headers of a request before
it is sent.
-/

namespace Aioduct.Client

open MessageSignatures (MessageSigner)
open Wire Http Cookies

def isHttps (uri : Uri) : Bool := uri.scheme == some (ascii "https")

def hostOf (uri : Uri) : Option Bytes := uri.authority.map Authority.host

variable (headers : MarkedHeaderMap)

/-- A line that is marked as sensitive in the second map is a line of the first one. -/
def MarksFrom (headers' : MarkedHeaderMap) : Prop :=
  ∀ name value, value.sensitive = true → value ∈ headers'.getAll name →
    value ∈ headers.getAll name

structure NetrcEntry where
  login : Bytes
  password : Bytes

structure Netrc where
  entries : List (Bytes × NetrcEntry)
  default : Option NetrcEntry := none

namespace Netrc

variable (self : Netrc)

def lookup (host : Bytes) : Option NetrcEntry := (Assoc.get self.entries host).or self.default

def isLoopback (host : Bytes) : Bool :=
  host == ascii "localhost" || host == ascii "127.0.0.1" || host == ascii "::1" ||
    host == ascii "[::1]"

/-- The credentials for a URI: only on a secure connection or to this machine. -/
def credentials (uri : Uri) : Option NetrcEntry :=
  let host := (hostOf uri).getD []
  if !isHttps uri && !isLoopback host then none else self.lookup host

def authorization (uri : Uri) : Option HeaderValue :=
  (self.credentials uri).bind fun entry =>
    HeaderValue.fromStr (ascii "Basic " ++
      Base64.standardEncode (entry.login ++ ascii ":" ++ entry.password))

def apply (headers : MarkedHeaderMap) (uri : Uri) : MarkedHeaderMap :=
  if headers.containsKey .authorization then headers
  else
    match self.authorization uri with
    | some value => headers.insert .authorization ⟨value, true⟩
    | none => headers

end Netrc

def cookieParts (text : Bytes) : List Bytes :=
  ((text.splitOn (byte ';')).map Utf8.trimText).filter fun part => !part.isEmpty

/-- Take the last occurrence out, `rposition` and `remove`. -/
def removeLast (parts : List Bytes) (part : Bytes) : List Bytes := (parts.reverse.erase part).reverse

def removeCookieContribution (contribution : HeaderValue) : MarkedHeaderMap :=
  match (headers.get .cookie).bind fun value => value.value.toStr, contribution.toStr with
  | some existing, some contribution =>
    let parts := (cookieParts contribution).foldl removeLast (cookieParts existing)
    if parts.isEmpty then headers.remove .cookie
    else
      match HeaderValue.fromStr ((ascii "; ").intercalate parts) with
      | some value => headers.insert .cookie ⟨value, false⟩
      | none => headers
  | _, _ => headers

/-- What a hop reads besides its own state: calls of other requests on the shared jar, the clocks,
and the order in which the jar is walked. -/
structure Preparation where
  jarCalls : List JarCall := []
  now : SystemTime
  order : Entries
  clock : Cache.Clock

def cookieRequest (p : Preparation) (site : Bytes) (uri : Uri) (authority : Authority) :
    CookieRequest where
  now := p.now
  domain := authority.host
  isSecure := isHttps uri
  path := uri.path
  siteForCookies := some site

def selectedCookies (jar : Option CookieJar) (p : Preparation) (site : Bytes) (uri : Uri) :
    List Cookie :=
  match jar, uri.authority with
  | some jar, some authority => jar.matchingCookies p.order (cookieRequest p site uri authority)
  | _, _ => []

def applyJar (jar : Option CookieJar) (p : Preparation) (site : Bytes) (uri : Uri)
    (headers : MarkedHeaderMap) : MarkedHeaderMap × Option HeaderValue :=
  match jar, uri.authority with
  | some jar, some authority =>
    jar.applyToRequestTracking p.order (cookieRequest p site uri authority) headers
  | _, _ => (headers, none)

variable (signer : Option MessageSigner)

def addSignedHost (uri : Uri) (headers : MarkedHeaderMap) : MarkedHeaderMap :=
  match signer, uri.authority with
  | some signer, some authority =>
    if signer.coversHost && !headers.containsKey .host then
      match HeaderValue.fromStr authority.text with
      | some value => headers.insert .host ⟨value, false⟩
      | none => headers
    else headers
  | _, _ => headers

def signRequest (method : Method) (target requestTarget : Uri)
    (headers : MarkedHeaderMap) : Except Error MarkedHeaderMap :=
  match signer with
  | some signer => signer.signMarked method target requestTarget headers
  | none => .ok headers

def applyDefaultHeader (line : HeaderName × MarkedValue) : MarkedHeaderMap :=
  if headers.containsKey line.1 then headers else headers.insert line.1 line.2

def applyDefaultHeaders (defaults : MarkedHeaderMap) (acceptEncoding : Option HeaderValue)
    (skipAcceptEncoding : Bool) (headers : MarkedHeaderMap) : MarkedHeaderMap :=
  let headers := defaults.lines.foldl applyDefaultHeader headers
  match acceptEncoding with
  | some value =>
    if skipAcceptEncoding || headers.containsKey .acceptEncoding then headers
    else headers.insert .acceptEncoding ⟨value, false⟩
  | none => headers

def prepareRequestHeadersTracking (netrc : Option Netrc) (signer : Option MessageSigner)
    (jar : Option CookieJar) (p : Preparation) (site : Bytes) (uri : Uri)
    (headers : MarkedHeaderMap) : MarkedHeaderMap × Option HeaderValue :=
  let headers := netrc.elim headers fun netrc => netrc.apply headers uri
  let applied := applyJar jar p site uri headers
  (addSignedHost signer uri applied.1, applied.2)

inductive RequestBody where
  | buffered (bytes : Bytes)
  | streaming

def applyAutomaticContentDigest (enabled : Bool) (headers : MarkedHeaderMap)
    (body : Option RequestBody) : Except Error MarkedHeaderMap :=
  if !enabled || headers.containsKey DigestFields.contentDigest then .ok headers
  else
    match body with
    | none => .ok headers
    | some (.buffered bytes) =>
      match @DigestFields.sha256ContentDigestValue Base64.standard bytes with
      | some value => .ok (headers.insert DigestFields.contentDigest ⟨value, false⟩)
      | none =>
        .error (.invalidHeader (ascii "generated Content-Digest header value is invalid: " ++
          HeaderValue.fromStrError))
    | some .streaming =>
      .error (.unsupported (ascii ("automatic Content-Digest requires a buffered request body " ++
        "or an explicit Content-Digest header")))

def applyValidator (name : HeaderName) (text : Option Bytes) (headers : MarkedHeaderMap) :
    MarkedHeaderMap :=
  match text.bind HeaderValue.fromStr with
  | some value => headers.insert name ⟨value, false⟩
  | none => headers

def applyValidators (validators : Cache.Validators) (headers : MarkedHeaderMap) : MarkedHeaderMap :=
  applyValidator .ifModifiedSince validators.lastModified
    (applyValidator .ifNoneMatch validators.etag headers)

variable (source target : MarkedHeaderMap)

def syncValidator (name : HeaderName) : MarkedHeaderMap :=
  match source.get name with
  | some value => target.insert name value
  | none => target

/-- The validators of the request are kept for later hops. -/
def syncCacheValidators : MarkedHeaderMap :=
  [HeaderName.ifNoneMatch, HeaderName.ifModifiedSince].foldl (syncValidator source) target

end Aioduct.Client
