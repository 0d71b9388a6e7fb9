import Aioduct.Http.Uri
import Aioduct.Md5
import Aioduct.Wire.Assoc
import Aioduct.Wire.Utf8

/-!
# Digest authentication

`digest_auth.rs`: reading a challenge, and the value of the `Authorization` line that answers it.
The client nonce is an argument, and the counters are a list in the order in which their map is
walked.
-/

namespace Aioduct.Digest

open Wire Http

structure DigestAuth where
  username : Bytes
  password : Bytes

structure PreparedDigestChallenge where
  params : List (Bytes × Bytes)
  deriving DecidableEq

def wwwAuthenticate : HeaderName := ⟨ascii "www-authenticate", by decide⟩

def needsRetry (status : StatusCode) (headers : HeaderMap) : Bool :=
  status == 401 && headers.containsKey wwwAuthenticate

variable (s : Bytes)

def quotedValue : Bytes × Bytes :=
  (s.takeWhile (· != byte '"'), (s.dropWhile (· != byte '"')).drop 1)

def plainValue : Bytes × Bytes :=
  (Utf8.trimText (s.takeWhile (· != byte ',')), s.dropWhile (· != byte ','))

def parameterValue : Bytes → Bytes × Bytes
  | [] => plainValue []
  | b :: s => if b == byte '"' then quotedValue s else plainValue (b :: s)

/-- The loop of `parse_challenge`; a round consumes an equals sign, so that the length of the text
is enough for `fuel`. -/
def parseParameters : Nat → List (Bytes × Bytes) → Bytes → List (Bytes × Bytes)
  | 0, params, _ => params
  | fuel + 1, params, remaining =>
    match splitOnce (ascii "=") (remaining.dropWhile fun b => b == byte ',' || b == byte ' ') with
    | none => params
    | some (key, rest) =>
      let (value, rest) := parameterValue rest
      parseParameters fuel
        (Assoc.replaceOrAppend params (lowercase (Utf8.trimText key)) value) rest

def parseChallenge : List (Bytes × Bytes) :=
  let s := Utf8.trimText s
  parseParameters s.length [] s

def digestParameters (challenge : Bytes) : Option Bytes :=
  if (ascii "digest ").isPrefixOf (lowercase challenge) then some (challenge.drop 7) else none

def prepare (headers : HeaderMap) : Option PreparedDigestChallenge := do
  let challenge ← (headers.get wwwAuthenticate).bind HeaderValue.toStr
  let params := parseChallenge (← digestParameters challenge)
  let _ ← Assoc.get params (ascii "realm")
  let _ ← Assoc.get params (ascii "nonce")
  pure ⟨params⟩

def md5Hex (input : Bytes) : Bytes := hex (Md5.compute input)

def sha256Hex (input : Bytes) : Bytes := hex (Sha256.compute input)

def hashFn (algorithm : Bytes) : Bytes → Bytes :=
  if algorithm == ascii "SHA-256" || algorithm == ascii "SHA-256-sess" then sha256Hex else md5Hex

def hasQopAuth (qop : Bytes) : Bool :=
  (qop.splitOn (byte ',')).any fun t => Utf8.trimText t == ascii "auth"

def colon (parts : List Bytes) : Bytes := (ascii ":").intercalate parts

def esc : Bytes :=
  s.flatMap fun b => if b == byte '\\' || b == byte '"' then [byte '\\', b] else [b]

def digestPath (uri : Uri) : Bytes :=
  match uri.pathAndQuery with
  | some pathAndQuery => pathAndQuery.text
  | none => ascii "/"

def quoted (name value : Bytes) : Bytes := name ++ ascii "=\"" ++ value ++ ascii "\""

namespace DigestAuth

variable (self : DigestAuth)

def ha1 (algorithm realm nonce cnonce : Bytes) : Bytes :=
  let first := hashFn algorithm (colon [self.username, realm, self.password])
  if (ascii "-sess").isSuffixOf algorithm then hashFn algorithm (colon [first, nonce, cnonce])
  else first

variable (method : Method)

def answer (path realm nonce algorithm : Bytes) (qopAuth : Bool)
    (opaqueText : Option Bytes) (nc cnonce : Bytes) : Bytes :=
  let hash := hashFn algorithm
  let ha1 := self.ha1 algorithm realm nonce cnonce
  let ha2 := hash (colon [method.bytes, path])
  let response :=
    if qopAuth then hash (colon [ha1, nonce, nc, cnonce, ascii "auth", ha2])
    else hash (colon [ha1, nonce, ha2])
  ascii "Digest " ++
    (ascii ", ").intercalate [quoted (ascii "username") (esc self.username),
      quoted (ascii "realm") (esc realm), quoted (ascii "nonce") (esc nonce),
      quoted (ascii "uri") (esc path), quoted (ascii "response") response] ++
    (if qopAuth then ascii ", qop=auth, nc=" ++ nc ++ ascii ", " ++ quoted (ascii "cnonce") cnonce
      else []) ++
    (match opaqueText with
      | some text => ascii ", " ++ quoted (ascii "opaque") (esc text)
      | none => []) ++
    (if algorithm ≠ ascii "MD5" then ascii ", algorithm=" ++ algorithm else [])

def authorizationValue (uri : Uri) (challenge : PreparedDigestChallenge)
    (nc cnonce : Bytes) : Option HeaderValue := do
  let realm ← Assoc.get challenge.params (ascii "realm")
  let nonce ← Assoc.get challenge.params (ascii "nonce")
  let algorithm := (Assoc.get challenge.params (ascii "algorithm")).getD (ascii "MD5")
  HeaderValue.fromStr (self.answer method (digestPath uri) realm nonce algorithm
    ((Assoc.get challenge.params (ascii "qop")).any hasQopAuth)
    (Assoc.get challenge.params (ascii "opaque")) nc cnonce)

def canAuthorizePrepared (uri : Uri) (challenge : PreparedDigestChallenge) : Bool :=
  (self.authorizationValue method uri challenge (ascii "00000001")
    (ascii "0000000000000000")).isSome

end DigestAuth

abbrev NonceCounts := List (Bytes × UInt32)

/-- The nonce with the smallest counter, the first one in the order of the walk. -/
def leastUsed (order : NonceCounts) : Option Bytes :=
  (order.map fun entry => entry.2.toNat).min?.bind fun least =>
    (order.find? fun entry => entry.2.toNat == least).map Prod.fst

/-- The counters are kept for at most 64 nonces before a new one is added. -/
def evictCounts : Nat → NonceCounts → NonceCounts
  | 0, counts => counts
  | fuel + 1, counts =>
    if 64 < counts.length then
      match leastUsed counts with
      | some nonce => evictCounts fuel (counts.filter (·.1 ≠ nonce))
      | none => counts
    else counts

/-- `u32::saturating_add(1)`. -/
def nextCount (count : UInt32) : UInt32 := if count.toNat + 1 < 2 ^ 32 then count + 1 else count

def hex32 (n : UInt32) : Bytes := hex (Sha256.toBeBytes n)

/-- The answer to a challenge and the counters after it. A failed answer leaves the counters as
they are after the eviction. -/
def authorizePrepared (self : DigestAuth) (counts : NonceCounts) (cnonce : Bytes) (method : Method)
    (uri : Uri) (challenge : PreparedDigestChallenge) : Option HeaderValue × NonceCounts :=
  match Assoc.get challenge.params (ascii "nonce") with
  | none => (none, counts)
  | some nonce =>
    let counts := evictCounts counts.length counts
    let nc := nextCount ((Assoc.get counts nonce).getD 0)
    match self.authorizationValue method uri challenge (hex32 nc) cnonce with
    | some value => (some value, Assoc.replaceOrAppend counts nonce nc)
    | none => (none, counts)

lemma authorizationValue_scheme {self : DigestAuth} {method : Method} {uri : Uri}
    {challenge : PreparedDigestChallenge} {nc cnonce : Bytes} {value : HeaderValue}
    (h : self.authorizationValue method uri challenge nc cnonce = some value) :
    ∃ rest, value.bytes = ascii "Digest " ++ rest := by
  simp only [DigestAuth.authorizationValue, Option.bind_eq_bind, Option.bind_eq_some_iff] at h
  obtain ⟨realm, -, nonce, -, h⟩ := h
  rw [HeaderValue.fromStr_bytes h]
  exact ⟨_, rfl⟩

end Aioduct.Digest
