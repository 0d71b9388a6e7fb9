import Aioduct.Client.Redirect
import Aioduct.DigestAuth

/-!
# The request loop

`execute_send` of `client/execute_send.rs` with the replays of the retry layer, as a state machine.
What the network and the shared state do is part of the events. The state keeps the requests that
were sent, each with the hops before it. Timeouts, observers, the choice of the connection and the
fallback to stale responses are left out.
-/

namespace Aioduct.Client

open MessageSignatures (MessageSigner)
open Wire Http Cookies Digest

structure Settings where
  redirect : RedirectSettings := {}
  defaultHeaders : MarkedHeaderMap := ⟨[]⟩
  acceptEncoding : Option HeaderValue := none
  httpsOnly : Bool := false
  netrc : Option Netrc := none
  digestAuth : Option DigestAuth := none
  signer : Option MessageSigner := none

structure Request where
  method : Method
  uri : Uri
  headers : MarkedHeaderMap
  body : Option RequestBody := none
  noDecompression : Bool := false
  automaticContentDigest : Bool := false
  fragment : Option Bytes := none

def Request.site (request : Request) : Bytes := (hostOf request.uri).getD []

/-- `FinalizedRequestSnapshot`: what a replay starts from. -/
structure Snapshot where
  uri : Uri
  method : Method
  requestUri : Uri
  headers : MarkedHeaderMap
  body : Bytes
  fragment : Option Bytes
  digestChallenge : Option PreparedDigestChallenge
  appliedCookieHeader : Option HeaderValue

structure Hop where
  uri : Uri
  /-- The cookies that the jar selected. -/
  selected : List Cookie
  /-- A challenge was answered. -/
  answered : Bool

/-- A request that was sent, with the hops before it, the latest first. -/
structure Sent where
  uri : Uri
  method : Method
  headers : MarkedHeaderMap
  selected : List Cookie
  answered : Bool
  past : List Hop

inductive Phase where
  /-- About to prepare the request of a hop. -/
  | ready
  /-- A request is on its way. -/
  | waiting (snapshot : Option Snapshot) (replayBody : Option Bytes) (mayAuthenticate : Bool)
  /-- The call has returned. -/
  | ended (snapshot : Option Snapshot) (error : Option Error)

structure State where
  uri : Uri
  method : Method
  body : Option RequestBody
  headers : MarkedHeaderMap
  fragment : Option Bytes
  /-- Rounds of the loop that are left. -/
  left : Nat
  phase : Phase
  jar : Option CookieJar
  cache : Option Cache.InMemoryCacheStore
  nonceCounts : NonceCounts
  selected : List Cookie
  answered : Bool
  past : List Hop
  sent : List Sent

structure Reply where
  status : StatusCode
  headers : HeaderMap
  now : SystemTime
  /-- The hosts that the HSTS store upgrades. -/
  shouldUpgrade : Bytes → Bool := fun _ => false
  /-- The retry layer permits an answer to a challenge. -/
  permitsRetry : Bool := true
  cnonce : Bytes := []

inductive Event where
  /-- The next hop is prepared and sent. -/
  | send (p : Preparation)
  /-- The call returns without looking at a response. -/
  | leave (error : Option Error)
  | respond (r : Reply)
  /-- The retry layer runs the call again from the last snapshot. -/
  | replay (p : Preparation) (cnonce : Bytes)

def State.stop (s : State) (snapshot : Option Snapshot) (error : Option Error) : State :=
  { s with phase := .ended snapshot error }

def requestUri (uri : Uri) : Uri :=
  match uri.pathAndQuery with
  | some pathAndQuery => { path := uri.path, query := uri.query, pathAndQuery := some pathAndQuery }
  | none => { path := ascii "/", pathAndQuery := some ⟨ascii "/"⟩ }

/-- The bytes that a snapshot keeps; a streamed body cannot be replayed. -/
def replayableBytes : Option RequestBody → Option Bytes
  | none => some []
  | some (.buffered bytes) => some bytes
  | some .streaming => none

def bodyForReplay : Option RequestBody → Option Bytes
  | some (.buffered bytes) => some bytes
  | _ => none

variable (settings : Settings)

def transmit (applied : Option HeaderValue) (wire : MarkedHeaderMap)
    (snapshotBody replayBody : Option Bytes) (s : State) : State :=
  match signRequest settings.signer s.method s.uri (requestUri s.uri) wire with
  | .error e => s.stop none (some e)
  | .ok wire =>
    let snapshot := snapshotBody.map fun body =>
      ({ uri := s.uri, method := s.method, requestUri := requestUri s.uri, headers := wire,
         body := body, fragment := s.fragment, digestChallenge := none,
         appliedCookieHeader := applied } : Snapshot)
    { s with
      body := none
      phase := .waiting snapshot replayBody true
      sent := s.sent ++ [⟨s.uri, s.method, wire, s.selected, s.answered, s.past⟩] }

def wireHeaders (request : Request) (body : Option RequestBody) (headers : MarkedHeaderMap) :
    Except Error MarkedHeaderMap :=
  applyAutomaticContentDigest request.automaticContentDigest
    ((headers.remove .transferEncoding).remove .contentLength) body

def cacheLookup (cache : Option Cache.InMemoryCacheStore) (clock : Cache.Clock) (method : Method)
    (uri : Uri) (headers : MarkedHeaderMap) : Cache.CacheLookup :=
  match cache with
  | some cache => Cache.lookup cache clock method uri headers.plain
  | none => .miss

/-- The headers with the validators of a stale entry; none if a fresh response ends the call. -/
def validatedHeaders (lookup : Cache.CacheLookup) (wire : MarkedHeaderMap) :
    Option MarkedHeaderMap :=
  match lookup with
  | .fresh _ => none
  | .stale validators _ _ => some (applyValidators validators wire)
  | .miss => some wire

/-- The headers of a round, with the part that the jar has added. -/
def prepareHop (request : Request) (p : Preparation) (s : State) : State × Option HeaderValue :=
  let prepared := prepareRequestHeadersTracking settings.netrc settings.signer s.jar p request.site
    s.uri s.headers
  ({ s with
      headers := prepared.1
      selected := selectedCookies s.jar p request.site s.uri
      left := s.left - 1 }, prepared.2)

def dispatchHop (request : Request) (clock : Cache.Clock) (applied : Option HeaderValue)
    (s : State) : State :=
  match wireHeaders request s.body s.headers with
  | .error e => s.stop none (some e)
  | .ok wire =>
    match validatedHeaders (cacheLookup s.cache clock s.method s.uri wire) wire with
    | none => s.stop none none
    | some wire =>
      transmit settings applied wire (replayableBytes s.body) (bodyForReplay s.body)
        { s with headers := syncCacheValidators wire s.headers }

def sendHop (request : Request) (p : Preparation) (s : State) : State :=
  let prepared := prepareHop settings request p s
  dispatchHop settings request p.clock prepared.2 prepared.1

def refreshDigestAuthorization (digest : Option DigestAuth) (counts : NonceCounts) (cnonce : Bytes)
    (snapshot : Snapshot) : MarkedHeaderMap × NonceCounts :=
  match digest, snapshot.digestChallenge with
  | some digest, some challenge =>
    match authorizePrepared digest counts cnonce snapshot.method snapshot.requestUri challenge with
    | (some value, counts) => (snapshot.headers.insert .authorization ⟨value, false⟩, counts)
    | (none, counts) => (snapshot.headers, counts)
  | _, _ => (snapshot.headers, counts)

def refreshReplayHeaders (jar : Option CookieJar) (p : Preparation) (site : Bytes) (uri : Uri)
    (previous : Option HeaderValue) (headers : MarkedHeaderMap) :
    MarkedHeaderMap × Option HeaderValue :=
  prepareRequestHeadersTracking settings.netrc settings.signer jar p site uri
    (previous.elim headers (removeCookieContribution headers))

def httpsOnlyError (uri : Uri) : Error := .httpsOnly (uri.scheme.getD (ascii "none"))

def restoreHop (request : Request) (p : Preparation) (cnonce : Bytes) (snapshot : Snapshot)
    (s : State) : State × Option HeaderValue :=
  let refreshed := refreshDigestAuthorization settings.digestAuth s.nonceCounts cnonce snapshot
  let prepared := refreshReplayHeaders settings s.jar p request.site snapshot.uri
    snapshot.appliedCookieHeader refreshed.1
  ({ s with
      uri := snapshot.uri
      method := snapshot.method
      fragment := snapshot.fragment
      headers := prepared.1
      nonceCounts := refreshed.2
      selected := selectedCookies s.jar p request.site snapshot.uri
      left := settings.redirect.policy.maxRedirects }, prepared.2)

def replayHop (request : Request) (p : Preparation) (cnonce : Bytes) (snapshot : Snapshot)
    (s : State) : State :=
  if settings.httpsOnly && !isHttps snapshot.uri then
    s.stop none (some (httpsOnlyError snapshot.uri))
  else
    let restored := restoreHop settings request p cnonce snapshot s
    transmit settings restored.2 restored.1.headers (some snapshot.body)
      (if snapshot.body.isEmpty then none else some snapshot.body) restored.1

def challengeToAnswer (r : Reply) (snapshot : Option Snapshot) (mayAuthenticate : Bool) :
    Option (DigestAuth × Snapshot × PreparedDigestChallenge) :=
  match settings.digestAuth, snapshot, prepare r.headers with
  | some digest, some snapshot, some challenge =>
    if mayAuthenticate && needsRetry r.status r.headers &&
        digest.canAuthorizePrepared snapshot.method snapshot.requestUri challenge &&
        r.permitsRetry then
      some (digest, snapshot, challenge)
    else none
  | _, _, _ => none

def digestFailed : Error :=
  .other (ascii "digest authorization failed after replay quiescence")

def sendAuthenticated (value : HeaderValue) (challenge : PreparedDigestChallenge)
    (snapshot : Snapshot) (replayBody : Option Bytes) (s : State) : State :=
  let headers := snapshot.headers.insert .authorization ⟨value, false⟩
  match signRequest settings.signer snapshot.method snapshot.uri snapshot.requestUri headers with
  | .error e => s.stop (some snapshot) (some e)
  | .ok wire =>
    { s with
      headers := headers
      phase := .waiting
        (some { snapshot with headers := wire, digestChallenge := some challenge }) replayBody false
      answered := true
      sent := s.sent ++ [⟨snapshot.uri, snapshot.method, wire, s.selected, true, s.past⟩] }

def answerChallenge (r : Reply) (digest : DigestAuth) (challenge : PreparedDigestChallenge)
    (snapshot : Snapshot) (replayBody : Option Bytes) (s : State) : State :=
  match authorizePrepared digest s.nonceCounts r.cnonce snapshot.method snapshot.requestUri
      challenge with
  | (none, counts) =>
    { s with nonceCounts := counts }.stop (some snapshot) (some digestFailed)
  | (some value, counts) =>
    sendAuthenticated settings value challenge snapshot replayBody
      { s with nonceCounts := counts }

def isRedirection (status : StatusCode) : Bool := 300 ≤ status && status < 400

def storeResponse (r : Reply) (s : State) : State :=
  { s with
    cache := s.cache.map fun cache => Cache.invalidate cache s.method s.uri
    jar := s.jar.map fun jar =>
      match s.uri.authority with
      | some authority => jar.storeFromResponse r.now authority.host s.uri.path r.headers
      | none => jar }

def State.follow (s : State) (next : Redirection) : State :=
  { s with
    uri := next.uri
    method := next.method
    body := next.body
    headers := next.headers
    fragment := next.fragment
    phase := .ready
    selected := []
    answered := false
    past := ⟨s.uri, s.selected, s.answered⟩ :: s.past }

def takeRedirect (r : Reply) (snapshot : Option Snapshot) (s : State) (next : Redirection) :
    State :=
  let next := { next with uri := maybeUpgradeHsts r.shouldUpgrade next.uri }
  if settings.httpsOnly && !isHttps next.uri then
    s.stop snapshot (some (httpsOnlyError next.uri))
  else if s.left = 0 then
    s.stop snapshot (some (.tooManyRedirects settings.redirect.policy.maxRedirects))
  else s.follow next

def postExecute [UrlParser] (settings : Settings) (r : Reply) (snapshot : Option Snapshot)
    (replayBody : Option Bytes) (s : State) : State :=
  let s := storeResponse r s
  if !isRedirection r.status || r.status == 304 || settings.redirect.policy.isNone then
    s.stop snapshot none
  else
    match processRedirect settings.redirect r.shouldUpgrade r.status r.headers s.uri s.method
        replayBody s.headers s.fragment with
    | .error e => s.stop snapshot (some e)
    | .ok none => s.stop snapshot none
    | .ok (some next) => takeRedirect settings r snapshot s next

def respondHop [UrlParser] (settings : Settings) (r : Reply) (snapshot : Option Snapshot)
    (replayBody : Option Bytes) (mayAuthenticate : Bool) (s : State) : State :=
  match challengeToAnswer settings r snapshot mayAuthenticate with
  | some (digest, snapshot, challenge) =>
    answerChallenge settings r digest challenge snapshot replayBody s
  | none => postExecute settings r snapshot replayBody s

/-- The calls of other requests reach the shared jar first. -/
def State.shared (s : State) (p : Preparation) : State :=
  { s with jar := s.jar.map fun jar => p.jarCalls.foldl CookieJar.call jar }

/-- The order of a preparation is one in which the jar can be walked. -/
def walksJar (jar : Option CookieJar) (p : Preparation) : Bool :=
  match jar with
  | some jar => p.order.isPerm jar.entries
  | none => true

/-- An event that does not fit the phase is none of the state. -/
def step [UrlParser] (settings : Settings) (request : Request) (s : State) : Event → Option State
  | .send p =>
    match s.phase with
    | .ready =>
      if walksJar (s.shared p).jar p then some (sendHop settings request p (s.shared p)) else none
    | _ => none
  | .leave error =>
    match s.phase with
    | .waiting snapshot _ _ => some (s.stop snapshot error)
    | _ => none
  | .respond r =>
    match s.phase with
    | .waiting snapshot replayBody mayAuthenticate =>
      some (respondHop settings r snapshot replayBody mayAuthenticate s)
    | _ => none
  | .replay p cnonce =>
    match s.phase with
    | .ended (some snapshot) _ =>
      if walksJar (s.shared p).jar p then
        some (replayHop settings request p cnonce snapshot (s.shared p))
      else none
    | _ => none

/-- The start of a call: the shared jar is in the state that its calls so far have left. -/
structure Start where
  jar : Option (List JarCall) := none
  cache : Option Cache.InMemoryCacheStore := none
  nonceCounts : NonceCounts := []
  shouldUpgrade : Bytes → Bool := fun _ => false

def initial (request : Request) (start : Start) : State where
  uri := maybeUpgradeHsts start.shouldUpgrade request.uri
  method := request.method
  body := request.body
  headers := applyDefaultHeaders settings.defaultHeaders settings.acceptEncoding
    request.noDecompression request.headers
  fragment := request.fragment
  left := settings.redirect.policy.maxRedirects + 1
  phase :=
    if settings.httpsOnly && !isHttps request.uri then
      .ended none (some (httpsOnlyError request.uri))
    else .ready
  jar := start.jar.map Cookies.run
  cache := start.cache
  nonceCounts := start.nonceCounts
  selected := []
  answered := false
  past := []
  sent := []

/-- A run of the loop; none if an event does not fit. -/
def run [UrlParser] (settings : Settings) (request : Request) (start : Start)
    (events : List Event) : Option State :=
  events.foldlM (step settings request) (initial settings request start)

theorem run_induction [UrlParser] {settings : Settings} {request : Request} {start : Start}
    {P : State → Prop} (hi : P (initial settings request start))
    (hs : ∀ s event s', P s → step settings request s event = some s' → P s')
    {events : List Event} {s : State} (hrun : run settings request start events = some s) : P s := by
  unfold run at hrun
  generalize initial settings request start = s₀ at hi hrun
  induction events generalizing s₀ with
  | nil =>
    cases hrun
    exact hi
  | cons event events ih =>
    obtain ⟨s₁, hs₁, hr⟩ := Option.bind_eq_some_iff.mp hrun
    exact ih s₁ (hs s₀ event s₁ hi hs₁) hr

end Aioduct.Client
