import Aioduct.Forward.HopByHop
import Aioduct.Pool.Key

/-!
# Request targets

`forward/request_target.rs` and `forward/scheme.rs`: the form of an inbound request target, the
authority that it names, and when a `Host` field agrees with it.
-/

namespace Aioduct.Forward

open Wire Http Pool

structure Parts where
  method : Method
  uri : Uri
  version : Version
  headers : HeaderMap
  /-- The `Protocol` extension of an extended CONNECT. -/
  protocol : Option Bytes := none
  /-- Whether the `Protocol` extension of the HTTP/3 library is set. -/
  h3Protocol : Bool := false

def httpScheme : Bytes := ascii "http"

def httpsScheme : Bytes := ascii "https"

def canonicalHttpScheme (scheme : Bytes) : Except Error Bytes :=
  if eqIgnoreCase scheme httpScheme then .ok httpScheme
  else if eqIgnoreCase scheme httpsScheme then .ok httpsScheme
  else
    .error (.unsupported (ascii "forwarding URI scheme `" ++ scheme ++ ascii "` is not supported"))

def invalidForward (error : Bytes) : Error := .invalidUrl (ascii "forward: " ++ error)

def canonicalizeHttpUri [UriParser] (uri : Uri) : Except Error (Uri × Bytes) := do
  let parsedScheme ← okOr (invalidForward (ascii "final URI has no scheme")) uri.scheme
  let scheme ← canonicalHttpScheme parsedScheme
  if parsedScheme = scheme then pure (uri, scheme)
  else do
    let uri ← (UriParser.fromParts (some scheme) uri.authority uri.pathAndQuery).mapError
      invalidForward
    pure (uri, scheme)

def defaultPort : Option Bytes → Option UInt16
  | none => none
  | some scheme =>
    if eqIgnoreCase scheme httpScheme then some 80
    else if eqIgnoreCase scheme httpsScheme then some 443
    else none

def invalidAuthorityPort (endpoint : Bytes) : Error :=
  .invalidHeader (ascii "invalid explicit port in forwarded authority `" ++ endpoint ++ ascii "`")

def rawPort (endpoint : Bytes) : Except Error (Option Bytes) :=
  match endpoint.dropPrefix? (ascii "[") with
  | some bracketed =>
    match splitOnce (ascii "]") bracketed with
    | none => .error (invalidAuthorityPort endpoint)
    | some (inside, rest) =>
      if inside.isEmpty then .error (invalidAuthorityPort endpoint)
      else
        match rest with
        | [] => .ok none
        | b :: port =>
          if b = byte ':' then .ok (some port) else .error (invalidAuthorityPort endpoint)
  | none =>
    if endpoint.isEmpty || endpoint.contains (byte '[') || endpoint.contains (byte ']') then
      .error (invalidAuthorityPort endpoint)
    else
      match rsplitOnce (byte ':') endpoint with
      | some (host, port) =>
        if !host.isEmpty && !host.contains (byte ':') then .ok (some port)
        else .error (invalidAuthorityPort endpoint)
      | none => .ok none

variable (authority : Authority)

def explicitAuthorityPort : Except Error (Option UInt16) := do
  let endpoint := authority.text
  match ← rawPort endpoint with
  | none => pure none
  | some raw =>
    if raw.isEmpty then pure none
    else do
      refuseIf (!raw.all isDigit) (invalidAuthorityPort endpoint)
      let port ← okOr (invalidAuthorityPort endpoint)
        ((parseBelow (2 ^ 16) raw).map UInt16.ofNat)
      refuseIf (authority.port ≠ some port) (invalidAuthorityPort endpoint)
      pure (some port)

def validateAuthority : Except Error (Option UInt16) := do
  refuseIf (authority.text.contains (byte '@'))
    (.invalidHeader (ascii "forwarded authority must not contain userinfo"))
  explicitAuthorityPort authority

def validateConnectAuthority : Except Error Unit := do
  let port ← validateAuthority authority
  refuseIf port.isNone (.invalidUrl
    (ascii "ordinary CONNECT authority-form targets require an explicit port"))

def normalizedHost (host : Bytes) : PoolHost := .new host

def effectivePort (scheme : Option Bytes) : Except Error (Option UInt16) := do
  let port ← explicitAuthorityPort authority
  pure (port.or (defaultPort scheme))

def authoritiesEquivalent (left right : Authority) (scheme : Option Bytes) : Except Error Bool :=
  if normalizedHost left.host = normalizedHost right.host then do
    let leftPort ← effectivePort left scheme
    let rightPort ← effectivePort right scheme
    pure (leftPort == rightPort)
  else pure false

def h1ConnectAuthoritiesMatch (target host : Authority) : Except Error Bool :=
  if normalizedHost target.host ≠ normalizedHost host.host then pure false
  else if host.text.getLast? = some (byte ':') then pure false
  else do
    let targetPort ← explicitAuthorityPort target
    let hostPort ← explicitAuthorityPort host
    pure (targetPort.isSome && targetPort == hostPort)

inductive HostField where
  | missing
  | empty
  | authority (authority : Authority)
  deriving DecidableEq

def HostField.authority? : HostField → Option Authority
  | .authority a => some a
  | .missing | .empty => none

def invalidHostField (error : Bytes) : Error :=
  .invalidHeader (ascii "invalid forwarded Host field: " ++ error)

def singleHostField [UriParser] (headers : HeaderMap) : Except Error HostField :=
  match headers.getAll .host with
  | [] => .ok .missing
  | [host] =>
    match host.toStr with
    | none => .error (invalidHostField HeaderValue.toStrError)
    | some text =>
      if text.isEmpty then .ok .empty
      else do
        let authority ← (UriParser.parseAuthority text).mapError invalidHostField
        let _ ← validateAuthority authority
        pure (.authority authority)
  | _ => .error (.invalidHeader (ascii "forwarding requires at most one Host field"))

variable (version : Version)

def uriHostMatches (authority : Authority) (host : HostField) (scheme : Option Bytes) :
    Except Error Bool :=
  match host with
  | .missing => pure true
  | .empty => pure false
  | .authority host =>
    if version = .http3 then pure (authority.text == host.text)
    else authoritiesEquivalent authority host scheme

def validateUriHostMatch (authority : Authority) (host : HostField) (scheme : Option Bytes)
    (message : Bytes) : Except Error Unit := do
  let isMatch ← uriHostMatches version authority host scheme
  refuseIf (!isMatch) (.invalidHeader message)

inductive InboundRequestTarget where
  | origin (authority : Option Authority)
  | absolute (authority : Authority) (scheme : Bytes) (serverWideOptions : Bool)
  | authority (authority : Authority)
  | asterisk (authority : Option Authority) (authorityInTarget : Bool)

namespace InboundRequestTarget

def startsWithSlash (path : Bytes) : Bool := path.head? == some (byte '/')

def asteriskControlData (uri : Uri) : Bool :=
  match version.isH1, uri.scheme, uri.authority with
  | true, none, none => true
  | true, _, _ => false
  | false, none, some _ => false
  | false, _, _ => true

variable (parts : Parts) (host : HostField)

def checkAsteriskHost : Except Error Unit :=
  match parts.uri.authority with
  | some a => do
    let _ ← validateAuthority a
    validateUriHostMatch parts.version a host parts.uri.scheme
      (ascii "inbound OPTIONS authority and Host field disagree")
  | none => pure ()

def captureAsterisk : Except Error InboundRequestTarget := do
  refuseIf (parts.uri.pathAndQuery ≠ some ⟨ascii "*"⟩)
    (.invalidUrl (ascii "the asterisk request target must not include a query"))
  refuseIf (parts.method ≠ .options)
    (.invalidUrl (ascii "the asterisk request target is only valid for OPTIONS"))
  refuseIf (!asteriskControlData parts.version parts.uri)
    (.invalidUrl (ascii "invalid asterisk-form request target control data"))
  checkAsteriskHost parts host
  pure (.asterisk (parts.uri.authority.or host.authority?) parts.uri.authority.isSome)

def h1ConnectHostMatches : HostField → Except Error Bool
  | .authority host => h1ConnectAuthoritiesMatch authority host
  -- a missing field does not get here
  | .empty | .missing => pure false

def checkConnectHost (authority : Authority) (host : HostField) : Except Error Unit :=
  let message := ascii "inbound CONNECT authority and Host field disagree"
  match version with
  | .http11 => do
    let isMatch ← h1ConnectHostMatches authority host
    refuseIf (!isMatch) (.invalidHeader message)
  | .http2 | .http3 => validateUriHostMatch version authority host none message
  | _ => pure ()

def captureAuthority (authority : Authority) : Except Error InboundRequestTarget := do
  refuseIf parts.uri.pathAndQuery.isSome
    (.invalidUrl (ascii "authority-form request targets must not include a path or query"))
  refuseIf (parts.method ≠ .connect)
    (.invalidUrl (ascii "authority-form request targets are valid only for CONNECT"))
  validateConnectAuthority authority
  checkConnectHost parts.version authority host
  pure (.authority authority)

/-- Over HTTP/1 the field is ignored. -/
def checkAbsoluteHost (scheme : Bytes) (authority : Authority) : Except Error Unit :=
  if version.isH1 then pure ()
  else
    validateUriHostMatch version authority host (some scheme)
      (ascii "inbound URI authority and Host field disagree")

def captureAbsolute (scheme : Bytes) (authority : Authority) :
    Except Error InboundRequestTarget := do
  let _ ← validateAuthority authority
  refuseIf (!parts.uri.path.isEmpty && !startsWithSlash parts.uri.path)
    (.invalidUrl (ascii "absolute request targets must use an absolute path"))
  checkAbsoluteHost parts.version host scheme authority
  pure (.absolute authority scheme
    (parts.method = .options && parts.uri.pathAndQuery.isNone))

def captureOrigin : Except Error InboundRequestTarget := do
  refuseIf (!startsWithSlash parts.uri.path) (.invalidUrl
    (ascii "invalid origin-form request target `" ++ parts.uri.display ++ ascii "`"))
  pure (.origin host.authority?)

def capture [UriParser] (parts : Parts) : Except Error InboundRequestTarget := do
  let host ← singleHostField parts.headers
  refuseIf (parts.version = .http11 && host = .missing)
    (.invalidHeader (ascii "HTTP/1.1 forwarding requires a Host field"))
  if parts.uri.path = ascii "*" then captureAsterisk parts host
  else
    match parts.uri.scheme, parts.uri.authority with
    | none, some a => captureAuthority parts host a
    | some scheme, some a => captureAbsolute parts host scheme a
    | some _, none =>
      .error (.invalidUrl (ascii "absolute request targets require an authority"))
    | none, none => captureOrigin parts host

def preservedAuthority : InboundRequestTarget → Option Authority
  | .origin a | .asterisk a _ => a
  | .absolute a _ _ | .authority a => some a

def connectAuthority : InboundRequestTarget → Option Authority
  | .authority a => some a
  | _ => none

def serverWideOptionsAuthorityInTarget : InboundRequestTarget → Option Bool
  | .asterisk _ authorityInTarget => some authorityInTarget
  | .absolute _ _ true => some true
  | .origin _ | .absolute _ _ false | .authority _ => none

end InboundRequestTarget

end Aioduct.Forward
