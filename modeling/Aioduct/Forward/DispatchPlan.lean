import Aioduct.Forward.RequestTarget
import Aioduct.Forward.Response

/-!
# Dispatch plans

`forward/dispatch_plan.rs`: an inbound request is rewritten for its upstream, a hook may change it,
and a plan fixes the protocol, the request target and the header fields of what is sent.
-/

namespace Aioduct.Forward

open Wire Http Pool

/-! ### Deferred decisions -/

inductive DeferredTe where
  | trailers
  | trailersForH2OrH3
  | invalidForH2OrH3

def DeferredTe.projectForSignature (self : DeferredTe) (headers : HeaderMap) : HeaderMap :=
  match self with
  | .trailers | .trailersForH2OrH3 => headers.insert .te trailersValue
  | .invalidForH2OrH3 => headers

variable (headers : HeaderMap)

def deferredTe (downstreamAcceptsTrailers : Bool) : Option DeferredTe :=
  let values := headers.getAll .te
  if values.isEmpty then none
  else if onlyTeTrailers values then
    some (if downstreamAcceptsTrailers then .trailers else .trailersForH2OrH3)
  else some .invalidForH2OrH3

def applyHttp11RequestFraming (hasBody hasTrailerDeclaration : Bool) : HeaderMap :=
  let headers := headers.remove .transferEncoding
  if !hasBody then headers.remove .trailer
  else if hasTrailerDeclaration || !headers.containsKey .contentLength then
    (headers.remove .contentLength).insert .transferEncoding chunkedValue
  else headers

structure DeferredForwardFraming where
  hasBody : Bool
  hasTrailerDeclaration : Bool

def DeferredForwardFraming.apply (self : DeferredForwardFraming) (headers : HeaderMap)
    (version : Version) : HeaderMap :=
  let headers := if !self.hasBody then headers.remove .trailer else headers
  if version.isH2OrH3 then headers.remove .transferEncoding
  else applyHttp11RequestFraming headers self.hasBody self.hasTrailerDeclaration

structure DeferredForwardTarget where
  h1Uri : Uri
  h2H3Uri : Uri
  h2UsesH1Translation : Bool

def DeferredForwardTarget.apply (self : DeferredForwardTarget) (parts : Parts)
    (version : Version) : Parts :=
  if version = .http2 && self.h2UsesH1Translation then
    { parts with uri := self.h1Uri, version := .http11 }
  else if version.isH2OrH3 then { parts with uri := self.h2H3Uri, version := version }
  else { parts with uri := self.h1Uri, version := .http11 }

structure ForwardSigningTarget where
  targetUri : Uri
  semanticRequestTarget : Uri

inductive ForwardMode where
  | normal
  | h1Upgrade
  | extendedConnect
  deriving DecidableEq

inductive EgressProtocol where
  | negotiated
  | http1
  | http2
  | http3
  deriving DecidableEq

variable (egress : EgressProtocol)

def EgressProtocol.isH2OrH3 : Bool := egress == .http2 || egress == .http3

inductive RequestTargetForm where
  | origin
  | absolute
  | authority
  | asterisk
  | asteriskAuthorityOmitted
  | asteriskAbsolute
  deriving DecidableEq

structure ServerWideOptions where
  authorityInTarget : Bool

inductive ForwardAsteriskAuthority where
  | included
  | omitted

inductive MethodSemanticClass where
  | ordinary
  | head
  | connect
  deriving DecidableEq

/-! ### Checks -/

variable (parts : Parts)

def normalizeConnectProtocol : Except Error (Option Bytes) := do
  refuseIf parts.h3Protocol
    (.unsupported (ascii "HTTP/3 extended CONNECT forwarding is not supported by aioduct"))
  refuseIf (parts.protocol.any fun protocol => !validToken protocol) (.invalidHeader
    (ascii "extended CONNECT protocol metadata must be a non-empty HTTP token"))
  pure parts.protocol

def connectProtocolOf : Except Error (Option Bytes) := do
  let protocol ← normalizeConnectProtocol parts
  refuseIf (protocol.isSome && parts.method ≠ .connect) (.unsupported
    (ascii "extended CONNECT protocol metadata requires the CONNECT method"))
  pure protocol

def captureDownstreamConnectProtocol : Except Error (Option Bytes) := connectProtocolOf parts

def validateConnectProtocolRewrite (downstream forwarded : Option Bytes) : Except Error Unit :=
  if downstream = forwarded then .ok ()
  else
    match downstream, forwarded with
    | none, some _ => .error (.unsupported
        (ascii "a forward hook cannot create extended CONNECT protocol metadata"))
    | some _, none => .error (.unsupported
        (ascii "a forward hook cannot remove extended CONNECT protocol metadata"))
    | some _, some _ => .error (.unsupported
        (ascii "a forward hook cannot change extended CONNECT protocol metadata"))
    | none, none => .ok ()

def methodSemanticClass (method : Method) : MethodSemanticClass :=
  if method = .head then .head else if method = .connect then .connect else .ordinary

def validateMethodRewrite (downstreamMethod upstreamMethod : Method) : Except Error Unit :=
  refuseIf (methodSemanticClass downstreamMethod ≠ methodSemanticClass upstreamMethod)
    (.unsupported (ascii "forward hooks cannot rewrite " ++ downstreamMethod.bytes ++
      ascii " to " ++ upstreamMethod.bytes ++
      ascii " across HEAD or CONNECT response semantic classes"))

def headerProtocolForEgress : EgressProtocol → HeaderProtocol
  | .negotiated => .negotiated
  | .http1 => .http11
  | .http2 => .http2
  | .http3 => .http3

def headerProtocolForVersion : Version → Except Error HeaderProtocol
  | .http10 => .ok .http10
  | .http11 => .ok .http11
  | .http2 => .ok .http2
  | .http3 => .ok .http3
  | .http09 => .error (.unsupported (ascii "forwarding downstream HTTP version " ++
      Version.http09.debug ++ ascii " is not supported"))

def egressForHint : ProtocolHint → EgressProtocol
  | .auto | .adaptiveH2c => .negotiated
  | .http1 => .http1
  | .http2 | .h2c => .http2
  | .http3 => .http3

def egressForExplicitVersion : Version → Except Error EgressProtocol
  | .http10 | .http11 => .ok .http1
  | .http2 => .ok .http2
  | .http3 => .ok .http3
  | .http09 => .error (.unsupported (ascii "forward hook selected unsupported HTTP version " ++
      Version.http09.debug))

def hintDebug : ProtocolHint → Bytes
  | .auto => ascii "Auto"
  | .http1 => ascii "Http1"
  | .http2 => ascii "Http2"
  | .http3 => ascii "Http3"
  | .h2c => ascii "H2c"
  | .adaptiveH2c => ascii "AdaptiveH2c"

/-! ### Authorities and targets -/

def noAuthority : Error := invalidForward (ascii "final URI has no authority")

def rewriteHost (authority : Authority) : Except Error HeaderMap := do
  let host ← okOr (.invalidHeader
    (ascii "invalid upstream Host field: " ++ HeaderValue.fromStrError))
    (HeaderValue.fromStr authority.text)
  pure ((headers.remove .host).insert .host host)

section

variable [UriParser]

def forwardedAuthority (headers : HeaderMap) (fallback : Authority) (requireHost : Bool)
    (preservedAuthority : Option Authority) : Except Error (HeaderMap × Authority) := do
  match ← singleHostField headers with
  | .authority host => pure (headers, host)
  | .missing =>
    if requireHost then do
      let authority ← okOr (.invalidHeader
        (ascii "preserve_host requires an inbound authority or Host field")) preservedAuthority
      let headers ← rewriteHost headers authority
      pure (headers, authority)
    else do
      let headers ← rewriteHost headers fallback
      pure (headers, fallback)
  | .empty =>
    if requireHost then
      throw (.invalidHeader
        (ascii "preserve_host cannot use an empty Host field as an upstream authority"))
    else do
      let headers ← rewriteHost headers fallback
      pure (headers, fallback)

def pathlessAbsoluteUri (uri : Uri) (authority : Option Authority) : Except Error Uri := do
  let scheme ← okOr (invalidForward (ascii "final URI has no scheme")) uri.scheme
  let authority ← okOr noAuthority authority
  (UriParser.parseUri (scheme ++ ascii "://" ++ authority.text)).mapError invalidForward

def originText (uri : Uri) : Bytes := (uri.pathAndQuery.map PathAndQuery.text).getD (ascii "/")

def requestUri (fullUri : Uri) (targetForm : RequestTargetForm)
    (authorityOverride : Option Authority) : Except Error Uri :=
  match targetForm with
  | .origin => (UriParser.parseUri (originText fullUri)).mapError .other
  | .absolute =>
    match authorityOverride with
    | none => .ok fullUri
    | some authority =>
      if fullUri.pathAndQuery.isNone then pathlessAbsoluteUri fullUri (some authority)
      else
        (UriParser.fromParts fullUri.scheme (some authority) fullUri.pathAndQuery).mapError
          invalidForward
  | .authority => do
    let authority ← okOr noAuthority (authorityOverride.or fullUri.authority)
    (UriParser.parseUri authority.text).mapError .other
  | .asterisk => .ok .asterisk
  | .asteriskAuthorityOmitted | .asteriskAbsolute =>
    (UriParser.fromParts fullUri.scheme authorityOverride (some ⟨ascii "*"⟩)).mapError
      invalidForward

def normalizeAbsoluteHookUri (uri : Uri) : Except Error Uri := do
  match uri.pathAndQuery with
  | some pathAndQuery =>
    if pathAndQuery.text.head? ≠ some (byte '?') then pure uri
    else do
      let pathAndQuery ← (UriParser.parsePathAndQuery (byte '/' :: pathAndQuery.text)).mapError
        invalidForward
      (UriParser.fromParts uri.scheme uri.authority (some pathAndQuery)).mapError invalidForward
  | none =>
    (UriParser.fromParts uri.scheme uri.authority (some ⟨ascii "/"⟩)).mapError invalidForward

open InboundRequestTarget (startsWithSlash)

def resolveAsterisk (rewrittenUri hookUri : Uri) (method : Method) :
    Except Error (Uri × Option ServerWideOptions) := do
  refuseIf (hookUri.pathAndQuery ≠ some ⟨ascii "*"⟩)
    (.invalidUrl (ascii "the asterisk request target must not include a query"))
  refuseIf (method ≠ .options)
    (.unsupported (ascii "the asterisk request target is only valid for OPTIONS"))
  match hookUri.scheme, hookUri.authority with
  | none, none => pure (rewrittenUri, some ⟨false⟩)
  | some _, some authority => do
    let _ ← validateAuthority authority
    pure (hookUri, some ⟨true⟩)
  | _, _ => throw (invalidForward
      (ascii "invalid asterisk request target `" ++ hookUri.display ++ ascii "`"))

def resolveAbsolute (hookUri : Uri) (method : Method) (authority : Authority) :
    Except Error (Uri × Option ServerWideOptions) := do
  let _ ← validateAuthority authority
  refuseIf (!hookUri.path.isEmpty && !startsWithSlash hookUri.path)
    (invalidForward (ascii "absolute request targets must use an absolute path"))
  if hookUri.pathAndQuery.isNone && method = .options then pure (hookUri, some ⟨true⟩)
  else do
    let uri ← normalizeAbsoluteHookUri hookUri
    pure (uri, none)

def resolveHookUri (rewrittenUri hookUri : Uri) (method : Method) :
    Except Error (Uri × Option ServerWideOptions) :=
  if hookUri.path = ascii "*" then resolveAsterisk rewrittenUri hookUri method
  else
    let unsupportedTarget := invalidForward
      (ascii "unsupported request target `" ++ hookUri.display ++ ascii "`")
    match hookUri.scheme, hookUri.authority with
    | some _, some authority => resolveAbsolute hookUri method authority
    | none, none =>
      if startsWithSlash hookUri.path then do
        let uri ← (UriParser.fromParts rewrittenUri.scheme rewrittenUri.authority
          hookUri.pathAndQuery).mapError invalidForward
        pure (uri, none)
      else throw unsupportedTarget
    | none, some authority =>
      if method = .connect then do
        let uri ← (UriParser.fromParts rewrittenUri.scheme (some authority)
          (some ⟨ascii "/"⟩)).mapError invalidForward
        pure (uri, none)
      else throw unsupportedTarget
    | some _, none => throw unsupportedTarget

end

/-! ### Rewriting -/

structure ForwardRewrite where
  upstream : Uri
  stripPrefix : Option Bytes
  preserveHost : Bool
  forwardHeaders : List HeaderName
  extraHeaders : HeaderMap
  removeHeaders : List HeaderName

structure ForwardRewriteResult where
  uri : Uri
  inboundTarget : InboundRequestTarget
  trailerPolicy : TrailerPolicy

namespace ForwardRewrite

variable (rewrite : ForwardRewrite)

def visitedNames : List HeaderName :=
  TrailerPolicy.extendNames []
    (if rewrite.forwardHeaders.contains .te then rewrite.forwardHeaders
    else rewrite.forwardHeaders ++ [.te])

/-- A nominated field is carried over only if the forwarder writes it again. -/
def controlledException (name : HeaderName) : Bool :=
  let preserveUpgrade := isH1Upgrade headers
  name = .te || (preserveUpgrade && name = .upgrade) ||
    (preserveUpgrade && isH2cUpgrade headers && name = .http2Settings)

def forwardedValues (headers : HeaderMap) (trailerPolicy : TrailerPolicy) :
    List (HeaderName × HeaderValue) :=
  rewrite.visitedNames.flatMap fun name =>
    if trailerPolicy.connectionNames.contains name && !controlledException headers name then []
    else (headers.getAll name).map fun value => (name, value)

def pathAfterStrip (originalPath : Bytes) : Bytes :=
  match rewrite.stripPrefix with
  | none => originalPath
  | some start =>
    let stripped := (originalPath.dropPrefix? start).getD originalPath
    if InboundRequestTarget.startsWithSlash stripped then stripped else byte '/' :: stripped

def rewrittenPath (uri : Uri) (isServerWideOptions : Bool) : Bytes :=
  let originalPath := if isServerWideOptions || uri.path.isEmpty then ascii "/" else uri.path
  let combinedPath :=
    rewrite.upstream.path.rdropWhile (· == byte '/') ++ rewrite.pathAfterStrip originalPath
  match uri.query with
  | some query => combinedPath ++ [byte '?'] ++ query
  | none => combinedPath

/-- What the builder has configured is put on the stripped map. -/
def configuredHeaders (headers : HeaderMap) (forwardedValues : List (HeaderName × HeaderValue)) :
    HeaderMap :=
  let headers := rewrite.visitedNames.foldl MultiMap.remove headers
  let headers := forwardedValues.foldl (fun headers line => headers.append line.1 line.2) headers
  let headers := rewrite.extraHeaders.lines.foldl
    (fun headers line => headers.insert line.1 line.2) headers
  rewrite.removeHeaders.foldl MultiMap.remove headers

def upstreamScheme : Except Error Bytes :=
  match rewrite.upstream.scheme with
  | some scheme => canonicalHttpScheme scheme
  | none => pure httpScheme

variable [UriParser]

def upstreamUri (rewrite : ForwardRewrite) (uri : Uri) (isServerWideOptions : Bool) :
    Except Error (Uri × Authority) := do
  let scheme ← rewrite.upstreamScheme
  let authority ← okOr (invalidForward (ascii "upstream has no authority"))
    rewrite.upstream.authority
  let pathAndQuery ← (UriParser.parsePathAndQuery
    (rewrite.rewrittenPath uri isServerWideOptions)).mapError
    fun error => invalidForward (ascii "invalid path: " ++ error)
  let fullUri ← (UriParser.fromParts (some scheme) (some authority) (some pathAndQuery)).mapError
    invalidForward
  pure (fullUri, authority)

def rewrittenHost (rewrite : ForwardRewrite) (headers : HeaderMap)
    (inboundTarget : InboundRequestTarget) (upstreamAuthority : Authority) :
    Except Error HeaderMap :=
  if rewrite.preserveHost then
    match inboundTarget.preservedAuthority with
    | some authority => rewriteHost headers authority
    | none => pure headers
  else rewriteHost headers upstreamAuthority

def rewrittenTarget (fullUri : Uri) : Option Bool → Except Error Uri
  | some true => requestUri fullUri .asteriskAbsolute fullUri.authority
  | some false => pure .asterisk
  | none => pure fullUri

end ForwardRewrite

def rewriteForUpstream [UriParser] (parts : Parts) (rewrite : ForwardRewrite) :
    Except Error (Parts × ForwardRewriteResult) := do
  let headers ← validateInboundRequestHeaders parts.version parts.headers
  let inboundTarget ← InboundRequestTarget.capture { parts with headers := headers }
  let trailerPolicy := .captureRequestForVersion headers parts.version
  let forwardedValues := rewrite.forwardedValues headers trailerPolicy
  let stripped := stripHopByHopWithPolicy headers trailerPolicy
  let serverWideOptions := inboundTarget.serverWideOptionsAuthorityInTarget
  let (fullUri, upstreamAuthority) ← rewrite.upstreamUri parts.uri serverWideOptions.isSome
  let hosted ← rewrite.rewrittenHost stripped inboundTarget upstreamAuthority
  let uri ← ForwardRewrite.rewrittenTarget fullUri serverWideOptions
  pure ({ parts with uri := uri, headers := rewrite.configuredHeaders hosted forwardedValues },
    ⟨fullUri, inboundTarget, trailerPolicy⟩)

/-! ### Plans -/

structure Planning where
  rewrittenUri : Uri
  inboundTarget : InboundRequestTarget
  rewrittenTrailerPolicy : TrailerPolicy
  requestedHint : ProtocolHint
  forceH1Upgrade : Bool
  downstreamH1UpgradeOffer : Option H1UpgradeOffer
  versionChangedByHook : Bool
  allowH3 : Bool
  allowExtendedConnect : Bool
  downstreamConnectProtocol : Option Bytes
  downstreamVersion : Version
  downstreamMethod : Method
  downstreamAcceptsTrailers : Bool
  preserveHost : Bool

namespace Planning

def isExtendedConnect (self : Planning) (parts : Parts) : Except Error Bool := do
  refuseIf (parts.version = .http09)
    (.unsupported (ascii "forwarding HTTP/0.9 requests is not supported"))
  validateMethodRewrite self.downstreamMethod parts.method
  let forwardedConnectProtocol ← connectProtocolOf parts
  validateConnectProtocolRewrite self.downstreamConnectProtocol forwardedConnectProtocol
  let isExtendedConnect := forwardedConnectProtocol.isSome && parts.method = .connect
  refuseIf (isExtendedConnect && !self.allowExtendedConnect)
    (.unsupported (ascii "extended CONNECT forwarding is unavailable on this runtime"))
  pure isExtendedConnect

def h1UpgradeOffer (self : Planning) (headers : HeaderMap) :
    Except Error (HeaderMap × Option H1UpgradeOffer) :=
  if self.forceH1Upgrade || isH1Upgrade headers then do
    let upstreamOffer ← okOr (.invalidHeader
      (ascii "HTTP/1.1 upgrade requires a valid downstream-compatible Upgrade offer"))
      (Forward.h1UpgradeOffer headers)
    let downstreamOffer ← okOr (.invalidHeader
      (ascii "a forward hook cannot create an HTTP/1.1 upgrade that the downstream did not offer"))
      self.downstreamH1UpgradeOffer
    let sharedOffer := upstreamOffer.intersect downstreamOffer
    refuseIf sharedOffer.isEmpty (.invalidHeader (ascii
      "the forwarded and downstream HTTP/1.1 Upgrade offers have no shared protocol"))
    let headers ← sharedOffer.constrainRequestHeaders headers
    pure (headers, some sharedOffer)
  else pure (headers, none)

def mode (isExtendedConnect isH1Upgrade : Bool) : ForwardMode :=
  if isExtendedConnect then .extendedConnect else if isH1Upgrade then .h1Upgrade else .normal

variable (mode : ForwardMode)

def isOrdinaryConnect (method : Method) : Bool :=
  mode = .normal && method = .connect

section

variable [UriParser]

def connectAuthority (self : Planning) (uri : Uri) : Except Error Authority :=
  if !uri.same self.rewrittenUri then
    match uri.scheme, uri.path.isEmpty, uri.authority with
    | none, true, some authority => pure authority
    | _, _, _ => throw (invalidForward
        (ascii "ordinary CONNECT hooks must use an authority-form target"))
  else okOr (invalidForward
    (ascii "ordinary CONNECT requires an authority-form inbound target"))
    self.inboundTarget.connectAuthority

/-- The upstream URI, and the authority of an ordinary CONNECT. -/
def resolveTarget (self : Planning) (parts : Parts) (mode : ForwardMode) :
    Except Error (Uri × Option ServerWideOptions × Option Authority) :=
  if isOrdinaryConnect mode parts.method then do
    let authority ← self.connectAuthority parts.uri
    validateConnectAuthority authority
    pure (self.rewrittenUri, none, some authority)
  else do
    let (fullUri, serverWideOptions) ← resolveHookUri self.rewrittenUri parts.uri parts.method
    pure (fullUri, serverWideOptions, none)

end

variable (self : Planning)

def explicitEgress (version : Version) : Except Error EgressProtocol :=
  let egress := egressForHint self.requestedHint
  if self.versionChangedByHook then do
    let versionEgress ← egressForExplicitVersion version
    refuseIf (egress ≠ .negotiated && egress ≠ versionEgress)
      (.unsupported (ascii "forward hook requested " ++ version.debug ++
        ascii ", which conflicts with " ++ hintDebug self.requestedHint ++ ascii " dispatch"))
    pure versionEgress
  else pure egress

def egressForMode (egress : EgressProtocol) : Except Error EgressProtocol :=
  match mode with
  | .h1Upgrade =>
    if egress.isH2OrH3 then
      .error (.unsupported
        (ascii "HTTP/1.1 upgrade forwarding conflicts with the requested upstream protocol"))
    else .ok .http1
  | .extendedConnect =>
    if egress = .negotiated || egress = .http2 then .ok .http2
    else .error (.unsupported (ascii "extended CONNECT forwarding requires HTTP/2"))
  | .normal => .ok egress

/-- HTTP/2 cannot say `https` without an authority. -/
def egressForAsterisk (serverWideOptions : Option ServerWideOptions) (scheme : Bytes)
    (egress : EgressProtocol) : Except Error EgressProtocol :=
  if serverWideOptions.any (fun options => !options.authorityInTarget) && scheme = httpsScheme then
    match egress with
    | .negotiated => .ok .http1
    | .http2 => .error (.unsupported (ascii
        "authority-omitted HTTPS OPTIONS * cannot be represented by the HTTP/2 transport"))
    | .http1 | .http3 => .ok egress
  else .ok egress

def selectEgress (parts : Parts) (mode : ForwardMode) (scheme : Bytes)
    (serverWideOptions : Option ServerWideOptions) : Except Error EgressProtocol := do
  let egress ← self.explicitEgress parts.version
  let egress ← egressForMode mode egress
  -- an ordinary CONNECT does not negotiate
  let egress := if isOrdinaryConnect mode parts.method && egress = .negotiated then .http1
    else egress
  let egress ← egressForAsterisk serverWideOptions scheme egress
  refuseIf (egress = .http3 && !self.allowH3)
    (.unsupported (ascii "HTTP/3 forwarding is unavailable on this runtime"))
  refuseIf (egress = .http3 && scheme ≠ httpsScheme)
    (.unsupported (ascii "HTTP/3 forwarding requires an HTTPS upstream"))
  refuseIf (egress = .http3 && parts.method = .connect)
    (.unsupported (ascii "ordinary CONNECT forwarding over HTTP/3 is not supported"))
  refuseIf (parts.method = .connect && egress = .http2 && !self.allowExtendedConnect)
    (.unsupported (ascii "HTTP/2 CONNECT forwarding is unavailable on this runtime"))
  pure egress

def protocolHint (egress : EgressProtocol) (scheme : Bytes) : ProtocolHint :=
  match egress with
  | .negotiated => if self.requestedHint = .adaptiveH2c then .adaptiveH2c else .auto
  | .http1 => .http1
  | .http2 => if scheme = httpScheme then .h2c else .http2
  | .http3 => .http3

def targetForm (method : Method) : Option ServerWideOptions → RequestTargetForm
  | some options =>
    match egress, options.authorityInTarget with
    | .negotiated, _ | .http1, _ => .asterisk
    | .http2, true | .http3, true => .asteriskAbsolute
    | .http2, false => .asterisk
    | .http3, false => .asteriskAuthorityOmitted
  | none =>
    match mode with
    | .extendedConnect => .absolute
    | .normal =>
      if method = .connect then .authority else if egress.isH2OrH3 then .absolute else .origin
    | .h1Upgrade => .origin

/-- The authority is followed into a `Host` field that nobody has set. -/
def followHost (headers : HeaderMap) (ordinaryConnect : Bool) (fullUri : Uri) :
    Except Error HeaderMap :=
  if !ordinaryConnect && !self.preserveHost &&
      !sameAuthority fullUri.authority self.rewrittenUri.authority then do
    let authority ← okOr noAuthority fullUri.authority
    rewriteHost headers authority
  else pure headers

def wireAuthority [UriParser] (self : Planning) (headers : HeaderMap) (fullUri : Uri) :
    Option Authority → Except Error (HeaderMap × Authority)
  | some authority => do
    let headers ← rewriteHost headers authority
    pure (headers, authority)
  | none => do
    let fallback ← okOr noAuthority fullUri.authority
    forwardedAuthority headers fallback self.preserveHost self.inboundTarget.preservedAuthority

end Planning

namespace RequestTargetForm

def namesAuthority : RequestTargetForm → Bool
  | .absolute | .authority | .asteriskAuthorityOmitted | .asteriskAbsolute => true
  | .origin | .asterisk => false

def isPathless : RequestTargetForm → Bool
  | .authority | .asterisk | .asteriskAuthorityOmitted | .asteriskAbsolute => true
  | .origin | .absolute => false

end RequestTargetForm

section

variable [UriParser]

def deferredTarget (egress : EgressProtocol) (fullUri : Uri)
    (serverWideOptions : Option ServerWideOptions) (wireAuthority : Authority) :
    Except Error (Option DeferredForwardTarget) :=
  if egress = .negotiated then do
    let h1Uri ← requestUri fullUri
      (if serverWideOptions.isSome then .asterisk else .origin) none
    let h2H3Uri ← requestUri fullUri
      (if serverWideOptions.isSome then .asteriskAbsolute else .absolute) (some wireAuthority)
    pure (some ⟨h1Uri, h2H3Uri, serverWideOptions.any fun options => !options.authorityInTarget⟩)
  else pure none

variable (targetForm : RequestTargetForm)

def semanticRequestTarget (fullUri finalRequestUri : Uri)
    (wireAuthority : Authority) : Except Error Uri :=
  match targetForm with
  | .origin => pure finalRequestUri
  | .absolute => requestUri fullUri .origin none
  | .authority => requestUri fullUri .authority (some wireAuthority)
  | .asterisk | .asteriskAuthorityOmitted | .asteriskAbsolute => pure .asterisk

def signingTargetUri (fullUri : Uri) (wireAuthority : Authority) : Except Error Uri :=
  if targetForm.isPathless then pathlessAbsoluteUri fullUri (some wireAuthority)
  else requestUri fullUri .absolute (some wireAuthority)

end

structure ForwardDispatchPlan where
  fullUri : Uri
  requestUri : Uri
  requestVersion : Version
  protocolHint : ProtocolHint
  deferredTe : Option DeferredTe
  negotiatedFraming : Bool
  deferredTarget : Option DeferredForwardTarget
  h3AsteriskAuthority : Option ForwardAsteriskAuthority
  signingTarget : ForwardSigningTarget
  responseHeaders : ResponseHeaderPolicy
  requestTrailers : TrailerPolicy

structure PlannedRequest where
  parts : Parts
  protocolHint : ProtocolHint
  deferredTe : Option DeferredTe
  deferredTarget : Option DeferredForwardTarget
  h3AsteriskAuthority : Option ForwardAsteriskAuthority
  framing : Option DeferredForwardFraming
  trailers : Option TrailerPolicy
  signingTarget : ForwardSigningTarget

namespace ForwardDispatchPlan

def requestVersionFor (targetForm : RequestTargetForm) : Version :=
  match egress with
  | .negotiated | .http1 => .http11
  | .http2 => if targetForm = .asterisk then .http11 else .http2
  | .http3 => .http3

def restrictTrailers (trailers : TrailerPolicy) (headers : HeaderMap) : TrailerPolicy :=
  match egress with
  | .negotiated => trailers.deferToConnection headers
  | .http1 => trailers.restrictToDeclaration headers
  | .http2 | .http3 => trailers

variable [UriParser] [UrlSafeNoPad]

/-- The header fields of the plan: sanitized, and then the `Host` field again, which the inbound
request may have nominated. -/
def finalHeaders (args : Planning) (headers : HeaderMap) (egress : EgressProtocol)
    (mode : ForwardMode) (wireAuthority : Authority) :
    Except Error (HeaderMap × TrailerPolicy) := do
  let (headers, trailerPolicy) ← sanitizeRequest headers (headerProtocolForEgress egress)
    (mode = .h1Upgrade) args.downstreamAcceptsTrailers
  let headers ← rewriteHost headers wireAuthority
  pure (headers, trailerPolicy)

def finalize (parts : Parts) (args : Planning) : Except Error (Parts × ForwardDispatchPlan) := do
  let isExtendedConnect ← args.isExtendedConnect parts
  let (headers, h1UpgradeOffer) ← args.h1UpgradeOffer parts.headers
  refuseIf (h1UpgradeOffer.isSome && parts.method = .connect)
    (.unsupported (ascii "a forwarded CONNECT request cannot also be an HTTP/1.1 upgrade"))
  let mode := Planning.mode isExtendedConnect h1UpgradeOffer.isSome
  let downstreamProtocol ← headerProtocolForVersion args.downstreamVersion
  refuseIf (mode = .h1Upgrade && args.downstreamVersion ≠ .http11)
    (.unsupported (ascii "HTTP/1.1 upgrades require an HTTP/1.1 downstream request"))
  let (resolvedUri, serverWideOptions, connectAuthority) ← args.resolveTarget parts mode
  let (fullUri, scheme) ← canonicalizeHttpUri resolvedUri
  refuseIf (args.requestedHint = .h2c && scheme = httpsScheme)
    (.unsupported (ascii "h2c forwarding requires a plaintext HTTP upstream"))
  let headers ← args.followHost headers (Planning.isOrdinaryConnect mode parts.method) fullUri
  let egress ← args.selectEgress parts mode scheme serverWideOptions
  let (headers, wireAuthority) ← args.wireAuthority headers fullUri connectAuthority
  let targetForm := Planning.targetForm egress mode parts.method serverWideOptions
  refuseIf (targetForm = .asteriskAuthorityOmitted) (.unsupported (ascii
    "HTTP/3 forwarding cannot encode authority-free OPTIONS * with upstream h3"))
  let authorityOverride := if targetForm.namesAuthority then some wireAuthority else none
  let finalRequestUri ← Forward.requestUri fullUri targetForm authorityOverride
  let deferredTarget ← Forward.deferredTarget egress fullUri serverWideOptions wireAuthority
  let semanticTarget ← semanticRequestTarget targetForm fullUri finalRequestUri wireAuthority
  let signingTarget ← signingTargetUri targetForm fullUri wireAuthority
  let deferredTe := if egress = .negotiated then
    Forward.deferredTe headers args.downstreamAcceptsTrailers else none
  let (headers, finalTrailerPolicy) ← finalHeaders args headers egress mode wireAuthority
  let requestTrailers := restrictTrailers egress
    (args.rewrittenTrailerPolicy.merge finalTrailerPolicy) headers
  pure ({ parts with headers := headers },
    { fullUri := fullUri
      requestUri := finalRequestUri
      requestVersion := requestVersionFor egress targetForm
      protocolHint := args.protocolHint egress scheme
      deferredTe := deferredTe
      negotiatedFraming := egress = .negotiated
      deferredTarget := deferredTarget
      h3AsteriskAuthority := if egress = .http3 && serverWideOptions.isSome then
        some (if targetForm = .asteriskAuthorityOmitted then .omitted else .included) else none
      signingTarget := ⟨signingTarget, semanticTarget⟩
      responseHeaders := ⟨downstreamProtocol, args.downstreamMethod,
        args.downstreamAcceptsTrailers, h1UpgradeOffer⟩
      requestTrailers := requestTrailers })

omit [UriParser] [UrlSafeNoPad] in
/-- The framing that the plan knows, and the header fields with it. -/
def framingFor (headers : HeaderMap) (bodyIsEndStream : Bool) :
    HeaderMap × DeferredForwardFraming :=
  let headers := if bodyIsEndStream then headers.remove .trailer else headers
  (headers, ⟨!bodyIsEndStream, headers.containsKey .trailer⟩)

omit [UriParser] [UrlSafeNoPad] in
def apply (self : ForwardDispatchPlan) (parts : Parts) (bodyIsEndStream : Bool) : PlannedRequest :=
  let (headers, framing) := framingFor parts.headers bodyIsEndStream
  let headers := if !self.negotiatedFraming && self.requestVersion = .http11 then
    framing.apply headers self.requestVersion else headers
  { parts := { parts with
      uri := self.requestUri, version := self.requestVersion, headers := headers }
    protocolHint := self.protocolHint
    deferredTe := self.deferredTe
    deferredTarget := self.deferredTarget
    h3AsteriskAuthority := self.h3AsteriskAuthority
    framing := if self.negotiatedFraming then some framing else none
    trailers := if self.negotiatedFraming then some self.requestTrailers else none
    signingTarget := self.signingTarget }

end ForwardDispatchPlan

end Aioduct.Forward
