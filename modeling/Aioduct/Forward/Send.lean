import Aioduct.DigestFields
import Aioduct.Forward.DispatchPlan
import Aioduct.MessageSignatures.Automatic

/-!
# Sending a forwarded request

`forward/mod.rs` and the end of `client/connection_lifecycle.rs`: the builder plans the request,
and on a connection the deferred decisions are made.
-/

namespace Aioduct.Forward

open Wire Http Pool MessageFraming
open MessageSignatures (MessageSigner signatureName signatureInputName)

structure Engine where
  h3Endpoint : Bool := false
  automaticContentDigest : Bool := false
  messageSignature : Option MessageSigner := none

structure ForwardBuilder where
  request : Parts
  bodyIsEndStream : Bool
  /-- The exact size of the body, if it is known. -/
  bodySize : Option UInt64 := none
  upstream : Option Uri := none
  stripPrefix : Option Bytes := none
  preserveHost : Bool := false
  extraHeaders : HeaderMap := ⟨[]⟩
  removeHeaders : List HeaderName := []
  forwardHeaders : List HeaderName := []
  protocolHint : ProtocolHint := .auto
  signFinalRequest : Bool := true
  onRequest : Option (Parts → Parts) := none
  forceH1Upgrade : Bool := false
  /-- A header is added by setting it. -/
  extra_nodup : (extraHeaders.lines.map Prod.fst).Nodup

namespace ForwardBuilder

def new (request : Parts) (bodyIsEndStream : Bool) (bodySize : Option UInt64) : ForwardBuilder where
  request := request
  bodyIsEndStream := bodyIsEndStream
  bodySize := bodySize
  extraHeaders := ⟨[]⟩
  extra_nodup := List.nodup_nil

variable (self : ForwardBuilder) (name : HeaderName)

def header (value : HeaderValue) : ForwardBuilder where
  __ := self
  extraHeaders := self.extraHeaders.insert name value
  extra_nodup := self.extraHeaders.nodup_insert self.extra_nodup name value

/-- The inbound upgrade fields are carried over the first stripping. -/
def allForwardHeaders : List HeaderName :=
  if self.forceH1Upgrade || isH1Upgrade self.request.headers then
    self.forwardHeaders ++ [.connection, .upgrade] ++
      (if isH2cUpgrade self.request.headers then [.http2Settings] else [])
  else self.forwardHeaders

def rewrite (upstream : Uri) : ForwardRewrite where
  upstream := upstream
  stripPrefix := self.stripPrefix
  preserveHost := self.preserveHost
  forwardHeaders := self.allForwardHeaders
  extraHeaders := self.extraHeaders
  removeHeaders := self.removeHeaders

def runHook (parts : Parts) : Parts :=
  match self.onRequest with
  | some hook => hook parts
  | none => parts

def planning (engine : Engine) (connectProtocol : Option Bytes) (rewritten : Parts)
    (result : ForwardRewriteResult) : Planning where
  rewrittenUri := result.uri
  inboundTarget := result.inboundTarget
  rewrittenTrailerPolicy := result.trailerPolicy
  requestedHint := self.protocolHint
  forceH1Upgrade := self.forceH1Upgrade
  downstreamH1UpgradeOffer := h1UpgradeOffer self.request.headers
  versionChangedByHook := (self.runHook rewritten).version ≠ rewritten.version
  allowH3 := engine.h3Endpoint
  allowExtendedConnect := true
  downstreamConnectProtocol := connectProtocol
  downstreamVersion := self.request.version
  downstreamMethod := self.request.method
  downstreamAcceptsTrailers :=
    downstreamAcceptsResponseTrailers self.request.version self.request.headers
  preserveHost := self.preserveHost

end ForwardBuilder

def validateForwardContentLength (headers : HeaderMap) (bodySize : Option UInt64) :
    Except Error HeaderMap := do
  let (headers, contentLength) ← normalizeContentLength headers (ascii "forwarded request")
  match contentLength, bodySize with
  | some contentLength, some exact =>
    refuseIf (contentLength ≠ exact) (.invalidHeader (ascii "forwarded request body length " ++
      numeral exact.toNat ++ ascii " does not match Content-Length " ++
      numeral contentLength.toNat))
  | _, _ => pure ()
  pure headers

namespace Engine

/-- The body of a forwarded request is not at hand. -/
def applyAutomaticContentDigest (self : Engine) (headers : HeaderMap) : Except Error Unit :=
  refuseIf (self.automaticContentDigest && !headers.containsKey DigestFields.contentDigest)
    (.unsupported (ascii
      "automatic Content-Digest requires a buffered request body or an explicit Content-Digest header"))

def signRequest (self : Engine) (signFinalRequest : Bool) (request : PlannedRequest)
    (headers : HeaderMap) : Except Error HeaderMap :=
  if signFinalRequest then
    match self.messageSignature with
    | some signer => signer.sign request.parts.method request.signingTarget.targetUri
        request.signingTarget.semanticRequestTarget headers
    | none => pure headers
  else pure headers

end Engine

namespace PlannedRequest

def withHeaders (self : PlannedRequest) (headers : HeaderMap) : PlannedRequest :=
  { self with parts := { self.parts with headers := headers } }

def projectDeferredHeadersForSignature (self : PlannedRequest) (headers : HeaderMap) : HeaderMap :=
  match self.deferredTe with
  | some deferredTe => deferredTe.projectForSignature headers
  | none => headers

end PlannedRequest

namespace ForwardBuilder

/-- What is done with a planned request before a connection is chosen. -/
def finish (self : ForwardBuilder) (engine : Engine) (planned : PlannedRequest) :
    Except Error PlannedRequest := do
  let headers ← validateForwardContentLength planned.parts.headers self.bodySize
  engine.applyAutomaticContentDigest headers
  let headers ← engine.signRequest self.signFinalRequest planned
    (planned.projectDeferredHeadersForSignature headers)
  pure (planned.withHeaders headers)

def plan [UriParser] [UrlSafeNoPad] (self : ForwardBuilder) (engine : Engine) :
    Except Error (ForwardDispatchPlan × PlannedRequest) := do
  let connectProtocol ← captureDownstreamConnectProtocol self.request
  let upstream ← okOr (invalidForward (ascii "no upstream configured")) self.upstream
  let (rewritten, result) ← rewriteForUpstream self.request (self.rewrite upstream)
  let (finalized, plan) ← ForwardDispatchPlan.finalize (self.runHook rewritten)
    (self.planning engine connectProtocol rewritten result)
  let planned ← self.finish engine (plan.apply finalized self.bodyIsEndStream)
  pure (plan, planned)

end ForwardBuilder

inductive Connection where
  | h1
  | h2
  | h3
  deriving DecidableEq

def Connection.version : Connection → Version
  | .h1 => .http11
  | .h2 => .http2
  | .h3 => .http3

/-- The connections that a hint leads to: the protocol of a hint is the only one that is offered, a
peer that does not take it is refused, and the connections are pooled apart. -/
def Connection.serves (connection : Connection) : ProtocolHint → Bool
  | .http1 => connection = .h1
  | .http2 | .h2c | .http3 => connection ≠ .h1
  | .auto | .adaptiveH2c => true

def applyDeferredTe (deferredTe : DeferredTe) (headers : HeaderMap) (connection : Connection) :
    Except Error HeaderMap :=
  let headers := headers.remove .te
  match connection with
  | .h2 | .h3 =>
    match deferredTe with
    | .trailers | .trailersForH2OrH3 => .ok (headers.insert .te trailersValue)
    | .invalidForH2OrH3 =>
      .error (.invalidHeader (ascii "HTTP/2 and HTTP/3 TE fields may contain only `trailers`"))
  | .h1 =>
    match deferredTe with
    | .trailersForH2OrH3 =>
      if headers.containsKey signatureInputName then .error (.unsupported (ascii
        "a negotiated HTTP/1.1 forward cannot retain a signature generated over an HTTP/2-only TE field"))
      else .ok headers
    | .trailers => .ok (restoreH1TeTrailers headers)
    | .invalidForH2OrH3 => .ok headers

namespace PlannedRequest

variable (self : PlannedRequest) (connection : Connection)

def deferredTeHeaders : Except Error HeaderMap :=
  match self.deferredTe with
  | some deferredTe => applyDeferredTe deferredTe self.parts.headers connection
  | none => .ok self.parts.headers

def framedHeaders (headers : HeaderMap) (connection : Connection) : HeaderMap :=
  match self.framing with
  | some framing => framing.apply headers connection.version
  | none => headers

def targetedParts : Parts :=
  match self.deferredTarget with
  | some target => target.apply self.parts connection.version
  | none => self.parts

def finalizeDeferredRequestHeaders : Except Error PlannedRequest := do
  let headers ← self.deferredTeHeaders connection
  let (headers, _) ← validateFinalRequestHeaders connection.version
    (self.framedHeaders headers connection)
  pure { self with
    parts := { self.targetedParts connection with headers := headers }
    trailers := self.trailers.map fun policy => policy.selectForVersion connection.version }

end PlannedRequest

section

variable [UriParser] (parts : Parts)

def prepareH1RequestTarget : Except Error Uri :=
  if parts.method ≠ .connect && parts.uri.scheme.isSome then
    (UriParser.parseUri (originText parts.uri)).mapError
      fun error => .invalidUrl (ascii "invalid HTTP/1 request target: " ++ error)
  else pure parts.uri

variable (fullUri : Uri)

def connectTarget : Except Error Uri := do
  let authority ← okOr (.invalidUrl (ascii "CONNECT request is missing authority"))
    (parts.uri.authority.or fullUri.authority)
  (do
    let authority ← UriParser.parseAuthority authority.text
    UriParser.fromParts none (some authority) none).mapError
    fun error => .invalidUrl (ascii "invalid CONNECT authority: " ++ error)

/-- An `OPTIONS *` request that does not name its authority. -/
def asteriskTarget (version : Version) : Except Error Uri :=
  if parts.method = .options && version = .http2 && parts.version = .http11 then
    if fullUri.scheme ≠ some httpScheme then
      .error (.unsupported (ascii
        "authority-omitted OPTIONS * requires an HTTP scheme for HTTP/2 translation"))
    else .ok parts.uri
  else
    .error (.unsupported (ascii
      "OPTIONS * cannot be represented with complete pseudo-headers by the " ++ version.debug ++
      ascii " transport"))

def prepareH2OrH3RequestTarget (version : Version) : Except Error Uri :=
  if parts.method = .connect then
    -- an extended CONNECT keeps its scheme and path
    if parts.protocol.isSome then pure parts.uri else connectTarget parts fullUri
  else if parts.uri.scheme.isSome then pure parts.uri
  else if parts.uri.path = ascii "*" then asteriskTarget parts fullUri version
  else
    (UriParser.fromParts fullUri.scheme fullUri.authority parts.uri.pathAndQuery).mapError
      fun error => .invalidUrl (ascii "invalid " ++ version.debug ++ ascii " request target: " ++
        error)

/-- A forwarded request brings its `Host` field, so none is added here. -/
def prepareRequestTargetForConnection (connection : Connection) (fullUri : Uri) :
    Except Error Uri :=
  match connection with
  | .h1 => prepareH1RequestTarget parts
  | .h2 => prepareH2OrH3RequestTarget parts fullUri .http2
  | .h3 => prepareH2OrH3RequestTarget parts fullUri .http3

def PlannedRequest.sendOn (self : PlannedRequest) (fullUri : Uri) (connection : Connection) :
    Except Error PlannedRequest := do
  let request ← self.finalizeDeferredRequestHeaders connection
  let uri ← prepareRequestTargetForConnection request.parts connection fullUri
  pure { request with parts := { request.parts with uri := uri } }

/-- A request that comes back unsent is handed to the next connection. -/
def PlannedRequest.sendOnEach (self : PlannedRequest) (fullUri : Uri)
    (connections : List Connection) : Except Error PlannedRequest :=
  connections.foldlM (fun request connection => request.sendOn fullUri connection) self

/-- What the last of the connections is handed, if none refuses. -/
def ForwardBuilder.send [UrlSafeNoPad] (self : ForwardBuilder) (engine : Engine)
    (connections : List Connection) : Except Error PlannedRequest := do
  let (plan, planned) ← self.plan engine
  planned.sendOnEach plan.fullUri connections

end

end Aioduct.Forward
