import Aioduct.Forward.HopByHop

/-!
# Responses

`forward/hop_by_hop.rs`, the response side, and the body of `forward/mod.rs` that goes with it.
-/

namespace Aioduct.Forward

open Wire Http MessageFraming

structure ResponseBodyPolicy where
  trailers : TrailerPolicy
  allowBody : Bool
  eagerValidateBeforeHandoff : Bool
  bodyLength : BodyLengthValidator

def forwardedResponse : Bytes := ascii "forwarded response"

namespace ResponseBodyPolicy

variable (self : ResponseBodyPolicy)

def finish : Except Error ResponseBodyPolicy := do
  let bodyLength ← self.bodyLength.finish forwardedResponse
  pure { self with bodyLength := bodyLength }

def sanitizeData (bytes : Bytes) : Except Error (ResponseBodyPolicy × Option Frame) :=
  if self.allowBody then do
    let bodyLength ← self.bodyLength.record bytes.length forwardedResponse
    pure ({ self with bodyLength := bodyLength }, some (.data bytes))
  else
    .error (.invalidHeader
      (ascii "upstream sent a payload frame for a response that cannot contain a body"))

def sanitizeFrame : Frame → Except Error (ResponseBodyPolicy × Option Frame)
  | .data bytes => self.sanitizeData bytes
  | .trailers fields => do
    let finished ← self.finish
    let kept ← self.trailers.sanitizeTrailers fields
    pure (finished, kept.map .trailers)

def isEndStream (innerIsEndStream : Bool) : Bool :=
  self.bodyLength.isEndStream innerIsEndStream

end ResponseBodyPolicy

/-- What is still to come from the body of the upstream response, or nothing after its end or an
error. -/
structure SanitizedForwardResponseBody where
  inner : Option (List (Except Error Frame))
  policy : ResponseBodyPolicy

namespace SanitizedForwardResponseBody

def pollInner (policy : ResponseBodyPolicy) :
    List (Except Error Frame) → Option (Except Error Frame) × SanitizedForwardResponseBody
  | [] =>
    match policy.finish with
    | .ok policy => (none, ⟨none, policy⟩)
    | .error error => (some (.error error), ⟨none, policy⟩)
  | .error error :: _ => (some (.error error), ⟨none, policy⟩)
  | .ok frame :: rest =>
    match policy.sanitizeFrame frame with
    | .ok (policy, some frame) => (some (.ok frame), ⟨some rest, policy⟩)
    | .ok (policy, none) => pollInner policy rest
    | .error error => (some (.error error), ⟨none, policy⟩)

variable (self : SanitizedForwardResponseBody)

def pollFrame : Option (Except Error Frame) × SanitizedForwardResponseBody :=
  match self.inner with
  | none => (none, self)
  | some items => pollInner self.policy items

def isEndStream : Bool :=
  match self.inner with
  | none => true
  | some items => self.policy.isEndStream items.isEmpty

/-- The frames of so many polls, if none of them ends the body. -/
def read : Nat → SanitizedForwardResponseBody → Option (List Frame × SanitizedForwardResponseBody)
  | 0, body => some ([], body)
  | n + 1, body =>
    match body.pollFrame with
    | (some (.ok frame), body) => (read n body).map fun (frames, body) => (frame :: frames, body)
    | _ => none

def atEnd : Bool :=
  self.isEndStream || self.pollFrame.1 == none

end SanitizedForwardResponseBody

def drain (policy : ResponseBodyPolicy) : List (Except Error Frame) → Except Error Unit
  | [] => policy.finish.map fun _ => ()
  | .error error :: _ => .error error
  | .ok frame :: rest =>
    match policy.sanitizeFrame frame with
    | .ok (policy, _) => drain policy rest
    | .error error => .error error

/-- The body that is handed on. Where there can be no content it is read before the response is
handed on, and nothing is left of it. -/
def sanitizeForwardResponseBody (policy : ResponseBodyPolicy)
    (items : List (Except Error Frame)) : Except Error SanitizedForwardResponseBody :=
  if policy.eagerValidateBeforeHandoff then
    (drain policy items).map fun _ => ⟨none, policy⟩
  else .ok ⟨some items, policy⟩

def responseAllowsBody (method : Method) (status : StatusCode) : Bool :=
  method != .head && !status.isInformational && status != 204 && status != 205 &&
    status != 304 && !(method == .connect && status.isSuccess)

def zeroLength : HeaderValue := lengthValue 0

def sanitizeBodylessFraming (status : StatusCode) (method : Method) (headers : HeaderMap) :
    HeaderMap :=
  let headers := headers.remove .transferEncoding
  if method == .head || status == 304 then headers
  else
    let headers := headers.remove .contentLength
    if status == 205 then headers.insert .contentLength zeroLength else headers

structure ResponseHeaderPolicy where
  protocol : HeaderProtocol
  requestMethod : Method
  downstreamAcceptsTrailers : Bool
  h1UpgradeOffer : Option H1UpgradeOffer

namespace ResponseHeaderPolicy

variable (self : ResponseHeaderPolicy)

def downstreamVersion : Version :=
  match self.protocol with
  | .http10 => .http10
  | .http11 | .negotiated => .http11
  | .http2 => .http2
  | .http3 => .http3

def unofferedProtocol (selected : Bytes) : Error :=
  .invalidHeader (ascii "upstream selected unoffered upgrade protocol `" ++ selected ++ ascii "`")

variable (headers : HeaderMap)

def validateSwitchingProtocols : Except Error Unit :=
  if self.protocol ≠ .http11 then
    .error (.invalidHeader
      (ascii "101 Switching Protocols is valid only on an HTTP/1.1 downstream connection"))
  else
    match self.h1UpgradeOffer with
    | none =>
      .error (.invalidHeader
        (ascii "upstream sent an unsolicited 101 Switching Protocols response"))
    | some offer =>
      if !(connectionOptions headers).contains .upgrade then
        .error (.invalidHeader
          (ascii "101 Switching Protocols requires `Connection: upgrade`"))
      else
        match collectUpgradeValues headers with
        | none =>
          .error (.invalidHeader
            (ascii "101 Switching Protocols requires a valid non-empty Upgrade field"))
        | some values =>
          match (normalizedUpgradeProtocols values).find? fun selected =>
              !offer.protocols.contains selected with
          | some selected => .error (unofferedProtocol selected)
          | none => .ok ()

variable (status : StatusCode)

def responseUpgradeValues (headers : HeaderMap) : Except Error (Option (List HeaderValue)) :=
  if status = 101 then do
    self.validateSwitchingProtocols headers
    pure (collectUpgradeValues headers)
  else .ok none

def sourceIsH2OrH3 (sourceVersion : Option Version) : Bool := sourceVersion.all Version.isH2OrH3

/-- A response that is native to the protocol of the peer is checked before it is rewritten. -/
def checkSource (sourceVersion : Option Version) : Except Error Unit :=
  if self.protocol.isH2OrH3 && sourceIsH2OrH3 sourceVersion then
    validateH2H3HeaderBlock (sourceVersion.getD self.downstreamVersion) headers false
  else .ok ()

/-- Any other one is checked afterwards. -/
def checkTarget (sourceVersion : Option Version) : Except Error Unit :=
  if self.protocol.isH2OrH3 && !sourceIsH2OrH3 sourceVersion then
    validateH2H3HeaderBlock self.downstreamVersion headers false
  else .ok ()

def selectTrailers (policy : TrailerPolicy) : TrailerPolicy :=
  match self.protocol with
  | .http3 => policy.selectForVersion .http3
  | .http2 => policy.requireStrictFieldValuesForVersion .http2
  | _ => policy

def refusesTrailers (allowsBody : Bool) : Bool :=
  self.protocol == .http10 ||
    (self.protocol == .http11 && (!allowsBody || !self.downstreamAcceptsTrailers))

def responseTrailerPolicy (headers : HeaderMap) (sourceVersion : Option Version) : TrailerPolicy :=
  let policy := self.selectTrailers (.captureResponseForVersion headers
    (sourceVersion.getD self.downstreamVersion) status)
  if self.refusesTrailers (responseAllowsBody self.requestMethod status) then
    policy.disallowTrailers
  else policy

def framesTrailers : Bool :=
  self.protocol == .http11 && responseAllowsBody self.requestMethod status &&
    self.downstreamAcceptsTrailers

def frameTrailers : HeaderMap :=
  if headers.containsKey .trailer then
    (headers.remove .contentLength).insert .transferEncoding chunkedValue
  else headers

/-- `Transfer-Encoding` has precedence over `Content-Length`. -/
def expectedLength (transferCoded : Bool) (contentLength : Option UInt64) : BodyLengthValidator :=
  if responseAllowsBody self.requestMethod status then
    .fromExpected (if transferCoded then none else contentLength)
  else .exact 0

def validatesEagerly : Bool :=
  self.requestMethod == .head || status == 204 || status == 205 || status == 304

def restoreFields (upgradeValues : Option (List HeaderValue)) (headers : HeaderMap) : HeaderMap :=
  let headers :=
    match upgradeValues with
    | some values => restoreH1Upgrade headers values
    | none => headers
  if self.framesTrailers status then frameTrailers headers else headers

def bodyPolicy (trailers : TrailerPolicy) (headers : HeaderMap)
    (bodyLength : BodyLengthValidator) : ResponseBodyPolicy where
  trailers := if self.framesTrailers status then trailers.restrictToDeclaration headers
    else trailers
  allowBody := responseAllowsBody self.requestMethod status
  eagerValidateBeforeHandoff := self.validatesEagerly status
  bodyLength := bodyLength

/-- The headers without the framing of a body that cannot be there. -/
def dropFraming (headers : HeaderMap) : HeaderMap :=
  if responseAllowsBody self.requestMethod status then headers
  else sanitizeBodylessFraming status self.requestMethod headers

def sanitize (headers : HeaderMap) (sourceVersion : Option Version) :
    Except Error (HeaderMap × ResponseBodyPolicy) := do
  self.checkSource headers sourceVersion
  let transferCoded := headers.containsKey .transferEncoding
  let (checked, contentLength) ←
    validateResponseContentLength self.requestMethod status headers forwardedResponse
  let trailerPolicy := self.responseTrailerPolicy status checked sourceVersion
  let framed := self.dropFraming status checked
  let upgradeValues ← self.responseUpgradeValues status framed
  let stripped := stripHopByHopWithPolicy framed trailerPolicy
  self.checkTarget stripped sourceVersion
  let sanitized := self.restoreFields status upgradeValues stripped
  pure (sanitized, self.bodyPolicy status trailerPolicy sanitized
    (self.expectedLength status transferCoded contentLength))

end ResponseHeaderPolicy

def validateInboundResponseHeaders (version : Version) (requestMethod : Method)
    (status : StatusCode) (headers : HeaderMap) : Except Error HeaderMap := do
  if version.isH2OrH3 then validateH2H3HeaderBlock version headers false
  else if version.isH1 && responseAllowsBody requestMethod status then
    validateH1TransferEncoding version headers (ascii "response")
  else pure ()
  let (headers, _) ←
    validateResponseContentLength requestMethod status headers (ascii "inbound response")
  pure headers

structure ForwardedResponse where
  headers : HeaderMap
  body : SanitizedForwardResponseBody

def forwardResponse (policy : ResponseHeaderPolicy) (requestMethod : Method) (version : Version)
    (status : StatusCode) (headers : HeaderMap) (items : List (Except Error Frame)) :
    Except Error ForwardedResponse := do
  let checked ← validateInboundResponseHeaders version requestMethod status headers
  let (sanitized, bodyPolicy) ← policy.sanitize status checked (some version)
  let body ← sanitizeForwardResponseBody bodyPolicy items
  pure ⟨sanitized, body⟩

namespace ResponseHeaderPolicy

variable (self : ResponseHeaderPolicy)

def upgradeSelection (status : StatusCode) (headers : HeaderMap) :
    Except Error (Option (List Bytes)) :=
  if status ≠ 101 then .ok none
  else do
    self.validateSwitchingProtocols headers
    let values ← okOr (.invalidHeader (ascii
      "101 Switching Protocols requires a valid non-empty Upgrade field"))
      (collectUpgradeValues headers)
    pure (some (normalizedUpgradeProtocols values))

def validateResponseHookStatus (upstream forwarded : StatusCode) : Except Error Unit := do
  refuseIf (forwarded.isInformational && (upstream != 101 || forwarded != 101)) (.invalidHeader
    (ascii "response hook cannot create or change a terminal informational response"))
  refuseIf (self.requestMethod = .connect && upstream.isSuccess != forwarded.isSuccess)
    (.invalidHeader
      (ascii "response hook cannot change whether a CONNECT response establishes a tunnel"))

end ResponseHeaderPolicy

structure HookedResponse where
  status : StatusCode
  headers : HeaderMap
  items : List (Except Error Frame)

/-- The user's hook is run on the finished response, and what it leaves is sanitized again. -/
def runResponseHook (policy : ResponseHeaderPolicy) (status : StatusCode)
    (hook : StatusCode → ForwardedResponse → HookedResponse) (forwarded : ForwardedResponse) :
    Except Error ForwardedResponse := do
  let selection ← policy.upgradeSelection status forwarded.headers
  let hooked := hook status forwarded
  policy.validateResponseHookStatus status hooked.status
  let actual ← policy.upgradeSelection hooked.status hooked.headers
  refuseIf (actual != selection)
    (.invalidHeader (ascii "response hook changed the upstream-selected upgrade protocol"))
  let (sanitized, bodyPolicy) ← policy.sanitize hooked.status hooked.headers none
  let body ← sanitizeForwardResponseBody bodyPolicy hooked.items
  pure ⟨sanitized, body⟩

end Aioduct.Forward
