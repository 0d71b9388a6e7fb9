import Aioduct.Forward.TrailerPolicy
import Aioduct.MessageFraming
import Aioduct.Wire.Utf8

/-!
# Hop-by-hop fields of requests

`forward/hop_by_hop.rs`, the request side: what is removed from a header map, and which fields are
written anew for the protocol of the next hop.
-/

namespace Aioduct.Forward

open Wire Http FieldPolicy MessageFraming

def hopByHop : List HeaderName :=
  [.connection, .keepAlive, .proxyAuthenticate, .proxyAuthorization, .proxyConnection, .te,
    .transferEncoding, .upgrade, .http2Settings]

inductive HeaderProtocol where
  | negotiated
  | http10
  | http11
  | http2
  | http3
  deriving DecidableEq

def HeaderProtocol.isH2OrH3 (protocol : HeaderProtocol) : Bool :=
  protocol == .http2 || protocol == .http3

/-- The decoder of unpadded URL-safe Base64. -/
class UrlSafeNoPad where
  decode : Bytes → Option Bytes

structure H1UpgradeOffer where
  protocols : List Bytes

namespace H1UpgradeOffer

def intersect (self allowed : H1UpgradeOffer) : H1UpgradeOffer where
  protocols := self.protocols.filter fun protocol => allowed.protocols.contains protocol

def isEmpty (self : H1UpgradeOffer) : Bool := self.protocols.isEmpty

def constrainRequestHeaders (self : H1UpgradeOffer) (headers : HeaderMap) :
    Except Error HeaderMap :=
  match HeaderValue.fromBytes ((ascii ", ").intercalate self.protocols) with
  | none =>
    .error (.invalidHeader
      (ascii "shared downstream and upstream Upgrade protocols are invalid"))
  | some value => .ok (headers.insert .upgrade value)

end H1UpgradeOffer

def validToken (value : Bytes) : Bool := !value.isEmpty && value.all isTchar

def validUpgradeProtocol (protocol : Bytes) : Bool :=
  let protocol := Utf8.trimText protocol
  if protocol.isEmpty then false
  else
    match protocol.splitOn (byte '/') with
    | [name] => validToken name
    | [name, version] => validToken name && validToken version
    | _ => false

def validUpgradeValue (value : Bytes) : Bool :=
  Utf8.valid value && (value.splitOn (byte ',')).all validUpgradeProtocol

variable (headers : HeaderMap)

def collectUpgradeValues : Option (List HeaderValue) :=
  let values := headers.getAll .upgrade
  if values.isEmpty || values.any (fun value => !validUpgradeValue value.bytes) then none
  else some values

variable (values : List HeaderValue)

def containsH2c : Bool :=
  values.any fun value =>
    value.toStr.any fun value =>
      (value.splitOn (byte ',')).any fun protocol =>
        eqIgnoreCase (Utf8.trimText protocol) (ascii "h2c")

def normalizedUpgradeProtocols : List Bytes :=
  ((values.filterMap HeaderValue.toStr).flatMap (List.splitOn (byte ','))).map fun protocol =>
    lowercase (Utf8.trimText protocol)

def h1UpgradeOffer : Option H1UpgradeOffer :=
  if (connectionOptions headers).contains .upgrade then
    (collectUpgradeValues headers).map fun values => ⟨normalizedUpgradeProtocols values⟩
  else none

def isH1Upgrade : Bool := (h1UpgradeOffer headers).isSome

def isH2cUpgrade : Bool := (collectUpgradeValues headers).any containsH2c

def collectH2cSettings [UrlSafeNoPad] (headers : HeaderMap) : Except Error HeaderValue :=
  if !(connectionOptions headers).contains .http2Settings then
    .error (.invalidHeader (ascii "h2c upgrade requires `Connection: http2-settings`"))
  else
    match headers.getAll .http2Settings with
    | [value] =>
      match UrlSafeNoPad.decode value.bytes with
      | none =>
        .error (.invalidHeader
          (ascii "HTTP2-Settings must be unpadded base64url-encoded SETTINGS data"))
      | some decoded =>
        if decoded.length % 6 ≠ 0 then
          .error (.invalidHeader
            (ascii "HTTP2-Settings payload must contain complete six-byte settings parameters"))
        else .ok value
    | _ => .error (.invalidHeader (ascii "h2c upgrade requires exactly one HTTP2-Settings field"))

def isTeTrailers (token : Bytes) : Bool :=
  !(Utf8.trimText token).isEmpty && eqIgnoreCase (Utf8.trimText token) (ascii "trailers")

def onlyTeTrailers : Bool :=
  values.all fun value =>
    value.toStr.any fun value => (value.splitOn (byte ',')).all isTeTrailers

def validateTeTrailers : Except Error Unit :=
  if onlyTeTrailers values then .ok ()
  else
    .error (.invalidHeader (ascii "HTTP/2 and HTTP/3 TE fields may contain only `trailers`"))

variable (version : Version)

def downstreamAcceptsResponseTrailers (headers : HeaderMap) : Bool :=
  match version with
  | .http11 =>
    (connectionOptions headers).contains .te &&
      (headers.getAll .te).any fun value =>
        value.toStr.any fun value =>
          (value.splitOn (byte ',')).any fun token =>
            eqIgnoreCase (Utf8.trimText token) (ascii "trailers")
  | .http2 | .http3 => true
  | _ => false

def validateH2H3HeaderBlock (headers : HeaderMap) (request : Bool) : Except Error Unit :=
  match H2H3FieldPolicy.forVersion version (if request then .request else .response) with
  | none => .error (.unsupported (ascii "field policy is unavailable for " ++ version.debug))
  | some policy => policy.validateHeaders headers

def validateH1TransferEncoding (headers : HeaderMap) (sectionName : Bytes) : Except Error Unit :=
  let values := ((headers.getAll .transferEncoding).flatMap
    fun value => value.bytes.splitOn (byte ',')).map (trim isOws)
  if values.isEmpty then .ok ()
  else if version == .http11 && values.length == 1 &&
      values.all (eqIgnoreCase · (ascii "chunked")) then .ok ()
  else
    .error (.invalidHeader (ascii "HTTP/1 " ++ sectionName ++
      ascii " Transfer-Encoding must contain exactly one `chunked` coding"))

/-- The checks that `validate_inbound_request_headers` and `validate_final_request_headers`
share. -/
def validateRequestHeaders (headers : HeaderMap) (context : Bytes) :
    Except Error (HeaderMap × Option UInt64) := do
  if version.isH2OrH3 then validateH2H3HeaderBlock version headers true
  else if version.isH1 then validateH1TransferEncoding version headers (ascii "request")
  else pure ()
  normalizeContentLength headers context

def validateInboundRequestHeaders (headers : HeaderMap) : Except Error HeaderMap := do
  let (headers, _) ← validateRequestHeaders version headers (ascii "inbound request")
  pure headers

def validateFinalRequestHeaders (headers : HeaderMap) : Except Error (HeaderMap × Option UInt64) :=
  validateRequestHeaders version headers (ascii "forwarded request")

def trailersValue : HeaderValue := ⟨ascii "trailers", by decide⟩

def chunkedValue : HeaderValue := ⟨ascii "chunked", by decide⟩

def connectionTe : HeaderValue := ⟨ascii "TE", by decide⟩

def connectionUpgrade : HeaderValue := ⟨ascii "upgrade", by decide⟩

def connectionUpgradeTe : HeaderValue := ⟨ascii "upgrade, TE", by decide⟩

def connectionUpgradeSettings : HeaderValue := ⟨ascii "upgrade, http2-settings", by decide⟩

def connectionUpgradeSettingsTe : HeaderValue := ⟨ascii "upgrade, http2-settings, TE", by decide⟩

def stripHopByHopWithPolicy (trailerPolicy : TrailerPolicy) : HeaderMap :=
  let headers := trailerPolicy.sanitizeDeclaration headers
  let headers :=
    if headers.containsKey .transferEncoding then headers.remove .contentLength else headers
  let headers := hopByHop.foldl MultiMap.remove headers
  trailerPolicy.connectionNames.foldl MultiMap.remove headers

def restoreH1Upgrade (values : List HeaderValue) : HeaderMap :=
  values.foldl (fun headers value => headers.append .upgrade value)
    (headers.insert .connection connectionUpgrade)

def restoreH1UpgradeRequest (values : List HeaderValue) (h2cSettings : Option HeaderValue)
    (preserveTeTrailers : Bool) : HeaderMap :=
  let headers := restoreH1Upgrade headers values
  let headers :=
    match h2cSettings with
    | some settings =>
      (headers.insert .connection
        (if preserveTeTrailers then connectionUpgradeSettingsTe else connectionUpgradeSettings))
        |>.insert .http2Settings settings
    | none =>
      if preserveTeTrailers then headers.insert .connection connectionUpgradeTe else headers
  if preserveTeTrailers then headers.insert .te trailersValue else headers

def restoreH1TeTrailers : HeaderMap :=
  (headers.insert .connection connectionTe).insert .te trailersValue

def requestUpgradeValues (protocol : HeaderProtocol) (h1UpgradeRequest : Bool) :
    Except Error (Option (List HeaderValue)) :=
  if !h1UpgradeRequest then .ok none
  else if protocol ≠ .http11 then
    .error (.unsupported (ascii "HTTP/1.1 upgrade fields require HTTP/1.1 egress"))
  else if !(connectionOptions headers).contains .upgrade then
    .error (.invalidHeader (ascii "HTTP/1.1 upgrade requires `Connection: upgrade`"))
  else
    match collectUpgradeValues headers with
    | none =>
      .error (.invalidHeader
        (ascii "HTTP/1.1 upgrade requires a valid non-empty Upgrade field"))
    | some values => .ok (some values)

def requestH2cSettings [UrlSafeNoPad] (headers : HeaderMap)
    (upgradeValues : Option (List HeaderValue)) : Except Error (Option HeaderValue) :=
  if upgradeValues.any containsH2c then (collectH2cSettings headers).map some else .ok none

def requestTrailerPolicy (protocol : HeaderProtocol) : TrailerPolicy :=
  match protocol with
  | .http2 => .captureRequestForVersion headers .http2
  | .http3 => .captureRequestForVersion headers .http3
  | _ => .capture headers

def checkHeaderBlock (protocol : HeaderProtocol) : Except Error Unit :=
  match protocol with
  | .http2 => validateH2H3HeaderBlock .http2 headers true
  | .http3 => validateH2H3HeaderBlock .http3 headers true
  | _ => .ok ()

def checkTransferEncoding (protocol : HeaderProtocol) : Except Error Unit :=
  if protocol = .http11 then validateH1TransferEncoding .http11 headers (ascii "request")
  else .ok ()

/-- The checks at the start of `sanitize_request`, with the content length in between. -/
def checkRequest (protocol : HeaderProtocol) : Except Error HeaderMap := do
  checkHeaderBlock headers protocol
  let (headers, _) ← normalizeContentLength headers (ascii "forwarded request")
  checkTransferEncoding headers protocol
  pure headers

/-- The `TE` of a request to an HTTP/2 or HTTP/3 peer. -/
def restoreH2H3Te (protocol : HeaderProtocol) (teValues : List HeaderValue) :
    Except Error HeaderMap := do
  if protocol.isH2OrH3 && !teValues.isEmpty then
    validateTeTrailers teValues
    pure (headers.insert .te trailersValue)
  else pure headers

def restoreH1Fields (upgradeValues : Option (List HeaderValue)) (h2cSettings : Option HeaderValue)
    (preserveTeTrailers : Bool) : HeaderMap :=
  match upgradeValues with
  | some values => restoreH1UpgradeRequest headers values h2cSettings preserveTeTrailers
  | none => if preserveTeTrailers then restoreH1TeTrailers headers else headers

def preservesH1Te (protocol : HeaderProtocol) (downstreamAcceptsTrailers : Bool) : Bool :=
  protocol == .http11 && downstreamAcceptsTrailers && !(headers.getAll .te).isEmpty &&
    onlyTeTrailers (headers.getAll .te)

def sanitizeRequest [UrlSafeNoPad] (headers : HeaderMap) (protocol : HeaderProtocol)
    (h1UpgradeRequest downstreamAcceptsTrailers : Bool) :
    Except Error (HeaderMap × TrailerPolicy) := do
  let headers ← checkRequest headers protocol
  let trailerPolicy := requestTrailerPolicy headers protocol
  let preserveH1TeTrailers := preservesH1Te headers protocol downstreamAcceptsTrailers
  let upgradeValues ← requestUpgradeValues headers protocol h1UpgradeRequest
  let h2cSettings ← requestH2cSettings headers upgradeValues
  let stripped := stripHopByHopWithPolicy headers trailerPolicy
  let stripped ← restoreH2H3Te stripped protocol (headers.getAll .te)
  pure (restoreH1Fields stripped upgradeValues h2cSettings preserveH1TeTrailers, trailerPolicy)

end Aioduct.Forward
