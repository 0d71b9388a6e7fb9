import Aioduct.Http.Uri
import Aioduct.Error
import Aioduct.Wire.Action

/-!
# Field rules of HTTP/2 and HTTP/3

`h2_h3_field_policy.rs`: what a header section of these protocols may contain, and which fields
may not be sent as trailers.
-/

namespace Aioduct.FieldPolicy

open Wire Http List MultiMap HeaderName

def connectionSpecificFields : List Bytes :=
  [ascii "connection", ascii "keep-alive", ascii "proxy-connection", ascii "transfer-encoding",
    ascii "upgrade", ascii "http2-settings"]

def forbiddenTrailerFields : List Bytes :=
  [ascii "accept", ascii "accept-charset", ascii "accept-encoding", ascii "accept-language",
    ascii "age", ascii "allow", ascii "authorization", ascii "cache-control", ascii "connection",
    ascii "content-disposition", ascii "content-encoding", ascii "content-language",
    ascii "content-length", ascii "content-location", ascii "content-range", ascii "content-type",
    ascii "cookie", ascii "date", ascii "early-data", ascii "expect", ascii "expires",
    ascii "from", ascii "host", ascii "http2-settings", ascii "if-match",
    ascii "if-modified-since", ascii "if-none-match", ascii "if-range",
    ascii "if-unmodified-since", ascii "keep-alive", ascii "last-modified", ascii "location",
    ascii "max-forwards", ascii "proxy-authenticate", ascii "proxy-authorization",
    ascii "proxy-connection", ascii "range", ascii "referer", ascii "retry-after",
    ascii "set-cookie", ascii "strict-transport-security", ascii "te", ascii "trailer",
    ascii "transfer-encoding", ascii "upgrade", ascii "user-agent", ascii "vary",
    ascii "warning", ascii "www-authenticate"]

def forbiddenRequestTrailerFields : List Bytes :=
  [ascii "accept-ranges", ascii "authentication-info", ascii "etag",
    ascii "proxy-authentication-info"]

inductive FieldProtocol where
  | http2
  | http3
  deriving DecidableEq

def FieldProtocol.fromVersion : Version → Option FieldProtocol
  | .http2 => some .http2
  | .http3 => some .http3
  | _ => none

def FieldProtocol.name : FieldProtocol → Bytes
  | .http2 => ascii "HTTP/2"
  | .http3 => ascii "HTTP/3"

inductive FieldDirection where
  | request
  | response
  deriving DecidableEq

def FieldDirection.name : FieldDirection → Bytes
  | .request => ascii "request"
  | .response => ascii "response"

structure H2H3FieldPolicy where
  protocol : FieldProtocol
  direction : FieldDirection

def isForbiddenTrailerField (direction : FieldDirection) (name : HeaderName) : Bool :=
  forbiddenTrailerFields.any (eqIgnoreCase name.bytes ·) ||
    (direction == .request && forbiddenRequestTrailerFields.any (eqIgnoreCase name.bytes ·))

def isConnectionSpecific (name : HeaderName) : Bool :=
  connectionSpecificFields.any (eqIgnoreCase name.bytes ·)

def connectionSpecificField (headers : HeaderMap) : Option HeaderName :=
  (headers.lines.map Prod.fst).find? isConnectionSpecific

def hasOnlyTeTrailers (values : List HeaderValue) : Bool :=
  values.all fun value =>
    ((value.bytes.splitOn (byte ',')).map (trim isOws)).all fun token =>
      !token.isEmpty && eqIgnoreCase token (ascii "trailers")

def hasOuterWhitespace (value : HeaderValue) : Bool :=
  value.bytes.head?.any isOws || value.bytes.getLast?.any isOws

namespace H2H3FieldPolicy

def forVersion (version : Version) (direction : FieldDirection) : Option H2H3FieldPolicy :=
  (FieldProtocol.fromVersion version).map fun protocol => ⟨protocol, direction⟩

variable (self : H2H3FieldPolicy)

def validateFieldValues (headers : HeaderMap) (sectionName : Bytes) : Except Error Unit :=
  match headers.lines.find? (hasOuterWhitespace ·.2) with
  | some (name, _) =>
    .error (.invalidHeader (self.protocol.name ++ ascii " " ++ self.direction.name ++ ascii " " ++
      sectionName ++ ascii " field `" ++ name.bytes ++
      ascii "` has leading or trailing whitespace"))
  | none => .ok ()

def validateHeaders (headers : HeaderMap) : Except Error Unit := do
  self.validateFieldValues headers (ascii "header")
  match connectionSpecificField headers with
  | some name =>
    throw (.invalidHeader (self.protocol.name ++ ascii " " ++ self.direction.name ++
      ascii " header contains connection-specific field `" ++ name.bytes ++ ascii "`"))
  | none =>
    let teValues := headers.getAll .te
    if teValues.isEmpty then pure ()
    else if self.direction == .request && hasOnlyTeTrailers teValues then pure ()
    else if self.direction == .request then
      throw (.invalidHeader
        (self.protocol.name ++ ascii " request TE fields may contain only `trailers`"))
    else throw (.invalidHeader (self.protocol.name ++ ascii " responses must not contain `TE`"))

/-- A response without content has no trailers either. -/
def checkTrailerStatus (status : Option StatusCode) : Except Error Unit :=
  match self.direction, status with
  | .response, some status =>
    if status == 204 || status == 304 then
      .error (.invalidHeader (self.protocol.name ++ ascii " " ++ status.display ++
        ascii " responses must not contain trailers"))
    else .ok ()
  | _, _ => .ok ()

def checkTrailerNames (found : Option HeaderName) (kind : Bytes) : Except Error Unit :=
  match found with
  | some name =>
    .error (.invalidHeader (self.protocol.name ++ ascii " " ++ self.direction.name ++
      ascii " trailers contain " ++ kind ++ ascii " field `" ++ name.bytes ++ ascii "`"))
  | none => .ok ()

def validateTrailers (status : Option StatusCode) (trailers : HeaderMap) : Except Error Unit := do
  self.validateFieldValues trailers (ascii "trailer")
  self.checkTrailerStatus status
  self.checkTrailerNames (connectionSpecificField trailers) (ascii "connection-specific")
  self.checkTrailerNames ((trailers.lines.map Prod.fst).find?
    (isForbiddenTrailerField self.direction)) (ascii "forbidden")

end H2H3FieldPolicy

lemma hasOuterWhitespace_eq_false {value : HeaderValue} :
    hasOuterWhitespace value = false ↔ Stops isOws value.bytes ∧ StopsEnd isOws value.bytes := by
  rw [hasOuterWhitespace, Bool.or_eq_false_iff, Option.any_eq_false, Option.any_eq_false]
  simp [Stops, StopsEnd]

variable {headers : HeaderMap}

lemma validateFieldValues_eq_ok {policy : H2H3FieldPolicy} {sectionName : Bytes} :
    policy.validateFieldValues headers sectionName = .ok () ↔
      ∀ name, ∀ value ∈ headers.getAll name, hasOuterWhitespace value = false := by
  unfold H2H3FieldPolicy.validateFieldValues
  constructor
  · intro h name value hv
    cases hf : headers.lines.find? (hasOuterWhitespace ·.2) with
    | some found =>
      rw [hf] at h
      cases h
    | none =>
      rw [find?_eq_none] at hf
      simpa using hf _ (mem_getAll.mp hv)
  intro h
  have hf : headers.lines.find? (hasOuterWhitespace ·.2) = none := by
    rw [find?_eq_none]
    rintro ⟨name, value⟩ hl
    simp [h name value (mem_getAll.mpr hl)]
  rw [hf]

lemma getAll_of_validateHeaders {policy : H2H3FieldPolicy}
    (h : policy.validateHeaders headers = .ok ()) {name : HeaderName}
    (hn : isConnectionSpecific name) : headers.getAll name = [] := by
  unfold H2H3FieldPolicy.validateHeaders at h
  rw [bind_eq_ok] at h
  obtain ⟨⟨⟩, -, h⟩ := h
  cases hf : connectionSpecificField headers with
  | some found =>
    rw [hf] at h
    cases h
  | none =>
    rw [connectionSpecificField, find?_eq_none] at hf
    by_contra hne
    obtain ⟨value, hv⟩ := exists_mem_of_ne_nil _ hne
    have hl := mem_getAll.mp hv
    exact hf name (mem_map.mpr ⟨_, hl, rfl⟩) hn

/-- A header section is accepted if it has no outer white space, no connection-specific field and
no `TE` but `trailers`. -/
lemma validateHeaders_request {protocol : FieldProtocol}
    (hv : ∀ name, ∀ value ∈ headers.getAll name, hasOuterWhitespace value = false)
    (hs : ∀ name, isConnectionSpecific name → headers.getAll name = [])
    (hte : hasOnlyTeTrailers (headers.getAll .te)) :
    (H2H3FieldPolicy.mk protocol .request).validateHeaders headers = .ok () := by
  have hf : connectionSpecificField headers = none := by
    rw [connectionSpecificField, find?_eq_none]
    intro name hn
    obtain ⟨⟨name, value⟩, hl, rfl⟩ := mem_map.mp hn
    intro hsome
    have hm := mem_getAll.mpr hl
    rw [hs name hsome] at hm
    cases hm
  unfold H2H3FieldPolicy.validateHeaders
  rw [validateFieldValues_eq_ok.mpr hv, hf]
  simp only [hte, Bool.and_true]
  cases (headers.getAll .te).isEmpty <;> rfl

lemma eq_of_isConnectionSpecific {name : HeaderName} (h : isConnectionSpecific name) :
    name ∈ [.connection, .keepAlive, .proxyConnection, .transferEncoding, .upgrade,
      .http2Settings] := by
  have hf : connectionSpecificFields = [connection, .keepAlive, .proxyConnection,
      .transferEncoding, .upgrade, .http2Settings].map bytes := rfl
  rw [isConnectionSpecific, hf, any_map, any_eq_true] at h
  obtain ⟨other, ho, heq⟩ := h
  rwa [eqIgnoreCase_bytes.mp heq]

end Aioduct.FieldPolicy
