import Aioduct.Http.Uri
import Aioduct.Wire.Action
import Aioduct.Wire.Machine

/-!
# Host policy

`wasmtime/policy.rs`: the one origin that a guest may reach, the header names it may not send and
the headers the host adds. The names forbidden to every guest are an argument.
-/

namespace Aioduct.Wasmtime

open Wire Http List

inductive PolicyError where
  | invalidOrigin (text : Bytes)
  | unsupportedScheme (scheme : Bytes)
  | missingAuthority
  | originMustNotContainPath
  | injectedForbiddenHeader (name : HeaderName)
  | invalidDeniedHeaderPrefix (start : Bytes)
  deriving DecidableEq

inductive RejectionReason where
  | originMismatch
  | protectedHeader
  | deniedHeader
  | headerLimit
  | bodyLimit
  deriving DecidableEq

inductive ErrorCode where
  | httpRequestUriInvalid
  | httpRequestDenied
  | httpRequestHeaderSectionSize (limit : Nat)
  | httpRequestBodySize (limit : UInt64)
  deriving DecidableEq

/-- What the guest gets, and what the observer is told. -/
structure Rejection where
  code : ErrorCode
  reason : Option RejectionReason
  deriving DecidableEq

def requestDenied (reason : RejectionReason) : Rejection := ⟨.httpRequestDenied, some reason⟩

structure Origin where
  scheme : Bytes
  host : Bytes
  port : UInt16
  deriving DecidableEq

def defaultPort (scheme : Bytes) : Option UInt16 :=
  if scheme = ascii "http" then some 80
  else if scheme = ascii "https" then some 443
  else none

def Origin.fromUri (uri : Uri) : Except PolicyError Origin := do
  let some scheme := uri.scheme | throw (.invalidOrigin (ascii "missing scheme"))
  if scheme ≠ ascii "http" ∧ scheme ≠ ascii "https" then
    throw (.unsupportedScheme scheme)
  let some authority := uri.authority | throw .missingAuthority
  let some port := authority.port.or (defaultPort scheme)
    | throw (.invalidOrigin (ascii "missing port"))
  pure ⟨scheme, lowercase authority.host, port⟩

def startsWithIgnoreCase (name : HeaderName) (start : Bytes) : Bool :=
  start.length ≤ name.bytes.length && eqIgnoreCase (name.bytes.take start.length) start

structure DeniedHeaderPolicy where
  names : List HeaderName := []
  prefixes : List Bytes := []
  deriving DecidableEq

namespace DeniedHeaderPolicy

def validateConfig (self : DeniedHeaderPolicy) : Except PolicyError Unit :=
  self.prefixes.forM fun start =>
    if start.isEmpty || (HeaderName.fromBytes start).isNone then
      throw (.invalidDeniedHeaderPrefix start)
    else pure ()

def contains (self : DeniedHeaderPolicy) (name : HeaderName) : Bool :=
  self.names.contains name || self.prefixes.any (startsWithIgnoreCase name)

end DeniedHeaderPolicy

def isSensitiveHeaderName (name : HeaderName) : Bool :=
  name == .authorization || name == .cookie || name == .proxyAuthorization

def headerSectionSize (headers : MarkedHeaderMap) : Nat :=
  headers.lines.foldr (fun line size => line.1.bytes.length + line.2.value.bytes.length + size) 0

def limitToU32 (limit : Nat) : Nat := min limit (2 ^ 32 - 1)

structure ExactOriginPolicy where
  origin : Origin
  originUri : Uri
  forbidSensitiveHeaders : Bool := false
  deniedHeaders : DeniedHeaderPolicy := {}
  injectedHeaders : MarkedHeaderMap := ⟨[]⟩
  headerLimit : Option Nat := none
  bodyLimit : Option UInt64 := none
  /-- A header is injected by setting it. -/
  injected_nodup : (injectedHeaders.lines.map Prod.fst).Nodup

namespace ExactOriginPolicy

def new [UriParser] (origin : Bytes) : Except PolicyError ExactOriginPolicy := do
  let uri ← (UriParser.parseUri origin).mapError .invalidOrigin
  if uri.pathAndQuery.any (·.text ≠ ascii "/") then
    throw .originMustNotContainPath
  let parsed ← Origin.fromUri uri
  let originUri ← (UriParser.fromParts uri.scheme uri.authority (some ⟨ascii "/"⟩)).mapError
    .invalidOrigin
  pure { origin := parsed, originUri, injectedHeaders := ⟨[]⟩, injected_nodup := List.nodup_nil }

variable (self : ExactOriginPolicy)

def injectHeader (name : HeaderName) (value : MarkedValue) : ExactOriginPolicy where
  __ := self
  injectedHeaders := self.injectedHeaders.insert name value
  injected_nodup := self.injectedHeaders.nodup_insert self.injected_nodup name value

section Forbidden

variable (forbidden : List HeaderName)

def validateConfig (self : ExactOriginPolicy) : Except PolicyError Unit := do
  self.injectedHeaders.lines.forM fun line =>
    if forbidden.contains line.1 then throw (.injectedForbiddenHeader line.1) else pure ()
  self.deniedHeaders.validateConfig

def validateOrigin (uri : Uri) : Except Rejection Unit :=
  match Origin.fromUri uri with
  | .error _ => throw ⟨.httpRequestUriInvalid, none⟩
  | .ok origin =>
    if origin ≠ self.origin then throw (requestDenied .originMismatch) else pure ()

def isProtectedRequestHeader (self : ExactOriginPolicy) (name : HeaderName) : Bool :=
  forbidden.contains name ||
    (self.forbidSensitiveHeaders &&
      (isSensitiveHeaderName name || self.injectedHeaders.containsKey name))

def lineRejection (self : ExactOriginPolicy) (line : HeaderName × MarkedValue) :
    Option RejectionReason :=
  if self.isProtectedRequestHeader forbidden line.1 ||
      (self.forbidSensitiveHeaders && line.2.sensitive) then some .protectedHeader
  else if self.deniedHeaders.contains line.1 then some .deniedHeader
  else none

def checkRequestHeaders (self : ExactOriginPolicy) (headers : MarkedHeaderMap) :
    Except Rejection Unit :=
  match headers.lines.findSome? (self.lineRejection forbidden) with
  | some reason => throw (requestDenied reason)
  | none => pure ()

def checkRequestHeaderLimit (headers : MarkedHeaderMap) : Except Rejection Unit :=
  match self.headerLimit with
  | none => pure ()
  | some limit =>
    if limit < headerSectionSize headers then
      throw ⟨.httpRequestHeaderSectionSize (limitToU32 limit), some .headerLimit⟩
    else pure ()

end Forbidden

end ExactOriginPolicy

inductive RequestTrailerPolicyError where
  | protectedHeader
  | deniedHeader
  | headerLimit (limit : Nat)

structure RequestTrailerPolicy where
  forbidSensitiveHeaders : Bool
  deniedHeaders : DeniedHeaderPolicy
  injectedHeaders : MarkedHeaderMap
  headerLimit : Option Nat
  deriving DecidableEq

namespace RequestTrailerPolicy

def fromPolicy (policy : ExactOriginPolicy) : RequestTrailerPolicy where
  forbidSensitiveHeaders := policy.forbidSensitiveHeaders
  deniedHeaders := policy.deniedHeaders
  injectedHeaders := policy.injectedHeaders
  headerLimit := policy.headerLimit

variable (forbidden : List HeaderName) (self : RequestTrailerPolicy)

/-- Unlike in the header, an injected name is refused in any case. -/
def lineError
    (line : HeaderName × MarkedValue) : Option (RejectionReason × RequestTrailerPolicyError) :=
  if forbidden.contains line.1 || self.injectedHeaders.containsKey line.1 ||
      (self.forbidSensitiveHeaders && (isSensitiveHeaderName line.1 || line.2.sensitive)) then
    some (.protectedHeader, .protectedHeader)
  else if self.deniedHeaders.contains line.1 then some (.deniedHeader, .deniedHeader)
  else none

def check (trailers : MarkedHeaderMap) : Option (RejectionReason × RequestTrailerPolicyError) :=
  match trailers.lines.findSome? (self.lineError forbidden) with
  | some error => some error
  | none =>
    match self.headerLimit with
    | none => none
    | some limit =>
      if limit < headerSectionSize trailers then some (.headerLimit, .headerLimit limit)
      else none

end RequestTrailerPolicy

structure GuestLine (forbidden : List HeaderName) (policy : ExactOriginPolicy)
    (line : HeaderName × MarkedValue) : Prop where
  notForbidden : line.1 ∉ forbidden
  notDenied : line.1 ∉ policy.deniedHeaders.names
  notDeniedStart : ∀ start ∈ policy.deniedHeaders.prefixes, ¬lowercase start <+: line.1.bytes
  notInjected : policy.injectedHeaders.getAll line.1 = []
  notSensitive : policy.forbidSensitiveHeaders = true →
    line.1 ≠ .authorization ∧ line.1 ≠ .cookie ∧ line.1 ≠ .proxyAuthorization ∧
      line.2.sensitive = false

variable {name : HeaderName}

lemma startsWithIgnoreCase_iff {start : Bytes} :
    startsWithIgnoreCase name start ↔ lowercase start <+: name.bytes := by
  have hl : lowercase (name.bytes.take start.length) = name.bytes.take start.length := by
    rw [lowercase, map_take]
    exact congrArg (List.take start.length) name.lowercase_bytes
  have hlen : (lowercase start).length = start.length := length_map _
  rw [startsWithIgnoreCase, Bool.and_eq_true, decide_eq_true_eq, eqIgnoreCase, beq_iff_eq, hl,
    prefix_iff_eq_take, hlen]
  constructor
  · rintro ⟨-, heq⟩
    exact heq.symm
  intro heq
  refine ⟨?_, heq.symm⟩
  have hle := congrArg List.length heq
  rw [hlen, length_take] at hle
  omega

lemma DeniedHeaderPolicy.of_contains_false {self : DeniedHeaderPolicy}
    (h : self.contains name = false) :
    name ∉ self.names ∧ ∀ start ∈ self.prefixes, ¬lowercase start <+: name.bytes := by
  rw [contains, Bool.or_eq_false_iff, any_eq_false] at h
  refine ⟨by simpa using h.1, fun start hs hl => ?_⟩
  exact h.2 start hs (startsWithIgnoreCase_iff.mpr hl)

lemma ne_of_isSensitiveHeaderName_false (h : isSensitiveHeaderName name = false) :
    name ≠ .authorization ∧ name ≠ .cookie ∧ name ≠ .proxyAuthorization := by
  simpa [isSensitiveHeaderName, and_assoc] using h

variable {forbidden : List HeaderName} {policy : ExactOriginPolicy}
  {line : HeaderName × MarkedValue}

lemma GuestLine.of_checks (hfor : forbidden.contains line.1 = false)
    (hd : policy.deniedHeaders.contains line.1 = false)
    (hi : policy.injectedHeaders.getAll line.1 = [])
    (hsen : policy.forbidSensitiveHeaders →
      isSensitiveHeaderName line.1 = false ∧ line.2.sensitive = false) :
    GuestLine forbidden policy line := by
  obtain ⟨hn, hs⟩ := DeniedHeaderPolicy.of_contains_false hd
  refine ⟨by simpa using hfor, hn, hs, hi, fun hf => ?_⟩
  obtain ⟨hl, hv⟩ := hsen hf
  obtain ⟨ha, hc, hp⟩ := ne_of_isSensitiveHeaderName_false hl
  exact ⟨ha, hc, hp, hv⟩

lemma guestLine_of_lineRejection (h : policy.lineRejection forbidden line = none)
    (hi : policy.injectedHeaders.getAll line.1 = []) :
    GuestLine forbidden policy line := by
  unfold ExactOriginPolicy.lineRejection at h
  split at h
  · cases h
  next hp =>
  split at h
  · cases h
  next hd =>
  simp only [ExactOriginPolicy.isProtectedRequestHeader, Bool.or_eq_true, Bool.and_eq_true,
    not_or, not_and, Bool.not_eq_true] at hp hd
  obtain ⟨⟨hfor, hs⟩, hv⟩ := hp
  exact .of_checks hfor hd hi fun hf =>
    ⟨(hs hf).1, hv hf⟩

lemma guestLine_of_lineError
    (h : (RequestTrailerPolicy.fromPolicy policy).lineError forbidden line = none) :
    GuestLine forbidden policy line := by
  unfold RequestTrailerPolicy.lineError at h
  split at h
  · cases h
  next hp =>
  split at h
  · cases h
  next hd =>
  simp only [RequestTrailerPolicy.fromPolicy, Bool.or_eq_true, Bool.and_eq_true, not_or,
    not_and, Bool.not_eq_true] at hp hd
  obtain ⟨⟨hf, hi⟩, hs⟩ := hp
  exact .of_checks hf hd (MultiMap.containsKey_eq_false.mp hi) hs

lemma RequestTrailerPolicy.of_check {trailers : MarkedHeaderMap}
    (h : (fromPolicy policy).check forbidden trailers = none) :
    (∀ line ∈ trailers.lines, GuestLine forbidden policy line) ∧
      ∀ limit, policy.headerLimit = some limit → headerSectionSize trailers ≤ limit := by
  unfold check at h
  split at h
  · cases h
  next hl =>
  rw [List.findSome?_eq_none_iff] at hl
  refine ⟨fun line hlin => guestLine_of_lineError (hl line hlin), fun limit hlim => ?_⟩
  have hp : (fromPolicy policy).headerLimit = some limit := hlim
  rw [hp] at h
  simp only at h
  by_contra hlt
  rw [if_pos (Nat.lt_of_not_le hlt)] at h
  cases h

end Aioduct.Wasmtime
