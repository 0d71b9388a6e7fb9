import Aioduct.Wasmtime.Policy

/-!
# Requests of guests

`prepare_request` of `wasmtime/host.rs` and `RequestLimitBody` of `wasmtime/body.rs`.
-/

namespace Aioduct.Wasmtime

open Wire Http List ExactOriginPolicy MultiMap

variable {uri : Uri}

inductive Frame where
  | data (bytes : Bytes)
  | trailers (fields : MarkedHeaderMap)

inductive BodyError (ε : Type) where
  | inner (error : ε)
  | requestBodyLimitExceeded (limit : UInt64)
  | trailers (error : RequestTrailerPolicyError)

def saturatingAdd (a b : Nat) : Nat := min (a + b) (2 ^ 64 - 1)

structure RequestLimitBody where
  bodyLimit : Option UInt64
  seen : Nat := 0
  trailerPolicy : RequestTrailerPolicy
  /-- What the observer has been told, once. -/
  rejected : Option RejectionReason := none
  deriving DecidableEq

namespace RequestLimitBody

def newPolicy (bodyLimit : Option UInt64) (policy : ExactOriginPolicy) : RequestLimitBody where
  bodyLimit
  trailerPolicy := .fromPolicy policy

def notifyRejectionOnce (self : RequestLimitBody) (reason : RejectionReason) : RequestLimitBody :=
  { self with rejected := self.rejected.or (some reason) }

section Body

variable {ε : Type}

def pollFrame (forbidden : List HeaderName) (self : RequestLimitBody) :
    Except ε Frame → RequestLimitBody × Except (BodyError ε) Frame
  | .error error => (self, .error (.inner error))
  | .ok (.data bytes) =>
    match self.bodyLimit with
    | none => (self, .ok (.data bytes))
    | some limit =>
      if limit.toNat < saturatingAdd self.seen bytes.length then
        (self.notifyRejectionOnce .bodyLimit, .error (.requestBodyLimitExceeded limit))
      else ({ self with seen := saturatingAdd self.seen bytes.length }, .ok (.data bytes))
  | .ok (.trailers fields) =>
    match self.trailerPolicy.check forbidden fields with
    | some (reason, error) => (self.notifyRejectionOnce reason, .error (.trailers error))
    | none => (self, .ok (.trailers fields))

def run (forbidden : List HeaderName) : RequestLimitBody → List (Except ε Frame) →
    List (Except (BodyError ε) Frame)
  | _, [] => []
  | self, item :: items =>
    (self.pollFrame forbidden item).2 :: run forbidden (self.pollFrame forbidden item).1 items

end Body

end RequestLimitBody

structure SizeHint where
  lower : UInt64 := 0
  upper : Option UInt64 := none

structure Request where
  uri : Uri
  version : Version
  headers : MarkedHeaderMap
  sizeHint : SizeHint := {}

/-- A request that may be sent; the frames of the guest go through the body. -/
structure Prepared where
  uri : Uri
  version : Version
  headers : MarkedHeaderMap
  body : RequestLimitBody
  deriving DecidableEq

namespace ExactOriginPolicy

def declaredLength (headers : MarkedHeaderMap) : Option Nat := do
  let value ← headers.get .contentLength
  parseUnsigned 64 (← value.value.toStr)

def checkRequestBodyKnownLimit (self : ExactOriginPolicy) (request : Request) :
    Except Rejection Unit :=
  match self.bodyLimit with
  | none => pure ()
  | some limit =>
    let hint := request.sizeHint
    if (declaredLength request.headers).any (limit.toNat < ·) then
      throw ⟨.httpRequestBodySize limit, some .bodyLimit⟩
    else if limit < hint.lower || hint.upper.any (fun upper => upper == hint.lower && limit < upper)
    then throw ⟨.httpRequestBodySize limit, some .bodyLimit⟩
    else pure ()

/-- `Host` is put in on HTTP/1.1 if the guest has not. -/
def addHost (request : Request) : Except Rejection MarkedHeaderMap :=
  if request.version = .http11 ∧ request.headers.containsKey .host = false then do
    let some authority := request.uri.authority | throw ⟨.httpRequestUriInvalid, none⟩
    let some host := HeaderValue.fromStr authority.text | throw ⟨.httpRequestUriInvalid, none⟩
    pure (request.headers.insert .host { value := host })
  else pure request.headers

def inject (self : ExactOriginPolicy) (headers : MarkedHeaderMap) : MarkedHeaderMap :=
  self.injectedHeaders.lines.foldl (fun headers line => headers.insert line.1 line.2) headers

def prepareRequest (forbidden : List HeaderName) (self : ExactOriginPolicy) (request : Request) :
    Except Rejection Prepared := do
  self.validateOrigin request.uri
  self.checkRequestHeaders forbidden request.headers
  self.checkRequestHeaderLimit request.headers
  self.checkRequestBodyKnownLimit request
  let headers ← addHost request
  if self.injectedHeaders.lines.any (fun line => headers.containsKey line.1) then
    throw (requestDenied .protectedHeader)
  let headers := self.inject headers
  self.checkRequestHeaderLimit headers
  pure { uri := request.uri
         version := request.version
         headers
         body := .newPolicy self.bodyLimit self }

end ExactOriginPolicy

lemma Origin.of_fromUri {origin : Origin} (h : fromUri uri = .ok origin) :
    uri.scheme = some origin.scheme ∧ ∃ authority, uri.authority = some authority ∧
      lowercase authority.host = origin.host ∧
      authority.port.or (defaultPort origin.scheme) = some origin.port := by
  unfold fromUri at h
  cases hs : uri.scheme with
  | none =>
    rw [hs] at h
    cases h
  | some scheme =>
    simp only [hs] at h
    split at h
    · cases h
    cases ha : uri.authority with
    | none =>
      simp only [ha] at h
      cases h
    | some authority =>
      simp only [ha] at h
      cases hp : authority.port.or (defaultPort scheme) with
      | none =>
        simp only [hp] at h
        cases h
      | some port =>
        simp only [hp] at h
        cases h
        exact ⟨rfl, authority, rfl, rfl, hp⟩

namespace ExactOriginPolicy

variable {forbidden : List HeaderName} {self : ExactOriginPolicy} {headers : MarkedHeaderMap}

lemma fromUri_of_validateOrigin (h : self.validateOrigin uri = .ok ()) :
    Origin.fromUri uri = .ok self.origin := by
  unfold validateOrigin at h
  split at h
  · cases h
  next origin ho =>
  split at h
  · cases h
  · next heq => rw [ho, not_not.mp heq]

lemma lineRejection_of_checkRequestHeaders
    (h : self.checkRequestHeaders forbidden headers = .ok ()) :
    ∀ line ∈ headers.lines, self.lineRejection forbidden line = none := by
  unfold checkRequestHeaders at h
  split at h
  · cases h
  · next hnone => exact List.findSome?_eq_none_iff.mp hnone

lemma size_le_of_checkRequestHeaderLimit (h : self.checkRequestHeaderLimit headers = .ok ()) :
    ∀ limit, self.headerLimit = some limit → headerSectionSize headers ≤ limit := by
  intro limit hl
  unfold checkRequestHeaderLimit at h
  rw [hl] at h
  simp only at h
  by_contra hlt
  rw [if_pos (Nat.lt_of_not_le hlt)] at h
  cases h

lemma containsKey_addHost {request : Request} (h : addHost request = .ok headers)
    {name : HeaderName} (hn : request.headers.getAll name ≠ []) : headers.getAll name ≠ [] := by
  unfold addHost at h
  split at h
  · next hc =>
    split at h
    · split at h
      · cases h
        by_cases heq : name = .host
        · rw [heq, getAll_insert_self]
          exact cons_ne_nil _ _
        · rwa [getAll_insert_of_ne heq]
      · cases h
    · cases h
  · cases h
    exact hn

lemma prepareRequest_eq_ok {request : Request} {prepared : Prepared}
    (h : self.prepareRequest forbidden request = .ok prepared) :
    self.validateOrigin request.uri = .ok () ∧
      self.checkRequestHeaders forbidden request.headers = .ok () ∧
      ∃ headers, addHost request = .ok headers ∧
        (∀ line ∈ self.injectedHeaders.lines, headers.getAll line.1 = []) ∧
        self.checkRequestHeaderLimit (self.inject headers) = .ok () ∧
        prepared = ⟨request.uri, request.version, self.inject headers,
          .newPolicy self.bodyLimit self⟩ := by
  obtain ⟨_, ho, h⟩ := bind_eq_ok.mp h
  obtain ⟨_, hh, h⟩ := bind_eq_ok.mp h
  obtain ⟨_, -, h⟩ := bind_eq_ok.mp h
  obtain ⟨_, -, h⟩ := bind_eq_ok.mp h
  obtain ⟨headers, hhos, h⟩ := bind_eq_ok.mp h
  refine ⟨ho, hh, headers, hhos, ?_⟩
  split at h
  · cases h
  next ha =>
  obtain ⟨_, hl, h⟩ := bind_eq_ok.mp h
  refine ⟨fun line hlin => ?_, hl, (Except.ok.inj h).symm⟩
  rw [Bool.not_eq_true, any_eq_false] at ha
  exact containsKey_eq_false.mp (by simpa using ha line hlin)

end ExactOriginPolicy

def deliveredData {ε : Type} (items : List (Except (BodyError ε) Frame)) : Bytes :=
  items.flatMap fun
    | .ok (.data bytes) => bytes
    | _ => []

namespace RequestLimitBody

variable {ε : Type} {forbidden : List HeaderName} (self : RequestLimitBody)

lemma pollFrame_fixed (item : Except ε Frame) :
    (self.pollFrame forbidden item).1.bodyLimit = self.bodyLimit ∧
      (self.pollFrame forbidden item).1.trailerPolicy = self.trailerPolicy := by
  unfold pollFrame
  split
  · exact ⟨rfl, rfl⟩
  · split
    · exact ⟨rfl, rfl⟩
    · split
      · exact ⟨rfl, rfl⟩
      · exact ⟨rfl, rfl⟩
  · split
    · exact ⟨rfl, rfl⟩
    · exact ⟨rfl, rfl⟩

/-- The counter is at least the data that was handed on, as long as it does not stop at its
largest value. -/
lemma pollFrame_seen {limit : UInt64}
    (hl : self.bodyLimit = some limit) (hm : limit.toNat < 2 ^ 64 - 1)
    (hs : self.seen ≤ limit.toNat) (item : Except ε Frame) :
    (self.pollFrame forbidden item).1.seen ≤ limit.toNat ∧
      self.seen + (deliveredData [(self.pollFrame forbidden item).2]).length =
        (self.pollFrame forbidden item).1.seen := by
  unfold pollFrame
  split
  · exact ⟨hs, rfl⟩
  · next bytes =>
    rw [hl]
    simp only
    split
    · exact ⟨hs, rfl⟩
    next hle =>
    have hd : (deliveredData [(.ok (.data bytes) : Except (BodyError ε) Frame)]).length =
        bytes.length := by simp [deliveredData]
    simp only [saturatingAdd, hd] at hle ⊢
    omega
  · split
    · exact ⟨hs, rfl⟩
    · exact ⟨hs, rfl⟩

lemma deliveredData_cons (item : Except (BodyError ε) Frame)
    (items : List (Except (BodyError ε) Frame)) :
    deliveredData (item :: items) = deliveredData [item] ++ deliveredData items := by
  simp [deliveredData]

variable (items : List (Except ε Frame))

lemma run_data {limit : UInt64}
    (hl : self.bodyLimit = some limit) (hm : limit.toNat < 2 ^ 64 - 1)
    (hs : self.seen ≤ limit.toNat) :
    self.seen + (deliveredData (self.run forbidden items)).length ≤ limit.toNat := by
  induction items generalizing self with
  | nil => exact hs
  | cons item items ih =>
    obtain ⟨hn, hc⟩ := @pollFrame_seen ε forbidden self limit hl hm hs item
    have hr := ih (self.pollFrame forbidden item).1 ((self.pollFrame_fixed item).1.trans hl) hn
    rw [run, deliveredData_cons, length_append]
    omega

lemma run_trailers
    {fields : MarkedHeaderMap} (h : .ok (.trailers fields) ∈ self.run forbidden items) :
    self.trailerPolicy.check forbidden fields = none := by
  induction items generalizing self with
  | nil => cases h
  | cons item items ih =>
    rw [run, mem_cons] at h
    rcases h with h | h
    · unfold pollFrame at h
      split at h
      · cases h
      · split at h
        · cases h
        · split at h
          · cases h
          · cases h
      split at h
      · cases h
      · next hc =>
        obtain rfl := Frame.trailers.inj (Except.ok.inj h)
        exact hc
    · rw [← (self.pollFrame_fixed item).2]
      exact ih _ h

end RequestLimitBody

/-- What holds of a request that was accepted. A body limit at the largest number is none. -/
structure Enforced (forbidden : List HeaderName) (policy : ExactOriginPolicy) (request : Request)
    (prepared : Prepared) : Prop where
  uri : prepared.uri = request.uri
  scheme : request.uri.scheme = some policy.origin.scheme
  authority : ∃ authority, request.uri.authority = some authority ∧
    lowercase authority.host = policy.origin.host ∧
    authority.port.or (defaultPort policy.origin.scheme) = some policy.origin.port
  guest : ∀ line ∈ request.headers.lines, GuestLine forbidden policy line
  injected : ∀ line ∈ policy.injectedHeaders.lines, prepared.headers.getAll line.1 = [line.2]
  headerLimit : ∀ limit, policy.headerLimit = some limit →
    headerSectionSize prepared.headers ≤ limit
  data : ∀ (ε : Type) (items : List (Except ε Frame)) (limit : UInt64),
    policy.bodyLimit = some limit → limit.toNat < 2 ^ 64 - 1 →
    (deliveredData (prepared.body.run forbidden items)).length ≤ limit.toNat
  trailers : ∀ (ε : Type) (items : List (Except ε Frame)) (fields : MarkedHeaderMap),
    .ok (.trailers fields) ∈ prepared.body.run forbidden items →
    (∀ line ∈ fields.lines, GuestLine forbidden policy line) ∧
      ∀ limit, policy.headerLimit = some limit → headerSectionSize fields ≤ limit

theorem prepareRequest_enforces (forbidden : List HeaderName) (policy : ExactOriginPolicy)
    (request : Request) (prepared : Prepared)
    (h : policy.prepareRequest forbidden request = .ok prepared) :
    Enforced forbidden policy request prepared := by
  obtain ⟨ho, hh, headers, hhos, habs, hlim, rfl⟩ :=
    prepareRequest_eq_ok h
  obtain ⟨hs, ha⟩ :=
    Origin.of_fromUri (fromUri_of_validateOrigin ho)
  refine ⟨rfl, hs, ha, fun line hl => ?_, fun line hl => ?_,
    size_le_of_checkRequestHeaderLimit hlim, fun ε items limit hb hm => ?_,
    fun ε items fields hf => ?_⟩
  · apply guestLine_of_lineRejection (lineRejection_of_checkRequestHeaders hh line hl)
    -- an injected name would have been found among the names of the guest
    by_contra hi
    obtain ⟨value, hv⟩ := exists_mem_of_ne_nil _ hi
    have hg : request.headers.getAll line.1 ≠ [] :=
      ne_nil_of_mem (mem_getAll.mpr hl)
    exact containsKey_addHost hhos hg (habs (line.1, value) (mem_getAll.mp hv))
  · exact getAll_foldl_insert_of_mem policy.injected_nodup hl headers
  · have hr := @RequestLimitBody.run_data ε forbidden
      (.newPolicy policy.bodyLimit policy) items limit hb hm (Nat.zero_le _)
    exact (Nat.le_add_left _ _).trans hr
  · exact RequestTrailerPolicy.of_check (RequestLimitBody.run_trailers _ items hf)

def apiUri : Uri where
  scheme := some (ascii "https")
  authority := some ⟨ascii "api.local:8443", ascii "api.local", some 8443⟩
  path := ascii "/"
  pathAndQuery := some ⟨ascii "/"⟩

def largestLimit : ExactOriginPolicy where
  origin := ⟨ascii "https", ascii "api.local", 8443⟩
  originUri := apiUri
  injectedHeaders := ⟨[]⟩
  bodyLimit := some 0xFFFFFFFFFFFFFFFF
  injected_nodup := List.nodup_nil

def apiRequest : Request := { uri := apiUri, version := .http2, headers := ⟨[]⟩ }

def apiPrepared : Prepared where
  uri := apiUri
  version := .http2
  headers := ⟨[]⟩
  body := .newPolicy (some 0xFFFFFFFFFFFFFFFF) largestLimit

/-- Everything is restricted, and the guest gets an authorization of the host's. -/
def strictPolicy : ExactOriginPolicy :=
  { largestLimit with
    forbidSensitiveHeaders := true
    deniedHeaders := { names := [.cacheControl], prefixes := [ascii "X-Internal-"] }
    headerLimit := some 200
    bodyLimit := some 3 }.injectHeader .authorization ⟨⟨ascii "Bearer t", by decide⟩, true⟩

def guestRequest : Request :=
  { apiRequest with headers := ⟨[(.contentType, ⟨⟨ascii "text/plain", by decide⟩, false⟩)]⟩ }

def guestPrepared : Prepared where
  uri := apiUri
  version := .http2
  headers := guestRequest.headers.append .authorization ⟨⟨ascii "Bearer t", by decide⟩, true⟩
  body := .newPolicy (some 3) strictPolicy

theorem prepareRequest_enforces_api :
    strictPolicy.prepareRequest [.host] guestRequest = .ok guestPrepared ∧
      Enforced [.host] strictPolicy guestRequest guestPrepared :=
  ⟨by decide, prepareRequest_enforces [.host] strictPolicy guestRequest guestPrepared (by decide)⟩

lemma RequestLimitBody.run_data_of_largest {ε : Type} {forbidden : List HeaderName}
    (chunks : List Bytes) (self : RequestLimitBody)
    (hl : self.bodyLimit = some 0xFFFFFFFFFFFFFFFF) :
    deliveredData (self.run forbidden (chunks.map fun chunk =>
      (.ok (.data chunk) : Except ε Frame))) = chunks.flatten := by
  induction chunks generalizing self with
  | nil => rfl
  | cons chunk chunks ih =>
    have hlar : (0xFFFFFFFFFFFFFFFF : UInt64).toNat = 2 ^ 64 - 1 := by decide
    have hp : self.pollFrame forbidden (.ok (.data chunk) : Except ε Frame) =
        ({ self with seen := saturatingAdd self.seen chunk.length }, .ok (.data chunk)) := by
      simp only [pollFrame, hl, hlar]
      rw [if_neg]
      exact Nat.not_lt.mpr (min_le_right _ _)
    rw [map_cons, run, deliveredData_cons, hp]
    rw [ih { self with seen := saturatingAdd self.seen chunk.length } hl]
    simp [deliveredData]

/-- Three frames of the largest size that a frame can have. -/
theorem largest_limit_exceeded :
    largestLimit.validateConfig [.host] = .ok () ∧
      largestLimit.prepareRequest [.host] apiRequest = .ok apiPrepared ∧
      largestLimit.bodyLimit = some 0xFFFFFFFFFFFFFFFF ∧
      ∃ chunk : Bytes, chunk.length = 2 ^ 63 - 1 ∧
        (0xFFFFFFFFFFFFFFFF : UInt64).toNat <
          (deliveredData (apiPrepared.body.run [.host] ([chunk, chunk, chunk].map fun chunk =>
            (.ok (.data chunk) : Except Unit Frame)))).length := by
  have hc : ∀ n, ∃ chunk : Bytes, chunk.length = n := fun n =>
    ⟨List.replicate n 0, length_replicate⟩
  obtain ⟨chunk, hl⟩ := hc (2 ^ 63 - 1)
  refine ⟨by decide, by decide, rfl, chunk, hl, ?_⟩
  rw [RequestLimitBody.run_data_of_largest _ _ rfl]
  simp only [flatten_cons, flatten_nil, length_append, length_nil, hl]
  decide

end Aioduct.Wasmtime
