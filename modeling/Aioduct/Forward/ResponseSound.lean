import Aioduct.Forward.ResponseBody
import Aioduct.Forward.Sanitize

/-!
# The framing of a forwarded response

What the head of a forwarded response may carry, how long its body is and which trailers follow.
-/

namespace Aioduct.Forward

open Wire Http FieldPolicy MessageFraming MultiMap TrailerPolicy ResponseHeaderPolicy Bool

namespace ResponseHeaderPolicy

variable (self : ResponseHeaderPolicy)

lemma selectTrailers_connectionNames (policy : TrailerPolicy) :
    (self.selectTrailers policy).connectionNames = policy.connectionNames := by
  unfold selectTrailers
  split <;> rfl

lemma selectTrailers_direction (policy : TrailerPolicy) :
    (self.selectTrailers policy).direction = policy.direction := by
  unfold selectTrailers
  split <;> rfl

@[simp]
lemma responseTrailerPolicy_connectionNames (status : StatusCode)
    (headers : HeaderMap) (sourceVersion : Option Version) :
    (self.responseTrailerPolicy status headers sourceVersion).connectionNames =
      connectionOptions headers := by
  unfold responseTrailerPolicy
  split <;> simp [selectTrailers_connectionNames, captureResponseForVersion]

@[simp]
lemma responseTrailerPolicy_direction (status : StatusCode)
    (headers : HeaderMap) (sourceVersion : Option Version) :
    (self.responseTrailerPolicy status headers sourceVersion).direction = .response := by
  unfold responseTrailerPolicy
  split <;> simp [selectTrailers_direction, captureResponseForVersion]

variable {self : ResponseHeaderPolicy} {status : StatusCode} {name : HeaderName}
  {headers : HeaderMap}

lemma responseTrailerPolicy_mode (hp : self.protocol = .http11)
    (h : self.framesTrailers status = false) (headers : HeaderMap)
    (sourceVersion : Option Version) :
    (self.responseTrailerPolicy status headers sourceVersion).mode = .disallow ∨
      (self.responseTrailerPolicy status headers sourceVersion).mode = .unsupportedH3 := by
  have hr : self.refusesTrailers (responseAllowsBody self.requestMethod status) := by
    rw [framesTrailers, hp] at h
    rw [refusesTrailers, hp]
    cases ha : responseAllowsBody self.requestMethod status
    · rfl
    rw [ha] at h
    have hacc : self.downstreamAcceptsTrailers = false := h
    rw [hacc]
    rfl
  unfold responseTrailerPolicy
  rw [if_pos hr]
  unfold disallowTrailers
  split
  · exact .inr ‹_›
  · exact .inl rfl

/-! ### The steps of sanitizing -/

lemma dropFraming_contentLength (self : ResponseHeaderPolicy) (status : StatusCode)
    {length : Option UInt64} (h : headers.getAll .contentLength = (length.map lengthValue).toList) :
    ∃ length' : Option UInt64, (self.dropFraming status headers).getAll .contentLength =
      (length'.map lengthValue).toList := by
  unfold dropFraming
  split
  · exact ⟨length, h⟩
  unfold sanitizeBodylessFraming
  split
  · exact ⟨length, by rw [getAll_remove_of_ne (by decide), h]⟩
  · split
    · exact ⟨some 0, getAll_insert_self _ _ _⟩
    · exact ⟨none, getAll_remove_self _ _⟩

section

variable (hlen : name ≠ .contentLength) (hc : name ≠ .transferEncoding)

include hlen hc

lemma dropFraming_getAll (self : ResponseHeaderPolicy) (status : StatusCode) (headers : HeaderMap) :
    (self.dropFraming status headers).getAll name = headers.getAll name := by
  unfold dropFraming
  split
  · rfl
  unfold sanitizeBodylessFraming
  split
  · exact getAll_remove_of_ne hc _
  · split
    · rw [getAll_insert_of_ne hlen, getAll_remove_of_ne hlen, getAll_remove_of_ne hc]
    · rw [getAll_remove_of_ne hlen, getAll_remove_of_ne hc]

lemma frameTrailers_getAll (headers : HeaderMap) :
    (frameTrailers headers).getAll name = headers.getAll name := by
  unfold frameTrailers
  split
  · rw [getAll_insert_of_ne hc, getAll_remove_of_ne hlen]
  · rfl

lemma framed_getAll (frames : Bool) (headers : HeaderMap) :
    (if frames then frameTrailers headers else headers).getAll name = headers.getAll name := by
  split
  · exact frameTrailers_getAll hlen hc headers
  · rfl

end

variable {upgradeValues : Option (List HeaderValue)}

lemma restoreFields_eq : self.restoreFields status upgradeValues headers =
    if self.framesTrailers status then
      frameTrailers (upgradeValues.elim headers (restoreH1Upgrade headers))
    else upgradeValues.elim headers (restoreH1Upgrade headers) := by
  cases upgradeValues <;> rfl

lemma upgraded_getAll (hc : name ≠ .connection) (hup : name ≠ .upgrade) :
    (upgradeValues.elim headers (restoreH1Upgrade headers)).getAll name = headers.getAll name := by
  cases upgradeValues with
  | none => rfl
  | some values => exact restoreH1Upgrade_getAll hc hup headers values

lemma restoreFields_getAll (hcon : name ≠ .connection) (hup : name ≠ .upgrade)
    (hlen : name ≠ .contentLength) (hc : name ≠ .transferEncoding) :
    (self.restoreFields status upgradeValues headers).getAll name = headers.getAll name := by
  rw [restoreFields_eq, framed_getAll hlen hc, upgraded_getAll hcon hup]

/-- The length and the coding that are left: the length as it was, or the coding in its place
where trailers are declared. -/
lemma restoreFields_framing (hnone : headers.getAll .transferEncoding = []) :
    let restored := self.restoreFields status upgradeValues headers
    (restored.getAll .transferEncoding = [] ∧
        restored.getAll .contentLength = headers.getAll .contentLength ∧
        (self.framesTrailers status → restored.getAll .trailer = [])) ∨
      (self.framesTrailers status ∧ restored.getAll .trailer ≠ [] ∧
        restored.getAll .transferEncoding = [chunkedValue] ∧
        restored.getAll .contentLength = []) := by
  have hc := (@upgraded_getAll .transferEncoding headers upgradeValues (by decide)
    (by decide)).trans hnone
  have hlen := @upgraded_getAll .contentLength headers upgradeValues (by decide) (by decide)
  simp only [restoreFields_eq]
  generalize upgradeValues.elim headers (restoreH1Upgrade headers) = upgraded at hc hlen ⊢
  cases hf : self.framesTrailers status with
  | false => exact .inl ⟨hc, hlen, fun h => Bool.noConfusion h⟩
  | true =>
    simp only [if_true]
    cases hd : upgraded.containsKey .trailer with
    | false =>
      rw [frameTrailers, hd]
      exact .inl ⟨hc, hlen, fun _ => containsKey_eq_false.mp hd⟩
    | true =>
      have ht : upgraded.getAll .trailer ≠ [] := by
        intro hempty
        rw [containsKey_eq_false.mpr hempty] at hd
        cases hd
      refine .inr ⟨trivial, ?_, ?_, ?_⟩
      · rwa [frameTrailers_getAll (by decide) (by decide)]
      · rw [frameTrailers, hd, if_pos rfl, getAll_insert_self]
      · rw [frameTrailers, hd, if_pos rfl, getAll_insert_of_ne (by decide), getAll_remove_self]

lemma restoreFields_upgrade (hc : headers.getAll .connection = [])
    (hup : headers.getAll .upgrade = []) :
    (self.restoreFields status upgradeValues headers).getAll .connection =
        (upgradeValues.map fun _ => connectionUpgrade).toList ∧
      (self.restoreFields status upgradeValues headers).getAll .upgrade =
        upgradeValues.getD [] := by
  rw [restoreFields_eq, framed_getAll (by decide) (by decide),
    framed_getAll (by decide) (by decide)]
  cases upgradeValues with
  | none => exact ⟨hc, hup⟩
  | some values =>
    refine ⟨restoreH1Upgrade_connection headers values, ?_⟩
    change (restoreH1Upgrade headers values).getAll .upgrade = values
    rw [restoreH1Upgrade_upgrade, hup, List.nil_append]

lemma validateSwitchingProtocols_congr (self : ResponseHeaderPolicy) {headers' : HeaderMap}
    (hc : headers.getAll .connection = headers'.getAll .connection)
    (hup : headers.getAll .upgrade = headers'.getAll .upgrade) :
    self.validateSwitchingProtocols headers = self.validateSwitchingProtocols headers' := by
  unfold validateSwitchingProtocols collectUpgradeValues
  rw [connectionOptions_congr hc, hup]

lemma responseUpgradeValues_eq_some {values : List HeaderValue}
    (h : self.responseUpgradeValues status headers = .ok (some values)) :
    status = 101 ∧ self.validateSwitchingProtocols headers = .ok () ∧
      values = headers.getAll .upgrade := by
  unfold responseUpgradeValues at h
  split at h
  · rw [bind_eq_ok] at h
    obtain ⟨⟨⟩, hv, h⟩ := h
    refine ⟨‹_›, hv, ?_⟩
    have hc : collectUpgradeValues headers = some values := Except.ok.inj h
    unfold collectUpgradeValues at hc
    dsimp only at hc
    split_ifs at hc
    · exact (Option.some.inj hc).symm
  · cases h

end ResponseHeaderPolicy

structure SanitizesResponse (policy : ResponseHeaderPolicy) (status : StatusCode)
    (headers : HeaderMap) (sourceVersion : Option Version) (checked : HeaderMap)
    (contentLength : Option UInt64) (upgradeValues : Option (List HeaderValue))
    (sanitized : HeaderMap) (bodyPolicy : ResponseBodyPolicy) : Prop where
  check : validateResponseContentLength policy.requestMethod status headers forwardedResponse =
    .ok (checked, contentLength)
  upgrade : policy.responseUpgradeValues status (policy.dropFraming status checked) =
    .ok upgradeValues
  result : sanitized = policy.restoreFields status upgradeValues
    (stripHopByHopWithPolicy (policy.dropFraming status checked)
      (policy.responseTrailerPolicy status checked sourceVersion))
  body : bodyPolicy = policy.bodyPolicy status
    (policy.responseTrailerPolicy status checked sourceVersion) sanitized
    (policy.expectedLength status (headers.containsKey .transferEncoding) contentLength)

/-- The head of a forwarded response is framed without ambiguity: nothing that belongs to the
connection of the upstream is left, and what belongs to the next one is what was written for
it. -/
structure UnambiguousHead (policy : ResponseHeaderPolicy) (status : StatusCode)
    (upstream forwarded : HeaderMap) : Prop where
  nominated : ∀ name ∈ connectionOptions upstream, name ∉ hopByHop → forwarded.getAll name = []
  hopByHop : ∀ name ∈ hopByHop, name ≠ .connection → name ≠ .upgrade →
    name ≠ .transferEncoding → forwarded.getAll name = []
  upgrade : (forwarded.getAll .connection = [] ∧ forwarded.getAll .upgrade = []) ∨
    (status = 101 ∧ policy.validateSwitchingProtocols upstream = .ok () ∧
      forwarded.getAll .connection = [connectionUpgrade] ∧
      forwarded.getAll .upgrade = upstream.getAll .upgrade)
  transferEncoding : forwarded.getAll .transferEncoding = [] ∨
    (policy.protocol = .http11 ∧ forwarded.getAll .transferEncoding = [chunkedValue] ∧
      forwarded.getAll .trailer ≠ [] ∧ forwarded.getAll .contentLength = [])
  contentLength : forwarded.getAll .contentLength = [] ∨
    ∃ length, forwarded.getAll .contentLength = [lengthValue length]
  trailer : forwarded.getAll .trailer = [] ∨
    ∃ value names, names ≠ [] ∧ value.bytes = declaration names ∧
      forwarded.getAll .trailer = [value] ∧
      ∀ name ∈ names, name ∈ listedNames (upstream.getAll .trailer) ∧
        isForbiddenTrailerField .response name = false ∧ name ∉ connectionOptions upstream

/-- The body of a forwarded response agrees with its head: it stops, without an error only after
as many bytes as are declared, or none where there can be no content; and an HTTP/1.1 peer gets
only declared and permitted trailers, in chunked framing. -/
structure UnambiguousBody (policy : ResponseHeaderPolicy) (status : StatusCode)
    (upstream : HeaderMap) (forwarded : ForwardedResponse) : Prop where
  stops : ∃ n frames rest, forwarded.body.read n = some (frames, rest) ∧ rest.Stopped
  length : ∀ n frames rest, forwarded.body.read n = some (frames, rest) → rest.atEnd = true →
    if responseAllowsBody policy.requestMethod status then
      ∀ length, forwarded.headers.getAll .contentLength = [lengthValue length] →
        dataLength frames = length.toNat
    else dataLength frames = 0
  trailers : ∀ n frames rest fields, forwarded.body.read n = some (frames, rest) →
    .trailers fields ∈ frames → policy.protocol = .http11 →
    ∀ name, fields.getAll name ≠ [] →
      name ∈ listedNames (forwarded.headers.getAll .trailer) ∧
        forwarded.headers.getAll .transferEncoding = [chunkedValue] ∧
        isForbiddenTrailerField .response name = false ∧ name ∉ connectionOptions upstream

section

variable {policy : ResponseHeaderPolicy} {status : StatusCode} {headers : HeaderMap}
  {sourceVersion : Option Version} {checked sanitized : HeaderMap}
  {contentLength : Option UInt64} {upgradeValues : Option (List HeaderValue)}
  {bodyPolicy : ResponseBodyPolicy}

lemma sanitizesResponse_of_sanitize
    (h : policy.sanitize status headers sourceVersion = .ok (sanitized, bodyPolicy)) :
    ∃ checked contentLength upgradeValues, SanitizesResponse policy status headers sourceVersion
      checked contentLength upgradeValues sanitized bodyPolicy := by
  unfold sanitize at h
  simp only [bind_eq_ok] at h
  obtain ⟨⟨⟩, -, ⟨checked, contentLength⟩, hc, upgradeValues, hup, ⟨⟩, -, h⟩ := h
  cases h
  exact ⟨checked, contentLength, upgradeValues, hc, hup, rfl, rfl⟩

namespace SanitizesResponse

variable {name : HeaderName}

section

variable (h : SanitizesResponse policy status headers sourceVersion checked contentLength upgradeValues
    sanitized bodyPolicy)

include h

lemma framed_getAll (hlen : name ≠ .contentLength) (hc : name ≠ .transferEncoding) :
    (policy.dropFraming status checked).getAll name = headers.getAll name := by
  rw [dropFraming_getAll hlen hc, validateResponseContentLength_getAll h.check hlen hc]

lemma connectionNames :
    (policy.responseTrailerPolicy status checked sourceVersion).connectionNames =
      connectionOptions headers := by
  rw [responseTrailerPolicy_connectionNames]
  exact connectionOptions_congr
    (validateResponseContentLength_getAll h.check (by decide) (by decide))

lemma getAll_eq_nil (hn : name ∈ hopByHop ∨ name ∈ connectionOptions headers)
    (hcon : name ≠ .connection) (hup : name ≠ .upgrade)
    (hlen : name ≠ .contentLength) (hc : name ≠ .transferEncoding) :
    sanitized.getAll name = [] := by
  rw [h.result, restoreFields_getAll hcon hup hlen hc]
  apply strip_getAll_eq_nil
  rwa [h.connectionNames]

lemma framing :
    (sanitized.getAll .transferEncoding = [] ∧
        sanitized.getAll .contentLength =
          (stripHopByHopWithPolicy (policy.dropFraming status checked)
            (policy.responseTrailerPolicy status checked sourceVersion)).getAll .contentLength ∧
        (policy.framesTrailers status → sanitized.getAll .trailer = [])) ∨
      (policy.framesTrailers status ∧ sanitized.getAll .trailer ≠ [] ∧
        sanitized.getAll .transferEncoding = [chunkedValue] ∧
        sanitized.getAll .contentLength = []) := by
  rw [h.result]
  exact restoreFields_framing (strip_getAll_eq_nil (.inl (by decide)) _)

lemma stripped_contentLength :
    sanitized.getAll .contentLength = [] ∨ sanitized.getAll .contentLength =
      (stripHopByHopWithPolicy (policy.dropFraming status checked)
        (policy.responseTrailerPolicy status checked sourceVersion)).getAll .contentLength := by
  rcases h.framing with ⟨-, hlen, -⟩ | ⟨-, -, -, hnone⟩
  · exact .inr hlen
  · exact .inl hnone

lemma trailer :
    sanitized.getAll .trailer = [] ∨
      ∃ value names, names ≠ [] ∧ value.bytes = declaration names ∧
        sanitized.getAll .trailer = [value] ∧
        ∀ name ∈ names, name ∈ listedNames (headers.getAll .trailer) ∧
          isForbiddenTrailerField .response name = false ∧ name ∉ connectionOptions headers := by
  by_cases hnam : .trailer ∈ connectionOptions headers
  · exact .inl (h.getAll_eq_nil (.inr hnam) (by decide) (by decide) (by decide) (by decide))
  rw [h.result, restoreFields_getAll (by decide) (by decide) (by decide)
    (by decide), strip_trailer_eq (by rwa [h.connectionNames])]
  rcases (policy.responseTrailerPolicy status checked sourceVersion).sanitizeDeclaration_trailer
    (policy.dropFraming status checked) with hnone | ⟨value, names, hne, hv, hn, ht⟩
  · exact .inl hnone
  refine .inr ⟨value, names, hne, hv, ht, fun name hm => ?_⟩
  obtain ⟨hl, hp⟩ := hn name hm
  rw [isForbidden, responseTrailerPolicy_direction, h.connectionNames, or_eq_false_iff] at hp
  rw [h.framed_getAll (by decide) (by decide)] at hl
  exact ⟨hl, hp.1, by simpa using hp.2⟩

lemma head : UnambiguousHead policy status headers sanitized where
  nominated := by
    intro name hn hh
    by_cases hlen : name = .contentLength
    · subst hlen
      rcases h.stripped_contentLength with hnone | hlen
      · exact hnone
      · rw [hlen, strip_getAll_eq_nil (.inr (by rwa [h.connectionNames]))]
    have hne : ∀ other ∈ hopByHop, name ≠ other := by
      rintro other ho rfl
      exact hh ho
    exact h.getAll_eq_nil (.inr hn) (hne _ (by decide)) (hne _ (by decide)) hlen (hne _ (by decide))
  hopByHop := by
    intro name hn hc hup hcod
    have hlen : name ≠ .contentLength := by
      rintro rfl
      exact absurd hn (by decide)
    exact h.getAll_eq_nil (.inl hn) hc hup hlen hcod
  upgrade := by
    have hs : ∀ name ∈ Forward.hopByHop,
        (stripHopByHopWithPolicy (policy.dropFraming status checked)
          (policy.responseTrailerPolicy status checked sourceVersion)).getAll name = [] :=
      fun name hn => strip_getAll_eq_nil (.inl hn) _
    obtain ⟨hc, hup⟩ := @restoreFields_upgrade policy status
      _ upgradeValues (hs .connection (by decide)) (hs .upgrade (by decide))
    rw [h.result, hc, hup]
    cases hval : upgradeValues with
    | none => exact .inl ⟨rfl, rfl⟩
    | some values =>
      have hk := h.upgrade
      rw [hval] at hk
      obtain ⟨hsta, hv, rfl⟩ := responseUpgradeValues_eq_some hk
      have hf := h.framed_getAll (show HeaderName.upgrade ≠ .contentLength by decide) (by decide)
      rw [policy.validateSwitchingProtocols_congr (h.framed_getAll (by decide) (by decide))
        hf] at hv
      exact .inr ⟨hsta, hv, rfl, hf⟩
  transferEncoding := by
    rcases h.framing with ⟨hnone, -⟩ | ⟨hfra, ht, hchu, hlen⟩
    · exact .inl hnone
    · simp only [framesTrailers, and_eq_true, beq_iff_eq] at hfra
      exact .inr ⟨hfra.1.1, hchu, ht, hlen⟩
  contentLength := by
    rcases h.stripped_contentLength with hnone | hlen
    · exact .inl hnone
    obtain ⟨length, hfr⟩ := policy.dropFraming_contentLength status
      (validateResponseContentLength_lengths h.check)
    rcases strip_contentLength (policy.responseTrailerPolicy status checked sourceVersion)
      (policy.dropFraming status checked) with hnone | hk
    · exact .inl (hlen.trans hnone)
    rw [hlen, hk, hfr]
    cases length with
    | none => exact .inl rfl
    | some length => exact .inr ⟨length, rfl⟩
  trailer := h.trailer

lemma expected (ha : responseAllowsBody policy.requestMethod status) {length : UInt64}
    (hlen : sanitized.getAll .contentLength = [lengthValue length]) :
    bodyPolicy.bodyLength.expected = some length := by
  have hf : policy.dropFraming status checked = checked := by
    rw [dropFraming, if_pos ha]
  have hk := h.stripped_contentLength.resolve_left (by simp [hlen])
  have hc : headers.containsKey .transferEncoding = false := by
    -- a coded response loses its length, and there is no coding to lose for CONNECT
    by_contra hc
    rw [not_eq_false] at hc
    rcases validateResponseContentLength_eq_ok h.check with ⟨hm, hsucc, -⟩ | hn
    · simp [responseAllowsBody, hm, hsucc] at ha
    have hchk : checked.containsKey .transferEncoding := by
      rw [← hc]
      exact containsKey_congr (normalizeContentLength_getAll hn (by decide))
    rw [hf, strip_contentLength_of_coded _ hchk, hlen] at hk
    cases hk
  have he : bodyPolicy.bodyLength.expected = contentLength := by
    rw [h.body, ResponseHeaderPolicy.bodyPolicy, ResponseHeaderPolicy.expectedLength, if_pos ha, hc]
    rfl
  have hchk := validateResponseContentLength_lengths h.check
  rcases strip_contentLength (policy.responseTrailerPolicy status checked sourceVersion)
    (policy.dropFraming status checked) with hnone | hs
  · rw [hk, hnone] at hlen
    cases hlen
  rw [hk, hs, hf, hchk] at hlen
  rw [he]
  cases contentLength with
  | none => cases hlen
  | some n =>
    have hv : lengthValue n = lengthValue length := by simpa using hlen
    rw [lengthValue_injective hv]

lemma expected_of_bodyless (ha : responseAllowsBody policy.requestMethod status = false) :
    bodyPolicy.bodyLength.expected = some 0 := by
  rw [h.body, ResponseHeaderPolicy.bodyPolicy, ResponseHeaderPolicy.expectedLength, ha]
  rfl

/-- Trailers that pass to an HTTP/1.1 peer were declared. -/
lemma declared (hpro : policy.protocol = .http11) {fields : HeaderMap}
    (hpas : bodyPolicy.Passes fields) (hn : fields.getAll name ≠ []) :
    name ∈ listedNames (sanitized.getAll .trailer) ∧
      sanitized.getAll .transferEncoding = [chunkedValue] ∧
      isForbiddenTrailerField .response name = false ∧ name ∉ connectionOptions headers := by
  obtain ⟨received, hr⟩ := hpas
  obtain ⟨hp, hm⟩ := sanitizeTrailers_eq_some hr hn
  have ht : bodyPolicy.trailers = if policy.framesTrailers status then
      (policy.responseTrailerPolicy status checked sourceVersion).restrictToDeclaration sanitized
      else policy.responseTrailerPolicy status checked sourceVersion := by
    rw [h.body]
    rfl
  rw [ht] at hp hm
  cases hf : policy.framesTrailers status with
  | false =>
    rw [hf, if_neg Bool.false_ne_true] at hm
    rcases policy.responseTrailerPolicy_mode hpro hf checked sourceVersion with
      hdisallow | hu
    · simp [hdisallow] at hm
    · simp [hu] at hm
  | true =>
    rw [hf, if_pos rfl] at hp hm
    rw [isForbidden, restrictToDeclaration_direction,
      restrictToDeclaration_connectionNames,
      responseTrailerPolicy_direction, h.connectionNames,
      or_eq_false_iff] at hp
    have hd : name ∈ listedNames (sanitized.getAll .trailer) := by
      rcases hm with hpre | ⟨-, hd⟩
      · exact absurd hpre (restrictToDeclaration_mode _ _)
      · exact mem_of_restrictToDeclaration hd
    have htra : sanitized.getAll .trailer ≠ [] := by
      intro hnone
      rw [hnone] at hd
      exact absurd hd List.not_mem_nil
    rcases h.framing with ⟨-, -, hnone⟩ | ⟨-, -, hc, -⟩
    · exact absurd (hnone hf) htra
    · exact ⟨hd, hc, hp.1, by simpa using hp.2⟩

end

end SanitizesResponse

end

variable {checked : HeaderMap} {policy : ResponseHeaderPolicy}

lemma validateInboundResponseHeaders_eq_ok {version : Version} {requestMethod : Method}
    {status : StatusCode} {headers : HeaderMap}
    (h : validateInboundResponseHeaders version requestMethod status headers = .ok checked) :
    ∃ length, validateResponseContentLength requestMethod status headers
      (ascii "inbound response") = .ok (checked, length) := by
  have hl : (validateResponseContentLength requestMethod status headers
      (ascii "inbound response") >>= fun parts => pure parts.1) = Except.ok checked := by
    unfold validateInboundResponseHeaders at h
    split at h
    · exact (bind_eq_ok.mp h).choose_spec.2
    · split at h
      · exact (bind_eq_ok.mp h).choose_spec.2
      · exact h
  obtain ⟨⟨normalized, length⟩, hc, hn⟩ := bind_eq_ok.mp hl
  cases hn
  exact ⟨length, hc⟩

variable {status : StatusCode}

lemma responseAllowsBody_of_validatesEagerly
    (h : policy.validatesEagerly status) :
    responseAllowsBody policy.requestMethod status = false := by
  simp only [validatesEagerly, or_eq_true, beq_iff_eq] at h
  rcases h with ((h | h) | h) | h <;> simp [responseAllowsBody, h]

lemma sanitizeForwardResponseBody_eq_ok {headers sanitized : HeaderMap}
    {sourceVersion : Option Version} {contentLength : Option UInt64}
    {upgradeValues : Option (List HeaderValue)} {bodyPolicy : ResponseBodyPolicy}
    {items : List (Except Error Frame)} {body : SanitizedForwardResponseBody}
    (hsan : SanitizesResponse policy status headers sourceVersion checked contentLength
      upgradeValues sanitized bodyPolicy)
    (h : sanitizeForwardResponseBody bodyPolicy items = .ok body) :
    body.policy = bodyPolicy ∧ body.Delivered 0 := by
  have hs : Counted bodyPolicy.bodyLength 0 := by
    rw [hsan.body]
    unfold ResponseHeaderPolicy.bodyPolicy ResponseHeaderPolicy.expectedLength
    dsimp only
    split <;> exact ⟨rfl, fun hf => Bool.noConfusion hf⟩
  unfold sanitizeForwardResponseBody at h
  split at h
  next he =>
    have ha : responseAllowsBody policy.requestMethod status = false := by
      apply responseAllowsBody_of_validatesEagerly
      rw [hsan.body] at he
      exact he
    cases hd : drain bodyPolicy items with
    | error error =>
      rw [hd] at h
      cases h
    | ok done =>
      rw [hd] at h
      cases h
      refine ⟨rfl, hs, fun _ length hlen => ?_⟩
      rw [hsan.expected_of_bodyless ha] at hlen
      cases hlen
      rfl
  · cases h
    refine ⟨rfl, hs, fun hnone => ?_⟩
    cases hnone

lemma UnambiguousHead.congr {upstream forwarded : HeaderMap}
    (h : UnambiguousHead policy status checked forwarded)
    (hs : ∀ name, name ≠ .contentLength → name ≠ .transferEncoding →
      checked.getAll name = upstream.getAll name) :
    UnambiguousHead policy status upstream forwarded := by
  have ho : connectionOptions checked = connectionOptions upstream :=
    connectionOptions_congr (hs _ (by decide) (by decide))
  have ht := hs .trailer (by decide) (by decide)
  have hup := hs .upgrade (by decide) (by decide)
  have hv := policy.validateSwitchingProtocols_congr (hs .connection (by decide) (by decide)) hup
  obtain ⟨hn, hh, hswi, hc, hlen, hd⟩ := h
  rw [ho] at hn
  rw [hv, hup] at hswi
  rw [ho, ht] at hd
  exact ⟨hn, hh, hswi, hc, hlen, hd⟩

lemma unambiguous_of_sanitize {sourceVersion : Option Version} {sanitized : HeaderMap}
    {bodyPolicy : ResponseBodyPolicy} {items : List (Except Error Frame)}
    {body : SanitizedForwardResponseBody}
    (hsan : policy.sanitize status headers sourceVersion = .ok (sanitized, bodyPolicy))
    (hb : sanitizeForwardResponseBody bodyPolicy items = .ok body) :
    UnambiguousHead policy status headers sanitized ∧
      UnambiguousBody policy status headers ⟨sanitized, body⟩ := by
  obtain ⟨checked, contentLength, upgradeValues, hs⟩ :=
    sanitizesResponse_of_sanitize hsan
  obtain ⟨hp, hd⟩ := sanitizeForwardResponseBody_eq_ok hs hb
  refine ⟨hs.head, body.exists_stopped, ?_, ?_⟩
  · intro n frames rest hr hend
    obtain ⟨hres, hrul, -⟩ := hd.read hr
    have he := hres.atEnd hend
    rw [hrul.2, hp, Nat.zero_add] at he
    split
    next ha =>
      intro length hl
      exact (he length (hs.expected ha hl)).symm
    next ha =>
      exact (he 0 (hs.expected_of_bodyless (by simpa using ha))).symm
  intro n frames rest fields hr hf hpro name hn
  have hpas := (hd.read hr).2.2 fields hf
  rw [hp] at hpas
  exact hs.declared hpro hpas hn

/-- Whatever a hook does to a response, what is sent is framed without ambiguity. -/
lemma runResponseHook_unambiguous {hook : StatusCode → ForwardedResponse → HookedResponse}
    {forwarded sent : ForwardedResponse}
    (h : runResponseHook policy status hook forwarded = .ok sent) :
    let hooked := hook status forwarded
    UnambiguousHead policy hooked.status hooked.headers sent.headers ∧
      UnambiguousBody policy hooked.status hooked.headers sent := by
  unfold runResponseHook at h
  simp only [bind_eq_ok] at h
  obtain ⟨-, -, -, -, -, -, -, -, ⟨sanitized, bodyPolicy⟩, hsan, body, hb, h⟩ := h
  cases h
  exact unambiguous_of_sanitize hsan hb

/-- A forwarded response is framed without ambiguity. -/
theorem forwardResponse_unambiguous {policy : ResponseHeaderPolicy} {requestMethod : Method}
    {version : Version} {status : StatusCode} {headers : HeaderMap}
    {items : List (Except Error Frame)} {forwarded : ForwardedResponse}
    (h : forwardResponse policy requestMethod version status headers items = .ok forwarded) :
    UnambiguousHead policy status headers forwarded.headers ∧
      UnambiguousBody policy status headers forwarded := by
  unfold forwardResponse at h
  simp only [bind_eq_ok] at h
  obtain ⟨inbound, hi, ⟨sanitized, bodyPolicy⟩, hsan, body, hb, h⟩ := h
  cases h
  obtain ⟨length, hc⟩ := validateInboundResponseHeaders_eq_ok hi
  have hsam : ∀ name, name ≠ .contentLength → name ≠ .transferEncoding →
      inbound.getAll name = headers.getAll name :=
    fun name => validateResponseContentLength_getAll hc
  obtain ⟨hhead, hbody⟩ := unambiguous_of_sanitize hsan hb
  refine ⟨hhead.congr hsam, hbody.stops, hbody.length, ?_⟩
  intro n frames rest fields hr hf hpro name hn
  have hdec := hbody.trailers n frames rest fields hr hf hpro name hn
  rwa [connectionOptions_congr (hsam .connection (by decide) (by decide))] at hdec

def sampleResponse : HeaderMap :=
  ⟨[(.connection, ⟨ascii "x-hop", by decide⟩),
    (⟨ascii "x-hop", by decide⟩, ⟨ascii "1", by decide⟩),
    (.trailer, ⟨ascii "x-sum, x-hop", by decide⟩), (.transferEncoding, chunkedValue)]⟩

def sampleFrames : List (Except Error Frame) :=
  [.ok (.data (ascii "hello")),
    .ok (.trailers ⟨[(⟨ascii "x-sum", by decide⟩, ⟨ascii "5", by decide⟩)]⟩)]

theorem forwardResponse_unambiguous_sample :
    ∃ forwarded, forwardResponse ⟨.http11, .get, true, none⟩ .get .http11 200 sampleResponse
        sampleFrames = .ok forwarded ∧
      UnambiguousHead ⟨.http11, .get, true, none⟩ 200 sampleResponse forwarded.headers ∧
      UnambiguousBody ⟨.http11, .get, true, none⟩ 200 sampleResponse forwarded := by
  have ha : ∃ forwarded, forwardResponse ⟨.http11, .get, true, none⟩ .get .http11 200
      sampleResponse sampleFrames = .ok forwarded := ⟨_, rfl⟩
  obtain ⟨forwarded, hf⟩ := ha
  exact ⟨forwarded, hf, forwardResponse_unambiguous hf⟩

/-- The answer to a `HEAD` request keeps the length of the content that it does not have. -/
theorem head_response_keeps_length :
    ∃ forwarded, forwardResponse ⟨.http11, .head, false, none⟩ .head .http11 200
        ⟨[(.contentLength, lengthValue 5)]⟩ [] = .ok forwarded ∧
      forwarded.headers.getAll .contentLength = [lengthValue 5] ∧
      forwarded.body.read 0 = some ([], forwarded.body) ∧ forwarded.body.atEnd = true ∧
      dataLength [] ≠ (5 : UInt64).toNat :=
  ⟨_, rfl, rfl, rfl, rfl, by decide⟩

end Aioduct.Forward
