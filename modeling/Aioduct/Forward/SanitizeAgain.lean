import Aioduct.Forward.Sanitize

/-!
# Sanitizing twice

A sanitized request passes the same checks again, and nothing about it changes.
-/

namespace Aioduct.Forward

open Wire Http FieldPolicy MessageFraming TrailerPolicy List Except Or

variable {h1UpgradeRequest acceptsTrailers : Bool} {values teValues : List HeaderValue}

@[simp]
lemma requestTrailerPolicy_direction (headers : HeaderMap) (protocol : HeaderProtocol) :
    (requestTrailerPolicy headers protocol).direction = .request := by
  cases protocol <;> rfl

lemma requestTrailerPolicy_mode (headers : HeaderMap) (protocol : HeaderProtocol) :
    (requestTrailerPolicy headers protocol).mode ≠ .disallow := by
  cases protocol <;> simp [requestTrailerPolicy, capture,
    captureRequestForVersion, captureWithDirection,
    setModeForSource, FieldProtocol.fromVersion]

lemma listedNames_writtenConnection (upgradeValues : Option (List HeaderValue))
    (h2cSettings : Option HeaderValue) (te : Bool) :
    ∀ name ∈ listedNames (writtenConnection upgradeValues h2cSettings te),
      name ∈ [.upgrade, .http2Settings, .te] := by
  cases upgradeValues <;> cases h2cSettings <;> cases te <;>
    simp only [writtenConnection, upgradeConnection, if_true, Bool.false_eq_true, if_false] <;>
    decide

variable {protocol : HeaderProtocol} {headers checked again : HeaderMap}

lemma preservesH1Te_eq_false (checked : HeaderMap) (h : protocol ≠ .http11)
    (acceptsTrailers : Bool) : preservesH1Te checked protocol acceptsTrailers = false := by
  simp [preservesH1Te, h]

lemma fieldValues_of_validateHeaders {policy : H2H3FieldPolicy}
    (h : policy.validateHeaders headers = .ok ()) (name : HeaderName) :
    ∀ value ∈ headers.getAll name, hasOuterWhitespace value = false := by
  unfold H2H3FieldPolicy.validateHeaders at h
  rw [bind_eq_ok] at h
  obtain ⟨⟨⟩, hv, -⟩ := h
  exact validateFieldValues_eq_ok.mp hv name

lemma hasOuterWhitespace_lengthValue (length : UInt64) :
    hasOuterWhitespace (lengthValue length) = false := by
  rw [hasOuterWhitespace_eq_false]
  have hd := isDigit_of_mem_numeral length.toNat
  constructor
  · intro b hb
    exact isDigit_not_ows (hd b (mem_of_head? hb))
  · exact stopsEnd_of_all fun b hb => isDigit_not_ows (hd b hb)

lemma requestUpgradeValues_some
    (h : requestUpgradeValues checked protocol h1UpgradeRequest = .ok (some values)) :
    h1UpgradeRequest ∧ protocol = .http11 ∧ collectUpgradeValues checked = some values := by
  unfold requestUpgradeValues at h
  split at h
  · cases h
  rename_i hup
  split at h
  · cases h
  rename_i hp
  split at h
  · cases h
  split at h
  · cases h
  next found hf =>
    obtain rfl : found = values := Option.some.inj (ok.inj h)
    exact ⟨by simpa using hup, by simpa using hp, hf⟩

lemma getAll_of_collectUpgradeValues
    (h : collectUpgradeValues headers = some values) : headers.getAll .upgrade = values := by
  unfold collectUpgradeValues at h
  dsimp only at h
  split_ifs at h
  · exact Option.some.inj h

lemma preservesH1Te_again (hte : again.getAll .te =
      if writesTe checked protocol acceptsTrailers then [trailersValue] else []) :
    preservesH1Te again protocol acceptsTrailers =
      preservesH1Te checked protocol acceptsTrailers := by
  by_cases hpro : protocol = .http11
  · have hw : writesTe checked protocol acceptsTrailers =
        preservesH1Te checked protocol acceptsTrailers := by
      rw [writesTe, hpro]
      rfl
    rw [hw] at hte
    have ho : onlyTeTrailers [trailersValue] := by decide
    cases hp : preservesH1Te checked protocol acceptsTrailers with
    | false =>
      rw [hp] at hte
      simp [preservesH1Te, hte]
    | true =>
      rw [hp] at hte
      rw [preservesH1Te] at hp ⊢
      simp only [Bool.and_eq_true] at hp
      simp [hte, ho, hp.1.1]
  · rw [preservesH1Te_eq_false _ hpro, preservesH1Te_eq_false _ hpro]

lemma writesTe_again (hte : again.getAll .te =
      if writesTe checked protocol acceptsTrailers then [trailersValue] else []) :
    writesTe again protocol acceptsTrailers = writesTe checked protocol acceptsTrailers := by
  have hpre := preservesH1Te_again hte
  unfold writesTe at hte ⊢
  rw [hpre, hte]
  cases hh2 : protocol.isH2OrH3 <;> cases (checked.getAll .te).isEmpty <;>
    cases hp : preservesH1Te checked protocol acceptsTrailers <;> simp

lemma checkTransferEncoding_of_getAll_eq_nil (h : headers.getAll .transferEncoding = [])
    (protocol : HeaderProtocol) : checkTransferEncoding headers protocol = .ok () := by
  unfold checkTransferEncoding validateH1TransferEncoding
  rw [h]
  split <;> rfl

lemma exists_restoreH2H3Te (h : teValues = [] ∨ teValues = [trailersValue]) (headers : HeaderMap)
    (protocol : HeaderProtocol) :
    ∃ restored, restoreH2H3Te headers protocol teValues = .ok restored := by
  unfold restoreH2H3Te
  split
  next hte =>
    rcases h with rfl | rfl
    · simp at hte
    · have hv : validateTeTrailers [trailersValue] = .ok () := by decide
      exact ⟨_, rfl⟩
  · exact ⟨_, rfl⟩

section

variable [UrlSafeNoPad] {headers sanitized checked : HeaderMap} {protocol : HeaderProtocol}
  {h1UpgradeRequest acceptsTrailers : Bool} {upgradeValues : Option (List HeaderValue)}
  {h2cSettings : Option HeaderValue}

section

variable (h : Sanitizes headers protocol h1UpgradeRequest acceptsTrailers checked upgradeValues
    h2cSettings sanitized)

include h

lemma sanitizeRequest_of_sanitizes :
    sanitizeRequest headers protocol h1UpgradeRequest acceptsTrailers =
      .ok (sanitized, requestTrailerPolicy checked protocol) := by
  obtain ⟨stripped, hte, rfl⟩ := h.result
  unfold sanitizeRequest
  simp [h.check, h.upgrade, h.settings, hte, bind, Except.bind, pure, Except.pure]

lemma Sanitizes.connectionOptions_sanitized :
    ∀ name ∈ connectionOptions sanitized, name ∈ [.upgrade, .http2Settings, .te] := by
  rw [connectionOptions, h.connection]
  exact listedNames_writtenConnection _ _ _

lemma Sanitizes.upgradeValues_none (hp : protocol ≠ .http11) :
    upgradeValues = none ∧ h2cSettings = none := by
  have hup := h.upgrade
  have hs := h.settings
  unfold requestUpgradeValues at hup
  cases h1UpgradeRequest with
  | false =>
    cases hup
    exact ⟨rfl, requestH2cSettings_none hs⟩
  | true =>
    rw [if_neg (by simp), if_pos hp] at hup
    cases hup

lemma Sanitizes.trailer_cases :
    sanitized.getAll .trailer = [] ∨
      ∃ value names, names ≠ [] ∧ value.bytes = declaration names ∧
        (∀ name ∈ names, isForbiddenTrailerField .request name = false) ∧
        sanitized.getAll .trailer = [value] := by
  rw [h.getAll_eq_strip (by decide)]
  by_cases hn : .trailer ∈ (requestTrailerPolicy checked protocol).connectionNames
  · exact inl (strip_getAll_eq_nil (inr hn) checked)
  rw [strip_trailer_eq hn]
  rcases (requestTrailerPolicy checked protocol).sanitizeDeclaration_trailer checked with
    hnone | ⟨value, names, hne, hv, hnam, ht⟩
  · exact inl hnone
  refine inr ⟨value, names, hne, hv, fun name hm => ?_, ht⟩
  have hp := (hnam name hm).2
  rw [isForbidden, requestTrailerPolicy_direction, Bool.or_eq_false_iff] at hp
  exact hp.1

lemma Sanitizes.contentLength_cases :
    sanitized.getAll .contentLength = [] ∨
      sanitized.getAll .contentLength = checked.getAll .contentLength := by
  rw [h.getAll_eq_strip (by decide)]
  exact strip_contentLength _ _

lemma Sanitizes.getAll_hop (hp : protocol ≠ .http11) {name : HeaderName}
    (hh : name ∈ hopByHop) (hte : name ≠ .te) : sanitized.getAll name = [] := by
  obtain ⟨hup, hs⟩ := h.upgradeValues_none hp
  by_cases hc : name = .connection
  · rw [hc, h.connection, hup, preservesH1Te_eq_false checked hp]
    rfl
  by_cases hnam : name = .upgrade
  · rw [hnam, h.upgrade_getAll, hup]
    rfl
  by_cases hn : name = .http2Settings
  · rw [hn, h.http2Settings, hs]
    rfl
  exact h.getAll_removed hh hc hte hnam hn

lemma Sanitizes.hasOuterWhitespace_sanitized (hp : protocol ≠ .http11)
    (hv : ∀ name, ∀ value ∈ headers.getAll name, hasOuterWhitespace value = false)
    (name : HeaderName) : ∀ value ∈ sanitized.getAll name, hasOuterWhitespace value = false := by
  intro value hval
  by_cases hh : name ∈ hopByHop
  · by_cases hte : name = .te
    · rw [hte, h.te] at hval
      split at hval
      · rw [mem_singleton.mp hval]
        decide
      · cases hval
    · rw [h.getAll_hop hp hh hte] at hval
      cases hval
  by_cases hnom : name ∈ connectionOptions headers
  · rw [h.getAll_nominated hh hnom] at hval
    cases hval
  by_cases ht : name = .trailer
  · rw [ht] at hval
    rcases h.trailer_cases with hnone | ⟨declared, names, hne, hb, -, hd⟩
    · rw [hnone] at hval
      cases hval
    · rw [hd, mem_singleton] at hval
      rw [hval]
      exact hasOuterWhitespace_declaration hne hb
  by_cases hlen : name = .contentLength
  · rw [hlen] at hval
    obtain ⟨length, -, hn, -⟩ := checkRequest_eq_ok h.check
    rcases h.contentLength_cases with hnone | hk
    · rw [hnone] at hval
      cases hval
    rw [hk] at hval
    rcases normalizeContentLength_eq_ok hn with ⟨rfl, hnone⟩ | ⟨n, -, rfl⟩
    · rw [hnone] at hval
      cases hval
    · rw [MultiMap.getAll_insert_self, mem_singleton] at hval
      rw [hval]
      exact hasOuterWhitespace_lengthValue n
  · rw [h.getAll_kept hh hnom ht hlen] at hval
    exact hv name value hval

lemma Sanitizes.validateHeaders_sanitized (hp : protocol ≠ .http11)
    {fieldProtocol : FieldProtocol}
    (hv : (H2H3FieldPolicy.mk fieldProtocol .request).validateHeaders headers = .ok ()) :
    (H2H3FieldPolicy.mk fieldProtocol .request).validateHeaders sanitized = .ok () := by
  apply validateHeaders_request
  · exact h.hasOuterWhitespace_sanitized hp (fieldValues_of_validateHeaders hv)
  · intro name hn
    have hm := eq_of_isConnectionSpecific hn
    simp only [mem_cons, not_mem_nil, or_false] at hm
    rcases hm with rfl | rfl | rfl | rfl | rfl | rfl <;>
      exact h.getAll_hop hp (by decide) (by decide)
  rw [h.te]
  split
  · decide
  · rfl

lemma Sanitizes.checkHeaderBlock_sanitized : checkHeaderBlock sanitized protocol = .ok () := by
  obtain ⟨length, hb, -, -⟩ := checkRequest_eq_ok h.check
  cases protocol with
  | negotiated => rfl
  | http10 => rfl
  | http11 => rfl
  | http2 | http3 => exact h.validateHeaders_sanitized (by decide) hb

end

lemma requestH2cSettings_eq_ok {settings : Option HeaderValue}
    (h : requestH2cSettings checked upgradeValues = .ok settings) :
    (upgradeValues.any containsH2c = false ∧ settings = none) ∨
      (upgradeValues.any containsH2c ∧
        ∃ value, settings = some value ∧ collectH2cSettings checked = .ok value) := by
  unfold requestH2cSettings at h
  split at h
  next ha =>
    cases hc : collectH2cSettings checked with
    | error e =>
      rw [hc] at h
      cases h
    | ok value =>
      rw [hc] at h
      exact inr ⟨ha, value, (ok.inj h).symm, rfl⟩
  next ha =>
    exact inl ⟨by simpa using ha, (ok.inj h).symm⟩

lemma collectH2cSettings_eq_ok {value : HeaderValue} (h : collectH2cSettings headers = .ok value) :
    headers.getAll .http2Settings = [value] ∧
      ∀ headers' : HeaderMap, (connectionOptions headers').contains .http2Settings →
        headers'.getAll .http2Settings = [value] → collectH2cSettings headers' = .ok value := by
  unfold collectH2cSettings at h
  split_ifs at h
  split at h
  next found hf =>
    split at h
    · cases h
    rename_i decoded hd
    split at h
    · cases h
    rename_i hlen
    cases h
    refine ⟨hf, fun headers' ho hs => ?_⟩
    unfold collectH2cSettings
    simp only [ho, hs, hd]
    exact if_neg hlen
  · cases h

section

variable (h : Sanitizes headers protocol h1UpgradeRequest acceptsTrailers checked upgradeValues
    h2cSettings sanitized)

include h

lemma Sanitizes.requestUpgradeValues_again
    (hcon : again.getAll .connection = sanitized.getAll .connection)
    (hup : again.getAll .upgrade = sanitized.getAll .upgrade) :
    requestUpgradeValues again protocol h1UpgradeRequest = .ok upgradeValues := by
  cases hv : upgradeValues with
  | none =>
    -- without an upgrade request nothing is read; with one there would be values
    have hnone := h.upgrade
    rw [hv] at hnone
    unfold requestUpgradeValues at hnone ⊢
    cases h1UpgradeRequest with
    | false => rfl
    | true =>
      rw [if_neg (by simp)] at hnone
      split at hnone
      · cases hnone
      · split at hnone
        · cases hnone
        · split at hnone <;> cases hnone
  | some values =>
    have hsome := h.upgrade
    rw [hv] at hsome
    obtain ⟨hr, hp, hc⟩ := requestUpgradeValues_some hsome
    have hl : again.getAll .upgrade = checked.getAll .upgrade := by
      rw [hup, h.upgrade_getAll, hv, getAll_of_collectUpgradeValues hc]
      rfl
    have ho : (connectionOptions again).contains .upgrade := by
      rw [connectionOptions, hcon, h.connection, hv]
      cases h2cSettings <;> cases preservesH1Te checked protocol acceptsTrailers <;>
        simp only [writtenConnection, upgradeConnection] <;> decide
    unfold requestUpgradeValues
    rw [hr, if_neg (by simp), if_neg (by simp [hp]), ho, if_neg (by simp),
      collectUpgradeValues, hl, ← collectUpgradeValues, hc]

lemma Sanitizes.requestH2cSettings_again
    (hcon : again.getAll .connection = sanitized.getAll .connection)
    (hs : again.getAll .http2Settings = sanitized.getAll .http2Settings) :
    requestH2cSettings again upgradeValues = .ok h2cSettings := by
  unfold requestH2cSettings
  rcases requestH2cSettings_eq_ok h.settings with ⟨ha, rfl⟩ | ⟨ha, value, rfl, hc⟩
  · rw [ha]
    rfl
  obtain ⟨-, hcol⟩ := collectH2cSettings_eq_ok hc
  obtain ⟨values, rfl⟩ : ∃ values, upgradeValues = some values := by
    cases upgradeValues with
    | none => cases ha
    | some values => exact ⟨values, rfl⟩
  have ho : (connectionOptions again).contains .http2Settings := by
    rw [connectionOptions, hcon, h.connection]
    cases preservesH1Te checked protocol acceptsTrailers <;>
      simp only [writtenConnection, upgradeConnection] <;> decide
  rw [ha, if_pos rfl, hcol again ho (by rw [hs, h.http2Settings]; rfl)]
  rfl

lemma Sanitizes.exists_again :
    ∃ checked' sanitized', checked'.Equiv sanitized ∧
      Sanitizes sanitized protocol h1UpgradeRequest acceptsTrailers checked' upgradeValues
        h2cSettings sanitized' := by
  obtain ⟨length, -, hn, -⟩ := checkRequest_eq_ok h.check
  obtain ⟨checked', length', hn', hequiv⟩ :=
    normalizeContentLength_again hn h.contentLength_cases
  have hc : checked'.getAll .transferEncoding = [] := by
    rw [hequiv]
    exact h.getAll_removed (by decide) (by decide) (by decide) (by decide) (by decide)
  have hche : checkRequest sanitized protocol = .ok checked' := by
    simp only [checkRequest, h.checkHeaderBlock_sanitized, hn',
      checkTransferEncoding_of_getAll_eq_nil hc, bind, Except.bind, pure, Except.pure]
  have hte : checked'.getAll .te = [] ∨ checked'.getAll .te = [trailersValue] := by
    rw [hequiv, h.te]
    split
    · exact inr rfl
    · exact inl rfl
  obtain ⟨restored, hr⟩ := exists_restoreH2H3Te hte
    (stripHopByHopWithPolicy checked' (requestTrailerPolicy checked' protocol)) protocol
  exact ⟨checked', _, hequiv, hche, h.requestUpgradeValues_again (hequiv _) (hequiv _),
    h.requestH2cSettings_again (hequiv _) (hequiv _), restored, hr, rfl⟩

end

variable {checked' sanitized' : HeaderMap}

section

variable (h : Sanitizes headers protocol h1UpgradeRequest acceptsTrailers checked upgradeValues
    h2cSettings sanitized) (hequiv : checked'.Equiv sanitized)
  (h' : Sanitizes sanitized protocol h1UpgradeRequest acceptsTrailers checked' upgradeValues
    h2cSettings sanitized')

include h hequiv h'

/-- The declaration is left as it is the second time: what is nominated then may not be declared
anyway. -/
lemma Sanitizes.trailer_again : sanitized'.getAll .trailer = sanitized.getAll .trailer := by
  rcases h.trailer_cases with hnone | ⟨value, names, hne, hv, hn, ht⟩
  · rw [h'.trailer hnone, hnone]
  have ho : ∀ name ∈ connectionOptions checked',
      name ∈ [.upgrade, .http2Settings, .te] := by
    rw [connectionOptions_congr (hequiv _)]
    exact h.connectionOptions_sanitized
  have hf : ∀ name ∈ [.upgrade, .http2Settings, .te],
      isForbiddenTrailerField .request name := by decide
  have hnom : .trailer ∉
      (requestTrailerPolicy checked' protocol).connectionNames := by
    rw [requestTrailerPolicy_connectionNames]
    intro hm
    exact absurd (ho _ hm) (by decide)
  rw [h'.getAll_eq_strip (by decide), strip_trailer_eq hnom, ht]
  apply sanitizeDeclaration_of_permitted (requestTrailerPolicy_mode _ _) hne hv
  · intro name hnam
    rw [isForbidden, requestTrailerPolicy_direction, hn name hnam,
      requestTrailerPolicy_connectionNames, Bool.false_or]
    by_contra hc
    have hm := ho name (by simpa using hc)
    exact absurd (hf name hm) (by simp [hn name hnam])
  · rw [hequiv, ht]

lemma Sanitizes.contentLength_again :
    sanitized'.getAll .contentLength = sanitized.getAll .contentLength := by
  have hn : .contentLength ∉
      (requestTrailerPolicy checked' protocol).connectionNames := by
    rw [requestTrailerPolicy_connectionNames, connectionOptions_congr (hequiv _)]
    intro hm
    exact absurd (h.connectionOptions_sanitized _ hm) (by decide)
  rw [h'.getAll_eq_strip (by decide), strip_contentLength_eq hn, hequiv]
  rw [hequiv]
  exact h.getAll_removed (by decide) (by decide) (by decide) (by decide) (by decide)

lemma Sanitizes.again_equiv : sanitized'.Equiv sanitized := by
  intro name
  have hte : checked'.getAll .te =
      if writesTe checked protocol acceptsTrailers then [trailersValue] else [] := by
    rw [hequiv, h.te]
  by_cases hh : name ∈ hopByHop
  · by_cases hnameTe : name = .te
    · rw [hnameTe, h'.te, h.te, writesTe_again hte]
    by_cases hn : name = .connection
    · rw [hn, h'.connection, h.connection, preservesH1Te_again hte]
    by_cases hna : name = .upgrade
    · rw [hna, h'.upgrade_getAll, h.upgrade_getAll]
    by_cases hnam : name = .http2Settings
    · rw [hnam, h'.http2Settings, h.http2Settings]
    rw [h'.getAll_removed hh hn hnameTe hna hnam, h.getAll_removed hh hn hnameTe hna hnam]
  by_cases ht : name = .trailer
  · rw [ht, h.trailer_again hequiv h']
  by_cases hlen : name = .contentLength
  · rw [hlen, h.contentLength_again hequiv h']
  apply h'.getAll_kept hh _ ht hlen
  intro hm
  have hw : ∀ name ∈ [.upgrade, .http2Settings, .te], name ∈ hopByHop := by decide
  exact hh (hw name (h.connectionOptions_sanitized name hm))

end

lemma sanitizeRequest_again {policy : TrailerPolicy}
    (h : sanitizeRequest headers protocol h1UpgradeRequest acceptsTrailers =
      .ok (sanitized, policy)) :
    ∃ sanitized' policy', sanitizeRequest sanitized protocol h1UpgradeRequest acceptsTrailers =
      .ok (sanitized', policy') ∧ sanitized'.Equiv sanitized := by
  obtain ⟨checked, upgradeValues, h2cSettings, hs⟩ := sanitizes_of_sanitizeRequest h
  obtain ⟨checked', sanitized', hequiv, ha⟩ := hs.exists_again
  exact ⟨sanitized', _, sanitizeRequest_of_sanitizes ha, hs.again_equiv hequiv ha⟩

end

end Aioduct.Forward
