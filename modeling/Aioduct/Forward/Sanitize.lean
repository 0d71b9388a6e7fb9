import Aioduct.Forward.HopByHop

/-!
# What sanitizing does

A sanitized request keeps the fields that are neither hop-by-hop nor nominated by `Connection`,
and its hop-by-hop fields are those that were written anew.
-/

namespace Aioduct.Forward

open Wire Http MessageFraming MultiMap Except Or

variable {headers' checked restored : HeaderMap} {teValues : List HeaderValue} {headers : HeaderMap}
  {name : HeaderName} {policy : TrailerPolicy} {protocol : HeaderProtocol}

lemma connectionOptions_congr (h : headers.getAll .connection = headers'.getAll .connection) :
    connectionOptions headers = connectionOptions headers' := by
  rw [connectionOptions, connectionOptions, h]

lemma strip_eq (policy : TrailerPolicy) (headers : HeaderMap) (name : HeaderName) :
    (stripHopByHopWithPolicy headers policy).getAll name =
      if name ∈ policy.connectionNames ∨ name ∈ hopByHop ∨
          name = .contentLength ∧ headers.containsKey .transferEncoding then []
      else (policy.sanitizeDeclaration headers).getAll name := by
  have hc : (policy.sanitizeDeclaration headers).containsKey .transferEncoding =
      headers.containsKey .transferEncoding :=
    containsKey_congr (policy.sanitizeDeclaration_getAll headers (by decide))
  rw [stripHopByHopWithPolicy, getAll_foldl_remove, getAll_foldl_remove, hc]
  by_cases hn : name ∈ policy.connectionNames
  · simp [hn]
  by_cases hh : name ∈ hopByHop
  · simp [hh]
  by_cases hlen : name = .contentLength
  · subst hlen
    cases headers.containsKey .transferEncoding <;> simp [*]
  · cases headers.containsKey .transferEncoding <;> simp (disch := assumption) [*]

lemma strip_getAll_eq_nil (h : name ∈ hopByHop ∨ name ∈ policy.connectionNames)
    (headers : HeaderMap) : (stripHopByHopWithPolicy headers policy).getAll name = [] := by
  rw [strip_eq, if_pos]
  rcases h with h | h <;> simp [h]

lemma strip_getAll (hh : name ∉ hopByHop) (hn : name ∉ policy.connectionNames)
    (ht : name ≠ .trailer) (hlen : name ≠ .contentLength) (headers : HeaderMap) :
    (stripHopByHopWithPolicy headers policy).getAll name = headers.getAll name := by
  rw [strip_eq, if_neg (by simp [hh, hn, hlen]), policy.sanitizeDeclaration_getAll headers ht]

lemma strip_contentLength (policy : TrailerPolicy) (headers : HeaderMap) :
    (stripHopByHopWithPolicy headers policy).getAll .contentLength = [] ∨
      (stripHopByHopWithPolicy headers policy).getAll .contentLength =
        headers.getAll .contentLength := by
  rw [strip_eq]
  split
  · exact inl rfl
  · exact inr (policy.sanitizeDeclaration_getAll headers (by decide))

lemma strip_contentLength_of_coded (policy : TrailerPolicy)
    (hc : headers.containsKey .transferEncoding) :
    (stripHopByHopWithPolicy headers policy).getAll .contentLength = [] := by
  rw [strip_eq, if_pos (.inr (.inr ⟨rfl, hc⟩))]

lemma strip_contentLength_eq (hn : .contentLength ∉ policy.connectionNames)
    (hc : headers.getAll .transferEncoding = []) :
    (stripHopByHopWithPolicy headers policy).getAll .contentLength =
      headers.getAll .contentLength := by
  have hh : HeaderName.contentLength ∉ hopByHop := by decide
  rw [strip_eq, if_neg (by simp [hn, hh, containsKey_eq_false.mpr hc]),
    policy.sanitizeDeclaration_getAll headers (by decide)]

lemma strip_trailer_eq (hn : .trailer ∉ policy.connectionNames) (headers : HeaderMap) :
    (stripHopByHopWithPolicy headers policy).getAll .trailer =
      (policy.sanitizeDeclaration headers).getAll .trailer := by
  rw [strip_eq, if_neg]
  rintro (h | h | ⟨h, -⟩)
  · exact hn h
  · exact absurd h (by decide)
  · cases h

lemma strip_trailer (policy : TrailerPolicy) (h : headers.getAll .trailer = []) :
    (stripHopByHopWithPolicy headers policy).getAll .trailer = [] := by
  rw [strip_eq]
  split
  · rfl
  · exact policy.sanitizeDeclaration_of_getAll_eq_nil h

lemma restoreH1Upgrade_connection (headers : HeaderMap) (values : List HeaderValue) :
    (restoreH1Upgrade headers values).getAll .connection = [connectionUpgrade] := by
  rw [restoreH1Upgrade, getAll_foldl_append_of_ne (by decide), getAll_insert_self]

lemma restoreH1Upgrade_upgrade (headers : HeaderMap) (values : List HeaderValue) :
    (restoreH1Upgrade headers values).getAll .upgrade = headers.getAll .upgrade ++ values := by
  rw [restoreH1Upgrade, getAll_foldl_append_self, getAll_insert_of_ne (by decide)]

lemma restoreH1Upgrade_getAll (hc : name ≠ .connection) (hup : name ≠ .upgrade)
    (headers : HeaderMap) (values : List HeaderValue) :
    (restoreH1Upgrade headers values).getAll name = headers.getAll name := by
  rw [restoreH1Upgrade, getAll_foldl_append_of_ne hup, getAll_insert_of_ne hc]

def upgradeConnection (h2cSettings : Option HeaderValue) (preserveTeTrailers : Bool) :
    HeaderValue :=
  match h2cSettings, preserveTeTrailers with
  | none, false => connectionUpgrade
  | none, true => connectionUpgradeTe
  | some _, false => connectionUpgradeSettings
  | some _, true => connectionUpgradeSettingsTe

section

variable (headers : HeaderMap) (values : List HeaderValue) (settings : Option HeaderValue)
  (te : Bool)

lemma restoreH1UpgradeRequest_connection :
    (restoreH1UpgradeRequest headers values settings te).getAll .connection =
      [upgradeConnection settings te] := by
  unfold restoreH1UpgradeRequest upgradeConnection
  cases settings <;> cases te <;>
    simp (disch := decide) [restoreH1Upgrade_connection]

lemma restoreH1UpgradeRequest_upgrade :
    (restoreH1UpgradeRequest headers values settings te).getAll .upgrade =
      headers.getAll .upgrade ++ values := by
  unfold restoreH1UpgradeRequest
  cases settings <;> cases te <;> simp (disch := decide) [restoreH1Upgrade_upgrade]

lemma restoreH1UpgradeRequest_te :
    (restoreH1UpgradeRequest headers values settings te).getAll .te =
      if te then [trailersValue] else headers.getAll .te := by
  unfold restoreH1UpgradeRequest
  cases settings <;> cases te <;>
    simp (disch := decide) [restoreH1Upgrade_getAll]

lemma restoreH1UpgradeRequest_http2Settings :
    (restoreH1UpgradeRequest headers values settings te).getAll .http2Settings =
      (settings.map fun value => [value]).getD (headers.getAll .http2Settings) := by
  unfold restoreH1UpgradeRequest
  cases settings <;> cases te <;>
    simp (disch := decide) [restoreH1Upgrade_getAll]

end

lemma restoreH1UpgradeRequest_getAll (hc : name ≠ .connection)
    (hup : name ≠ .upgrade) (hte : name ≠ .te) (hs : name ≠ .http2Settings)
    (headers : HeaderMap) (values : List HeaderValue) (settings : Option HeaderValue) (te : Bool) :
    (restoreH1UpgradeRequest headers values settings te).getAll name = headers.getAll name := by
  unfold restoreH1UpgradeRequest
  cases settings <;> cases te <;>
    simp (disch := assumption) [restoreH1Upgrade_getAll]

lemma restoreH1TeTrailers_getAll (hc : name ≠ .connection) (hte : name ≠ .te)
    (headers : HeaderMap) : (restoreH1TeTrailers headers).getAll name = headers.getAll name := by
  rw [restoreH1TeTrailers, getAll_insert_of_ne hte, getAll_insert_of_ne hc]

@[simp]
lemma restoreH1TeTrailers_te (headers : HeaderMap) :
    (restoreH1TeTrailers headers).getAll .te = [trailersValue] := by simp [restoreH1TeTrailers]

@[simp]
lemma restoreH1TeTrailers_connection (headers : HeaderMap) :
    (restoreH1TeTrailers headers).getAll .connection = [connectionTe] := by
  rw [restoreH1TeTrailers, getAll_insert_of_ne (by decide), getAll_insert_self]

lemma restoreH1Fields_none_getAll (hc : name ≠ .connection) (hte : name ≠ .te)
    (headers : HeaderMap) (settings : Option HeaderValue) (te : Bool) :
    (restoreH1Fields headers none settings te).getAll name = headers.getAll name := by
  cases te with
  | false => rfl
  | true => exact restoreH1TeTrailers_getAll hc hte headers

lemma restoreH1Fields_getAll (hh : name ∉ hopByHop) (headers : HeaderMap)
    (upgradeValues : Option (List HeaderValue)) (settings : Option HeaderValue) (te : Bool) :
    (restoreH1Fields headers upgradeValues settings te).getAll name = headers.getAll name := by
  simp only [hopByHop, List.mem_cons, List.not_mem_nil, or_false, not_or] at hh
  obtain ⟨hc, -, -, -, -, hte, -, hup, hs⟩ := hh
  cases upgradeValues with
  | none => exact restoreH1Fields_none_getAll hc hte _ _ _
  | some values => exact restoreH1UpgradeRequest_getAll hc hup hte hs _ _ _ _

lemma checkRequest_eq_ok (h : checkRequest headers protocol = .ok checked) :
    ∃ length, checkHeaderBlock headers protocol = .ok () ∧
      normalizeContentLength headers (ascii "forwarded request") = .ok (checked, length) ∧
      checkTransferEncoding checked protocol = .ok () := by
  unfold checkRequest at h
  simp only [bind_eq_ok] at h
  obtain ⟨⟨⟩, hb, ⟨normalized, length⟩, hn, ⟨⟩, he, h⟩ := h
  cases h
  exact ⟨length, hb, hn, he⟩

/-- What `sanitize_request` has done when it succeeds. -/
structure Sanitizes [UrlSafeNoPad] (headers : HeaderMap) (protocol : HeaderProtocol)
    (h1UpgradeRequest acceptsTrailers : Bool) (checked : HeaderMap)
    (upgradeValues : Option (List HeaderValue)) (h2cSettings : Option HeaderValue)
    (sanitized : HeaderMap) : Prop where
  check : checkRequest headers protocol = .ok checked
  upgrade : requestUpgradeValues checked protocol h1UpgradeRequest = .ok upgradeValues
  settings : requestH2cSettings checked upgradeValues = .ok h2cSettings
  result : ∃ stripped,
    restoreH2H3Te (stripHopByHopWithPolicy checked (requestTrailerPolicy checked protocol))
      protocol (checked.getAll .te) = .ok stripped ∧
    sanitized = restoreH1Fields stripped upgradeValues h2cSettings
      (preservesH1Te checked protocol acceptsTrailers)

@[simp]
lemma requestTrailerPolicy_connectionNames (headers : HeaderMap) (protocol : HeaderProtocol) :
    (requestTrailerPolicy headers protocol).connectionNames = connectionOptions headers := by
  cases protocol <;> simp [requestTrailerPolicy]

lemma restoreH2H3Te_getAll
    (h : restoreH2H3Te headers protocol teValues = .ok restored) (hn : name ≠ .te) :
    restored.getAll name = headers.getAll name := by
  unfold restoreH2H3Te at h
  split at h
  · rw [bind_eq_ok] at h
    obtain ⟨⟨⟩, -, h⟩ := h
    rw [← ok.inj h, getAll_insert_of_ne hn]
  · rw [← ok.inj h]

lemma restoreH2H3Te_te (h : restoreH2H3Te headers protocol teValues = .ok restored) :
    restored.getAll .te =
      if protocol.isH2OrH3 && !teValues.isEmpty then [trailersValue] else headers.getAll .te := by
  unfold restoreH2H3Te at h
  split at h
  next hte =>
    rw [bind_eq_ok] at h
    obtain ⟨⟨⟩, -, h⟩ := h
    rw [← ok.inj h, getAll_insert_self, if_pos hte]
  next hte =>
    rw [← ok.inj h, if_neg hte]

section

variable [UrlSafeNoPad] {headers sanitized : HeaderMap} {protocol : HeaderProtocol}
  {h1UpgradeRequest acceptsTrailers : Bool} {policy : TrailerPolicy}

lemma sanitizes_of_sanitizeRequest
    (h : sanitizeRequest headers protocol h1UpgradeRequest acceptsTrailers =
      .ok (sanitized, policy)) :
    ∃ checked upgradeValues h2cSettings, Sanitizes headers protocol h1UpgradeRequest
      acceptsTrailers checked upgradeValues h2cSettings sanitized := by
  unfold sanitizeRequest at h
  simp only [bind_eq_ok] at h
  obtain ⟨checked, hc, upgradeValues, hup, settings, hs, stripped, hte, h⟩ := h
  cases h
  exact ⟨checked, upgradeValues, settings, hc, hup, hs, stripped, hte, rfl⟩

variable {checked : HeaderMap} {upgradeValues : Option (List HeaderValue)}
  {h2cSettings : Option HeaderValue}

def writesTe (checked : HeaderMap) (protocol : HeaderProtocol) (acceptsTrailers : Bool) : Bool :=
  (protocol.isH2OrH3 && !(checked.getAll .te).isEmpty) ||
    preservesH1Te checked protocol acceptsTrailers

def writtenConnection (upgradeValues : Option (List HeaderValue))
    (h2cSettings : Option HeaderValue) (preserveTeTrailers : Bool) : List HeaderValue :=
  match upgradeValues with
  | some _ => [upgradeConnection h2cSettings preserveTeTrailers]
  | none => if preserveTeTrailers then [connectionTe] else []

lemma requestH2cSettings_none {settings : Option HeaderValue}
    (h : requestH2cSettings checked none = .ok settings) : settings = none := by
  exact (ok.inj h).symm

section

variable (h : Sanitizes headers protocol h1UpgradeRequest acceptsTrailers checked upgradeValues
    h2cSettings sanitized)

include h

lemma Sanitizes.checked_getAll (hn : name ≠ .contentLength) :
    checked.getAll name = headers.getAll name := by
  obtain ⟨length, -, hnor, -⟩ := checkRequest_eq_ok h.check
  exact normalizeContentLength_getAll hnor hn

lemma Sanitizes.connectionOptions_checked : connectionOptions checked = connectionOptions headers :=
  connectionOptions_congr (h.checked_getAll (by decide))

lemma Sanitizes.getAll_eq_strip (hh : name ∉ hopByHop) :
    sanitized.getAll name =
      (stripHopByHopWithPolicy checked (requestTrailerPolicy checked protocol)).getAll name := by
  obtain ⟨stripped, hte, rfl⟩ := h.result
  have hn : name ≠ .te := by
    rintro rfl
    exact hh (by decide)
  rw [restoreH1Fields_getAll hh, restoreH2H3Te_getAll hte hn]

lemma Sanitizes.getAll_nominated (hh : name ∉ hopByHop)
    (hn : name ∈ connectionOptions headers) : sanitized.getAll name = [] := by
  rw [h.getAll_eq_strip hh, strip_getAll_eq_nil]
  rw [requestTrailerPolicy_connectionNames, h.connectionOptions_checked]
  exact inr hn

lemma Sanitizes.getAll_kept (hh : name ∉ hopByHop) (hn : name ∉ connectionOptions headers)
    (ht : name ≠ .trailer) (hlen : name ≠ .contentLength) :
    sanitized.getAll name = headers.getAll name := by
  rw [h.getAll_eq_strip hh, strip_getAll hh _ ht hlen, h.checked_getAll hlen]
  rwa [requestTrailerPolicy_connectionNames, h.connectionOptions_checked]

lemma Sanitizes.contentLength :
    (sanitized.getAll .contentLength).length ≤ 1 ∧
      (headers.getAll .contentLength = [] → sanitized.getAll .contentLength = []) := by
  obtain ⟨length, -, hn, -⟩ := checkRequest_eq_ok h.check
  obtain ⟨ho, hnone⟩ := normalizeContentLength_contentLength hn
  rw [h.getAll_eq_strip (by decide)]
  rcases strip_contentLength (requestTrailerPolicy checked protocol) checked with hempty | hk
  · simp [hempty]
  · rw [hk]
    exact ⟨ho, hnone⟩

lemma Sanitizes.trailer (hnone : headers.getAll .trailer = []) :
    sanitized.getAll .trailer = [] := by
  rw [h.getAll_eq_strip (by decide)]
  apply strip_trailer
  rw [h.checked_getAll (by decide), hnone]

lemma Sanitizes.exists_stripped :
    ∃ stripped : HeaderMap, (∀ name ∈ hopByHop, name ≠ .te → stripped.getAll name = []) ∧
      stripped.getAll .te =
        (if protocol.isH2OrH3 && !(checked.getAll .te).isEmpty then [trailersValue] else []) ∧
      sanitized = restoreH1Fields stripped upgradeValues h2cSettings
        (preservesH1Te checked protocol acceptsTrailers) := by
  obtain ⟨stripped, hte, rfl⟩ := h.result
  refine ⟨stripped, fun name hh hn => ?_, ?_, rfl⟩
  · rw [restoreH2H3Te_getAll hte hn, strip_getAll_eq_nil (inl hh)]
  · rw [restoreH2H3Te_te hte, strip_getAll_eq_nil (inl (by decide))]

lemma Sanitizes.te :
    sanitized.getAll .te =
      if writesTe checked protocol acceptsTrailers then [trailersValue] else [] := by
  obtain ⟨stripped, -, hte, rfl⟩ := h.exists_stripped
  unfold restoreH1Fields writesTe
  cases upgradeValues with
  | none => cases preservesH1Te checked protocol acceptsTrailers <;> simp [hte]
  | some values =>
    cases preservesH1Te checked protocol acceptsTrailers <;>
      simp [restoreH1UpgradeRequest_te, hte]

lemma Sanitizes.connection :
    sanitized.getAll .connection =
      writtenConnection upgradeValues h2cSettings
        (preservesH1Te checked protocol acceptsTrailers) := by
  obtain ⟨stripped, hh, -, rfl⟩ := h.exists_stripped
  have hnone := hh .connection (by decide) (by decide)
  unfold restoreH1Fields writtenConnection
  cases upgradeValues with
  | none => cases preservesH1Te checked protocol acceptsTrailers <;> simp [hnone]
  | some values => exact restoreH1UpgradeRequest_connection _ _ _ _

lemma Sanitizes.upgrade_getAll : sanitized.getAll .upgrade = upgradeValues.getD [] := by
  obtain ⟨stripped, hh, -, rfl⟩ := h.exists_stripped
  have hnone := hh .upgrade (by decide) (by decide)
  cases upgradeValues with
  | none => exact (restoreH1Fields_none_getAll (by decide) (by decide) _ _ _).trans hnone
  | some values =>
    change (restoreH1UpgradeRequest _ _ _ _).getAll _ = values
    rw [restoreH1UpgradeRequest_upgrade, hnone, List.nil_append]

lemma Sanitizes.http2Settings : sanitized.getAll .http2Settings = h2cSettings.toList := by
  obtain ⟨stripped, hh, -, rfl⟩ := h.exists_stripped
  have hnone := hh .http2Settings (by decide) (by decide)
  have hs := h.settings
  cases upgradeValues with
  | none =>
    rw [requestH2cSettings_none hs]
    exact (restoreH1Fields_none_getAll (by decide) (by decide) _ _ _).trans hnone
  | some values =>
    rw [restoreH1Fields, restoreH1UpgradeRequest_http2Settings, hnone]
    cases h2cSettings <;> rfl

lemma Sanitizes.getAll_removed (hh : name ∈ hopByHop) (hc : name ≠ .connection)
    (hte : name ≠ .te) (hup : name ≠ .upgrade) (hs : name ≠ .http2Settings) :
    sanitized.getAll name = [] := by
  obtain ⟨stripped, hstr, -, rfl⟩ := h.exists_stripped
  have hnone := hstr name hh hte
  cases upgradeValues with
  | none => exact (restoreH1Fields_none_getAll hc hte _ _ _).trans hnone
  | some values => exact (restoreH1UpgradeRequest_getAll hc hup hte hs _ _ _ _).trans hnone

end

end

end Aioduct.Forward
