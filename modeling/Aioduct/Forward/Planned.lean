import Aioduct.Forward.SanitizeAgain
import Aioduct.Forward.Send

/-!
# The stages of a forwarded request

What each stage from the inbound request to the wire has done when it succeeds.
-/

namespace Aioduct.Forward

open Wire Http MessageFraming MultiMap Planning ForwardRewrite ForwardDispatchPlan
  HeaderName TrailerPolicy Except HeaderValue
open MessageSignatures (signatureName signatureInputName)

variable {parts : Parts} {rewrite : ForwardRewrite} {version : Version}
  {checked inbound followed : HeaderMap} {offer : Option H1UpgradeOffer} {fullUri : Uri}
  {connectAuthority : Option Authority} {headers hosted constrained : HeaderMap}
  {authority : Authority} {name : HeaderName} {args : Planning}

section

variable (h : rewriteHost headers authority = .ok hosted)

include h

lemma rewriteHost_eq_ok :
    ∃ host : HeaderValue, host.bytes = authority.text ∧
      hosted = (headers.remove .host).insert .host host := by
  unfold rewriteHost at h
  rw [bind_eq_ok] at h
  obtain ⟨host, hh, h⟩ := h
  rw [okOr_eq_ok] at hh
  exact ⟨host, fromStr_bytes hh, (ok.inj h).symm⟩

lemma rewriteHost_host :
    ∃ host : HeaderValue, host.bytes = authority.text ∧ hosted.getAll .host = [host] := by
  obtain ⟨host, hb, rfl⟩ := rewriteHost_eq_ok h
  exact ⟨host, hb, getAll_insert_self _ _ _⟩

lemma rewriteHost_agreeOff : AgreeOff [.host] headers hosted := by
  obtain ⟨host, -, rfl⟩ := rewriteHost_eq_ok h
  exact (agreeOff_remove (by simp) _).trans (agreeOff_insert (by simp) _ _)

end

/-- What `rewrite_for_upstream` has done when it succeeds. -/
structure Rewrites [UriParser] (parts : Parts) (rewrite : ForwardRewrite) (rewritten : Parts)
    (result : ForwardRewriteResult) (inbound hosted : HeaderMap) : Prop where
  accepted : validateInboundRequestHeaders parts.version parts.headers = .ok inbound
  target : InboundRequestTarget.capture { parts with headers := inbound } =
    .ok result.inboundTarget
  upstream : ∃ authority,
    rewrite.upstreamUri parts.uri
        result.inboundTarget.serverWideOptionsAuthorityInTarget.isSome =
      .ok (result.uri, authority) ∧
    rewrite.rewrittenHost (stripHopByHopWithPolicy inbound result.trailerPolicy)
        result.inboundTarget authority = .ok hosted
  uri : ForwardRewrite.rewrittenTarget result.uri
    result.inboundTarget.serverWideOptionsAuthorityInTarget = .ok rewritten.uri
  policy : result.trailerPolicy = .captureRequestForVersion inbound parts.version
  parts : rewritten = { parts with
    uri := rewritten.uri
    headers := rewrite.configuredHeaders hosted
      (rewrite.forwardedValues inbound result.trailerPolicy) }

lemma rewriteForUpstream_eq_ok [UriParser] {rewritten : Parts} {result : ForwardRewriteResult}
    (h : rewriteForUpstream parts rewrite = .ok (rewritten, result)) :
    ∃ inbound hosted, Rewrites parts rewrite rewritten result inbound hosted := by
  unfold rewriteForUpstream at h
  simp only [bind_eq_ok] at h
  obtain ⟨inbound, hi, target, ht, ⟨fullUri, authority⟩, hu, hosted, hh, uri, huri, h⟩ := h
  cases h
  exact ⟨inbound, hosted, hi, ht, ⟨authority, hu, hh⟩, huri, rfl, rfl⟩

lemma validateRequestHeaders_eq_ok {context : Bytes} {length : Option UInt64}
    (h : validateRequestHeaders version headers context = .ok (checked, length)) :
    normalizeContentLength headers context = .ok (checked, length) ∧
      (version.isH2OrH3 → validateH2H3HeaderBlock version headers true = .ok ()) := by
  unfold validateRequestHeaders at h
  split at h
  · rw [bind_eq_ok] at h
    obtain ⟨⟨⟩, hb, h⟩ := h
    exact ⟨h, fun _ => hb⟩
  rename_i hv
  refine ⟨?_, fun hh => absurd hh hv⟩
  split at h
  · rw [bind_eq_ok] at h
    obtain ⟨⟨⟩, -, h⟩ := h
    exact h
  · exact h

lemma validateInboundRequestHeaders_getAll
    (h : validateInboundRequestHeaders version headers = .ok inbound)
    (hn : name ≠ .contentLength) : inbound.getAll name = headers.getAll name := by
  unfold validateInboundRequestHeaders at h
  rw [bind_eq_ok] at h
  obtain ⟨⟨normalized, length⟩, hc, h⟩ := h
  cases h
  exact normalizeContentLength_getAll (validateRequestHeaders_eq_ok hc).1 hn

lemma rewrittenHost_agreeOff {target : InboundRequestTarget}
    (h : rewrite.rewrittenHost headers target authority = .ok hosted) :
    AgreeOff [.host] headers hosted := by
  unfold rewrittenHost at h
  split at h
  · split at h
    · exact rewriteHost_agreeOff h
    · rw [ok.inj h]
      exact .refl _ _
  · exact rewriteHost_agreeOff h

namespace ForwardRewrite

def configuredLines (rewrite : ForwardRewrite) (name : HeaderName) : List HeaderValue :=
  if name ∈ rewrite.removeHeaders then [] else rewrite.extraHeaders.getAll name

variable {rewrite : ForwardRewrite} {headers hosted : HeaderMap}

lemma configuredHeaders_getAll (hnodup : (rewrite.extraHeaders.lines.map Prod.fst).Nodup)
    (lines : List (HeaderName × HeaderValue)) (name : HeaderName) :
    (rewrite.configuredHeaders headers lines).getAll name =
      if name ∈ rewrite.removeHeaders then []
      else if name ∈ rewrite.extraHeaders.lines.map Prod.fst then rewrite.extraHeaders.getAll name
      else (if name ∈ rewrite.visitedNames then [] else headers.getAll name) ++
        (⟨lines⟩ : HeaderMap).getAll name := by
  unfold configuredHeaders
  rw [getAll_foldl_remove, getAll_foldl_insert hnodup, getAll_foldl_append, getAll_foldl_remove]

lemma getAll_carried (headers : HeaderMap) (dropped : HeaderName → Bool) {names : List HeaderName}
    (hnodup : names.Nodup) (name : HeaderName) :
    (⟨names.flatMap fun name => if dropped name then [] else
      (headers.getAll name).map fun value => (name, value)⟩ : HeaderMap).getAll name =
      if name ∈ names ∧ dropped name = false then headers.getAll name else [] := by
  have hs : ∀ (values : List HeaderValue) (other : HeaderName),
      (⟨values.map fun value => (other, value)⟩ : HeaderMap).getAll name =
        if other = name then values else [] := by
    intro values other
    by_cases ho : other = name <;>
      simp [getAll, List.filter_map, Function.comp_def, ho]
  have ha : ∀ lines lines' : List (HeaderName × HeaderValue),
      (⟨lines ++ lines'⟩ : HeaderMap).getAll name =
        (⟨lines⟩ : HeaderMap).getAll name ++ (⟨lines'⟩ : HeaderMap).getAll name := by
    simp [getAll]
  induction names with
  | nil => simp
  | cons first names ih =>
    rw [List.nodup_cons] at hnodup
    rw [List.flatMap_cons, ha, ih hnodup.2]
    by_cases hf : first = name
    · subst hf
      cases hd : dropped first with
      | true => simp
      | false => simp [hs, hnodup.1]
    have hne : ¬name = first := fun h => hf h.symm
    cases hd : dropped first with
    | true => simp [hne]
    | false => simp [hs, hf, hne]

lemma nodup_visitedNames : rewrite.visitedNames.Nodup :=
  TrailerPolicy.nodup_extendNames List.nodup_nil _

lemma mem_visitedNames :
    name ∈ rewrite.visitedNames ↔ name ∈ rewrite.forwardHeaders ∨ name = .te := by
  unfold visitedNames
  rw [mem_extendNames]
  split
  next hte =>
    constructor
    · simp +contextual
    · rintro (hn | rfl)
      · exact .inr hn
      · exact .inr (by simpa using hte)
  · simp

lemma forwardedValues_getAll (trailerPolicy : TrailerPolicy) (name : HeaderName) :
    (⟨rewrite.forwardedValues headers trailerPolicy⟩ : HeaderMap).getAll name =
      if name ∈ rewrite.visitedNames ∧
          (trailerPolicy.connectionNames.contains name && !controlledException headers name) = false
        then headers.getAll name else [] :=
  getAll_carried headers _ nodup_visitedNames name

lemma forwardedValues_nominated {trailerPolicy : TrailerPolicy}
    (hn : name ∈ trailerPolicy.connectionNames)
    (he : controlledException headers name = false) :
    (⟨rewrite.forwardedValues headers trailerPolicy⟩ : HeaderMap).getAll name = [] := by
  rw [forwardedValues_getAll, if_neg]
  simp [hn, he]

lemma controlledException_eq_false (hh : name ∉ hopByHop) :
    controlledException headers name = false := by
  have hte : name ≠ .te := by
    rintro rfl
    exact hh (by decide)
  have hup : name ≠ .upgrade := by
    rintro rfl
    exact hh (by decide)
  have hs : name ≠ .http2Settings := by
    rintro rfl
    exact hh (by decide)
  simp [controlledException, hte, hup, hs]

end ForwardRewrite

section

variable [UriParser] {parts rewritten : Parts} {rewrite : ForwardRewrite}
  {result : ForwardRewriteResult} {inbound hosted : HeaderMap}

section

variable (h : Rewrites parts rewrite rewritten result inbound hosted)

include h

lemma Rewrites.headers_eq :
    rewritten.headers = rewrite.configuredHeaders hosted
      (rewrite.forwardedValues inbound result.trailerPolicy) := by rw [h.parts]

lemma Rewrites.connectionNames :
    result.trailerPolicy.connectionNames = connectionOptions parts.headers := by
  rw [h.policy, captureRequestForVersion_connectionNames]
  exact connectionOptions_congr (validateInboundRequestHeaders_getAll h.accepted (by decide))

lemma Rewrites.getAll_nominated (hnodup : (rewrite.extraHeaders.lines.map Prod.fst).Nodup)
    (hn : name ∈ connectionOptions parts.headers) (hhop : name ∉ hopByHop)
    (hhos : name ≠ .host) : rewritten.headers.getAll name = rewrite.configuredLines name := by
  have hnom : name ∈ result.trailerPolicy.connectionNames := by rwa [h.connectionNames]
  obtain ⟨authority, -, hh⟩ := h.upstream
  have hs : hosted.getAll name = [] := by
    rw [rewrittenHost_agreeOff hh name (by simpa using hhos)]
    exact strip_getAll_eq_nil (.inr hnom) _
  rw [h.headers_eq, configuredHeaders_getAll hnodup, hs,
    forwardedValues_nominated hnom
      (controlledException_eq_false hhop), configuredLines]
  split
  · rfl
  split
  · rfl
  next he =>
    rw [getAll_eq_nil_of_notMem he]
    simp

end

end

structure Decisions where
  offer : Option H1UpgradeOffer
  mode : ForwardMode
  resolvedUri : Uri
  fullUri : Uri
  scheme : Bytes
  serverWideOptions : Option ServerWideOptions
  connectAuthority : Option Authority
  egress : EgressProtocol
  wireAuthority : Authority
  /-- The header fields before they are sanitized. -/
  hosted : HeaderMap
  sanitized : HeaderMap

namespace Decisions

def targetForm (d : Decisions) (method : Method) : RequestTargetForm :=
  Planning.targetForm d.egress d.mode method d.serverWideOptions

end Decisions

/-- What `finalize` has done when it succeeds. -/
structure Finalizes [UriParser] [UrlSafeNoPad] (parts : Parts) (args : Planning)
    (finalized : Parts) (plan : ForwardDispatchPlan) (d : Decisions) : Prop where
  hosted : ∃ constrained followed,
    args.h1UpgradeOffer parts.headers = .ok (constrained, d.offer) ∧
    args.followHost constrained (isOrdinaryConnect d.mode parts.method) d.fullUri =
      .ok followed ∧
    args.wireAuthority followed d.fullUri d.connectAuthority = .ok (d.hosted, d.wireAuthority)
  mode : ∃ isExtendedConnect, d.mode = mode isExtendedConnect d.offer.isSome
  target : args.resolveTarget parts d.mode =
    .ok (d.resolvedUri, d.serverWideOptions, d.connectAuthority)
  canonical : canonicalizeHttpUri d.resolvedUri = .ok (d.fullUri, d.scheme)
  egress : args.selectEgress parts d.mode d.scheme d.serverWideOptions = .ok d.egress
  form : d.targetForm parts.method ≠ .asteriskAuthorityOmitted
  requestUri : Forward.requestUri d.fullUri (d.targetForm parts.method)
    (if (d.targetForm parts.method).namesAuthority then some d.wireAuthority else none) =
      .ok plan.requestUri
  deferredTarget : Forward.deferredTarget d.egress d.fullUri d.serverWideOptions
    d.wireAuthority = .ok plan.deferredTarget
  signingTarget : signingTargetUri (d.targetForm parts.method) d.fullUri d.wireAuthority =
    .ok plan.signingTarget.targetUri
  sanitized : ∃ policy, sanitizeRequest d.hosted (headerProtocolForEgress d.egress)
    (d.mode = .h1Upgrade) args.downstreamAcceptsTrailers = .ok (d.sanitized, policy)
  rehosted : rewriteHost d.sanitized d.wireAuthority = .ok finalized.headers
  others : finalized = { parts with headers := finalized.headers }
  fullUri : plan.fullUri = d.fullUri
  requestVersion : plan.requestVersion =
    ForwardDispatchPlan.requestVersionFor d.egress (d.targetForm parts.method)
  protocolHint : plan.protocolHint = args.protocolHint d.egress d.scheme
  negotiatedFraming : plan.negotiatedFraming = decide (d.egress = .negotiated)
  upgradeOffer : plan.responseHeaders.h1UpgradeOffer = d.offer

lemma finalize_eq_ok [UriParser] [UrlSafeNoPad] {finalized : Parts} {plan : ForwardDispatchPlan}
    (h : ForwardDispatchPlan.finalize parts args = .ok (finalized, plan)) :
    ∃ d, Finalizes parts args finalized plan d := by
  unfold finalize finalHeaders at h
  simp only [bind_eq_ok] at h
  obtain ⟨isExtendedConnect, -, ⟨constrained, offer⟩, ho, ⟨⟩, -, downstream, -, ⟨⟩, -,
    ⟨resolvedUri, serverWideOptions, connectAuthority⟩, ht, ⟨fullUri, scheme⟩, hc,
    ⟨⟩, -, followed, hfol, egress, he, ⟨hosted, wireAuthority⟩, hw, ⟨⟩, hf,
    requestUri, hreq, deferredTarget, hd, semantic, -, signingTarget, hsig,
    ⟨headers, policy⟩, ⟨⟨sanitized, policy'⟩, hs, rehosted, hr, hfin⟩, h⟩ := h
  cases hfin
  cases h
  rw [refuseIf_eq_ok, decide_eq_false_iff_not] at hf
  exact ⟨⟨offer, _, resolvedUri, fullUri, scheme, serverWideOptions, connectAuthority, egress,
    wireAuthority, hosted, sanitized⟩, ⟨constrained, followed, ho, hfol, hw⟩,
    ⟨isExtendedConnect, rfl⟩, ht, hc, he, hf, hreq, hd, hsig,
    ⟨policy', hs⟩, hr, rfl, rfl, rfl, rfl, rfl, rfl⟩

lemma constrainRequestHeaders_eq_ok {offer : H1UpgradeOffer}
    (h : offer.constrainRequestHeaders headers = .ok constrained) :
    ∃ value : HeaderValue, value.bytes = (ascii ", ").intercalate offer.protocols ∧
      constrained = headers.insert .upgrade value := by
  unfold H1UpgradeOffer.constrainRequestHeaders at h
  split at h
  · cases h
  next value hv =>
    exact ⟨value, fromStr_bytes hv, (ok.inj h).symm⟩

lemma Planning.h1UpgradeOffer_eq_ok (h : args.h1UpgradeOffer headers = .ok (constrained, offer)) :
    (offer = none ∧ constrained = headers) ∨
      ∃ upstream downstream, Forward.h1UpgradeOffer headers = some upstream ∧
        args.downstreamH1UpgradeOffer = some downstream ∧
        offer = some (upstream.intersect downstream) ∧
        (upstream.intersect downstream).isEmpty = false ∧
        (upstream.intersect downstream).constrainRequestHeaders headers = .ok constrained := by
  unfold h1UpgradeOffer at h
  split at h
  · simp only [bind_eq_ok, okOr_eq_ok, refuseIf_eq_ok] at h
    obtain ⟨upstream, hu, downstream, hd, ⟨⟩, hempty, headers', hcons, h⟩ := h
    cases h
    exact .inr ⟨upstream, downstream, hu, hd, rfl, hempty, hcons⟩
  · cases h
    exact .inl ⟨rfl, rfl⟩

lemma Planning.h1UpgradeOffer_agreeOff
    (h : args.h1UpgradeOffer headers = .ok (constrained, offer)) :
    AgreeOff [.upgrade] headers constrained := by
  rcases h1UpgradeOffer_eq_ok h with ⟨-, rfl⟩ | ⟨upstream, downstream, -, -, -, -, hcons⟩
  · exact .refl _ _
  · obtain ⟨value, -, rfl⟩ := constrainRequestHeaders_eq_ok hcons
    exact agreeOff_insert (by simp) _ _

lemma Planning.followHost_agreeOff {ordinaryConnect : Bool}
    (h : args.followHost headers ordinaryConnect fullUri = .ok followed) :
    AgreeOff [.host] headers followed := by
  unfold followHost at h
  split at h
  · rw [bind_eq_ok] at h
    obtain ⟨authority, -, h⟩ := h
    exact rewriteHost_agreeOff h
  · rw [ok.inj h]
    exact .refl _ _

lemma rewriteHost_pair_eq_ok {written : Authority}
    (h : (do let headers ← rewriteHost headers written; pure (headers, written)) =
      .ok (hosted, authority)) :
    written = authority ∧ rewriteHost headers authority = .ok hosted := by
  rw [bind_eq_ok] at h
  obtain ⟨headers', hr, h⟩ := h
  cases h
  exact ⟨rfl, hr⟩

/-- The authority is the one of the `Host` field, or is written into it. -/
lemma Planning.wireAuthority_eq_ok [UriParser]
    (h : args.wireAuthority headers fullUri connectAuthority = .ok (hosted, authority)) :
    connectAuthority = none ∧ singleHostField headers = .ok (.authority authority) ∧
        hosted = headers ∨
      rewriteHost headers authority = .ok hosted ∧ (connectAuthority = some authority ∨
        connectAuthority = none ∧ (fullUri.authority = some authority ∨
          args.inboundTarget.preservedAuthority = some authority)) := by
  unfold wireAuthority at h
  cases connectAuthority with
  | some connect =>
    obtain ⟨rfl, hr⟩ := rewriteHost_pair_eq_ok h
    exact .inr ⟨hr, .inl rfl⟩
  | none =>
    unfold forwardedAuthority at h
    rw [bind_eq_ok] at h
    obtain ⟨fallback, hf, h⟩ := h
    rw [okOr_eq_ok] at hf
    rw [bind_eq_ok] at h
    obtain ⟨host, hh, h⟩ := h
    cases host with
    | authority host =>
      cases h
      exact .inl ⟨rfl, hh, rfl⟩
    | missing =>
      dsimp only at h
      split at h
      · rw [bind_eq_ok] at h
        obtain ⟨inbound, hi, h⟩ := h
        obtain ⟨rfl, hr⟩ := rewriteHost_pair_eq_ok h
        exact .inr ⟨hr, .inr ⟨rfl, .inr (okOr_eq_ok.mp hi)⟩⟩
      · obtain ⟨rfl, hr⟩ := rewriteHost_pair_eq_ok h
        exact .inr ⟨hr, .inr ⟨rfl, .inl hf⟩⟩
    | empty =>
      dsimp only at h
      split_ifs at h
      · obtain ⟨rfl, hr⟩ := rewriteHost_pair_eq_ok h
        exact .inr ⟨hr, .inr ⟨rfl, .inl hf⟩⟩

lemma Planning.wireAuthority_agreeOff [UriParser]
    (h : args.wireAuthority headers fullUri connectAuthority = .ok (hosted, authority)) :
    AgreeOff [.host] headers hosted := by
  rcases wireAuthority_eq_ok h with ⟨-, -, rfl⟩ | ⟨hr, -⟩
  · exact .refl _ _
  · exact rewriteHost_agreeOff hr

section

variable [UriParser] [UrlSafeNoPad] {parts finalized : Parts} {args : Planning}
  {plan : ForwardDispatchPlan} {d : Decisions}

section

variable (h : Finalizes parts args finalized plan d)

include h

lemma Finalizes.hosted_agreeOff : AgreeOff [.upgrade, .host] parts.headers d.hosted := by
  obtain ⟨constrained, followed, ho, hf, hw⟩ := h.hosted
  have hc := (h1UpgradeOffer_agreeOff ho).mono
    (show ∀ name ∈ [upgrade], name ∈ [upgrade, .host] by simp)
  have hh : ∀ name ∈ [host], name ∈ [upgrade, .host] := by simp
  exact (hc.trans ((followHost_agreeOff hf).mono hh)).trans ((wireAuthority_agreeOff hw).mono hh)

lemma Finalizes.connectionOptions_hosted :
    connectionOptions d.hosted = connectionOptions parts.headers :=
  connectionOptions_congr (h.hosted_agreeOff _ (by decide))

lemma Finalizes.finalized_agreeOff : AgreeOff [.host] d.sanitized finalized.headers :=
  rewriteHost_agreeOff h.rehosted

lemma Finalizes.sanitizes :
    ∃ checked upgradeValues h2cSettings, Sanitizes d.hosted (headerProtocolForEgress d.egress)
      (d.mode = .h1Upgrade) args.downstreamAcceptsTrailers checked upgradeValues h2cSettings
      d.sanitized := by
  obtain ⟨policy, hs⟩ := h.sanitized
  exact sanitizes_of_sanitizeRequest hs

lemma Finalizes.getAll_eq (hhop : name ∉ hopByHop) (hh : name ≠ .host)
    (ht : name ≠ .trailer) (hlen : name ≠ .contentLength) :
    finalized.headers.getAll name =
      if name ∈ connectionOptions parts.headers then [] else parts.headers.getAll name := by
  obtain ⟨checked, upgradeValues, settings, hs⟩ := h.sanitizes
  have hup : name ≠ .upgrade := by
    rintro rfl
    exact hhop (by decide)
  rw [h.finalized_agreeOff name (by simpa using hh)]
  split
  next hn =>
    rw [← h.connectionOptions_hosted] at hn
    exact hs.getAll_nominated hhop hn
  rename_i hn
  rw [← h.connectionOptions_hosted] at hn
  rw [hs.getAll_kept hhop hn ht hlen]
  exact h.hosted_agreeOff name (by simp [hup, hh])

end

end

end Aioduct.Forward
