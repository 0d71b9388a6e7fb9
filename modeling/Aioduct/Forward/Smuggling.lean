import Aioduct.Forward.WireFields
import Aioduct.Http.PlainUri

/-!
# No smuggled fields

The header map that a connection is handed has no field that the inbound request nominated, and no
hop-by-hop field but those that the forwarder has written itself.
-/

namespace Aioduct.Forward

open Wire Http FieldPolicy List MessageSignatures PlannedRequest Planning

variable {planned : PlannedRequest} {upstream fullUri : Uri}

def writtenHopByHop : List HeaderName :=
  [.connection, .te, .transferEncoding, .upgrade, .http2Settings]

/-- What the header map on the wire may have of the inbound request. `rewritten` is the map that
the request hook is given, `hooked` what it leaves. -/
structure Unsmuggled [UrlSafeNoPad] (builder : ForwardBuilder) (engine : Engine)
    (rewritten hooked wire : HeaderMap) (offer : Option H1UpgradeOffer)
    (wireAuthority : Authority) : Prop where
  /-- Of a nominated field the hook is given the lines that the builder has configured. -/
  nominated : ∀ name ∈ connectionOptions builder.request.headers, name ∉ hopByHop →
    name ≠ .host → rewritten.getAll name =
      if name ∈ builder.removeHeaders then [] else builder.extraHeaders.getAll name
  /-- No field comes back after the hook. -/
  absent : ∀ name ∉ hopByHop, name ≠ .host → name ∉ builder.signedFields engine →
    hooked.getAll name = [] → wire.getAll name = []
  /-- No line is added after the hook. -/
  kept : ∀ name ∉ hopByHop, name ≠ .host → name ≠ .trailer → name ≠ .contentLength →
    name ∉ builder.signedFields engine → ∀ value ∈ wire.getAll name, value ∈ hooked.getAll name
  removed : ∀ name ∈ hopByHop, name ∉ writtenHopByHop → wire.getAll name = []
  connection : wire.getAll .connection = [] ∨ wire.getAll .connection = [connectionTe] ∨
    offer.isSome = true ∧ ∃ settings te,
      wire.getAll .connection = [upgradeConnection settings te]
  te : wire.getAll .te = [] ∨ wire.getAll .te = [trailersValue]
  transferEncoding : wire.getAll .transferEncoding = [] ∨
    wire.getAll .transferEncoding = [chunkedValue]
  /-- An upgrade is to protocols that the inbound request has offered. -/
  upgrade : wire.getAll .upgrade = [] ∨ ∃ shared inbound value,
    offer = some shared ∧ h1UpgradeOffer builder.request.headers = some inbound ∧
    (∀ protocol ∈ shared.protocols, protocol ∈ inbound.protocols) ∧
    value.bytes = (ascii ", ").intercalate shared.protocols ∧ wire.getAll .upgrade = [value]
  /-- The settings of an h2c upgrade are passed on as they are. -/
  http2Settings : wire.getAll .http2Settings = [] ∨ offer.isSome = true ∧ ∃ value decoded,
    hooked.getAll .http2Settings = [value] ∧ UrlSafeNoPad.decode value.bytes = some decoded ∧
    decoded.length % 6 = 0 ∧ wire.getAll .http2Settings = [value]
  /-- Trailers are announced by one line without a field that may not be a trailer. -/
  trailer : wire.getAll .trailer = [] ∨ ∃ value names,
    value.bytes = TrailerPolicy.declaration names ∧
    (∀ name ∈ names, isForbiddenTrailerField .request name = false) ∧
    wire.getAll .trailer = [value]
  host : ∃ value : HeaderValue, value.bytes = wireAuthority.text ∧ wire.getAll .host = [value]
  contentLength : (wire.getAll .contentLength).length ≤ 1
  exclusive : wire.getAll .transferEncoding = [] ∨ wire.getAll .contentLength = []

lemma decoded_of_collectH2cSettings [UrlSafeNoPad] {headers : HeaderMap} {value : HeaderValue}
    (h : collectH2cSettings headers = .ok value) :
    ∃ decoded, UrlSafeNoPad.decode value.bytes = some decoded ∧ decoded.length % 6 = 0 := by
  unfold collectH2cSettings at h
  split_ifs at h
  split at h
  next found _ =>
    split at h
    · cases h
    rename_i decoded hd
    split at h
    · cases h
    next hlen =>
      cases h
      exact ⟨decoded, hd, by simpa using hlen⟩
  · cases h

section

variable [UriParser] [UrlSafeNoPad] {parts finalized : Parts} {args : Planning}
  {plan : ForwardDispatchPlan} {d : Decisions}

section

variable (h : Finalizes parts args finalized plan d)

include h

lemma Finalizes.offer_of_h1Upgrade (hm : d.mode = .h1Upgrade) : d.offer.isSome := by
  obtain ⟨isExtendedConnect, hd⟩ := h.mode
  rw [hm] at hd
  cases isExtendedConnect with
  | true => cases hd
  | false =>
    cases ho : d.offer.isSome with
    | true => rfl
    | false =>
      rw [ho] at hd
      cases hd

lemma Finalizes.hosted_upgrade (ho : d.offer.isSome) :
    ∃ shared downstream value, d.offer = some shared ∧
      args.downstreamH1UpgradeOffer = some downstream ∧
      (∀ protocol ∈ shared.protocols, protocol ∈ downstream.protocols) ∧
      value.bytes = (ascii ", ").intercalate shared.protocols ∧
      d.hosted.getAll .upgrade = [value] := by
  obtain ⟨constrained, followed, hc, hf, hw⟩ := h.hosted
  rcases h1UpgradeOffer_eq_ok hc with
    ⟨hnone, -⟩ | ⟨upstream, downstream, -, hd, hs, -, hcons⟩
  · rw [hnone] at ho
    cases ho
  obtain ⟨value, hv, rfl⟩ := constrainRequestHeaders_eq_ok hcons
  refine ⟨_, downstream, value, hs, hd, ?_, hv, ?_⟩
  · intro protocol hp
    simpa using (mem_filter.mp hp).2
  · rw [wireAuthority_agreeOff hw .upgrade (by decide),
      followHost_agreeOff hf .upgrade (by decide), MultiMap.getAll_insert_self]

lemma Finalizes.written :
    (finalized.headers.getAll .connection = [] ∨
      finalized.headers.getAll .connection = [connectionTe] ∨
      d.offer.isSome ∧ ∃ settings te,
        finalized.headers.getAll .connection = [upgradeConnection settings te]) ∧
    (finalized.headers.getAll .upgrade = [] ∨
      d.offer.isSome ∧
        finalized.headers.getAll .upgrade = d.hosted.getAll .upgrade) ∧
    (finalized.headers.getAll .http2Settings = [] ∨ d.offer.isSome ∧ ∃ value decoded,
      parts.headers.getAll .http2Settings = [value] ∧
      UrlSafeNoPad.decode value.bytes = some decoded ∧ decoded.length % 6 = 0 ∧
      finalized.headers.getAll .http2Settings = [value]) := by
  obtain ⟨checked, upgradeValues, settings, hsan⟩ := h.sanitizes
  rw [h.finalized_agreeOff .connection (by decide), h.finalized_agreeOff .upgrade (by decide),
    h.finalized_agreeOff .http2Settings (by decide), hsan.connection,
    hsan.upgrade_getAll, hsan.http2Settings]
  cases upgradeValues with
  | none =>
    rw [requestH2cSettings_none hsan.settings]
    refine ⟨?_, .inl rfl, .inl rfl⟩
    unfold writtenConnection
    dsimp only
    split
    · exact .inr (.inl rfl)
    · exact .inl rfl
  | some values =>
    obtain ⟨hm, -, hc⟩ := requestUpgradeValues_some hsan.upgrade
    have ho := h.offer_of_h1Upgrade (by simpa using hm)
    refine ⟨.inr (.inr ⟨ho, _, _, rfl⟩), .inr ⟨ho, ?_⟩, ?_⟩
    · rw [← hsan.checked_getAll (by decide), getAll_of_collectUpgradeValues hc]
      rfl
    rcases requestH2cSettings_eq_ok hsan.settings with
      ⟨-, rfl⟩ | ⟨-, value, rfl, hs⟩
    · exact .inl rfl
    obtain ⟨decoded, hd, hlen⟩ := decoded_of_collectH2cSettings hs
    refine .inr ⟨ho, value, decoded, ?_, hd, hlen, rfl⟩
    rw [← h.hosted_agreeOff .http2Settings (by decide), ← hsan.checked_getAll (by decide)]
    exact (collectH2cSettings_eq_ok hs).1

lemma Finalizes.absent {name : HeaderName} (hhop : name ∉ hopByHop) (hhos : name ≠ .host)
    (hnone : parts.headers.getAll name = []) : finalized.headers.getAll name = [] := by
  have hup : name ≠ .upgrade := by
    rintro rfl
    exact hhop (by decide)
  have hh : d.hosted.getAll name = [] := by
    rw [h.hosted_agreeOff name (by simp [hup, hhos]), hnone]
  obtain ⟨checked, upgradeValues, settings, hs⟩ := h.sanitizes
  by_cases ht : name = .trailer
  · subst ht
    rw [h.finalized_agreeOff _ (by decide)]
    exact hs.trailer hh
  by_cases hlen : name = .contentLength
  · subst hlen
    rw [h.finalized_agreeOff _ (by decide)]
    exact hs.contentLength.2 hh
  rw [h.getAll_eq hhop hhos ht hlen, hnone]
  exact ite_self _

end

end

/-- The header map on the wire has nothing that was smuggled in. -/
lemma Plans.unsmuggled [UriParser] [UrlSafeNoPad] {builder : ForwardBuilder} {engine : Engine}
    {rewritten finalized : Parts} {plan : ForwardDispatchPlan} {wire : PlannedRequest}
    {result : ForwardRewriteResult} {connectProtocol : Option Bytes} {d : Decisions}
    (h : Plans builder engine rewritten finalized plan planned upstream result connectProtocol)
    (hfin : Finalizes (builder.runHook rewritten)
      (builder.planning engine connectProtocol rewritten result) finalized plan d)
    (hwir : PlannedRequest.Carries finalized.headers (builder.signedFields engine) wire) :
    Unsmuggled builder engine rewritten.headers (builder.runHook rewritten).headers
      wire.parts.headers d.offer d.wireAuthority := by
  obtain ⟨inbound, hosted, hr⟩ := rewriteForUpstream_eq_ok h.rewrite
  obtain ⟨hc, hup, hset⟩ := hfin.written
  have hl : ∀ name ∉ writtenHopByHop, name ≠ .trailer → name ≠ .contentLength →
      name ∉ builder.signedFields engine →
      wire.parts.headers.getAll name = finalized.headers.getAll name := by
    intro name hn ht hlen hs
    apply hwir.agreeOff
    simp only [writtenHopByHop, mem_cons, not_mem_nil, or_false, not_or] at hn
    simp [framingFields, hn, ht, hlen, hs]
  have hk : ∀ name ∈ [.upgrade, .http2Settings, .host],
      wire.parts.headers.getAll name = finalized.headers.getAll name := by
    intro name hn
    apply hwir.agreeOff
    simp only [mem_cons, not_mem_nil, or_false] at hn
    rw [mem_append, not_or]
    rcases hn with rfl | rfl | rfl <;>
      exact ⟨by decide, signedFields_notMem (by decide) (by decide)⟩
  have ho : ∀ name ∉ hopByHop, name ∉ writtenHopByHop := by
    intro name hhop hw
    exact hhop ((show ∀ name ∈ writtenHopByHop, name ∈ hopByHop by decide) name hw)
  constructor
  case nominated =>
    intro name hn hhop hh
    exact hr.getAll_nominated builder.extra_nodup hn hhop hh
  case absent =>
    intro name hhop hh hs hnone
    have hf := hfin.absent hhop hh hnone
    by_cases ht : name = .trailer
    · subst ht
      exact hwir.trailer.elim (fun heq => heq.trans hf) id
    by_cases hlen : name = .contentLength
    · subst hlen
      exact hwir.contentLength hf
    rw [hl name (ho name hhop) ht hlen hs, hf]
  case kept =>
    intro name hhop hh ht hlen hs value hv
    rw [hl name (ho name hhop) ht hlen hs, hfin.getAll_eq hhop hh ht hlen] at hv
    split at hv
    · cases hv
    · exact hv
  case removed =>
    intro name hhop hw
    obtain ⟨checked, upgradeValues, settings, hsan⟩ := hfin.sanitizes
    have hall : ∀ name ∈ hopByHop, name ∉ writtenHopByHop → name ∈
        [.keepAlive, .proxyAuthenticate, .proxyAuthorization, .proxyConnection] := by decide
    have hm := hall name hhop hw
    have hnam : ∀ name ∈ [.keepAlive, .proxyAuthenticate, .proxyAuthorization,
        .proxyConnection], name ≠ .trailer ∧ name ≠ .contentLength ∧ name ≠ .host ∧
          name ≠ signatureName ∧ name ≠ signatureInputName := by
      decide
    obtain ⟨ht, hlen, hh, hsig, hi⟩ := hnam name hm
    rw [hl name hw ht hlen (signedFields_notMem hsig hi),
      hfin.finalized_agreeOff name (by simpa using hh)]
    simp only [writtenHopByHop, mem_cons, not_mem_nil, or_false, not_or] at hw
    exact hsan.getAll_removed hhop hw.1 hw.2.1 hw.2.2.2.1 hw.2.2.2.2
  case connection =>
    rcases hwir.connection with heq | hte
    · rw [heq]
      exact hc
    · exact .inr (.inl hte)
  case te => exact hwir.framed.te
  case transferEncoding => exact hwir.framed.coding
  case upgrade =>
    rw [hk _ (by simp)]
    rcases hup with hnone | ⟨hoff, heq⟩
    · exact .inl hnone
    · obtain ⟨shared, downstream, value, hsha, hd, hsub, hv, hlin⟩ :=
        hfin.hosted_upgrade hoff
      exact .inr ⟨shared, downstream, value, hsha, hd, hsub, hv, heq.trans hlin⟩
  case http2Settings =>
    rw [hk _ (by simp)]
    exact hset
  case trailer =>
    obtain ⟨checked, upgradeValues, settings, hsan⟩ := hfin.sanitizes
    rcases hwir.trailer with heq | hnone
    · rw [heq, hfin.finalized_agreeOff _ (by decide)]
      rcases hsan.trailer_cases with hnone | ⟨value, names, -, hv, hnam, ht⟩
      · exact .inl hnone
      · exact .inr ⟨value, names, hv, hnam, ht⟩
    · exact .inl hnone
  case host =>
    rw [hk _ (by simp)]
    exact rewriteHost_host hfin.rehosted
  case contentLength => exact hwir.framed.length
  case exclusive => exact hwir.framed.exclusive

section

variable [UriParser] [UrlSafeNoPad] {builder : ForwardBuilder} {engine : Engine}
  {connections : List Connection} {wire : PlannedRequest}

omit [UrlSafeNoPad] in
lemma sendOnEach_getLast {connection : Connection}
    (h : planned.sendOnEach fullUri connections = .ok wire)
    (hl : connections.getLast? = some connection) :
    ∃ request : PlannedRequest, request.sendOn fullUri connection = .ok wire := by
  obtain ⟨front, rfl⟩ : ∃ front, connections = front ++ [connection] := by
    obtain ⟨front, hf⟩ := List.getLast?_eq_some_iff.mp hl
    exact ⟨front, hf⟩
  unfold sendOnEach at h
  rw [foldlM_append, bind_eq_ok] at h
  obtain ⟨request, -, h⟩ := h
  rw [foldlM_cons, bind_eq_ok] at h
  obtain ⟨sent, hs, h⟩ := h
  cases h
  exact ⟨request, hs⟩

/-- On every connection that an accepted request is handed to, its header map is free of what the
inbound request nominated and of hop-by-hop fields that the forwarder has not written; sanitizing
it in the plan a second time would have changed nothing. -/
theorem forwarded_headers_unsmuggled (h : builder.send engine connections = .ok wire) :
    ∃ plan planned rewritten finalized upstream result connectProtocol d,
      Plans builder engine rewritten finalized plan planned upstream result connectProtocol ∧
      Finalizes (builder.runHook rewritten)
        (builder.planning engine connectProtocol rewritten result) finalized plan d ∧
      Unsmuggled builder engine rewritten.headers (builder.runHook rewritten).headers
        wire.parts.headers d.offer d.wireAuthority ∧
      (∀ connection, connections.getLast? = some connection → connection ≠ .h1 →
        ∀ name, isConnectionSpecific name = true → wire.parts.headers.getAll name = []) ∧
      ∃ again policy, sanitizeRequest d.sanitized (headerProtocolForEgress d.egress)
          (d.mode = .h1Upgrade)
          (downstreamAcceptsResponseTrailers builder.request.version builder.request.headers) =
          .ok (again, policy) ∧ again.Equiv d.sanitized := by
  obtain ⟨plan, planned, hpla, hsen⟩ := send_eq_ok h
  obtain ⟨rewritten, finalized, upstream, result, connectProtocol, hp⟩ := plans_of_plan hpla
  obtain ⟨d, hf⟩ := finalize_eq_ok hp.finalize
  have hcar := hp.carries.sendOnEach hsen
  refine ⟨plan, planned, rewritten, finalized, upstream, result, connectProtocol, d, hp,
    hf, hp.unsmuggled hf hcar, ?_, ?_⟩
  · intro connection hl hc name hn
    obtain ⟨request, hr⟩ := sendOnEach_getLast hsen hl
    obtain ⟨applied, headers, hse⟩ := sendOn_eq_ok hr
    exact hse.getAll_connectionSpecific hc hn
  · obtain ⟨policy, hs⟩ := hf.sanitized
    exact sanitizeRequest_again hs

end

/-- Unpadded URL-safe Base64, by way of the standard alphabet. -/
@[reducible] def urlSafeNoPad : UrlSafeNoPad where
  decode s :=
    if s.any (fun b => b == byte '+' || b == byte '/' || b == byte '=') then none
    else Base64.standardDecode (s.map (fun b =>
      if b = byte '-' then byte '+' else if b = byte '_' then byte '/' else b) ++
      List.replicate ((4 - s.length % 4) % 4) (byte '='))

def h2cSettingsValue : HeaderValue := ⟨ascii "AAMAAABkAAQAAP__", by decide⟩

def shopHost : HeaderValue := ⟨ascii "shop.example", by decide⟩

def h2cRequest : Parts where
  method := .get
  uri := { path := ascii "/", pathAndQuery := some ⟨ascii "/"⟩ }
  version := .http11
  headers := ⟨[(.host, shopHost), (.connection, connectionUpgradeSettings),
    (.upgrade, ⟨ascii "h2c", by decide⟩), (.http2Settings, h2cSettingsValue)]⟩

def plainUpstream : Uri where
  scheme := some (ascii "http")
  authority := some ⟨ascii "upstream.example", ascii "upstream.example", none⟩
  path := ascii "/"
  pathAndQuery := some ⟨ascii "/"⟩

def h2cForward : ForwardBuilder :=
  { ForwardBuilder.new h2cRequest true none with upstream := some plainUpstream }

def h2cSent : Except Error PlannedRequest :=
  @ForwardBuilder.send PlainUri.library.toUriParser urlSafeNoPad h2cForward {} [.h1]

lemma h2cSent_isOk : h2cSent.isOk := by decide

theorem forwarded_headers_unsmuggled_h2c :
    ∃ wire rewritten hooked offer wireAuthority, h2cSent = .ok wire ∧
      @Unsmuggled urlSafeNoPad h2cForward {} rewritten hooked wire.parts.headers offer
        wireAuthority := by
  cases hs : h2cSent with
  | error e =>
    have hok := h2cSent_isOk
    rw [hs] at hok
    cases hok
  | ok wire =>
    obtain ⟨plan, planned, rewritten, finalized, upstream, result, connectProtocol, d, -, -,
      hu, -⟩ := @forwarded_headers_unsmuggled PlainUri.library.toUriParser urlSafeNoPad
        h2cForward {} [.h1] wire hs
    exact ⟨wire, _, _, _, _, rfl, hu⟩

/-- `HTTP2-Settings` reaches the upstream as the inbound line that `Connection` nominates. -/
theorem h2c_settings_forwarded :
    .http2Settings ∈ connectionOptions h2cRequest.headers ∧
    h2cRequest.headers.getAll .http2Settings = [h2cSettingsValue] ∧
    h2cSent.toOption.map (fun wire => wire.parts.headers.getAll .http2Settings) =
      some [h2cSettingsValue] := by decide

end Aioduct.Forward
