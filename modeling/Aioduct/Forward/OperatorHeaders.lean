import Aioduct.Forward.Smuggling

/-!
# Headers of the operator

Which of the lines that are configured on the builder reach the upstream.
-/

namespace Aioduct.Forward

open Wire Http Pool MessageFraming List ForwardRewrite ForwardDispatchPlan
  PlannedRequest ForwardBuilder Except

variable {headers' sanitized checked applied inbound hosted : HeaderMap} {connection : Connection}
  {wire : PlannedRequest} {length : Option UInt64} {headers : HeaderMap}

lemma normalizeContentLength_written {context : Bytes} {written : Option UInt64}
    (h : normalizeContentLength headers context = .ok (headers', length))
    (hw : headers.getAll .contentLength = (written.map lengthValue).toList) :
    headers'.getAll .contentLength = headers.getAll .contentLength := by
  cases written with
  | none =>
    rw [hw]
    exact (normalizeContentLength_contentLength h).2 hw
  | some n =>
    rcases normalizeContentLength_eq_ok h with ⟨rfl, -⟩ | ⟨m, hp, rfl⟩
    · rfl
    rw [parseContentLength_lengthValue hw] at hp
    obtain rfl : n = m := Option.some.inj (ok.inj hp)
    rw [MultiMap.getAll_insert_self, hw]
    rfl

/-- A sanitized request has the length that was read, unless it is nominated or there is a transfer
coding. -/
lemma Sanitizes.contentLength_eq [UrlSafeNoPad]
    {protocol : HeaderProtocol} {h1UpgradeRequest acceptsTrailers : Bool}
    {upgradeValues : Option (List HeaderValue)} {h2cSettings : Option HeaderValue}
    (h : Sanitizes headers protocol h1UpgradeRequest acceptsTrailers checked upgradeValues
      h2cSettings sanitized) :
    ∃ length, parseContentLength headers (ascii "forwarded request") = .ok length ∧
      sanitized.getAll .contentLength =
        if .contentLength ∈ connectionOptions headers ∨ headers.getAll .transferEncoding ≠ []
          then [] else (length.map lengthValue).toList := by
  obtain ⟨length, -, hn, -⟩ := checkRequest_eq_ok h.check
  have hp : parseContentLength headers (ascii "forwarded request") = .ok length := by
    unfold normalizeContentLength at hn
    rw [bind_eq_ok] at hn
    obtain ⟨parsed, hp, hn⟩ := hn
    rw [hp]
    cases parsed with
    | none => rw [(Prod.mk.inj (ok.inj hn)).2]
    | some n =>
      simp only [fromStr_numeral] at hn
      rw [(Prod.mk.inj (ok.inj hn)).2]
  refine ⟨length, hp, ?_⟩
  have hc := h.checked_getAll (show HeaderName.transferEncoding ≠ .contentLength by decide)
  rw [h.getAll_eq_strip (by decide), ← hc, ← h.connectionOptions_checked]
  split
  next hd =>
    rcases hd with hnom | hcod
    · apply strip_getAll_eq_nil (Or.inr _)
      rwa [requestTrailerPolicy_connectionNames]
    · apply strip_contentLength_of_coded
      rw [← Bool.not_eq_false, MultiMap.containsKey_eq_false]
      exact hcod
  rename_i hk
  rw [not_or, not_not] at hk
  rw [strip_contentLength_eq _ hk.2, normalizeContentLength_lengths hn]
  rw [requestTrailerPolicy_connectionNames]
  exact hk.1

/-- HTTP/1.1 has no length for a body whose trailers are announced. -/
def ForwardDispatchPlan.dropsContentLength (plan : ForwardDispatchPlan) (finalized : HeaderMap)
    (bodyIsEndStream : Bool) (connections : List Connection) : Bool :=
  !bodyIsEndStream && finalized.containsKey .trailer &&
    (if plan.negotiatedFraming then decide (.h1 ∈ connections)
      else decide (plan.requestVersion = .http11))

namespace PlannedRequest

/-- The framing takes the length away on an HTTP/1.1 connection. -/
def unmeasured (request : PlannedRequest) : Bool :=
  request.framing.any fun framing => framing.hasBody && framing.hasTrailerDeclaration

variable {request : PlannedRequest}

lemma Decides.contentLength_eq (h : request.Decides connection applied headers) :
    headers.getAll .contentLength =
      if connection = .h1 ∧ request.unmeasured then []
      else request.parts.headers.getAll .contentLength := by
  rw [← h.applied_agreeOff .contentLength (by decide)]
  rcases h.framing with ⟨hf, rfl⟩ | ⟨framing, hf, rfl⟩
  · simp [unmeasured, hf]
  · rw [framing.apply_contentLength]
    cases connection <;> simp [unmeasured, hf, Connection.version, Version.isH2OrH3]

variable [UriParser] {fullUri : Uri}

lemma sendOn_contentLength (h : request.sendOn fullUri connection = .ok wire)
    (hlen : request.parts.headers.getAll .contentLength = (length.map lengthValue).toList) :
    wire.framing = request.framing ∧ wire.parts.headers.getAll .contentLength =
      if connection = .h1 ∧ request.unmeasured then []
      else request.parts.headers.getAll .contentLength := by
  obtain ⟨applied, headers, hs⟩ := sendOn_eq_ok h
  have hd := hs.decides.contentLength_eq
  obtain ⟨written, hw⟩ : ∃ written : Option UInt64,
      headers.getAll .contentLength = (written.map lengthValue).toList := by
    rw [hd]
    split
    · exact ⟨none, rfl⟩
    · exact ⟨length, hlen⟩
  obtain ⟨checked, hn⟩ := hs.normalized
  refine ⟨by rw [hs.wire], ?_⟩
  rw [normalizeContentLength_written hn hw, hd]

lemma sendOnEach_contentLength {connections : List Connection}
    (h : request.sendOnEach fullUri connections = .ok wire)
    (hlen : request.parts.headers.getAll .contentLength = (length.map lengthValue).toList) :
    wire.parts.headers.getAll .contentLength =
      if .h1 ∈ connections ∧ request.unmeasured then []
      else request.parts.headers.getAll .contentLength := by
  induction connections generalizing request length with
  | nil =>
    cases h
    simp
  | cons connection connections ih =>
    unfold sendOnEach at h
    rw [foldlM_cons, bind_eq_ok] at h
    obtain ⟨sent, hs, h⟩ := h
    obtain ⟨hfra, hf⟩ := sendOn_contentLength hs hlen
    have hu : sent.unmeasured = request.unmeasured := by
      rw [unmeasured, hfra, unmeasured]
    by_cases hd : connection = .h1 ∧ request.unmeasured
    · rw [if_pos hd] at hf
      have hnone : sent.parts.headers.getAll .contentLength =
          ((none : Option UInt64).map lengthValue).toList := hf
      rw [ih h hnone, hf, ite_self, if_pos]
      exact ⟨by simp [hd.1], hd.2⟩
    rw [if_neg hd] at hf
    rw [ih h (hf.trans hlen), hf, hu]
    refine if_congr ?_ rfl rfl
    rw [mem_cons]
    constructor
    · exact fun hr => ⟨Or.inr hr.1, hr.2⟩
    · rintro ⟨rfl | hm, hu⟩
      · exact absurd ⟨rfl, hu⟩ hd
      · exact ⟨hm, hu⟩

end PlannedRequest

section

variable [UriParser] [UrlSafeNoPad] {builder : ForwardBuilder} {engine : Engine}
  {rewritten finalized : Parts} {plan : ForwardDispatchPlan} {planned wire : PlannedRequest}
  {upstream : Uri} {result : ForwardRewriteResult} {connectProtocol : Option Bytes}
  {connections : List Connection}

lemma Plans.unmeasured
    (h : Plans builder engine rewritten finalized plan planned upstream result connectProtocol) :
    planned.unmeasured = (plan.negotiatedFraming &&
      (!builder.bodyIsEndStream && finalized.headers.containsKey .trailer)) := by
  obtain ⟨checked, signed, -, -, rfl⟩ := finish_eq_ok h.finish
  cases hn : plan.negotiatedFraming with
  | false => simp [unmeasured, withHeaders,
      apply, hn]
  | true =>
    cases hb : builder.bodyIsEndStream <;>
      simp [unmeasured, withHeaders, apply, framingFor_eq, hn]

lemma Plans.contentLength_eq
    (h : Plans builder engine rewritten finalized plan planned upstream result connectProtocol)
    (hs : planned.sendOnEach plan.fullUri connections = .ok wire)
    (hlen : finalized.headers.getAll .contentLength = (length.map lengthValue).toList) :
    wire.parts.headers.getAll .contentLength =
      if plan.dropsContentLength finalized.headers builder.bodyIsEndStream connections then []
      else finalized.headers.getAll .contentLength := by
  obtain ⟨checked, ⟨read, hn⟩, hp⟩ := finish_contentLength_eq h.finish
  have ha := plan.apply_contentLength finalized builder.bodyIsEndStream
  obtain ⟨written, hw⟩ : ∃ written : Option UInt64,
      (plan.apply finalized builder.bodyIsEndStream).parts.headers.getAll .contentLength =
        (written.map lengthValue).toList := by
    rw [ha]
    split
    · exact ⟨none, rfl⟩
    · exact ⟨length, hlen⟩
  rw [normalizeContentLength_written hn hw] at hp
  rw [sendOnEach_contentLength hs (hp.trans hw), hp, ha, h.unmeasured, dropsContentLength]
  cases plan.negotiatedFraming with
  | false => simp [and_assoc, and_comm, and_left_comm]
  | true => simp [and_comm]

/-- The second stripping leaves a configured line alone. A line that signing writes is whatever the
signer makes of it. -/
def KeepsOperatorHeader (builder : ForwardBuilder) (engine : Engine)
    (connections : List Connection) (hooked finalized : HeaderMap) (plan : ForwardDispatchPlan)
    (planned : PlannedRequest) (name : HeaderName) (value : HeaderValue) : Prop :=
  if name ∈ builder.signedFields engine then value ∈ planned.parts.headers.getAll name
  else name ∉ connectionOptions hooked ∧
    if name = .contentLength then
      (∃ length, parseContentLength hooked (ascii "forwarded request") = .ok (some length) ∧
        value = lengthValue length) ∧
      hooked.getAll .transferEncoding = [] ∧
      plan.dropsContentLength finalized builder.bodyIsEndStream connections = false
    else value ∈ hooked.getAll name

omit [UrlSafeNoPad] in
/-- The lines of `Connection` that the hook is given: those of the inbound request, if they are
carried over. -/
lemma Rewrites.connection_getAll {parts : Parts} {rewrite : ForwardRewrite}
    (h : Rewrites parts rewrite rewritten result inbound hosted)
    (hnodup : (rewrite.extraHeaders.lines.map Prod.fst).Nodup)
    (hext : .connection ∉ rewrite.extraHeaders.lines.map Prod.fst) :
    rewritten.headers.getAll .connection =
      if .connection ∈ rewrite.removeHeaders ∨ .connection ∉ rewrite.forwardHeaders ∨
        .connection ∈ connectionOptions parts.headers then []
      else parts.headers.getAll .connection := by
  obtain ⟨authority, -, hh⟩ := h.upstream
  have hs : hosted.getAll .connection = [] := by
    rw [rewrittenHost_agreeOff hh _ (by decide)]
    exact strip_getAll_eq_nil (Or.inl (by decide)) _
  have he : controlledException inbound .connection = false := by
    simp +decide [controlledException]
  have hv : .connection ∈ rewrite.visitedNames ↔
      .connection ∈ rewrite.forwardHeaders := by
    rw [mem_visitedNames]
    exact or_iff_left (by decide)
  rw [h.headers_eq, configuredHeaders_getAll hnodup, if_neg hext, hs,
    forwardedValues_getAll, he, h.connectionNames, ite_self, nil_append,
    validateInboundRequestHeaders_getAll h.accepted (by decide)]
  by_cases hr : .connection ∈ rewrite.removeHeaders
  · simp [hr]
  by_cases hf : .connection ∈ rewrite.forwardHeaders
  · by_cases hn : .connection ∈ connectionOptions parts.headers
    · simp [hn]
    · simp [hr, hf, hn, hv]
  · simp [hf, hv]

/-- A line of a finalized request's name on the wire, by what the hook has left. -/
lemma Plans.mem_wire_iff {d : Decisions}
    (h : Plans builder engine rewritten finalized plan planned upstream result connectProtocol)
    (hfin : Finalizes (builder.runHook rewritten)
      (builder.planning engine connectProtocol rewritten result) finalized plan d)
    (hs : planned.sendOnEach plan.fullUri connections = .ok wire) {name : HeaderName}
    (hhop : name ∉ hopByHop) (ht : name ≠ .trailer) (hh : name ≠ .host)
    (value : HeaderValue) :
    value ∈ wire.parts.headers.getAll name ↔
      KeepsOperatorHeader builder engine connections (builder.runHook rewritten).headers
        finalized.headers plan planned name value := by
  have hw : ∀ name ∈ [.te, .connection, .transferEncoding], name ∈ hopByHop := by decide
  have hl : name ≠ .contentLength → name ∉ [.te, .connection] ++ framingFields := by
    intro hlen hm
    simp only [framingFields, mem_append, mem_cons, not_mem_nil, or_false] at hm
    rcases hm with (rfl | rfl) | rfl | rfl | rfl
    · exact hhop (hw _ (by simp))
    · exact hhop (hw _ (by simp))
    · exact ht rfl
    · exact hhop (hw _ (by simp))
    · exact hlen rfl
  unfold KeepsOperatorHeader
  split
  · -- after signing nothing writes the signature fields
    rename_i hsig
    have hlen : name ≠ .contentLength := by
      rintro rfl
      exact signedFields_notMem (by decide) (by decide) hsig
    have hp : PlannedRequest.Carries planned.parts.headers [] planned :=
      ⟨h.carries.framed, .refl _ _, Or.inl rfl, Or.inl rfl, id⟩
    rw [(hp.sendOnEach hs).agreeOff name (by simpa using hl hlen)]
  rename_i hsig
  by_cases hlen : name = .contentLength
  · subst hlen
    obtain ⟨checked, upgradeValues, settings, hsan⟩ := hfin.sanitizes
    obtain ⟨length, hpar, hf⟩ := hsan.contentLength_eq
    have hpa : parseContentLength (builder.runHook rewritten).headers
        (ascii "forwarded request") = .ok length := by
      rw [← hpar, parseContentLength, parseContentLength,
        hfin.hosted_agreeOff .contentLength (by decide)]
    rw [hfin.connectionOptions_hosted,
      hfin.hosted_agreeOff .transferEncoding (by decide),
      ← hfin.finalized_agreeOff .contentLength (by decide)] at hf
    obtain ⟨written, hw⟩ : ∃ written : Option UInt64,
        finalized.headers.getAll .contentLength = (written.map lengthValue).toList := by
      rw [hf]
      split
      · exact ⟨none, rfl⟩
      · exact ⟨length, rfl⟩
    rw [h.contentLength_eq hs hw, hf, hpa, if_pos rfl]
    by_cases hn : .contentLength ∈
        connectionOptions (builder.runHook rewritten).headers
    · simp [hn]
    by_cases hc : (builder.runHook rewritten).headers.getAll .transferEncoding = []
    · cases plan.dropsContentLength finalized.headers builder.bodyIsEndStream connections with
      | true => simp
      | false =>
        cases length with
        | none => simp [hc]
        | some n => simp [hn, hc]
    · simp [hc]
  · have hcar := (h.carries.sendOnEach hs).agreeOff name (by
      rw [mem_append, not_or]
      exact ⟨hl hlen, hsig⟩)
    rw [hcar, hfin.getAll_eq hhop hh ht hlen, if_neg hlen]
    split
    next hn =>
      simp [hn]
    next hn =>
      simp [hn]

/-- Which configured lines reach the upstream. The hook is given all of them, next to the inbound
`Connection` lines if these are carried over. -/
theorem operator_header_kept_iff (h : builder.send engine connections = .ok wire)
    (hnames : ∀ line ∈ builder.extraHeaders.lines, line.1 ∉ hopByHop ∧ line.1 ≠ .trailer ∧
      line.1 ≠ .host ∧ line.1 ∉ builder.removeHeaders) :
    ∃ plan planned rewritten finalized upstream result connectProtocol,
      Plans builder engine rewritten finalized plan planned upstream result connectProtocol ∧
      rewritten.headers.getAll .connection =
        (if .connection ∈ builder.removeHeaders ∨ .connection ∉ builder.allForwardHeaders ∨
          .connection ∈ connectionOptions builder.request.headers then []
        else builder.request.headers.getAll .connection) ∧
      ∀ line ∈ builder.extraHeaders.lines,
        rewritten.headers.getAll line.1 = builder.extraHeaders.getAll line.1 ∧
        (line.2 ∈ wire.parts.headers.getAll line.1 ↔
          KeepsOperatorHeader builder engine connections (builder.runHook rewritten).headers
            finalized.headers plan planned line.1 line.2) := by
  obtain ⟨plan, planned, hpla, hs⟩ := send_eq_ok h
  obtain ⟨rewritten, finalized, upstream, result, connectProtocol, hp⟩ := plans_of_plan hpla
  obtain ⟨d, hf⟩ := finalize_eq_ok hp.finalize
  obtain ⟨inbound, hosted, hr⟩ := rewriteForUpstream_eq_ok hp.rewrite
  refine ⟨plan, planned, rewritten, finalized, upstream, result, connectProtocol, hp, ?_, ?_⟩
  · apply hr.connection_getAll builder.extra_nodup
    intro hm
    obtain ⟨line, hl, hn⟩ := mem_map.mp hm
    exact (hnames line hl).1 (hn ▸ by decide)
  intro line hl
  obtain ⟨hhop, ht, hh, hrem⟩ := hnames line hl
  refine ⟨?_, hp.mem_wire_iff hf hs hhop ht hh line.2⟩
  rw [hr.headers_eq, configuredHeaders_getAll builder.extra_nodup]
  exact (if_neg hrem).trans (if_pos (mem_map_of_mem hl))

end

def xTenant : HeaderName := ⟨ascii "x-tenant", by decide⟩

def tenantValue : HeaderValue := ⟨ascii "17", by decide⟩

def nominatingUpgrade : Parts where
  method := .get
  uri := { path := ascii "/", pathAndQuery := some ⟨ascii "/"⟩ }
  version := .http11
  headers := ⟨[(.host, shopHost),
    (.connection, ⟨ascii "upgrade, x-tenant", by decide⟩),
    (.upgrade, ⟨ascii "websocket", by decide⟩)]⟩

def tenantForward : ForwardBuilder :=
  { (ForwardBuilder.new nominatingUpgrade true none).header xTenant tenantValue with
    upstream := some plainUpstream }

def tenantSent : Except Error PlannedRequest :=
  @ForwardBuilder.send PlainUri.library.toUriParser urlSafeNoPad tenantForward {} [.h1]

lemma tenantSent_isOk : tenantSent.isOk := by decide

theorem operator_header_kept_iff_tenant :
    ∃ wire plan planned hooked finalized, tenantSent = .ok wire ∧
      (tenantValue ∈ wire.parts.headers.getAll xTenant ↔
        KeepsOperatorHeader tenantForward {} [.h1] hooked finalized plan planned xTenant
          tenantValue) := by
  cases hs : tenantSent with
  | error e =>
    have hok := tenantSent_isOk
    rw [hs] at hok
    cases hok
  | ok wire =>
    obtain ⟨plan, planned, rewritten, finalized, upstream, result, connectProtocol, -, -, hl⟩ :=
      @operator_header_kept_iff PlainUri.library.toUriParser urlSafeNoPad tenantForward {} wire
        [.h1] hs (by decide)
    exact ⟨wire, plan, planned, _, _, rfl, (hl (xTenant, tenantValue) (by decide)).2⟩

/-- The peer has removed the header. -/
theorem operator_header_removed :
    tenantForward.extraHeaders.getAll xTenant = [tenantValue] ∧
    tenantSent.toOption.map (fun wire => wire.parts.headers.getAll xTenant) = some [] := by
  decide

end Aioduct.Forward
