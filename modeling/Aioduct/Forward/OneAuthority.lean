import Aioduct.Forward.Smuggling
import Aioduct.Forward.Targets

/-!
# One authority

All that a plan sends and signs names one authority.
-/

namespace Aioduct.Forward

open Wire Http Pool Planning Except DeferredForwardTarget UriParser
  Connection ForwardRewrite

variable {isH1 : Bool}

/-! ### The authority of a plan -/

variable {a : Authority}

lemma validateConnectAuthority_eq_ok (h : validateConnectAuthority a = .ok ()) : a.port.isSome := by
  unfold validateConnectAuthority validateAuthority explicitAuthorityPort at h
  simp only [bind_eq_ok, refuseIf_eq_ok] at h
  obtain ⟨port, ⟨⟨⟩, -, raw, -, hp⟩, hsome⟩ := h
  cases raw with
  | none =>
    cases hp
    cases hsome
  | some text =>
    dsimp only at hp
    split at hp
    · cases hp
      cases hsome
    simp only [bind_eq_ok, refuseIf_eq_ok, decide_eq_false_iff_not, not_not] at hp
    obtain ⟨⟨⟩, -, read, -, ⟨⟩, hr, -⟩ := hp
    rw [hr]
    rfl

section

variable [UriParser]

/-- What a plan is made from has authorities that the library has read. -/
structure Planning.Parsed (args : Planning) : Prop where
  scheme : ∃ scheme, args.rewrittenUri.scheme = some scheme
  authority : ∀ {a}, args.rewrittenUri.authority = some a → IsParsed a
  preserved : ∀ {a}, args.inboundTarget.preservedAuthority = some a → IsParsed a

end

lemma Planning.selectEgress_eq_ok {args : Planning} {parts : Parts} {mode : ForwardMode}
    {scheme : Bytes} {serverWideOptions : Option ServerWideOptions} {egress : EgressProtocol}
    (h : args.selectEgress parts mode scheme serverWideOptions = .ok egress) :
    (mode = .h1Upgrade → egress = .http1) ∧ (mode = .extendedConnect → egress = .http2) ∧
      (isOrdinaryConnect mode parts.method → egress ≠ .negotiated) := by
  unfold selectEgress at h
  simp only [bind_eq_ok] at h
  obtain ⟨explicit, -, moded, hm, chosen, hc, ⟨⟩, -, ⟨⟩, -, ⟨⟩, -, ⟨⟩, -, h⟩ := h
  obtain rfl : chosen = egress := ok.inj h
  have hk : ∀ {before : EgressProtocol}, before ≠ .negotiated →
      egressForAsterisk serverWideOptions scheme before = .ok chosen → chosen = before := by
    intro before hb hasterisk
    unfold egressForAsterisk at hasterisk
    split at hasterisk
    · cases before with
      | negotiated => exact absurd rfl hb
      | http1 | http3 => exact (ok.inj hasterisk).symm
      | http2 => cases hasterisk
    · exact (ok.inj hasterisk).symm
  refine ⟨?_, ?_, ?_⟩
  · rintro rfl
    unfold egressForMode at hm
    dsimp only at hm
    split at hm
    · cases hm
    · cases hm
      exact hk (by decide) (by simpa using hc)
  · rintro rfl
    unfold egressForMode at hm
    dsimp only at hm
    split at hm
    · cases hm
      exact hk (by decide) (by simpa using hc)
    · cases hm
  intro ho
  rw [ho] at hc
  have hne : (if true && decide (moded = .negotiated) then .http1 else moded) ≠
      EgressProtocol.negotiated := by
    cases moded <;> decide
  rw [hk hne hc]
  exact hne

section

variable [UriLibrary] [UrlSafeNoPad] {parts finalized : Parts} {args : Planning}
  {plan : ForwardDispatchPlan} {d : Decisions}

section

variable (h : Finalizes parts args finalized plan d) (hargs : args.Parsed)
  (hparts : parts.uri.Valid)

include h hargs hparts

lemma Finalizes.resolved :
    (isOrdinaryConnect d.mode parts.method ∧ d.serverWideOptions = none ∧
        d.resolvedUri = args.rewrittenUri ∧
        ∃ a, d.connectAuthority = some a ∧ IsParsed a ∧ a.port.isSome) ∨
      (isOrdinaryConnect d.mode parts.method = false ∧ d.connectAuthority = none ∧
        Resolves parts.method d.resolvedUri d.serverWideOptions) := by
  have ht := h.target
  unfold resolveTarget at ht
  split at ht
  next hord =>
    simp only [bind_eq_ok] at ht
    obtain ⟨a, ha, ⟨⟩, hc, ht⟩ := ht
    obtain ⟨hu, hr⟩ := Prod.mk.inj (ok.inj ht)
    obtain ⟨ho, haut⟩ := Prod.mk.inj hr
    refine .inl ⟨hord, ho.symm, hu.symm, a, haut.symm, ?_, validateConnectAuthority_eq_ok hc⟩
    unfold connectAuthority at ha
    split at ha
    · split at ha
      next found _ _ hf =>
        cases ha
        exact hparts.authority hf
      · cases ha
    · rw [okOr_eq_ok] at ha
      exact hargs.preserved (InboundRequestTarget.preservedAuthority_of_connect ha)
  next hord =>
    simp only [bind_eq_ok] at ht
    obtain ⟨⟨resolvedUri, serverWideOptions⟩, hres, ht⟩ := ht
    obtain ⟨hu, hr⟩ := Prod.mk.inj (ok.inj ht)
    obtain ⟨ho, haut⟩ := Prod.mk.inj hr
    obtain ⟨scheme, hs⟩ := hargs.scheme
    refine .inr ⟨by simpa using hord, haut.symm, ?_⟩
    rw [← hu, ← ho]
    exact resolves_of_resolveHookUri hs hargs.authority hparts hres

lemma Finalizes.fullUri_authority (ha : d.fullUri.authority = some a) : IsParsed a := by
  obtain ⟨-, -, haut, -⟩ := canonicalizeHttpUri_eq_ok h.canonical
  rw [haut] at ha
  rcases h.resolved hargs hparts with ⟨-, -, hu, -⟩ | ⟨-, -, hr⟩
  · rw [hu] at ha
    exact hargs.authority ha
  · exact hr.authority ha

lemma Finalizes.wireAuthority_parsed : IsParsed d.wireAuthority := by
  obtain ⟨constrained, followed, -, -, hwir⟩ := h.hosted
  rcases wireAuthority_eq_ok hwir with
    ⟨-, hh, -⟩ | ⟨-, hw | ⟨-, hf | hp⟩⟩
  · exact singleHostField_parsed hh rfl
  · rcases h.resolved hargs hparts with ⟨-, -, -, a, hc, ha, -⟩ | ⟨-, hc, -⟩
    · rwa [← Option.some.inj (hc.symm.trans hw)]
    · rw [hc] at hw
      cases hw
  · exact h.fullUri_authority hargs hparts hf
  · exact hargs.preserved hp

lemma Finalizes.wireAuthority_connect
    (ho : isOrdinaryConnect d.mode parts.method) :
    d.wireAuthority.port.isSome := by
  obtain ⟨constrained, followed, -, -, hw⟩ := h.hosted
  rcases h.resolved hargs hparts with ⟨-, -, -, a, hc, -, hp⟩ | ⟨hn, -, -⟩
  · rw [hc] at hw
    obtain ⟨rfl, -⟩ := rewriteHost_pair_eq_ok hw
    exact hp
  · rw [ho] at hn
    cases hn

lemma Finalizes.fullUri_rooted
    (hord : isOrdinaryConnect d.mode parts.method = false)
    (ho : d.serverWideOptions = none) : ∃ p, d.fullUri.pathAndQuery = some p ∧ p.Rooted := by
  rcases h.resolved hargs hparts with ⟨hc, -⟩ | ⟨-, -, hres⟩
  · rw [hord] at hc
    cases hc
  · obtain ⟨p, hp, hr⟩ := hres.rooted ho
    obtain ⟨-, -, -, hpat⟩ := canonicalizeHttpUri_eq_ok h.canonical
    exact ⟨p, hpat p hp, hr⟩

lemma Finalizes.method_of_options (ho : d.serverWideOptions.isSome) : parts.method ≠ .connect := by
  rcases h.resolved hargs hparts with ⟨-, hnone, -⟩ | ⟨-, -, hr⟩
  · rw [hnone] at ho
    cases ho
  · rw [hr.options ho]
    decide

end

omit [UriLibrary] [UrlSafeNoPad] in
lemma namesAuthority_asterisk {method : Method}
    (hm : isH1 ∨ method ≠ .connect) : NamesAuthority a method isH1 .asterisk :=
  .inr ⟨rfl, rfl, hm.imp_right fun hne => ⟨hne, rfl⟩⟩

section

variable (h : Finalizes parts args finalized plan d) (hargs : args.Parsed)
  (hparts : parts.uri.Valid)

include h hargs hparts

lemma Finalizes.requestUri_names_options {options : ServerWideOptions}
    (ho : d.serverWideOptions = some options) :
    NamesAuthority d.wireAuthority parts.method (!d.egress.isH2OrH3) plan.requestUri := by
  have hm := h.method_of_options hargs hparts (by rw [ho]; rfl)
  obtain ⟨-, hs, -⟩ := canonicalizeHttpUri_eq_ok h.canonical
  have hr := h.requestUri
  have hf := h.form
  unfold Decisions.targetForm targetForm at hr hf
  rw [ho] at hr hf
  cases he : d.egress with
  | negotiated | http1 =>
    simp only [he] at hr
    rw [← ok.inj hr]
    exact namesAuthority_asterisk (.inl rfl)
  | http2 =>
    cases hin : options.authorityInTarget with
    | true =>
      simp only [he, hin] at hr
      obtain ⟨ht, ha⟩ := requestUri_asteriskAbsolute hs hr
      exact .inl ⟨ha, .inr ⟨rfl, by rw [ht]; rfl⟩⟩
    | false =>
      simp only [he, hin] at hr
      rw [← ok.inj hr]
      exact namesAuthority_asterisk (.inr hm)
  | http3 =>
    cases hin : options.authorityInTarget with
    | true =>
      simp only [he, hin] at hr
      obtain ⟨ht, ha⟩ := requestUri_asteriskAbsolute hs hr
      exact .inl ⟨ha, .inr ⟨rfl, by rw [ht]; rfl⟩⟩
    | false =>
      simp only [he, hin] at hf
      exact absurd rfl hf

/-- The request target of a plan, in the form of its protocol. -/
lemma Finalizes.requestUri_names :
    NamesAuthority d.wireAuthority parts.method (!d.egress.isH2OrH3) plan.requestUri := by
  cases hopt : d.serverWideOptions with
  | some options => exact h.requestUri_names_options hargs hparts hopt
  | none =>
    obtain ⟨hup, hext, -⟩ := selectEgress_eq_ok h.egress
    obtain ⟨-, hs, -⟩ := canonicalizeHttpUri_eq_ok h.canonical
    have hreq := h.requestUri
    unfold Decisions.targetForm targetForm at hreq
    rw [hopt] at hreq
    have ho : isOrdinaryConnect d.mode parts.method = false →
        d.egress.isH2OrH3 = false →
        Forward.requestUri d.fullUri .origin none = .ok plan.requestUri →
        NamesAuthority d.wireAuthority parts.method (!d.egress.isH2OrH3) plan.requestUri := by
      intro hord he ht
      obtain ⟨p, hp, hr⟩ := h.fullUri_rooted hargs hparts hord hopt
      obtain ⟨hnone, ha⟩ := requestUri_origin hp hr ht
      exact .inr ⟨hnone, ha, .inl (by rw [he]; rfl)⟩
    have habs : isOrdinaryConnect d.mode parts.method = false →
        d.egress.isH2OrH3 →
        Forward.requestUri d.fullUri .absolute (some d.wireAuthority) = .ok plan.requestUri →
        NamesAuthority d.wireAuthority parts.method (!d.egress.isH2OrH3) plan.requestUri := by
      intro hord he ht
      obtain ⟨p, hp, -⟩ := h.fullUri_rooted hargs hparts hord hopt
      obtain ⟨hsome, ha⟩ := requestUri_absolute hs hp ht
      exact .inl ⟨ha, .inr ⟨by rw [he]; rfl, by rw [hsome]; rfl⟩⟩
    cases hm : d.mode with
    | h1Upgrade =>
      simp only [hm] at hreq
      exact ho (by rw [hm]; rfl) (by rw [hup hm]; rfl) hreq
    | extendedConnect =>
      simp only [hm] at hreq
      exact habs (by rw [hm]; rfl) (by rw [hext hm]; rfl) hreq
    | normal =>
      simp only [hm] at hreq
      by_cases hc : parts.method = .connect
      · rw [if_pos hc] at hreq
        have hord : isOrdinaryConnect d.mode parts.method := by
          simp [isOrdinaryConnect, hm, hc]
        have ha := requestUri_authority (h.wireAuthority_parsed hargs hparts)
          (h.wireAuthority_connect hargs hparts hord) hreq
        exact .inl ⟨ha, .inl hc⟩
      have hord : isOrdinaryConnect d.mode parts.method = false := by
        simp [isOrdinaryConnect, hc]
      rw [if_neg hc] at hreq
      cases he : d.egress.isH2OrH3 with
      | true =>
        rw [he] at hreq habs
        exact habs hord rfl hreq
      | false =>
        rw [he] at hreq ho
        exact ho hord rfl hreq

/-- The targets that are left to the connection. -/
lemma Finalizes.deferredTarget_names (he : d.egress = .negotiated) :
    ∃ target, plan.deferredTarget = some target ∧ ∀ (sent : Parts) (connection : Connection),
      NamesAuthority d.wireAuthority parts.method (decide (connection = .h1))
        (target.apply sent connection.version).uri := by
  obtain ⟨-, -, hc⟩ := selectEgress_eq_ok h.egress
  have hord : isOrdinaryConnect d.mode parts.method = false := by
    cases hord : isOrdinaryConnect d.mode parts.method with
    | false => rfl
    | true => exact absurd he (hc hord)
  obtain ⟨-, hs, -⟩ := canonicalizeHttpUri_eq_ok h.canonical
  have ht := h.deferredTarget
  unfold Forward.deferredTarget at ht
  rw [if_pos he] at ht
  simp only [bind_eq_ok] at ht
  obtain ⟨h1Uri, hh1, h2H3Uri, hh2, ht⟩ := ht
  refine ⟨_, (ok.inj ht).symm, fun sent connection => ?_⟩
  cases ho : d.serverWideOptions with
  | some options =>
    have hm := h.method_of_options hargs hparts (by rw [ho]; rfl)
    rw [ho] at hh1 hh2
    cases hh1
    obtain ⟨hsome, ha⟩ := requestUri_asteriskAbsolute hs hh2
    have hn : NamesAuthority d.wireAuthority parts.method false h2H3Uri :=
      .inl ⟨ha, .inr ⟨rfl, by rw [hsome]; rfl⟩⟩
    unfold apply
    cases connection with
    | h1 => exact namesAuthority_asterisk (.inl rfl)
    | h2 =>
      cases hin : options.authorityInTarget with
      | true => simpa [version, Version.isH2OrH3, hin] using hn
      | false =>
        simpa [version, Version.isH2OrH3, hin] using
          (namesAuthority_asterisk (.inr hm) :
            NamesAuthority d.wireAuthority parts.method false _)
    | h3 => exact hn
  | none =>
    obtain ⟨p, hp, hr⟩ := h.fullUri_rooted hargs hparts hord ho
    rw [ho] at hh1 hh2
    obtain ⟨hnone, ha⟩ := requestUri_origin hp hr hh1
    obtain ⟨hsome, ha'⟩ := requestUri_absolute hs hp hh2
    have hn : NamesAuthority d.wireAuthority parts.method false h2H3Uri :=
      .inl ⟨ha', .inr ⟨rfl, by rw [hsome]; rfl⟩⟩
    cases connection with
    | h1 => exact .inr ⟨hnone, ha, .inl rfl⟩
    | h2 => exact hn
    | h3 => exact hn

end

end

/-- On every connection that serves its hint a request names one authority. -/
structure PlannedRequest.Aims (a : Authority) (method : Method) (hint : ProtocolHint)
    (request : PlannedRequest) : Prop where
  method_eq : request.parts.method = method
  names : ∀ connection : Connection, connection.serves hint = true →
    NamesAuthority a method (decide (connection = .h1)) (request.targetedParts connection).uri
  /-- A request without deferred decisions is for one kind of connection. -/
  settled : request.deferredTarget = none → ∀ connection connection' : Connection,
    connection.serves hint = true → connection'.serves hint = true →
      (connection = .h1 ↔ connection' = .h1)

lemma DeferredForwardTarget.apply_uri (target : DeferredForwardTarget) (parts parts' : Parts)
    (version : Version) : (target.apply parts version).uri = (target.apply parts' version).uri := by
  unfold apply
  split
  · rfl
  · split <;> rfl

lemma PlannedRequest.targetedParts_method (request : PlannedRequest) (connection : Connection) :
    (request.targetedParts connection).method = request.parts.method := by
  unfold targetedParts apply
  split
  · split
    · rfl
    · split <;> rfl
  · rfl

section

variable [UriLibrary] {a : Authority} {method : Method} {hint : ProtocolHint} {fullUri : Uri}
  {request wire : PlannedRequest} {connection : Connection}

lemma PlannedRequest.Aims.sendOn (haim : request.Aims a method hint) (ha : IsParsed a)
    (hser : connection.serves hint) (h : request.sendOn fullUri connection = .ok wire) :
    wire.Aims a method hint ∧
      NamesAuthority a method (decide (connection = .h1)) wire.parts.uri := by
  obtain ⟨applied, headers, hs⟩ := sendOn_eq_ok h
  have hm : (request.targetedParts connection).method = method :=
    (request.targetedParts_method connection).trans haim.method_eq
  have hn : NamesAuthority a method (decide (connection = .h1)) wire.parts.uri := by
    have hg := haim.names connection hser
    rw [← hm] at hg
    have hp := prepareRequestTargetForConnection_names ha
      (show NamesAuthority a { request.targetedParts connection with
        headers := wire.parts.headers : Parts }.method (decide (connection = .h1))
        { request.targetedParts connection with headers := wire.parts.headers : Parts }.uri from
        hg) hs.uri
    rwa [hm] at hp
  have ht : wire.deferredTarget = request.deferredTarget := by rw [hs.wire]
  refine ⟨⟨by rw [hs.wire]; exact hm, ?_, ?_⟩, hn⟩
  · intro connection' hs'
    cases hd : request.deferredTarget with
    | none =>
      have hk := haim.settled hd connection connection' hser hs'
      unfold targetedParts
      rw [ht, hd]
      rwa [decide_eq_decide.mpr hk] at hn
    | some target =>
      have hb := haim.names connection' hs'
      unfold targetedParts at hb ⊢
      rw [ht, hd]
      rw [hd] at hb
      rwa [target.apply_uri wire.parts request.parts]
  · rw [ht]
    exact haim.settled

lemma PlannedRequest.Aims.sendOnEach {connections : List Connection}
    (haim : request.Aims a method hint) (ha : IsParsed a)
    (hn : NamesAuthority a method isH1 request.parts.uri)
    (hs : ∀ connection ∈ connections, connection.serves hint)
    (h : request.sendOnEach fullUri connections = .ok wire) :
    NamesAuthority a method
      ((connections.getLast?.map fun connection => decide (connection = .h1)).getD isH1)
      wire.parts.uri := by
  induction connections generalizing request isH1 with
  | nil =>
    cases h
    exact hn
  | cons connection connections ih =>
    unfold PlannedRequest.sendOnEach at h
    rw [List.foldlM_cons, bind_eq_ok] at h
    obtain ⟨sent, hsen, h⟩ := h
    obtain ⟨ha', hn'⟩ := haim.sendOn ha (hs connection (by simp)) hsen
    have hr := ih ha' hn' (fun c hc => hs c (List.mem_cons_of_mem _ hc)) h
    rw [List.getLast?_cons]
    cases hl : connections.getLast? with
    | none | some last =>
      rw [hl] at hr
      exact hr

end

section

variable [UriLibrary]

lemma valid_of_fromParts {scheme : Option Bytes} {authority : Option Authority}
    {p : PathAndQuery} {uri : Uri} (haut : ∀ {a}, authority = some a → IsParsed a)
    (h : UriParser.fromParts scheme authority (some p) = .ok uri) : uri.Valid where
  authority := by
    intro a ha
    rw [fromParts_authority h] at ha
    exact haut ha
  rooted := by
    intro q hq hp
    rw [fromParts_pathAndQuery h] at hq
    cases hq
    exact UriLibrary.fromParts_rooted h hp

variable {parts rewritten : Parts} {rewrite : ForwardRewrite} {result : ForwardRewriteResult}
  {inbound hosted : HeaderMap}

lemma Rewrites.result_uri (h : Rewrites parts rewrite rewritten result inbound hosted)
    (hu : rewrite.upstream.Valid) :
    (∃ scheme, result.uri.scheme = some scheme) ∧ result.uri.Valid := by
  obtain ⟨authority, huri, -⟩ := h.upstream
  unfold upstreamUri at huri
  simp only [bind_eq_ok, okOr_eq_ok, mapError_eq_ok] at huri
  obtain ⟨scheme, -, authority', haut, path, -, uri, huri, hr⟩ := huri
  obtain rfl : uri = result.uri := (Prod.mk.inj (ok.inj hr)).1
  refine ⟨⟨scheme, fromParts_scheme huri⟩, valid_of_fromParts ?_ huri⟩
  intro a ha
  cases ha
  exact hu.authority haut

lemma Rewrites.uri_valid (h : Rewrites parts rewrite rewritten result inbound hosted)
    (hu : rewrite.upstream.Valid) : rewritten.uri.Valid := by
  obtain ⟨-, hv⟩ := h.result_uri hu
  have huri := h.uri
  unfold rewrittenTarget at huri
  split at huri
  · unfold requestUri at huri
    rw [mapError_eq_ok] at huri
    exact valid_of_fromParts hv.authority huri
  · rw [← ok.inj huri]
    refine ⟨fun ha => ?_, fun hp hpat => ?_⟩
    · cases ha
    · exact absurd hpat (by decide)
  · rw [← ok.inj huri]
    exact hv

end

section

variable [UriLibrary] [UrlSafeNoPad] {builder : ForwardBuilder} {engine : Engine}
  {rewritten finalized : Parts} {plan : ForwardDispatchPlan} {planned : PlannedRequest}
  {upstream : Uri} {result : ForwardRewriteResult} {connectProtocol : Option Bytes}
  {d : Decisions}

section

variable (h : Plans builder engine rewritten finalized plan planned upstream result connectProtocol)

include h

lemma Plans.planning_parsed (hreq : builder.request.uri.Valid) (hu : upstream.Valid) :
    (builder.planning engine connectProtocol rewritten result).Parsed := by
  obtain ⟨inbound, hosted, hr⟩ := rewriteForUpstream_eq_ok h.rewrite
  obtain ⟨hs, hv⟩ := hr.result_uri hu
  refine ⟨hs, hv.authority, ?_⟩
  intro a ha
  obtain ⟨host, hh, huri | hf⟩ :=
    InboundRequestTarget.capture_preservedAuthority hr.target ha
  · exact hreq.authority huri
  · exact singleHostField_parsed hh hf

lemma Plans.planned_eq :
    planned.parts.uri = plan.requestUri ∧ planned.parts.method = finalized.method ∧
      planned.deferredTarget = plan.deferredTarget ∧
      planned.signingTarget = plan.signingTarget := by
  obtain ⟨checked, signed, -, -, rfl⟩ := ForwardBuilder.finish_eq_ok h.finish
  exact ⟨rfl, rfl, rfl, rfl⟩

/-- What a plan leaves to a connection is for the connections of its hint. -/
lemma Plans.aims
    (hf : Finalizes (builder.runHook rewritten)
      (builder.planning engine connectProtocol rewritten result) finalized plan d)
    (hargs : (builder.planning engine connectProtocol rewritten result).Parsed)
    (hparts : (builder.runHook rewritten).uri.Valid) :
    planned.Aims d.wireAuthority (builder.runHook rewritten).method plan.protocolHint := by
  obtain ⟨hu, hm, ht, -⟩ := h.planned_eq
  have hn := hf.requestUri_names hargs hparts
  have hm : planned.parts.method = (builder.runHook rewritten).method := by
    rw [hm, hf.others]
  have hh := hf.protocolHint
  have hd := hf.deferredTarget
  unfold protocolHint at hh
  unfold Forward.deferredTarget at hd
  -- a plan that does not negotiate has its target, and its connections are of one kind
  have hset : ∀ kind : Bool, d.egress ≠ .negotiated →
      (!d.egress.isH2OrH3) = kind →
      (∀ connection : Connection, connection.serves plan.protocolHint →
        decide (connection = .h1) = kind) →
      planned.Aims d.wireAuthority (builder.runHook rewritten).method plan.protocolHint := by
    intro kind he hk hs
    rw [if_neg he] at hd
    have hnone : planned.deferredTarget = none := ht.trans (ok.inj hd).symm
    refine ⟨hm, ?_, ?_⟩
    · intro connection hc
      unfold PlannedRequest.targetedParts
      rw [hnone, hs connection hc, ← hk]
      rw [hu]
      exact hn
    · intro _ connection connection' hc hc'
      rw [← decide_eq_decide, hs connection hc, hs connection' hc']
  cases he : d.egress with
  | negotiated =>
    obtain ⟨target, hsome, ha⟩ := hf.deferredTarget_names hargs hparts he
    rw [hsome] at ht
    refine ⟨hm, ?_, ?_⟩
    · intro connection _
      unfold PlannedRequest.targetedParts
      rw [ht]
      exact ha planned.parts connection
    · intro hnone
      rw [ht] at hnone
      cases hnone
  | http1 =>
    rw [he] at hh hset
    refine hset true (by decide) rfl fun connection hs => ?_
    rw [hh] at hs
    exact hs
  | http2 =>
    rw [he] at hh hset
    refine hset false (by decide) rfl fun connection hs => ?_
    dsimp only at hh
    split at hh
    all_goals
      rw [hh] at hs
      simpa [serves] using hs
  | http3 =>
    rw [he] at hh hset
    refine hset false (by decide) rfl fun connection hs => ?_
    rw [hh] at hs
    simpa [serves] using hs

end

/-- A plan, what it signs and what a connection is handed speak of one authority, and so do both
sides of an inbound request that names its authority twice. -/
theorem plan_names_one_authority (hplan : builder.plan engine = .ok (plan, planned))
    (hrequest : builder.request.uri.Valid)
    (hupstream : ∀ upstream, builder.upstream = some upstream → upstream.Valid)
    (hhook : ∀ parts, parts.uri.Valid → (builder.runHook parts).uri.Valid) :
    (∃ authority : Authority,
      planned.signingTarget.targetUri.authority = some authority ∧
      (∀ a, planned.parts.uri.authority = some a → a = authority) ∧
      ∀ (connections : List Connection) (wire : PlannedRequest),
        (∀ connection ∈ connections, connection.serves plan.protocolHint = true) →
        planned.sendOnEach plan.fullUri connections = .ok wire →
        (∃ host : HeaderValue, host.bytes = authority.text ∧
          wire.parts.headers.getAll .host = [host]) ∧
        (wire.parts.uri.authority = some authority ∨ wire.parts.uri.authority = none ∧
          ∀ connection, connections.getLast? = some connection → connection ≠ .h1 →
            wire.parts.uri.path = ascii "*")) ∧
    (∀ a, builder.request.version.isH2OrH3 = true → builder.request.uri.authority = some a →
      builder.request.headers.getAll .host ≠ [] →
      ∃ (line : HeaderValue) (host : Authority), builder.request.headers.getAll .host = [line] ∧
        UriParser.parseAuthority line.bytes = .ok host ∧
        SameAuthority builder.request.uri.scheme a host) := by
  obtain ⟨rewritten, finalized, upstream, result, connectProtocol, hp⟩ := plans_of_plan hplan
  obtain ⟨d, hf⟩ := finalize_eq_ok hp.finalize
  obtain ⟨inbound, hosted, hr⟩ := rewriteForUpstream_eq_ok hp.rewrite
  have hupstream := hupstream upstream hp.configured
  have hargs := hp.planning_parsed hrequest hupstream
  have hparts := hhook rewritten (hr.uri_valid hupstream)
  have hpar := hf.wireAuthority_parsed hargs hparts
  obtain ⟨hu, -, -, hs⟩ := hp.planned_eq
  obtain ⟨hh, hsch, -⟩ := canonicalizeHttpUri_eq_ok hf.canonical
  have hn := hf.requestUri_names hargs hparts
  constructor
  · refine ⟨d.wireAuthority, ?_, ?_, ?_⟩
    · rw [hs]
      exact signingTargetUri_authority hh hsch hpar hf.signingTarget
    · intro a ha
      rw [hu] at ha
      rcases hn with ⟨haut, -⟩ | ⟨-, hnone, -⟩
      · exact Option.some.inj (ha.symm.trans haut)
      · rw [hnone] at ha
        cases ha
    intro connections wire hser hsen
    have haim := hp.aims hf hargs hparts
    rw [← hu] at hn
    refine ⟨(hp.unsmuggled hf (hp.carries.sendOnEach hsen)).host, ?_⟩
    rcases haim.sendOnEach hpar hn hser hsen with
      ⟨haut, -⟩ | ⟨-, haut, hk⟩
    · exact .inl haut
    refine .inr ⟨haut, fun connection hlas hc => ?_⟩
    rw [hlas] at hk
    refine (hk.resolve_left ?_).2
    simpa using hc
  · intro a hv ha hhos
    have hl := validateInboundRequestHeaders_getAll hr.accepted
      (show HeaderName.host ≠ .contentLength by decide)
    have hsam := InboundRequestTarget.capture_sameAuthority hr.target hv ha
      (hrequest.authority ha) (by rw [hl]; exact hhos)
    rw [hl] at hsam
    exact hsam

end

def h2Request : Parts where
  method := .get
  uri := { plainUpstream with
    authority := some ⟨ascii "shop.example", ascii "shop.example", none⟩ }
  version := .http2
  headers := ⟨[(.host, shopHost)]⟩

def h2Forward : ForwardBuilder :=
  { ForwardBuilder.new h2Request true none with
    upstream := some plainUpstream, preserveHost := true }

def h2Plan : Except Error (ForwardDispatchPlan × PlannedRequest) :=
  @ForwardBuilder.plan PlainUri.library.toUriParser urlSafeNoPad h2Forward {}

lemma h2Plan_isOk : h2Plan.isOk := by decide

lemma plainUri_valid (host : Bytes) (h : !host.isEmpty && host.all PlainUri.isHostByte) :
    @Uri.Valid PlainUri.library.toUriParser
      { plainUpstream with authority := some ⟨host, host, none⟩ } := by
  let := PlainUri.library
  constructor
  · intro a ha
    cases ha
    exact if_pos h
  · intro p hp _
    cases hp
    exact .inl rfl

theorem plan_names_one_authority_preserved : ∃ plan planned, ∃ authority : Authority,
    h2Plan = .ok (plan, planned) ∧
    planned.signingTarget.targetUri.authority = some authority ∧
    (∃ (line : HeaderValue) (host : Authority), h2Request.headers.getAll .host = [line] ∧
      PlainUri.parseAuthority line.bytes = .ok host ∧
      SameAuthority h2Request.uri.scheme ⟨ascii "shop.example", ascii "shop.example", none⟩
        host) := by
  cases hp : h2Plan with
  | error e =>
    have hok := h2Plan_isOk
    rw [hp] at hok
    cases hok
  | ok result =>
    obtain ⟨plan, planned⟩ := result
    let := PlainUri.library
    let := urlSafeNoPad
    obtain ⟨⟨authority, hs, -⟩, hi⟩ := plan_names_one_authority hp
      (plainUri_valid _ (by decide))
      (by
        intro upstream hu
        cases hu
        exact plainUri_valid _ (by decide))
      (fun parts hv => hv)
    exact ⟨plan, planned, authority, rfl, hs, hi _ rfl rfl (by decide)⟩

end Aioduct.Forward
