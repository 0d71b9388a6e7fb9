import Aioduct.Forward.Planned

/-!
# From the plan to the wire

After planning only the framing, the `TE` field and the signatures are written.
-/

namespace Aioduct.Forward

open Wire Http MessageFraming FieldPolicy MultiMap ForwardBuilder List HeaderName Except
open MessageSignatures (signatureName signatureInputName)

variable {keys fields : List HeaderName} {context : Bytes} {length bodySize : Option UInt64}
  {headers' checked signed applied finalized : HeaderMap} {request planned wire : PlannedRequest}
  {deferredTe : DeferredTe} {connection : Connection} {connections : List Connection}

/-! ### Framing -/

def framingFields : List HeaderName := [.trailer, .transferEncoding, .contentLength]

lemma applyHttp11RequestFraming_agreeOff (headers : HeaderMap) (hasBody declared : Bool) :
    AgreeOff framingFields headers
      (applyHttp11RequestFraming headers hasBody declared) := by
  have hc := agreeOff_remove (show .transferEncoding ∈ framingFields by decide) headers
  unfold applyHttp11RequestFraming
  dsimp only
  split
  · exact hc.trans (agreeOff_remove (by decide) _)
  · split
    · exact (hc.trans (agreeOff_remove (by decide) _)).trans (agreeOff_insert (by decide) _ _)
    · exact hc

lemma containsKey_contentLength_remove (headers : HeaderMap) :
    (headers.remove .transferEncoding).containsKey .contentLength =
      headers.containsKey .contentLength :=
  containsKey_congr (getAll_remove_of_ne (by decide) _)

lemma applyHttp11RequestFraming_transferEncoding (headers : HeaderMap) (hasBody declared : Bool) :
    (applyHttp11RequestFraming headers hasBody declared).getAll .transferEncoding =
      if hasBody && (declared || !headers.containsKey .contentLength) then [chunkedValue]
      else [] := by
  unfold applyHttp11RequestFraming
  dsimp only
  rw [containsKey_contentLength_remove]
  cases hasBody with
  | false => simp (disch := decide)
  | true => cases declared || !headers.containsKey .contentLength <;> simp

lemma applyHttp11RequestFraming_contentLength (headers : HeaderMap) (hasBody declared : Bool) :
    (applyHttp11RequestFraming headers hasBody declared).getAll .contentLength =
      if hasBody && declared then [] else headers.getAll .contentLength := by
  unfold applyHttp11RequestFraming
  dsimp only
  rw [containsKey_contentLength_remove]
  cases hasBody with
  | false => simp (disch := decide)
  | true =>
    cases declared with
    | true => simp (disch := decide)
    | false =>
      cases hc : headers.containsKey .contentLength with
      | true => simp (disch := decide)
      | false => simp (disch := decide) [containsKey_eq_false.mp hc]

namespace DeferredForwardFraming

variable (framing : DeferredForwardFraming) (headers : HeaderMap) (version : Version)

lemma announced_getAll {name : HeaderName} (hn : name ≠ .trailer) :
    (if !framing.hasBody then headers.remove .trailer else headers).getAll name =
      headers.getAll name := by
  split
  · exact getAll_remove_of_ne hn _
  · rfl

lemma apply_agreeOff : AgreeOff framingFields headers (framing.apply headers version) := by
  have ha : AgreeOff framingFields headers
      (if !framing.hasBody then headers.remove .trailer else headers) := by
    split
    · exact agreeOff_remove (by decide) _
    · exact .refl _ _
  unfold apply
  dsimp only
  split
  · exact ha.trans (agreeOff_remove (by decide) _)
  · exact ha.trans (applyHttp11RequestFraming_agreeOff _ _ _)

lemma apply_transferEncoding :
    (framing.apply headers version).getAll .transferEncoding =
      if !version.isH2OrH3 && framing.hasBody &&
          (framing.hasTrailerDeclaration || !headers.containsKey .contentLength)
        then [chunkedValue] else [] := by
  have hlen := containsKey_congr
    (announced_getAll framing headers (show contentLength ≠ .trailer by decide))
  unfold apply
  cases version.isH2OrH3 with
  | true => simp
  | false =>
    rw [if_neg Bool.false_ne_true, applyHttp11RequestFraming_transferEncoding, hlen]
    rfl

lemma apply_contentLength :
    (framing.apply headers version).getAll .contentLength =
      if !version.isH2OrH3 && framing.hasBody && framing.hasTrailerDeclaration then []
      else headers.getAll .contentLength := by
  have hlen := announced_getAll framing headers (show contentLength ≠ .trailer by decide)
  unfold apply
  cases version.isH2OrH3 with
  | true =>
    rw [if_pos rfl, getAll_remove_of_ne (by decide), hlen]
    rfl
  | false =>
    rw [if_neg Bool.false_ne_true, applyHttp11RequestFraming_contentLength, hlen]
    rfl

lemma apply_trailer : (framing.apply headers version).getAll .trailer =
    if framing.hasBody then headers.getAll .trailer else [] := by
  unfold apply applyHttp11RequestFraming
  cases framing.hasBody with
  | false => cases version.isH2OrH3 <;> simp (disch := decide)
  | true =>
    simp only [Bool.not_true, Bool.false_eq_true, if_false, if_true]
    split
    · exact getAll_remove_of_ne (by decide) _
    · split <;> simp (disch := decide)

end DeferredForwardFraming

structure Framed (headers : HeaderMap) : Prop where
  te : headers.getAll .te = [] ∨ headers.getAll .te = [trailersValue]
  coding : headers.getAll .transferEncoding = [] ∨
    headers.getAll .transferEncoding = [chunkedValue]
  length : (headers.getAll .contentLength).length ≤ 1
  exclusive : headers.getAll .transferEncoding = [] ∨ headers.getAll .contentLength = []

namespace Framed

variable {headers headers' : HeaderMap}

lemma congr (h : Framed headers) (hk : ∀ name ∈
    [.te, .transferEncoding, .contentLength], name ∉ keys)
    (ha : AgreeOff keys headers headers') : Framed headers' := by
  have hte := ha .te (hk _ (by simp))
  have hc := ha .transferEncoding (hk _ (by simp))
  have hlen := ha .contentLength (hk _ (by simp))
  obtain ⟨h₁, h₂, h₃, h₄⟩ := h
  exact ⟨by rwa [hte], by rwa [hc], by rwa [hlen], by rwa [hc, hlen]⟩

lemma withTe (h : Framed headers) (ha : AgreeOff [.te, .connection] headers headers')
    (hte : headers'.getAll .te = [] ∨ headers'.getAll .te = [trailersValue]) :
    Framed headers' := by
  have hc := ha .transferEncoding (by decide)
  have hlen := ha .contentLength (by decide)
  obtain ⟨-, h₂, h₃, h₄⟩ := h
  exact ⟨hte, by rwa [hc], by rwa [hlen], by rwa [hc, hlen]⟩

lemma frame (h : Framed headers) (framing : DeferredForwardFraming) (version : Version) :
    Framed (framing.apply headers version) := by
  refine ⟨?_, ?_, ?_, ?_⟩
  · rw [framing.apply_agreeOff headers version .te (by decide)]
    exact h.te
  · rw [framing.apply_transferEncoding]
    split
    · exact .inr rfl
    · exact .inl rfl
  · rw [framing.apply_contentLength]
    split
    · exact Nat.zero_le _
    · exact h.length
  -- a chunked body has no length: it was declared away, or there was none
  rw [framing.apply_transferEncoding, framing.apply_contentLength]
  cases !version.isH2OrH3 && framing.hasBody with
  | false => simp
  | true =>
    cases framing.hasTrailerDeclaration with
    | true => simp
    | false =>
      cases hc : headers.containsKey .contentLength with
      | true => simp
      | false =>
        simpa using containsKey_eq_false.mp hc

lemma normalize (h : Framed headers)
    (hn : normalizeContentLength headers context = .ok (headers', length)) :
    Framed headers' := by
  have hte := normalizeContentLength_getAll hn (show HeaderName.te ≠ .contentLength by decide)
  have hc := normalizeContentLength_getAll hn (show transferEncoding ≠ .contentLength by decide)
  obtain ⟨ho, hnone⟩ := normalizeContentLength_contentLength hn
  obtain ⟨h₁, h₂, -, h₄⟩ := h
  refine ⟨by rwa [hte], by rwa [hc], ho, ?_⟩
  rw [hc]
  exact h₄.imp_right hnone

end Framed

variable {headers : HeaderMap} {builder : ForwardBuilder} {engine : Engine} {name : HeaderName}

lemma normalizeContentLength_agreeOff
    (h : normalizeContentLength headers context = .ok (headers', length)) :
    AgreeOff [.contentLength] headers headers' := by
  intro name hn
  exact normalizeContentLength_getAll h (by simpa using hn)

/-! ### Before a connection is chosen -/

lemma framingFor_eq (headers : HeaderMap) (bodyIsEndStream : Bool) :
    ForwardDispatchPlan.framingFor headers bodyIsEndStream =
      (if bodyIsEndStream then headers.remove .trailer else headers,
        ⟨!bodyIsEndStream,
          (if bodyIsEndStream then headers.remove .trailer else headers).containsKey .trailer⟩) :=
  rfl

lemma framingFor_agreeOff (headers : HeaderMap) (bodyIsEndStream : Bool) :
    AgreeOff [.trailer] headers
      (ForwardDispatchPlan.framingFor headers bodyIsEndStream).1 := by
  rw [framingFor_eq]
  split
  · exact agreeOff_remove (by simp) _
  · exact .refl _ _

namespace ForwardDispatchPlan

variable (plan : ForwardDispatchPlan) (parts : Parts) (bodyIsEndStream : Bool)

lemma apply_headers : (plan.apply parts bodyIsEndStream).parts.headers =
    if !plan.negotiatedFraming && plan.requestVersion = .http11 then
      (framingFor parts.headers bodyIsEndStream).2.apply
        (framingFor parts.headers bodyIsEndStream).1 plan.requestVersion
    else (framingFor parts.headers bodyIsEndStream).1 := rfl

lemma apply_agreeOff :
    AgreeOff framingFields parts.headers
      (plan.apply parts bodyIsEndStream).parts.headers := by
  have ha := (framingFor_agreeOff parts.headers bodyIsEndStream).mono
    (show ∀ name ∈ [.trailer], name ∈ framingFields by decide)
  rw [plan.apply_headers]
  split
  · exact ha.trans (DeferredForwardFraming.apply_agreeOff _ _ _)
  · exact ha

lemma apply_framed {parts : Parts} (h : Framed parts.headers) :
    Framed (plan.apply parts bodyIsEndStream).parts.headers := by
  have ha : Framed (framingFor parts.headers bodyIsEndStream).1 :=
    h.congr (by decide) (framingFor_agreeOff _ _)
  rw [plan.apply_headers]
  split
  · exact ha.frame _ _
  · exact ha

lemma apply_contentLength :
    (plan.apply parts bodyIsEndStream).parts.headers.getAll .contentLength =
      if !plan.negotiatedFraming && plan.requestVersion = .http11 && !bodyIsEndStream &&
          parts.headers.containsKey .trailer then []
      else parts.headers.getAll .contentLength := by
  have hlen := framingFor_agreeOff parts.headers bodyIsEndStream .contentLength (by decide)
  rw [plan.apply_headers]
  split
  next hf =>
    rw [DeferredForwardFraming.apply_contentLength, hlen, framingFor_eq]
    simp only [Bool.and_eq_true, decide_eq_true_eq] at hf
    rw [hf.2]
    cases bodyIsEndStream <;> simp [hf.1, Version.isH2OrH3]
  rename_i hf
  rw [hlen, if_neg]
  intro hc
  simp only [Bool.and_eq_true] at hc
  exact hf (by simpa using hc.1.1)

lemma apply_trailer :
    (plan.apply parts bodyIsEndStream).parts.headers.getAll .trailer =
        parts.headers.getAll .trailer ∨
      (plan.apply parts bodyIsEndStream).parts.headers.getAll .trailer = [] := by
  have ha : (framingFor parts.headers bodyIsEndStream).1.getAll .trailer =
      parts.headers.getAll .trailer ∨
      (framingFor parts.headers bodyIsEndStream).1.getAll .trailer = [] := by
    cases bodyIsEndStream with
    | false => exact .inl rfl
    | true => exact .inr (getAll_remove_self _ _)
  rw [plan.apply_headers]
  split
  · rw [DeferredForwardFraming.apply_trailer]
    split
    · exact ha
    · exact .inr rfl
  · exact ha

end ForwardDispatchPlan

lemma validateForwardContentLength_eq_ok
    (h : validateForwardContentLength headers bodySize = .ok checked) :
    ∃ length, normalizeContentLength headers (ascii "forwarded request") = .ok (checked, length) := by
  unfold validateForwardContentLength at h
  rw [bind_eq_ok] at h
  obtain ⟨⟨normalized, length⟩, hn, h⟩ := h
  dsimp only at h
  split at h
  · obtain ⟨⟨⟩, -, h⟩ := bind_eq_ok.mp h
    cases h
    exact ⟨_, hn⟩
  · cases h
    exact ⟨_, hn⟩

def ForwardBuilder.signedFields (builder : ForwardBuilder) (engine : Engine) : List HeaderName :=
  if builder.signFinalRequest && engine.messageSignature.isSome then
    [signatureName, signatureInputName] else []

lemma signRequest_agreeOff
    (h : engine.signRequest builder.signFinalRequest request headers = .ok signed) :
    AgreeOff (builder.signedFields engine) headers signed := by
  unfold Engine.signRequest at h
  unfold signedFields
  cases hsig : builder.signFinalRequest with
  | false =>
    rw [hsig] at h
    rw [ok.inj h]
    exact .refl _ _
  | true =>
    rw [hsig] at h
    cases hs : engine.messageSignature with
    | none =>
      rw [hs] at h
      rw [ok.inj h]
      exact .refl _ _
    | some signer =>
      rw [hs] at h
      exact signer.sign_agreeOff h

lemma projectDeferredHeadersForSignature_cases (request : PlannedRequest) (headers : HeaderMap) :
    request.projectDeferredHeadersForSignature headers = headers ∨
      request.projectDeferredHeadersForSignature headers = headers.insert .te trailersValue := by
  unfold PlannedRequest.projectDeferredHeadersForSignature DeferredTe.projectForSignature
  split
  · split
    · exact .inr rfl
    · exact .inr rfl
    · exact .inl rfl
  · exact .inl rfl

lemma ForwardBuilder.finish_eq_ok (h : builder.finish engine request = .ok planned) :
    ∃ checked signed, (∃ length, normalizeContentLength request.parts.headers
        (ascii "forwarded request") = .ok (checked, length)) ∧
      engine.signRequest builder.signFinalRequest request
        (request.projectDeferredHeadersForSignature checked) = .ok signed ∧
      planned = request.withHeaders signed := by
  unfold finish at h
  simp only [bind_eq_ok] at h
  obtain ⟨checked, hc, ⟨⟩, -, signed, hs, h⟩ := h
  exact ⟨checked, signed, validateForwardContentLength_eq_ok hc, hs, (ok.inj h).symm⟩

lemma signedFields_notMem (hs : name ≠ signatureName) (hi : name ≠ signatureInputName) :
    name ∉ builder.signedFields engine := by
  unfold signedFields
  split <;> simp [hs, hi]

section

variable {builder : ForwardBuilder} {engine : Engine} {request planned : PlannedRequest}

section

variable (h : builder.finish engine request = .ok planned)

include h

lemma ForwardBuilder.finish_agreeOff :
    AgreeOff ([.te, .contentLength] ++ builder.signedFields engine)
      request.parts.headers planned.parts.headers := by
  obtain ⟨checked, signed, ⟨length, hn⟩, hs, rfl⟩ := finish_eq_ok h
  have hc := (normalizeContentLength_agreeOff hn).mono
    (show ∀ name ∈ [.contentLength],
      name ∈ [.te, .contentLength] ++ builder.signedFields engine by simp)
  have hp : AgreeOff ([.te, .contentLength] ++ builder.signedFields engine)
      checked (request.projectDeferredHeadersForSignature checked) := by
    rcases projectDeferredHeadersForSignature_cases request checked with heq | heq
    · rw [heq]
      exact .refl _ _
    · rw [heq]
      exact agreeOff_insert (by simp) _ _
  exact (hc.trans hp).trans
    ((signRequest_agreeOff hs).mono fun name hnam => mem_append_right _ hnam)

lemma ForwardBuilder.finish_contentLength_eq :
    ∃ checked, (∃ length, normalizeContentLength request.parts.headers
        (ascii "forwarded request") = .ok (checked, length)) ∧
      planned.parts.headers.getAll .contentLength = checked.getAll .contentLength := by
  obtain ⟨checked, signed, hn, hs, rfl⟩ := finish_eq_ok h
  refine ⟨checked, hn, ?_⟩
  have hlen := signRequest_agreeOff hs .contentLength (signedFields_notMem (by decide) (by decide))
  refine hlen.trans ?_
  rcases projectDeferredHeadersForSignature_cases request checked with heq | heq
  · rw [heq]
  · rw [heq, getAll_insert_of_ne (by decide)]

lemma ForwardBuilder.finish_contentLength
    (hnone : request.parts.headers.getAll .contentLength = []) :
    planned.parts.headers.getAll .contentLength = [] := by
  obtain ⟨checked, ⟨length, hn⟩, heq⟩ := finish_contentLength_eq h
  rw [heq]
  exact (normalizeContentLength_contentLength hn).2 hnone

lemma ForwardBuilder.finish_framed (hf : Framed request.parts.headers) :
    Framed planned.parts.headers := by
  obtain ⟨checked, signed, ⟨length, hnor⟩, hs, rfl⟩ := finish_eq_ok h
  have hc := hf.normalize hnor
  have hp : Framed (request.projectDeferredHeadersForSignature checked) := by
    rcases projectDeferredHeadersForSignature_cases request checked with heq | heq
    · rw [heq]
      exact hc
    · rw [heq]
      apply hc.withTe (agreeOff_insert (by simp) _ _)
      exact .inr (getAll_insert_self _ _ _)
  apply hp.congr _ (signRequest_agreeOff hs)
  intro name hn
  simp only [mem_cons, not_mem_nil, or_false] at hn
  rcases hn with rfl | rfl | rfl <;> exact signedFields_notMem (by decide) (by decide)

end

end

/-! ### On a connection -/

lemma applyDeferredTe_cases (h : applyDeferredTe deferredTe headers connection = .ok applied) :
    applied = headers.remove .te ∨
      applied = (headers.remove .te).insert .te trailersValue ∨
      applied = restoreH1TeTrailers (headers.remove .te) := by
  unfold applyDeferredTe at h
  cases connection <;> cases deferredTe
  case h1.trailersForH2OrH3 =>
    dsimp only at h
    split at h <;> cases h
    exact .inl rfl
  all_goals cases h
  all_goals simp

/-- The `TE` field is written anew, on HTTP/1.1 with the option that goes with it. -/
lemma applyDeferredTe_eq_ok (h : applyDeferredTe deferredTe headers connection = .ok applied) :
    AgreeOff [.te, .connection] headers applied ∧
      (applied.getAll .te = [] ∨ applied.getAll .te = [trailersValue]) ∧
      (applied.getAll .connection = headers.getAll .connection ∨
        applied.getAll .connection = [connectionTe]) := by
  have hr := agreeOff_remove (show .te ∈ [.te, .connection] by simp) headers
  have hc : (headers.remove .te).getAll .connection = headers.getAll .connection :=
    getAll_remove_of_ne (by decide) _
  rcases applyDeferredTe_cases h with rfl | rfl | rfl
  · exact ⟨hr, .inl (getAll_remove_self _ _), .inl hc⟩
  · refine ⟨hr.trans (agreeOff_insert (by simp) _ _), .inr (getAll_insert_self _ _ _), .inl ?_⟩
    rw [getAll_insert_of_ne (by decide), hc]
  · refine ⟨hr.trans ?_, .inr (restoreH1TeTrailers_te _), .inr (restoreH1TeTrailers_connection _)⟩
    exact (agreeOff_insert (by simp) _ _).trans (agreeOff_insert (by simp) _ _)

namespace PlannedRequest

structure Decides (request : PlannedRequest) (connection : Connection)
    (applied headers : HeaderMap) : Prop where
  te : request.deferredTe = none ∧ applied = request.parts.headers ∨
    ∃ deferredTe, request.deferredTe = some deferredTe ∧
      applyDeferredTe deferredTe request.parts.headers connection = .ok applied
  framing : request.framing = none ∧ headers = applied ∨
    ∃ framing, request.framing = some framing ∧
      headers = framing.apply applied connection.version

variable {request : PlannedRequest} {connection : Connection} {headers applied : HeaderMap}

lemma decides_of_deferredTeHeaders (h : request.deferredTeHeaders connection = .ok applied) :
    request.Decides connection applied (request.framedHeaders applied connection) := by
  unfold deferredTeHeaders at h
  unfold framedHeaders
  constructor
  · cases hd : request.deferredTe with
    | none =>
      rw [hd] at h
      exact .inl ⟨rfl, (ok.inj h).symm⟩
    | some deferredTe =>
      rw [hd] at h
      exact .inr ⟨deferredTe, rfl, h⟩
  · cases hf : request.framing with
    | none => exact .inl ⟨rfl, rfl⟩
    | some framing => exact .inr ⟨framing, rfl, rfl⟩

section

variable (h : request.Decides connection applied headers)

include h

lemma Decides.applied_agreeOff : AgreeOff [.te, .connection] request.parts.headers applied := by
  rcases h.te with ⟨-, rfl⟩ | ⟨deferredTe, -, hte⟩
  · exact .refl _ _
  · exact (applyDeferredTe_eq_ok hte).1

lemma Decides.headers_agreeOff : AgreeOff framingFields applied headers := by
  rcases h.framing with ⟨-, rfl⟩ | ⟨framing, -, rfl⟩
  · exact .refl _ _
  · exact framing.apply_agreeOff _ _

lemma Decides.agreeOff :
    AgreeOff ([.te, .connection] ++ framingFields) request.parts.headers headers :=
  (h.applied_agreeOff.mono fun _ hn => mem_append_left _ hn).trans
    (h.headers_agreeOff.mono fun _ hn => mem_append_right _ hn)

lemma Decides.connection_getAll :
    headers.getAll .connection = request.parts.headers.getAll .connection ∨
      headers.getAll .connection = [connectionTe] := by
  rw [h.headers_agreeOff .connection (by decide)]
  rcases h.te with ⟨-, rfl⟩ | ⟨deferredTe, -, hte⟩
  · exact .inl rfl
  · exact (applyDeferredTe_eq_ok hte).2.2

lemma Decides.trailer :
    headers.getAll .trailer = request.parts.headers.getAll .trailer ∨
      headers.getAll .trailer = [] := by
  rw [← h.applied_agreeOff .trailer (by decide)]
  rcases h.framing with ⟨-, rfl⟩ | ⟨framing, -, rfl⟩
  · exact .inl rfl
  rw [framing.apply_trailer]
  split
  · exact .inl rfl
  · exact .inr rfl

lemma Decides.contentLength :
    headers.getAll .contentLength = request.parts.headers.getAll .contentLength ∨
      headers.getAll .contentLength = [] := by
  rw [← h.applied_agreeOff .contentLength (by decide)]
  rcases h.framing with ⟨-, rfl⟩ | ⟨framing, -, rfl⟩
  · exact .inl rfl
  rw [framing.apply_contentLength]
  split
  · exact .inr rfl
  · exact .inl rfl

lemma Decides.framed (hf : Framed request.parts.headers) : Framed headers := by
  have happ : Framed applied := by
    rcases h.te with ⟨-, rfl⟩ | ⟨deferredTe, -, hte⟩
    · exact hf
    · obtain ⟨ha, hv, -⟩ := applyDeferredTe_eq_ok hte
      exact hf.withTe ha hv
  rcases h.framing with ⟨-, rfl⟩ | ⟨framing, -, rfl⟩
  · exact happ
  · exact happ.frame _ _

end

structure SendsOn [UriParser] (request : PlannedRequest) (fullUri : Uri) (connection : Connection)
    (wire : PlannedRequest) (applied headers : HeaderMap) : Prop where
  decides : request.Decides connection applied headers
  checked : ∃ length, validateFinalRequestHeaders connection.version headers =
    .ok (wire.parts.headers, length)
  uri : prepareRequestTargetForConnection
    { request.targetedParts connection with headers := wire.parts.headers } connection fullUri =
      .ok wire.parts.uri
  wire : wire = { request with
    parts := { request.targetedParts connection with
      uri := wire.parts.uri, headers := wire.parts.headers }
    trailers := request.trailers.map fun policy => policy.selectForVersion connection.version }

lemma sendOn_eq_ok [UriParser] {fullUri : Uri} (h : request.sendOn fullUri connection = .ok wire) :
    ∃ applied headers, request.SendsOn fullUri connection wire applied headers := by
  unfold sendOn finalizeDeferredRequestHeaders at h
  simp only [bind_eq_ok] at h
  obtain ⟨final, ⟨applied, ha, ⟨checked, length⟩, hc, hf⟩, uri, hu, h⟩ := h
  cases hf
  cases h
  exact ⟨applied, _, decides_of_deferredTeHeaders ha, ⟨length, hc⟩, hu, rfl⟩

section

variable [UriParser] {fullUri : Uri} {wire : PlannedRequest}

section

variable (h : request.SendsOn fullUri connection wire applied headers)

include h

lemma SendsOn.normalized :
    ∃ length, normalizeContentLength headers (ascii "forwarded request") =
      .ok (wire.parts.headers, length) := by
  obtain ⟨length, hc⟩ := h.checked
  exact ⟨length, (validateRequestHeaders_eq_ok hc).1⟩

lemma SendsOn.getAll_eq (hn : name ≠ .contentLength) :
    wire.parts.headers.getAll name = headers.getAll name := by
  obtain ⟨length, hnor⟩ := h.normalized
  exact normalizeContentLength_getAll hnor hn

lemma SendsOn.getAll_connectionSpecific (hc : connection ≠ .h1)
    (hn : isConnectionSpecific name) : wire.parts.headers.getAll name = [] := by
  obtain ⟨length, hchk⟩ := h.checked
  have hlen : name ≠ .contentLength := by
    rintro rfl
    cases hn
  rw [h.getAll_eq hlen]
  obtain ⟨-, hb⟩ := validateRequestHeaders_eq_ok hchk
  cases connection with
  | h1 => exact absurd rfl hc
  | h2 | h3 => exact getAll_of_validateHeaders (hb rfl) hn

end

/-- What holds of the header fields of a request and is kept by a connection. -/
structure Carries (finalized : HeaderMap) (fields : List HeaderName) (request : PlannedRequest) :
    Prop where
  framed : Framed request.parts.headers
  agreeOff : AgreeOff ([.te, .connection] ++ framingFields ++ fields) finalized
    request.parts.headers
  connection : request.parts.headers.getAll .connection = finalized.getAll .connection ∨
    request.parts.headers.getAll .connection = [connectionTe]
  trailer : request.parts.headers.getAll .trailer = finalized.getAll .trailer ∨
    request.parts.headers.getAll .trailer = []
  contentLength : finalized.getAll .contentLength = [] →
    request.parts.headers.getAll .contentLength = []

lemma Carries.sendOn
    (hc : Carries finalized fields request) (h : request.sendOn fullUri connection = .ok wire) :
    Carries finalized fields wire := by
  obtain ⟨applied, headers, hs⟩ := sendOn_eq_ok h
  obtain ⟨length, hn⟩ := hs.normalized
  refine ⟨(hs.decides.framed hc.framed).normalize hn, ?_, ?_, ?_, ?_⟩
  · have hd := hs.decides.agreeOff.mono
      (show ∀ name ∈ [.te, .connection] ++ framingFields,
        name ∈ [.te, .connection] ++ framingFields ++ fields from
        fun name hnam => mem_append_left _ hnam)
    have hlen := (normalizeContentLength_agreeOff hn).mono
      (show ∀ name ∈ [.contentLength],
        name ∈ [.te, .connection] ++ framingFields ++ fields by
        simp [framingFields])
    exact (hc.agreeOff.trans hd).trans hlen
  · rw [hs.getAll_eq (by decide)]
    rcases hs.decides.connection_getAll with hsam | hte
    · rw [hsam]
      exact hc.connection
    · exact .inr hte
  · rw [hs.getAll_eq (by decide)]
    rcases hs.decides.trailer with hsam | hnone
    · rw [hsam]
      exact hc.trailer
    · exact .inr hnone
  intro hnone
  apply (normalizeContentLength_contentLength hn).2
  rcases hs.decides.contentLength with hsam | hr
  · rw [hsam, hc.contentLength hnone]
  · exact hr

lemma Carries.sendOnEach (hc : Carries finalized fields request)
    (h : request.sendOnEach fullUri connections = .ok wire) : Carries finalized fields wire :=
  except_foldlM_preserves (fun _ _ _ => Carries.sendOn) h hc

end

end PlannedRequest

/-- The stages of `plan` when it succeeds. -/
structure Plans [UriParser] [UrlSafeNoPad] (builder : ForwardBuilder) (engine : Engine)
    (rewritten finalized : Parts) (plan : ForwardDispatchPlan) (planned : PlannedRequest)
    (upstream : Uri) (result : ForwardRewriteResult) (connectProtocol : Option Bytes) : Prop where
  configured : builder.upstream = some upstream
  rewrite : rewriteForUpstream builder.request (builder.rewrite upstream) = .ok (rewritten, result)
  finalize : ForwardDispatchPlan.finalize (builder.runHook rewritten)
    (builder.planning engine connectProtocol rewritten result) = .ok (finalized, plan)
  finish : builder.finish engine (plan.apply finalized builder.bodyIsEndStream) = .ok planned

section

variable [UriParser] [UrlSafeNoPad] {builder : ForwardBuilder} {engine : Engine}
  {plan : ForwardDispatchPlan} {planned : PlannedRequest} {rewritten finalized : Parts}
  {upstream : Uri} {result : ForwardRewriteResult} {connectProtocol : Option Bytes}

lemma plans_of_plan (h : builder.plan engine = .ok (plan, planned)) :
    ∃ rewritten finalized upstream result connectProtocol,
      Plans builder engine rewritten finalized plan planned upstream result connectProtocol := by
  unfold ForwardBuilder.plan at h
  simp only [bind_eq_ok] at h
  obtain ⟨connectProtocol, -, upstream, hu, ⟨rewritten, result⟩, hr,
    ⟨finalized, plan'⟩, hf, planned', hfin, h⟩ := h
  cases h
  exact ⟨rewritten, finalized, upstream, result, connectProtocol, by simpa using hu, hr, hf, hfin⟩

lemma send_eq_ok (h : builder.send engine connections = .ok wire) :
    ∃ plan planned, builder.plan engine = .ok (plan, planned) ∧
      planned.sendOnEach plan.fullUri connections = .ok wire := by
  unfold send at h
  rw [bind_eq_ok] at h
  obtain ⟨⟨plan, planned⟩, hp, h⟩ := h
  exact ⟨plan, planned, hp, h⟩

lemma Finalizes.framed {parts : Parts} {args : Planning} {d : Decisions}
    (h : Finalizes parts args finalized plan d) : Framed finalized.headers := by
  obtain ⟨checked, upgradeValues, settings, hsan⟩ := h.sanitizes
  have hc : d.sanitized.getAll .transferEncoding = [] :=
    hsan.getAll_removed (by decide) (by decide) (by decide) (by decide) (by decide)
  have hs : Framed d.sanitized := by
    refine ⟨?_, .inl hc, hsan.contentLength.1, .inl hc⟩
    rw [hsan.te]
    split
    · exact .inr rfl
    · exact .inl rfl
  exact hs.congr (by decide) h.finalized_agreeOff

lemma Plans.carries
    (h : Plans builder engine rewritten finalized plan planned upstream result connectProtocol) :
    PlannedRequest.Carries finalized.headers (builder.signedFields engine) planned := by
  obtain ⟨d, hfin⟩ := finalize_eq_ok h.finalize
  have ha := (plan.apply_agreeOff finalized builder.bodyIsEndStream).mono
    (show ∀ name ∈ framingFields, name ∈ [.te, .connection] ++ framingFields ++
      builder.signedFields engine from
      fun name hn => mem_append_left _ (mem_append_right _ hn))
  have hf := (finish_agreeOff h.finish).mono
    (show ∀ name ∈ [.te, .contentLength] ++ builder.signedFields engine,
      name ∈ [.te, .connection] ++ framingFields ++ builder.signedFields engine by
      intro name hn
      rcases mem_append.mp hn with hn | hn
      · simp only [mem_cons, not_mem_nil, or_false] at hn
        rcases hn with rfl | rfl <;> simp [framingFields]
      · exact mem_append_right _ hn)
  have hk : ∀ name ∈ [.connection, .trailer], planned.parts.headers.getAll name =
      (plan.apply finalized builder.bodyIsEndStream).parts.headers.getAll name := by
    intro name hn
    apply finish_agreeOff h.finish
    simp only [mem_cons, not_mem_nil, or_false] at hn
    rcases hn with rfl | rfl <;>
      simpa using ⟨by decide, by decide, signedFields_notMem (by decide) (by decide)⟩
  refine ⟨finish_framed h.finish (plan.apply_framed _ hfin.framed), ha.trans hf, .inl ?_, ?_, ?_⟩
  · rw [hk _ (by simp), plan.apply_agreeOff finalized builder.bodyIsEndStream _ (by decide)]
  · rw [hk _ (by simp)]
    exact plan.apply_trailer finalized builder.bodyIsEndStream
  intro hnone
  apply finish_contentLength h.finish
  rw [plan.apply_contentLength, hnone]
  exact ite_self _

end

end Aioduct.Forward
