import Aioduct.Forward.Send

/-!
# Request targets and their authorities

Which authority a target has, and what each form of a request target names.
-/

namespace Aioduct.Forward

open Wire Http Option UriParser Except InboundRequestTarget
  UriLibrary

variable {s message scheme : Bytes} {field host : HostField} {parts : Parts}
  {target : InboundRequestTarget} {b authority : Authority} {version : Version} {rewrittenUri : Uri}
  {p : PathAndQuery}

def IsParsed [UriParser] (a : Authority) : Prop := UriParser.parseAuthority a.text = .ok a

section

variable [UriParser] {a : Authority} {headers : HeaderMap} {scheme : Option Bytes}

lemma isParsed_of_parse (h : parseAuthority s = .ok a) : IsParsed a := by
  unfold IsParsed
  rw [parseAuthority_text h, h]

lemma singleHostField_eq_ok (h : singleHostField headers = .ok field) : match field with
    | .missing => headers.getAll .host = []
    | .empty => True
    | .authority host => ∃ line : HeaderValue, headers.getAll .host = [line] ∧
        parseAuthority line.bytes = .ok host ∧
        ∃ port, explicitAuthorityPort host = .ok port := by
  unfold singleHostField at h
  split at h
  next hnone =>
    cases h
    exact hnone
  next line hl =>
    split at h
    · cases h
    rename_i text ht
    split at h
    · cases h
      trivial
    simp only [bind_eq_ok, mapError_eq_ok] at h
    obtain ⟨parsed, hpar, port, hp, h⟩ := h
    cases h
    unfold validateAuthority at hp
    rw [bind_eq_ok] at hp
    obtain ⟨⟨⟩, -, hp⟩ := hp
    rw [HeaderValue.toStr_eq_some ht] at hpar
    exact ⟨line, hl, hpar, port, hp⟩
  · cases h

lemma singleHostField_parsed (h : singleHostField headers = .ok host)
    (ha : host.authority? = some a) : IsParsed a := by
  cases host with
  | missing => cases ha
  | empty => cases ha
  | authority host =>
    cases ha
    obtain ⟨line, -, hp, -⟩ := singleHostField_eq_ok h
    exact isParsed_of_parse hp

namespace InboundRequestTarget

lemma capture_preservedAuthority
    (h : capture parts = .ok target) (ha : target.preservedAuthority = some a) :
    ∃ host, singleHostField parts.headers = .ok host ∧
      (parts.uri.authority = some a ∨ host.authority? = some a) := by
  unfold capture at h
  simp only [bind_eq_ok] at h
  obtain ⟨host, hh, ⟨⟩, -, h⟩ := h
  refine ⟨host, hh, ?_⟩
  split at h
  · unfold captureAsterisk at h
    simp only [bind_eq_ok] at h
    obtain ⟨⟨⟩, -, ⟨⟩, -, ⟨⟩, -, ⟨⟩, -, h⟩ := h
    rw [← ok.inj h] at ha
    rcases or_eq_some_iff.mp ha with hu | ⟨-, hf⟩
    · exact .inl hu
    · exact .inr hf
  split at h
  next target' _ hu =>
    unfold captureAuthority at h
    simp only [bind_eq_ok] at h
    obtain ⟨⟨⟩, -, ⟨⟩, -, ⟨⟩, -, ⟨⟩, -, h⟩ := h
    rw [← ok.inj h] at ha
    exact .inl (hu.trans ha)
  next scheme target' _ hu =>
    unfold captureAbsolute at h
    simp only [bind_eq_ok] at h
    obtain ⟨port, -, ⟨⟩, -, ⟨⟩, -, h⟩ := h
    rw [← ok.inj h] at ha
    exact .inl (hu.trans ha)
  · cases h
  unfold captureOrigin at h
  rw [bind_eq_ok] at h
  obtain ⟨⟨⟩, -, h⟩ := h
  rw [← ok.inj h] at ha
  exact .inr ha

omit [UriParser] in
lemma preservedAuthority_of_connect
    (h : target.connectAuthority = some a) : target.preservedAuthority = some a := by
  cases target with
  | authority b => exact h
  | origin b => cases h
  | absolute b scheme options => cases h
  | asterisk b inTarget => cases h

end InboundRequestTarget

/-- Two authorities with one host and one port, where a scheme has a default port. -/
def SameAuthority (scheme : Option Bytes) (a b : Authority) : Prop :=
  normalizedHost a.host = normalizedHost b.host ∧ ∃ p q, explicitAuthorityPort a = .ok p ∧
    explicitAuthorityPort b = .ok q ∧ p.or (defaultPort scheme) = q.or (defaultPort scheme)

omit [UriParser] in
lemma effectivePort_eq_ok {port : Option UInt16} (h : effectivePort a scheme = .ok port) :
    ∃ p, explicitAuthorityPort a = .ok p ∧ port = p.or (defaultPort scheme) := by
  unfold effectivePort at h
  rw [bind_eq_ok] at h
  obtain ⟨p, hp, h⟩ := h
  exact ⟨p, hp, (ok.inj h).symm⟩

omit [UriParser] in
lemma sameAuthority_of_equivalent
    (h : authoritiesEquivalent a b scheme = .ok true) : SameAuthority scheme a b := by
  unfold authoritiesEquivalent at h
  split at h
  next hh =>
    simp only [bind_eq_ok] at h
    obtain ⟨left, hl, right, hr, h⟩ := h
    obtain ⟨p, hp, rfl⟩ := effectivePort_eq_ok hl
    obtain ⟨q, hq, rfl⟩ := effectivePort_eq_ok hr
    exact ⟨hh, p, q, hp, hq, by simpa using ok.inj h⟩
  · cases h

lemma sameAuthority_of_validate (ha : IsParsed a) (hf : singleHostField headers = .ok field)
    (hh : headers.getAll .host ≠ [])
    (h : validateUriHostMatch version a field scheme message = .ok ()) :
    ∃ (line : HeaderValue) (host : Authority), headers.getAll .host = [line] ∧
      parseAuthority line.bytes = .ok host ∧ SameAuthority scheme a host := by
  unfold validateUriHostMatch at h
  simp only [bind_eq_ok, refuseIf_eq_ok] at h
  obtain ⟨isMatch, hm, hr⟩ := h
  obtain rfl : isMatch := by simpa using hr
  cases field with
  | missing => exact absurd (singleHostField_eq_ok hf) hh
  | empty => cases hm
  | authority host =>
    obtain ⟨line, hl, hp, port, hpor⟩ := singleHostField_eq_ok hf
    refine ⟨line, host, hl, hp, ?_⟩
    unfold uriHostMatches at hm
    dsimp only at hm
    split at hm
    · -- the texts are equal, and so are the authorities that are read from them
      have ht : a.text = host.text := by simpa using ok.inj hm
      have hs : host = a := by
        unfold IsParsed at ha
        rw [ht, parseAuthority_text hp, hp] at ha
        exact ok.inj ha
      subst hs
      exact ⟨rfl, port, port, hpor, hpor, rfl⟩
    · exact sameAuthority_of_equivalent hm

lemma InboundRequestTarget.capture_sameAuthority
    (h : capture parts = .ok target) (hver : parts.version.isH2OrH3)
    (hu : parts.uri.authority = some a) (ha : IsParsed a)
    (hh : parts.headers.getAll .host ≠ []) :
    ∃ (line : HeaderValue) (host : Authority), parts.headers.getAll .host = [line] ∧
      parseAuthority line.bytes = .ok host ∧ SameAuthority parts.uri.scheme a host := by
  unfold capture at h
  simp only [bind_eq_ok] at h
  obtain ⟨field, hf, ⟨⟩, -, h⟩ := h
  have hver : parts.version = .http2 ∨ parts.version = .http3 := by
    simpa [Version.isH2OrH3] using hver
  have hmat : ∀ {scheme message}, validateUriHostMatch parts.version a field scheme message =
      .ok () → _ := sameAuthority_of_validate ha hf hh
  split at h
  · unfold captureAsterisk checkAsteriskHost at h
    simp only [bind_eq_ok, hu] at h
    obtain ⟨⟨⟩, -, ⟨⟩, -, ⟨⟩, -, ⟨⟩, ⟨port, -, hm⟩, -⟩ := h
    exact hmat hm
  rw [hu] at h
  cases hs : parts.uri.scheme with
  | none =>
    simp only [hs] at h
    unfold captureAuthority checkConnectHost at h
    simp only [bind_eq_ok] at h
    obtain ⟨⟨⟩, -, ⟨⟩, -, ⟨⟩, -, ⟨⟩, hm, -⟩ := h
    rcases hver with hv | hv
    all_goals
      rw [hv] at hm hmat
      exact hmat hm
  | some scheme =>
    simp only [hs] at h
    unfold captureAbsolute checkAbsoluteHost at h
    simp only [bind_eq_ok] at h
    obtain ⟨port, -, ⟨⟩, -, ⟨⟩, hm, -⟩ := h
    have hh1 : parts.version.isH1 = false := by
      rcases hver with hv | hv <;> rw [hv] <;> rfl
    rw [hh1] at hm
    exact hmat hm

end

/-- What is known of a target that the request hook has left, or set. -/
structure Resolves [UriParser] (method : Method) (uri : Uri)
    (serverWideOptions : Option ServerWideOptions) : Prop where
  authority : ∀ {a}, uri.authority = some a → IsParsed a
  rooted : serverWideOptions = none → ∃ p, uri.pathAndQuery = some p ∧ p.Rooted
  options : serverWideOptions.isSome = true → method = .options

section

variable [UriLibrary] {uri fullUri : Uri} {method : Method}

lemma normalizeAbsoluteHookUri_eq_ok (hv : uri.Valid)
    (hpat : uri.path = [] ∨ uri.path.head? = some (byte '/'))
    (h : normalizeAbsoluteHookUri uri = .ok fullUri) :
    fullUri.authority = uri.authority ∧ ∃ p, fullUri.pathAndQuery = some p ∧ p.Rooted := by
  unfold normalizeAbsoluteHookUri at h
  split at h
  next p hp =>
    split at h
    · cases h
      exact ⟨rfl, p, hp, hv.rooted hp hpat⟩
    simp only [bind_eq_ok, mapError_eq_ok] at h
    obtain ⟨q, hq, h⟩ := h
    exact ⟨fromParts_authority h, q, fromParts_pathAndQuery h, .inl (parsePathAndQuery_head rfl hq)⟩
  · rw [mapError_eq_ok] at h
    exact ⟨fromParts_authority h, _, fromParts_pathAndQuery h, .inl rfl⟩

variable {serverWideOptions : Option ServerWideOptions} {hookUri : Uri} {parts : Parts}

lemma resolves_of_resolveAsterisk
    (ha : ∀ {a}, rewrittenUri.authority = some a → IsParsed a) (hh : hookUri.Valid)
    (h : resolveAsterisk rewrittenUri hookUri method = .ok (uri, serverWideOptions)) :
    Resolves method uri serverWideOptions := by
  unfold resolveAsterisk at h
  simp only [bind_eq_ok, refuseIf_eq_ok, decide_eq_false_iff_not, not_not] at h
  obtain ⟨⟨⟩, -, ⟨⟩, hm, h⟩ := h
  split at h
  · cases h
    exact ⟨ha, by simp, fun _ => hm⟩
  · simp only [bind_eq_ok] at h
    obtain ⟨port, -, h⟩ := h
    cases h
    exact ⟨hh.authority, by simp, fun _ => hm⟩
  · cases h

lemma resolves_of_resolveAbsolute (hh : hookUri.Valid)
    (h : resolveAbsolute hookUri method authority = .ok (uri, serverWideOptions)) :
    Resolves method uri serverWideOptions := by
  unfold resolveAbsolute at h
  simp only [bind_eq_ok, refuseIf_eq_ok] at h
  obtain ⟨port, -, ⟨⟩, hp, h⟩ := h
  have hp : hookUri.path = [] ∨ hookUri.path.head? = some (byte '/') := by
    cases hempty : hookUri.path.isEmpty with
    | true => exact .inl (List.isEmpty_iff.mp hempty)
    | false =>
      right
      simpa [hempty, startsWithSlash] using hp
  split at h
  next ho =>
    simp only [Bool.and_eq_true, decide_eq_true_eq] at ho
    cases h
    exact ⟨hh.authority, by simp, fun _ => ho.2⟩
  simp only [bind_eq_ok] at h
  obtain ⟨normalized, hn, h⟩ := h
  cases h
  obtain ⟨haut, hr⟩ := normalizeAbsoluteHookUri_eq_ok hh hp hn
  refine ⟨fun ha => ?_, fun _ => hr, by simp⟩
  rw [haut] at ha
  exact hh.authority ha

lemma resolves_of_resolveHookUri (hs : rewrittenUri.scheme = some scheme)
    (haut : ∀ {a}, rewrittenUri.authority = some a → IsParsed a) (hhoo : hookUri.Valid)
    (h : resolveHookUri rewrittenUri hookUri method = .ok (uri, serverWideOptions)) :
    Resolves method uri serverWideOptions := by
  unfold resolveHookUri at h
  split at h
  · exact resolves_of_resolveAsterisk haut hhoo h
  split at h
  · exact resolves_of_resolveAbsolute hhoo h
  · split at h
    next hsla =>
      simp only [bind_eq_ok, mapError_eq_ok] at h
      obtain ⟨joined, hj, h⟩ := h
      cases h
      refine ⟨fun ha => ?_, fun _ => ?_, by simp⟩
      · rw [fromParts_authority hj] at ha
        exact haut ha
      cases hp : hookUri.pathAndQuery with
      | none =>
        rw [hs, hp] at hj
        exact absurd (fromParts_isSome hj) (by simp)
      | some p =>
        rw [hp] at hj
        refine ⟨p, fromParts_pathAndQuery hj, hhoo.rooted hp (.inr ?_)⟩
        simpa [startsWithSlash] using hsla
    · cases h
  next authority _ hh =>
    split at h
    · simp only [bind_eq_ok, mapError_eq_ok] at h
      obtain ⟨joined, hj, h⟩ := h
      cases h
      refine ⟨fun ha => ?_, fun _ => ⟨_, fromParts_pathAndQuery hj, .inl rfl⟩, by simp⟩
      rw [fromParts_authority hj] at ha
      exact hhoo.authority (hh.trans ha)
    · cases h
  · cases h

lemma canonicalizeHttpUri_eq_ok (h : canonicalizeHttpUri uri = .ok (fullUri, scheme)) :
    (scheme = ascii "http" ∨ scheme = ascii "https") ∧ fullUri.scheme = some scheme ∧
      fullUri.authority = uri.authority ∧
      ∀ p, uri.pathAndQuery = some p → fullUri.pathAndQuery = some p := by
  unfold canonicalizeHttpUri at h
  simp only [bind_eq_ok, okOr_eq_ok] at h
  obtain ⟨parsed, hpar, canonical, hc, h⟩ := h
  have hh : canonical = ascii "http" ∨ canonical = ascii "https" := by
    unfold canonicalHttpScheme at hc
    split at hc
    · exact .inl (ok.inj hc).symm
    · split at hc
      · exact .inr (ok.inj hc).symm
      · cases hc
  split at h
  next hs =>
    cases h
    exact ⟨hh, by rw [hpar, hs], rfl, fun p hp => hp⟩
  simp only [bind_eq_ok, mapError_eq_ok] at h
  obtain ⟨joined, hj, h⟩ := h
  cases h
  refine ⟨hh, fromParts_scheme hj, fromParts_authority hj, ?_⟩
  intro p hp
  rw [hp] at hj
  exact fromParts_pathAndQuery hj

variable {target : Uri} {scheme : Bytes} {a : Authority}

lemma requestUri_origin {override : Option Authority}
    (hp : fullUri.pathAndQuery = some p) (hr : p.Rooted)
    (h : requestUri fullUri .origin override = .ok target) :
    target.scheme = none ∧ target.authority = none := by
  unfold requestUri at h
  rw [mapError_eq_ok, originText, hp] at h
  exact ⟨UriLibrary.parseUri_origin_scheme hr h, parseUri_origin hr h⟩

lemma pathlessAbsoluteUri_authority (hh : scheme = ascii "http" ∨ scheme = ascii "https")
    (hs : fullUri.scheme = some scheme) (ha : IsParsed a)
    (h : pathlessAbsoluteUri fullUri (some a) = .ok target) : target.authority = some a := by
  unfold pathlessAbsoluteUri at h
  simp only [bind_eq_ok, okOr_eq_ok, mapError_eq_ok] at h
  obtain ⟨found, hf, authority, haut, h⟩ := h
  obtain rfl : found = scheme := some.inj (hf.symm.trans hs)
  cases haut
  exact parseUri_absolute hh ha h

lemma requestUri_absolute (hs : fullUri.scheme = some scheme)
    (hp : fullUri.pathAndQuery = some p)
    (h : requestUri fullUri .absolute (some a) = .ok target) :
    target.scheme = some scheme ∧ target.authority = some a := by
  unfold requestUri at h
  dsimp only at h
  rw [hp, if_neg (by simp), mapError_eq_ok, hs] at h
  exact ⟨fromParts_scheme h, fromParts_authority h⟩

lemma requestUri_asteriskAbsolute (hs : fullUri.scheme = some scheme)
    (h : requestUri fullUri .asteriskAbsolute (some a) = .ok target) :
    target.scheme = some scheme ∧ target.authority = some a := by
  unfold requestUri at h
  rw [mapError_eq_ok, hs] at h
  exact ⟨fromParts_scheme h, fromParts_authority h⟩

lemma requestUri_authority (ha : IsParsed a) (hp : a.port.isSome)
    (h : requestUri fullUri .authority (some a) = .ok target) : target.authority = some a := by
  unfold requestUri at h
  simp only [bind_eq_ok, okOr_eq_ok, mapError_eq_ok] at h
  obtain ⟨authority, haut, h⟩ := h
  cases haut
  exact parseUri_authority ha hp h

lemma signingTargetUri_authority {form : RequestTargetForm}
    (hh : scheme = ascii "http" ∨ scheme = ascii "https")
    (hs : fullUri.scheme = some scheme) (ha : IsParsed a)
    (h : signingTargetUri form fullUri a = .ok target) : target.authority = some a := by
  unfold signingTargetUri at h
  split at h
  · exact pathlessAbsoluteUri_authority hh hs ha h
  cases hp : fullUri.pathAndQuery with
  | some p => exact (requestUri_absolute hs hp h).2
  | none =>
    unfold requestUri at h
    dsimp only at h
    rw [hp, isNone_none, if_pos rfl] at h
    exact pathlessAbsoluteUri_authority hh hs ha h

/-- A target that a connection leaves as it is: with the authority, or, on HTTP/1.1 and for the
asterisk, without any. -/
def NamesAuthority (a : Authority) (method : Method) (isH1 : Bool) (uri : Uri) : Prop :=
  uri.authority = some a ∧ (method = .connect ∨ isH1 = false ∧ uri.scheme.isSome = true) ∨
  uri.scheme = none ∧ uri.authority = none ∧
    (isH1 = true ∨ method ≠ .connect ∧ uri.path = ascii "*")

lemma connectTarget_authority (ha : IsParsed a) (hu : parts.uri.authority = some a)
    (h : connectTarget parts fullUri = .ok target) : target.authority = some a := by
  unfold connectTarget at h
  simp only [bind_eq_ok, okOr_eq_ok, mapError_eq_ok] at h
  obtain ⟨authority, haut, parsed, hp, h⟩ := h
  rw [hu, some_or] at haut
  cases haut
  rw [fromParts_authority h]
  rw [ha] at hp
  rw [ok.inj hp]

lemma prepareH2OrH3RequestTarget_names (ha : IsParsed a)
    (hn : NamesAuthority a parts.method false parts.uri)
    (h : prepareH2OrH3RequestTarget parts fullUri version = .ok target) :
    NamesAuthority a parts.method false target := by
  unfold prepareH2OrH3RequestTarget at h
  rcases hn with ⟨haut, hk⟩ | ⟨hs, haut, hk⟩
  · by_cases hm : parts.method = .connect
    · rw [if_pos hm] at h
      split at h
      · cases h
        exact .inl ⟨haut, .inl hm⟩
      · exact .inl ⟨connectTarget_authority ha haut h, .inl hm⟩
    have hs := (hk.resolve_left hm).2
    rw [if_neg hm, if_pos hs] at h
    cases h
    exact .inl ⟨haut, hk⟩
  obtain ⟨hm, hp⟩ := hk.resolve_left Bool.false_ne_true
  rw [if_neg hm, hs, if_neg (by simp), if_pos hp] at h
  unfold asteriskTarget at h
  split at h
  · split at h
    · cases h
    · cases h
      exact .inr ⟨hs, haut, hk⟩
  · cases h

lemma prepareRequestTargetForConnection_names {connection : Connection} (ha : IsParsed a)
    (hn : NamesAuthority a parts.method (decide (connection = .h1)) parts.uri)
    (h : prepareRequestTargetForConnection parts connection fullUri = .ok target) :
    NamesAuthority a parts.method (decide (connection = .h1)) target := by
  cases connection with
  | h1 =>
    have hk : ¬(parts.method ≠ .connect && parts.uri.scheme.isSome) := by
      rcases hn with ⟨-, hkin⟩ | ⟨hs, -⟩
      · have hm := hkin.resolve_right (fun hfalse => absurd hfalse.1 (by decide))
        simp [hm]
      · simp [hs]
    unfold prepareRequestTargetForConnection prepareH1RequestTarget at h
    rw [if_neg hk] at h
    cases h
    exact hn
  | h2 | h3 => exact prepareH2OrH3RequestTarget_names ha hn h

end

end Aioduct.Forward
