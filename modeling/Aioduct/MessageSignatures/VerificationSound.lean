import Aioduct.MessageSignatures.Verification
import Aioduct.MessageSignatures.SignVerify

/-!
# Verification is sound

The policy holds of an accepted signature, the digests it covers are those of the attached bodies,
and the verifier accepted exactly the rebuilt base.
-/

namespace Aioduct.MessageSignatures

open Wire Http DigestFields MessageSignatureComponent List
  MessageSignatureVerificationPolicy

variable {components : List MessageSignatureComponent} {parameter key : Option Bytes}
  {params : MessageSignatureParams} {signature : MessageSignature} {fields headers : HeaderMap}
  {policy : MessageSignatureVerificationPolicy}

lemma sized_inj {v w t u : Bytes}
    (h : numeral v.length ++ [byte ':'] ++ v ++ t = numeral w.length ++ [byte ':'] ++ w ++ u) :
    v = w ∧ t = u := by
  have hc : ∀ n, byte ':' ∉ numeral n :=
    fun n hm => absurd (isDigit_of_mem_numeral n _ hm) (by decide)
  simp only [append_assoc, singleton_append] at h
  obtain ⟨hlen, hr⟩ := append_cons_inj (hc _) (hc _) h
  exact append_inj hr (numeral_injective hlen)

namespace MessageSignatureComponentParameter

lemma comparisonKey_inj (p q : MessageSignatureComponentParameter) (t u : Bytes)
    (h : p.comparisonKey ++ t = q.comparisonKey ++ u) : p = q ∧ t = u := by
  -- The six forms begin with six different letters.
  cases p with
  | key v =>
    cases q with
    | key w =>
      have hs : numeral v.length ++ [byte ':'] ++ v ++ t =
          numeral w.length ++ [byte ':'] ++ w ++ u := by simpa [comparisonKey, ascii] using h
      obtain ⟨rfl, rfl⟩ := sized_inj hs
      exact ⟨rfl, rfl⟩
    | _ => exact absurd (List.cons.inj h).1 (by decide)
  | name v =>
    cases q with
    | name w =>
      have hs : numeral v.length ++ [byte ':'] ++ v ++ t =
          numeral w.length ++ [byte ':'] ++ w ++ u := by simpa [comparisonKey, ascii] using h
      obtain ⟨rfl, rfl⟩ := sized_inj hs
      exact ⟨rfl, rfl⟩
    | _ => exact absurd (List.cons.inj h).1 (by decide)
  | structuredField | byteSequence | trailer | relatedRequest =>
    cases q
    all_goals first
      | exact ⟨rfl, append_cancel_left h⟩
      | exact absurd (List.cons.inj h).1 (by decide)

end MessageSignatureComponentParameter

namespace MessageSignatureComponent

variable (c : MessageSignatureComponent)

def sortedParameters : List MessageSignatureComponentParameter :=
  c.parameters.insertionSort fun p q => lexLe p.comparisonKey q.comparisonKey = true

lemma comparisonKey_eq :
    c.comparisonKey = c.kind.componentName ++
      c.sortedParameters.flatMap fun p => byte ';' :: p.comparisonKey := by
  have hsor : (c.parameters.map MessageSignatureComponentParameter.comparisonKey).insertionSort
      (fun s t => lexLe s t) =
      c.sortedParameters.map MessageSignatureComponentParameter.comparisonKey := by
    symm
    apply map_insertionSort
    exact fun _ _ _ _ => Iff.rfl
  have hm : (c.sortedParameters.flatMap fun p => byte ';' :: p.comparisonKey) =
      (c.sortedParameters.map MessageSignatureComponentParameter.comparisonKey).flatMap
        (byte ';' :: ·) := by rw [flatMap_map]
  unfold comparisonKey
  simp only [hsor]
  rw [hm]
  generalize c.sortedParameters.map MessageSignatureComponentParameter.comparisonKey = keys
  by_cases hempty : keys = []
  · simp [hempty]
  have hj : byte ';' :: [byte ';'].intercalate keys = keys.flatMap (byte ';' :: ·) :=
    cons_intercalate hempty
  have hs : ascii ";" = [byte ';'] := rfl
  rw [if_neg (by simpa using hempty), hs, ← hj]
  simp

lemma semicolon_notMem_componentName (kind : MessageSignatureComponentKind) :
    byte ';' ∉ kind.componentName := by
  intro hm
  have hp := all_eq_true.mp kind.isPlain_componentName _ hm
  cases hp

lemma componentName_injective {kind kind' : MessageSignatureComponentKind}
    (h : kind.componentName = kind'.componentName) : kind = kind' := by
  have hp := componentFromName_componentName kind signatureInputName
  rw [h, componentFromName_componentName] at hp
  exact (mk.inj (Except.ok.inj hp)).1.symm

/-- Equal comparison keys: the same kind, and the same parameters up to their order. -/
theorem eq_of_comparisonKey_eq {c d : MessageSignatureComponent}
    (h : c.comparisonKey = d.comparisonKey) :
    c.kind = d.kind ∧ c.parameters.Perm d.parameters := by
  rw [comparisonKey_eq, comparisonKey_eq] at h
  have hs : ∀ l : List MessageSignatureComponentParameter,
      Stops (· != byte ';') (l.flatMap fun p => byte ';' :: p.comparisonKey) := by
    intro l
    cases l with
    | nil => simp
    | cons p l =>
      rw [flatMap_cons, cons_append, stops_cons]
      rfl
  have hn : ∀ c : MessageSignatureComponent,
      ∀ b ∈ c.kind.componentName, (b != byte ';') := by
    intro c b hb
    rw [bne_iff_ne]
    exact fun heq => semicolon_notMem_componentName c.kind (heq ▸ hb)
  have hk := congrArg (List.takeWhile (· != byte ';')) h
  have hc := congrArg (List.dropWhile (· != byte ';')) h
  rw [takeWhile_append_of_stops (hn c) (hs _), takeWhile_append_of_stops (hn d) (hs _)] at hk
  rw [dropWhile_append_of_stops (hn c) (hs _), dropWhile_append_of_stops (hn d) (hs _)] at hc
  have hsam : c.sortedParameters = d.sortedParameters := by
    apply eq_of_flatMap_eq (by simp) _ hc
    intro p q t u heq
    exact p.comparisonKey_inj q t u (List.cons.inj heq).2
  refine ⟨componentName_injective hk, ?_⟩
  have hp := perm_insertionSort
    (fun p q : MessageSignatureComponentParameter => lexLe p.comparisonKey q.comparisonKey)
  calc c.parameters.Perm c.sortedParameters := (hp c.parameters).symm
    _ = d.sortedParameters := hsam
    List.Perm _ d.parameters := hp d.parameters

end MessageSignatureComponent

lemma toNat_saturatingAdd_le (x y : UInt64) : (saturatingAdd x y).toNat ≤ x.toNat + y.toNat := by
  unfold saturatingAdd
  split
  next hlt =>
    rw [UInt64.toNat_add, Nat.mod_eq_of_lt hlt]
  next hge =>
    have hm : (UInt64.ofNat (2 ^ 64 - 1)).toNat = 2 ^ 64 - 1 := rfl
    omega

/-- What the timestamps of an accepted signature satisfy, over the natural numbers. -/
structure TimesHold (policy : MessageSignatureVerificationPolicy)
    (params : MessageSignatureParams) : Prop where
  required : policy.requireCreated = true → params.created.isSome = true
  configured : params.created.isSome = true ∨ params.expires.isSome = true ∨
    policy.maxAge.isSome = true → policy.validationTime.isSome = true
  created : ∀ now created, policy.validationTime = some now → params.created = some created →
    created.toNat ≤ now.toNat + policy.clockSkew.toNat
  age : ∀ now maxAge, policy.validationTime = some now → policy.maxAge = some maxAge →
    ∃ created, params.created = some created ∧
      now.toNat ≤ created.toNat + maxAge.toNat + policy.clockSkew.toNat
  expires : ∀ now expires, policy.validationTime = some now → params.expires = some expires →
    now.toNat ≤ expires.toNat + policy.clockSkew.toNat

/-- What an accepted signature satisfies apart from its digests and its base. -/
structure PolicyHolds (policy : MessageSignatureVerificationPolicy) (signature : MessageSignature) :
    Prop where
  required : ∀ required ∈ policy.requiredComponents, ∃ c ∈ signature.components,
    c.kind = required.kind ∧ c.parameters.Perm required.parameters
  algorithm : policy.acceptedAlgorithms ≠ [] →
    ∃ algorithm ∈ policy.acceptedAlgorithms, signature.params.algorithm = some algorithm
  keyId : policy.acceptedKeyIds ≠ [] →
    ∃ keyId ∈ policy.acceptedKeyIds, signature.params.keyId = some keyId
  times : TimesHold policy signature.params

namespace MessageSignatureVerificationPolicy

lemma validateRequiredComponents_eq_ok {required : List MessageSignatureComponent}
    (h : validateRequiredComponents components required = .ok ()) :
    ∀ r ∈ required, ∃ c ∈ components, c.kind = r.kind ∧ c.parameters.Perm r.parameters := by
  induction required with
  | nil => simp
  | cons first required ih =>
    rw [validateRequiredComponents] at h
    split at h
    · obtain ⟨identifier, -, h⟩ := bind_eq_ok.mp h
      simp at h
    rename_i ha
    intro r hr
    rcases mem_cons.mp hr with rfl | hr
    · rw [all_eq_true] at ha
      push Not at ha
      obtain ⟨c, hc, hk⟩ := ha
      exact ⟨c, hc, eq_of_comparisonKey_eq (by simpa using hk)⟩
    · exact ih h r hr

lemma validateAccepted_eq_ok {e : Option Bytes → MessageSignatureError} {accepted : List Bytes}
    (h : validateAccepted e accepted parameter = .ok ())
    (hne : accepted ≠ []) : ∃ value ∈ accepted, parameter = some value := by
  unfold validateAccepted at h
  rw [if_neg (by simpa using hne)] at h
  cases parameter with
  | none => simp at h
  | some value =>
    dsimp only at h
    split at h
    next hm =>
      exact ⟨value, contains_iff_mem.mp hm, rfl⟩
    · simp at h

variable {policy : MessageSignatureVerificationPolicy}

lemma validateCreated_eq_ok {now : UInt64} (h : policy.validateCreated params now = .ok ()) :
    (∀ created, params.created = some created →
      created.toNat ≤ now.toNat + policy.clockSkew.toNat) ∧
    ∀ maxAge, policy.maxAge = some maxAge → ∃ created, params.created = some created ∧
      now.toNat ≤ created.toNat + maxAge.toNat + policy.clockSkew.toNat := by
  unfold validateCreated at h
  split at h
  next created hc =>
    split_ifs at h with hf
    have hb : created.toNat ≤ now.toNat + policy.clockSkew.toNat :=
      (UInt64.le_iff_toNat_le.mp (UInt64.not_lt.mp hf)).trans (toNat_saturatingAdd_le _ _)
    refine ⟨fun _ heq => Option.some.inj (hc.symm.trans heq) ▸ hb, ?_⟩
    intro maxAge hm
    rw [hm] at h
    dsimp only at h
    split_ifs at h with hold
    have hl := UInt64.le_iff_toNat_le.mp (UInt64.not_lt.mp hold)
    have hi := toNat_saturatingAdd_le created maxAge
    have ho := toNat_saturatingAdd_le (saturatingAdd created maxAge) policy.clockSkew
    exact ⟨created, hc, by omega⟩
  next hnone =>
    split_ifs at h
    next hm =>
      refine ⟨by simp [hnone], fun maxAge heq => ?_⟩
      simp [heq] at hm

lemma validateTimestamps_eq_ok
    (h : policy.validateTimestamps params = .ok ()) : TimesHold policy params := by
  unfold validateTimestamps at h
  split_ifs at h with hcre hmax hp
  have hr : policy.requireCreated → params.created.isSome := by
    intro hreq
    cases hpar : params.created with
    | none => simp [hreq, hpar] at hcre
    | some created => rfl
  cases hn : policy.validationTime with
  | none =>
    simp only [hn, Option.isNone_none, Bool.and_true, Bool.true_and] at hmax hp
    refine ⟨hr, ?_, by simp [hn], by simp [hn], by simp [hn]⟩
    rintro (hc | he | hm)
    · simp [hc] at hp
    · simp [he] at hp
    · exact absurd hm hmax
  | some now =>
    rw [hn] at h
    obtain ⟨⟨⟩, ht, h⟩ := bind_eq_ok.mp h
    obtain ⟨hf, ha⟩ := validateCreated_eq_ok ht
    have heq : ∀ {now'}, policy.validationTime = some now' → now = now' :=
      fun hn' => Option.some.inj (hn.symm.trans hn')
    refine ⟨hr, by simp [hn], fun _ created hn' => heq hn' ▸ hf created,
      fun _ maxAge hn' => heq hn' ▸ ha maxAge, ?_⟩
    · intro now' expires hn' hexp
      obtain rfl := heq hn'
      rw [hexp] at h
      dsimp only at h
      split_ifs at h
      next hexpired =>
        exact (UInt64.le_iff_toNat_le.mp (UInt64.not_lt.mp hexpired)).trans
          (toNat_saturatingAdd_le _ _)

lemma validatePolicy_eq_ok
    (h : policy.validatePolicy signature = .ok ()) : PolicyHolds policy signature := by
  obtain ⟨⟨⟩, hr, h⟩ := bind_eq_ok.mp h
  obtain ⟨⟨⟩, ha, h⟩ := bind_eq_ok.mp h
  obtain ⟨⟨⟩, hk, ht⟩ := bind_eq_ok.mp h
  exact ⟨validateRequiredComponents_eq_ok hr, validateAccepted_eq_ok ha,
    validateAccepted_eq_ok hk, validateTimestamps_eq_ok ht⟩

end MessageSignatureVerificationPolicy

section

variable [Base64]

/-- The digest in the headers (or the trailers) of one side is that of its attached body. -/
def DigestHolds (isTrailer : Bool) (side : DigestSide) : Prop :=
  ∀ body, side.body = some body → ∃ fields,
    (if isTrailer then side.trailers = some fields else side.headers = fields) ∧
      HasSha256Digest fields body

def FlagsHold (flags : Bool × Bool) (side : Option DigestSide) : Prop :=
  ∀ s, side = some s → (flags.1 = true → DigestHolds false s) ∧ (flags.2 = true → DigestHolds true s)

variable {c : MessageSignatureComponent} {checked checked' : CheckedDigests}

lemma checkDigest_eq_ok {checkedHeaders checkedTrailers : Bool} {side : Option DigestSide}
    {flags : Bool × Bool} (h : checkDigest c checkedHeaders checkedTrailers side = .ok flags)
    (hf : FlagsHold (checkedHeaders, checkedTrailers) side) :
    FlagsHold flags side ∧ ∀ s, side = some s → DigestHolds c.hasTrailerParameter s := by
  unfold checkDigest at h
  dsimp only at h
  split at h
  next hc =>
    cases h
    refine ⟨hf, fun s hs => ?_⟩
    obtain ⟨hhdr, ht⟩ := hf s hs
    cases htra : c.hasTrailerParameter with
    | false => exact hhdr (by simpa [alreadyChecked, htra] using hc)
    | true => exact ht (by simpa [alreadyChecked, htra] using hc)
  split at h
  · cases h
    exact ⟨hf, by simp⟩
  rename_i s
  split at h
  next hb =>
    cases h
    refine ⟨hf, fun s' hs => ?_⟩
    cases hs
    intro body hb'
    simp [hb] at hb'
  rename_i body hb
  obtain ⟨fields, hfie, h⟩ := bind_eq_ok.mp h
  obtain ⟨⟨⟩, hv, h⟩ := bind_eq_ok.mp h
  have hh : DigestHolds c.hasTrailerParameter s := by
    intro body' hb'
    obtain rfl := Option.some.inj (hb.symm.trans hb')
    exact ⟨fields, componentFields_eq_ok.mp hfie, hasSha256Digest_of_verify hv⟩
  cases h
  refine ⟨fun s' hs => ?_, fun s' hs => Option.some.inj hs ▸ hh⟩
  cases hs
  obtain ⟨hhdr, ht⟩ := hf s rfl
  cases htra : c.hasTrailerParameter with
  | false => exact ⟨fun _ => htra ▸ hh, ht⟩
  | true => exact ⟨hhdr, fun _ => htra ▸ hh⟩

variable (request : Option MessageSignatureRequestContext)
  (response : Option MessageSignatureResponseContext)

/-- Every set flag of the loop stands for a digest that holds. -/
structure CheckedHold (checked : CheckedDigests) : Prop where
  request : FlagsHold (checked.requestHeaders, checked.requestTrailers)
    (request.map (·.digestSide))
  response : FlagsHold (checked.responseHeaders, checked.responseTrailers)
    (response.map (·.digestSide))

omit [Base64] in
def digestSideOf (c : MessageSignatureComponent) : Option DigestSide :=
  if c.hasRelatedRequestParameter then
    if response.isNone then none else request.map (·.digestSide)
  else if response.isSome then response.map (·.digestSide)
  else request.map (·.digestSide)

variable {request response}

lemma checkRequestDigest_eq_ok (h : checkRequestDigest request checked c = .ok checked')
    (hc : CheckedHold request response checked) :
    CheckedHold request response checked' ∧
      ∀ s, request.map (·.digestSide) = some s → DigestHolds c.hasTrailerParameter s := by
  obtain ⟨flags, hf, h⟩ := bind_eq_ok.mp h
  obtain ⟨hn, hh⟩ := checkDigest_eq_ok hf hc.request
  cases h
  exact ⟨⟨hn, hc.response⟩, hh⟩

lemma checkResponseDigest_eq_ok (h : checkResponseDigest response checked c = .ok checked')
    (hc : CheckedHold request response checked) :
    CheckedHold request response checked' ∧
      ∀ s, response.map (·.digestSide) = some s → DigestHolds c.hasTrailerParameter s := by
  obtain ⟨flags, hf, h⟩ := bind_eq_ok.mp h
  obtain ⟨hn, hh⟩ := checkDigest_eq_ok hf hc.response
  cases h
  exact ⟨⟨hc.request, hn⟩, hh⟩

lemma checkCoveredContentDigest_eq_ok
    (h : checkCoveredContentDigest request response checked c = .ok checked')
    (hchk : CheckedHold request response checked) :
    CheckedHold request response checked' ∧ (coversSha256ContentDigest c →
      ∀ s, digestSideOf request response c = some s → DigestHolds c.hasTrailerParameter s) := by
  unfold checkCoveredContentDigest at h
  unfold digestSideOf
  by_cases hc : coversSha256ContentDigest c
  · simp only [hc, Bool.not_true, Bool.false_eq_true, if_false] at h
    by_cases hr : c.hasRelatedRequestParameter
    · simp only [hr, if_true] at h ⊢
      by_cases hnone : response.isNone
      · rw [if_pos hnone] at h
        cases h
        exact ⟨hchk, by simp [hnone]⟩
      · rw [if_neg hnone] at h
        obtain ⟨hn, hh⟩ := checkRequestDigest_eq_ok h hchk
        exact ⟨hn, fun _ => by simpa [hnone] using hh⟩
    simp only [hr] at h ⊢
    by_cases hsome : response.isSome
    · rw [if_pos hsome] at h
      obtain ⟨hn, hh⟩ := checkResponseDigest_eq_ok h hchk
      exact ⟨hn, fun _ => by simpa [hsome] using hh⟩
    · rw [if_neg hsome] at h
      obtain ⟨hn, hh⟩ := checkRequestDigest_eq_ok h hchk
      exact ⟨hn, fun _ => by simpa [hsome] using hh⟩
  · rw [if_pos (by simpa using hc)] at h
    cases h
    exact ⟨hchk, fun hc' => absurd hc' hc⟩

lemma foldlM_checkCoveredContentDigest
    (h : components.foldlM (checkCoveredContentDigest request response) checked = .ok checked')
    (hchk : CheckedHold request response checked) :
    ∀ c ∈ components, coversSha256ContentDigest c →
      ∀ s, digestSideOf request response c = some s → DigestHolds c.hasTrailerParameter s := by
  induction components generalizing checked with
  | nil => simp
  | cons first components ih =>
    obtain ⟨next, hs, h⟩ := bind_eq_ok.mp h
    obtain ⟨hn, hf⟩ := checkCoveredContentDigest_eq_ok hs hchk
    intro c hc
    rcases mem_cons.mp hc with rfl | hc
    · exact hf
    · exact ih h hn c hc

end

lemma dictionaryKeyLoop_filter {a : MessageSignatureComponentParameter}
    (ha : a = .trailer ∨ a = .relatedRequest) (key : Option Bytes) (structuredField : Bool)
    (parameters : List MessageSignatureComponentParameter) :
    dictionaryKeyLoop key structuredField
        (parameters.filter (· ≠ a)) =
      dictionaryKeyLoop key structuredField parameters := by
  induction parameters generalizing key structuredField with
  | nil => rfl
  | cons p parameters ih =>
    by_cases hp : p = a
    · rw [filter_cons_of_neg (by simpa using hp), ih]
      rcases ha with rfl | rfl <;> rw [hp, dictionaryKeyLoop]
    · rw [filter_cons_of_pos (by simpa using hp)]
      cases p <;> simp only [dictionaryKeyLoop, ih]

lemma eq_of_dictionaryKeyLoop {structuredField : Bool} {found : Bytes}
    {parameters : List MessageSignatureComponentParameter}
    (h : dictionaryKeyLoop key structuredField parameters = some found) :
    (∀ k, key = some k → k = found) ∧ ∀ k, .key k ∈ parameters → k = found := by
  induction parameters generalizing key structuredField with
  | nil =>
    refine ⟨fun k hk => ?_, by simp⟩
    rw [hk] at h
    exact Option.some.inj h
  | cons p parameters ih =>
    cases p with
    | structuredField =>
      rw [dictionaryKeyLoop] at h
      split_ifs at h
      · simpa using ih h
    | key value =>
      rw [dictionaryKeyLoop] at h
      split_ifs at h with hnone
      obtain ⟨hv, hr⟩ := ih h
      have hf := hv value rfl
      refine ⟨fun k hk => absurd (by simp [hk]) hnone, fun k hk => ?_⟩
      rcases mem_cons.mp hk with heq | hk
      · rw [MessageSignatureComponentParameter.key.inj heq, hf]
      · exact hr k hk
    | trailer | relatedRequest => simpa using ih h
    | byteSequence | name value => simp [dictionaryKeyLoop] at h

section

variable [Base64] {c : MessageSignatureComponent} {name : HeaderName} {value key : Bytes}
  {context : MessageSignatureContext}

lemma HasFieldValue.dictionaryKey_eq (h : HasFieldValue c fields name value)
    (hk : .key key ∈ c.parameters) : c.dictionaryKey = some key := by
  cases h with
  | member found hf hv =>
    rw [hf]
    unfold dictionaryKey at hf
    split at hf
    · rw [(eq_of_dictionaryKeyLoop hf).2 key hk]
    · simp at hf
  | structuredField fieldType hp ht hv | byteSequence hp hv | plain hp hv =>
    simp [hp] at hk

lemma dictionaryKey_of_headerComponentValue {trailers : Option HeaderMap}
    (h : headerComponentValue c headers trailers name = .ok value)
    (hkey : .key key ∈ c.parameters) : c.dictionaryKey = some key := by
  obtain ⟨-, fields, -, hv⟩ := headerComponentValue_eq_ok.mp h
  have hp := fieldComponent_parameters c
  have hm : .key key ∈ (fieldComponent c).parameters := by
    rw [hp]
    simpa using hkey
  have hf := hv.dictionaryKey_eq hm
  have hk : (fieldComponent c).isHeaderField = c.isHeaderField := by
    unfold fieldComponent
    split <;> rfl
  unfold dictionaryKey at hf ⊢
  rwa [hk, hp, dictionaryKeyLoop_filter (.inl rfl)] at hf

variable [FormUrlencoded]

/-- A value comes from the request or from the response, as `;req` says. -/
lemma componentValue_cases (h : context.componentValue c = .ok value) :
    (c.hasRelatedRequestParameter = false ∧
      ((∃ method targetUri requestTarget headers trailers, requestComponentValue c method targetUri
          requestTarget headers trailers = .ok value) ∨
        ∃ status headers trailers, responseComponentValue c status headers trailers = .ok value)) ∨
    ∃ (request : MessageSignatureRequestContext) (response : MessageSignatureResponseContext),
      context = .fromRequestResponseContexts request response ∧
        requestComponentValue c.withoutRelatedRequestParameter request.method request.targetUri
          request.requestTarget request.headers request.trailers = .ok value := by
  obtain ⟨identifier, -, h⟩ := bind_eq_ok.mp h
  split at h
  · exact absurd h (unsupportedComponentParameters_ne_ok _ _)
  cases hr : c.hasRelatedRequestParameter with
  | false =>
    refine .inl ⟨rfl, ?_⟩
    cases context <;> simp only [hr, Bool.false_eq_true, if_false] at h <;>
      obtain ⟨-, -, h⟩ := bind_eq_ok.mp h
    · exact .inl ⟨_, _, _, _, _, h⟩
    · exact .inr ⟨_, _, _, h⟩
    · exact .inr ⟨_, _, _, h⟩
  | true =>
    cases context <;> simp only [hr, if_true] at h
    · exact absurd h (unsupportedComponentParameters_ne_ok _ _)
    · cases h
    · split at h
      · exact absurd h (unsupportedComponentParameters_ne_ok _ _)
      · exact .inr ⟨⟨_, _, _, _, _, none⟩, ⟨_, _, _, none⟩, rfl, h⟩

lemma dictionaryKey_of_componentValue (h : context.componentValue c = .ok value)
    (hk : c.kind = .header name) (hkey : .key key ∈ c.parameters) :
    c.dictionaryKey = some key := by
  rcases componentValue_cases h with
    ⟨-, ⟨_, _, _, _, _, h⟩ | ⟨_, _, _, h⟩⟩ | ⟨request, response, -, h⟩
  · rw [requestComponentValue, hk] at h
    exact dictionaryKey_of_headerComponentValue h hkey
  · rw [responseComponentValue, hk] at h
    exact dictionaryKey_of_headerComponentValue h hkey
  -- `;req` only selects the side, so the key is the same without it.
  have hk' : c.withoutRelatedRequestParameter.kind = .header name := hk
  rw [requestComponentValue, hk'] at h
  have hf := dictionaryKey_of_headerComponentValue h (mem_filter.mpr ⟨hkey, by simp⟩)
  unfold dictionaryKey at hf ⊢
  rwa [← dictionaryKeyLoop_filter (.inr rfl)]

lemma hasRelatedRequestParameter_of_componentValue (h : context.componentValue c = .ok value)
    (hc : ∀ request response, context ≠ .fromRequestResponseContexts request response) :
    c.hasRelatedRequestParameter = false := by
  rcases componentValue_cases h with ⟨hr, -⟩ | ⟨request, response, heq, -⟩
  · exact hr
  · exact absurd heq (hc request response)

/-! ### Soundness -/

omit [Base64] [FormUrlencoded] in
/-- The component covers a `Content-Digest` field as a whole, or its `sha-256` member. -/
def CoversDigest (c : MessageSignatureComponent) : Prop :=
  c.kind = .header contentDigest ∧
    ((∀ key, .key key ∉ c.parameters) ∨ .key (ascii "sha-256") ∈ c.parameters)

omit [Base64] [FormUrlencoded] in
lemma CoversDigest.coversSha256ContentDigest (h : CoversDigest c)
    (hk : ∀ key, .key key ∈ c.parameters → c.dictionaryKey = some key) :
    coversSha256ContentDigest c := by
  unfold MessageSignatures.coversSha256ContentDigest
  rw [if_neg (not_not.mpr h.1), Bool.or_eq_true]
  rcases h.2 with hnone | hkey
  · left
    rw [Bool.not_eq_true', any_eq_false]
    intro p hp
    cases p with
    | key value => exact absurd hp (hnone value)
    | _ => simp
  · right
    exact decide_eq_true (hk _ hkey)

/-- Everything an accepted signature guarantees: its policy, the digests on the side that each
component speaks of (selected by `;req`), and the verifier's answer about the rebuilt base. -/
structure Verified (policy : MessageSignatureVerificationPolicy) (signature : MessageSignature)
    (verifier : MessageSignatureVerifier) (sideOf : Bool → DigestSide)
    (rebuilt : Except MessageSignatureError MessageSignatureBase) : Prop where
  policy : PolicyHolds policy signature
  digests : ∀ c ∈ signature.components, CoversDigest c →
    DigestHolds c.hasTrailerParameter (sideOf c.hasRelatedRequestParameter)
  base : ∃ base, rebuilt = .ok base ∧
    verifier ⟨signature.label, signature.params, base.value, signature.signature⟩ = .ok true

omit [Base64] [FormUrlencoded] in
lemma PolicyHolds.of_withStructuredFieldTypes
    {types : List (HeaderName × MessageSignatureStructuredFieldType)}
    (h : PolicyHolds policy (signature.withStructuredFieldTypes types)) :
    PolicyHolds policy signature := by
  rw [withStructuredFieldTypes_eq] at h
  refine ⟨fun required hr => ?_, h.algorithm, h.keyId, h.times⟩
  obtain ⟨c, hc, hk, hp⟩ := h.required required hr
  obtain ⟨d, hd, rfl⟩ := mem_map.mp hc
  rw [setTypes_eq] at hk hp
  exact ⟨d, hd, hk, hp⟩

lemma verifyParsed_eq_ok {request : Option MessageSignatureRequestContext}
    {response : Option MessageSignatureResponseContext} {verifier : MessageSignatureVerifier}
    {sideOf : Bool → DigestSide}
    (h : policy.verifyParsed signature request response context verifier = .ok ())
    (hsid : ∀ c value, context.componentValue c = .ok value →
      digestSideOf request response c = some (sideOf c.hasRelatedRequestParameter)) :
    Verified policy signature verifier sideOf
      ((policy.signatureWithStructuredFieldTypes signature).signatureBaseForContext context) := by
  obtain ⟨⟨⟩, hp, h⟩ := bind_eq_ok.mp h
  obtain ⟨⟨⟩, hd, h⟩ := bind_eq_ok.mp h
  obtain ⟨base, hb, h⟩ := bind_eq_ok.mp h
  obtain ⟨accepted, hv, h⟩ := bind_eq_ok.mp h
  obtain ⟨checked, hloo, -⟩ := bind_eq_ok.mp hd
  have ht := withStructuredFieldTypes_eq signature policy.structuredFieldTypes
  have hp' := validatePolicy_eq_ok hp
  refine ⟨PolicyHolds.of_withStructuredFieldTypes hp', ?_, base, hb, ?_⟩
  · intro c hc hcov
    have hm : c.setTypes policy.structuredFieldTypes ∈
        (policy.signatureWithStructuredFieldTypes signature).components := by
      unfold signatureWithStructuredFieldTypes
      rw [ht]
      exact mem_map_of_mem hc
    obtain ⟨line, value, hl⟩ := isLine_of_signatureBaseOf hb hm
    have hs : CheckedHold request response {} := by
      constructor <;> intro s _ <;> simp
    have hh := foldlM_checkCoveredContentDigest hloo hs _ hm
    rw [setTypes_eq] at hh hl
    have hc' : CoversDigest (c.withType
        (c.setTypes policy.structuredFieldTypes).structuredFieldType) := hcov
    exact hh (hc'.coversSha256ContentDigest fun key hk =>
      dictionaryKey_of_componentValue hl.componentValue hc'.1 hk) _
      (hsid _ value hl.componentValue)
  · cases accepted with
    | false => simp at h
    | true =>
      rw [signatureWithStructuredFieldTypes, ht] at hv
      exact hv

/-- Verification is sound against its policy, for a request, a response, and a response with its
request. -/
theorem verification_sound (policy : MessageSignatureVerificationPolicy)
    (signature : MessageSignature) (verifier : MessageSignatureVerifier) :
    (∀ request, policy.verifyParsedRequest signature request verifier = .ok () →
      Verified policy signature verifier (fun _ => request.digestSide)
        ((policy.signatureWithStructuredFieldTypes signature).signatureBaseForRequestContext
          request)) ∧
    (∀ response, policy.verifyParsedResponse signature response verifier = .ok () →
      Verified policy signature verifier (fun _ => response.digestSide)
        ((policy.signatureWithStructuredFieldTypes signature).responseSignatureBaseForContext
          response)) ∧
    (∀ request response,
      policy.verifyParsedRequestResponse signature request response verifier = .ok () →
      Verified policy signature verifier
        (fun related => if related then request.digestSide else response.digestSide)
        ((policy.signatureWithStructuredFieldTypes
          signature).requestResponseSignatureBaseForContext request response)) := by
  refine ⟨fun request h => verifyParsed_eq_ok h ?_, fun response h => verifyParsed_eq_ok h ?_,
    fun request response h => verifyParsed_eq_ok h ?_⟩
  case refine_3 =>
    intro c value hv
    cases hr : c.hasRelatedRequestParameter <;> simp [digestSideOf, hr]
  all_goals
    intro c value hv
    have hr := hasRelatedRequestParameter_of_componentValue hv (by
      intro request' response' heq
      cases heq)
    simp [digestSideOf, hr]

end

def digestPolicy : MessageSignatureVerificationPolicy where
  requiredComponents :=
    [{ kind := .header contentDigest, parameters := [.relatedRequest, .key (ascii "sha-256")] }]
  acceptedKeyIds := [ascii "k1"]
  validationTime := some 1700000030
  maxAge := some 60

def digestSignature : MessageSignature where
  label := ascii "sig1"
  components := [{ kind := .header contentDigest },
    { kind := .header contentDigest, parameters := [.key (ascii "sha-256"), .relatedRequest] }]
  params := { created := some 1700000000, keyId := some (ascii "k1") }
  signature := [1, 2, 3]
  signatureParamsValue := ascii "(\"content-digest\" \"content-digest\";key=\"sha-256\";req)"

def digestRequest : MessageSignatureRequestContext where
  method := ⟨ascii "POST"⟩
  targetUri := { path := ascii "/" }
  requestTarget := { path := ascii "/" }
  headers := repeatedDigest
  body := some (ascii "hello")

def digestResponse : MessageSignatureResponseContext where
  status := 200
  headers := repeatedDigest
  body := some (ascii "hello")

theorem verification_sound_request_response :
    (@MessageSignatureVerificationPolicy.verifyParsedRequestResponse .standard
      .standard digestPolicy digestSignature digestRequest digestResponse
      fun _ => .ok true).toOption.isSome = true ∧
    @Verified .standard digestPolicy digestSignature (fun _ => .ok true)
      (fun related => if related then digestRequest.digestSide else digestResponse.digestSide)
      (@MessageSignature.requestResponseSignatureBaseForContext .standard
        .standard (digestPolicy.signatureWithStructuredFieldTypes digestSignature)
        digestRequest digestResponse) := by
  have hsome : (@MessageSignatureVerificationPolicy.verifyParsedRequestResponse .standard
      .standard digestPolicy digestSignature digestRequest digestResponse
      fun _ => .ok true).toOption.isSome = true := by decide +kernel
  refine ⟨hsome, ?_⟩
  cases h : @MessageSignatureVerificationPolicy.verifyParsedRequestResponse .standard
      .standard digestPolicy digestSignature digestRequest digestResponse
      fun _ => .ok true with
  | error e =>
    rw [h] at hsome
    exact absurd hsome (by simp [Except.toOption])
  | ok u =>
    exact (@verification_sound .standard .standard digestPolicy
      digestSignature fun _ => .ok true).2.2 digestRequest digestResponse h

end Aioduct.MessageSignatures
