import Aioduct.MessageSignatures.InputRoundTrip

/-!
# What a component value depends on

The value of a component depends on the header map only through the lines of its own field, and on
the structured field type only when `;sf` is its one parameter.
-/

namespace Aioduct.MessageSignatures

open Wire Http MessageSignatureComponent List MessageSignatureContext

lemma unsupportedComponentParameters_ne_ok {α : Type} (c : MessageSignatureComponent) (a : α) :
    unsupportedComponentParameters c ≠ .ok a := by
  intro h
  obtain ⟨identifier, -, h⟩ := bind_eq_ok.mp h
  simp at h

variable {c : MessageSignatureComponent} {trailers : Option HeaderMap}
  {headers fields headers' : HeaderMap} {name : HeaderName} {value : Bytes} {method : Method}
  {targetUri requestTarget : Uri} {fieldType : Option MessageSignatureStructuredFieldType}

lemma dictionaryKey_of_parameters
    (h : c.parameters = [.structuredField] ∨ c.parameters = [.byteSequence] ∨ c.parameters = []) :
    c.dictionaryKey = none := by
  unfold dictionaryKey
  split
  · rcases h with h | h | h <;> rw [h] <;> rfl
  · rfl

lemma componentFields_eq_ok :
    componentFields c headers trailers = .ok fields ↔
      if c.hasTrailerParameter then trailers = some fields else headers = fields := by
  unfold componentFields
  by_cases ht : c.hasTrailerParameter
  · simp only [ht, if_true]
    cases trailers with
    | none =>
      simp only [bind_eq_ok, reduceCtorEq, and_false, exists_false]
    | some trailers => simp
  · simp [ht]

lemma nodup_map_of_filter {α κ : Type} [DecidableEq α] {f : α → κ} {a : α} {l : List α}
    (hi : ∀ b ∈ l, f b = f a → b = a) (hcou : l.count a ≤ 1)
    (h : ((l.filter (· ≠ a)).map f).Nodup) : (l.map f).Nodup := by
  induction l with
  | nil => simp
  | cons b l ih =>
    simp only [mem_cons, forall_eq_or_imp] at hi
    by_cases hb : b = a
    · subst hb
      have hn : b ∉ l := by
        rw [count_cons_self] at hcou
        exact count_eq_zero.mp (by omega)
      have hf : l.filter (· ≠ b) = l := by
        apply filter_eq_self.mpr
        intro c hc
        simpa using fun hcb : c = b => hn (hcb ▸ hc)
      simp only [filter_cons, ne_eq, not_true_eq_false, decide_false,
        Bool.false_eq_true, if_false] at h
      rw [map_cons, nodup_cons]
      refine ⟨fun hm => ?_, by rwa [hf] at h⟩
      obtain ⟨c, hc, hfc⟩ := mem_map.mp hm
      exact hn (hi.2 c hc hfc ▸ hc)
    · simp only [filter_cons, ne_eq, hb, not_false_eq_true, decide_true, if_true,
        map_cons, nodup_cons] at h
      rw [count_cons_of_ne hb] at hcou
      rw [map_cons, nodup_cons]
      refine ⟨fun hm => ?_, ih hi.2 hcou h.2⟩
      obtain ⟨c, hc, hfc⟩ := mem_map.mp hm
      by_cases hca : c = a
      · exact hb (hi.1 (by rw [← hfc, hca]))
      · exact h.1 (mem_map.mpr ⟨c, by simpa [hca] using hc, hfc⟩)

lemma eq_trailer_of_key {p : MessageSignatureComponentParameter} (h : p.entry.1 = ascii "tr") :
    p = .trailer := by
  cases p with
  | trailer => rfl
  | key value => exact absurd h (by decide : ascii "key" ≠ ascii "tr")
  | name value => exact absurd h (by decide : ascii "name" ≠ ascii "tr")
  | structuredField | byteSequence | relatedRequest => cases h

lemma nodup_of_dictionaryKeyLoop {key : Option Bytes} {structuredField : Bool} {found : Bytes}
    {parameters : List MessageSignatureComponentParameter}
    (h : dictionaryKeyLoop key structuredField parameters = some found)
    (ho : ∀ p ∈ parameters, p ≠ .trailer ∧ p ≠ .relatedRequest) :
    (parameters.map (·.entry.1)).Nodup ∧
      (structuredField → ascii "sf" ∉ parameters.map (·.entry.1)) ∧
      (key.isSome → ascii "key" ∉ parameters.map (·.entry.1)) := by
  induction parameters generalizing key structuredField with
  | nil => simp
  | cons p parameters ih =>
    simp only [mem_cons, forall_eq_or_imp] at ho
    cases p with
    | structuredField =>
      rw [dictionaryKeyLoop] at h
      split_ifs at h with hfalse
      obtain ⟨hnodup, hsf, hkey⟩ := ih h ho.2
      refine ⟨nodup_cons.mpr ⟨hsf rfl, hnodup⟩, fun htrue => absurd htrue hfalse, ?_⟩
      intro hsome hm
      rcases mem_cons.mp hm with heq | hm
      · cases heq
      · exact hkey hsome hm
    | key value =>
      rw [dictionaryKeyLoop] at h
      split_ifs at h with hnone
      obtain ⟨hnodup, hsf, hkey⟩ := ih h ho.2
      refine ⟨nodup_cons.mpr ⟨hkey rfl, hnodup⟩, ?_, fun hsome => absurd hsome hnone⟩
      intro htrue hm
      rcases mem_cons.mp hm with heq | hm
      · exact absurd heq (by decide : ascii "sf" ≠ ascii "key")
      · exact hsf htrue hm
    | trailer => exact absurd rfl ho.1.1
    | relatedRequest => exact absurd rfl ho.1.2
    | byteSequence | name value => simp [dictionaryKeyLoop] at h

lemma fieldComponent_parameters (c : MessageSignatureComponent) :
    (fieldComponent c).parameters = c.parameters.filter (· ≠ .trailer) := by
  unfold fieldComponent
  split
  · rfl
  rename_i ht
  have hn : .trailer ∉ c.parameters := by
    simpa [hasTrailerParameter, trailerParameterCount, count_eq_zero] using ht
  symm
  apply filter_eq_self.mpr
  intro p hp
  simpa using fun heq : p = .trailer => hn (heq ▸ hp)

lemma relatedRequestParameterCount_eq_zero :
    c.hasRelatedRequestParameter = false ↔ .relatedRequest ∉ c.parameters := by
  simp [hasRelatedRequestParameter, relatedRequestParameterCount]

variable [Base64]

/-- The value of a field component: a dictionary member, a structured field, wrapped bytes or
the plain field value, by its parameters. -/
inductive HasFieldValue (c : MessageSignatureComponent) (fields : HeaderMap) (name : HeaderName)
    (value : Bytes) : Prop where
  | member (key : Bytes) (hkey : c.dictionaryKey = some key)
      (hvalue : canonicalHeaderDictionaryMemberValue fields name key = .ok value)
  | structuredField (fieldType : MessageSignatureStructuredFieldType)
      (hparameters : c.parameters = [.structuredField])
      (htype : c.structuredFieldType = some fieldType)
      (hvalue : canonicalHeaderStructuredFieldValue fields name fieldType = .ok value)
  | byteSequence (hparameters : c.parameters = [.byteSequence])
      (hvalue : canonicalHeaderByteSequenceValue fields name = .ok value)
  | plain (hparameters : c.parameters = [])
      (hvalue : canonicalHeaderValue fields name = .ok value)

lemma fieldComponentValue_eq_ok {original : MessageSignatureComponent} :
    fieldComponentValue c original fields name = .ok value ↔ HasFieldValue c fields name value := by
  unfold fieldComponentValue
  constructor
  · intro h
    split at h
    next key hkey =>
      exact .member key hkey h
    simp only [hasOnlyStructuredFieldParameter,
      hasOnlyByteSequenceParameter, decide_eq_true_eq,
      hasParameters] at h
    split at h
    next hp =>
      split at h
      · simp at h
      next fieldType htype =>
        exact .structuredField fieldType hp htype h
    split at h
    next hp =>
      exact .byteSequence hp h
    · by_cases hp : c.parameters = []
      · exact .plain hp (by simpa [hp] using h)
      · simp [hp, unsupportedComponentParameters_ne_ok] at h
  · intro h
    cases h with
    | member key hkey hv => simp only [hkey, hv]
    | structuredField fieldType hp htype hv =>
      simp [dictionaryKey_of_parameters (.inl hp), htype, hv, hp, hasOnlyStructuredFieldParameter]
    | byteSequence hp hv =>
      simp [dictionaryKey_of_parameters (.inr (.inl hp)), hv, hp,
        hasOnlyStructuredFieldParameter,
        hasOnlyByteSequenceParameter]
    | plain hp hv =>
      simp [dictionaryKey_of_parameters (.inr (.inr hp)), hv, hp,
        hasOnlyStructuredFieldParameter,
        hasOnlyByteSequenceParameter,
        hasParameters]

lemma headerComponentValue_eq_ok :
    headerComponentValue c headers trailers name = .ok value ↔
      c.trailerParameterCount ≤ 1 ∧ ∃ fields, componentFields c headers trailers = .ok fields ∧
        HasFieldValue (fieldComponent c) fields name value := by
  unfold headerComponentValue
  by_cases hc : 1 < c.trailerParameterCount
  · simp only [hc, if_true, unsupportedComponentParameters_ne_ok, false_iff, not_and]
    omega
  · simp only [hc, if_false, bind_eq_ok, fieldComponentValue_eq_ok]
    simp [Nat.le_of_not_lt hc]

def MessageSignatureComponent.parameterKeys (c : MessageSignatureComponent) : List Bytes :=
  c.parameters.map (·.entry.1)

lemma HasFieldValue.nodup (h : HasFieldValue c fields name value)
    (ho : ∀ p ∈ c.parameters, p ≠ .trailer ∧ p ≠ .relatedRequest) : c.parameterKeys.Nodup := by
  unfold parameterKeys
  cases h with
  | member key hkey hv =>
    unfold dictionaryKey at hkey
    split at hkey
    · exact (nodup_of_dictionaryKeyLoop hkey ho).1
    · simp at hkey
  | structuredField fieldType hp htype hv => simp [hp]
  | byteSequence hp hv => simp [hp]
  | plain hp hv => simp [hp]

lemma nodup_of_headerComponentValue (h : headerComponentValue c headers trailers name = .ok value)
    (hr : .relatedRequest ∉ c.parameters) : c.parameterKeys.Nodup := by
  obtain ⟨hc, fields, -, hv⟩ := headerComponentValue_eq_ok.mp h
  have ho : ∀ p ∈ (fieldComponent c).parameters, p ≠ .trailer ∧ p ≠ .relatedRequest := by
    intro p hp
    rw [fieldComponent_parameters, mem_filter] at hp
    exact ⟨by simpa using hp.2, fun heq => hr (heq ▸ hp.1)⟩
  have hnodup := hv.nodup ho
  unfold parameterKeys at hnodup ⊢
  rw [fieldComponent_parameters] at hnodup
  exact nodup_map_of_filter (fun p _ heq => eq_trailer_of_key heq) hc hnodup

lemma nodup_of_requestComponentValue [FormUrlencoded]
    (h : requestComponentValue c method targetUri requestTarget headers trailers = .ok value)
    (hrel : .relatedRequest ∉ c.parameters) : c.parameterKeys.Nodup := by
  have hempty : ∀ {r : Except MessageSignatureError Bytes},
      (if c.hasParameters then unsupportedComponentParameters c else r) = .ok value →
        c.parameterKeys.Nodup := by
    intro r hr
    by_cases hp : c.parameters = []
    · simp [parameterKeys, hp]
    · simp [hasParameters, hp, unsupportedComponentParameters_ne_ok] at hr
  unfold requestComponentValue at h
  cases hk : c.kind with
  | queryParam =>
    simp only [hk, queryParamValue, queryParamName] at h
    split at h
    · exact absurd h (unsupportedComponentParameters_ne_ok _ _)
    rename_i name hn
    split at hn
    next hp =>
      simp [parameterKeys, hp]
    · simp at hn
  | header name =>
    simp only [hk] at h
    exact nodup_of_headerComponentValue h hrel
  | method | scheme | authority | requestTarget | targetUri | path | query | status =>
    simp only [hk] at h
    exact hempty h

def MessageSignatureComponent.withType (c : MessageSignatureComponent)
    (fieldType : Option MessageSignatureStructuredFieldType) : MessageSignatureComponent :=
  { c with structuredFieldType := fieldType }

omit [Base64] in
lemma fieldComponent_withType (c : MessageSignatureComponent)
    (fieldType : Option MessageSignatureStructuredFieldType) :
    fieldComponent (c.withType fieldType) = (fieldComponent c).withType fieldType := by
  have hs : (c.withType fieldType).hasTrailerParameter = c.hasTrailerParameter := rfl
  unfold fieldComponent
  by_cases h : c.hasTrailerParameter
  · rw [hs, if_pos h, if_pos h]
    rfl
  · rw [hs, if_neg h, if_neg h]

lemma HasFieldValue.withType {fields' : HeaderMap} (h : HasFieldValue c fields name value)
    (htype : .structuredField ∈ c.parameters →
      ∀ t, c.structuredFieldType = some t → fieldType = some t)
    (hl : fields'.getAll name = fields.getAll name) :
    HasFieldValue (c.withType fieldType) fields' name value := by
  have hc : canonicalHeaderValue fields' name = canonicalHeaderValue fields name := by
    rw [canonicalHeaderValue, canonicalHeaderValue, hl]
  cases h with
  | member key hkey hv =>
    refine .member key hkey ?_
    unfold canonicalHeaderDictionaryMemberValue at hv ⊢
    rwa [hc]
  | structuredField t hp ht hv =>
    refine .structuredField t hp (htype (by simp [hp]) t ht) ?_
    unfold canonicalHeaderStructuredFieldValue at hv ⊢
    rwa [hc]
  | byteSequence hp hv =>
    refine .byteSequence hp ?_
    unfold canonicalHeaderByteSequenceValue at hv ⊢
    rwa [hl]
  | plain hp hv => exact .plain hp (hc.trans hv)

lemma headerComponentValue_withType (h : headerComponentValue c headers trailers name = .ok value)
    (htype : .structuredField ∈ c.parameters →
      ∀ t, c.structuredFieldType = some t → fieldType = some t)
    (hl : headers'.getAll name = headers.getAll name) :
    headerComponentValue (c.withType fieldType) headers' trailers name = .ok value := by
  obtain ⟨hc, fields, hf, hv⟩ := headerComponentValue_eq_ok.mp h
  have hm : .structuredField ∈ (fieldComponent c).parameters →
      .structuredField ∈ c.parameters := by
    rw [fieldComponent_parameters]
    exact fun hm => (mem_filter.mp hm).1
  have hs : (fieldComponent c).structuredFieldType = c.structuredFieldType := by
    unfold fieldComponent
    split <;> rfl
  have ht' : .structuredField ∈ (fieldComponent c).parameters →
      ∀ t, (fieldComponent c).structuredFieldType = some t → fieldType = some t := by
    intro hp t ht
    exact htype (hm hp) t (hs ▸ ht)
  rw [componentFields_eq_ok] at hf
  apply headerComponentValue_eq_ok.mpr
  rw [fieldComponent_withType]
  by_cases htra : c.hasTrailerParameter
  · rw [if_pos htra] at hf
    refine ⟨hc, fields, componentFields_eq_ok.mpr ?_, hv.withType ht' rfl⟩
    exact (if_pos htra).mpr hf
  rw [if_neg htra] at hf
  subst hf
  refine ⟨hc, headers', componentFields_eq_ok.mpr ?_, hv.withType ht' hl⟩
  exact (if_neg htra).mpr rfl

variable [FormUrlencoded]

lemma componentValue_request_eq_ok :
    (request method targetUri requestTarget headers
      trailers).componentValue c = .ok value ↔
      (∃ identifier, c.identifier = .ok identifier) ∧ .relatedRequest ∉ c.parameters ∧
        c.kind ≠ .status ∧
        requestComponentValue c method targetUri requestTarget headers trailers = .ok value := by
  unfold componentValue
  cases hi : c.identifier with
  | error e => simp [bind, Except.bind]
  | ok identifier =>
    rw [← relatedRequestParameterCount_eq_zero]
    change (if 1 < c.relatedRequestParameterCount then _ else _) = _ ↔ _
    by_cases hr : c.hasRelatedRequestParameter
    · simp only [hr, if_true]
      by_cases hc : 1 < c.relatedRequestParameterCount <;>
        simp [hc, unsupportedComponentParameters_ne_ok]
    have hc : ¬1 < c.relatedRequestParameterCount := by
      simp [hasRelatedRequestParameter] at hr
      omega
    simp only [hc, if_false, hr, ensureComponentTarget, target]
    cases hk : c.kind <;> simp [bind, Except.bind]

lemma componentValue_request_withType
    (h : (request method targetUri requestTarget headers
      trailers).componentValue c = .ok value)
    (htype : ∀ name, c.kind = .header name → .structuredField ∈ c.parameters →
      ∀ t, c.structuredFieldType = some t → fieldType = some t)
    (hl : ∀ name, c.kind = .header name → headers'.getAll name = headers.getAll name) :
    (request method targetUri requestTarget headers'
      trailers).componentValue (c.withType fieldType) = .ok value := by
  obtain ⟨hi, hr, hs, hv⟩ := componentValue_request_eq_ok.mp h
  apply componentValue_request_eq_ok.mpr
  refine ⟨hi, hr, hs, ?_⟩
  by_cases hh : ∃ name, c.kind = .header name
  · obtain ⟨name, hn⟩ := hh
    have hn' : (c.withType fieldType).kind = .header name := hn
    unfold requestComponentValue at hv ⊢
    simp only [hn, hn'] at hv ⊢
    exact headerComponentValue_withType hv (htype name hn) (hl name hn)
  -- Derived components read neither the fields nor the type.
  rw [← hv]
  obtain ⟨kind, parameters, fieldType'⟩ := c
  cases kind with
  | header name => exact absurd ⟨name, rfl⟩ hh
  | _ => rfl

end Aioduct.MessageSignatures
