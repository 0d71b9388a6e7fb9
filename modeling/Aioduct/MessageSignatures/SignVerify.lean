import Aioduct.MessageSignatures.Merge
import Aioduct.MessageSignatures.BaseUnambiguous
import Aioduct.MessageSignatures.ComponentValue

/-!
# Signing and verification agree on the bytes

A signature that was made, merged into the header map and parsed again covers the same
components and parameters and has the same signature base.
-/

namespace Aioduct.MessageSignatures

open Wire Http StructuredFields MessageSignatureComponent List MessageSignature Base64 Assoc
  HeaderValue

variable {label text line : Bytes} {params : MessageSignatureParams}
  {config : MessageSignatureConfig} {s : MessageSignatureHeaders} {headers headers' : HeaderMap}

lemma isKey_of_validateLabel (h : validateLabel label = .ok ()) : IsKey label := by
  unfold validateLabel at h
  split at h
  · simp at h
  rename_i first rest
  split at h
  · simp at h
  rename_i hf
  split at h
  · simp at h
  rename_i hr
  refine ⟨first, rest, rfl, ?_, fun c hc => ?_⟩
  · have hs : (isLowercase first || first == byte '*') := by
      rwa [Bool.not_eq_true, Bool.not_eq_false'] at hf
    exact hs
  have hc' : ¬(!(isLowercase c || isDigit c || (ascii "_-.*").contains c)) :=
    fun hb => hr (any_eq_true.mpr ⟨c, hc, hb⟩)
  rw [Bool.not_eq_true, Bool.not_eq_false'] at hc'
  have hcha : ascii "_-.*" = [byte '_', byte '-', byte '.', byte '*'] := rfl
  rw [hcha] at hc'
  simpa [isKeyChar, or_assoc] using hc'

variable {components : List MessageSignatureComponent} {c : MessageSignatureComponent}

lemma coveredList_canonical (hw : CoveredWritten components params)
    (hnodup : ∀ c ∈ components, c.parameterKeys.Nodup) :
    (coveredList components params).Canonical := by
  constructor
  · intro item hi
    obtain ⟨c, hc, rfl⟩ := mem_map.mp hi
    refine ⟨visible_of_isPlain c.kind.isPlain_componentName, ?_, ?_⟩
    · have hk : keys c.item.parameters.entries = c.parameterKeys := by
        simp [Assoc.keys, item, parameterKeys, Function.comp_def]
      rw [hk]
      exact hnodup c hc
    · exact (hw.components c hc).entries
  · exact ⟨params.keys_entries.nodup (by decide), hw.entries⟩

section

variable [Base64]

lemma headersFromSignature_eq_ok {signature : Bytes}
    (h : config.headersFromSignature signature = .ok s) :
    validateComponentSet config.components true = .ok () ∧
      ∃ text, config.signatureParamsValue = .ok text ∧ s.label = config.label ∧
        s.signatureInput.bytes = config.label ++ [byte '='] ++ text ∧
        s.signature.bytes = config.label ++ ascii "=:" ++ Base64.encode signature ++ [byte ':'] := by
  obtain ⟨⟨⟩, hv, h⟩ := bind_eq_ok.mp h
  obtain ⟨text, ht, h⟩ := bind_eq_ok.mp h
  refine ⟨hv, text, ht, ?_⟩
  dsimp only at h
  split at h
  · simp at h
  rename_i input hi
  split at h
  · simp at h
  next value hval =>
    cases h
    exact ⟨rfl, fromStr_bytes hi, fromStr_bytes hval⟩

lemma parseSignatureBytes_encode (signature : Bytes) :
    parseSignatureBytes ([byte ':'] ++ Base64.encode signature ++ [byte ':']) = .ok signature := by
  have hs : byte ';' ∉ encode signature := by
    intro hm
    have ha := encode_alphabet signature (byte ';') hm
    cases ha
  simp [parseSignatureBytes, hs, decode_encode]

lemma generated_members {signature : Bytes}
    (hw : CoveredWritten config.components config.params)
    (hnodup : ∀ c ∈ config.components, c.parameterKeys.Nodup)
    (ht : text = (coveredList config.components config.params).serialize)
    (hi : s.signatureInput.bytes = config.label ++ [byte '='] ++ text)
    (hs : s.signature.bytes =
      config.label ++ ascii "=:" ++ Base64.encode signature ++ [byte ':']) :
    dictionary s.signatureInput.bytes = .ok [(config.label, text)] ∧
      dictionary s.signature.bytes =
        .ok [(config.label, [byte ':'] ++ Base64.encode signature ++ [byte ':'])] := by
  have hl := isKey_of_validateLabel config.validLabel
  have hlis : (ItemOrInnerList.innerList
      (coveredList config.components config.params)).Canonical :=
    coveredList_canonical hw hnodup
  have hb : (ItemOrInnerList.item ⟨.byteSequence signature, ⟨[]⟩⟩).Canonical :=
    ⟨trivial, by simp [Assoc.keys], by simp⟩
  constructor
  · rw [hi, ht]
    exact dictionary_single hl hlis rfl (by decide)
  have hr := dictionary_single hl hb rfl (by decide)
  have hser : (ItemOrInnerList.item ⟨.byteSequence signature, ⟨[]⟩⟩).serialize =
      [byte ':'] ++ encode signature ++ [byte ':'] := by
    simp [ItemOrInnerList.serialize, Item.serialize, BareItem.serialize, Parameters.serialize]
  rw [hser] at hr
  rw [hs, ← hr]
  simp [ascii]

lemma fromHeaders_eq_ok
    {signatureInput signature : List (Bytes × Bytes)} {input member : Bytes}
    (hl : validateLabel label = .ok ())
    (hi : existingDictionary headers signatureInputName = .ok signatureInput)
    (hsig : existingDictionary headers signatureName = .ok signature)
    (hs : SameLabels signatureInput signature)
    (ho : Assoc.get signatureInput label = some input)
    (ho' : Assoc.get signature label = some member)
    (hp : parseSignatureInputMember input = .ok (components, params))
    (hv : validateComponentSet components true = .ok ())
    (hb : parseSignatureBytes member = .ok text) :
    fromHeaders headers label = .ok ⟨label, components, params, text, input⟩ := by
  unfold fromHeaders
  simp only [bind_eq_ok]
  exact ⟨(), hl, signatureInput, hi, signature, hsig,
    (), rejectDuplicateLabels_eq_ok.mpr ⟨hs.nodup_signatureInput, by simp⟩,
    (), rejectDuplicateLabels_eq_ok.mpr ⟨hs.nodup_signature, by simp⟩,
    (), (ensureMatchingLabels_eq_ok hs.nodup_signatureInput hs.nodup_signature).mpr
      hs.mem_iff,
    input, by simp [findLabel, ho], member, by simp [findLabel, ho'], (components, params),
    hp, (), hv, text, hb, rfl⟩

end

variable (fieldType : MessageSignatureComponent → Option MessageSignatureStructuredFieldType)

lemma validateComponentLoop_withType
    (components : List MessageSignatureComponent) (seen : List Bytes)
    (seenDictionaryKeys : List (HeaderName × Bytes × Bool × Bool)) :
    validateComponentLoop seen seenDictionaryKeys
        (components.map fun c => c.withType (fieldType c)) =
      validateComponentLoop seen seenDictionaryKeys components := by
  induction components generalizing seen seenDictionaryKeys with
  | nil => rfl
  | cons c components ih =>
    have hk : (c.withType (fieldType c)).comparisonKey = c.comparisonKey := rfl
    have hid : (c.withType (fieldType c)).dictionaryKeyIdentity = c.dictionaryKeyIdentity :=
      rfl
    have hi : (c.withType (fieldType c)).identifier = c.identifier := rfl
    simp only [map_cons, validateComponentLoop, hk, hid, hi, ih]

lemma validateComponentSet_withType
    (components : List MessageSignatureComponent) :
    validateComponentSet (components.map fun c => c.withType (fieldType c)) true =
      validateComponentSet components true := by
  simp only [validateComponentSet, validateComponentLoop_withType, Bool.not_true, Bool.and_false]

def structuredFieldHeaders (components : List MessageSignatureComponent) : List HeaderName :=
  components.filterMap fun c =>
    match c.kind with
    | .header name => if c.hasStructuredFieldParameter then some name else none
    | _ => none

variable (types : List (HeaderName × MessageSignatureStructuredFieldType))

def MessageSignatureComponent.setTypes
    (c : MessageSignatureComponent) : MessageSignatureComponent :=
  types.foldl (fun c entry => c.setStructuredFieldTypeForHeader entry.1 entry.2) c

lemma setTypes_eq
    (c : MessageSignatureComponent) :
    c.setTypes types = c.withType (c.setTypes types).structuredFieldType := by
  induction types generalizing c with
  | nil => rfl
  | cons entry types ih =>
    change setTypes types
      (c.setStructuredFieldTypeForHeader entry.1 entry.2) = c.withType
        (setTypes types
          (c.setStructuredFieldTypeForHeader entry.1 entry.2)).structuredFieldType
    rw [ih]
    unfold setStructuredFieldTypeForHeader
    split <;> rfl

lemma setTypes_structuredFieldType (typeOf : HeaderName → MessageSignatureStructuredFieldType)
    {names : List HeaderName} {name : HeaderName} (hk : c.kind = .header name)
    (hsf : c.hasStructuredFieldParameter)
    (h : name ∈ names ∨ c.structuredFieldType = some (typeOf name)) :
    (c.setTypes (names.map fun name => (name, typeOf name))).structuredFieldType =
      some (typeOf name) := by
  induction names generalizing c with
  | nil => simpa [setTypes] using h
  | cons first names ih =>
    simp only [setTypes, map_cons, foldl_cons] at ih ⊢
    by_cases hf : first = name
    · subst hf
      have hs : c.setStructuredFieldTypeForHeader first (typeOf first) =
          c.withType (some (typeOf first)) := if_pos ⟨hk, hsf⟩
      rw [hs]
      exact ih hk hsf (.inr rfl)
    have hkee : c.setStructuredFieldTypeForHeader first (typeOf first) = c := by
      apply if_neg
      rintro ⟨hk', -⟩
      rw [hk] at hk'
      exact hf (MessageSignatureComponentKind.header.inj hk').symm
    rw [hkee]
    refine ih hk hsf (h.imp_left fun hm => ?_)
    exact (mem_cons.mp hm).resolve_left fun heq => hf heq.symm

lemma withStructuredFieldTypes_eq (signature : MessageSignature)
    (types : List (HeaderName × MessageSignatureStructuredFieldType)) :
    signature.withStructuredFieldTypes types =
      { signature with
        components := signature.components.map (setTypes types) } := by
  induction types generalizing signature with
  | nil =>
    have hid : setTypes [] = id := rfl
    simp [withStructuredFieldTypes, hid]
  | cons entry types ih =>
    simp only [withStructuredFieldTypes, foldl_cons] at ih ⊢
    rw [ih]
    simp only [withStructuredFieldType, map_map]
    rfl

/-! ### The base for other field types -/

section

variable [Base64] [FormUrlencoded]

lemma IsLine.componentLine {context context' : MessageSignatureContext} {value : Bytes}
    (h : IsLine context c line value) {fieldType : Option MessageSignatureStructuredFieldType}
    (hv : context'.componentValue (c.withType fieldType) = .ok value) :
    componentLine context' (c.withType fieldType) = .ok line := by
  have hi : (c.withType fieldType).identifier = .ok c.item.serialize := h.identifier
  have he : ensureComponentValue (c.withType fieldType) value = .ok () := h.ensured
  unfold MessageSignatures.componentLine
  simp only [bind_eq_ok]
  exact ⟨_, hi, value, hv, (), he, by rw [h.text]; rfl⟩

variable {signatureParams : Except MessageSignatureError Bytes} {base : MessageSignatureBase}
  {trailers : Option HeaderMap} {headers : HeaderMap} {method : Method}
  {targetUri requestTarget : Uri}

section

variable (h : signatureBaseOf components signatureParams
    (.request method targetUri requestTarget headers trailers) = .ok base)

include h

lemma signatureBaseOf_request_withType
    {fieldType : MessageSignatureComponent → Option MessageSignatureStructuredFieldType}
    (ht : ∀ c ∈ components, ∀ name, c.kind = .header name → .structuredField ∈ c.parameters →
      ∀ t, c.structuredFieldType = some t → fieldType c = some t)
    (hlin : ∀ c ∈ components, ∀ name, c.kind = .header name →
      headers'.getAll name = headers.getAll name) :
    signatureBaseOf (components.map fun c => c.withType (fieldType c)) signatureParams
      (.request method targetUri requestTarget headers' trailers) = .ok base := by
  obtain ⟨⟨⟩, hv, h⟩ := bind_eq_ok.mp h
  obtain ⟨lines, hm, h⟩ := bind_eq_ok.mp h
  unfold signatureBaseOf
  simp only [bind_eq_ok]
  refine ⟨(), (validateComponentSet_withType fieldType components).trans hv, lines, ?_,
    bind_eq_ok.mp h⟩
  apply except_mapM_map hm
  intro c hc line hl
  obtain ⟨value, hl⟩ := componentLine_eq_ok hl
  exact hl.componentLine (componentValue_request_withType hl.componentValue (ht c hc) (hlin c hc))

lemma nodup_of_signatureBaseOf_request :
    ∀ c ∈ components, c.parameterKeys.Nodup := by
  intro c hc
  obtain ⟨line, value, hl⟩ := isLine_of_signatureBaseOf h hc
  obtain ⟨-, hr, -, hv⟩ := componentValue_request_eq_ok.mp hl.componentValue
  exact nodup_of_requestComponentValue hv hr

lemma signatureBaseOf_setTypes {typeOf : HeaderName → MessageSignatureStructuredFieldType}
    (hty : ∀ c ∈ components, ∀ name, c.kind = .header name →
      c.hasStructuredFieldParameter → ∀ t, c.structuredFieldType = some t → t = typeOf name)
    (hl : ∀ c ∈ components, ∀ name, c.kind = .header name →
      headers'.getAll name = headers.getAll name) :
    signatureBaseOf ((components.map untyped).map
        (setTypes
          ((structuredFieldHeaders components).map fun name => (name, typeOf name))))
      signatureParams (.request method targetUri requestTarget headers' trailers) = .ok base := by
  generalize htyp :
    (structuredFieldHeaders components).map (fun name => (name, typeOf name)) = types
  have htyped : (components.map untyped).map
      (setTypes types) = components.map
        fun c => c.withType (c.untyped.setTypes types).structuredFieldType := by
    rw [map_map]
    apply map_congr_left
    intro c hc
    exact setTypes_eq types c.untyped
  rw [htyped]
  apply signatureBaseOf_request_withType h _ hl
  intro c hc name hk hsf t ht
  have hsf' : c.hasStructuredFieldParameter := by
    simpa [hasStructuredFieldParameter] using hsf
  rw [← htyp, hty c hc name hk hsf' t ht]
  exact setTypes_structuredFieldType typeOf (c := c.untyped) hk hsf'
    (.inl (mem_filterMap.mpr ⟨c, hc, by simp [hk, hsf']⟩))

end

lemma fromHeaders_of_signed {request : MessageSignatureRequestContext} {signature : Bytes}
    (hbas : config.signatureBaseForRequestContext request = .ok base)
    (hm : config.headersFromSignature signature = .ok s)
    (hins : s.insertInto request.headers = (.ok (), headers)) :
    ∃ text, config.signatureParamsValue = .ok text ∧
      fromHeaders headers config.label = .ok ⟨config.label,
        config.components.map untyped, config.params, signature, text⟩ ∧
      ∀ name, name ≠ signatureInputName → name ≠ signatureName →
        headers.getAll name = request.headers.getAll name := by
  obtain ⟨hv, text, ht, hl, hi, hsig⟩ := headersFromSignature_eq_ok hm
  obtain ⟨hw, hser⟩ := signatureParamsValue_eq_ok ht
  obtain ⟨hd, hd'⟩ := generated_members hw (nodup_of_signatureBaseOf_request hbas) hser hi hsig
  -- The insertion bound these two members to the label.
  rcases insertInto_cases s request.headers with ⟨e, he⟩ | ⟨own, own', others, hacc⟩
  · rw [hins] at he
    simp at he
  have ho : own = text := by
    have heq := hacc.input
    rw [hd, hl] at heq
    simpa using heq.symm
  have ho' : own' = [byte ':'] ++ encode signature ++ [byte ':'] := by
    have heq := hacc.signature
    rw [hd', hl] at heq
    simpa using heq.symm
  obtain ⟨before, before', hb, hb', -, hs, hf⟩ := hacc.fieldBound hins
  have hp : parseSignatureInputMember text =
      .ok (config.components.map untyped, config.params) := by
    rw [hser]
    exact parseSignatureInputMember_serialize hw
  have hg := get_replaceOrAppend_self others.1 s.label own
  have hg' := get_replaceOrAppend_self others.2 s.label own'
  rw [ho, hl] at hg
  rw [ho', hl] at hg'
  rw [ho, ho', hl] at hs
  have ha := hb.after
  have ha' := hb'.after
  rw [ho, hl] at ha
  rw [ho', hl] at ha'
  refine ⟨text, ht, ?_, hf⟩
  exact fromHeaders_eq_ok config.validLabel ha ha' hs hg hg' hp
    ((validateComponentSet_withType (fun _ => none) config.components).trans hv)
    (parseSignatureBytes_encode signature)

/-- A signed request, read back from the merged headers, has the base that was signed. The fields
that the insertion wrote are not covered, so the context may have the signed or the merged header
map. -/
theorem signed_base_is_verified_base (config : MessageSignatureConfig)
    (request : MessageSignatureRequestContext) (signer : MessageSignatureSigner)
    (s : MessageSignatureHeaders) (headers : HeaderMap)
    (typeOf : HeaderName → MessageSignatureStructuredFieldType)
    (hsign : config.signRequestContext request signer = .ok s)
    (hinsert : s.insertInto request.headers = (.ok (), headers))
    (hcovered : ∀ c ∈ config.components,
      c.kind ≠ .header signatureName ∧ c.kind ≠ .header signatureInputName)
    (htypes : ∀ c ∈ config.components, ∀ name, c.kind = .header name →
      c.hasStructuredFieldParameter = true → ∀ t, c.structuredFieldType = some t →
        t = typeOf name) :
    ∃ base signature parsed typed,
      config.signatureBaseForRequestContext request = .ok base ∧
      signer base.value = .ok signature ∧
      fromHeaders headers config.label = .ok parsed ∧
      parsed.components.map (fun c => (c.kind, c.parameters)) =
        config.components.map (fun c => (c.kind, c.parameters)) ∧
      parsed.params = config.params ∧
      parsed.signature = signature ∧
      typed = parsed.withStructuredFieldTypes
        ((structuredFieldHeaders config.components).map fun name => (name, typeOf name)) ∧
      typed.signatureBaseForRequestContext request = .ok base ∧
      typed.signatureBaseForRequestContext { request with headers := headers } = .ok base := by
  obtain ⟨base, hb, hsign⟩ := bind_eq_ok.mp hsign
  obtain ⟨signature, hsig, hm⟩ := bind_eq_ok.mp hsign
  obtain ⟨text, ht, hfro, hf⟩ := fromHeaders_of_signed hb hm hinsert
  have hl : ∀ c ∈ config.components, ∀ name, c.kind = .header name →
      headers.getAll name = request.headers.getAll name := by
    intro c hc name hk
    obtain ⟨hs, hi⟩ := hcovered c hc
    rw [hk] at hs hi
    exact hf name (fun heq => hi (congrArg _ heq)) (fun heq => hs (congrArg _ heq))
  have hb' : signatureBaseOf config.components (.ok text) (.request request.method
      request.targetUri request.requestTarget request.headers request.trailers) = .ok base :=
    ht ▸ hb
  refine ⟨base, signature, _, _, hb, hsig, hfro, ?_, rfl, rfl, rfl, ?_, ?_⟩
  · simp [untyped]
  · rw [withStructuredFieldTypes_eq]
    exact signatureBaseOf_setTypes hb' htypes fun _ _ _ _ => rfl
  · rw [withStructuredFieldTypes_eq]
    exact signatureBaseOf_setTypes hb' htypes hl

end

def coversPriority : MessageSignatureConfig where
  label := ascii "sig1"
  components := [{ kind := .method },
    { kind := .header ⟨ascii "priority", by decide⟩, parameters := [.structuredField],
      structuredFieldType := some .dictionary }]
  params := { created := some 1700000000, keyId := some (ascii "k\"1") }
  validLabel := by rfl

def signedOnce : MessageSignatureRequestContext where
  method := ⟨ascii "GET"⟩
  targetUri := { path := ascii "/" }
  requestTarget := { path := ascii "/" }
  headers := ⟨(⟨ascii "priority", by decide⟩, ⟨ascii "u=1,  i", by decide⟩) :: firstLabel.lines⟩

def secondSignature : MessageSignatureHeaders :=
  ⟨ascii "sig1",
    ⟨ascii "sig1=(\"@method\" \"priority\";sf);created=1700000000;keyid=\"k\\\"1\"", by decide⟩,
    ⟨ascii "sig1=:AQID:", by decide⟩⟩

theorem signed_base_is_verified_base_second :
    (@MessageSignatureHeaders.insertInto .standard secondSignature signedOnce.headers).1 =
      .ok () ∧
    ∃ base parsed,
      @MessageSignatureConfig.signatureBaseForRequestContext .standard
        .standard coversPriority signedOnce = .ok base ∧
      @MessageSignature.fromHeaders .standard
        (@MessageSignatureHeaders.insertInto .standard secondSignature signedOnce.headers).2
        (ascii "sig1") = .ok parsed ∧
      parsed.signature = [1, 2, 3] ∧
      @MessageSignature.signatureBaseForRequestContext .standard .standard
        (parsed.withStructuredFieldTypes [(⟨ascii "priority", by decide⟩, .dictionary)])
        signedOnce = .ok base := by
  have hsi : @MessageSignatureConfig.signRequestContext .standard .standard
      coversPriority signedOnce (fun _ => .ok [1, 2, 3]) = .ok secondSignature := by rfl
  have hok : (@MessageSignatureHeaders.insertInto .standard secondSignature
      signedOnce.headers).1 = .ok () := by rfl
  have hcov : ∀ c ∈ coversPriority.components,
      c.kind ≠ .header signatureName ∧ c.kind ≠ .header signatureInputName := by decide
  have htyp : ∀ c ∈ coversPriority.components, ∀ name, c.kind = .header name →
      c.hasStructuredFieldParameter = true → ∀ t, c.structuredFieldType = some t →
        t = .dictionary := by
    intro c hc name hk hsf t ht
    have hall : ∀ c ∈ coversPriority.components,
        c.structuredFieldType = none ∨ c.structuredFieldType = some .dictionary := by decide
    rcases hall c hc with hnone | hsome
    · simp [hnone] at ht
    · rw [hsome] at ht
      exact (Option.some.inj ht).symm
  obtain ⟨base, signature, parsed, typed, hb, hsig, hf, -, -, hs, hty, hsam,
    -⟩ := @signed_base_is_verified_base .standard .standard coversPriority
      signedOnce (fun _ => .ok [1, 2, 3]) secondSignature _ (fun _ => .dictionary) hsi
      (Prod.ext hok rfl) hcov htyp
  subst hty
  refine ⟨hok, base, parsed, hb, hf, ?_, hsam⟩
  rw [hs]
  exact (Except.ok.inj hsig).symm

end Aioduct.MessageSignatures
