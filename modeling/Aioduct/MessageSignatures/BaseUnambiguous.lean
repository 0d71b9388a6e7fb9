import Aioduct.MessageSignatures.InputRoundTrip

/-!
# The signature base is unambiguous

The base determines its lines, and the last line the covered components and the parameters.
-/

namespace Aioduct.MessageSignatures

open Wire List Except

variable {s line text : Bytes} {signatureParams : Except MessageSignatureError Bytes}
  {base : MessageSignatureBase} {components' : List MessageSignatureComponent}
  {context' : MessageSignatureContext}

section

variable [Base64] [FormUrlencoded]

omit [Base64] [FormUrlencoded] in
lemma newline_notMem_of_visible (h : Visible s) : byte '\n' ∉ s := by
  intro hm
  exact absurd (h _ hm) (by decide)

variable {c : MessageSignatureComponent} {value : Bytes} {context : MessageSignatureContext}
  {components : List MessageSignatureComponent} {lines : List Bytes}

structure IsLine (context : MessageSignatureContext) (c : MessageSignatureComponent)
    (line value : Bytes) : Prop where
  written : c.Written
  identifier : c.identifier = .ok c.item.serialize
  componentValue : context.componentValue c = .ok value
  ensured : ensureComponentValue c value = .ok ()
  text : line = c.item.serialize ++ ascii ": " ++ value

lemma componentLine_eq_ok (h : componentLine context c = .ok line) :
    ∃ value, IsLine context c line value := by
  obtain ⟨identifier, hi, h⟩ := bind_eq_ok.mp h
  obtain ⟨value, hv, h⟩ := bind_eq_ok.mp h
  obtain ⟨⟨⟩, he, h⟩ := bind_eq_ok.mp h
  obtain ⟨hw, rfl⟩ := MessageSignatureComponent.identifier_eq_ok hi
  exact ⟨value, hw, hi, hv, he, (ok.inj h).symm⟩

lemma isLine_of_signatureBaseOf
    (h : signatureBaseOf components signatureParams context = .ok base) (hc : c ∈ components) :
    ∃ line value, IsLine context c line value := by
  obtain ⟨⟨⟩, -, h⟩ := bind_eq_ok.mp h
  obtain ⟨lines, hm, -⟩ := bind_eq_ok.mp h
  obtain ⟨line, hl⟩ := except_mapM_mem hm hc
  exact ⟨line, componentLine_eq_ok hl⟩

lemma IsLine.newline_notMem (h : IsLine context c line value) : byte '\n' ∉ line := by
  have hi := newline_notMem_of_visible h.written.visible
  have hs : byte '\n' ∉ ascii ": " := newline_notMem_of_visible (by decide)
  have hv : byte '\n' ∉ value := fun hm => by simpa [ensureComponentValue, hm] using h.ensured
  rw [h.text]
  simp only [mem_append, not_or]
  exact ⟨⟨hi, hs⟩, hv⟩

structure IsBase (components : List MessageSignatureComponent) (signatureParams : Bytes)
    (context : MessageSignatureContext) (lines : List Bytes) (value : Bytes) : Prop where
  componentLines : List.Forall₂ (fun c line => componentLine context c = .ok line) components lines
  joined : value = (ascii "\n").intercalate
    (lines ++ [ascii "\"@signature-params\": " ++ signatureParams])

lemma signatureBaseOf_eq_ok (h : signatureBaseOf components signatureParams context = .ok base) :
    ∃ text lines, signatureParams = .ok text ∧ IsBase components text context lines base.value := by
  obtain ⟨⟨⟩, -, h⟩ := bind_eq_ok.mp h
  obtain ⟨lines, hl, h⟩ := bind_eq_ok.mp h
  obtain ⟨text, ht, h⟩ := bind_eq_ok.mp h
  refine ⟨text, lines, ht, except_mapM_eq_ok.mp hl, ?_⟩
  dsimp only at h
  split at h
  · rw [← ok.inj h]
  · simp at h

lemma newline_notMem_of_componentLines
    (h : List.Forall₂ (fun c line => componentLine context c = .ok line) components lines) :
    ∀ line ∈ lines, byte '\n' ∉ line := by
  induction h with
  | nil => simp
  | cons hl _ ih =>
    obtain ⟨value, hl⟩ := componentLine_eq_ok hl
    simp only [mem_cons, forall_eq_or_imp]
    exact ⟨hl.newline_notMem, ih⟩

lemma IsBase.inj {text' : Bytes} {lines' : List Bytes}
    (h : IsBase components text context lines value)
    (h' : IsBase components' text' context' lines' value) (htex : Visible text)
    (ht' : Visible text') : lines = lines' ∧ text = text' := by
  have hlas : ∀ {t : Bytes}, Visible t →
      byte '\n' ∉ ascii "\"@signature-params\": " ++ t := by
    intro t ht
    apply newline_notMem_of_visible
    exact (visible_append _ _).mpr ⟨by decide, ht⟩
  have hm : ∀ line ∈ lines ++ [ascii "\"@signature-params\": " ++ text], byte '\n' ∉ line := by
    intro line hl
    rcases mem_append.mp hl with hl | hl
    · exact newline_notMem_of_componentLines h.componentLines line hl
    · rw [mem_singleton.mp hl]
      exact hlas htex
  have hm' : ∀ line ∈ lines' ++ [ascii "\"@signature-params\": " ++ text'],
      byte '\n' ∉ line := by
    intro line hl
    rcases mem_append.mp hl with hl | hl
    · exact newline_notMem_of_componentLines h'.componentLines line hl
    · rw [mem_singleton.mp hl]
      exact hlas ht'
  have heq := intercalate_injective hm hm' (by simp) (by simp) (h.joined.symm.trans h'.joined)
  obtain ⟨hlin, hlas⟩ := append_inj' heq rfl
  exact ⟨hlin, by simpa using hlas⟩

lemma forall₂_componentValue
    (h : List.Forall₂ (fun c line => componentLine context c = .ok line) components lines)
    (h' : List.Forall₂ (fun c line => componentLine context' c = .ok line) components' lines)
    (hs : components.map MessageSignatureComponent.untyped =
      components'.map MessageSignatureComponent.untyped) :
    List.Forall₂ (fun c c' => c.identifier = c'.identifier ∧
      ∃ value, context.componentValue c = .ok value ∧ context'.componentValue c' = .ok value)
      components components' := by
  induction h generalizing components' with
  | nil =>
    cases h'
    exact List.Forall₂.nil
  | @cons c line components lines hl hlin ih =>
    cases h' with
    | @cons c' _ components' _ hl' hlin' =>
      rw [map_cons, map_cons, List.cons.injEq] at hs
      obtain ⟨value, hl⟩ := componentLine_eq_ok hl
      obtain ⟨value', hl'⟩ := componentLine_eq_ok hl'
      have hi : c.untyped.item = c'.untyped.item := by rw [hs.1]
      change c.item = c'.item at hi
      have hv : value = value' := by
        have hlin := hl.text.symm.trans hl'.text
        rw [hi] at hlin
        exact append_cancel_left hlin
      have hide : c.identifier = c'.identifier := by
        rw [hl.identifier, hl'.identifier, hi]
      refine List.Forall₂.cons ⟨hide, value, hl.componentValue, ?_⟩ (ih hlin' hs.2)
      rw [hl'.componentValue, hv]

/-- No two different covered messages share one signature base: equal bases come from the same
component identifiers and parameters, and from the same value of every covered component. -/
theorem signature_base_unambiguous (config config' : MessageSignatureConfig)
    (context context' : MessageSignatureContext) (base base' : MessageSignatureBase)
    (h : config.signatureBaseForContext context = .ok base)
    (h' : config'.signatureBaseForContext context' = .ok base')
    (heq : base.value = base'.value) :
    config.components.map (·.identifier) = config'.components.map (·.identifier) ∧
    config.params.serialize = config'.params.serialize ∧
    List.Forall₂ (fun c c' => c.identifier = c'.identifier ∧
      ∃ value, context.componentValue c = .ok value ∧ context'.componentValue c' = .ok value)
      config.components config'.components := by
  obtain ⟨text, lines, ht, hb⟩ := signatureBaseOf_eq_ok h
  obtain ⟨text', lines', ht', hb'⟩ := signatureBaseOf_eq_ok h'
  obtain ⟨hw, hs⟩ := signatureParamsValue_eq_ok ht
  obtain ⟨hw', hs'⟩ := signatureParamsValue_eq_ok ht'
  rw [← heq] at hb'
  obtain ⟨hl, hsam⟩ := hb.inj hb' (hs ▸ hw.visible) (hs' ▸ hw'.visible)
  -- Both parameter texts are read back by one parser, so they come from the same components.
  have hp := parseSignatureInputMember_serialize hw
  rw [← hs, hsam, hs', parseSignatureInputMember_serialize hw', ok.injEq, Prod.mk.injEq] at hp
  obtain ⟨hcom, hpar⟩ := hp
  have hv := forall₂_componentValue hb.componentLines (hl ▸ hb'.componentLines) hcom.symm
  have hi : List.Forall₂ (· = ·) (config.components.map (·.identifier))
      (config'.components.map (·.identifier)) := by simpa using hv.imp fun c c' hc => hc.1
  rw [forall₂_eq_eq_eq] at hi
  exact ⟨hi, by rw [hpar], hv⟩

end

def coversX : MessageSignatureConfig where
  label := ascii "sig"
  components := [{ kind := .header ⟨ascii "x", by decide⟩ },
    { kind := .header ⟨ascii "x", by decide⟩, parameters := [.key (ascii "a")] }]
  params := { created := some 1700000000, keyId := some (ascii "k\"1") }
  validLabel := by rfl

def splitX : MessageSignatureContext :=
  .response 200 ⟨[(⟨ascii "x", by decide⟩, ⟨ascii "a=1", by decide⟩),
    (⟨ascii "x", by decide⟩, ⟨ascii " b=2", by decide⟩)]⟩ none

def joinedX : MessageSignatureContext :=
  .response 404 ⟨[(⟨ascii "x", by decide⟩, ⟨ascii "a=1, b=2", by decide⟩)]⟩ none

/-- One line or two, the covered values are the same. -/
theorem signature_base_unambiguous_split :
    coversX.components.map (·.identifier) = coversX.components.map (·.identifier) ∧
    coversX.params.serialize = coversX.params.serialize ∧
    List.Forall₂ (fun c c' => c.identifier = c'.identifier ∧ ∃ value,
      @MessageSignatureContext.componentValue .standard .standard splitX c =
        .ok value ∧
      @MessageSignatureContext.componentValue .standard .standard joinedX c' =
        .ok value) coversX.components coversX.components := by
  have hs : (@MessageSignatureConfig.signatureBaseForContext .standard
      .standard coversX splitX).toOption.isSome = true := by rfl
  have heq : @MessageSignatureConfig.signatureBaseForContext .standard
      .standard coversX splitX = @MessageSignatureConfig.signatureBaseForContext
      .standard .standard coversX joinedX := by rfl
  cases h : @MessageSignatureConfig.signatureBaseForContext .standard
      .standard coversX splitX with
  | error e =>
    rw [h] at hs
    exact absurd hs (by simp [Except.toOption])
  | ok base =>
    exact @signature_base_unambiguous .standard .standard coversX coversX
      splitX joinedX base base h (heq ▸ h) rfl

end Aioduct.MessageSignatures
