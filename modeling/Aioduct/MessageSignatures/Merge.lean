import Aioduct.MessageSignatures.Headers

/-!
# Merging labels

What `insert_into` and `remove_label` do to the two signature fields.
-/

namespace Aioduct.MessageSignatures

open Wire Http StructuredFields MultiMap Assoc List Action HeaderValue Or

variable {header : HeaderName} {signatureInput signature : List (Bytes × Bytes)}

/-- Two dictionaries without repeated labels that bind the same labels. -/
structure SameLabels (signatureInput signature : List (Bytes × Bytes)) : Prop where
  nodup_signatureInput : (keys signatureInput).Nodup
  nodup_signature : (keys signature).Nodup
  mem_iff : ∀ label, label ∈ keys signatureInput ↔ label ∈ keys signature

variable {entries : List (Bytes × Bytes)} {label : Bytes}

lemma rejectDuplicateLabels_eq_ok {seen : List Bytes} :
    rejectDuplicateLabels header seen entries = .ok () ↔
      (keys entries).Nodup ∧ ∀ label ∈ keys entries, label ∉ seen := by
  induction entries generalizing seen with
  | nil => simp [rejectDuplicateLabels]
  | cons entry entries ih =>
    by_cases hs : entry.1 ∈ seen
    · simp [rejectDuplicateLabels, hs]
    rw [rejectDuplicateLabels, if_neg hs, ih]
    simp only [Assoc.keys_cons, nodup_cons, mem_cons, not_or, forall_eq_or_imp]
    constructor
    · rintro ⟨hnodup, hn⟩
      exact ⟨⟨fun h => (hn entry.1 h).1 rfl, hnodup⟩, hs, fun label h => (hn label h).2⟩
    · rintro ⟨⟨he, hnodup⟩, -, hn⟩
      exact ⟨hnodup, fun label h => ⟨fun heq => he (heq ▸ h), hn label h⟩⟩

lemma ensureMatchingLabels_eq_ok
    (hi : (keys signatureInput).Nodup) (hsig : (keys signature).Nodup) :
    ensureMatchingLabels signatureInput signature = .ok () ↔
      ∀ label, label ∈ keys signatureInput ↔ label ∈ keys signature := by
  have hper : (signatureInput.length = signature.length ∧
      ∀ entry ∈ signatureInput, entry.1 ∈ keys signature) ↔
      ∀ label, label ∈ keys signatureInput ↔ label ∈ keys signature := by
    constructor
    · rintro ⟨hlen, hm⟩ label
      have hs : keys signatureInput ⊆ keys signature := by
        intro k hk
        obtain ⟨entry, he, rfl⟩ := mem_map.mp hk
        exact hm entry he
      have hle : (keys signature).length ≤ (keys signatureInput).length := by simp [Assoc.keys, hlen]
      exact ((subperm_of_subset hi hs).perm_of_length_le hle).mem_iff
    intro hiff
    have hp := (perm_ext_iff_of_nodup hi hsig).mpr hiff
    refine ⟨by simpa [Assoc.keys] using hp.length_eq, fun entry he => ?_⟩
    exact (hiff entry.1).mp (mem_map.mpr ⟨entry, he, rfl⟩)
  rw [← hper]
  unfold ensureMatchingLabels
  by_cases hempty : signatureInput = [] ∧ signature = []
  · simp [hempty.1, hempty.2]
  have hne : (signatureInput.isEmpty && signature.isEmpty) = false := by simpa using hempty
  by_cases hlen : signatureInput.length = signature.length
  · simp [hne, hlen]
  · simp [hne, hlen]

lemma notMem_keys_removeMember (entries : List (Bytes × Bytes)) (label : Bytes) :
    label ∉ keys (removeMember entries label) := by simp [Assoc.keys, removeMember]

lemma removeMember_of_notMem (h : label ∉ keys entries) : removeMember entries label = entries := by
  apply filter_eq_self.mpr
  intro entry he
  have hne : entry.1 ≠ label := fun heq => h (mem_map.mpr ⟨entry, he, heq⟩)
  simpa using hne

lemma mergeMember_of_notMem (h : label ∉ keys entries) (member : Bytes) :
    mergeMember entries label member = entries ++ [(label, member)] :=
  replaceOrAppend_of_notMem h member

lemma removeMember_mergeMember (h : label ∉ keys entries) (member : Bytes) :
    removeMember (mergeMember entries label member) label = entries := by
  have hs : removeMember [(label, member)] label = [] := by simp [removeMember]
  have ha : removeMember (entries ++ [(label, member)]) label =
      removeMember entries label ++ removeMember [(label, member)] label := by simp [removeMember]
  rw [mergeMember_of_notMem h, ha, hs, removeMember_of_notMem h, append_nil]

lemma SameLabels.mergeMember
    (h : SameLabels signatureInput signature) (hn : label ∉ keys signatureInput)
    (input member : Bytes) :
    SameLabels (mergeMember signatureInput label input) (mergeMember signature label member) := by
  have hn' : label ∉ keys signature := fun hm => hn ((h.mem_iff label).mpr hm)
  refine ⟨nodup_keys_replaceOrAppend h.nodup_signatureInput label input,
    nodup_keys_replaceOrAppend h.nodup_signature label member, fun key => ?_⟩
  rw [mergeMember_of_notMem hn, mergeMember_of_notMem hn']
  simp [h.mem_iff key]

section

variable [Base64] {headers headers' : HeaderMap} {name : HeaderName}
  {others : List (Bytes × Bytes) × List (Bytes × Bytes)} {s : MessageSignatureHeaders}
  {ownInput ownSignature : Bytes}

lemma canonicalText_of_existingDictionary (h : existingDictionary headers name = .ok entries) :
    ∀ e ∈ entries, CanonicalText e := by
  obtain ⟨combined, -, h⟩ := bind_eq_ok.mp h
  cases combined with
  | none =>
    cases h
    simp
  | some value =>
    dsimp only at h
    split at h
    next parsed hp =>
      cases h
      exact canonicalText_of_dictionary hp
    · simp at h

lemma existingDictionary_of_getAll_eq_nil (h : headers.getAll name = []) :
    existingDictionary headers name = .ok [] := by
  unfold existingDictionary combinedHeaderValue combinedFieldValue
  rw [h]
  rfl

lemma existingDictionary_of_line {value : HeaderValue} (hl : headers.getAll name = [value])
    (hv : value.bytes = serializeDictionary entries) (h : ∀ e ∈ entries, CanonicalText e) :
    existingDictionary headers name = .ok entries := by
  obtain ⟨hvis, ht, hp⟩ := serializeDictionary_spec h
  obtain ⟨value', -, hb, hs⟩ := fromStr_of_visible hvis
  obtain rfl : value' = value := ext (hb.trans hv.symm)
  have hc : combinedHeaderValue headers name = .ok (some (serializeDictionary entries)) := by
    unfold combinedHeaderValue combinedFieldValue
    rw [hl, mapM_cons, requireStr_of_toStr hs, mapM_nil]
    simp only [pure, Except.pure, bind, Except.bind, ht]
    simp
  unfold existingDictionary
  rw [hc]
  simp [bind, Except.bind, hp, pure, Except.pure]

lemma singleGeneratedMember_eq_ok {value member : Bytes} :
    singleGeneratedMember header value label = .ok member ↔
      dictionary value = .ok [(label, member)] := by
  unfold singleGeneratedMember
  constructor
  · intro h
    split at h
    next entryLabel own hp =>
      split at h
      next hl =>
        rw [hp, hl, Except.ok.inj h]
      · simp at h
    · simp at h
  · intro h
    rw [h]
    simp

lemma insertDictionary_of_canonical (h : ∀ e ∈ entries, CanonicalText e) (name : HeaderName) :
    ∃ value : HeaderValue, value.bytes = serializeDictionary entries ∧
      ∀ headers, insertDictionary name entries headers = (.ok (), headers.insert name value) := by
  obtain ⟨value, hv, hb, -⟩ :=
    fromStr_of_visible (serializeDictionary_spec h).1
  refine ⟨value, hb, fun headers => ?_⟩
  unfold insertDictionary
  rw [hv]
  rfl

/-- Writing canonical members leaves one line that holds them, or no line when there are none,
and does not touch the other fields. -/
lemma setDictionary_of_canonical (h : ∀ e ∈ entries, CanonicalText e) (name : HeaderName)
    (headers : HeaderMap) :
    ∃ headers', setDictionary name entries headers = (.ok (), headers') ∧
      existingDictionary headers' name = .ok entries ∧
      (headers'.getAll name).length = (if entries = [] then 0 else 1) ∧
      ∀ other, other ≠ name → headers'.getAll other = headers.getAll other := by
  by_cases hempty : entries = []
  · refine ⟨headers.remove name, by simp [setDictionary, hempty], ?_, by simp [hempty],
      fun other ho => getAll_remove_of_ne ho headers⟩
    rw [existingDictionary_of_getAll_eq_nil (by simp), hempty]
  obtain ⟨value, hv, hinsert⟩ := insertDictionary_of_canonical h name
  have hs : (headers.insert name value).getAll name = [value] := by simp
  refine ⟨headers.insert name value, by simp [setDictionary, hempty, hinsert],
    existingDictionary_of_line hs hv h, by simp [hs, hempty],
    fun other ho => getAll_insert_of_ne ho headers value⟩

lemma otherMembers_eq_ok :
    otherMembers headers label = .ok others ↔
      ∃ signatureInput signature,
        existingDictionary headers signatureInputName = .ok signatureInput ∧
        existingDictionary headers signatureName = .ok signature ∧
        others = (removeMember signatureInput label, removeMember signature label) ∧
        SameLabels others.1 others.2 := by
  unfold otherMembers
  constructor
  · intro h
    obtain ⟨signatureInput, hi, h⟩ := bind_eq_ok.mp h
    obtain ⟨signature, hs, h⟩ := bind_eq_ok.mp h
    obtain ⟨⟨⟩, hnodup, h⟩ := bind_eq_ok.mp h
    obtain ⟨⟨⟩, hnodup', h⟩ := bind_eq_ok.mp h
    obtain ⟨⟨⟩, hm, h⟩ := bind_eq_ok.mp h
    cases h
    have hnodup := (rejectDuplicateLabels_eq_ok.mp hnodup).1
    have hnodup' := (rejectDuplicateLabels_eq_ok.mp hnodup').1
    exact ⟨signatureInput, signature, hi, hs, rfl, hnodup, hnodup',
      (ensureMatchingLabels_eq_ok hnodup hnodup').mp hm⟩
  rintro ⟨signatureInput, signature, hi, hs, rfl, hnodup, hnodup', hmem⟩
  simp only [bind_eq_ok]
  exact ⟨signatureInput, hi, signature, hs,
    (), rejectDuplicateLabels_eq_ok.mpr ⟨hnodup, by simp⟩,
    (), rejectDuplicateLabels_eq_ok.mpr ⟨hnodup', by simp⟩,
    (), (ensureMatchingLabels_eq_ok hnodup hnodup').mpr hmem, rfl⟩

lemma canonicalText_of_otherMembers (h : otherMembers headers label = .ok others) :
    (∀ e ∈ others.1, CanonicalText e) ∧ ∀ e ∈ others.2, CanonicalText e := by
  obtain ⟨signatureInput, signature, hi, hs, rfl, -⟩ := otherMembers_eq_ok.mp h
  exact ⟨fun e he => canonicalText_of_existingDictionary hi e (mem_filter.mp he).1,
    fun e he => canonicalText_of_existingDictionary hs e (mem_filter.mp he).1⟩

/-! ### The two operations -/

/-- What `insert_into` reads and checks before it writes. -/
structure Accepts (s : MessageSignatureHeaders) (headers : HeaderMap)
    (ownInput ownSignature : Bytes) (others : List (Bytes × Bytes) × List (Bytes × Bytes)) :
    Prop where
  inputText : s.signatureInput.toStr = some s.signatureInput.bytes
  signatureText : s.signature.toStr = some s.signature.bytes
  input : dictionary s.signatureInput.bytes = .ok [(s.label, ownInput)]
  signature : dictionary s.signature.bytes = .ok [(s.label, ownSignature)]
  others : otherMembers headers s.label = .ok others

lemma Accepts.insertInto (h : Accepts s headers ownInput ownSignature others) :
    ∃ inputValue signatureValue,
      bytes inputValue =
        serializeDictionary (mergeMember others.1 s.label ownInput) ∧
      bytes signatureValue =
        serializeDictionary (mergeMember others.2 s.label ownSignature) ∧
      (∀ e ∈ mergeMember others.1 s.label ownInput, CanonicalText e) ∧
      (∀ e ∈ mergeMember others.2 s.label ownSignature, CanonicalText e) ∧
      s.insertInto headers = (.ok (),
        (headers.insert signatureInputName inputValue).insert signatureName signatureValue) := by
  obtain ⟨ho, ho'⟩ := canonicalText_of_otherMembers h.others
  have hc : ∀ e ∈ mergeMember others.1 s.label ownInput, CanonicalText e := by
    intro e he
    rcases mem_replaceOrAppend he with he | rfl
    · exact ho e he
    · exact canonicalText_of_dictionary h.input _ (by simp)
  have hc' : ∀ e ∈ mergeMember others.2 s.label ownSignature, CanonicalText e := by
    intro e he
    rcases mem_replaceOrAppend he with he | rfl
    · exact ho' e he
    · exact canonicalText_of_dictionary h.signature _ (by simp)
  obtain ⟨inputValue, hi, hw⟩ :=
    insertDictionary_of_canonical hc signatureInputName
  obtain ⟨signatureValue, hs, hw'⟩ :=
    insertDictionary_of_canonical hc' signatureName
  refine ⟨inputValue, signatureValue, hi, hs, hc, hc', ?_⟩
  unfold MessageSignatureHeaders.insertInto
  rw [lift_bind_of_ok (requireStr_of_toStr h.inputText _),
    lift_bind_of_ok (singleGeneratedMember_eq_ok.mpr h.input),
    lift_bind_of_ok (requireStr_of_toStr h.signatureText _),
    lift_bind_of_ok (singleGeneratedMember_eq_ok.mpr h.signature),
    get_bind_apply, lift_bind_of_ok h.others,
    bind_of_ok (hw headers), hw']

lemma insertInto_cases (s : MessageSignatureHeaders) (headers : HeaderMap) :
    (∃ e, s.insertInto headers = (.error e, headers)) ∨
      ∃ ownInput ownSignature others, Accepts s headers ownInput ownSignature others := by
  unfold MessageSignatureHeaders.insertInto
  rcases lift_bind_cases _ _ headers with h | ⟨inputText, hi, hr⟩
  · exact inl h
  rw [hr]
  rcases lift_bind_cases _ _ headers with h | ⟨ownInput, hinp, hr⟩
  · exact inl h
  rw [hr]
  rcases lift_bind_cases _ _ headers with h | ⟨signatureText, hs, hr⟩
  · exact inl h
  rw [hr]
  rcases lift_bind_cases _ _ headers with h | ⟨ownSignature, hsig, hr⟩
  · exact inl h
  rw [hr, get_bind_apply]
  rcases lift_bind_cases _ _ headers with h | ⟨others, ho, -⟩
  · exact inl h
  have hi := requireStr_eq_ok hi
  have hs := requireStr_eq_ok hs
  obtain rfl := toStr_eq_some hi
  obtain rfl := toStr_eq_some hs
  exact inr ⟨ownInput, ownSignature, others, hi, hs,
    singleGeneratedMember_eq_ok.mp hinp, singleGeneratedMember_eq_ok.mp hsig, ho⟩

lemma atomic_insertInto (s : MessageSignatureHeaders) (headers : HeaderMap) :
    Action.Atomic s.insertInto headers := by
  rcases insertInto_cases s headers with ⟨e, h⟩ | ⟨ownInput, ownSignature, others, h⟩
  · exact atomic_of_error h
  · obtain ⟨inputValue, signatureValue, -, -, -, -, h⟩ := h.insertInto
    exact atomic_of_ok h

/-- The field `name` lists exactly `entries`, on one line, or is absent when there are none. -/
structure FieldHolds (headers : HeaderMap) (name : HeaderName) (entries : List (Bytes × Bytes)) :
    Prop where
  members : existingDictionary headers name = .ok entries
  lines : (headers.getAll name).length = if entries = [] then 0 else 1

lemma FieldHolds.congr (h : FieldHolds headers name entries)
    (heq : headers'.getAll name = headers.getAll name) : FieldHolds headers' name entries := by
  refine ⟨?_, by rw [heq]; exact h.lines⟩
  have hm := h.members
  unfold existingDictionary combinedHeaderValue combinedFieldValue at hm ⊢
  rwa [heq]

lemma removeLabel_of_ok (h : otherMembers headers label = .ok others) :
    ∃ headers', removeLabel label headers = (.ok (), headers') ∧
      FieldHolds headers' signatureInputName others.1 ∧
      FieldHolds headers' signatureName others.2 ∧
      ∀ name, name ≠ signatureInputName → name ≠ signatureName →
        headers'.getAll name = headers.getAll name := by
  obtain ⟨hc, hc'⟩ := canonicalText_of_otherMembers h
  obtain ⟨middle, hset, hm, hl, hf⟩ :=
    setDictionary_of_canonical hc signatureInputName headers
  obtain ⟨headers', hs', hm', hl', hf'⟩ :=
    setDictionary_of_canonical hc' signatureName middle
  refine ⟨headers', ?_, ?_, ⟨hm', hl'⟩, fun name hn hn' => ?_⟩
  · unfold removeLabel
    rw [get_bind_apply, lift_bind_of_ok h, bind_of_ok hset, hs']
  · have hs := hf' signatureInputName signatureInputName_ne
    exact FieldHolds.congr ⟨hm, hl⟩ hs
  · rw [hf' name hn', hf name hn]

lemma atomic_removeLabel (label : Bytes) (headers : HeaderMap) :
    Action.Atomic (removeLabel label) headers := by
  cases h : otherMembers headers label with
  | error e =>
    have he : removeLabel label headers = (.error e, headers) := by
      unfold removeLabel
      rw [get_bind_apply, bind_apply, lift_apply, h]
    exact atomic_of_error he
  | ok others =>
    obtain ⟨headers', hr, -⟩ := removeLabel_of_ok h
    exact atomic_of_ok hr

/-- The field `name` on one line, before and after `label` was bound to `own` in it: no label
twice, the own member bound, every other member as before and in the same order. -/
structure FieldBound (headers headers' : HeaderMap) (name : HeaderName) (label own : Bytes)
    (entries entries' : List (Bytes × Bytes)) : Prop where
  before : existingDictionary headers name = .ok entries
  after : existingDictionary headers' name = .ok entries'
  one_line : (headers'.getAll name).length = 1
  nodup : (keys entries').Nodup
  own : (label, own) ∈ entries'
  others : removeMember entries' label = removeMember entries label

section

variable (h : Accepts s headers ownInput ownSignature others)
  (hinsert : s.insertInto headers = (.ok (), headers'))

include h hinsert

lemma Accepts.fieldBound :
    ∃ input signature,
      FieldBound headers headers' signatureInputName s.label ownInput input
        (mergeMember others.1 s.label ownInput) ∧
      FieldBound headers headers' signatureName s.label ownSignature signature
        (mergeMember others.2 s.label ownSignature) ∧
      others = (removeMember input s.label, removeMember signature s.label) ∧
      SameLabels (mergeMember others.1 s.label ownInput)
        (mergeMember others.2 s.label ownSignature) ∧
      ∀ name, name ≠ signatureInputName → name ≠ signatureName →
        headers'.getAll name = headers.getAll name := by
  obtain ⟨inputValue, signatureValue, hi, hsig, hc, hc', heq⟩ :=
    h.insertInto
  obtain ⟨input, signature, hb, hb', rfl, hs⟩ := otherMembers_eq_ok.mp h.others
  rw [hinsert, Prod.mk.injEq] at heq
  obtain ⟨-, rfl⟩ := heq
  have hnew := notMem_keys_removeMember input s.label
  have hnew' := notMem_keys_removeMember signature s.label
  have hm := hs.mergeMember hnew ownInput ownSignature
  have hl : (((headers.insert signatureInputName inputValue).insert signatureName
      signatureValue).getAll signatureInputName) = [inputValue] := by
    rw [getAll_insert_of_ne signatureInputName_ne, getAll_insert_self]
  have hl' : (((headers.insert signatureInputName inputValue).insert signatureName
      signatureValue).getAll signatureName) = [signatureValue] :=
    getAll_insert_self _ _ _
  refine ⟨input, signature, ?_, ?_, rfl, hm, fun name hn hn' => ?_⟩
  · exact ⟨hb, existingDictionary_of_line hl hi hc, by simp [hl],
      hm.nodup_signatureInput, by simp [mergeMember_of_notMem hnew],
      removeMember_mergeMember hnew ownInput⟩
  · exact ⟨hb', existingDictionary_of_line hl' hsig hc', by simp [hl'],
      hm.nodup_signature, by simp [mergeMember_of_notMem hnew'],
      removeMember_mergeMember hnew' ownSignature⟩
  · rw [getAll_insert_of_ne hn', getAll_insert_of_ne hn]

lemma Accepts.otherMembers_insertInto : otherMembers headers' s.label = .ok others := by
  obtain ⟨input, signature, hi, hsig, ho, -, -⟩ := h.fieldBound hinsert
  obtain ⟨-, -, -, -, -, hs⟩ := otherMembers_eq_ok.mp h.others
  refine otherMembers_eq_ok.mpr ⟨_, _, hi.after, hsig.after, ?_, hs⟩
  rw [hi.others, hsig.others]
  exact ho

lemma Accepts.insertInto_again : s.insertInto headers' = (.ok (), headers') := by
  have ha : Accepts s headers' ownInput ownSignature others :=
    ⟨h.inputText, h.signatureText, h.input, h.signature, h.otherMembers_insertInto hinsert⟩
  obtain ⟨inputValue, signatureValue, hi, hs, -, -, heq⟩ := h.insertInto
  obtain ⟨inputValue', signatureValue', hi', hs', -, -, heq'⟩ := ha.insertInto
  obtain rfl : inputValue' = inputValue := ext (hi'.trans hi.symm)
  obtain rfl : signatureValue' = signatureValue :=
    ext (hs'.trans hs.symm)
  rw [hinsert, Prod.mk.injEq] at heq
  obtain ⟨-, rfl⟩ := heq
  rw [heq', insert_insert_idem signatureInputName_ne]

end

/-- Label merging is all or nothing and touches one label only. -/
theorem insert_into_merges_one_label (s : MessageSignatureHeaders) (headers : HeaderMap) :
    Action.Atomic s.insertInto headers ∧
    (∀ label, Action.Atomic (removeLabel label) headers) ∧
    ∀ headers', s.insertInto headers = (.ok (), headers') →
      ∃ ownInput ownSignature input signature input' signature',
        dictionary s.signatureInput.bytes = .ok [(s.label, ownInput)] ∧
        dictionary s.signature.bytes = .ok [(s.label, ownSignature)] ∧
        FieldBound headers headers' signatureInputName s.label ownInput input input' ∧
        FieldBound headers headers' signatureName s.label ownSignature signature signature' ∧
        (∀ label, label ∈ keys input' ↔ label ∈ keys signature') ∧
        (∀ name, name ≠ signatureInputName → name ≠ signatureName →
          headers'.getAll name = headers.getAll name) ∧
        s.insertInto headers' = (.ok (), headers') ∧
        ∃ headers'', removeLabel s.label headers' = (.ok (), headers'') ∧
          FieldHolds headers'' signatureInputName (removeMember input s.label) ∧
          FieldHolds headers'' signatureName (removeMember signature s.label) ∧
          ∀ name, name ≠ signatureInputName → name ≠ signatureName →
            headers''.getAll name = headers.getAll name := by
  refine ⟨atomic_insertInto s headers, fun label => atomic_removeLabel label headers, ?_⟩
  intro headers' hinsert
  rcases insertInto_cases s headers with ⟨e, he⟩ | ⟨ownInput, ownSignature, others, h⟩
  · rw [hinsert] at he
    simp at he
  obtain ⟨input, signature, hi, hs, ho, hsam, hf⟩ := h.fieldBound hinsert
  obtain ⟨headers'', hr, hh, hh', hf'⟩ :=
    removeLabel_of_ok (h.otherMembers_insertInto hinsert)
  rw [ho] at hh hh'
  refine ⟨ownInput, ownSignature, input, signature, _, _, h.input, h.signature, hi, hs,
    hsam.mem_iff, hf, h.insertInto_again hinsert, headers'', hr, hh, hh', ?_⟩
  intro name hn hn'
  rw [hf' name hn hn', hf name hn hn']

end

def firstLabel : HeaderMap :=
  ⟨[(signatureInputName, ⟨ascii "sig0=(\"@method\")", by decide⟩),
    (signatureName, ⟨ascii "sig0=:AQ==:", by decide⟩)]⟩

def secondLabel : MessageSignatureHeaders :=
  ⟨ascii "sig1", ⟨ascii "sig1=();tag=\"a\"", by decide⟩, ⟨ascii "sig1=:AQI=:", by decide⟩⟩

theorem insert_into_merges_one_label_second :
    (@MessageSignatureHeaders.insertInto .standard secondLabel firstLabel).1 = .ok () ∧
    ∃ headers' own input input',
      input = [(ascii "sig0", ascii "(\"@method\")")] ∧
      @FieldBound .standard firstLabel headers' signatureInputName (ascii "sig1") own
        input input' ∧
      @MessageSignatureHeaders.insertInto .standard secondLabel headers' =
        (.ok (), headers') := by
  have hok : (@MessageSignatureHeaders.insertInto .standard secondLabel firstLabel).1 =
      .ok () := by rfl
  have hi : @existingDictionary .standard firstLabel signatureInputName =
      .ok [(ascii "sig0", ascii "(\"@method\")")] := by rfl
  obtain ⟨own, -, input, -, input', -, -, -, hb, -, -, -, ha, -⟩ :=
    (@insert_into_merges_one_label .standard secondLabel firstLabel).2.2 _
      (Prod.ext hok rfl)
  have hbef := hi.symm.trans (@FieldBound.before .standard _ _ _ _ _ _ _ hb)
  exact ⟨hok, _, own, input, input', (Except.ok.inj hbef).symm, hb, ha⟩

end Aioduct.MessageSignatures
