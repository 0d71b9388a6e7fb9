import Aioduct.Sha256
import Aioduct.MessageSignatures.ComponentValue
import Aioduct.MessageSignatures.BaseUnambiguous

/-!
# Content-Digest fields

`digest_fields.rs`: the SHA-256 member of a `Content-Digest` field is written, and compared with
a body.
-/

namespace Aioduct.DigestFields

open Wire Http StructuredFields MessageSignatures List Base64

variable {s rest digest value : Bytes}

def contentDigest : HeaderName := ⟨ascii "content-digest", by decide⟩

section

lemma newline_notMem_of_toStr {value : HeaderValue} (h : value.toStr = some s) :
    byte '\n' ∉ s ∧ byte '\r' ∉ s := by
  unfold HeaderValue.toStr at h
  split at h
  next hall =>
    cases h
    rw [all_eq_true] at hall
    exact ⟨fun hm => absurd (hall _ hm) (by decide), fun hm => absurd (hall _ hm) (by decide)⟩
  · simp at h

lemma canonicalHeaderValue_of_combinedFieldValue {e : MessageSignatureError} {headers : HeaderMap}
    {name : HeaderName} (h : combinedFieldValue e headers name = .ok (some value)) :
    canonicalHeaderValue headers name = .ok value := by
  obtain ⟨out, ho, h⟩ := bind_eq_ok.mp h
  unfold canonicalHeaderValue
  rw [bind_eq_ok]
  refine ⟨out, ?_, ?_⟩
  · have hsam := except_mapM_map (k := id) ho (g := fun value => do
      let value ← requireStr (.unsupportedHeaderValue name) value
      let value := normalizeFieldValue value
      if value.contains (byte '\n') || value.contains (byte '\r') then
        .error .newlineInComponentValue
      else pure value) ?_
    · simpa using hsam
    intro line hl text ht
    obtain ⟨s, hs, ht⟩ := bind_eq_ok.mp ht
    have hs := requireStr_eq_ok hs
    obtain ⟨hlf, hcr⟩ := newline_notMem_of_toStr hs
    cases ht
    have hlf' : byte '\n' ∉ trim isOws s := fun hm => hlf (mem_of_mem_trim hm)
    have hcr' : byte '\r' ∉ trim isOws s := fun hm => hcr (mem_of_mem_trim hm)
    rw [id, requireStr_of_toStr hs]
    simp [bind, Except.bind, normalizeFieldValue, hlf', hcr', pure, Except.pure]
  · by_cases hempty : out.isEmpty
    · simp [hempty, pure, Except.pure] at h
    · simpa [hempty, pure, Except.pure] using h

def signedHeaders : MessageSignatureContext → HeaderMap
  | .request _ _ _ headers _ => headers
  | .response _ headers _ => headers
  | .requestResponse _ _ _ _ _ _ responseHeaders _ => responseHeaders

lemma ensureComponentValue_of_visible {c : MessageSignatureComponent}
    (hc : c.isHeaderField) (h : Visible value) : ensureComponentValue c value = .ok () := by
  have hlf : byte '\n' ∉ value := fun hm => absurd (h _ hm) (by decide)
  have hcr : byte '\r' ∉ value := fun hm => absurd (h _ hm) (by decide)
  have hcon : ∀ b ∈ value, isControl b = false := by
    intro b hb
    have hv := h b hb
    grind [isVisible, isControl]
  unfold ensureComponentValue
  simp [hlf, hcr, hc]
  intro b hb hbad
  simp [hcon b hb] at hbad

variable [Base64]

def sha256ContentDigestValueFromDigest (digest : Bytes) : Option HeaderValue :=
  HeaderValue.fromStr (ascii "sha-256=:" ++ Base64.encode digest ++ [byte ':'])

def sha256ContentDigestValue (body : Bytes) : Option HeaderValue :=
  sha256ContentDigestValueFromDigest (Sha256.compute body)

variable (headers : HeaderMap)

omit [Base64] in
def combinedContentDigest : Except MessageSignatureError (Option Bytes) :=
  combinedFieldValue .malformedContentDigest headers contentDigest

/-- The bytes of a serialized byte sequence member, with or without parameters. -/
def byteSequenceMember (member : Bytes) : Except MessageSignatureError Bytes :=
  match member with
  | [] => .error .malformedContentDigest
  | first :: rest =>
    if first ≠ byte ':' then .error .malformedContentDigest
    else if byte ':' ∉ rest then .error .malformedContentDigest
    else
      let encoded := rest.takeWhile (· ≠ byte ':')
      let parameters := (rest.dropWhile (· ≠ byte ':')).tail
      if parameters ≠ [] ∧ parameters.head? ≠ some (byte ';') then .error .malformedContentDigest
      else
        match Base64.decode encoded with
        | some digest => .ok digest
        | none => .error .malformedContentDigest

def verifySha256ContentDigest (body : Bytes) : Except MessageSignatureError Unit := do
  match ← combinedContentDigest headers with
  | none => .error (.missingHeader contentDigest)
  | some value =>
    match dictionary value with
    | .error _ => .error .malformedContentDigest
    | .ok entries =>
      match entries.reverse.find? (·.1 = ascii "sha-256") with
      | none => .error .unsupportedContentDigestAlgorithm
      | some (_, member) =>
        let digest ← byteSequenceMember member
        if digest = Sha256.compute body then .ok () else .error .contentDigestMismatch

variable {value : Bytes}

lemma parseDictionaryField_eq (input : Bytes) :
    parseDictionaryField input = (parseAscii parseDictionaryEntries input).map
      fun entries => ⟨Assoc.foldIn [] entries⟩ := by
  unfold parseDictionaryField parseAscii parseComplete parseDictionary
  split
  · simp only [Parser.bind_apply]
    cases hl : discardSp input with
    | error e => rfl
    | ok lead =>
      dsimp only
      cases he : parseDictionaryEntries lead.2 with
      | error e => rfl
      | ok entries =>
        simp only [Parser.pure_apply]
        cases ht : discardSp entries.2 with
        | error e => rfl
        | ok tail =>
          dsimp only
          cases hempty : (Parser.isEmpty : FieldParser Bool) tail.2 with
          | error e => rfl
          | ok done => cases hd : done.1 <;> simp [hd] <;> rfl
  · rfl

lemma eq_byteSequence {item : BareItem} (h : item.Canonical)
    (hc : item.serialize = byte ':' :: rest) : ∃ digest, item = .byteSequence digest := by
  have hn : ∀ {b : UInt8}, b = byte '-' ∨ isDigit b → b ≠ byte ':' := by
    intro b hb heq
    subst heq
    exact absurd hb (by decide)
  cases item with
  | byteSequence digest => exact ⟨digest, rfl⟩
  | integer value =>
    obtain ⟨negative, ds, hds, hv, -⟩ := IsInteger.exists_fixed h
    obtain ⟨b, rest', hb, hcons⟩ := sign_append_head hds negative []
    rw [append_nil, ← hv] at hcons
    exact absurd (List.cons.inj (hcons.symm.trans hc)).1 (hn hb)
  | decimal value =>
    obtain ⟨negative, ds, fs, hds, -, hv, -⟩ := IsDecimal.exists_fixed h
    obtain ⟨b, rest', hb, hcons⟩ := sign_append_head hds negative (byte '.' :: fs)
    have ht : value = b :: rest' := by
      rw [hv, ← hcons]
      simp
    exact absurd (List.cons.inj (ht.symm.trans hc)).1 (hn hb)
  | token value =>
    obtain ⟨b, rest', rfl, hb, -⟩ := h
    rw [(List.cons.inj hc).1] at hb
    cases hb
  | date value =>
    obtain ⟨digits, -, rfl⟩ := h
    exact absurd (List.cons.inj hc).1 (by decide)
  | string value => exact absurd (List.cons.inj hc).1 (by decide : byte '"' ≠ byte ':')
  | boolean value => cases value <;> exact absurd (List.cons.inj hc).1 (by decide)
  | displayString value => exact absurd (List.cons.inj hc).1 (by decide : byte '%' ≠ byte ':')

lemma colon_notMem_encode (digest : Bytes) : byte ':' ∉ encode digest :=
  fun hm => absurd (encode_alphabet digest (byte ':') hm) (by decide)

lemma byteSequenceMember_encode (digest parameters : Bytes) :
    byteSequenceMember (byte ':' :: (encode digest ++ byte ':' :: parameters)) =
      if parameters ≠ [] ∧ parameters.head? ≠ some (byte ';') then .error .malformedContentDigest
      else .ok digest := by
  have hc := colon_notMem_encode digest
  have hall : ∀ b ∈ encode digest, decide (b ≠ byte ':') := by
    intro b hb
    rw [decide_eq_true_eq]
    exact fun heq => hc (heq ▸ hb)
  have ht : (encode digest ++ byte ':' :: parameters).takeWhile (· ≠ byte ':') =
      encode digest := by
    rw [takeWhile_append_of_pos hall]
    simp
  have hd : (encode digest ++ byte ':' :: parameters).dropWhile (· ≠ byte ':') =
      byte ':' :: parameters := by
    rw [dropWhile_append_of_pos hall]
    simp
  have hm : byte ':' ∈ encode digest ++ byte ':' :: parameters := by simp
  simp only [byteSequenceMember, ne_eq, not_true_eq_false, if_false, hm]
  rw [ht, hd, decode_encode]
  rfl

lemma byteSequenceMember_eq_ok {member : ItemOrInnerList} (h : member.Canonical)
    (hd : byteSequenceMember member.serialize = .ok digest) :
    ∃ parameters, member = .item ⟨.byteSequence digest, parameters⟩ := by
  have hs : ∃ rest, member.serialize = byte ':' :: rest := by
    cases ht : member.serialize with
    | nil => simp [ht, byteSequenceMember] at hd
    | cons first rest =>
      by_cases hc : first = byte ':'
      · exact ⟨rest, by rw [hc]⟩
      · simp [ht, byteSequenceMember, hc] at hd
  obtain ⟨rest, ht⟩ := hs
  cases member with
  | innerList list => exact absurd (List.cons.inj ht).1 (by decide : byte '(' ≠ byte ':')
  | item item =>
    obtain ⟨bareItem, parameters⟩ := item
    have hi : Item.Canonical ⟨bareItem, parameters⟩ := h
    obtain ⟨first, rest', hcons, -⟩ := hi.bareItem.head
    have hf : first = byte ':' := by
      have hspl : (ItemOrInnerList.item ⟨bareItem, parameters⟩).serialize =
          first :: (rest' ++ parameters.serialize) := by
        simp [ItemOrInnerList.serialize, Item.serialize, hcons]
      exact (List.cons.inj (hspl.symm.trans ht)).1
    obtain ⟨value, rfl⟩ := eq_byteSequence hi.bareItem (hf ▸ hcons)
    have hser : (ItemOrInnerList.item ⟨.byteSequence value, parameters⟩).serialize =
        byte ':' :: (encode value ++ byte ':' :: parameters.serialize) := by
      simp [ItemOrInnerList.serialize, Item.serialize, BareItem.serialize]
    rw [hser, byteSequenceMember_encode] at hd
    split_ifs at hd
    · exact ⟨parameters, by rw [Except.ok.inj hd]⟩

/-- The field holds a dictionary whose `sha-256` member, the last one, is the digest of a body. -/
def HasSha256Digest (body : Bytes) : Prop :=
  ∃ text dictionary parameters, canonicalHeaderValue headers contentDigest = .ok text ∧
    parseDictionaryField text = .ok dictionary ∧ Dictionary.Canonical dictionary ∧
    dictionary.member (ascii "sha-256") =
      some (.item ⟨.byteSequence (Sha256.compute body), parameters⟩)

/-- What an accepted digest says about the field. -/
theorem hasSha256Digest_of_verify {headers : HeaderMap} {body : Bytes}
    (h : verifySha256ContentDigest headers body = .ok ()) : HasSha256Digest headers body := by
  obtain ⟨combined, hc, h⟩ := bind_eq_ok.mp h
  cases combined with
  | none => simp at h
  | some text =>
    have ht := canonicalHeaderValue_of_combinedFieldValue hc
    dsimp only at h
    split at h
    · simp at h
    rename_i entries he
    obtain ⟨members, hcan, hp, rfl⟩ := dictionary_eq_ok he
    have hfie : parseDictionaryField text = .ok ⟨Assoc.foldIn [] members⟩ := by
      rw [parseDictionaryField_eq, hp]
      rfl
    split at h
    · simp at h
    rename_i key serialized hf
    obtain ⟨digest, hd, h⟩ := bind_eq_ok.mp h
    split at h
    next hs =>
      rw [← map_reverse, List.find?_map, Option.map_eq_some_iff] at hf
      obtain ⟨entry, hf, hent⟩ := hf
      have hmem : entry ∈ members := mem_reverse.mp (mem_of_find?_eq_some hf)
      rw [← (Prod.mk.inj hent).2] at hd
      obtain ⟨parameters, hm⟩ := byteSequenceMember_eq_ok (hcan entry hmem).2 hd
      refine ⟨text, _, parameters, ht, hfie, parseAscii_eq_ok ensures_parseDictionary hfie, ?_⟩
      rw [Dictionary.member, Assoc.get_foldIn, ← hs, ← hm]
      have hl : members.reverse.find? (·.1 = ascii "sha-256") = some entry := hf
      rw [hl]
      rfl
    · simp at h

/-- `"content-digest";key="sha-256"`. -/
def sha256Member : MessageSignatureComponent where
  kind := .header contentDigest
  parameters := [.key (ascii "sha-256")]

lemma componentValue_sha256Member [FormUrlencoded] {context : MessageSignatureContext}
    (h : canonicalHeaderDictionaryMemberValue (signedHeaders context) contentDigest
      (ascii "sha-256") = .ok value) : context.componentValue sha256Member = .ok value := by
  cases context with
  | request method targetUri requestTarget headers trailers => exact h
  | response status headers trailers => exact h
  | requestResponse method targetUri requestTarget requestHeaders requestTrailers status
      responseHeaders responseTrailers => exact h

/-- A digest that was compared with a body is the one that a signature over the keyed member covers:
every signature base with these fields has a line with the SHA-256 of the body. -/
theorem checked_digest_is_signed_digest [FormUrlencoded] (headers : HeaderMap) (body : Bytes)
    (h : verifySha256ContentDigest headers body = .ok ()) :
    ∃ parameters value,
      value = (Item.mk (.byteSequence (Sha256.compute body)) parameters).serialize ∧
      ∀ context, signedHeaders context = headers →
        context.componentValue sha256Member = .ok value ∧
        componentLine context sha256Member =
          .ok (ascii "\"content-digest\";key=\"sha-256\"" ++ ascii ": " ++ value) := by
  obtain ⟨text, dictionary, parameters, ht, hp, hcan, hm⟩ :=
    hasSha256Digest_of_verify h
  have hval : canonicalHeaderDictionaryMemberValue headers contentDigest (ascii "sha-256") =
      .ok (Item.mk (.byteSequence (Sha256.compute body)) parameters).serialize := by
    unfold canonicalHeaderDictionaryMemberValue
    rw [ht]
    simp only [bind, Except.bind, hp, hm]
    rfl
  refine ⟨parameters, _, rfl, fun context hcon => ?_⟩
  have hc : context.componentValue sha256Member = .ok _ :=
    componentValue_sha256Member (hcon ▸ hval)
  refine ⟨hc, ?_⟩
  have hv : Visible (Item.mk (.byteSequence (Sha256.compute body)) parameters).serialize :=
    ItemOrInnerList.Canonical.visible (hcan.entry _ (Assoc.mem_of_get hm)).2
  unfold componentLine
  simp only [bind_eq_ok]
  exact ⟨_, rfl, _, hc, (), ensureComponentValue_of_visible rfl hv, rfl⟩

end

/-- Two lines with the key `sha-256` twice; the later one is the digest of `hello`. -/
def repeatedDigest : HeaderMap :=
  ⟨[(contentDigest, ⟨ascii "sha-256=:AQ==:, sha-512=:AA==:", by decide⟩),
    (contentDigest,
      ⟨ascii "sha-256=:LPJNul+wow4m6DsqxbninhsWHlwfp0JecwQzYpOLmCQ=:;q=1", by decide⟩)]⟩

theorem checked_digest_is_signed_digest_repeated :
    (@verifySha256ContentDigest .standard repeatedDigest (ascii "hello")).toOption.isSome =
      true ∧
    ∃ parameters, @MessageSignatureContext.componentValue .standard .standard
      (.response 200 repeatedDigest none) sha256Member = .ok (@Item.serialize .standard
        ⟨.byteSequence (Sha256.compute (ascii "hello")), parameters⟩) := by
  have hsome : (@verifySha256ContentDigest .standard repeatedDigest
      (ascii "hello")).toOption.isSome = true := by decide +kernel
  have hok : @verifySha256ContentDigest .standard repeatedDigest (ascii "hello") =
      .ok () := by
    cases h : @verifySha256ContentDigest .standard repeatedDigest (ascii "hello") with
    | error e =>
      rw [h] at hsome
      exact absurd hsome (by simp [Except.toOption])
    | ok u => rfl
  obtain ⟨parameters, value, rfl, hv⟩ := @checked_digest_is_signed_digest .standard
    .standard repeatedDigest (ascii "hello") hok
  exact ⟨hsome, parameters, (hv (.response 200 repeatedDigest none) rfl).1⟩

end Aioduct.DigestFields
