import Aioduct.StructuredFields.RoundTrip

/-!
# Serialization after parsing

One round of parsing and serializing reaches a fixpoint.
-/

namespace Aioduct.StructuredFields

open Wire Wire.Parser List Reads

variable {n : Nat} {ds rest : Bytes} {b first : UInt8} {item : BareItem} {parameters : Parameters}
  {list : SfList}

lemma isTokenChar_isVisible : ∀ b : UInt8, isTokenChar b → isVisible b := by
  decide +kernel

lemma isTokenStart_isTokenChar (b : UInt8) (h : isTokenStart b) : isTokenChar b := by
  simp only [isTokenStart, Bool.or_eq_true, beq_iff_eq] at h
  rcases h with h | rfl
  · simp [isTokenChar, isTchar, isAlphanumeric, h]
  · decide

variable {s key : Bytes}

lemma IsScanned.tokenChars {start p : UInt8 → Bool} (h : IsScanned start p s)
    (hs : ∀ b, start b → isTokenChar b)
    (hp : ∀ b, p b → isTokenChar b) : ∀ b ∈ s, isTokenChar b := by
  obtain ⟨b, rest, rfl, hb, hr⟩ := h
  simp only [mem_cons, forall_eq_or_imp]
  exact ⟨hs b hb, fun c hc => hp c (hr c hc)⟩

lemma IsKey.tokenChars (h : IsKey key) : ∀ b ∈ key, isTokenChar b :=
  IsScanned.tokenChars h (fun b hb => isKeyChar_isTokenChar b (isKeyStart_isKeyChar b hb))
    isKeyChar_isTokenChar

lemma IsKey.visible (h : IsKey key) : Visible key :=
  visible_of_all isTokenChar_isVisible h.tokenChars

lemma IsDigits.visible (h : IsDigits n ds) : Visible ds :=
  visible_of_all (p := isDigit) (fun b hb => by grind [isDigit, isVisible, byte]) h.digits

lemma visible_sign (negative : Bool) : Visible (sign negative) := by
  cases negative <;> decide

lemma IsInteger.visible (h : IsInteger s) : Visible s := by
  obtain ⟨negative, ds, hds, rfl, -⟩ := h.exists_fixed
  exact (visible_append _ _).mpr ⟨visible_sign negative, hds.visible⟩

lemma IsDecimal.visible (h : IsDecimal s) : Visible s := by
  obtain ⟨negative, ds, fs, hds, hfs, rfl, -⟩ := h.exists_fixed
  simp only [visible_append]
  exact ⟨⟨⟨visible_sign negative, hds.visible⟩, by decide⟩, hfs.visible⟩

lemma visible_escapeStringByte (h : isVisible b) : Visible (escapeStringByte b) := by
  unfold escapeStringByte
  split
  · simpa [h] using (by decide : isVisible (byte '\\'))
  · simpa using h

lemma visible_escapeDisplayByte : ∀ b : UInt8, Visible (escapeDisplayByte b) := by
  decide +kernel

section Serialized

lemma visible_serializeDictionaryMember {member : Bytes} (hk : Visible key)
    (hm : Visible member) : Visible (serializeDictionaryMember key member) := by
  unfold serializeDictionaryMember
  have heq : Visible (key ++ [byte '='] ++ member) := by
    simp only [visible_append, hk, hm, and_true, true_and]
    decide
  cases hd : member.dropPrefix? (ascii "?1") with
  | none => exact heq
  | some parameters =>
    rw [dropPrefix?_eq_some.mp hd, visible_append] at hm
    dsimp only
    split
    · exact (visible_append _ _).mpr ⟨hk, hm.2⟩
    · exact heq

lemma isTokenChar_not_ows (b : UInt8) (h : isTokenChar b) : isOws b = false := by
  rw [isOws, Bool.or_eq_false_iff, beq_eq_false_iff_ne, beq_eq_false_iff_ne]
  constructor <;>
    · rintro rfl
      revert h
      decide

lemma IsKey.stopsEnd (h : IsKey key) : StopsEnd isOws key :=
  stopsEnd_of_all fun b hb => isTokenChar_not_ows b (h.tokenChars b hb)

lemma IsDigits.stopsEnd (h : IsDigits n ds) : StopsEnd isOws ds :=
  stopsEnd_of_all fun b hb => by
    have hb := h.digits b hb
    grind [isDigit, isOws, byte]

lemma IsInteger.stopsEnd (h : IsInteger s) : StopsEnd isOws s := by
  obtain ⟨negative, ds, hds, rfl, -⟩ := h.exists_fixed
  exact hds.stopsEnd.append_right hds.ne_nil

lemma IsInteger.ne_nil (h : IsInteger s) : s ≠ [] := by
  obtain ⟨negative, ds, hds, rfl, -⟩ := h.exists_fixed
  simp [hds.ne_nil]

lemma stopsEnd_serializeDictionaryMember {member : Bytes} (hk : StopsEnd isOws key)
    (hm : StopsEnd isOws member) : StopsEnd isOws (serializeDictionaryMember key member) := by
  have heq : StopsEnd isOws (key ++ [byte '='] ++ member) :=
    ((stopsEnd_concat _ _ _).mpr (by decide)).append hm
  unfold serializeDictionaryMember
  cases hd : member.dropPrefix? (ascii "?1") with
  | none => exact heq
  | some parameters =>
    dsimp only
    split
    · by_cases hne : parameters = []
      · simpa [hne] using hk
      have hp : StopsEnd isOws parameters := by
        unfold StopsEnd at hm ⊢
        rwa [dropPrefix?_eq_some.mp hd, List.getLast?_append_of_ne_nil _ hne] at hm
      exact hk.append hp
    · exact heq

lemma parseAscii_of_reads {α : Type} {parse : FieldParser α} {a : α} (hs : Visible s)
    (ho : Stops isOws s) (hr : Reads parse s a []) : parseAscii parse s = .ok a := by
  have hsp : Stops (· == byte ' ') s := ho.mono fun b hb => by simp_all [isOws]
  have hc : Reads (parseComplete parse) s a [] := by
    apply bind_nil (reads_discardSp [] (by simp) (by simpa using hsp))
    exact bind_last hr (bind_nil (reads_discardSp [] (by simp) (by simp)) rfl)
  have hrun : parseComplete parse s = .ok (a, []) := by simpa [Reads] using hc
  unfold parseAscii
  rw [if_pos hs.isAscii, hrun]
  rfl

lemma stops_intercalate {l : List Bytes}
    (h : ∀ s ∈ l, ∃ b rest, s = b :: rest ∧ isOws b = false) :
    Stops isOws ((ascii ", ").intercalate l) := by
  cases l with
  | nil => simp
  | cons s l =>
    obtain ⟨b, rest, rfl, hb⟩ := h s (by simp)
    cases l with
    | nil => simpa using hb
    | cons s' l =>
      exact (stops_cons _ _ _).mpr hb

variable [Base64]

lemma BareItem.Canonical.visible (h : item.Canonical) : Visible item.serialize := by
  cases item with
  | integer value => exact IsInteger.visible h
  | decimal value => exact IsDecimal.visible h
  | string value =>
    simp only [serialize, serializeString, visible_append]
    exact ⟨⟨by decide, visible_flatMap fun b hb => visible_escapeStringByte (h b hb)⟩, by decide⟩
  | token value =>
    exact visible_of_all isTokenChar_isVisible
      (IsScanned.tokenChars h isTokenStart_isTokenChar fun _ hb => hb)
  | byteSequence value =>
    simp only [serialize, visible_append]
    refine ⟨⟨by decide, ?_⟩, by decide⟩
    refine visible_of_all (p := isBase64Char) ?_ (Base64.encode_alphabet value)
    decide +kernel
  | boolean value =>
    cases value with
    | true => exact (by decide : Visible (ascii "?1"))
    | false => exact (by decide : Visible (ascii "?0"))
  | date value =>
    obtain ⟨digits, hd, rfl⟩ := h
    exact (visible_cons _ _).mpr ⟨by decide, hd.visible⟩
  | displayString value =>
    simp only [serialize, serializeDisplayString, visible_append]
    exact ⟨⟨by decide, visible_flatMap fun b _ => visible_escapeDisplayByte b⟩, by decide⟩

lemma visible_serializeParameters {entries : List (Bytes × BareItem)}
    (h : ∀ e ∈ entries, IsKey e.1 ∧ e.2.Canonical) :
    Visible (entries.flatMap serializeParameter) := by
  apply visible_flatMap
  intro entry he
  obtain ⟨hk, hv⟩ := h entry he
  unfold serializeParameter
  split
  · simpa [hk.visible] using (by decide : isVisible (byte ';'))
  · simp only [visible_append, hk.visible, hv.visible, and_true]
    decide

lemma Parameters.Canonical.visible (h : parameters.Canonical) : Visible parameters.serialize :=
  visible_serializeParameters h.entry

lemma Item.Canonical.visible {item : Item} (h : item.Canonical) : Visible item.serialize :=
  (visible_append _ _).mpr ⟨h.bareItem.visible, h.parameters.visible⟩

variable {member : ItemOrInnerList} {entries : List (Bytes × ItemOrInnerList)} {input : Bytes}

lemma ItemOrInnerList.Canonical.visible (h : member.Canonical) : Visible member.serialize := by
  cases member with
  | item value => exact Item.Canonical.visible h
  | innerList value =>
    simp only [serialize, InnerList.serialize, visible_append]
    refine ⟨⟨⟨by decide, visible_intercalate (by decide) ?_⟩, by decide⟩, h.parameters.visible⟩
    intro s hs
    obtain ⟨item, hi, rfl⟩ := mem_map.mp hs
    exact (h.items item hi).visible

lemma EntryCanonical.visible {entry : Bytes × ItemOrInnerList} (h : EntryCanonical entry) :
    Visible (serializeEntry entry) :=
  visible_serializeDictionaryMember h.1.visible h.2.visible

lemma visible_serializeEntries (h : ∀ e ∈ entries, EntryCanonical e) :
    Visible ((ascii ", ").intercalate (entries.map serializeEntry)) := by
  apply visible_intercalate (by decide)
  intro s hs
  obtain ⟨entry, he, rfl⟩ := mem_map.mp hs
  exact (h entry he).visible

lemma SfList.Canonical.visible (h : list.Canonical) : Visible list.serialize := by
  apply visible_intercalate (by decide)
  intro s hs
  obtain ⟨member, hm, rfl⟩ := mem_map.mp hs
  exact (h member hm).visible

lemma BareItem.Canonical.stopsEnd (h : item.Canonical) : StopsEnd isOws item.serialize := by
  cases item with
  | integer value => exact IsInteger.stopsEnd h
  | decimal value =>
    obtain ⟨negative, ds, fs, hds, hfs, hv, -⟩ := IsDecimal.exists_fixed h
    rw [serialize, hv]
    exact hfs.stopsEnd.append_right hfs.ne_nil
  | string value | byteSequence value | displayString value =>
    exact (stopsEnd_concat _ _ _).mpr (by decide)
  | token value =>
    exact stopsEnd_of_all fun b hb => isTokenChar_not_ows b
      (IsScanned.tokenChars h isTokenStart_isTokenChar (fun _ hb => hb) b hb)
  | boolean value =>
    cases value with
    | true => exact (stopsEnd_concat isOws [byte '?'] (byte '1')).mpr (by decide)
    | false => exact (stopsEnd_concat isOws [byte '?'] (byte '0')).mpr (by decide)
  | date value =>
    obtain ⟨digits, hd, rfl⟩ := h
    exact hd.stopsEnd.append_right (s := [byte '@']) hd.ne_nil

lemma Parameters.Canonical.stopsEnd (h : parameters.Canonical) :
    StopsEnd isOws parameters.serialize := by
  apply stopsEnd_flatMap
  intro entry he
  obtain ⟨hk, hv⟩ := h.entry entry he
  have hs : StopsEnd isOws [byte ';'] := (stopsEnd_concat isOws [] _).mpr (by decide)
  have heq : StopsEnd isOws [byte '='] := (stopsEnd_concat isOws [] _).mpr (by decide)
  unfold serializeParameter
  split
  · rw [append_nil]
    exact hs.append hk.stopsEnd
  · exact (hs.append hk.stopsEnd).append (heq.append hv.stopsEnd)

lemma ItemOrInnerList.Canonical.stopsEnd (h : member.Canonical) :
    StopsEnd isOws member.serialize := by
  cases member with
  | item value =>
    exact (Item.Canonical.bareItem h).stopsEnd.append (Item.Canonical.parameters h).stopsEnd
  | innerList value =>
    apply StopsEnd.append _ (InnerList.Canonical.parameters h).stopsEnd
    exact (stopsEnd_concat _ _ _).mpr (by decide)

lemma stopsEnd_serializeEntries (h : ∀ e ∈ entries, EntryCanonical e) :
    StopsEnd isOws ((ascii ", ").intercalate (entries.map serializeEntry)) := by
  apply stopsEnd_intercalate
  intro s hs
  obtain ⟨entry, he, rfl⟩ := mem_map.mp hs
  have hc := h entry he
  obtain ⟨b, rest, hcons, -⟩ := hc.head
  exact ⟨by simp [hcons], stopsEnd_serializeDictionaryMember hc.1.stopsEnd hc.2.stopsEnd⟩

lemma parseItemField_serialize {item : Item} (h : item.Canonical) :
    parseItemField item.serialize = .ok item := by
  obtain ⟨b, rest, hcons, ho, -⟩ := h.head
  apply parseAscii_of_reads h.visible _ (reads_parseItem h (by simp))
  rw [hcons]
  exact (stops_cons _ _ _).mpr ho

lemma parseListField_serialize (h : list.Canonical) : parseListField list.serialize = .ok list := by
  apply parseAscii_of_reads h.visible _ (reads_parseList h)
  apply stops_intercalate
  intro s hs
  obtain ⟨member, hm, rfl⟩ := mem_map.mp hs
  exact (h member hm).head

lemma stops_serializeEntries (h : ∀ e ∈ entries, EntryCanonical e) :
    Stops isOws ((ascii ", ").intercalate (entries.map serializeEntry)) := by
  apply stops_intercalate
  intro s hs
  obtain ⟨entry, he, rfl⟩ := mem_map.mp hs
  exact (h entry he).head

lemma parseDictionaryField_serialize {dictionary : Dictionary} (h : dictionary.Canonical) :
    parseDictionaryField dictionary.serialize = .ok dictionary :=
  parseAscii_of_reads (visible_serializeEntries h.entry) (stops_serializeEntries h.entry)
    (reads_parseDictionary h)

lemma dictionary_serializeEntries (h : ∀ e ∈ entries, EntryCanonical e) :
    dictionary ((ascii ", ").intercalate (entries.map serializeEntry)) =
      .ok (entries.map fun entry => (entry.1, entry.2.serialize)) := by
  unfold dictionary
  rw [parseAscii_of_reads (visible_serializeEntries h) (stops_serializeEntries h)
    (reads_parseDictionaryEntries h)]
  rfl

lemma dictionary_single (hk : IsKey key)
    (hm : member.Canonical) (ht : member.serialize = first :: rest)
    (hf : first ≠ byte '?') :
    dictionary (key ++ [byte '='] ++ member.serialize) = .ok [(key, member.serialize)] := by
  have hent : ∀ e ∈ [(key, member)], EntryCanonical e := by
    intro e he
    obtain rfl := mem_singleton.mp he
    exact ⟨hk, hm⟩
  have hne : ∀ rest', member.serialize ≠ ascii "?1" ++ rest' := by
    intro rest' heq
    rw [ht] at heq
    exact hf (List.cons.inj heq).1
  have hl : key ++ [byte '='] ++ member.serialize = serializeEntry (key, member) := by
    rw [serializeEntry, serializeDictionaryMember_of_ne hne]
    simp
  have hp := dictionary_serializeEntries hent
  simpa [hl] using hp

lemma dictionary_eq_ok {entries : List (Bytes × Bytes)} (h : dictionary input = .ok entries) :
    ∃ members : List (Bytes × ItemOrInnerList), (∀ e ∈ members, EntryCanonical e) ∧
      parseAscii parseDictionaryEntries input = .ok members ∧
      entries = members.map fun entry => (entry.1, entry.2.serialize) := by
  obtain ⟨members, hp, rfl⟩ := exceptMap_eq_ok.mp h
  exact ⟨members, parseAscii_eq_ok ensures_parseDictionaryEntries hp, hp, rfl⟩

/-- A raw dictionary entry whose member is the text of a canonical member. -/
def CanonicalText (entry : Bytes × Bytes) : Prop :=
  IsKey entry.1 ∧ ∃ member : ItemOrInnerList, member.Canonical ∧ entry.2 = member.serialize

lemma canonicalText_of_dictionary {entries : List (Bytes × Bytes)}
    (h : dictionary input = .ok entries) : ∀ e ∈ entries, CanonicalText e := by
  obtain ⟨members, hm, -, rfl⟩ := dictionary_eq_ok h
  intro e he
  obtain ⟨entry, hent, rfl⟩ := mem_map.mp he
  exact ⟨(hm entry hent).1, entry.2, (hm entry hent).2, rfl⟩

lemma exists_members {entries : List (Bytes × Bytes)} (h : ∀ e ∈ entries, CanonicalText e) :
    ∃ members : List (Bytes × ItemOrInnerList), (∀ e ∈ members, EntryCanonical e) ∧
      entries = members.map fun entry => (entry.1, entry.2.serialize) := by
  induction entries with
  | nil => exact ⟨[], by simp, rfl⟩
  | cons entry entries ih =>
    simp only [mem_cons, forall_eq_or_imp] at h
    obtain ⟨hk, member, hmem, ht⟩ := h.1
    obtain ⟨members, hm, rfl⟩ := ih h.2
    refine ⟨(entry.1, member) :: members, ?_, by simp [← ht]⟩
    simp only [mem_cons, forall_eq_or_imp]
    exact ⟨⟨hk, hmem⟩, hm⟩

lemma serializeDictionary_spec {entries : List (Bytes × Bytes)}
    (h : ∀ e ∈ entries, CanonicalText e) :
    Visible (serializeDictionary entries) ∧
      trim isOws (serializeDictionary entries) = serializeDictionary entries ∧
      dictionary (serializeDictionary entries) = .ok entries := by
  obtain ⟨members, hm, rfl⟩ := exists_members h
  rw [serializeDictionary, map_map]
  exact ⟨visible_serializeEntries hm,
    trim_of_stops (stops_serializeEntries hm) (stopsEnd_serializeEntries hm),
    dictionary_serializeEntries hm⟩

lemma parseFieldValue_serialize {fieldType : StructuredFieldType} {value : StructuredFieldValue}
    (h : parseFieldValue input fieldType = .ok value) :
    parseFieldValue value.serialize fieldType = .ok value := by
  cases fieldType with
  | dictionary =>
    obtain ⟨d, hp, rfl⟩ := exceptMap_eq_ok.mp h
    exact congrArg (Except.map _)
      (parseDictionaryField_serialize (parseAscii_eq_ok ensures_parseDictionary hp))
  | list =>
    obtain ⟨l, hp, rfl⟩ := exceptMap_eq_ok.mp h
    exact congrArg (Except.map _) (parseListField_serialize (parseAscii_eq_ok ensures_parseList hp))
  | item =>
    obtain ⟨i, hp, rfl⟩ := exceptMap_eq_ok.mp h
    exact congrArg (Except.map _) (parseItemField_serialize (parseAscii_eq_ok ensures_parseItem hp))

/-- The canonical form is a fixpoint: a parsed field value parses back from its serialization, and
the entries of a raw dictionary come back in order and with their duplicates. -/
theorem canonical_form_fixpoint (input : Bytes) :
    (∀ fieldType value, parseFieldValue input fieldType = .ok value →
      parseFieldValue value.serialize fieldType = .ok value ∧
      (parseFieldValue value.serialize fieldType).map StructuredFieldValue.serialize =
        (parseFieldValue input fieldType).map StructuredFieldValue.serialize) ∧
    (∀ entries, dictionary input = .ok entries →
      dictionary (serializeDictionary entries) = .ok entries) := by
  refine ⟨fun fieldType value h => ⟨parseFieldValue_serialize h, ?_⟩,
    fun entries h => (serializeDictionary_spec (canonicalText_of_dictionary h)).2.2⟩
  rw [parseFieldValue_serialize h, h]

end Serialized

/-- A dictionary with the key `a` twice, a padded integer, an unpadded byte sequence and spaces
that the serialization drops. -/
theorem canonical_form_fixpoint_repeated_key :
    (∃ value, @parseFieldValue .standard
        (ascii "a=-007;q, b, a=(\"s\"  :AQI:); n=?0") .dictionary = .ok value ∧
      @StructuredFieldValue.serialize .standard value =
        ascii "a=(\"s\" :AQI=:);n=?0, b" ∧
      @parseFieldValue .standard (@StructuredFieldValue.serialize .standard value)
        .dictionary = .ok value) ∧
    (@dictionary .standard (serializeDictionary [(ascii "a", ascii "-7;q"),
      (ascii "b", ascii "?1"), (ascii "a", ascii "(\"s\" :AQI=:);n=?0")]) =
      .ok [(ascii "a", ascii "-7;q"), (ascii "b", ascii "?1"),
        (ascii "a", ascii "(\"s\" :AQI=:);n=?0")]) := by
  refine ⟨⟨.dictionary ⟨[(ascii "a", .innerList ⟨[⟨.string (ascii "s"), ⟨[]⟩⟩,
      ⟨.byteSequence [1, 2], ⟨[]⟩⟩], ⟨[(ascii "n", .boolean false)]⟩⟩),
      (ascii "b", .item ⟨.boolean true, ⟨[]⟩⟩)]⟩, by rfl, by rfl, ?_⟩, ?_⟩
  · exact ((@canonical_form_fixpoint .standard
      (ascii "a=-007;q, b, a=(\"s\"  :AQI:); n=?0")).1 .dictionary _ (by rfl)).1
  · exact (@canonical_form_fixpoint .standard
      (ascii "a=-007;q, b, a=(\"s\"  :AQI:); n=?0")).2 _ (by rfl)

end Aioduct.StructuredFields
