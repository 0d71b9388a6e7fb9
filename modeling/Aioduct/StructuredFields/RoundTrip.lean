import Aioduct.StructuredFields.Canonical

/-!
# Canonical serializations parse back

Each parser reads the serialization of a canonical value and stops in front of anything that
cannot continue it.
-/

namespace Aioduct.StructuredFields

open Wire Wire.Parser List Reads Assoc

variable {fs digits key rest : Bytes}

/-! ### Numbers -/

variable {ds s t value : Bytes} {n : Nat} {member : ItemOrInnerList}

lemma isDigits_stripLeadingZeroes (h : IsDigits n ds) : IsDigits n (stripLeadingZeroes ds) := by
  fun_induction stripLeadingZeroes ds with
  | case1 => exact absurd rfl h.ne_nil
  | case2 d => exact h
  | case3 e rest ih =>
    refine ih ⟨by simp, fun b hb => h.digits b (mem_cons_of_mem _ hb), ?_⟩
    have hlen := h.length_le
    simp only [length_cons] at hlen ⊢
    omega
  | case4 d e rest hd => exact h

lemma stripLeadingZeroes_idem (ds : Bytes) :
    stripLeadingZeroes (stripLeadingZeroes ds) = stripLeadingZeroes ds := by
  fun_induction stripLeadingZeroes ds with
  | case1 => rfl
  | case2 d => rfl
  | case3 e rest ih => exact ih
  | case4 d e rest hd => simp [stripLeadingZeroes, hd]

lemma isDigits_reverse (h : IsDigits n ds) : IsDigits n ds.reverse where
  ne_nil := by simpa using h.ne_nil
  digits := fun b hb => h.digits b (by simpa using hb)
  length_le := by simpa using h.length_le

lemma isDigits_stripTrailingZeroes (h : IsDigits n ds) : IsDigits n (stripTrailingZeroes ds) :=
  isDigits_reverse (isDigits_stripLeadingZeroes (isDigits_reverse h))

lemma stripTrailingZeroes_idem (ds : Bytes) :
    stripTrailingZeroes (stripTrailingZeroes ds) = stripTrailingZeroes ds := by
  simp [stripTrailingZeroes, stripLeadingZeroes_idem]

lemma IsInteger.exists_fixed (h : IsInteger s) :
    ∃ negative digits, IsDigits 15 digits ∧ s = sign negative ++ digits ∧
      serializeInteger negative digits = s := by
  obtain ⟨negative, digits, hd, rfl⟩ := h
  refine ⟨negative && stripLeadingZeroes digits != ascii "0", stripLeadingZeroes digits,
    isDigits_stripLeadingZeroes hd, rfl, ?_⟩
  simp only [serializeInteger, stripLeadingZeroes_idem]
  cases negative <;> cases (stripLeadingZeroes digits != ascii "0") <;> rfl

lemma IsDecimal.exists_fixed (h : IsDecimal s) :
    ∃ negative integerDigits fractionDigits, IsDigits 12 integerDigits ∧
      IsDigits 3 fractionDigits ∧
      s = sign negative ++ integerDigits ++ [byte '.'] ++ fractionDigits ∧
      serializeDecimal negative integerDigits fractionDigits = s := by
  obtain ⟨negative, integerDigits, fractionDigits, hi, hf, rfl⟩ := h
  refine ⟨negative && (stripLeadingZeroes integerDigits != ascii "0" ||
      (stripTrailingZeroes fractionDigits).any (· != byte '0')),
    stripLeadingZeroes integerDigits, stripTrailingZeroes fractionDigits,
    isDigits_stripLeadingZeroes hi, isDigits_stripTrailingZeroes hf, rfl, ?_⟩
  simp only [serializeDecimal, stripLeadingZeroes_idem, stripTrailingZeroes_idem]
  generalize (stripLeadingZeroes integerDigits != ascii "0" ||
    (stripTrailingZeroes fractionDigits).any (· != byte '0')) = nonZero
  cases negative <;> cases nonZero <;> rfl

variable (b : UInt8)

def isNumberChar : Bool := isDigit b || b == byte '.'

lemma isDigits_head (h : IsDigits n ds) (t : Bytes) :
    ∃ b rest, isDigit b ∧ ds ++ t = b :: rest := by
  cases ds with
  | nil => exact absurd rfl h.ne_nil
  | cons b rest => exact ⟨b, rest ++ t, h.digits b (by simp), rfl⟩

lemma ne_of_isDigit {b c : UInt8} (hb : isDigit b) (hc : isDigit c = false) : b ≠ c := by
  rintro rfl
  simp [hb] at hc

lemma reads_sign (hds : IsDigits n ds) (negative : Bool) (t : Bytes) :
    Reads (consumeIf (byte '-') : FieldParser Bool) (sign negative) negative (ds ++ t) := by
  cases negative with
  | true => exact reads_consumeIf _ _
  | false =>
    apply reads_consumeIf_false
    obtain ⟨b, rest, hb, hcons⟩ := isDigits_head hds t
    rw [hcons]
    simpa using ne_of_isDigit hb (by decide)

lemma reads_parseNumber_integer (hds : IsDigits 15 ds) (negative : Bool)
    (ht : Stops isNumberChar t) :
    Reads parseNumber (sign negative ++ ds)
      ⟨.integer (serializeInteger negative ds), false⟩ t := by
  have hd : Stops isDigit t := ht.mono fun b hb => by simp [isNumberChar, hb]
  have hdot : Stops (· == byte '.') t := ht.mono fun b hb => by
    simp [isNumberChar, hb, Bool.or_true]
  obtain ⟨b, rest, hb, hcons⟩ := isDigits_head hds t
  have hlen := hds.length_le
  apply bind (reads_sign hds negative t)
  rw [reads_peek_bind, hcons]
  simp only [head?_cons, Option.any_some, hb, Bool.not_true, Bool.false_eq_true, if_false]
  apply bind_last (reads_takeWhile hds.digits hd)
  apply reads_consumeIf_ite_of_stops hdot
  rw [if_neg (by omega)]
  exact reads_pure _ _

lemma reads_parseNumber_decimal (hds : IsDigits 12 ds) (hfs : IsDigits 3 fs)
    (negative : Bool) (ht : Stops isNumberChar t) :
    Reads parseNumber (sign negative ++ (ds ++ (byte '.' :: fs)))
      ⟨.decimal (serializeDecimal negative ds fs), true⟩ t := by
  have hd : Stops isDigit t := ht.mono fun b hb => by simp [isNumberChar, hb]
  obtain ⟨b, rest, hb, hcons⟩ := isDigits_head hds (byte '.' :: fs ++ t)
  have hlen := hds.length_le
  have hf := hfs.length_le
  have hne := hfs.ne_nil
  apply Reads.bind (by simpa using reads_sign hds negative (byte '.' :: fs ++ t))
  rw [reads_peek_bind, append_assoc, hcons]
  simp only [head?_cons, Option.any_some, hb, Bool.not_true, Bool.false_eq_true, if_false]
  apply Reads.bind (reads_takeWhile hds.digits (by simp; decide))
  rw [reads_consumeIf_ite, if_neg (by omega)]
  apply bind_last (reads_takeWhile hfs.digits hd)
  rw [if_neg (by simp [hne]; omega)]
  exact reads_pure _ _

/-! ### Strings and tokens -/

lemma reads_parseStringRound {b : UInt8} (hb : isVisible b) (out t : Bytes) :
    Reads (parseStringRound out) (escapeStringByte b) (.again (out ++ [b])) t := by
  by_cases he : b = byte '"' ∨ b = byte '\\'
  · rw [escapeStringByte, if_pos he, parseStringRound, reads_consume_bind]
    simp only [if_true]
    rw [reads_consume_bind]
    simp only [he, if_true]
    exact reads_pure _ _
  have hc : ¬(b ≤ 0x1f ∨ b = 0x7f) := by grind [isVisible]
  rw [escapeStringByte, if_neg he, parseStringRound, reads_consume_bind]
  rw [not_or] at he
  simp only [he.1, he.2, hc, if_false]
  exact reads_pure _ _

lemma escapeStringByte_ne_nil : escapeStringByte b ≠ [] := by
  unfold escapeStringByte
  split <;> exact cons_ne_nil _ _

/-- The rounds behind the first quote, up to the last one. -/
lemma reads_quoted {ε β : Type} {e : ε} {round : Bytes → Parser ε (Round Bytes β)}
    {result : Bytes → β} (hv : Visible value)
    (hrou : ∀ {b}, isVisible b → ∀ out t,
      Reads (round out) (escapeStringByte b) (.again (out ++ [b])) t)
    (hd : ∀ out t, Reads (round out) [byte '"'] (.done (result out)) t) (t : Bytes) :
    Reads (loop e round []) (value.flatMap escapeStringByte ++ [byte '"']) (result value) t := by
  apply loop_flatMap (J := fun out rest => Visible rest ∧ out ++ rest = value) ⟨hv, rfl⟩
  · rintro out ⟨-, rfl⟩
    rw [append_nil]
    exact hd out t
  · rintro out b rest ⟨hr, rfl⟩
    rw [visible_cons] at hr
    exact ⟨escapeStringByte_ne_nil b, out ++ [b], ⟨hr.2, by simp⟩, hrou hr.1 out _⟩

lemma reads_parseString (hv : Visible value) (t : Bytes) :
    Reads parseString (serializeString value) (.string value) t := by
  exact reads_quoted hv reads_parseStringRound (fun _ _ => rfl) t

lemma lowercaseHexValue_hexDigit :
    ∀ b : UInt8, lowercaseHexValue (hexDigit (b >>> 4)) = some (b >>> 4) ∧
      lowercaseHexValue (hexDigit (b &&& 0x0f)) = some (b &&& 0x0f) ∧
      ((b >>> 4) <<< 4) ||| (b &&& 0x0f) = b := by
  decide +kernel

lemma reads_parseDisplayStringRound (bytes t : Bytes) :
    Reads (parseDisplayStringRound bytes) (escapeDisplayByte b) (.again (bytes ++ [b])) t := by
  have hp : ¬(isControl (byte '%') ∨ byte '%' = 0x7f) := by decide
  by_cases he : b = byte '%' ∨ b = byte '"' ∨ b ≤ 0x1f ∨ 0x7f ≤ b
  · obtain ⟨hh, hl, hj⟩ := lowercaseHexValue_hexDigit b
    rw [escapeDisplayByte, if_pos he, parseDisplayStringRound, reads_consume_bind]
    simp only [hp, if_false, if_true]
    rw [reads_consume_bind]
    rw [reads_consume_bind]
    simp only [hh, hl, hj]
    exact reads_pure _ _
  have hc : ¬(isControl b ∨ b = 0x7f) := by grind [isControl]
  rw [escapeDisplayByte, if_neg he, parseDisplayStringRound, reads_consume_bind]
  simp only [not_or] at he
  simp only [hc, he.1, he.2.1, if_false]
  exact reads_pure _ _

lemma escapeDisplayByte_ne_nil : escapeDisplayByte b ≠ [] := by
  unfold escapeDisplayByte
  split <;> exact cons_ne_nil _ _

lemma reads_parseDisplayString (hv : Utf8.valid value) (t : Bytes) :
    Reads parseDisplayString (serializeDisplayString value) (.displayString value) t := by
  apply loop_flatMap (J := fun bytes rest => bytes ++ rest = value) rfl
  · intro bytes hb
    have hq : ¬(isControl (byte '"') ∨ byte '"' = 0x7f) := by decide
    have hne : ¬byte '"' = byte '%' := by decide
    rw [append_nil] at hb
    rw [parseDisplayStringRound, reads_consume_bind]
    simp only [hq, hne, hb, hv, if_true, if_false]
    exact reads_pure _ _
  · rintro bytes b rest rfl
    exact ⟨escapeDisplayByte_ne_nil b, bytes ++ [b], by simp, reads_parseDisplayStringRound b bytes _⟩

lemma reads_parseDate (hd : IsInteger digits) (ht : Stops isNumberChar t) :
    Reads parseDate (byte '@' :: digits) (.date (byte '@' :: digits)) t := by
  obtain ⟨negative, ds, hds, hv, hf⟩ := hd.exists_fixed
  unfold parseDate
  rw [reads_consumeIf_ite, hv]
  apply bind_last (reads_parseNumber_integer hds negative ht)
  rw [hf, hv]
  exact reads_pure _ _

lemma reads_parseByteSequence [Base64] (value t : Bytes) :
    Reads parseByteSequence ([byte ':'] ++ Base64.encode value ++ [byte ':'])
      (.byteSequence value) t := by
  have ha := Base64.encode_alphabet value
  have hlen := Base64.length_encode value
  have hs : ∀ b ∈ Base64.encode value, (b != byte ':') := by
    intro b hb
    have hc := ha b hb
    simp only [bne_iff_ne, ne_eq]
    rintro rfl
    cases hc
  have hany : ¬(Base64.encode value).any (!isBase64Char ·) := by simpa using ha
  unfold parseByteSequence
  rw [append_assoc, singleton_append, reads_consumeIf_ite]
  apply Reads.bind (reads_takeWhile hs (by simp))
  rw [reads_consumeIf_ite, if_neg hany]
  simp only [hlen, Nat.sub_zero, Nat.mod_self, replicate_zero, append_nil, Base64.decode_encode]
  exact reads_pure _ _

lemma sign_append_head (hds : IsDigits n ds) (negative : Bool) (t : Bytes) :
    ∃ b rest, (b = byte '-' ∨ isDigit b) ∧ sign negative ++ ds ++ t = b :: rest := by
  cases negative with
  | true => exact ⟨byte '-', ds ++ t, Or.inl rfl, rfl⟩
  | false =>
    obtain ⟨b, rest, hb, hcons⟩ := isDigits_head hds t
    exact ⟨b, rest, Or.inr hb, by simpa [sign] using hcons⟩

lemma isNumberChar_isTokenChar (b : UInt8) (h : isNumberChar b) : isTokenChar b := by
  simp only [isNumberChar, Bool.or_eq_true, beq_iff_eq] at h
  rcases h with h | rfl
  · simp [isTokenChar, isTchar, isAlphanumeric, h]
  · decide

lemma isKeyChar_isTokenChar (b : UInt8) (h : isKeyChar b) : isTokenChar b := by
  simp only [isKeyChar, Bool.or_eq_true, beq_iff_eq] at h
  rcases h with ((((h | h) | rfl) | rfl) | rfl) | rfl
  · simp [isTokenChar, isTchar, isAlphanumeric, isAlphabetic, h]
  · simp [isTokenChar, isTchar, isAlphanumeric, h]
  all_goals decide

lemma isKeyStart_isKeyChar (b : UInt8) (h : isKeyStart b) : isKeyChar b := by
  simp only [isKeyStart, Bool.or_eq_true, beq_iff_eq] at h
  rcases h with h | rfl
  · simp [isKeyChar, h]
  · decide

lemma reads_discardSp (lead : Bytes) (hl : ∀ b ∈ lead, (b == byte ' '))
    (hs : Stops (· == byte ' ') s) : Reads discardSp lead () s :=
  map (reads_takeWhile hl hs) fun _ => ()

lemma reads_discardOws (lead : Bytes) (hl : ∀ b ∈ lead, isOws b) (hs : Stops isOws s) :
    Reads discardOws lead () s :=
  map (reads_takeWhile hl hs) fun _ => ()

lemma reads_nextMember_comma {α : Type} (members : α) (hne : t ≠ []) (ht : Stops isOws t) :
    Reads (nextMember members) (ascii ", ") (.again members) t := by
  have hc : ascii ", " = byte ',' :: [byte ' '] := rfl
  rw [hc]
  apply bind_nil (reads_discardOws [] (by simp) (by simp; decide))
  rw [reads_isEmpty_bind]
  simp only [List.cons_append, List.isEmpty_cons, Bool.false_eq_true, if_false]
  rw [reads_consumeIf_ite]
  apply bind_last (reads_discardOws [byte ' '] (by simp [isOws]) ht)
  rw [reads_isEmpty_bind, List.nil_append]
  simp only [List.isEmpty_iff, hne, if_false]
  exact reads_pure _ _

lemma serializeDictionaryMember_of_ne {member : Bytes} (h : ∀ rest, member ≠ ascii "?1" ++ rest) :
    serializeDictionaryMember key member = key ++ byte '=' :: member := by
  unfold serializeDictionaryMember
  cases hd : member.dropPrefix? (ascii "?1") with
  | none => simp
  | some rest => exact absurd (dropPrefix?_eq_some.mp hd) (h rest)

lemma serializeDictionaryMember_elided {parameters : Bytes}
    (h : parameters = [] ∨ parameters.head? = some (byte ';')) :
    serializeDictionaryMember key (ascii "?1" ++ parameters) = key ++ parameters := by
  unfold serializeDictionaryMember
  rw [dropPrefix?_eq_some.mpr rfl]
  rcases h with h | h
  · simp [h]
  · simp [h]

variable [Base64]

def isBareStart (b : UInt8) : Bool :=
  b == byte '-' || isDigit b || b == byte '"' || isTokenStart b || b == byte ':' ||
    b == byte '?' || b == byte '@' || b == byte '%'

omit [Base64] in
lemma isBareStart_of_number {b : UInt8} (hb : b = byte '-' ∨ isDigit b) : isBareStart b := by
  rcases hb with rfl | hb
  · rfl
  · simp [isBareStart, hb]

lemma reads_parseBareItem_number {n : Number}
    (hs : ∃ b rest, (b = byte '-' ∨ isDigit b) ∧ s ++ t = b :: rest)
    (h : Reads parseNumber s n t) : Reads parseBareItem s n.bareItem t := by
  obtain ⟨b, rest, hb, hcons⟩ := hs
  unfold parseBareItem
  rw [reads_peek_bind, hcons]
  simp only [head?_cons, hb, if_true]
  exact bind_last h (reads_pure _ _)

-- Most kinds of items are told by a fixed first byte, at which the parser computes.
theorem reads_parseBareItem {item : BareItem} (h : item.Canonical) {t : Bytes}
    (ht : Stops isTokenChar t) : Reads parseBareItem item.serialize item t := by
  have hn : Stops isNumberChar t := ht.mono isNumberChar_isTokenChar
  cases item with
  | integer value =>
    obtain ⟨negative, ds, hds, hv, hf⟩ := IsInteger.exists_fixed h
    have hr := reads_parseNumber_integer hds negative hn
    rw [hf, ← hv] at hr
    apply reads_parseBareItem_number _ hr
    rw [hv]
    exact sign_append_head hds negative t
  | decimal value =>
    obtain ⟨negative, ds, fs, hds, hfs, hv, hf⟩ := IsDecimal.exists_fixed h
    have hs : sign negative ++ (ds ++ (byte '.' :: fs)) = value := by
      rw [hv]
      simp
    have hr := reads_parseNumber_decimal hds hfs negative hn
    rw [hf, hs] at hr
    apply reads_parseBareItem_number _ hr
    rw [← hs]
    simpa using sign_append_head hds negative (byte '.' :: fs ++ t)
  | string value => exact reads_parseString h t
  | token value =>
    obtain ⟨b, rest, hv, hb, -⟩ := id h
    have hne : ¬(b = byte '-' ∨ isDigit b) := by
      grind [isTokenStart, isAlphabetic, isLowercase, isUppercase, isDigit, byte]
    have hq : b ≠ byte '"' := by
      grind [isTokenStart, isAlphabetic, isLowercase, isUppercase, byte]
    have hh : ((BareItem.token value).serialize ++ t).head? = some b := by
      rw [BareItem.serialize, hv]
      rfl
    unfold parseBareItem
    rw [reads_peek_bind, hh]
    simp only [hne, hq, hb, if_false, if_true]
    exact bind_last (reads_scan h ht) (reads_pure _ _)
  | byteSequence value => exact reads_parseByteSequence value t
  | boolean value =>
    cases value with
    | true => rfl
    | false => rfl
  | date value =>
    obtain ⟨digits, hd, rfl⟩ := h
    exact reads_parseDate hd hn
  | displayString value => exact reads_parseDisplayString h t

lemma BareItem.Canonical.head {item : BareItem} (h : item.Canonical) :
    ∃ b rest, item.serialize = b :: rest ∧ isBareStart b := by
  cases item with
  | integer value =>
    obtain ⟨negative, ds, hds, hv, -⟩ := IsInteger.exists_fixed h
    obtain ⟨b, rest, hb, hcons⟩ := sign_append_head hds negative []
    exact ⟨b, rest, by simpa [serialize, hv] using hcons, isBareStart_of_number hb⟩
  | decimal value =>
    obtain ⟨negative, ds, fs, hds, -, hv, -⟩ := IsDecimal.exists_fixed h
    obtain ⟨b, rest, hb, hcons⟩ := sign_append_head hds negative (byte '.' :: fs)
    exact ⟨b, rest, by simpa [serialize, hv] using hcons, isBareStart_of_number hb⟩
  | string value => exact ⟨byte '"', _, rfl, by decide⟩
  | token value =>
    obtain ⟨b, rest, rfl, hb, -⟩ := h
    exact ⟨b, rest, rfl, by simp [isBareStart, hb]⟩
  | byteSequence value => exact ⟨byte ':', _, rfl, by decide⟩
  | boolean value =>
    cases value with
    | true | false => exact ⟨byte '?', _, rfl, by decide⟩
  | date value =>
    obtain ⟨digits, -, rfl⟩ := h
    exact ⟨byte '@', digits, rfl, by decide⟩
  | displayString value => exact ⟨byte '%', _, rfl, by decide⟩

/-- What may continue a parameter: a byte of its key or value, or the `=` between them. -/
def isValueChar (b : UInt8) : Bool := isTokenChar b || b == byte '='

/-- What may continue an item: a byte of its last parameter, or another parameter. -/
def isItemChar (b : UInt8) : Bool := isValueChar b || b == byte ';'

omit [Base64] in
lemma stops_semicolon (ht : Stops isItemChar t) : Stops (· == byte ';') t :=
  ht.mono fun b hb => by simp only [isItemChar, hb, Bool.or_true]

lemma stops_serializeParameters (entries : List (Bytes × BareItem)) (ht : Stops isItemChar t) :
    Stops isValueChar (entries.flatMap serializeParameter ++ t) := by
  cases entries with
  | nil => exact ht.mono fun b hb => by simp [isItemChar, hb]
  | cons entry entries =>
    simp only [flatMap_cons, serializeParameter, cons_append, nil_append, stops_cons]
    decide

lemma reads_parseParametersRound {entry : Bytes × BareItem} (hk : IsKey entry.1)
    (hv : entry.2.Canonical) (entries : List (Bytes × BareItem)) (ht : Stops isValueChar t) :
    Reads (parseParametersRound entries) (serializeParameter entry)
      (.again (Assoc.replaceOrAppend entries entry.1 entry.2)) t := by
  have htok : Stops isTokenChar t := ht.mono fun b hb => by simp [isValueChar, hb]
  have he : Stops isKeyChar t := htok.mono isKeyChar_isTokenChar
  have heq : Stops (· == byte '=') t := ht.mono fun b hb => by
    simp [isValueChar, hb, Bool.or_true]
  obtain ⟨key, value⟩ := entry
  obtain ⟨tail, htai, hs, hr⟩ : ∃ tail, serializeParameter (key, value) =
      byte ';' :: (key ++ tail) ∧ Stops isKeyChar (tail ++ t) ∧
      Reads parseParameterValue tail value t := by
    by_cases htrue : value = .boolean true
    · refine ⟨[], by simp [serializeParameter, htrue, BareItem.isBooleanTrue], he, ?_⟩
      rw [htrue]
      exact reads_consumeIf_ite_of_stops heq (reads_pure _ _)
    have hfalse : value.isBooleanTrue = false := by
      cases value with
      | boolean b =>
        cases b with
        | true => exact absurd rfl htrue
        | false => rfl
      | _ => rfl
    refine ⟨byte '=' :: value.serialize, by simp [serializeParameter, hfalse], ?_, ?_⟩
    · rw [cons_append, stops_cons]
      decide
    · exact reads_consumeIf_ite.mpr (reads_parseBareItem hv htok)
  have hsp : Stops (· == byte ' ') (key ++ (tail ++ t)) := by
    obtain ⟨b, rest, rfl, hb, -⟩ := hk
    rw [cons_append, stops_cons]
    grind [isKeyStart, isLowercase, byte]
  rw [htai]
  unfold parseParametersRound
  rw [reads_consumeIf_ite]
  apply bind_nil (a := ()) _
  · apply bind (reads_scan hk hs)
    exact bind_last hr (reads_pure _ _)
  · rw [append_assoc]
    exact map (reads_takeWhile (by simp) hsp) fun _ => ()

theorem reads_parseParameters {parameters : Parameters} (h : parameters.Canonical) {t : Bytes}
    (ht : Stops isItemChar t) : Reads parseParameters parameters.serialize parameters t := by
  rw [← append_nil parameters.serialize]
  apply loop_flatMap (J := fun acc rest => acc ++ rest = parameters.entries) rfl
  · intro acc ha
    rw [append_nil] at ha
    exact reads_consumeIf_ite_of_stops (stops_semicolon ht) (ha ▸ reads_pure _ _)
  intro acc entry rest ha
  have he := h.entry entry (by simp [← ha])
  have hf : entry.1 ∉ keys acc := by
    have hnodup := h.nodup
    simp only [← ha, Assoc.keys_append, Assoc.keys_cons, nodup_append] at hnodup
    exact fun hm => hnodup.2.2 entry.1 hm entry.1 (by simp) rfl
  have hr := reads_parseParametersRound he.1 he.2 acc (stops_serializeParameters rest ht)
  rw [replaceOrAppend_of_notMem hf] at hr
  rw [append_nil]
  exact ⟨by simp [serializeParameter], acc ++ [entry], by simpa using ha, hr⟩

theorem reads_parseItem {item : Item} (h : item.Canonical) {t : Bytes}
    (ht : Stops isItemChar t) : Reads parseItem item.serialize item t := by
  have hs : Stops isTokenChar (item.parameters.serialize ++ t) :=
    (stops_serializeParameters item.parameters.entries ht).mono fun b hb => by
      simp [isValueChar, hb]
  apply bind (reads_parseBareItem h.bareItem hs)
  exact bind_last (reads_parseParameters h.parameters ht) (reads_pure _ _)

/-! ### Inner lists -/

omit [Base64] in
lemma isBareStart_separates : ∀ b : UInt8, isBareStart b →
    isOws b = false ∧ b ≠ byte '(' ∧ b ≠ byte ')' := by
  intro b hb
  rw [isOws, Bool.or_eq_false_iff, beq_eq_false_iff_ne, beq_eq_false_iff_ne]
  refine ⟨⟨?_, ?_⟩, ?_, ?_⟩ <;>
    · rintro rfl
      revert hb
      decide

lemma Item.Canonical.head {item : Item} (h : item.Canonical) :
    ∃ b rest, item.serialize = b :: rest ∧ isOws b = false ∧ b ≠ byte '(' ∧ b ≠ byte ')' := by
  obtain ⟨b, rest, hcons, hb⟩ := h.bareItem.head
  exact ⟨b, rest ++ item.parameters.serialize, by simp [Item.serialize, hcons],
    isBareStart_separates b hb⟩

lemma Item.Canonical.serialize_ne_nil {item : Item} (h : item.Canonical) : item.serialize ≠ [] := by
  obtain ⟨b, rest, hcons, -⟩ := h.head
  exact hcons ▸ cons_ne_nil _ _

/-- One round of the inner list loop: skip the separating space and read an item in front of
a space or the closing parenthesis. -/
lemma reads_parseInnerListRound {lead : Bytes} (hl : ∀ b ∈ lead, (b == byte ' '))
    {item : Item} (h : item.Canonical) (items : List Item) {c : UInt8}
    (hc : c = byte ' ' ∨ c = byte ')') (t : Bytes) :
    Reads (parseInnerListRound items) (lead ++ item.serialize) (.again (items ++ [item]))
      (c :: t) := by
  obtain ⟨b, rest, hcons, ho, -, hclo⟩ := h.head
  have hs : Stops isItemChar (c :: t) := by
    rw [stops_cons]
    rcases hc with rfl | rfl <;> decide
  have hsp : Stops (· == byte ' ') (item.serialize ++ c :: t) := by
    rw [hcons, cons_append, stops_cons]
    simp only [isOws, Bool.or_eq_false_iff] at ho
    exact ho.1
  have hn : some c = some (byte ' ') ∨ some c = some (byte ')') := by simpa using hc
  apply bind (reads_discardSp lead hl hsp)
  rw [reads_peek_bind]
  simp only [hcons, cons_append, head?_cons, hclo, if_false]
  rw [← hcons]
  apply bind_last (reads_parseItem h hs)
  rw [reads_peek_bind]
  simp only [nil_append, head?_cons, hn, if_true]
  exact reads_pure _ _

lemma reads_parseInnerList_loop (items acc : List Item) (hi : ∀ i ∈ items, i.Canonical)
    {parameters : Parameters} (hp : parameters.Canonical) (lead : Bytes)
    (hl : ∀ b ∈ lead, (b == byte ' ')) (ht : Stops isItemChar t) :
    Reads (loop .parse parseInnerListRound acc)
      (lead ++ ((ascii " ").intercalate (items.map Item.serialize) ++
        byte ')' :: parameters.serialize)) ⟨acc ++ items, parameters⟩ t := by
  induction items generalizing acc lead with
  | nil =>
    apply loop_done
    rw [append_nil]
    apply Reads.bind (reads_discardSp lead hl (by simp; decide))
    rw [reads_peek_bind]
    change Reads (consume >>= _) (byte ')' :: parameters.serialize) _ _
    rw [reads_consume_bind]
    exact bind_last (reads_parseParameters hp ht) (reads_pure _ _)
  | cons item items ih =>
    simp only [mem_cons, forall_eq_or_imp] at hi
    cases items with
    | nil =>
      have hr := ih (acc ++ [item]) (by simp) [] (by simp)
      simp only [map_cons, map_nil, intercalate_singleton, ← append_assoc lead]
      apply loop_again (reads_parseInnerListRound hl hi.1 acc (Or.inr rfl) _)
        (append_ne_nil_of_right_ne_nil _ hi.1.serialize_ne_nil)
      simpa using hr
    | cons item' items =>
      have hr := ih (acc ++ [item]) hi.2 [byte ' '] (by simp)
      have hs : lead ++ ((ascii " ").intercalate ((item :: item' :: items).map Item.serialize)
          ++ byte ')' :: parameters.serialize) = (lead ++ item.serialize) ++ ([byte ' '] ++
            ((ascii " ").intercalate ((item' :: items).map Item.serialize) ++
              byte ')' :: parameters.serialize)) := by simp [ascii]
      rw [hs]
      apply loop_again (reads_parseInnerListRound hl hi.1 acc (Or.inl rfl) _)
        (append_ne_nil_of_right_ne_nil _ hi.1.serialize_ne_nil)
      simpa using hr

theorem reads_parseInnerList {list : InnerList} (h : list.Canonical) {t : Bytes}
    (ht : Stops isItemChar t) : Reads parseInnerList list.serialize list t := by
  have hl := reads_parseInnerList_loop list.items [] h.items h.parameters [] (by simp) ht
  unfold parseInnerList InnerList.serialize
  rw [append_assoc, append_assoc, singleton_append, reads_consumeIf_ite]
  simpa using hl

theorem reads_parseItemOrInnerList {member : ItemOrInnerList} (h : member.Canonical) {t : Bytes}
    (ht : Stops isItemChar t) : Reads parseItemOrInnerList member.serialize member t := by
  cases member with
  | item value =>
    obtain ⟨b, rest, hcons, -, ho, -⟩ := Item.Canonical.head h
    have hh : (value.serialize ++ t).head? ≠ some (byte '(') := by simpa [hcons] using ho
    change Reads (if (value.serialize ++ t).head? = some (byte '(') then _ else _) _ _ _
    rw [if_neg hh]
    exact map (reads_parseItem h ht) _
  | innerList value => exact map (reads_parseInnerList h ht) _

lemma ItemOrInnerList.Canonical.head (h : member.Canonical) :
    ∃ b rest, member.serialize = b :: rest ∧ isOws b = false := by
  cases member with
  | item value =>
    obtain ⟨b, rest, hcons, ho, -⟩ := Item.Canonical.head h
    exact ⟨b, rest, hcons, ho⟩
  | innerList value => exact ⟨byte '(', _, rfl, by decide⟩

/-! ### Lists and dictionaries -/

omit [Base64] in
/-- Reading a comma-separated sequence: rounds that read one member and then look for the next
one append all members. -/
lemma reads_members_loop {α : Type} (round : List α → FieldParser (Round (List α) (List α)))
    (print : α → Bytes) {P : α → Prop}
    (hh : ∀ a, P a → ∃ b rest, print a = b :: rest ∧ isOws b = false)
    (hl : ∀ acc, round acc [] = .ok (.done acc, []))
    (hr : ∀ a, P a → ∀ acc s r t, Stops isItemChar (s ++ t) →
      Reads (nextMember (acc ++ [a])) s r t → Reads (round acc) (print a ++ s) r t)
    (members acc : List α) (hm : ∀ a ∈ members, P a) :
    Reads (loop .parse round acc) ((ascii ", ").intercalate (members.map print))
      (acc ++ members) [] := by
  induction members generalizing acc with
  | nil =>
    apply loop_done
    rw [append_nil]
    exact hl acc
  | cons a members ih =>
    simp only [mem_cons, forall_eq_or_imp] at hm
    cases members with
    | nil =>
      apply loop_done
      exact hr a hm.1 acc [] _ [] (by simp) rfl
    | cons a' members =>
      have hres := ih (acc ++ [a]) hm.2
      obtain ⟨b, rest, hcons, ho⟩ := hh a' (hm.2 a' (by simp))
      have hn : ∃ rest', (ascii ", ").intercalate ((a' :: members).map print) = b :: rest' := by
        cases members with
        | nil => exact ⟨rest, by simpa using hcons⟩
        | cons a'' members => exact ⟨rest ++ _, by simp [hcons]; rfl⟩
      obtain ⟨rest', hn⟩ := hn
      rw [map_cons, map_cons, intercalate_cons_cons, ← map_cons]
      apply loop_again
      · apply hr a hm.1 acc (ascii ", ")
        · rw [show ascii ", " = byte ',' :: [byte ' '] from rfl, cons_append, stops_cons]
          decide
        · rw [append_nil, hn]
          exact reads_nextMember_comma _ (by simp) (by simpa using ho)
      · exact append_ne_nil_of_right_ne_nil _ (cons_ne_nil _ _)
      · simpa using hres

theorem reads_parseList {list : SfList} (h : list.Canonical) :
    Reads parseList list.serialize list [] := by
  have hl := reads_members_loop parseListRound ItemOrInnerList.serialize
    (P := ItemOrInnerList.Canonical) (fun m hm => hm.head) (fun _ => rfl) ?_ list.members [] h
  · unfold parseList SfList.serialize
    exact bind_last hl (reads_pure _ _)
  intro member hmem acc s r t hs hn
  obtain ⟨b, rest, hcons, -⟩ := hmem.head
  unfold parseListRound
  rw [reads_isEmpty_bind]
  simp only [hcons, cons_append, isEmpty_cons, Bool.false_eq_true, if_false]
  rw [← cons_append, ← hcons]
  exact bind (reads_parseItemOrInnerList hmem hs) hn

lemma ItemOrInnerList.Canonical.eq_true (h : member.Canonical)
    (hs : member.serialize = ascii "?1" ++ rest) :
    ∃ parameters, member = .item ⟨.boolean true, parameters⟩ := by
  cases member with
  | item value =>
    have hsto : Stops isTokenChar value.parameters.serialize := by
      have hv := stops_serializeParameters value.parameters.entries (t := []) (by simp)
      rw [append_nil] at hv
      exact hv.mono fun b hb => by simp [isValueChar, hb]
    have hr := reads_parseBareItem (Item.Canonical.bareItem h) hsto
    change parseBareItem value.serialize = _ at hr
    change value.serialize = _ at hs
    have htrue : parseBareItem (ascii "?1" ++ rest) = .ok (.boolean true, rest) := rfl
    rw [hs, htrue] at hr
    simp only [Except.ok.injEq, Prod.mk.injEq] at hr
    exact ⟨value.parameters, by rw [hr.1]⟩
  | innerList value =>
    have hh : some (byte '(') = some (byte '?') := congrArg head? hs
    cases hh

lemma serializeDictionaryMember_spec (key : Bytes) (h : member.Canonical) :
    ∃ tail, serializeDictionaryMember key member.serialize = key ++ tail ∧
      ∀ t, Stops isItemChar t → Stops isKeyChar (tail ++ t) ∧
        Reads parseMemberValue tail member t := by
  by_cases htrue : ∃ parameters, member = .item ⟨.boolean true, parameters⟩
  · obtain ⟨parameters, rfl⟩ := htrue
    have hp : parameters.Canonical := Item.Canonical.parameters h
    refine ⟨parameters.serialize, ?_, fun t ht => ?_⟩
    · apply serializeDictionaryMember_elided
      obtain ⟨entries⟩ := parameters
      cases entries with
      | nil => exact Or.inl rfl
      | cons entry entries => exact Or.inr rfl
    have hv := stops_serializeParameters parameters.entries ht
    refine ⟨hv.mono fun b hb => by simp [isValueChar, isKeyChar_isTokenChar b hb], ?_⟩
    apply reads_consumeIf_ite_of_stops
    · exact hv.mono fun b hb => by simp only [isValueChar, hb, Bool.or_true]
    · exact bind_last (reads_parseParameters hp ht) (reads_pure _ _)
  · refine ⟨byte '=' :: member.serialize, ?_, fun t ht => ⟨?_, ?_⟩⟩
    · apply serializeDictionaryMember_of_ne
      intro rest hs
      exact htrue (h.eq_true hs)
    · rw [cons_append, stops_cons]
      decide
    · exact reads_consumeIf_ite.mpr (reads_parseItemOrInnerList h ht)

def serializeEntry (entry : Bytes × ItemOrInnerList) : Bytes :=
  serializeDictionaryMember entry.1 entry.2.serialize

lemma EntryCanonical.head {entry : Bytes × ItemOrInnerList} (h : EntryCanonical entry) :
    ∃ b rest, serializeEntry entry = b :: rest ∧ isOws b = false := by
  obtain ⟨tail, ht, -⟩ := serializeDictionaryMember_spec entry.1 h.2
  obtain ⟨b, rest, hk, hb, -⟩ := h.1
  refine ⟨b, rest ++ tail, by rw [serializeEntry, ht, hk]; rfl, ?_⟩
  grind [isKeyStart, isLowercase, isOws, byte]

theorem reads_parseDictionaryEntries {entries : List (Bytes × ItemOrInnerList)}
    (h : ∀ e ∈ entries, EntryCanonical e) :
    Reads parseDictionaryEntries ((ascii ", ").intercalate (entries.map serializeEntry))
      entries [] := by
  apply reads_members_loop parseDictionaryEntriesRound serializeEntry (P := EntryCanonical)
    (fun _ he => he.head) (fun _ => rfl) _ entries [] h
  intro entry hent acc s r t hs hn
  obtain ⟨key, member⟩ := entry
  obtain ⟨b, rest, hcons, -⟩ := hent.head
  obtain ⟨tail, ht, hspe⟩ := serializeDictionaryMember_spec key hent.2
  obtain ⟨hk, hr⟩ := hspe (s ++ t) hs
  unfold parseDictionaryEntriesRound
  rw [reads_isEmpty_bind]
  simp only [hcons, cons_append, isEmpty_cons, Bool.false_eq_true, if_false]
  rw [← cons_append, ← hcons, serializeEntry, ht, append_assoc]
  apply bind (reads_scan hent.1 (by simpa using hk))
  exact bind hr hn

theorem reads_parseDictionary {dictionary : Dictionary} (h : dictionary.Canonical) :
    Reads parseDictionary dictionary.serialize dictionary [] := by
  have he := reads_parseDictionaryEntries h.entry
  apply bind_last he
  rw [foldIn_of_nodup (by simpa using h.nodup)]
  exact reads_pure _ _

end Aioduct.StructuredFields
