import Aioduct.MessageSignatures.Parsed

/-!
# Reading the covered components back

The text of a `Signature-Input` member is the serialization of an inner list of structured fields.
`SignatureInputParser` reads it back, but for the structured field types.
-/

namespace Aioduct.MessageSignatures

open Wire Wire.Parser Http StructuredFields MessageSignatureComponent
  MessageSignatureComponentParameter MessageSignatureParams List Reads BareItem

variable {b : UInt8} {key name : Bytes} {n : Nat} {l : List (Bytes × BareItem)}

lemma byteAsChar_of_isVisible (h : isVisible b) : byteAsChar b = [b] := by
  have hlt : b < 0x80 := by grind [isVisible]
  rw [byteAsChar, if_pos hlt]

variable {s value t text : Bytes} {p : MessageSignatureComponentParameter}
  {c : MessageSignatureComponent} {components : List MessageSignatureComponent}
  {params : MessageSignatureParams}

lemma asAsciiString_of_visible (h : Visible s) : asAsciiString s = s := by
  unfold asAsciiString
  induction s with
  | nil => rfl
  | cons b s ih =>
    rw [visible_cons] at h
    rw [flatMap_cons, byteAsChar_of_isVisible h.1, ih h.2, singleton_append]

variable (header : HeaderName)

lemma reads_parseInputStringRound (hb : isVisible b) (out t : Bytes) :
    Reads (parseInputStringRound header out) (escapeStringByte b) (.again (out ++ [b])) t := by
  have hc := byteAsChar_of_isVisible hb
  by_cases he : b = byte '"' ∨ b = byte '\\'
  · rw [escapeStringByte, if_pos he, parseInputStringRound, reads_consume_bind]
    simp only [if_true]
    rw [reads_consume_bind]
    simp only [he, if_true, hc]
    exact reads_pure _ _
  have hctl : ¬(b ≤ 0x1f ∨ b = 0x7f) := by grind [isVisible]
  rw [escapeStringByte, if_neg he, parseInputStringRound, reads_consume_bind]
  rw [not_or] at he
  simp only [he.1, he.2, hctl, if_false, hc]
  exact reads_pure _ _

lemma reads_parseInputString (hv : Visible value) (t : Bytes) :
    Reads (parseInputString header) (serializeString value) value t := by
  exact reads_quoted hv (reads_parseInputStringRound header) (fun _ _ => rfl) t

lemma reads_parseInputKey (hk : IsKey key) (ht : Stops isKeyChar t) :
    Reads (parseInputKey header) key key t := by
  have hr := reads_scan (e := MessageSignatureError.malformedSignatureHeader header) hk ht
  have hm := map hr asAsciiString
  rw [asAsciiString_of_visible hk.visible] at hm
  exact hm

lemma reads_parseInputNumber (hn : n < 10 ^ 15) (hd : Stops isDigit t)
    (hdot : Stops (· == byte '.') t) :
    Reads (parseInputNumber header) (numeral n) (.integer n) t := by
  have hm : Stops (· == byte '-') (numeral n ++ t) := by
    obtain ⟨b, rest, hcons⟩ := exists_cons_of_ne_nil (numeral_ne_nil n)
    have hb := isDigit_of_mem_numeral n b (by simp [hcons])
    rw [hcons, cons_append, stops_cons]
    grind [isDigit, byte]
  have hempty : (numeral n).isEmpty = false := by simp [numeral_ne_nil n]
  have hbou : digitsValue (numeral n) < 2 ^ 63 := by
    rw [digitsValue_numeral]
    omega
  apply bind_nil (reads_consumeIf_false hm)
  apply bind_last (reads_takeWhile (isDigit_of_mem_numeral n) hd)
  rw [hempty]
  apply reads_consumeIf_ite_of_stops hdot
  rw [if_pos hbou, digitsValue_numeral]
  exact reads_pure _ _

/-- The parameter values that signatures are written with: flags, strings and integers. -/
def IsWritten : BareItem → Prop
  | .boolean true => True
  | .string value => Visible value
  | .integer value => ∃ n < 10 ^ 15, value = numeral n
  | _ => False

def inputValue : BareItem → Option ParameterValue
  | .boolean true => none
  | .string value => some (.string value)
  | .integer value => some (.integer (digitsValue value))
  | _ => some .other

lemma inputValue_eq_none_iff (item : BareItem) : inputValue item = none ↔ item.isBooleanTrue := by
  cases item with
  | boolean value => cases value <;> simp [inputValue, isBooleanTrue]
  | _ => simp [inputValue, isBooleanTrue]

lemma serializeSfString_eq_ok :
    serializeSfString value = .ok text ↔ Visible value ∧ text = serializeString value := by
  unfold serializeSfString Visible
  by_cases h : value.all isVisible
  · rw [if_pos h]
    simp only [all_eq_true] at h
    simp only [Except.ok.injEq, eq_comm (a := text)]
    exact ⟨fun heq => ⟨h, heq⟩, fun heq => heq.2⟩
  · rw [if_neg h]
    simp only [all_eq_true] at h
    simp [h]

lemma requiredU64Parameter_numeral (v : UInt64) (header : HeaderName) :
    requiredU64Parameter (some (.integer (digitsValue (numeral v.toNat)))) header = .ok v := by
  simp [requiredU64Parameter]

lemma isInteger_numeral (h : n < 10 ^ 15) : IsInteger (numeral n) := by
  have hs : stripLeadingZeroes (numeral n) = numeral n := by
    rcases Nat.eq_zero_or_pos n with rfl | hpos
    · rfl
    have hh := head_numeral n hpos
    cases hdig : numeral n with
    | nil => exact absurd hdig (numeral_ne_nil n)
    | cons d rest =>
      cases rest with
      | nil => rfl
      | cons e rest =>
        have hd : d ≠ byte '0' := by simpa [hdig] using hh
        simp [stripLeadingZeroes, hd]
  refine ⟨false, numeral n, ⟨numeral_ne_nil n, isDigit_of_mem_numeral n, ?_⟩, ?_⟩
  · exact length_numeral_le (by omega) h
  · simp [serializeInteger, hs]

lemma IsWritten.canonical {item : BareItem} (h : IsWritten item) : item.Canonical := by
  cases item with
  | integer value =>
    obtain ⟨n, hn, rfl⟩ := h
    exact isInteger_numeral hn
  | string value => exact h
  | boolean value => trivial
  | decimal _ | token _ | byteSequence _ | date _ | displayString _ => exact absurd h id

variable [Base64]

lemma reads_parseInputParameterValue {item : BareItem}
    {value : ParameterValue} (hi : IsWritten item) (hv : inputValue item = some value)
    (ht : Stops isTokenChar t) :
    Reads (parseInputParameterValue header) item.serialize value t := by
  unfold parseInputParameterValue
  rw [reads_peek_bind]
  cases item with
  | string text =>
    cases hv
    have hr := (reads_parseInputString header hi t).map ParameterValue.string
    simpa [BareItem.serialize, serializeString] using hr
  | integer text =>
    obtain ⟨n, hn, rfl⟩ := hi
    simp only [inputValue, digitsValue_numeral, Option.some.injEq] at hv
    obtain rfl := hv
    have hd : Stops isDigit t := ht.mono fun b hb => by
      simp [isTokenChar, isTchar, isAlphanumeric, hb]
    have hdot : Stops (· == byte '.') t := ht.mono fun b hb => by
      rw [beq_iff_eq.mp hb]
      decide
    obtain ⟨b, rest, hcons⟩ := exists_cons_of_ne_nil (numeral_ne_nil n)
    have hb := isDigit_of_mem_numeral n b (by simp [hcons])
    have hne : b ≠ byte '"' ∧ b ≠ byte '?' := by grind [isDigit, byte]
    have hr := reads_parseInputNumber header hn hd hdot
    simpa [BareItem.serialize, hcons, hne.1, hne.2, hb] using hr
  | boolean b =>
    cases b with
    | true => simp [inputValue] at hv
    | false => exact absurd hi (by simp [IsWritten])
  | decimal _ | token _ | byteSequence _ | date _ | displayString _ =>
    exact absurd hi (by simp [IsWritten])

lemma reads_parseInputParameter {entry : Bytes × BareItem}
    (hk : IsKey entry.1) (hv : IsWritten entry.2) (ht : Stops isValueChar t) :
    ∃ text, serializeParameter entry = byte ';' :: text ∧
      Reads (parseInputParameter header) text (entry.1, inputValue entry.2) t := by
  have htok : Stops isTokenChar t := ht.mono fun b hb => by simp [isValueChar, hb]
  have he : Stops isKeyChar t := htok.mono isKeyChar_isTokenChar
  have heq : Stops (· == byte '=') t := ht.mono fun b hb => by
    simp only [isValueChar, hb, Bool.or_true]
  obtain ⟨key, item⟩ := entry
  by_cases htrue : item.isBooleanTrue
  · have hnone := (inputValue_eq_none_iff item).mpr htrue
    refine ⟨key, by simp [serializeParameter, htrue], ?_⟩
    rw [hnone]
    exact .bind_last (reads_parseInputKey header hk he)
      (reads_consumeIf_ite_of_stops heq (reads_pure _ _))
  obtain ⟨value, hsome⟩ : ∃ value, inputValue item = some value :=
    Option.ne_none_iff_exists'.mp fun hnone => htrue ((inputValue_eq_none_iff item).mp hnone)
  have hs : Stops isKeyChar (byte '=' :: item.serialize ++ t) := by
    rw [cons_append, stops_cons]
    decide
  refine ⟨key ++ byte '=' :: item.serialize, by simp [serializeParameter, htrue], ?_⟩
  rw [hsome]
  apply bind (reads_parseInputKey header hk hs)
  rw [reads_consumeIf_ite]
  exact .bind_last (reads_parseInputParameterValue header hv hsome htok) (reads_pure _ _)

/-! ### Components as items -/

def MessageSignatureComponentParameter.entry : MessageSignatureComponentParameter → Bytes × BareItem
  | .structuredField => (ascii "sf", .boolean true)
  | .key value => (ascii "key", .string value)
  | .byteSequence => (ascii "bs", .boolean true)
  | .trailer => (ascii "tr", .boolean true)
  | .relatedRequest => (ascii "req", .boolean true)
  | .name value => (ascii "name", .string value)

omit [Base64] in
lemma MessageSignatureComponentParameter.isKey_entry (p : MessageSignatureComponentParameter) :
    IsKey p.entry.1 := by
  cases p with
  | _ => exact of_decide_eq_true (by rfl)

lemma MessageSignatureComponentParameter.writeTo_eq_ok (h : p.writeTo = .ok text) :
    IsWritten p.entry.2 ∧ text = serializeParameter p.entry := by
  cases p with
  | key value | name value =>
    obtain ⟨quoted, hq, ht⟩ := bind_eq_ok.mp h
    obtain ⟨hv, rfl⟩ := serializeSfString_eq_ok.mp hq
    cases ht
    exact ⟨hv, rfl⟩
  | structuredField | byteSequence | trailer | relatedRequest =>
    cases h
    exact ⟨trivial, rfl⟩

def isPlain (b : UInt8) : Bool :=
  isVisible b && b != byte '"' && b != byte '\\' && b != byte ';'

omit [Base64] in
lemma isNameChar_isPlain : ∀ b : UInt8, isNameChar b → isPlain b ∧ b ≠ byte '@' := by
  decide +kernel

variable (kind : MessageSignatureComponentKind)

omit [Base64] in
lemma MessageSignatureComponentKind.isPlain_componentName : kind.componentName.all isPlain := by
  cases kind with
  | header name =>
    rw [componentName, name.lowercase_bytes, all_eq_true]
    exact fun b hb => (isNameChar_isPlain b (name.nameChar b hb)).1
  | _ => rfl

omit [Base64] in
lemma serializeString_of_isPlain (h : s.all isPlain) :
    serializeString s = [byte '"'] ++ s ++ [byte '"'] := by
  have hf : s.flatMap escapeStringByte = s := by
    induction s with
    | nil => rfl
    | cons b s ih =>
      rw [all_cons, Bool.and_eq_true] at h
      have hb : ¬(b = byte '"' ∨ b = byte '\\') := by
        have hp := h.1
        simp only [isPlain, Bool.and_eq_true, bne_iff_ne] at hp
        tauto
      rw [flatMap_cons, escapeStringByte, if_neg hb, ih h.2, singleton_append]
  rw [serializeString, hf]

omit [Base64] in
lemma visible_of_isPlain (h : s.all isPlain) : Visible s := by
  intro b hb
  have hp := all_eq_true.mp h b hb
  simp only [isPlain, Bool.and_eq_true] at hp
  exact hp.1.1.1

namespace MessageSignatureComponent

def item (c : MessageSignatureComponent) : Item :=
  ⟨.string c.kind.componentName, ⟨c.parameters.map entry⟩⟩

def untyped (c : MessageSignatureComponent) : MessageSignatureComponent :=
  { c with structuredFieldType := none }

def Written (c : MessageSignatureComponent) : Prop :=
  ∀ p ∈ c.parameters, IsWritten p.entry.2

lemma identifier_eq_ok {c : MessageSignatureComponent} (h : c.identifier = .ok text) :
    c.Written ∧ text = c.item.serialize := by
  obtain ⟨texts, ht, heq⟩ := bind_eq_ok.mp h
  obtain ⟨hw, rfl⟩ := except_mapM_eq_map (fun _ _ h => writeTo_eq_ok h) ht
  cases heq
  have hn := serializeString_of_isPlain c.kind.isPlain_componentName
  refine ⟨hw, ?_⟩
  simp only [item, Item.serialize, BareItem.serialize, hn, Parameters.serialize,
    flatMap_def, map_map]
  rfl

end MessageSignatureComponent

omit [Base64] in
lemma componentFromName_componentName
    (header : HeaderName) :
    componentFromName kind.componentName header = .ok { kind := kind } := by
  cases kind with
  | header name =>
    have hh : name.bytes.head? ≠ some (byte '@') := by
      intro h
      have hm := mem_of_mem_head? h
      exact (isNameChar_isPlain _ (name.nameChar _ hm)).2 rfl
    have hne : ∀ s : Bytes, s.head? = some (byte '@') → name.bytes ≠ s := by
      rintro s hs rfl
      exact hh hs
    unfold componentFromName
    simp only [MessageSignatureComponentKind.componentName, name.lowercase_bytes]
    rw [if_neg (hne _ rfl), if_neg (hne _ rfl), if_neg (hne _ rfl), if_neg (hne _ rfl),
      if_neg (hne _ rfl), if_neg (hne _ rfl), if_neg (hne _ rfl), if_neg (hne _ rfl),
      if_neg (hne _ rfl), if_neg hh]
    simp [HeaderName.fromBytes_bytes]
  | _ => rfl

omit [Base64] in
lemma componentParameter_entry (p : MessageSignatureComponentParameter) (header : HeaderName) :
    componentParameter p.entry.1 (inputValue p.entry.2) header = .ok p := by
  cases p with
  | _ => rfl

omit [Base64] in
lemma withParsedParameter_of_isWritten (h : IsWritten p.entry.2) (c : MessageSignatureComponent) :
    c.withParsedParameter p = .ok { c with parameters := c.parameters ++ [p] } := by
  cases p with
  | key value | name value =>
    have hok : serializeSfString value = .ok (serializeString value) :=
      serializeSfString_eq_ok.mpr ⟨h, rfl⟩
    simp only [withParsedParameter, validateComponentString, hok]
    rfl
  | structuredField | byteSequence | trailer | relatedRequest => rfl

lemma reads_parseComponentRound (hp : IsWritten p.entry.2)
    (c : MessageSignatureComponent) (ht : Stops isValueChar t) :
    Reads (parseComponentRound header c) (serializeParameter p.entry)
      (.again { c with parameters := c.parameters ++ [p] }) t := by
  obtain ⟨text, htex, hr⟩ := reads_parseInputParameter header p.isKey_entry hp ht
  rw [htex, parseComponentRound, reads_consumeIf_ite]
  apply bind_last hr
  apply bind_nil (reads_lift (componentParameter_entry p header) _)
  apply bind_nil (reads_lift (withParsedParameter_of_isWritten hp c) _)
  exact reads_pure _ _

lemma reads_parseComponent (hc : c.Written) (ht : Stops isItemChar t) :
    Reads (parseComponent header) c.item.serialize c.untyped t := by
  have hn := visible_of_isPlain c.kind.isPlain_componentName
  apply bind (reads_parseInputString header hn _)
  apply bind_nil (reads_lift (componentFromName_componentName c.kind header) _)
  rw [← append_nil c.item.parameters.serialize, Parameters.serialize, item, flatMap_map]
  apply loop_flatMap (J := fun d rest =>
    { d with parameters := d.parameters ++ rest } = c.untyped) rfl
  · intro d hd
    rw [append_nil] at hd
    exact reads_consumeIf_ite_of_stops (stops_semicolon ht) (hd ▸ reads_pure _ _)
  intro d p rest hd
  have hp : p ∈ c.parameters := by
    have hpar := congrArg parameters hd
    simp [← show d.parameters ++ p :: rest = c.parameters from hpar]
  have hs := stops_serializeParameters (rest.map entry) ht
  rw [flatMap_map] at hs
  rw [append_nil]
  exact ⟨by simp [serializeParameter], _, by simpa using hd,
    reads_parseComponentRound header (hc p hp) d hs⟩

lemma MessageSignatureComponent.item_head (c : MessageSignatureComponent) :
    ∃ rest, c.item.serialize = byte '"' :: rest :=
  ⟨_, rfl⟩

lemma reads_parseComponentListRound (hc : c.Written) (components : List MessageSignatureComponent)
    (t : Bytes) :
    Reads (parseComponentListRound header components) (c.item.serialize ++ [byte ' '])
      (.again (components ++ [c.untyped])) (byte '"' :: t) ∧
    Reads (parseComponentListRound header components) (c.item.serialize ++ [byte ')'])
      (.done (components ++ [c.untyped])) t :=
  ⟨.bind (reads_parseComponent header hc ((stops_cons _ _ _).mpr (by decide))) rfl,
    .bind (reads_parseComponent header hc ((stops_cons _ _ _).mpr (by decide))) rfl⟩

lemma reads_parseComponentList_loop (c : MessageSignatureComponent)
    (rest acc : List MessageSignatureComponent) (hc : c.Written) (hr : ∀ d ∈ rest, d.Written)
    (t : Bytes) :
    Reads (loop (.malformedSignatureHeader header) (parseComponentListRound header) acc)
      ((ascii " ").intercalate ((c :: rest).map (·.item.serialize)) ++ [byte ')'])
      (acc ++ (c :: rest).map untyped) t := by
  induction rest generalizing c acc with
  | nil =>
    apply loop_done
    simpa using (reads_parseComponentListRound header hc acc t).2
  | cons d rest ih =>
    simp only [mem_cons, forall_eq_or_imp] at hr
    obtain ⟨text, htex⟩ := d.item_head
    have hn : ∃ text', (ascii " ").intercalate ((d :: rest).map (·.item.serialize)) ++ [byte ')'] =
        byte '"' :: text' := by
      cases rest with
      | nil | cons e rest => exact ⟨_, by simp [htex]; rfl⟩
    obtain ⟨text', ht'⟩ := hn
    have ht := ih d (acc ++ [c.untyped]) hr.1 hr.2
    have hrou := (reads_parseComponentListRound header hc acc (text' ++ t)).1
    have hs : (ascii " ").intercalate ((c :: d :: rest).map (·.item.serialize)) ++ [byte ')'] =
        (c.item.serialize ++ [byte ' ']) ++ byte '"' :: text' := by
      rw [← ht', map_cons, map_cons, intercalate_cons_cons]
      simp [ascii]
    rw [hs]
    apply loop_again hrou (append_ne_nil_of_right_ne_nil _ (cons_ne_nil _ _))
    rw [ht'] at ht
    simpa using ht

lemma reads_parseComponentList (h : ∀ c ∈ components, c.Written) (t : Bytes) :
    Reads (parseComponentList header)
      ([byte '('] ++ (ascii " ").intercalate (components.map (·.item.serialize)) ++ [byte ')'])
      (components.map untyped) t := by
  cases components with
  | nil => exact reads_consumeIf_ite.mpr (reads_pure _ _)
  | cons c rest =>
    simp only [mem_cons, forall_eq_or_imp] at h
    have hr := reads_parseComponentList_loop header c rest [] h.1 h.2 t
    apply reads_consumeIf_ite_of_stops _ hr
    cases rest with
    | nil =>
      exact (stops_cons _ _ _).mpr (by decide)
    | cons d rest =>
      exact (stops_cons _ _ _).mpr (by decide)

/-! ### Signature parameters -/

def paramEntries {α : Type} (name : Bytes) (item : α → BareItem) (value : Option α) :
    List (Bytes × BareItem) :=
  value.toList.map fun v => (name, item v)

namespace MessageSignatureParams

def entries (params : MessageSignatureParams) : List (Bytes × BareItem) :=
  paramEntries (ascii "created") (fun v => .integer (numeral v.toNat)) params.created ++
  paramEntries (ascii "expires") (fun v => .integer (numeral v.toNat)) params.expires ++
  paramEntries (ascii "nonce") .string params.nonce ++
  paramEntries (ascii "alg") .string params.algorithm ++
  paramEntries (ascii "keyid") .string params.keyId ++
  paramEntries (ascii "tag") .string params.tag

end MessageSignatureParams

lemma serializeParam_eq_ok {α : Type} {item : α → BareItem}
    {serialize : α → Except MessageSignatureError Bytes}
    (hs : ∀ v text, serialize v = .ok text →
      IsWritten (item v) ∧ (item v).isBooleanTrue = false ∧ text = (item v).serialize)
    {value : Option α} (h : serializeParam name serialize value = .ok text) :
    (∀ e ∈ paramEntries name item value, IsWritten e.2) ∧
      text = (paramEntries name item value).flatMap serializeParameter := by
  cases value with
  | none =>
    cases h
    simp [paramEntries]
  | some v =>
    obtain ⟨valueText, hv, ht⟩ := bind_eq_ok.mp h
    obtain ⟨hw, hfalse, rfl⟩ := hs v valueText hv
    cases ht
    simp [paramEntries, hw, serializeParameter, hfalse]

lemma serializeSfInteger_written (parameter : Bytes) (v : UInt64) (text : Bytes)
    (h : serializeSfInteger parameter v = .ok text) :
    IsWritten (.integer (numeral v.toNat)) ∧
      (integer (numeral v.toNat)).isBooleanTrue = false ∧
      text = (integer (numeral v.toNat)).serialize := by
  unfold serializeSfInteger at h
  split_ifs at h with hle
  have hb : v.toNat < 10 ^ 15 := by
    have hle' : v.toNat ≤ maxStructuredFieldsInteger.toNat :=
      UInt64.le_iff_toNat_le.mp (UInt64.not_lt.mp hle)
    have hm : maxStructuredFieldsInteger.toNat = 999999999999999 := by rfl
    omega
  exact ⟨⟨v.toNat, hb, rfl⟩, rfl, (Except.ok.inj h).symm⟩

lemma serializeSfString_written (v text : Bytes) (h : serializeSfString v = .ok text) :
    IsWritten (.string v) ∧ (string v).isBooleanTrue = false ∧
      text = (string v).serialize := by
  obtain ⟨hv, rfl⟩ := serializeSfString_eq_ok.mp h
  exact ⟨hv, rfl, rfl⟩

lemma entries_append {l' : List (Bytes × BareItem)} {text' : Bytes}
    (h : (∀ e ∈ l, IsWritten e.2) ∧ text = l.flatMap serializeParameter)
    (h' : (∀ e ∈ l', IsWritten e.2) ∧ text' = l'.flatMap serializeParameter) :
    (∀ e ∈ l ++ l', IsWritten e.2) ∧ text ++ text' = (l ++ l').flatMap serializeParameter :=
  ⟨forall_mem_append.mpr ⟨h.1, h'.1⟩, by rw [h.2, h'.2, flatMap_append]⟩

lemma MessageSignatureParams.serialize_eq_ok (h : params.serialize = .ok text) :
    (∀ e ∈ params.entries, IsWritten e.2) ∧ text = params.entries.flatMap serializeParameter := by
  obtain ⟨created, hc, h⟩ := bind_eq_ok.mp h
  obtain ⟨expires, he, h⟩ := bind_eq_ok.mp h
  obtain ⟨nonce, hn, h⟩ := bind_eq_ok.mp h
  obtain ⟨algorithm, ha, h⟩ := bind_eq_ok.mp h
  obtain ⟨keyId, hk, h⟩ := bind_eq_ok.mp h
  obtain ⟨tag, ht, h⟩ := bind_eq_ok.mp h
  cases h
  have hi := entries_append (serializeParam_eq_ok (serializeSfInteger_written _) hc)
    (serializeParam_eq_ok (serializeSfInteger_written _) he)
  exact entries_append (entries_append (entries_append (entries_append hi
    (serializeParam_eq_ok serializeSfString_written hn))
    (serializeParam_eq_ok serializeSfString_written ha))
    (serializeParam_eq_ok serializeSfString_written hk))
    (serializeParam_eq_ok serializeSfString_written ht)

omit [Base64] in
lemma MessageSignatureParams.keys_entries (params : MessageSignatureParams) :
    (Assoc.keys params.entries).Sublist
      [ascii "created", ascii "expires", ascii "nonce", ascii "alg", ascii "keyid", ascii "tag"] := by
  have ho : ∀ {α : Type} (name : Bytes) (item : α → BareItem) (value : Option α),
      (Assoc.keys (paramEntries name item value)).Sublist [name] := by
    intro α name item value
    cases value with
    | none => simp [paramEntries]
    | some v => simp [paramEntries]
  simp only [entries, Assoc.keys_append]
  exact ((((((ho _ _ _).append (ho _ _ _)).append (ho _ _ _)).append (ho _ _ _)).append
    (ho _ _ _)).append (ho _ _ _))

omit [Base64] in
lemma MessageSignatureParams.isKey_entries (params : MessageSignatureParams) :
    ∀ e ∈ params.entries, IsKey e.1 := by
  intro e he
  have hm := params.keys_entries.subset (mem_map.mpr ⟨e, he, rfl⟩)
  simp only [mem_cons, not_mem_nil, or_false] at hm
  rcases hm with h | h | h | h | h | h <;> rw [h] <;> exact of_decide_eq_true (by rfl)

def setEntries (header : HeaderName) (params : MessageSignatureParams)
    (entries : List (Bytes × BareItem)) : Except MessageSignatureError MessageSignatureParams :=
  entries.foldlM (fun params e => setSignatureParam params e.1 (inputValue e.2) header) params

lemma reads_parseSignatureParams_loop (header : HeaderName) (entries : List (Bytes × BareItem))
    (he : ∀ e ∈ entries, IsKey e.1 ∧ IsWritten e.2) {result : MessageSignatureParams}
    (hset : setEntries header params entries = .ok result) (ht : Stops isItemChar t) :
    Reads (loop (.malformedSignatureHeader header) (parseSignatureParamsRound header) params)
      (entries.flatMap serializeParameter) result t := by
  induction entries generalizing params with
  | nil =>
    cases hset
    apply loop_done
    exact reads_consumeIf_ite_of_stops (stops_semicolon ht) (reads_pure _ _)
  | cons e entries ih =>
    simp only [mem_cons, forall_eq_or_imp] at he
    obtain ⟨next, hn, hr⟩ := bind_eq_ok.mp hset
    have hs := stops_serializeParameters entries ht
    obtain ⟨text, htex, hrea⟩ :=
      reads_parseInputParameter header he.1.1 he.1.2 hs
    refine .loop_again ?_ (by simp [serializeParameter]) (ih he.2 hr)
    rw [htex, parseSignatureParamsRound, reads_consumeIf_ite]
    exact .bind_last hrea (.bind_nil (reads_lift hn _) (reads_pure _ _))

omit [Base64] in
lemma setEntries_paramEntries {α : Type} {item : α → BareItem} {value : Option α}
    {header : HeaderName} {p q : MessageSignatureParams}
    (hnone : value = none → p = q) (hsome : ∀ v, value = some v →
      setSignatureParam p name (inputValue (item v)) header = .ok q) :
    setEntries header p (paramEntries name item value ++ l) = setEntries header q l := by
  cases value with
  | none => rw [← hnone rfl]; rfl
  | some v =>
    change (setSignatureParam p name (inputValue (item v)) header >>= _) = _
    rw [hsome v rfl]
    rfl

omit [Base64] in
lemma setEntries_entries (params : MessageSignatureParams) :
    setEntries header {} params.entries = .ok params := by
  obtain ⟨created, expires, nonce, algorithm, keyId, tag⟩ := params
  unfold entries
  simp only [append_assoc]
  rw [setEntries_paramEntries (q := ⟨created, none, none, none, none, none⟩),
    setEntries_paramEntries (q := ⟨created, expires, none, none, none, none⟩),
    setEntries_paramEntries (q := ⟨created, expires, nonce, none, none, none⟩),
    setEntries_paramEntries (q := ⟨created, expires, nonce, algorithm, none, none⟩),
    setEntries_paramEntries (q := ⟨created, expires, nonce, algorithm, keyId, none⟩),
    ← append_nil (paramEntries _ _ tag),
    setEntries_paramEntries (q := ⟨created, expires, nonce, algorithm, keyId, tag⟩)]
  · rfl
  all_goals first
    | (rintro rfl; rfl)
    | (rintro v rfl; rfl)
    | (rintro v rfl; exact congrArg (· >>= _) (requiredU64Parameter_numeral v header))

/-! ### The whole member -/

/-- The covered components and parameters as an inner list of structured fields. -/
def coveredList (components : List MessageSignatureComponent) (params : MessageSignatureParams) :
    InnerList :=
  ⟨components.map (·.item), ⟨params.entries⟩⟩

structure CoveredWritten (components : List MessageSignatureComponent)
    (params : MessageSignatureParams) : Prop where
  components : ∀ c ∈ components, c.Written
  params : ∀ e ∈ params.entries, IsWritten e.2

lemma signatureParamsValue_eq_ok {config : MessageSignatureConfig}
    (h : config.signatureParamsValue = .ok text) :
    CoveredWritten config.components config.params ∧
      text = (coveredList config.components config.params).serialize := by
  obtain ⟨identifiers, hi, h⟩ := bind_eq_ok.mp h
  obtain ⟨params, hp, h⟩ := bind_eq_ok.mp h
  obtain ⟨hw, rfl⟩ := except_mapM_eq_map (fun _ _ h => identifier_eq_ok h) hi
  obtain ⟨he, rfl⟩ := serialize_eq_ok hp
  cases h
  refine ⟨⟨hw, he⟩, ?_⟩
  simp only [coveredList, InnerList.serialize, Parameters.serialize, map_map]
  rfl

omit [Base64] in
lemma MessageSignatureComponent.Written.entries (h : c.Written) :
    ∀ e ∈ c.item.parameters.entries, IsKey e.1 ∧ e.2.Canonical := by
  intro e he
  obtain ⟨p, hp, rfl⟩ := mem_map.mp he
  exact ⟨p.isKey_entry, (h p hp).canonical⟩

omit [Base64] in
lemma CoveredWritten.entries (h : CoveredWritten components params) :
    ∀ e ∈ params.entries, IsKey e.1 ∧ e.2.Canonical :=
  fun e he => ⟨params.isKey_entries e he, (h.params e he).canonical⟩

lemma MessageSignatureComponent.Written.visible (h : c.Written) : Visible c.item.serialize := by
  have hn : (string c.kind.componentName).Canonical :=
    visible_of_isPlain c.kind.isPlain_componentName
  exact (visible_append _ _).mpr ⟨hn.visible, visible_serializeParameters h.entries⟩

lemma CoveredWritten.visible (h : CoveredWritten components params) :
    Visible (coveredList components params).serialize := by
  have hi : ∀ s ∈ (components.map (·.item)).map Item.serialize, Visible s := by
    intro s hs
    obtain ⟨item, hite, rfl⟩ := mem_map.mp hs
    obtain ⟨c, hc, rfl⟩ := mem_map.mp hite
    exact (h.components c hc).visible
  simp only [coveredList, InnerList.serialize, Parameters.serialize, visible_append]
  exact ⟨⟨⟨by decide, visible_intercalate (by decide) hi⟩, by decide⟩,
    visible_serializeParameters h.entries⟩

/-- The second parser reads the covered components and parameters back. -/
theorem parseSignatureInputMember_serialize {components : List MessageSignatureComponent}
    {params : MessageSignatureParams} (h : CoveredWritten components params) :
    parseSignatureInputMember (coveredList components params).serialize =
      .ok (components.map untyped, params) := by
  have hent : ∀ e ∈ params.entries, IsKey e.1 ∧ IsWritten e.2 :=
    fun e he => ⟨params.isKey_entries e he, h.params e he⟩
  have hp : Reads (parseSignatureParams signatureInputName)
      (params.entries.flatMap serializeParameter) params [] :=
    reads_parseSignatureParams_loop signatureInputName params.entries hent
      (setEntries_entries signatureInputName params) (by simp)
  have hr : Reads (parseSignatureInput signatureInputName)
      (coveredList components params).serialize
      (components.map untyped, params) [] := by
    simp only [coveredList, InnerList.serialize, Parameters.serialize, map_map]
    apply bind (reads_parseComponentList signatureInputName h.components _)
    exact bind_last hp (reads_isEmpty_bind.mpr (reads_pure _ _))
  unfold parseSignatureInputMember
  have hrun : parseSignatureInput signatureInputName (coveredList components params).serialize =
      .ok ((components.map untyped, params), []) := by simpa [Reads] using hr
  rw [hrun]
  rfl

end Aioduct.MessageSignatures
