import Aioduct.StructuredFields.Parser

/-!
# Canonical values

What the parser can produce: numbers in the image of the number serializers, printable strings,
tokens, well-formed UTF-8, keys of the key grammar and distinct parameter keys.
-/

namespace Aioduct.StructuredFields

open Wire Wire.Parser

variable {s t key input : Bytes}

/-- A nonempty string of digits of at most `n` bytes. -/
structure IsDigits (n : Nat) (s : Bytes) : Prop where
  ne_nil : s ≠ []
  digits : ∀ b ∈ s, isDigit b = true
  length_le : s.length ≤ n

def IsKey (s : Bytes) : Prop := IsScanned isKeyStart isKeyChar s

instance (s : Bytes) : Decidable (IsKey s) :=
  inferInstanceAs (Decidable (IsScanned isKeyStart isKeyChar s))

def IsInteger (s : Bytes) : Prop :=
  ∃ negative digits, IsDigits 15 digits ∧ s = serializeInteger negative digits

def IsDecimal (s : Bytes) : Prop :=
  ∃ negative integerDigits fractionDigits, IsDigits 12 integerDigits ∧
    IsDigits 3 fractionDigits ∧ s = serializeDecimal negative integerDigits fractionDigits

def BareItem.Canonical : BareItem → Prop
  | .integer value => IsInteger value
  | .decimal value => IsDecimal value
  | .string value => Visible value
  | .token value => IsScanned isTokenStart isTokenChar value
  | .byteSequence _ | .boolean _ => True
  | .date value => ∃ digits, IsInteger digits ∧ value = byte '@' :: digits
  | .displayString value => Utf8.valid value = true

structure Parameters.Canonical (parameters : Parameters) : Prop where
  nodup : (Assoc.keys parameters.entries).Nodup
  entry : ∀ e ∈ parameters.entries, IsKey e.1 ∧ e.2.Canonical

structure Item.Canonical (item : Item) : Prop where
  bareItem : item.bareItem.Canonical
  parameters : item.parameters.Canonical

structure InnerList.Canonical (list : InnerList) : Prop where
  items : ∀ item ∈ list.items, item.Canonical
  parameters : list.parameters.Canonical

def ItemOrInnerList.Canonical : ItemOrInnerList → Prop
  | .item value => value.Canonical
  | .innerList value => value.Canonical

/-- A dictionary member as the entry loop produces it; keys may repeat. -/
def EntryCanonical (entry : Bytes × ItemOrInnerList) : Prop :=
  IsKey entry.1 ∧ entry.2.Canonical

structure Dictionary.Canonical (dictionary : Dictionary) : Prop where
  nodup : (Assoc.keys dictionary.entries).Nodup
  entry : ∀ e ∈ dictionary.entries, EntryCanonical e

def SfList.Canonical (list : SfList) : Prop := ∀ member ∈ list.members, member.Canonical

def sign (negative : Bool) : Bytes := if negative then [byte '-'] else []

lemma isDigits_takeWhile (h : s.head?.any isDigit) {n : Nat}
    (hn : (s.takeWhile isDigit).length ≤ n) : IsDigits n (s.takeWhile isDigit) where
  ne_nil := by
    cases s with
    | nil => simp at h
    | cons b s =>
      have hb : isDigit b := by simpa using h
      simp [hb]
  digits := fun b hb => List.mem_takeWhile_imp hb
  length_le := hn

lemma parseNumber_eq_ok {n : Number} (h : parseNumber s = .ok (n, t)) :
    (∃ negative digits, IsDigits 15 digits ∧ s = sign negative ++ digits ++ t ∧
      n = ⟨.integer (serializeInteger negative digits), false⟩) ∨
    (∃ negative integerDigits fractionDigits, IsDigits 12 integerDigits ∧
      IsDigits 3 fractionDigits ∧
      s = sign negative ++ integerDigits ++ [byte '.'] ++ fractionDigits ++ t ∧
      n = ⟨.decimal (serializeDecimal negative integerDigits fractionDigits), true⟩) := by
  obtain ⟨negative, s₁, hsig, h⟩ := bind_eq_ok.mp h
  have hs : s = sign negative ++ s₁ := consumeIf_eq_ok hsig
  simp only [peek_bind_apply] at h
  by_cases hd : s₁.head?.any isDigit
  · simp only [hd, Bool.not_true, Bool.false_eq_true, if_false, takeWhile_bind_apply] at h
    have hspl : s₁ = s₁.takeWhile isDigit ++ s₁.dropWhile isDigit := by simp
    obtain ⟨dot, s₂, hdot, h⟩ := bind_eq_ok.mp h
    have hs₂ := consumeIf_eq_ok hdot
    cases dot with
    | false =>
      by_cases hlen : (s₁.takeWhile isDigit).length > 15
      · simp [hlen] at h
      simp only [Bool.false_eq_true, if_false, hlen, pure_apply, Except.ok.injEq,
        Prod.mk.injEq] at h
      obtain ⟨rfl, rfl⟩ := h
      refine Or.inl ⟨negative, s₁.takeWhile isDigit, isDigits_takeWhile hd (by omega), ?_, rfl⟩
      simp only [Bool.false_eq_true, if_false, List.nil_append] at hs₂
      rw [hs, List.append_assoc, ← hs₂, ← hspl]
    | true =>
      by_cases hlen : (s₁.takeWhile isDigit).length > 12
      · simp [hlen] at h
      simp only [if_true, hlen, if_false, takeWhile_bind_apply] at h
      by_cases hf : ((s₂.takeWhile isDigit).isEmpty ||
          decide ((s₂.takeWhile isDigit).length > 3))
      · simp only [hf, if_true, fail_apply, reduceCtorEq] at h
      rw [if_neg hf, pure_apply] at h
      obtain ⟨rfl, rfl⟩ := h
      simp only [Bool.or_eq_true, List.isEmpty_iff, decide_eq_true_eq, not_or] at hf
      refine Or.inr ⟨negative, s₁.takeWhile isDigit, s₂.takeWhile isDigit,
        isDigits_takeWhile hd (by omega),
        ⟨hf.1, fun b hb => List.mem_takeWhile_imp hb, by omega⟩, ?_, rfl⟩
      calc s = sign negative ++ (s₁.takeWhile isDigit ++ s₁.dropWhile isDigit) := by
            rw [← hspl, ← hs]
        _ = _ := by
            rw [hs₂]
            simp
  · simp [hd] at h

lemma Parameters.Canonical.replaceOrAppend {entries : List (Bytes × BareItem)}
    (h : Canonical ⟨entries⟩) {value : BareItem} (hk : IsKey key)
    (hv : value.Canonical) :
    Parameters.Canonical ⟨Assoc.replaceOrAppend entries key value⟩ where
  nodup := Assoc.nodup_keys_replaceOrAppend h.nodup key value
  entry := by
    intro e he
    rcases Assoc.mem_replaceOrAppend he with he | rfl
    · exact h.entry e he
    · exact ⟨hk, hv⟩

variable {α : Type}

lemma forall_mem_concat {P : α → Prop} {l : List α} {a : α} (hl : ∀ x ∈ l, P x)
    (ha : P a) : ∀ x ∈ l ++ [a], P x := by simpa [or_imp, forall_and] using ⟨hl, ha⟩

lemma exceptMap_eq_ok {ε α β : Type} {x : Except ε α} {f : α → β} {b : β} :
    x.map f = .ok b ↔ ∃ a, x = .ok a ∧ f a = b := by
  cases x <;> simp [Except.map]

variable [Base64]

def Ascii (s : Bytes) : Prop := isAscii s = true

omit [Base64] in
lemma hereditary_ascii : Hereditary Ascii fun b => b < 128 := by
  intro b s h
  simpa [Ascii] using h

omit [Base64] in
lemma ensures_discardSp : Ensures Ascii discardSp fun _ => True :=
  .bind (ensures_takeWhile hereditary_ascii _) fun _ _ => .pure trivial

omit [Base64] in
lemma ensures_discardOws : Ensures Ascii discardOws fun _ => True :=
  .bind (ensures_takeWhile hereditary_ascii _) fun _ _ => .pure trivial

omit [Base64] in
lemma ensures_expect {b : UInt8} {p : FieldParser α} {P : α → Prop} {e}
    (h : Ensures Ascii p P) :
    Ensures Ascii (consumeIf b >>= fun found => if found then p else Parser.fail e) P :=
  .bind (ensures_consumeIf hereditary_ascii _) fun _ _ =>
    .ite (fun _ => h) fun _ => .fail _

omit [Base64] in
lemma ensures_scan (start p : UInt8 → Bool) :
    Ensures Ascii (scan StructuredFieldError.parse start p) (IsScanned start p) := by
  intro s a t hs h
  obtain ⟨ha, rfl⟩ := scan_eq_ok h
  simp only [Ascii, isAscii_append, Bool.and_eq_true] at hs
  exact ⟨ha, hs.2⟩

omit [Base64] in
lemma ensures_parseNumber : Ensures Ascii parseNumber fun number => number.bareItem.Canonical := by
  intro s n t hs h
  rcases parseNumber_eq_ok h with ⟨neg, ds, hds, rfl, rfl⟩ | ⟨neg, ds, fs, hds, hfs, rfl, rfl⟩
  · simp only [Ascii, isAscii_append, Bool.and_eq_true] at hs
    exact ⟨⟨neg, ds, hds, rfl⟩, hs.2⟩
  · simp only [Ascii, isAscii_append, Bool.and_eq_true] at hs
    exact ⟨⟨neg, ds, fs, hds, hfs, rfl⟩, hs.2⟩

omit [Base64] in
lemma ensures_parseString : Ensures Ascii parseString BareItem.Canonical := by
  have hr : ∀ out : Bytes, Visible out →
      Ensures Ascii (parseStringRound out) (Round.Holds Visible BareItem.Canonical) := by
    intro out hout
    refine .bind (ensures_consume hereditary_ascii) fun o ho => ?_
    cases o with
    | none => exact .fail _
    | some b =>
      have hb : b < 128 := ho b rfl
      refine .ite (fun _ => ?_) fun _ => .ite (fun _ => ?_) fun _ =>
        .ite (fun _ => .fail _) fun hc => ?_
      · refine .bind (ensures_consume hereditary_ascii) fun o _ => ?_
        cases o with
        | none => exact .fail _
        | some next =>
          refine .ite (fun hn => .pure ?_) fun _ => .fail _
          have hv : isVisible next := by
            rcases hn with rfl | rfl <;> decide
          simpa [Round.Holds] using ⟨hout, hv⟩
      · exact .pure hout
      · have hv : isVisible b := by grind [isVisible]
        exact .pure (by simpa [Round.Holds] using ⟨hout, hv⟩)
  exact ensures_expect (.loop (J := Visible) hr (by simp))

omit [Base64] in
lemma ensures_parseDisplayString : Ensures Ascii parseDisplayString BareItem.Canonical := by
  have hr : ∀ bytes : Bytes, True → Ensures Ascii (parseDisplayStringRound bytes)
      (Round.Holds (fun _ => True) BareItem.Canonical) := by
    intro bytes _
    refine .bind (ensures_consume hereditary_ascii) fun o _ => ?_
    cases o with
    | none => exact .fail _
    | some b =>
      refine .ite (fun _ => .fail _) fun _ => .ite (fun _ => ?_) fun _ =>
        .ite (fun _ => ?_) fun _ => .pure trivial
      · refine .bind (ensures_consume hereditary_ascii) fun high _ => ?_
        cases high with
        | none => exact .fail _
        | some high =>
          refine .bind (ensures_consume hereditary_ascii) fun low _ => ?_
          cases low with
          | none => exact .fail _
          | some low =>
            dsimp only
            cases lowercaseHexValue high with
            | none => exact .fail _
            | some high =>
              cases lowercaseHexValue low with
              | none => exact .fail _
              | some low => exact .pure trivial
      · exact .ite (fun hv => .pure hv) fun _ => .fail _
  exact ensures_expect (ensures_expect (.loop (J := fun _ => True) hr trivial))

omit [Base64] in
lemma ensures_parseToken : Ensures Ascii parseToken BareItem.Canonical :=
  .bind (ensures_scan _ _) fun _ ht => .pure ht

omit [Base64] in
lemma ensures_parseBoolean : Ensures Ascii parseBoolean BareItem.Canonical := by
  refine ensures_expect ?_
  refine .bind (ensures_consume hereditary_ascii) fun o _ => ?_
  cases o with
  | none => exact .fail _
  | some b =>
    exact .ite (fun _ => .pure trivial) fun _ =>
      .ite (fun _ => .pure trivial) fun _ => .fail _

omit [Base64] in
lemma ensures_parseDate : Ensures Ascii parseDate BareItem.Canonical := by
  refine ensures_expect ?_
  refine .bind ensures_parseNumber fun number hn =>
    .ite (fun _ => .fail _) fun _ => ?_
  cases hv : number.bareItem with
  | integer value =>
    rw [hv] at hn
    exact .pure ⟨value, hn, rfl⟩
  | _ => exact .fail _

lemma ensures_parseByteSequence : Ensures Ascii parseByteSequence BareItem.Canonical := by
  refine ensures_expect ?_
  refine .bind (ensures_takeWhile hereditary_ascii _) fun content _ => ?_
  refine ensures_expect ?_
  refine .ite (fun _ => .fail _) fun _ => ?_
  dsimp only
  cases Base64.decode _ with
  | none => exact .fail _
  | some decoded => exact .pure trivial

lemma ensures_parseBareItem : Ensures Ascii parseBareItem BareItem.Canonical := by
  refine .bind ensures_peek fun o _ => ?_
  cases o with
  | none => exact .fail _
  | some b =>
    refine .ite (fun _ => .bind ensures_parseNumber fun _ hn => .pure hn) fun _ => ?_
    refine .ite (fun _ => ensures_parseString) fun _ => ?_
    refine .ite (fun _ => ensures_parseToken) fun _ => ?_
    refine .ite (fun _ => ensures_parseByteSequence) fun _ => ?_
    refine .ite (fun _ => ensures_parseBoolean) fun _ => ?_
    refine .ite (fun _ => ensures_parseDate) fun _ => ?_
    exact .ite (fun _ => ensures_parseDisplayString) fun _ => .fail _

lemma ensures_parseParameterValue : Ensures Ascii parseParameterValue BareItem.Canonical :=
  .bind (ensures_consumeIf hereditary_ascii _) fun _ _ =>
    .ite (fun _ => ensures_parseBareItem) fun _ => .pure trivial

lemma ensures_parseParameters : Ensures Ascii parseParameters Parameters.Canonical := by
  refine .loop (J := fun entries => Parameters.Canonical ⟨entries⟩) ?_ ⟨by simp, by simp⟩
  intro entries he
  refine .bind (ensures_consumeIf hereditary_ascii _) fun _ _ =>
    .ite (fun _ => ?_) fun _ => .pure he
  refine .bind ensures_discardSp fun _ _ => ?_
  refine .bind (ensures_scan _ _) fun key hk => ?_
  refine .bind ensures_parseParameterValue fun value hv => ?_
  exact .pure (he.replaceOrAppend hk hv)

lemma ensures_parseItem : Ensures Ascii parseItem Item.Canonical :=
  .bind ensures_parseBareItem fun _ hb =>
    .bind ensures_parseParameters fun _ hp => .pure ⟨hb, hp⟩

lemma ensures_parseInnerList : Ensures Ascii parseInnerList InnerList.Canonical := by
  refine ensures_expect ?_
  refine .loop (J := fun items => ∀ item ∈ items, item.Canonical) ?_ (by simp)
  intro items hi
  refine .bind ensures_discardSp fun _ _ => .bind ensures_peek fun o _ => ?_
  cases o with
  | none => exact .fail _
  | some b =>
    refine .ite (fun _ => ?_) fun _ => ?_
    · refine .bind (ensures_consume hereditary_ascii) fun _ _ => ?_
      exact .bind ensures_parseParameters fun _ hp =>
        .pure ⟨hi, hp⟩
    refine .bind ensures_parseItem fun item hite =>
      .bind ensures_peek fun _ _ => ?_
    exact .ite (fun _ => .pure (forall_mem_concat hi hite)) fun _ =>
      .fail _

lemma ensures_parseItemOrInnerList : Ensures Ascii parseItemOrInnerList ItemOrInnerList.Canonical :=
  .bind ensures_peek fun _ _ =>
    .ite (fun _ => .map ensures_parseInnerList _ fun _ h => h) fun _ =>
      .map ensures_parseItem _ fun _ h => h

omit [Base64] in
lemma ensures_nextMember {members : α} {P : α → Prop} (h : P members) :
    Ensures Ascii (nextMember members) (Round.Holds P P) := by
  refine .bind ensures_discardOws fun _ _ => .bind ensures_isEmpty fun _ _ => ?_
  refine .ite (fun _ => .pure h) fun _ => ?_
  refine ensures_expect ?_
  refine .bind ensures_discardOws fun _ _ => .bind ensures_isEmpty fun _ _ => ?_
  exact .ite (fun _ => .fail _) fun _ => .pure h

lemma ensures_parseMemberValue : Ensures Ascii parseMemberValue ItemOrInnerList.Canonical :=
  .bind (ensures_consumeIf hereditary_ascii _) fun _ _ =>
    .ite (fun _ => ensures_parseItemOrInnerList) fun _ =>
      .bind ensures_parseParameters fun _ hp =>
        .pure ⟨trivial, hp⟩

lemma ensures_parseDictionaryEntries :
    Ensures Ascii parseDictionaryEntries fun entries => ∀ e ∈ entries, EntryCanonical e := by
  refine .loop (J := fun entries => ∀ e ∈ entries, EntryCanonical e) ?_ (by simp)
  intro entries he
  refine .bind ensures_isEmpty fun _ _ => .ite (fun _ => .pure he) ?_
  intro _
  refine .bind (ensures_scan _ _) fun key hk => ?_
  refine .bind ensures_parseMemberValue fun member hm => ?_
  exact ensures_nextMember (P := fun entries => ∀ e ∈ entries, EntryCanonical e)
    (forall_mem_concat he ⟨hk, hm⟩)

lemma ensures_parseDictionary : Ensures Ascii parseDictionary Dictionary.Canonical := by
  refine .bind ensures_parseDictionaryEntries fun entries hent => .pure ?_
  refine ⟨Assoc.nodup_keys_foldIn (by simp) entries, fun e he => ?_⟩
  rcases Assoc.mem_foldIn he with he | he
  · simp at he
  · exact hent e he

lemma ensures_parseList : Ensures Ascii parseList SfList.Canonical := by
  let P (members : List ItemOrInnerList) : Prop := ∀ m ∈ members, m.Canonical
  refine .bind (P := P) (.loop (J := P) ?_ (by simp [P])) fun members hm =>
    .pure hm
  intro members hm
  refine .bind ensures_isEmpty fun _ _ => .ite (fun _ => .pure hm) ?_
  intro _
  refine .bind ensures_parseItemOrInnerList fun member hmem => ?_
  exact ensures_nextMember (P := P) (forall_mem_concat hm hmem)

omit [Base64] in
lemma parseAscii_eq_ok {parse : FieldParser α} {P : α → Prop}
    (hp : Ensures Ascii parse P) {a : α}
    (h : parseAscii parse input = .ok a) : P a := by
  unfold parseAscii at h
  by_cases ha : isAscii input
  · rw [if_pos ha] at h
    have hc : Ensures Ascii (parseComplete parse) P := by
      refine .bind ensures_discardSp fun _ _ => .bind hp fun value hv => ?_
      refine .bind ensures_discardSp fun _ _ => .bind ensures_isEmpty fun _ _ => ?_
      exact .ite (fun _ => .pure hv) fun _ => .fail _
    obtain ⟨r, hr, rfl⟩ := exceptMap_eq_ok.mp h
    exact (hc input r.1 r.2 ha hr).1
  · simp [ha] at h

end Aioduct.StructuredFields
