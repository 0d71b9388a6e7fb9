import Mathlib.Data.List.DropRight
import Mathlib.Data.FinEnum

/-!
# Byte strings

Text on the wire is a list of bytes. String constants are written as `ascii "..."` and byte
constants as `byte 'c'`.
-/

namespace Wire

open List Or

abbrev Bytes := List UInt8

def byte (c : Char) : UInt8 := UInt8.ofNat c.toNat

def ascii (s : String) : Bytes := s.toList.map byte

variable (b : UInt8)

def isDigit : Bool := byte '0' ≤ b && b ≤ byte '9'

def isLowercase : Bool := byte 'a' ≤ b && b ≤ byte 'z'

def isUppercase : Bool := byte 'A' ≤ b && b ≤ byte 'Z'

def isAlphabetic : Bool := isLowercase b || isUppercase b

def isAlphanumeric : Bool := isAlphabetic b || isDigit b

def isTchar : Bool :=
  isAlphanumeric b || (ascii "!#$%&'*+-.^_`|~").contains b

def isOws : Bool := b == byte ' ' || b == byte '\t'

def isControl : Bool := b < 32 || b == 127

def isVisible : Bool := 32 ≤ b && b < 127

variable (s : Bytes)

def isAscii : Bool := s.all (· < 128)

def toLower : UInt8 := if isUppercase b then b + 32 else b

def lowercase : Bytes := s.map toLower

/-- A digit of `{:02x}`. -/
def hexDigit (n : Nat) : UInt8 := if n < 10 then UInt8.ofNat (48 + n) else UInt8.ofNat (87 + n)

def hex : Bytes := s.flatMap fun b => [hexDigit (b.toNat / 16), hexDigit (b.toNat % 16)]

def eqIgnoreCase (s t : Bytes) : Bool := lowercase s == lowercase t

def lexLe : Bytes → Bytes → Bool
  | [], _ => true
  | _ :: _, [] => false
  | a :: s, b :: t => a < b || (a == b && lexLe s t)

lemma length_hex : (hex s).length = 2 * s.length := by
  induction s with
  | nil => rfl
  | cons b s ih =>
    simp only [hex, flatMap_cons, length_append, length_cons, length_nil] at ih ⊢
    omega

lemma toLower_idem : toLower (toLower b) = toLower b := by
  grind [toLower, isUppercase, byte]

@[simp] lemma lowercase_lowercase : lowercase (lowercase s) = lowercase s := by
  simp [lowercase, toLower_idem]

@[simp] lemma lowercase_append (s t : Bytes) :
    lowercase (s ++ t) = lowercase s ++ lowercase t := by simp [lowercase]

@[simp] lemma isAscii_nil : isAscii [] := rfl

@[simp] lemma isAscii_cons : isAscii (b :: s) = (decide (b < 128) && isAscii s) := rfl

@[simp] lemma isAscii_append (s t : Bytes) : isAscii (s ++ t) = (isAscii s && isAscii t) := by
  simp [isAscii]

def Visible : Prop := ∀ b ∈ s, isVisible b = true

instance (s : Bytes) : Decidable (Visible s) :=
  decidable_of_iff (s.all isVisible = true) (by simp [Visible])

@[simp] lemma visible_nil : Visible [] := by simp [Visible]

@[simp] lemma visible_cons : Visible (b :: s) ↔ isVisible b ∧ Visible s := by simp [Visible]

@[simp] lemma visible_append (s t : Bytes) : Visible (s ++ t) ↔ Visible s ∧ Visible t := by
  simp [Visible, or_imp, forall_and]

variable {p : UInt8 → Bool} {s t sep part : Bytes} {l : List Bytes} {b : UInt8}

lemma visible_of_all (hp : ∀ b, p b → isVisible b) (h : ∀ b ∈ s, p b) :
    Visible s := fun b hb => hp b (h b hb)

variable {α : Type}

lemma visible_flatMap {l : List α} {f : α → Bytes} (h : ∀ a ∈ l, Visible (f a)) :
    Visible (l.flatMap f) := by
  intro b hb
  obtain ⟨a, ha, hb⟩ := mem_flatMap.mp hb
  exact h a ha b hb

lemma Visible.isAscii (h : Visible s) : isAscii s := by
  simp only [Wire.isAscii, all_eq_true, decide_eq_true_eq]
  intro b hb
  have hv := h b hb
  grind [isVisible]

/-- `s` does not begin with a byte of the class `p`; a scanner for `p` stops in front of `s`. -/
def Stops (p : UInt8 → Bool) (s : Bytes) : Prop := ∀ b ∈ s.head?, p b = false

instance (p : UInt8 → Bool) (s : Bytes) : Decidable (Stops p s) :=
  decidable_of_iff (s.head?.all (!p ·) = true) (by cases s <;> simp [Stops])

@[simp] lemma stops_nil (p : UInt8 → Bool) : Stops p [] := by simp [Stops]

@[simp] lemma stops_cons (p : UInt8 → Bool) (b : UInt8) (s : Bytes) :
    Stops p (b :: s) ↔ p b = false := by simp [Stops]

lemma Stops.mono {q : UInt8 → Bool} (h : Stops q s) (hpq : ∀ b, p b → q b) : Stops p s := by
  intro b hb
  have hq := h b hb
  cases hp : p b with
  | false => rfl
  | true => simp [hpq b hp] at hq

lemma takeWhile_append_of_stops (hs : ∀ b ∈ s, p b) (ht : Stops p t) :
    (s ++ t).takeWhile p = s := by
  cases t <;> simp_all

lemma dropWhile_append_of_stops (hs : ∀ b ∈ s, p b) (ht : Stops p t) :
    (s ++ t).dropWhile p = t := by
  cases t <;> simp_all

lemma stops_dropWhile (p : UInt8 → Bool) (s : Bytes) : Stops p (s.dropWhile p) := by
  induction s with
  | nil => simp
  | cons b s ih =>
    by_cases hb : p b
    · simpa [hb] using ih
    · simp [hb]

lemma mem_intercalate {sep : List α} {l : List (List α)} {b : α}
    (h : b ∈ sep.intercalate l) : b ∈ sep ∨ ∃ s ∈ l, b ∈ s := by
  induction l with
  | nil => simp at h
  | cons s l ih =>
    cases l with
    | nil => exact inr ⟨s, by simp, by simpa using h⟩
    | cons t rest =>
      simp only [intercalate_cons_cons, mem_append] at h
      rcases h with (h | h) | h
      · exact inr ⟨s, by simp, h⟩
      · exact inl h
      · rcases ih h with h | ⟨r, hr, hb⟩
        · exact inl h
        · exact inr ⟨r, mem_cons_of_mem _ hr, hb⟩

lemma mem_intercalate_of_mem {sep s : List α} {l : List (List α)} {b : α} (hs : s ∈ l)
    (hb : b ∈ s) : b ∈ sep.intercalate l := by
  induction l with
  | nil => cases hs
  | cons t l ih =>
    cases l with
    | nil =>
      obtain rfl := mem_singleton.mp hs
      simpa using hb
    | cons u rest =>
      rw [intercalate_cons_cons]
      rcases mem_cons.mp hs with rfl | hs
      · exact mem_append_left _ (mem_append_left _ hb)
      · exact mem_append_right _ (ih hs)

lemma append_cons_inj {sep : α} {s t s' t' : List α} (hs : sep ∉ s) (ht : sep ∉ t)
    (h : s ++ sep :: s' = t ++ sep :: t') : s = t ∧ s' = t' := by
  induction s generalizing t with
  | nil =>
    cases t with
    | nil => simpa using h
    | cons c t =>
      simp only [nil_append, cons_append, List.cons.injEq] at h
      exact absurd (by simp [h.1]) ht
  | cons b s ih =>
    cases t with
    | nil =>
      simp only [nil_append, cons_append, List.cons.injEq] at h
      exact absurd (by simp [h.1]) hs
    | cons c t =>
      simp only [mem_cons, not_or] at hs ht
      simp only [cons_append, List.cons.injEq] at h
      obtain ⟨hst, hr⟩ := ih hs.2 ht.2 h.2
      exact ⟨by rw [h.1, hst], hr⟩

lemma eq_of_flatMap_eq {f : α → Bytes} (hne : ∀ a, f a ≠ [])
    (hc : ∀ a b t u, f a ++ t = f b ++ u → a = b ∧ t = u) {l m : List α}
    (h : l.flatMap f = m.flatMap f) : l = m := by
  induction l generalizing m with
  | nil =>
    cases m with
    | nil => rfl
    | cons b m =>
      exact absurd (append_eq_nil_iff.mp h.symm).1 (hne b)
  | cons a l ih =>
    cases m with
    | nil =>
      exact absurd (append_eq_nil_iff.mp h).1 (hne a)
    | cons b m =>
      obtain ⟨rfl, hr⟩ := hc a b _ _ h
      rw [ih hr]

lemma cons_intercalate {sep : UInt8} (h : l ≠ []) :
    sep :: [sep].intercalate l = l.flatMap (sep :: ·) := by
  induction l with
  | nil => exact absurd rfl h
  | cons s l ih =>
    cases l with
    | nil => simp
    | cons t l =>
      have hr := ih (by simp)
      rw [intercalate_cons_cons, flatMap_cons, ← hr]
      simp

lemma intercalate_injective {sep : UInt8} {m : List Bytes} (hl : ∀ s ∈ l, sep ∉ s)
    (hm : ∀ s ∈ m, sep ∉ s) (hl' : l ≠ []) (hm' : m ≠ [])
    (h : [sep].intercalate l = [sep].intercalate m) : l = m := by
  rw [← splitOn_intercalate sep hl hl', h, splitOn_intercalate sep hm hm']

lemma visible_intercalate (hsep : Visible sep) (h : ∀ s ∈ l, Visible s) :
    Visible (sep.intercalate l) := by
  intro b hb
  rcases mem_intercalate hb with hb | ⟨s, hs, hb⟩
  · exact hsep b hb
  · exact h s hs b hb

lemma dropPrefix?_eq_some [BEq α] [LawfulBEq α] {s p t : List α} :
    s.dropPrefix? p = some t ↔ s = p ++ t := by simp [dropPrefix?_eq_some_iff]

/-- `str::split_once`: the text before and after the first occurrence of `sep`. -/
def splitOnce (sep : Bytes) : Bytes → Option (Bytes × Bytes)
  | [] => if sep.isEmpty then some ([], []) else none
  | b :: s =>
    match (b :: s).dropPrefix? sep with
    | some rest => some ([], rest)
    | none => (splitOnce sep s).map fun parts => (b :: parts.1, parts.2)

def isWhitespace (b : UInt8) : Bool := b == byte ' ' || (9 ≤ b && b ≤ 13)

/-- `str::split_whitespace` of an ASCII text. -/
def splitWhitespace (s : Bytes) : List Bytes :=
  (s.splitOnP isWhitespace).filter fun word => !word.isEmpty

lemma splitOnce_eq_some {l r : Bytes} (h : splitOnce sep s = some (l, r)) : s = l ++ sep ++ r := by
  induction s generalizing l with
  | nil =>
    unfold splitOnce at h
    split at h
    next hs =>
      rw [List.isEmpty_iff] at hs
      cases h
      simp [hs]
    · cases h
  | cons b s ih =>
    unfold splitOnce at h
    split at h
    next rest hd =>
      cases h
      simpa using dropPrefix?_eq_some.mp hd
    obtain ⟨parts, hp, heq⟩ := Option.map_eq_some_iff.mp h
    cases heq
    rw [ih hp]
    simp

/-- The `trim_matches` of a string. -/
def trim (p : UInt8 → Bool) (s : Bytes) : Bytes := (s.dropWhile p).rdropWhile p

lemma mem_of_mem_trim (h : b ∈ trim p s) : b ∈ s :=
  (dropWhile_suffix p).subset ((List.rdropWhile_prefix p _).subset h)

/-- `s` does not end with a byte of the class `p`. -/
def StopsEnd (p : UInt8 → Bool) (s : Bytes) : Prop := ∀ b ∈ s.getLast?, p b = false

@[simp] lemma stopsEnd_nil (p : UInt8 → Bool) : StopsEnd p [] := by simp [StopsEnd]

@[simp] lemma stopsEnd_concat (p : UInt8 → Bool) (s : Bytes) (b : UInt8) :
    StopsEnd p (s ++ [b]) ↔ p b = false := by simp [StopsEnd]

lemma stopsEnd_of_all (h : ∀ b ∈ s, p b = false) :
    StopsEnd p s := fun b hb => h b (mem_of_getLast? hb)

lemma StopsEnd.append_right (hne : t ≠ []) (ht : StopsEnd p t) : StopsEnd p (s ++ t) := by
  unfold StopsEnd at ht ⊢
  rwa [getLast?_append_of_ne_nil s hne]

lemma StopsEnd.append (hs : StopsEnd p s) (ht : StopsEnd p t) : StopsEnd p (s ++ t) := by
  by_cases hne : t = []
  · simpa [hne] using hs
  · exact ht.append_right hne

lemma stopsEnd_flatMap {l : List α} {f : α → Bytes} (h : ∀ a ∈ l, StopsEnd p (f a)) :
    StopsEnd p (l.flatMap f) := by
  induction l with
  | nil => simp
  | cons a l ih =>
    simp only [mem_cons, forall_eq_or_imp] at h
    exact h.1.append (ih h.2)

lemma intercalate_ne_nil (h : s ≠ []) : sep.intercalate (s :: l) ≠ [] := by
  cases l with
  | nil => simpa using h
  | cons t l => simp [h]

lemma stopsEnd_intercalate (h : ∀ s ∈ l, s ≠ [] ∧ StopsEnd p s) :
    StopsEnd p (sep.intercalate l) := by
  induction l with
  | nil => simp
  | cons s l ih =>
    simp only [mem_cons, forall_eq_or_imp] at h
    cases l with
    | nil => simpa using h.1.2
    | cons t l =>
      rw [intercalate_cons_cons]
      exact (ih h.2).append_right (intercalate_ne_nil (h.2 t (by simp)).1)

lemma trim_of_stops (hs : Stops p s) (he : StopsEnd p s) : trim p s = s := by
  have hd : s.dropWhile p = s := by
    cases s with
    | nil => rfl
    | cons b s =>
      rw [stops_cons] at hs
      simp [hs]
  rw [trim, hd, rdropWhile_eq_self_iff]
  intro hne
  simpa using he (s.getLast hne) (getLast?_eq_some_getLast hne)

lemma stops_trim (p : UInt8 → Bool) (s : Bytes) : Stops p (trim p s) := by
  intro b hb
  have hne : (s.dropWhile p).rdropWhile p ≠ [] := by
    intro hnil
    simp [trim, hnil] at hb
  obtain ⟨t, ht⟩ := rdropWhile_prefix p (s.dropWhile p)
  apply stops_dropWhile p s
  rw [← ht, head?_append_of_ne_nil _ hne]
  exact hb

lemma trim_trim (p : UInt8 → Bool) (s : Bytes) : trim p (trim p s) = trim p s := by
  have hs := stops_trim p s
  have hd : (trim p s).dropWhile p = trim p s := by
    cases ht : trim p s with
    | nil => rfl
    | cons b t =>
      rw [ht] at hs
      simpa using hs b rfl
  rw [trim, hd]
  exact rdropWhile_idempotent p _

lemma trim_cons (h : p b) (s : Bytes) : trim p (b :: s) = trim p s := by
  rw [trim, dropWhile_cons_of_pos h, trim]

lemma mem_dropWhile (hb : p b = false) (h : b ∈ s) : b ∈ s.dropWhile p := by
  induction s with
  | nil => cases h
  | cons c s ih =>
    rw [dropWhile_cons]
    split
    next hc =>
      rcases mem_cons.mp h with rfl | h
      · rw [hb] at hc
        cases hc
      · exact ih h
    · exact h

lemma mem_trim (hb : p b = false) (h : b ∈ s) : b ∈ trim p s := by
  rw [trim, rdropWhile, mem_reverse]
  exact mem_dropWhile hb (mem_reverse.mpr (mem_dropWhile hb h))

lemma notMem_of_mem_splitOn [DecidableEq α] {s part : List α} {sep : α}
    (h : part ∈ s.splitOn sep) : sep ∉ part := by
  rw [splitOn_eq_splitOnP] at h
  induction s generalizing part with
  | nil =>
    simp only [splitOnP_nil, mem_singleton] at h
    rw [h]
    exact not_mem_nil
  | cons b s ih =>
    rw [splitOnP_cons_eq_if_modifyHead] at h
    split at h
    · rcases mem_cons.mp h with rfl | h
      · exact not_mem_nil
      · exact ih h
    rename_i hne
    cases hp : splitOnP (fun x => x == sep) s with
    | nil => exact absurd hp (splitOnP_ne_nil _ _)
    | cons first rest =>
      rw [hp, modifyHead_cons] at h
      rw [hp] at ih
      rcases mem_cons.mp h with rfl | h
      · have hf := ih mem_cons_self
        simp only [mem_cons, not_or]
        refine ⟨fun heq => hne (by simp [heq]), hf⟩
      · exact ih (mem_cons_of_mem _ h)

lemma mem_of_mem_splitOn [DecidableEq α] {s part : List α} {sep b : α}
    (h : part ∈ s.splitOn sep) (hb : b ∈ part) : b ∈ s := by
  have hj : [sep].intercalate (s.splitOn sep) = s := intercalate_splitOn sep
  rw [← hj]
  exact mem_intercalate_of_mem h hb

lemma intercalate_pair (sep pad : α) (s : List α) (l : List (List α)) :
    [sep, pad].intercalate (s :: l) = [sep].intercalate (s :: l.map (pad :: ·)) := by
  induction l generalizing s with
  | nil => simp
  | cons t l ih =>
    rw [map_cons, intercalate_cons_cons, intercalate_cons_cons, ih]
    cases l with
    | nil => simp
    | cons u l => simp [intercalate_cons_cons]

/-- A list joined by `", "` is read back from its parts between the commas. -/
lemma map_trim_splitOn (hne : l ≠ []) (hp : p (byte ' '))
    (hl : ∀ s ∈ l, byte ',' ∉ s ∧ trim p s = s) :
    (((ascii ", ").intercalate l).splitOn (byte ',')).map (trim p) = l := by
  obtain ⟨s, l, rfl⟩ := exists_cons_of_ne_nil hne
  rw [forall_mem_cons] at hl
  rw [show ascii ", " = [byte ',', byte ' '] from rfl, intercalate_pair,
    splitOn_intercalate _ _ (cons_ne_nil _ _), map_cons, map_map, hl.1.2]
  · have ht : ∀ t ∈ l, (trim p ∘ (byte ' ' :: ·)) t = t := by
      intro t ht
      rw [Function.comp_apply, trim_cons hp, (hl.2 t ht).2]
    rw [map_congr_left ht, map_id'']
    simp
  · refine forall_mem_cons.mpr ⟨hl.1.1, forall_mem_map.mpr fun t ht => ?_⟩
    exact not_mem_cons_of_ne_of_not_mem (by decide) (hl.2 t ht).1

lemma slice_flatten (pieces : List Bytes) {i : Nat} (hi : i < pieces.length) :
    (pieces.flatten.drop (pieces.take i).flatten.length).take pieces[i].length = pieces[i] := by
  induction pieces generalizing i with
  | nil => cases hi
  | cons piece pieces ih =>
    cases i with
    | zero => simp
    | succ i =>
      rw [take_succ_cons, flatten_cons, flatten_cons, length_append,
        drop_length_add_append, getElem_cons_succ]
      exact ih (Nat.lt_of_succ_lt_succ hi)

end Wire
