import Aioduct.Wire.Bytes

/-!
# Splitting at a text

A text is cut at every occurrence of a separator, from the left.
-/

namespace Wire

open List Option

variable {sep p first last piece : Bytes} {texts others : List Bytes}

lemma intercalate_concat (sep last : Bytes) (texts : List Bytes) :
    sep.intercalate (texts ++ [last]) = texts.flatMap (· ++ sep) ++ last := by
  induction texts with
  | nil => simp
  | cons text texts ih =>
    rw [cons_append, intercalate_cons_of_ne_nil (by simp), ih, flatMap_cons,
      append_assoc (text ++ sep)]

lemma intercalate_ne_of_append (hsep : sep ≠ []) (front : List Bytes) (text : Bytes)
    (h : texts ≠ []) :
    sep.intercalate (front ++ text :: texts) ≠ sep.intercalate texts := by
  have hs : sep ++ sep.intercalate texts <:+ sep.intercalate (front ++ text :: texts) := by
    induction front with
    | nil =>
      rw [nil_append, intercalate_cons_of_ne_nil h, append_assoc]
      exact suffix_append _ _
    | cons first front ih =>
      rw [cons_append, intercalate_cons_of_ne_nil (by simp)]
      exact ih.trans (suffix_append _ _)
  intro heq
  have hlen := hs.length_le
  rw [heq, length_append] at hlen
  have hpos := length_pos_iff.mpr hsep
  omega

def splitFuel (sep : Bytes) : Nat → Bytes → List Bytes
  | 0, s => [s]
  | fuel + 1, s =>
    match splitOnce sep s with
    | some (first, rest) => first :: splitFuel sep fuel rest
    | none => [s]

/-- `str::rsplit_once` at a byte. -/
def rsplitOnce (b : UInt8) (s : Bytes) : Option (Bytes × Bytes) :=
  (splitOnce [b] s.reverse).map fun parts => (parts.2.reverse, parts.1.reverse)

/-- `str::split`, for a separator that is not empty. -/
def splitText (sep s : Bytes) : List Bytes := splitFuel sep s.length s

variable {s : Bytes}

lemma dropPrefix?_eq_none : s.dropPrefix? p = none ↔ ¬p <+: s := by
  rw [eq_none_iff_forall_ne_some]
  constructor
  · rintro h ⟨rest, rfl⟩
    exact h rest (dropPrefix?_eq_some.mpr rfl)
  · rintro h rest hd
    exact h ⟨rest, (dropPrefix?_eq_some.mp hd).symm⟩

lemma splitOnce_eq_none (h : splitOnce sep s = none) : ¬sep <:+: s := by
  induction s with
  | nil =>
    intro hi
    rw [infix_nil] at hi
    subst hi
    cases h
  | cons b s ih =>
    unfold splitOnce at h
    split at h
    · cases h
    next hd =>
      rw [infix_cons_iff, not_or]
      exact ⟨dropPrefix?_eq_none.mp hd, ih (map_eq_none_iff.mp h)⟩

section Separator

variable {c : UInt8} {rest : Bytes}

lemma splitOnce_of_absent (h : ¬c :: rest <:+: s) : splitOnce (c :: rest) s = none := by
  induction s with
  | nil => rfl
  | cons b s ih =>
    rw [infix_cons_iff, not_or] at h
    unfold splitOnce
    rw [dropPrefix?_eq_none.mpr h.1, ih h.2]
    rfl

lemma splitOnce_front (h : splitOnce (c :: rest) s = some (first, last))
    (t : Bytes) : splitOnce (c :: rest) (first ++ (c :: rest) ++ t) = some (first, t) := by
  induction s generalizing first with
  | nil => cases h
  | cons b s ih =>
    unfold splitOnce at h
    split at h
    · cases h
      have hd : (c :: (rest ++ t)).dropPrefix? (c :: rest) = some t := by
        rw [dropPrefix?_eq_some, cons_append]
      rw [nil_append, cons_append]
      unfold splitOnce
      rw [hd]
    rename_i hd
    obtain ⟨parts, hp, heq⟩ := map_eq_some_iff.mp h
    cases heq
    -- No more of the text is looked at than up to the separator that was found.
    have hw : (b :: (parts.1 ++ (c :: rest) ++ t)).dropPrefix? (c :: rest) = none := by
      rw [dropPrefix?_eq_none]
      intro hf
      have hfro : b :: (parts.1 ++ (c :: rest)) <+: b :: (parts.1 ++ (c :: rest) ++ t) :=
        ⟨t, rfl⟩
      have hlen : (c :: rest).length ≤ (b :: (parts.1 ++ (c :: rest))).length := by
        simp only [length_cons, length_append]
        omega
      refine dropPrefix?_eq_none.mp hd ((prefix_of_prefix_length_le hf hfro hlen).trans ?_)
      exact ⟨parts.2, by rw [cons_append, ← splitOnce_eq_some hp]⟩
    rw [cons_append, cons_append]
    unfold splitOnce
    rw [hw, ih hp]
    rfl

lemma splitOnce_append_of_some (h : splitOnce (c :: rest) s = some (first, last)) (t : Bytes) :
    splitOnce (c :: rest) (s ++ t) = some (first, last ++ t) := by
  rw [splitOnce_eq_some h, append_assoc]
  exact splitOnce_front h (last ++ t)

variable (hsep : c ∉ rest)

include hsep

lemma splitOnce_append (h : ¬c :: rest <:+: s) (t : Bytes) :
    splitOnce (c :: rest) (s ++ (c :: rest) ++ t) = some (s, t) := by
  induction s with
  | nil =>
    have hd : (c :: (rest ++ t)).dropPrefix? (c :: rest) = some t := by
      rw [dropPrefix?_eq_some, cons_append]
    rw [nil_append, cons_append]
    unfold splitOnce
    rw [hd]
  | cons b s ih =>
    rw [infix_cons_iff, not_or] at h
    have hd : (b :: (s ++ (c :: rest) ++ t)).dropPrefix? (c :: rest) = none := by
      rw [dropPrefix?_eq_none]
      intro hp
      have hs : b :: s <+: b :: (s ++ (c :: rest) ++ t) := by simp
      rcases prefix_or_prefix_of_prefix hp hs with hb | ⟨u, hu⟩
      · exact h.1 hb
      -- The text would be the front of the separator, whose first byte comes again.
      obtain ⟨v, hv⟩ := hp
      rw [← hu] at hv
      simp only [cons_append, List.cons.injEq, true_and, append_assoc,
        append_cancel_left_eq] at hv hu
      cases u with
      | nil =>
        rw [append_nil] at hu
        exact h.1 ⟨[], by rw [append_nil, ← hu.1, ← hu.2]⟩
      | cons d u =>
        rw [cons_append, List.cons.injEq] at hv
        apply hsep
        rw [← hu.2, hv.1, hu.1]
        simp
    rw [cons_append, cons_append]
    unfold splitOnce
    rw [hd, ih h.2]
    rfl

end Separator

section Pieces

variable {c : UInt8} {rest : Bytes}

lemma splitFuel_eq {n m : Nat} (hn : s.length ≤ n) (hm : s.length ≤ m) :
    splitFuel (c :: rest) n s = splitFuel (c :: rest) m s := by
  induction n generalizing s m with
  | zero =>
    rw [length_eq_zero_iff.mp (Nat.le_zero.mp hn)]
    cases m <;> rfl
  | succ n ih =>
    cases m with
    | zero =>
      rw [length_eq_zero_iff.mp (Nat.le_zero.mp hm)]
      rfl
    | succ m =>
      unfold splitFuel
      split
      next first last hs =>
        have hsho := congrArg length (splitOnce_eq_some hs)
        simp only [length_append, length_cons] at hsho
        rw [ih (by omega : last.length ≤ n) (by omega : last.length ≤ m)]
      · rfl

lemma splitText_of_some (h : splitOnce (c :: rest) s = some (first, last)) :
    splitText (c :: rest) s = first :: splitText (c :: rest) last := by
  have hs := congrArg length (splitOnce_eq_some h)
  simp only [length_append, length_cons] at hs
  unfold splitText
  obtain ⟨n, hn⟩ : ∃ n, s.length = n + 1 := ⟨s.length - 1, by omega⟩
  rw [hn]
  conv_lhs => unfold splitFuel
  rw [h]
  exact congrArg _ (splitFuel_eq (by omega) le_rfl)

lemma splitText_of_absent (h : ¬c :: rest <:+: s) : splitText (c :: rest) s = [s] := by
  unfold splitText
  cases s.length with
  | zero => rfl
  | succ n =>
    unfold splitFuel
    rw [splitOnce_of_absent h]

lemma split_induction (c : UInt8) (rest : Bytes) {motive : Bytes → Prop}
    (piece : ∀ s, ¬c :: rest <:+: s → motive s)
    (cut : ∀ s first last, splitOnce (c :: rest) s = some (first, last) → motive last → motive s)
    (s : Bytes) : motive s := by
  induction hlen : s.length using Nat.strong_induction_on generalizing s with
  | _ n ih =>
    cases hs : splitOnce (c :: rest) s with
    | none => exact piece s (splitOnce_eq_none hs)
    | some parts =>
      have hsho := congrArg length (splitOnce_eq_some hs)
      simp only [length_append, length_cons] at hsho
      exact cut s parts.1 parts.2 hs (ih parts.2.length (by omega) parts.2 rfl)

lemma splitText_ne_nil (s : Bytes) : splitText (c :: rest) s ≠ [] := by
  induction s using split_induction c rest with
  | piece s h =>
    rw [splitText_of_absent h]
    exact cons_ne_nil _ _
  | cut s first last h _ =>
    rw [splitText_of_some h]
    exact cons_ne_nil _ _

lemma splitText_eq_singleton : splitText (c :: rest) s = [s] ↔ ¬c :: rest <:+: s := by
  refine ⟨fun h hi => ?_, splitText_of_absent⟩
  cases hs : splitOnce (c :: rest) s with
  | none => exact splitOnce_eq_none hs hi
  | some parts =>
    rw [splitText_of_some hs, List.cons.injEq] at h
    exact splitText_ne_nil _ h.2

lemma intercalate_splitText (s : Bytes) :
    (c :: rest).intercalate (splitText (c :: rest) s) = s := by
  induction s using split_induction c rest with
  | piece s h => rw [splitText_of_absent h, intercalate_singleton]
  | cut s first last h ih =>
    rw [splitText_of_some h, intercalate_cons_of_ne_nil (splitText_ne_nil last), ih]
    exact (splitOnce_eq_some h).symm

lemma splitText_eq_singleton_of_head (h : splitText (c :: rest) s = s :: others) : others = [] := by
  have hj := @intercalate_splitText c rest s
  rw [h] at hj
  cases others with
  | nil => rfl
  | cons other others =>
    rw [intercalate_cons_of_ne_nil (cons_ne_nil _ _)] at hj
    have hlen := congrArg length hj
    simp only [length_append, length_cons] at hlen
    omega

lemma infix_of_mem_splitText (h : piece ∈ splitText (c :: rest) s) : piece <:+: s := by
  induction s using split_induction c rest with
  | piece s ha =>
    rw [splitText_of_absent ha, mem_singleton] at h
    rw [h]
  | cut s first last hs ih =>
    rw [splitText_of_some hs, mem_cons] at h
    rw [splitOnce_eq_some hs]
    rcases h with rfl | h
    · rw [append_assoc]
      exact (prefix_append _ _).isInfix
    · exact (ih h).trans (suffix_append _ _).isInfix

variable (hsep : c ∉ rest)

include hsep

lemma splitText_append (s t : Bytes) :
    splitText (c :: rest) (s ++ (c :: rest) ++ t) =
      splitText (c :: rest) s ++ splitText (c :: rest) t := by
  induction s using split_induction c rest with
  | piece s h =>
    rw [splitText_of_some (splitOnce_append hsep h t), splitText_of_absent h]
    rfl
  | cut s first last h ih =>
    have hw := splitOnce_append_of_some h ((c :: rest) ++ t)
    rw [← append_assoc, ← append_assoc] at hw
    rw [splitText_of_some hw, ih, splitText_of_some h]
    rfl

lemma splitText_intercalate (h : texts ≠ []) :
    splitText (c :: rest) ((c :: rest).intercalate texts) =
      texts.flatMap (splitText (c :: rest)) := by
  induction texts with
  | nil => exact absurd rfl h
  | cons text texts ih =>
    cases texts with
    | nil => simp
    | cons next texts =>
      rw [intercalate_cons_of_ne_nil (cons_ne_nil _ _), splitText_append hsep, ih (cons_ne_nil _ _)]
      rfl

variable {front : Bytes}

omit hsep in
lemma splitOnce_append_left (hf : c ∉ front) (s : Bytes) :
    splitOnce (c :: rest) (front ++ s) =
      (splitOnce (c :: rest) s).map fun parts => (front ++ parts.1, parts.2) := by
  induction front with
  | nil => simp
  | cons b front ih =>
    rw [mem_cons, not_or] at hf
    have hd : (b :: (front ++ s)).dropPrefix? (c :: rest) = none := by
      rw [dropPrefix?_eq_none, cons_prefix_cons]
      exact fun h => hf.1 h.1
    rw [cons_append]
    conv_lhs => unfold splitOnce
    rw [hd, ih hf.2, Option.map_map]
    rfl

omit hsep in
lemma splitText_append_left (hf : c ∉ front) (s : Bytes) :
    ∃ first others, splitText (c :: rest) s = first :: others ∧
      splitText (c :: rest) (front ++ s) = (front ++ first) :: others := by
  have hw := @splitOnce_append_left c rest front hf s
  cases hs : splitOnce (c :: rest) s with
  | none =>
    rw [hs] at hw
    exact ⟨s, [], splitText_of_absent (splitOnce_eq_none hs),
      splitText_of_absent (splitOnce_eq_none hw)⟩
  | some parts =>
    rw [hs] at hw
    exact ⟨parts.1, _, splitText_of_some hs, splitText_of_some hw⟩

omit hsep in
lemma prefix_of_splitText (h : splitText (c :: rest) s = first :: others) : first <+: s := by
  rw [← @intercalate_splitText c rest s, h]
  cases others with
  | nil => rw [intercalate_singleton]
  | cons other others =>
    exact prefix_append _ _

/-- A text that starts with the separator occurs where a piece after the first starts with the rest
of it. -/
lemma append_infix_iff (hf : c ∉ front) :
    (c :: rest) ++ front <:+: s ↔
      ∃ piece ∈ (splitText (c :: rest) s).tail, front <+: piece := by
  constructor
  · rintro ⟨before, after, rfl⟩
    obtain ⟨first, others, -, hpie⟩ := @splitText_append_left c rest front hf after
    refine ⟨front ++ first, ?_, prefix_append _ _⟩
    rw [show before ++ ((c :: rest) ++ front) ++ after = before ++ (c :: rest) ++ (front ++ after) by
      simp, splitText_append hsep, hpie, tail_append_of_ne_nil (splitText_ne_nil before)]
    simp
  induction s using split_induction c rest with
  | piece s h =>
    rw [splitText_of_absent h]
    rintro ⟨piece, hm, -⟩
    cases hm
  | cut s first last h ih =>
    rw [splitText_of_some h, tail_cons]
    rintro ⟨piece, hm, hp⟩
    have hs := splitOnce_eq_some h
    obtain ⟨next, others, hl⟩ := exists_cons_of_ne_nil (@splitText_ne_nil c rest last)
    rw [hl] at hm ih
    rcases mem_cons.mp hm with rfl | hm
    · obtain ⟨after, ha⟩ := hp.trans (prefix_of_splitText hl)
      exact ⟨first, after, by rw [hs, ← ha]; simp⟩
    · have hi := ih ⟨piece, hm, hp⟩
      rw [hs]
      exact hi.trans (suffix_append _ _).isInfix

end Pieces

variable {α β : Type}

lemma mapM_eq_some_map {read : α → Option β} {value : α → β} {l : List α}
    (h : ∀ a ∈ l, read a = some (value a)) : l.mapM read = some (l.map value) := by
  induction l with
  | nil => rfl
  | cons a l ih =>
    obtain ⟨ha, hl⟩ := forall_mem_cons.mp h
    rw [mapM_cons, ha, ih hl]
    rfl

lemma length_of_mapM {read : α → Option β} {l : List α} {r : List β}
    (h : l.mapM read = some r) : r.length = l.length := by
  induction l generalizing r with
  | nil =>
    cases h
    rfl
  | cons a l ih =>
    rw [mapM_cons] at h
    obtain ⟨b, -, h⟩ := bind_eq_some_iff.mp h
    obtain ⟨bs, hbs, h⟩ := bind_eq_some_iff.mp h
    rw [← some.inj h, length_cons, ih hbs, length_cons]

lemma length_le_flatMap {pieces : α → List β} (hne : ∀ a, pieces a ≠ []) (l : List α) :
    l.length ≤ (l.flatMap pieces).length := by
  induction l with
  | nil => exact Nat.zero_le _
  | cons a l ih =>
    have hpos := length_pos_iff.mpr (hne a)
    rw [flatMap_cons, length_append, length_cons]
    omega

/-- The pieces of several texts are read as the texts exactly if each is in one piece, which is read
as the text. -/
lemma mapM_flatMap_iff {α β γ : Type} {pieces : α → List β} (hne : ∀ a, pieces a ≠ [])
    {read : β → Option γ} {value : α → γ} (l : List α) :
    (l.flatMap pieces).mapM read = some (l.map value) ↔
      ∀ a ∈ l, ∃ piece, pieces a = [piece] ∧ read piece = some (value a) := by
  induction l with
  | nil => simp
  | cons a l ih =>
    rw [forall_mem_cons, ← ih, flatMap_cons, map_cons]
    constructor
    · intro h
      have hlen := length_of_mapM h
      have hpos := length_pos_iff.mpr (hne a)
      have hr := length_le_flatMap hne l
      rw [length_cons, length_map, length_append] at hlen
      obtain ⟨piece, hp⟩ := length_eq_one_iff.mp (by omega : (pieces a).length = 1)
      rw [hp, singleton_append, mapM_cons] at h
      obtain ⟨b, hb, h⟩ := bind_eq_some_iff.mp h
      obtain ⟨bs, hbs, h⟩ := bind_eq_some_iff.mp h
      obtain ⟨rfl, rfl⟩ := List.cons.inj (some.inj h)
      exact ⟨⟨piece, hp, hb⟩, hbs⟩
    · rintro ⟨⟨piece, hp, hrea⟩, hr⟩
      rw [hp, singleton_append, mapM_cons, hrea, hr]
      rfl

end Wire
