import Aioduct.Sse.Decoder

/-!
# Event boundaries

The search for the blank line that ends a block, and why it may be resumed two bytes before the end
of what was searched.
-/

namespace Aioduct.Sse

open Wire List EventBoundary Or

def EventBoundary.shift (n : Nat) (b : EventBoundary) : EventBoundary :=
  ⟨n + b.blockEnd, n + b.consume⟩

lemma EventBoundary.map_shift_shift (m n : Nat) (b : Option EventBoundary) :
    (b.map (shift n)).map (shift m) = b.map (shift (m + n)) := by
  cases b with
  | none => rfl
  | some b => simp [shift, add_assoc]

lemma lf_ne_cr : byte '\n' ≠ byte '\r' := by decide

lemma consumeLineEnding_eq (bytes : Bytes) (pos : Nat) :
    consumeLineEnding bytes pos =
      (pos + endingWidth (bytes.drop pos), pos + endingWidth (bytes.drop pos)) := by
  have hg : ∀ i, bytes.getD (pos + i) 0 = (bytes.drop pos).getD i 0 := by
    simp [getD_eq_getElem?_getD]
  have hlen : bytes.length - pos = (bytes.drop pos).length := by simp
  have hf := hg 0
  have hsec := hg 1
  rw [add_zero] at hf
  unfold consumeLineEnding
  rw [hf, hsec]
  cases hd : bytes.drop pos with
  | nil =>
    rw [hd, length_nil] at hlen
    rw [if_pos (by omega)]
    rfl
  | cons b rest =>
    rw [hd, length_cons] at hlen
    rw [if_neg (by omega)]
    simp only [getD_cons_zero, getD_cons_succ, endingWidth]
    cases rest with
    | nil =>
      rw [length_nil] at hlen
      have hsho : ¬pos + 1 < bytes.length := by omega
      by_cases hcr : b = byte '\r'
      · simp [hcr, hsho]
      · by_cases hlf : b = byte '\n' <;> simp [hcr, hlf, lf_ne_cr]
    | cons c rest =>
      rw [length_cons] at hlen
      have hlon : pos + 1 < bytes.length := by omega
      simp only [hlon, true_and, getD_cons_zero, List.head?_cons, Option.some.injEq]
      by_cases hcr : b = byte '\r'
      · by_cases hc : c = byte '\n' <;> simp [hcr, hc]
      · by_cases hlf : b = byte '\n' <;> simp [hcr, hlf, lf_ne_cr]

variable {bytes l e rest s : Bytes} {pos : Nat}

lemma findEventBoundaryLoop_unbroken (h : Unbroken (bytes.drop pos)) (fuel : Nat) :
    findEventBoundaryLoop bytes fuel pos = none := by
  cases fuel with
  | zero => rfl
  | succ fuel =>
    rw [findEventBoundaryLoop, findNewline_unbroken h]
    simp

lemma findEventBoundaryLoop_line (hd : bytes.drop pos = l ++ (e ++ rest)) (hl : Unbroken l)
    (he : IsEnding e rest) (fuel : Nat) :
    findEventBoundaryLoop bytes (fuel + 1) pos =
      if rest = [] then none
      else if isNewline (rest.headD 0) then
        some ⟨pos + l.length, pos + (l.length + e.length) + endingWidth rest⟩
      else findEventBoundaryLoop bytes fuel (pos + (l.length + e.length)) := by
  have hlen : bytes.length - pos = l.length + (e.length + rest.length) := by
    rw [← length_drop, hd, length_append, length_append]
  have hpos := he.length_pos
  have hend : bytes.drop (pos + l.length) = e ++ rest := by
    rw [← drop_drop, hd, drop_left]
  have hr : bytes.drop (pos + (l.length + e.length)) = rest := by
    rw [← add_assoc, ← drop_drop, hend, drop_left]
  have hn : pos + l.length + endingWidth (e ++ rest) = pos + (l.length + e.length) := by
    rw [he.endingWidth_eq]
    omega
  rw [findEventBoundaryLoop, if_neg (by omega), hd, findNewline_line hl he]
  simp only [consumeLineEnding_eq, hend, hn, hr]
  by_cases hempty : rest = []
  · subst hempty
    rw [if_pos (by rw [length_nil] at hlen; omega), if_pos rfl]
  have hne : 0 < rest.length := length_pos_iff.mpr hempty
  have hg : bytes.getD (pos + (l.length + e.length)) 0 = rest.headD 0 := by
    have hh := congrArg (fun s : Bytes => s.headD 0) hr
    simpa [headD_eq_head?_getD, getD_eq_getElem?_getD, List.head?_drop] using hh
  rw [if_neg (by omega), if_neg hempty, hg]

lemma findEventBoundary_unbroken (hs : Unbroken s) : findEventBoundary s = none :=
  findEventBoundaryLoop_unbroken (by simpa using hs) _

lemma findEventBoundaryLoop_eq (s : Bytes) : ∀ bytes pos fuel, bytes.drop pos = s →
    s.length < fuel →
    findEventBoundaryLoop bytes fuel pos = (findEventBoundary s).map (.shift pos) := by
  induction s using lineInduction with
  | unbroken s hs =>
    intro bytes pos fuel hd hf
    rw [findEventBoundaryLoop_unbroken (hd ▸ hs), findEventBoundary_unbroken hs]
    rfl
  | line l e rest hl he ih =>
    intro bytes pos fuel hd hf
    obtain ⟨fuel, rfl⟩ : ∃ k, fuel = k + 1 := ⟨fuel - 1, by omega⟩
    have hpos := he.length_pos
    have hr : ∀ {bytes : Bytes} {pos : Nat}, bytes.drop pos = l ++ (e ++ rest) →
        bytes.drop (pos + (l.length + e.length)) = rest := by
      intro bytes pos hd
      rw [← drop_drop, hd, ← append_assoc, ← length_append, drop_left]
    have ho : (l ++ (e ++ rest)).drop 0 = l ++ (e ++ rest) := rfl
    simp only [length_append] at hf
    simp only [findEventBoundary, findEventBoundaryFrom, Nat.zero_min]
    rw [findEventBoundaryLoop_line hd hl he, findEventBoundaryLoop_line ho hl he]
    by_cases hempty : rest = []
    · simp [hempty]
    rw [if_neg hempty, if_neg hempty]
    split
    · simp [shift, add_assoc]
    · rw [ih bytes _ fuel (hr hd) (by omega),
        ih _ _ _ (hr ho) (by simp only [length_append]; omega),
        map_shift_shift, zero_add]

lemma findEventBoundaryFrom_eq (h : pos ≤ bytes.length) :
    findEventBoundaryFrom bytes pos = (findEventBoundary (bytes.drop pos)).map (.shift pos) := by
  rw [findEventBoundaryFrom, min_eq_left h]
  exact findEventBoundaryLoop_eq _ bytes pos _ rfl (by rw [length_drop]; omega)

lemma findEventBoundary_line (hl : Unbroken l) (he : IsEnding e rest) :
    findEventBoundary (l ++ (e ++ rest)) =
      if rest = [] then none
      else if isNewline (rest.headD 0) then
        some ⟨l.length, l.length + e.length + endingWidth rest⟩
      else (findEventBoundary rest).map (.shift (l.length + e.length)) := by
  have hpos := he.length_pos
  have hr : (l ++ (e ++ rest)).drop (0 + (l.length + e.length)) = rest := by
    rw [zero_add, ← append_assoc, ← length_append, drop_left]
  have ho : (l ++ (e ++ rest)).drop 0 = l ++ (e ++ rest) := rfl
  simp only [findEventBoundary, findEventBoundaryFrom, Nat.zero_min]
  rw [findEventBoundaryLoop_line ho hl he,
    findEventBoundaryLoop_eq _ _ _ _ hr (by simp only [length_append]; omega)]
  simp only [zero_add]
  rfl

lemma findEventBoundary_ended (hl : Unbroken l) (he : IsEnding e []) :
    findEventBoundary (l ++ (e ++ [])) = none :=
  (findEventBoundary_line hl he).trans (if_pos rfl)

lemma findEventBoundary_blank {blank : Bytes} (hl : Unbroken l) (he : IsEnding e (blank ++ rest))
    (hblank : IsEnding blank rest) :
    findEventBoundary (l ++ (e ++ (blank ++ rest))) =
      some ⟨l.length, l.length + e.length + blank.length⟩ := by
  have hw := hblank.endingWidth_eq
  obtain ⟨b, t, rfl, hb⟩ := hblank.exists_cons
  rw [findEventBoundary_line hl he, if_neg (by simp), if_pos (by simpa using hb), hw]

lemma findEventBoundary_next {c : UInt8} (hl : Unbroken l) (he : IsEnding e (c :: rest))
    (hc : isNewline c = false) :
    findEventBoundary (l ++ (e ++ c :: rest)) =
      (findEventBoundary (c :: rest)).map (.shift (l.length + e.length)) := by
  rw [findEventBoundary_line hl he, if_neg (by simp), if_neg (by simp [hc])]

/-- `rest` follows the first complete block of `s`; the block is `text`, with the lines `ls`. -/
inductive FirstBlock : Bytes → Bytes → List Bytes → Bytes → Prop where
  | last {l e blank rest : Bytes} (hl : Unbroken l) (he : IsEnding e (blank ++ rest))
      (hblank : IsEnding blank rest) : FirstBlock (l ++ (e ++ (blank ++ rest))) l [l] rest
  | more {l e s text rest : Bytes} {c : UInt8} {ls : List Bytes} (hl : Unbroken l)
      (he : IsEnding e (c :: s)) (hc : isNewline c = false) (h : FirstBlock (c :: s) text ls rest) :
      FirstBlock (l ++ (e ++ c :: s)) (l ++ (e ++ text)) (l :: ls) rest

inductive NoBlock : Bytes → Prop where
  | unbroken {s : Bytes} (hs : Unbroken s) : NoBlock s
  | ended {l e : Bytes} (hl : Unbroken l) (he : IsEnding e []) : NoBlock (l ++ (e ++ []))
  | more {l e s : Bytes} {c : UInt8} (hl : Unbroken l) (he : IsEnding e (c :: s))
      (hc : isNewline c = false) (h : NoBlock (c :: s)) : NoBlock (l ++ (e ++ c :: s))

lemma boundary_cases (s : Bytes) : NoBlock s ∨ ∃ text ls rest, FirstBlock s text ls rest := by
  induction s using lineInduction with
  | unbroken s hs => exact inl (.unbroken hs)
  | line l e rest hl he ih =>
    cases rest with
    | nil => exact inl (.ended hl he)
    | cons c rest =>
      by_cases hc : isNewline c
      · obtain ⟨blank, rest, heq, hblank⟩ := exists_isEnding hc rest
        rw [heq] at he ⊢
        exact inr ⟨l, [l], rest, .last hl he hblank⟩
      have hc : isNewline c = false := by simpa using hc
      rcases ih with hno | ⟨text, ls, after, hf⟩
      · exact inl (.more hl he hc hno)
      · exact inr ⟨_, _, after, .more hl he hc hf⟩

lemma NoBlock.findEventBoundary_eq (h : NoBlock s) : findEventBoundary s = none := by
  induction h with
  | unbroken hs => exact findEventBoundary_unbroken hs
  | ended hl he => exact findEventBoundary_ended hl he
  | more hl he hc _ ih =>
    rw [findEventBoundary_next hl he hc, ih]
    rfl

lemma FirstBlock.findEventBoundary_eq {text : Bytes} {ls : List Bytes}
    (h : FirstBlock s text ls rest) :
    ∃ gap, s = text ++ (gap ++ rest) ∧ 0 < gap.length ∧
      findEventBoundary s = some ⟨text.length, text.length + gap.length⟩ := by
  induction h with
  | @last l e blank rest hl he hblank =>
    have hpos := he.length_pos
    refine ⟨e ++ blank, by simp, by simp only [length_append]; omega, ?_⟩
    rw [findEventBoundary_blank hl he hblank]
    simp [add_assoc]
  | @more l e s text rest c ls hl he hc _ ih =>
    obtain ⟨gap, hs, hg, hf⟩ := ih
    refine ⟨gap, by simp [hs], hg, ?_⟩
    rw [findEventBoundary_next hl he hc, hf]
    simp [shift, add_assoc]

lemma findEventBoundary_unbroken_append (hl : Unbroken l) (s : Bytes) :
    findEventBoundary (l ++ s) = (findEventBoundary s).map (.shift l.length) := by
  rcases line_cases s with hs | ⟨m, e, rest, rfl, hm, he⟩
  · rw [findEventBoundary_unbroken (hl.append hs), findEventBoundary_unbroken hs]
    rfl
  rw [← append_assoc, findEventBoundary_line (hl.append hm) he, findEventBoundary_line hm he]
  split
  · rfl
  · split
    · simp [shift, add_assoc]
    · rw [map_shift_shift, length_append, add_assoc]

lemma findEventBoundary_within_line (hl : Unbroken l) {n : Nat} (hn : n ≤ l.length) (s : Bytes) :
    (findEventBoundary ((l ++ s).drop n)).map (.shift n) = findEventBoundary (l ++ s) := by
  rw [drop_append_of_le_length hn, findEventBoundary_unbroken_append (hl.drop n),
    findEventBoundary_unbroken_append hl, map_shift_shift, length_drop,
    Nat.add_sub_cancel' hn]

/-- Two bytes before the end of a buffer without a boundary the search can be taken up again: a
boundary that later input completes does not begin before its last line ending. -/
lemma NoBlock.findEventBoundary_drop (h : NoBlock s) (t : Bytes) :
    ∀ n, n ≤ s.length - 2 →
      (findEventBoundary ((s ++ t).drop n)).map (.shift n) = findEventBoundary (s ++ t) := by
  induction h with
  | unbroken hs =>
    intro n hn
    exact findEventBoundary_within_line hs (by omega) t
  | @ended l e hl he =>
    intro n hn
    have hle := he.length_le
    simp only [length_append, length_nil] at hn
    rw [append_assoc]
    exact findEventBoundary_within_line hl (by omega) _
  | @more l e s c hl he hc _ ih =>
    intro n hn
    have he' : IsEnding e (c :: (s ++ t)) := he.append (by simp) t
    simp only [append_assoc, cons_append] at ih ⊢
    simp only [length_append] at hn
    by_cases hlin : n ≤ l.length
    · exact findEventBoundary_within_line hl hlin _
    rw [findEventBoundary_next hl he' hc]
    by_cases hnex : l.length + e.length ≤ n
    · obtain ⟨k, rfl⟩ := Nat.exists_eq_add_of_le hnex
      have hd : (l ++ (e ++ c :: (s ++ t))).drop (l.length + e.length + k) =
          (c :: (s ++ t)).drop k := by
        rw [← append_assoc, ← length_append, ← drop_drop, drop_left]
      rw [hd, ← ih k (by omega), map_shift_shift]
    -- the position is between the two bytes of a CRLF
    have hle := he.length_le
    obtain rfl : n = l.length + 1 := by omega
    rw [← drop_drop, drop_left]
    cases he with
    | lf => simp at hnex
    | cr => simp at hnex
    | crlf =>
      change (findEventBoundary ([] ++ ([byte '\n'] ++ c :: (s ++ t)))).map _ = _
      rw [findEventBoundary_next unbroken_nil (.lf _) hc, map_shift_shift]
      rfl

lemma NoBlock.findEventBoundaryFrom_append (h : NoBlock s) (t : Bytes) :
    findEventBoundaryFrom (s ++ t) (s.length - 2) = findEventBoundary (s ++ t) := by
  rw [findEventBoundaryFrom_eq (by rw [length_append]; omega)]
  exact h.findEventBoundary_drop t _ (le_refl _)

end Aioduct.Sse
