import Aioduct.Wire.Bytes

/-!
# Lines

Text is cut into lines by LF, CR or CRLF; `lineInduction` is induction along that.
-/

namespace Wire

open List

variable {t : Bytes} {b c : UInt8}

def isNewline (b : UInt8) : Bool := b == byte '\r' || b == byte '\n'

def Unbroken (s : Bytes) : Prop := ∀ b ∈ s, isNewline b = false

/-- `e` is a whole line ending in front of `rest`. -/
inductive IsEnding : Bytes → Bytes → Prop where
  | lf (rest : Bytes) : IsEnding [byte '\n'] rest
  | crlf (rest : Bytes) : IsEnding [byte '\r', byte '\n'] rest
  | cr (rest : Bytes) (h : rest.head? ≠ some (byte '\n')) : IsEnding [byte '\r'] rest

/-- The length of the line ending at the front, `0` if there is none. -/
def endingWidth : Bytes → Nat
  | [] => 0
  | b :: rest =>
    if b = byte '\r' then if rest.head? = some (byte '\n') then 2 else 1
    else if b = byte '\n' then 1
    else 0

lemma unbroken_nil : Unbroken [] := by simp [Unbroken]

variable {s l e rest : Bytes}

lemma Unbroken.drop (h : Unbroken s) (n : Nat) : Unbroken (s.drop n) :=
  fun b hb => h b (mem_of_mem_drop hb)

lemma Unbroken.append (hs : Unbroken s) (ht : Unbroken t) : Unbroken (s ++ t) :=
  forall_mem_append.mpr ⟨hs, ht⟩

lemma unbroken_cons : Unbroken (b :: s) ↔ isNewline b = false ∧ Unbroken s :=
  forall_mem_cons

namespace IsEnding

variable {e rest : Bytes}

section

variable (h : IsEnding e rest)

include h

lemma length_pos : 0 < e.length := by
  cases h <;> simp

lemma length_le : e.length ≤ 2 := by
  cases h <;> simp

lemma endingWidth_eq : endingWidth (e ++ rest) = e.length := by
  cases h with
  | lf => rfl
  | crlf => rfl
  | cr _ hr => simp [endingWidth, hr]

lemma exists_cons : ∃ b t, e = b :: t ∧ isNewline b := by
  cases h with
  | lf => exact ⟨_, _, rfl, rfl⟩
  | crlf => exact ⟨_, _, rfl, rfl⟩
  | cr => exact ⟨_, _, rfl, rfl⟩

lemma line_ne_nil {l : Bytes} (hs : l ++ (e ++ rest) = c :: t)
    (hc : isNewline c = false) : l ≠ [] := by
  rintro rfl
  obtain ⟨b, u, rfl, hb⟩ := h.exists_cons
  rw [(List.cons.inj hs).1, hc] at hb
  cases hb

lemma append (hr : rest ≠ []) (t : Bytes) : IsEnding e (rest ++ t) := by
  cases h with
  | lf => exact .lf _
  | crlf => exact .crlf _
  | cr _ hh =>
    refine .cr _ ?_
    rwa [head?_append_of_ne_nil _ hr]

end

end IsEnding

lemma exists_isEnding (h : isNewline b) (s : Bytes) :
    ∃ e rest, b :: s = e ++ rest ∧ IsEnding e rest := by
  simp only [isNewline, Bool.or_eq_true, beq_iff_eq] at h
  rcases h with rfl | rfl
  · by_cases hs : s.head? = some (byte '\n')
    · obtain ⟨t, rfl⟩ := head?_eq_some_iff.mp hs
      exact ⟨_, t, rfl, .crlf t⟩
    · exact ⟨_, s, rfl, .cr s hs⟩
  · exact ⟨_, s, rfl, .lf s⟩

lemma line_cases (s : Bytes) :
    Unbroken s ∨ ∃ line e rest, s = line ++ (e ++ rest) ∧ Unbroken line ∧ IsEnding e rest := by
  induction s with
  | nil => exact Or.inl unbroken_nil
  | cons b s ih =>
    by_cases hb : isNewline b
    · obtain ⟨e, rest, heq, he⟩ := exists_isEnding hb s
      exact Or.inr ⟨[], e, rest, heq, unbroken_nil, he⟩
    rw [Bool.not_eq_true] at hb
    rcases ih with hs | ⟨line, e, rest, rfl, hl, he⟩
    · exact Or.inl (unbroken_cons.mpr ⟨hb, hs⟩)
    · exact Or.inr ⟨b :: line, e, rest, rfl, unbroken_cons.mpr ⟨hb, hl⟩, he⟩

@[elab_as_elim]
lemma lineInduction {motive : Bytes → Prop} (unbroken : ∀ s, Unbroken s → motive s)
    (line : ∀ l e rest, Unbroken l → IsEnding e rest → motive rest → motive (l ++ (e ++ rest)))
    (s : Bytes) : motive s := by
  induction hn : s.length using Nat.strongRecOn generalizing s with
  | ind n ih =>
    rcases line_cases s with hs | ⟨l, e, rest, rfl, hl, he⟩
    · exact unbroken s hs
    refine line l e rest hl he (ih rest.length ?_ rest rfl)
    have hpos := he.length_pos
    simp only [length_append] at hn
    omega

/-- `memchr2(b'\r', b'\n', …)`. -/
def findNewline (s : Bytes) : Option Nat := s.findIdx? isNewline

lemma findNewline_unbroken (h : Unbroken s) : findNewline s = none := by
  rw [findNewline, findIdx?_eq_none_iff]
  exact h

lemma findNewline_line (hl : Unbroken l) (he : IsEnding e rest) :
    findNewline (l ++ (e ++ rest)) = some l.length := by
  obtain ⟨b, t, rfl, hb⟩ := he.exists_cons
  rw [findNewline, findIdx?_append, findIdx?_eq_none_iff.mpr hl]
  simp [findIdx?_cons, hb]

/-- The complete lines, the first one continuing `current`. An LF right after a CR belongs to the
same ending, and what follows the last ending is no line yet. -/
def linesFrom (afterCr : Bool) (current : Bytes) : Bytes → List Bytes
  | [] => []
  | b :: rest =>
    if b = byte '\n' then
      if afterCr then linesFrom false current rest else current :: linesFrom false [] rest
    else if b = byte '\r' then current :: linesFrom true [] rest
    else linesFrom false (current ++ [b]) rest

def lines (s : Bytes) : List Bytes := linesFrom false [] s

lemma linesFrom_cons (hb : isNewline b = false) (afterCr : Bool) (current s : Bytes) :
    linesFrom afterCr current (b :: s) = linesFrom false (current ++ [b]) s := by
  simp only [isNewline, Bool.or_eq_false_iff, beq_eq_false_iff_ne] at hb
  rw [linesFrom, if_neg hb.2, if_neg hb.1]

lemma linesFrom_unbroken (h : Unbroken s) (afterCr : Bool) (current : Bytes) :
    linesFrom afterCr current s = [] := by
  induction s generalizing afterCr current with
  | nil => rfl
  | cons b s ih =>
    rw [unbroken_cons] at h
    rw [linesFrom_cons h.1, ih h.2]

lemma linesFrom_afterCr (h : s.head? ≠ some (byte '\n')) (current : Bytes) :
    linesFrom true current s = linesFrom false current s := by
  cases s with
  | nil => rfl
  | cons b s =>
    have hb : b ≠ byte '\n' := by simpa using h
    rw [linesFrom, linesFrom, if_neg hb, if_neg hb]

lemma linesFrom_line (hl : Unbroken l) (he : IsEnding e rest) (current : Bytes) :
    linesFrom false current (l ++ (e ++ rest)) = (current ++ l) :: lines rest := by
  have hne : byte '\r' ≠ byte '\n' := by decide
  induction l generalizing current with
  | nil =>
    rw [nil_append, append_nil]
    cases he with
    | lf =>
      rfl
    | crlf =>
      rfl
    | cr _ hr =>
      rw [singleton_append, linesFrom, if_neg hne, if_pos rfl, linesFrom_afterCr hr]
      rfl
  | cons b l ih =>
    rw [unbroken_cons] at hl
    rw [cons_append, linesFrom_cons hl.1, ih hl.2]
    simp

lemma lines_unbroken (h : Unbroken s) : lines s = [] :=
  linesFrom_unbroken h false []

lemma lines_line (hl : Unbroken l) (he : IsEnding e rest) :
    lines (l ++ (e ++ rest)) = l :: lines rest := by
  rw [lines, linesFrom_line hl he, nil_append]

end Wire
