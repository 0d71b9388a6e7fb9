import Aioduct.Multipart.Body
import Aioduct.Wire.Split

/-!
# Reading a multipart body back

A reader that cuts a body at its boundary and each part at its line ends.
-/

namespace Aioduct.Form

open Wire List Form.Part

variable {b : UInt8} {text rest front after t line : Bytes}

structure Field where
  name : Bytes
  filename : Option Bytes
  content : Bytes

variable (part : Part)

def Part.field : Option Field := part.content.map fun content => ⟨part.name, part.filename, content⟩

def readQuoted : Bytes → Option (Bytes × Bytes)
  | [] => none
  | b :: s =>
    if b == byte '"' then some ([], s)
    else if b == byte '\\' then
      match s with
      | [] => none
      | escaped :: s => (readQuoted s).map fun read => (escaped :: read.1, read.2)
    else (readQuoted s).map fun read => (b :: read.1, read.2)

def isDisposition (line : Bytes) : Bool :=
  match splitOnce (ascii ":") line with
  | some (name, _) => eqIgnoreCase name (ascii "content-disposition")
  | none => false

def readDisposition (line : Bytes) : Option (Bytes × Option Bytes) :=
  (line.dropPrefix? (ascii "Content-Disposition: form-data; name=\"")).bind fun quoted =>
  (readQuoted quoted).bind fun read =>
    if read.2.isEmpty then some (read.1, none)
    else (read.2.dropPrefix? (ascii "; filename=\"")).bind fun quoted =>
      (readQuoted quoted).bind fun file =>
        if file.2.isEmpty then some (read.1, some file.1) else none

/-- A part: lines up to an empty one, of which one is a `Content-Disposition`, and the content. -/
def readPart (piece : Bytes) : Option Field :=
  match splitText crlf piece with
  | [] :: lines =>
    match lines.dropWhile (fun line => !line.isEmpty) with
    | _ :: content =>
      match (lines.takeWhile fun line => !line.isEmpty).filter isDisposition with
      | [line] => (readDisposition line).map fun read => ⟨read.1, read.2, crlf.intercalate content⟩
      | _ => none
    | [] => none
  | _ => none

def delimiter (boundary : Bytes) : Bytes := crlf ++ ascii "--" ++ boundary

/-- The parts between the delimiters, the last of which closes the body. -/
def readBody (boundary body : Bytes) : Option (List Field) :=
  match splitText (delimiter boundary) (crlf ++ body) with
  | [] :: pieces =>
    if pieces.getLast? = some (ascii "--" ++ crlf) then pieces.dropLast.mapM readPart else none
  | _ => none

lemma readQuoted_quote (s : Bytes) : readQuoted (byte '"' :: s) = some ([], s) := by
  rw [readQuoted.eq_def]
  rfl

lemma readQuoted_escaped (b : UInt8) (s : Bytes) :
    readQuoted (byte '\\' :: b :: s) = (readQuoted s).map fun read => (b :: read.1, read.2) := by
  rfl

lemma readQuoted_plain (s : Bytes) (hq : ¬(b == byte '"'))
    (hb : ¬(b == byte '\\')) :
    readQuoted (b :: s) = (readQuoted s).map fun read => (b :: read.1, read.2) := by
  rw [readQuoted.eq_def]
  simp only [hq, hb]
  rfl

variable {s : Bytes}

lemma readQuoted_append (h : readQuoted s = some (text, rest)) (t : Bytes) :
    readQuoted (s ++ t) = some (text, rest ++ t) := by
  fun_induction readQuoted s generalizing text with
  | case1 => cases h
  | case2 b s hq =>
    cases h
    rw [cons_append, beq_iff_eq.mp hq, readQuoted_quote]
  | case3 b hq hb => cases h
  | case4 b hq hb escaped s ih =>
    obtain ⟨read, hr, heq⟩ := Option.map_eq_some_iff.mp h
    cases heq
    rw [cons_append, cons_append, beq_iff_eq.mp hb, readQuoted_escaped, ih hr]
    rfl
  | case5 b s hq hb ih =>
    obtain ⟨read, hr, heq⟩ := Option.map_eq_some_iff.mp h
    cases heq
    rw [cons_append, readQuoted_plain _ hq hb, ih hr]
    rfl

lemma escapeQuote_cons (b : UInt8) (s : Bytes) :
    escapeQuote (b :: s) =
      (if b == byte '\\' || b == byte '"' then [byte '\\', b] else [b]) ++ escapeQuote s :=
  flatMap_cons

lemma readQuoted_escapeQuote (s t : Bytes) :
    readQuoted (escapeQuote s ++ ascii "\"" ++ t) = some (s, t) := by
  induction s with
  | nil => exact readQuoted_quote t
  | cons b s ih =>
    rw [escapeQuote_cons]
    split
    · rw [append_assoc, append_assoc, cons_append, cons_append,
        readQuoted_escaped, nil_append, ← append_assoc, ih]
      rfl
    rename_i hp
    rw [Bool.or_eq_true, not_or] at hp
    rw [append_assoc, append_assoc, cons_append,
      readQuoted_plain _ hp.2 hp.1, nil_append, ← append_assoc, ih]
    rfl

/-- A quoted text that is read back from the front of a text is all of it but what follows the
closing quote. -/
lemma eq_of_readQuoted (h : front ++ after = escapeQuote s ++ ascii "\"" ++ t)
    (hr : readQuoted front = some (text, rest)) : text = s ∧ rest ++ after = t := by
  have hw := readQuoted_append hr after
  rw [h, readQuoted_escapeQuote] at hw
  obtain ⟨htex, ht⟩ := Prod.mk.inj (Option.some.inj hw)
  exact ⟨htex.symm, ht.symm⟩

lemma crlf_prefix_cons : crlf <+: b :: s ↔ b = 13 ∧ s.head? = some 10 := by
  unfold crlf
  cases s <;> simp [eq_comm]

lemma head?_escapeQuote : (escapeQuote s).head? = some 10 ↔ s.head? = some 10 := by
  cases s with
  | nil => rfl
  | cons b s =>
    rw [escapeQuote_cons]
    split
    next hs =>
      rw [Bool.or_eq_true, beq_iff_eq, beq_iff_eq] at hs
      rcases hs with rfl | rfl <;> simp only [cons_append, List.head?_cons, Option.some.injEq]
      decide
    · rfl

lemma crlf_infix_escapeQuote : crlf <:+: escapeQuote s ↔ crlf <:+: s := by
  induction s with
  | nil => rfl
  | cons b s ih =>
    rw [escapeQuote_cons, infix_cons_iff, ← ih, crlf_prefix_cons]
    split
    next hs =>
      rw [Bool.or_eq_true, beq_iff_eq, beq_iff_eq] at hs
      rw [cons_append, cons_append, nil_append, infix_cons_iff,
        infix_cons_iff, crlf_prefix_cons, crlf_prefix_cons]
      have hb : b ≠ 13 := by rcases hs with rfl | rfl <;> decide
      have hbac : byte '\\' ≠ 13 := by decide
      simp [hb, hbac, false_and, false_or]
    · rw [cons_append, nil_append, infix_cons_iff, crlf_prefix_cons, head?_escapeQuote]

lemma disposition_eq :
    part.disposition = ascii "Content-Disposition: form-data; name=\"" ++
      (escapeQuote part.name ++ ascii "\"" ++
        (part.filename.elim [] fun filename =>
          ascii "; filename=\"" ++ (escapeQuote filename ++ ascii "\"" ++ []))) := by
  unfold disposition
  cases part.filename <;> simp

lemma readDisposition_disposition :
    readDisposition part.disposition = some (part.name, part.filename) := by
  rw [disposition_eq]
  unfold readDisposition
  rw [dropPrefix?_eq_some.mpr rfl, Option.bind_some, readQuoted_escapeQuote, Option.bind_some]
  cases part.filename with
  | none => rfl
  | some filename =>
    have hf : (ascii "; filename=\"" ++ (escapeQuote filename ++ ascii "\"" ++ [])).isEmpty =
        false := rfl
    simp only [Option.elim_some, hf, dropPrefix?_eq_some.mpr rfl, Option.bind_some,
      readQuoted_escapeQuote]
    rfl

lemma eq_nil_of_readDisposition {part : Part} (h : line ++ after = part.disposition)
    (hr : readDisposition line = some (part.name, part.filename)) : after = [] := by
  rw [disposition_eq] at h
  obtain ⟨quoted, hquo, hr⟩ := Option.bind_eq_some_iff.mp hr
  obtain ⟨⟨name, rest⟩, hn, hr⟩ := Option.bind_eq_some_iff.mp hr
  rw [dropPrefix?_eq_some.mp hquo, append_assoc, append_cancel_left_eq] at h
  obtain ⟨rfl, hres⟩ := eq_of_readQuoted h hn
  simp only at hr
  split at hr
  · -- Nothing follows the name, and the part has no file name.
    rw [Option.some.injEq, Prod.mk.injEq] at hr
    rw [← hr.2] at hres
    exact (append_eq_nil_iff.mp hres).2
  obtain ⟨quotedFile, hq, hr⟩ := Option.bind_eq_some_iff.mp hr
  obtain ⟨⟨filename, last⟩, hf, hr⟩ := Option.bind_eq_some_iff.mp hr
  split at hr
  next hl =>
    rw [Option.some.injEq, Prod.mk.injEq] at hr
    rw [← hr.2, Option.elim_some, dropPrefix?_eq_some.mp hq, append_assoc,
      append_cancel_left_eq] at hres
    have he := (eq_of_readQuoted hres hf).2
    exact (append_eq_nil_iff.mp he).2
  · cases hr

variable (content : Bytes)

def Part.piece : Bytes :=
  crlf.intercalate ([] :: part.disposition :: part.extraLines ++ [[]] ++ [content])

def Part.headLines : List Bytes := (part.disposition :: part.extraLines).flatMap (splitText crlf)

lemma crlf_encode (boundary : Bytes) (parts : List (Part × Bytes)) :
    crlf ++ encode boundary parts =
      (delimiter boundary).intercalate
        ([] :: parts.map (fun part => part.1.piece part.2) ++ [ascii "--" ++ crlf]) := by
  rw [intercalate_concat]
  induction parts with
  | nil => simp [encode, closing, delimiter]
  | cons part parts ih =>
    have he : crlf ++ encode boundary (part :: parts) =
        delimiter boundary ++ part.1.piece part.2 ++ (crlf ++ encode boundary parts) := by
      rw [piece, intercalate_concat]
      simp [encode, Part.head, delimiter]
    rw [he, ih]
    simp

lemma splitText_piece :
    splitText crlf (part.piece content) = [] :: (part.headLines ++ [] :: splitText crlf content) := by
  have hnil : splitText crlf [] = [[]] := rfl
  unfold piece headLines
  unfold crlf at hnil ⊢
  rw [splitText_intercalate (by decide) (by simp)]
  simp [hnil]

section Delimiter

variable {boundary : Bytes} (hboundary : validateBoundary boundary)

include hboundary

lemma cr_notMem_boundary : (13 : UInt8) ∉ boundary := by
  intro hm
  simp only [validateBoundary, Bool.and_eq_true, all_eq_true] at hboundary
  exact absurd (hboundary.2 13 hm) (by decide)

lemma cr_notMem_delimiter : (13 : UInt8) ∉ 10 :: (ascii "--" ++ boundary) := by
  have hd : (13 : UInt8) ∉ 10 :: ascii "--" := by decide
  rw [← cons_append, mem_append, not_or]
  exact ⟨hd, cr_notMem_boundary hboundary⟩

lemma readBody_encode (parts : List (Part × Bytes)) :
    readBody boundary (encode boundary parts) =
      (parts.flatMap fun part =>
        splitText (delimiter boundary) (part.1.piece part.2)).mapM readPart := by
  have hd : delimiter boundary = 13 :: (10 :: (ascii "--" ++ boundary)) := rfl
  have he : splitText (delimiter boundary) (ascii "--" ++ crlf) = [ascii "--" ++ crlf] := by
    rw [hd]
    apply splitText_of_absent
    intro hi
    have hlen := hi.length_le
    simp only [validateBoundary, Bool.and_eq_true, Bool.not_eq_true', isEmpty_eq_false_iff]
      at hboundary
    have hpos := length_pos_iff.mpr hboundary.1.1
    simp only [length_cons, length_append, length_nil, crlf] at hlen
    omega
  have hp : splitText (delimiter boundary) (crlf ++ encode boundary parts) =
      [] :: ((parts.flatMap fun part =>
        splitText (delimiter boundary) (part.1.piece part.2)) ++ [ascii "--" ++ crlf]) := by
    rw [crlf_encode, hd, splitText_intercalate (cr_notMem_delimiter hboundary) (by simp),
      ← hd, flatMap_append, flatMap_singleton, he, flatMap_cons,
      flatMap_map]
    rfl
  unfold readBody
  rw [hp]
  simp

end Delimiter

lemma readPart_piece :
    readPart (part.piece content) = some ⟨part.name, part.filename, content⟩ ↔
      (∀ line ∈ part.headLines, line ≠ []) ∧
        ∃ line, part.headLines.filter isDisposition = [line] ∧
          readDisposition line = some (part.name, part.filename) := by
  have hj : crlf.intercalate (splitText crlf content) = content := intercalate_splitText content
  have hne : splitText crlf content ≠ [] := splitText_ne_nil content
  unfold readPart
  rw [splitText_piece]
  simp only
  by_cases hl : ∀ line ∈ part.headLines, line ≠ []
  · have hf : ∀ line ∈ part.headLines, (!line.isEmpty) := by
      intro line hlin
      simpa using hl line hlin
    rw [dropWhile_append_of_pos hf, takeWhile_append_of_pos hf]
    have hd : ([] :: splitText crlf content).dropWhile (fun line => !line.isEmpty) =
        [] :: splitText crlf content := rfl
    have ht : ([] :: splitText crlf content).takeWhile (fun line => !line.isEmpty) = [] := rfl
    rw [hd, ht, append_nil]
    simp only [hj]
    rw [and_iff_right hl]
    split
    next line ho =>
      rw [ho]
      simp
    rename_i hm
    refine iff_of_false (fun h => by cases h) ?_
    rintro ⟨line, ho, -⟩
    exact hm line ho
  · -- What follows the first empty line is more than the content.
    refine iff_of_false ?_ fun h => hl h.1
    obtain ⟨front, text, hd⟩ : ∃ front text,
        (part.headLines ++ [] :: splitText crlf content).dropWhile (fun line => !line.isEmpty) =
          text :: (front ++ [] :: splitText crlf content) := by
      rw [dropWhile_append]
      cases hc : part.headLines.dropWhile fun line => !line.isEmpty with
      | nil =>
        rw [dropWhile_eq_nil_iff] at hc
        exact absurd (fun line hlin => by simpa using hc line hlin) hl
      | cons text front => exact ⟨front, text, rfl⟩
    rw [hd]
    simp only
    split
    · intro h
      obtain ⟨read, -, hfie⟩ := Option.map_eq_some_iff.mp h
      have hcontent := congrArg Field.content hfie
      exact intercalate_ne_of_append (by decide) front [] hne (hcontent.trans hj.symm)
    · intro h
      cases h

/-! ### Forms that are read back -/

/-- No line end in the name or in the file name, and no other line that is empty, starts with the
boundary or is a second disposition. -/
structure Part.Plain (boundary : Bytes) (part : Part) : Prop where
  name : ¬crlf <:+: part.name
  filename : ∀ filename ∈ part.filename, ¬crlf <:+: filename
  lines : ∀ line ∈ part.extraLines.flatMap (splitText crlf),
    line ≠ [] ∧ ¬ascii "--" ++ boundary <+: line ∧ isDisposition line = false

lemma crlf_infix_append_left (hf : (13 : UInt8) ∉ front) (s : Bytes) :
    crlf <:+: front ++ s ↔ crlf <:+: s := by
  induction front with
  | nil => rfl
  | cons b front ih =>
    rw [mem_cons, not_or] at hf
    rw [cons_append, infix_cons_iff, crlf_prefix_cons, ih hf.2]
    simp [Ne.symm hf.1]

lemma crlf_infix_append (ht : t.head? ≠ some 10) (s : Bytes) :
    crlf <:+: s ++ t ↔ crlf <:+: s ∨ crlf <:+: t := by
  induction s with
  | nil => simp [crlf]
  | cons b s ih =>
    rw [cons_append, infix_cons_iff, infix_cons_iff, crlf_prefix_cons,
      crlf_prefix_cons, ih, or_assoc]
    cases s with
    | nil => simp [ht]
    | cons next s => rfl

lemma crlf_infix_quoted (s t : Bytes) :
    crlf <:+: escapeQuote s ++ ascii "\"" ++ t ↔ crlf <:+: s ∨ crlf <:+: t := by
  have hq : (ascii "\"" ++ t).head? ≠ some 10 := by
    rw [show (ascii "\"" ++ t).head? = some 34 from rfl]
    decide
  rw [append_assoc, crlf_infix_append hq, crlf_infix_escapeQuote,
    crlf_infix_append_left (by decide)]

lemma crlf_infix_disposition :
    crlf <:+: part.disposition ↔
      crlf <:+: part.name ∨ ∃ filename ∈ part.filename, crlf <:+: filename := by
  have hnil : ¬crlf <:+: [] := by decide
  rw [disposition_eq, crlf_infix_append_left (by decide), crlf_infix_quoted]
  cases part.filename with
  | none => simp [hnil]
  | some filename =>
    rw [Option.elim_some, crlf_infix_append_left (by decide), crlf_infix_quoted]
    simp [hnil]

lemma splitText_disposition :
    ∃ first others, splitText crlf part.disposition = first :: others ∧
      isDisposition first := by
  rw [disposition_eq]
  obtain ⟨first, others, -, hs⟩ := @splitText_append_left 13 [10]
    (ascii "Content-Disposition: form-data; name=\"") (by decide)
    (escapeQuote part.name ++ ascii "\"" ++
      (part.filename.elim [] fun filename =>
        ascii "; filename=\"" ++ (escapeQuote filename ++ ascii "\"" ++ [])))
  exact ⟨_, others, hs, rfl⟩

section Delimiter

variable {boundary : Bytes} (hboundary : validateBoundary boundary) {content : Bytes}
  (hcontent : ¬boundary <:+: content)

include hboundary hcontent

lemma splitText_delimiter (part : Part) :
    splitText (delimiter boundary) (part.piece content) = [part.piece content] ↔
      ∀ line ∈ part.headLines, ¬ascii "--" ++ boundary <+: line := by
  have hd : delimiter boundary = 13 :: (10 :: (ascii "--" ++ boundary)) := rfl
  have hdas : (13 : UInt8) ∉ ascii "--" ++ boundary :=
    fun h => cr_notMem_delimiter hboundary (mem_cons_of_mem _ h)
  have hlin := @append_infix_iff (part.piece content) 13 [10] (by decide) _ hdas
  have hc : splitText [13, 10] (part.piece content) =
      [] :: (part.headLines ++ [] :: splitText crlf content) := splitText_piece part content
  rw [hc, tail_cons] at hlin
  have hr : ∀ line ∈ splitText crlf content, ¬ascii "--" ++ boundary <+: line := by
    intro line hl hs
    have hl : line <:+: content := @infix_of_mem_splitText _ _ 13 [10] hl
    exact hcontent ((suffix_append _ boundary).isInfix.trans (hs.isInfix.trans hl))
  rw [hd, splitText_eq_singleton, show 13 :: (10 :: (ascii "--" ++ boundary)) =
    [13, 10] ++ (ascii "--" ++ boundary) from rfl, hlin]
  constructor
  · intro h line hl hs
    exact h ⟨line, mem_append_left _ hl, hs⟩
  rintro h ⟨line, hl, hs⟩
  rcases mem_append.mp hl with hl | hl
  · exact h line hl hs
  · rcases mem_cons.mp hl with rfl | hl
    · exact absurd (prefix_nil.mp hs) (by simp [ascii])
    · exact hr line hl hs

/-- A part is in one piece that is read back exactly if it is plain. -/
lemma readPart_iff_plain (part : Part) :
    (∃ piece, splitText (delimiter boundary) (part.piece content) = [piece] ∧
        readPart piece = some ⟨part.name, part.filename, content⟩) ↔ part.Plain boundary := by
  obtain ⟨first, others, hs, hfir⟩ := splitText_disposition part
  have hh : part.headLines =
      first :: (others ++ part.extraLines.flatMap (splitText crlf)) := by
    unfold headLines
    rw [flatMap_cons, hs, cons_append]
  constructor
  · rintro ⟨piece, hpie, hr⟩
    have hw : (delimiter boundary).intercalate
        (splitText (delimiter boundary) (part.piece content)) = part.piece content :=
      intercalate_splitText _
    rw [hpie, intercalate_singleton] at hw
    subst hw
    have hsta := (splitText_delimiter hboundary hcontent part).mp hpie
    obtain ⟨hlin, line, hone, hl⟩ := (readPart_piece part content).mp hr
    rw [hh] at hsta hlin hone
    rw [filter_cons_of_pos hfir, List.cons.injEq, filter_append, append_eq_nil_iff] at hone
    obtain ⟨rfl, -, ho⟩ := hone
    -- The line that is read is the whole disposition, so that the disposition is one line.
    obtain ⟨after, ha⟩ : first <+: part.disposition := @prefix_of_splitText _ _ _ 13 [10] hs
    rw [eq_nil_of_readDisposition ha hl, append_nil] at ha
    rw [ha] at hs
    obtain rfl : others = [] := @splitText_eq_singleton_of_head _ _ 13 [10] hs
    have hfla := (@splitText_eq_singleton _ 13 [10]).mp hs
    have hn := mt (crlf_infix_disposition part).mpr hfla
    rw [not_or] at hn
    refine ⟨hn.1, fun filename hfil hi => hn.2 ⟨filename, hfil, hi⟩, ?_⟩
    intro line hm
    have hm' := mem_cons_of_mem first hm
    refine ⟨hlin line hm', hsta line hm', ?_⟩
    exact Bool.eq_false_iff.mpr (filter_eq_nil_iff.mp ho line hm)
  · intro hp
    have hfla : ¬crlf <:+: part.disposition := by
      rw [crlf_infix_disposition, not_or]
      exact ⟨hp.name, fun ⟨filename, hfil, hi⟩ => hp.filename filename hfil hi⟩
    have hone : splitText crlf part.disposition = [part.disposition] :=
      (@splitText_eq_singleton _ 13 [10]).mpr hfla
    rw [hone, List.cons.injEq] at hs
    obtain ⟨rfl, rfl⟩ := hs
    have hf : part.disposition.head? = some (byte 'C') := by
      rfl
    refine ⟨part.piece content, (splitText_delimiter hboundary hcontent part).mpr ?_,
      (readPart_piece part content).mpr ⟨?_, part.disposition, ?_, ?_⟩⟩
    · rw [hh, forall_mem_cons]
      refine ⟨?_, fun line hl => (hp.lines line hl).2.1⟩
      rintro ⟨rest, hres⟩
      rw [← hres] at hf
      cases hf
    · rw [hh, forall_mem_cons]
      refine ⟨?_, fun line hl => (hp.lines line hl).1⟩
      intro hnil
      rw [hnil] at hf
      cases hf
    · rw [hh, filter_cons_of_pos hfir, List.cons.injEq, filter_eq_nil_iff]
      exact ⟨rfl, fun line hl => Bool.eq_false_iff.mp (hp.lines line hl).2.2⟩
    · exact readDisposition_disposition part

end Delimiter

/-- Every form whose parts have contents without the boundary is read back as it was put in exactly
if its parts are plain: the number of the parts, their order, and the name, the file name and the
content of each. -/
theorem Multipart.read_back_iff (form : Multipart)
    (hcontents : ∀ part ∈ form.parts, ∃ content, part.content = some content ∧
      ¬form.boundary <:+: content) :
    form.wire.bind (readBody form.boundary) = form.parts.mapM Part.field ↔
      ∀ part ∈ form.parts, part.Plain form.boundary := by
  have hpai : withContents form.parts =
      some (form.parts.map fun part => (part, part.content.getD [])) := by
    apply mapM_eq_some_map
    intro part hp
    obtain ⟨content, hcontent, -⟩ := hcontents part hp
    rw [hcontent]
    rfl
  have hf : form.parts.mapM field =
      some (form.parts.map fun part => ⟨part.name, part.filename, part.content.getD []⟩) := by
    apply mapM_eq_some_map
    intro part hp
    obtain ⟨content, hcontent, -⟩ := hcontents part hp
    unfold field
    rw [hcontent]
    rfl
  have hpie : ∀ part : Part,
      splitText (delimiter form.boundary) (part.piece (part.content.getD [])) ≠ [] :=
    fun _ => splitText_ne_nil _
  rw [form.wire_eq, hpai, hf, Option.map_some, Option.bind_some,
    readBody_encode form.valid, flatMap_map, mapM_flatMap_iff hpie]
  refine forall₂_congr fun part hp => ?_
  obtain ⟨content, hcontent, ha⟩ := hcontents part hp
  rw [hcontent]
  exact readPart_iff_plain form.valid ha part

def plainForm : Multipart where
  boundary := ascii "XBOUNDARYX"
  valid := by decide
  parts :=
    [{ name := ascii "a\"b\\c", body := .buffered (ascii "1\r\n2") },
      { name := ascii "f", filename := some (ascii "x\n.txt"),
        contentType := some (ascii "text/plain"), headers := [(ascii "X-A", ascii "b")],
        body := .streaming [.ok (.data (ascii "da")), .ok (.trailers ⟨[]⟩), .ok (.data (ascii "ta"))] }]

theorem Multipart.read_back_iff_sample :
    (∀ part ∈ plainForm.parts, ∃ content, part.content = some content ∧
        ¬plainForm.boundary <:+: content) ∧
      (plainForm.wire.bind (readBody plainForm.boundary) = plainForm.parts.mapM Part.field ↔
        ∀ part ∈ plainForm.parts, part.Plain plainForm.boundary) := by
  have hc : ∀ part ∈ plainForm.parts, ∃ content, part.content = some content ∧
      ¬plainForm.boundary <:+: content := by
    refine forall_mem_cons.mpr ⟨?_, forall_mem_singleton.mpr ?_⟩
    · exact ⟨ascii "1\r\n2", rfl, by decide⟩
    · exact ⟨ascii "data", rfl, by decide⟩
  exact ⟨hc, plainForm.read_back_iff hc⟩

def brokenForm : Multipart where
  boundary := ascii "XBOUNDARYX"
  valid := by decide
  parts := [{ name := ascii "a\r\nX-Injected: 1", body := .buffered (ascii "v") }]

/-- The name of a part adds a header line, and the part is not read back. -/
theorem Multipart.name_adds_header_line :
    brokenForm.wire.map (splitText crlf) = some
        [ascii "--XBOUNDARYX", ascii "Content-Disposition: form-data; name=\"a",
          ascii "X-Injected: 1\"", [], ascii "v", ascii "--XBOUNDARYX--", []] ∧
      brokenForm.wire.bind (readBody brokenForm.boundary) = none ∧
      brokenForm.parts.mapM Part.field =
        some [⟨ascii "a\r\nX-Injected: 1", none, ascii "v"⟩] := by
  refine ⟨?_, ?_, rfl⟩
  · decide +kernel
  · decide +kernel

end Aioduct.Form
