import Aioduct.Sse.Boundary
import Aioduct.Sse.Reference

/-!
# Decoding does not depend on chunking

The invariant is what a decoder and its buffer still have to say, as a function of the input to
come.
-/

namespace Aioduct.Sse

open Wire List Utf8 BlockFields Nat Or

variable {b c : UInt8} {awaited : Bytes → List SseEvent} {d : SseDecoder} {buf : Bytes}

def BlockFields.addField (self : BlockFields) (name value : Bytes) : BlockFields :=
  if name = ascii "event" then { self with eventType := some value }
  else if name = ascii "data" then
    { self with hasDataField := true, dataLines := self.dataLines ++ [value] }
  else if name = ascii "id" ∧ !value.contains 0 then { self with id := some value }
  else if name = ascii "retry" ∧ !value.isEmpty ∧ value.all isDigit then
    { self with retry := parseInterval value }
  else self

lemma BlockFields.addLine_eq (self : BlockFields) (line : Bytes) :
    self.addLine line =
      (fieldOf line).elim self fun field => self.addField field.1 field.2 := by
  unfold addLine fieldOf
  by_cases hempty : line.isEmpty
  · simp [hempty]
  by_cases hc : line.head? = some (byte ':')
  · simp [hc]
  have hf : (line.isEmpty || line.head? == some (byte ':')) = false := by
    rw [Bool.or_eq_false_iff]
    exact ⟨by simpa using hempty, by simpa using hc⟩
  simp only [hf, if_neg hempty, if_neg hc, Bool.false_eq_true, if_false]
  cases splitOnceColon line with
  | some field => rfl
  | none =>
    -- a field without a colon has the empty value
    simp only [Option.elim_some, addField]
    by_cases hd : line = ascii "data"
    · subst hd
      rfl
    · simp [hd]

variable (fields : List (Bytes × Bytes))

def collected : BlockFields where
  eventType := eventOf fields
  dataLines := dataOf fields
  id := idOf fields
  retry := retryOf fields
  hasDataField := !(dataOf fields).isEmpty

lemma valuesOf_snoc (name : Bytes) (fields : List (Bytes × Bytes)) (field : Bytes × Bytes) :
    valuesOf name (fields ++ [field]) =
      if field.1 = name then valuesOf name fields ++ [field.2] else valuesOf name fields := by
  unfold valuesOf
  by_cases h : field.1 = name <;> simp [filter_append, h]

lemma collected_snoc (field : Bytes × Bytes) :
    collected (fields ++ [field]) = (collected fields).addField field.1 field.2 := by
  obtain ⟨name, value⟩ := field
  have hei : ascii "event" ≠ ascii "id" := by decide
  have hdi : ascii "data" ≠ ascii "id" := by decide
  have hir : ascii "id" ≠ ascii "retry" := by decide
  simp only [collected, eventOf, dataOf, idOf, retryOf, valuesOf_snoc, addField]
  by_cases he : name = ascii "event"
  · simp [he, hei, show ascii "event" ≠ ascii "data" ∧ ascii "event" ≠ ascii "retry" by decide]
  by_cases hd : name = ascii "data"
  · simp [hd, hdi, show ascii "data" ≠ ascii "event" ∧ ascii "data" ≠ ascii "retry" by decide]
  by_cases hid : name = ascii "id"
  · by_cases hn : 0 ∈ value <;>
      simp [hid, hei.symm, hdi.symm, hir, filter_append, hn]
  by_cases hr : name = ascii "retry"
  · by_cases hdig : (!value.isEmpty && value.all isDigit) <;>
      simp_all [filter_append]
  · simp [he, hd, hid, hr]

lemma foldl_addLine (block : List Bytes) :
    (block.map lossy).foldl BlockFields.addLine {} = collected (fieldsOf block) := by
  induction block using reverseRecOn with
  | nil => rfl
  | append_singleton block line ih =>
    have ha : fieldsOf (block ++ [line]) =
        fieldsOf block ++ (fieldOf (lossy line)).toList := by
      cases h : fieldOf (lossy line) <;> simp [fieldsOf, h]
    rw [map_append, foldl_append, ih, ha, map_singleton, foldl_cons, foldl_nil, addLine_eq]
    cases fieldOf (lossy line) with
    | none => simp
    | some field => exact (collected_snoc _ field).symm

/-! ### The lines of a block -/

variable {s rest l e text : Bytes} {ls : List Bytes}

lemma nextLineStr_unbroken (hs : Unbroken s) : nextLineStr s = (s, []) := by
  rw [nextLineStr, findNewline_unbroken hs]

lemma nextLineStr_line (hl : Unbroken l) (he : IsEnding e rest) :
    nextLineStr (l ++ (e ++ rest)) = (l, rest) := by
  rw [nextLineStr, findNewline_line hl he]
  cases he with
  | lf => simp [lf_ne_cr]
  | crlf => simp
  | cr _ hr =>
    have hg : (l ++ ([byte '\r'] ++ rest)).getD (l.length + 1) 0 = rest.getD 0 0 := by
      simp [getD_eq_getElem?_getD, getElem?_append_right]
    have hnext : ¬(0 < rest.length ∧ rest.getD 0 0 = byte '\n') := by
      rintro ⟨hpos, hh⟩
      obtain ⟨b, t, rfl⟩ := exists_cons_of_length_pos hpos
      exact hr (congrArg some hh)
    dsimp only
    rw [hg, if_neg]
    · simp
    rintro ⟨hlen, -, hh⟩
    refine hnext ⟨?_, hh⟩
    simp only [length_append, length_singleton] at hlen
    omega

lemma parseBlockLoop_nil (fuel : Nat) (fields : BlockFields) :
    parseBlockLoop fuel fields [] = fields := by
  cases fuel <;> rfl

lemma isNewline_ascii (hb : isNewline b) : b < 0x80 := by
  simp only [isNewline, Bool.or_eq_true, beq_iff_eq] at hb
  rcases hb with rfl | rfl <;> decide

lemma unbroken_lossy (hl : Unbroken l) : Unbroken (lossy l) := by
  intro b hb
  by_contra hn
  rw [Bool.not_eq_false] at hn
  have hm := mem_of_mem_lossy (isNewline_ascii hn) hb
  rw [hl b hm] at hn
  cases hn

lemma lossy_ending (he : IsEnding e rest) (text : Bytes) :
    lossy (l ++ (e ++ text)) = lossy l ++ (e ++ lossy text) := by
  have hcr : byte '\r' < 0x80 := by decide
  have hlf : byte '\n' < 0x80 := by decide
  cases he with
  | lf => exact lossy_append_ascii hlf l text
  | cr => exact lossy_append_ascii hcr l text
  | crlf =>
    have hf := lossy_append_ascii hcr l (byte '\n' :: text)
    exact hf

lemma isEnding_lossy (he : IsEnding e (c :: s)) (hc : isNewline c = false)
    (ht : ∀ b, text.head? = some b → b = c) : IsEnding e (lossy text) := by
  cases he with
  | lf => exact .lf _
  | crlf => exact .crlf _
  | cr =>
    refine .cr _ fun hh => ?_
    have hlf := ht _ (head_lossy (by decide) hh)
    rw [← hlf] at hc
    cases hc

lemma FirstBlock.head (h : FirstBlock (c :: s) text ls rest) :
    ∀ b, text.head? = some b → b = c := by
  intro b hb
  obtain ⟨gap, hs, -⟩ := h.findEventBoundary_eq
  obtain ⟨t, rfl⟩ := head?_eq_some_iff.mp hb
  exact (List.cons.inj hs).1.symm

lemma FirstBlock.parseBlockLoop_eq (h : FirstBlock s text ls rest) :
    ∀ fuel fields, (lossy text).length ≤ fuel →
      parseBlockLoop fuel fields (lossy text) =
        (ls.map lossy).foldl BlockFields.addLine fields := by
  induction h with
  | @last l e blank rest hl he hblank =>
    intro fuel fields hf
    rw [map_singleton, foldl_cons, foldl_nil]
    by_cases hempty : lossy l = []
    · rw [hempty, parseBlockLoop_nil]
      rfl
    have hpos := length_pos_iff.mpr hempty
    obtain ⟨fuel, rfl⟩ : ∃ k, fuel = k + 1 := ⟨fuel - 1, by omega⟩
    rw [parseBlockLoop, if_neg (by simpa using hempty), nextLineStr_unbroken (unbroken_lossy hl)]
    exact parseBlockLoop_nil fuel _
  | @more l e s text rest c ls hl he hc hfir ih =>
    intro fuel fields hf
    have he' := isEnding_lossy he hc hfir.head
    have hpos := he.length_pos
    rw [lossy_ending he] at hf ⊢
    simp only [length_append] at hf
    obtain ⟨fuel, rfl⟩ : ∃ k, fuel = k + 1 := ⟨fuel - 1, by omega⟩
    have hne : ¬(lossy l ++ (e ++ lossy text)).isEmpty := by
      rw [isEmpty_iff_length_eq_zero]
      simp only [length_append]
      omega
    rw [parseBlockLoop, if_neg hne, nextLineStr_line (unbroken_lossy hl) he']
    exact ih fuel _ (by omega)

lemma FirstBlock.parseBlock_eq (h : FirstBlock s text ls rest) :
    parseBlock (lossy text) = collected (fieldsOf ls) := by
  rw [parseBlock, h.parseBlockLoop_eq _ _ (le_refl _), foldl_addLine]

/-- Only the first of the lines of `s` may be empty, and it is not if `s` begins inside a line. -/
def OnlyFirstEmpty (s : Bytes) (ls : List Bytes) : Prop :=
  (∀ line ∈ ls.tail, line ≠ []) ∧
    (∀ c t, s = c :: t → isNewline c = false → ∀ line ∈ ls, line ≠ [])

lemma OnlyFirstEmpty.cons (h : OnlyFirstEmpty (c :: s) ls) (he : IsEnding e rest)
    (hc : isNewline c = false) : OnlyFirstEmpty (l ++ (e ++ rest)) (l :: ls) := by
  refine ⟨h.2 c s rfl hc, fun d t hs hd line hl => ?_⟩
  rcases mem_cons.mp hl with rfl | hl
  · exact he.line_ne_nil hs hd
  · exact h.2 c s rfl hc line hl

lemma FirstBlock.lines_ne_nil (h : FirstBlock s text ls rest) : OnlyFirstEmpty s ls := by
  induction h with
  | @last l e blank rest hl he hblank =>
    refine ⟨by simp, fun c t hs hc line hlin => ?_⟩
    rw [mem_singleton] at hlin
    exact hlin ▸ he.line_ne_nil hs hc
  | more hl he hc hf ih => exact ih.cons he hc

/-- The lines of a complete block, and the events of what follows it. A CR that ended the block may
turn out to be half a CRLF: what follows then begins with an empty line that says nothing. -/
lemma FirstBlock.lines_append (h : FirstBlock s text ls rest) (t : Bytes) :
    ∃ after, lines (s ++ t) = ls ++ [] :: lines after ∧
      ∀ lastId, eventsFrom lastId after = eventsFrom lastId (rest ++ t) := by
  induction h with
  | @last l e blank rest hl he hbla =>
    obtain ⟨b, u, hbl, hb⟩ := hbla.exists_cons
    have he' : IsEnding e (blank ++ rest ++ t) := he.append (by simp [hbl]) t
    have hf : lines (l ++ (e ++ (blank ++ rest)) ++ t) = l :: lines (blank ++ (rest ++ t)) := by
      rw [← append_assoc blank, ← lines_line hl he']
      simp
    by_cases hg : rest = [] ∧ t.head? = some (byte '\n')
    · obtain ⟨rfl, hh⟩ := hg
      obtain ⟨t, rfl⟩ := head?_eq_some_iff.mp hh
      cases hbla with
      | lf => exact ⟨_, hf.trans (congrArg _ (lines_line unbroken_nil (.lf _))), fun _ => rfl⟩
      | crlf =>
        exact ⟨_, hf.trans (congrArg _ (lines_line unbroken_nil (.crlf _))), fun _ => rfl⟩
      | cr =>
        refine ⟨t, hf.trans (congrArg _ (lines_line unbroken_nil (.crlf t))), fun lastId => ?_⟩
        exact (eventsFrom_ending (.lf t) lastId).symm
    have hb' : IsEnding blank (rest ++ t) := by
      by_cases hr : rest = []
      · subst hr
        cases hbla with
        | lf => exact .lf _
        | crlf => exact .crlf _
        | cr => exact .cr _ fun hh => hg ⟨rfl, hh⟩
      · exact hbla.append hr t
    exact ⟨rest ++ t, hf.trans (congrArg _ (lines_line unbroken_nil hb')), fun _ => rfl⟩
  | @more l e s text rest c ls hl he hc hf ih =>
    obtain ⟨after, hlin, heve⟩ := ih
    have he' : IsEnding e (c :: s ++ t) := he.append (by simp) t
    refine ⟨after, ?_, heve⟩
    rw [cons_append, ← hlin, ← lines_line hl he']
    simp

lemma FirstBlock.eventsFrom_append (h : FirstBlock s text ls rest) (lastId t : Bytes) :
    eventsFrom lastId (s ++ t) =
      dispatchBlock lastId (fieldsOf ls) ++
        eventsFrom (idAfter lastId (fieldsOf ls)) (rest ++ t) := by
  obtain ⟨after, hl, he⟩ := h.lines_append t
  rw [← he, eventsFrom, hl, dispatch_block h.lines_ne_nil.1]
  rfl

lemma NoBlock.lines_ne_nil (h : NoBlock s) : OnlyFirstEmpty s (lines s) := by
  induction h with
  | unbroken hs => simp [OnlyFirstEmpty, lines_unbroken hs]
  | @ended l e hl he =>
    rw [lines_line hl he]
    refine ⟨by simp [lines_unbroken unbroken_nil], fun c t hs hc line hlin => ?_⟩
    rw [lines_unbroken unbroken_nil, mem_singleton] at hlin
    exact hlin ▸ he.line_ne_nil hs hc
  | more hl he hc _ ih =>
    rw [lines_line hl he]
    exact ih.cons he hc

lemma NoBlock.eventsFrom_eq (h : NoBlock s) (lastId : Bytes) : eventsFrom lastId s = [] :=
  dispatch_unfinished h.lines_ne_nil.1 lastId

/-! ### The decoder -/

namespace SseDecoder

/-- The decoder is between blocks with `lastId` in force, and no block of what it has searched is
complete. -/
structure Ready (d : SseDecoder) (buf lastId : Bytes) : Prop where
  unlimited : d.maxPayloadSize = 0
  notDraining : d.draining = none
  bomStripped : d.bomStripped = true
  staged : d.stagedLastEventId = lastId
  committed : d.lastEventId = lastId
  searched : ∃ s t, buf = s ++ t ∧ NoBlock s ∧ d.scanPos = s.length - 2

/-- What a decoder and its buffer still have to say, as a function of the input to come. -/
inductive Awaits : SseDecoder → Bytes → (Bytes → List SseEvent) → Prop where
  | fresh (buf : Bytes) :
      Awaits (withMaxPayloadSize 0) buf fun t => referenceEvents (buf ++ t)
  | running {d : SseDecoder} {buf lastId : Bytes} (h : Ready d buf lastId) :
      Awaits d buf fun t => eventsFrom lastId (buf ++ t)

/-- What a call has done: nothing is left of the buffer's events, or the next one is returned. -/
def Advances (awaited : Bytes → List SseEvent) : Decoded → Prop
  | (none, d, buf) => Awaits d buf awaited ∧ awaited [] = []
  | (some result, d, buf) =>
    ∃ event later, result = .ok event ∧ Awaits d buf later ∧ ∀ t, awaited t = event :: later t

variable {d : SseDecoder} {buf lastId : Bytes}

lemma Ready.findEventBoundaryFrom_eq (h : d.Ready buf lastId) :
    findEventBoundaryFrom buf d.scanPos = findEventBoundary buf := by
  obtain ⟨s, t, rfl, hs, hpos⟩ := h.searched
  rw [hpos, hs.findEventBoundaryFrom_append]

lemma Ready.append (h : d.Ready buf lastId) (chunk : Bytes) : d.Ready (buf ++ chunk) lastId := by
  obtain ⟨s, t, rfl, hs, hpos⟩ := h.searched
  exact { h with searched := ⟨s, t ++ chunk, by simp, hs, hpos⟩ }

lemma noBlock_nil : NoBlock [] := .unbroken unbroken_nil

lemma Ready.next (h : d.Ready buf lastId) (fields : List (Bytes × Bytes)) (rest : Bytes) :
    (({ d with scanPos := 0 } : SseDecoder).stage (idOf fields)).commit.Ready rest
      (idAfter lastId fields) := by
  have hs : ∃ s t, rest = s ++ t ∧ NoBlock s ∧ 0 = s.length - 2 :=
    ⟨[], rest, rfl, noBlock_nil, rfl⟩
  unfold idAfter
  cases idOf fields with
  | none => exact ⟨h.unlimited, h.notDraining, h.bomStripped, h.staged, h.staged, hs⟩
  | some id => exact ⟨h.unlimited, h.notDraining, h.bomStripped, rfl, rfl, hs⟩

/-- The main loop either empties the buffer of its events or returns the next one. -/
lemma Ready.decodeLoop_advances (fuel : Nat) : ∀ {d : SseDecoder} {buf lastId : Bytes},
    d.Ready buf lastId → buf.length < fuel →
    Advances (fun t => eventsFrom lastId (buf ++ t)) (decodeLoop fuel d buf) := by
  induction fuel with
  | zero =>
    omega
  | succ fuel ih =>
    intro d buf lastId h hfue
    have hu : ¬(0 < d.maxPayloadSize) := by
      rw [h.unlimited]
      omega
    rw [decodeLoop, h.findEventBoundaryFrom_eq]
    rcases boundary_cases buf with hno | ⟨text, ls, rest, hf⟩
    · rw [hno.findEventBoundary_eq]
      simp only [hu, false_and, if_false]
      refine ⟨.running ?_, ?_⟩
      · exact { h with searched := ⟨buf, [], by simp, hno, rfl⟩ }
      · simpa using hno.eventsFrom_eq lastId
    have hnext := h.next (fieldsOf ls) rest
    have he := hf.eventsFrom_append lastId
    have hp := hf.parseBlock_eq
    obtain ⟨gap, hb, hg, hfin⟩ := hf.findEventBoundary_eq
    have ht : buf.take text.length = text := by rw [hb, take_left]
    have hdro : buf.drop (text.length + gap.length) = rest := by
      rw [hb, ← append_assoc, ← length_append, drop_left]
    have hs : rest.length < fuel := by
      rw [hb] at hfue
      simp only [length_append] at hfue
      omega
    rw [hfin]
    simp only [hu, false_and, if_false, ht, hdro, hp]
    generalize fieldsOf ls = fields at hnext he ⊢
    simp only [collected]
    by_cases hd : (dataOf fields).isEmpty
    · cases hr : retryOf fields with
      | none =>
        have hsil : dispatchBlock lastId fields = [] := by simp [dispatchBlock, hd, hr]
        have hsam : (fun t => eventsFrom lastId (buf ++ t)) =
            fun t => eventsFrom (idAfter lastId fields) (rest ++ t) := by
          funext t
          rw [he, hsil, nil_append]
        rw [hd, hsam]
        exact ih hnext hs
      | some interval =>
        have hi : dispatchBlock lastId fields = [.retry interval] := by
          simp [dispatchBlock, hd, hr]
        rw [hd]
        cases eventOf fields <;> cases hid : idOf fields <;>
          exact ⟨_, _, rfl, .running (hid ▸ hnext), fun t => (he t).trans (congrArg (· ++ _) hi)⟩
    · rw [Bool.not_eq_true] at hd
      have hm : dispatchBlock lastId fields = [.message
          ⟨(eventOf fields).getD (ascii "message"), (ascii "\n").intercalate (dataOf fields),
            idAfter lastId fields⟩] := by simp [dispatchBlock, hd]
      rw [hd]
      cases retryOf fields
      all_goals
        refine ⟨_, _, rfl, .running hnext, fun t => (he t).trans ?_⟩
        rw [hm, hnext.committed]
        rfl

/-- The byte order mark is dropped as soon as it is complete; until then the buffer is the front
of one, and no newline is in it. -/
lemma stripBom_fresh (buf : Bytes) :
    (stripBom (withMaxPayloadSize 0) buf = (withMaxPayloadSize 0, buf) ∧ Unbroken buf ∧
        buf.length < 3) ∨
      ∃ rest, stripBom (withMaxPayloadSize 0) buf =
          ({ withMaxPayloadSize 0 with bomStripped := true }, rest) ∧
        ∀ t, dropBom (buf ++ t) = rest ++ t := by
  have hful : ∀ {s : Bytes}, bom.isPrefixOf s → s.take 3 = bom := by
    intro s hs
    obtain ⟨u, rfl⟩ := isPrefixOf_iff_prefix.mp hs
    rfl
  have hbom : Unbroken bom := by
    intro b hb
    simp only [bom, mem_cons, not_mem_nil, or_false] at hb
    rcases hb with rfl | rfl | rfl <;> rfl
  unfold stripBom
  by_cases hempty : buf = []
  · subst hempty
    exact inl ⟨rfl, unbroken_nil, by simp⟩
  have hgo : ((withMaxPayloadSize 0).bomStripped || buf.isEmpty) = false := by
    simpa [withMaxPayloadSize] using hempty
  simp only [hgo, Bool.false_eq_true, if_false]
  by_cases hsho : buf.length < 3
  · rw [if_pos hsho]
    by_cases hf : buf.isPrefixOf bom
    · refine inl ⟨by simp [hf], ?_, hsho⟩
      intro b hb
      exact hbom b ((List.isPrefixOf_iff_prefix.mp hf).subset hb)
    refine inr ⟨buf, by simp [hf], fun t => ?_⟩
    rw [dropBom, if_neg]
    intro hm
    apply hf
    rw [List.isPrefixOf_iff_prefix] at hm ⊢
    exact prefix_of_prefix_length_le (prefix_append buf t) hm (by change buf.length ≤ 3; omega)
  have ht : ∀ t, (buf ++ t).take 3 = buf.take 3 := fun t =>
    take_append_of_le_length (by omega)
  rw [if_neg hsho]
  by_cases hm : buf.take 3 = bom
  · refine inr ⟨buf.drop 3, by simp [hm], fun t => ?_⟩
    have hf : bom.isPrefixOf (buf ++ t) := by
      rw [List.isPrefixOf_iff_prefix, ← hm]
      exact (List.take_prefix 3 buf).trans (prefix_append buf t)
    rw [dropBom, if_pos hf, drop_append_of_le_length (by omega)]
  refine inr ⟨buf, by simp [hm], fun t => ?_⟩
  rw [dropBom, if_neg]
  intro hf
  exact hm ((ht t).symm.trans (hful hf))

lemma Awaits.append (h : Awaits d buf awaited) (chunk : Bytes) :
    Awaits d (buf ++ chunk) fun t => awaited (chunk ++ t) := by
  cases h with
  | fresh =>
    have hf := Awaits.fresh (buf ++ chunk)
    simpa only [append_assoc] using hf
  | running hrea =>
    have hr := Awaits.running (hrea.append chunk)
    simpa only [append_assoc] using hr

lemma Awaits.decode_advances (h : Awaits d buf awaited) : Advances awaited (decode d buf) := by
  cases h with
  | fresh =>
    rcases stripBom_fresh buf with ⟨hs, hu, hsho⟩ | ⟨rest, hs, hd⟩
    · have hno : NoBlock buf := .unbroken hu
      have hl : decodeLoop (buf.length + 1) (withMaxPayloadSize 0) buf =
          (none, withMaxPayloadSize 0, buf) := by
        have hf : findEventBoundaryFrom buf (withMaxPayloadSize 0).scanPos = none :=
          hno.findEventBoundary_eq
        have hpos : buf.length - 2 = 0 := by omega
        rw [decodeLoop, hf]
        simp [withMaxPayloadSize, hpos]
      have hm : dropBom buf = buf := by
        rw [dropBom, if_neg]
        intro hm
        have hlen := (List.isPrefixOf_iff_prefix.mp hm).length_le
        change 3 ≤ buf.length at hlen
        omega
      unfold decode
      rw [hs]
      change Advances _ (decodeLoop (buf.length + 1) (withMaxPayloadSize 0) buf)
      rw [hl]
      refine ⟨.fresh buf, ?_⟩
      change referenceEvents (buf ++ []) = []
      rw [append_nil, referenceEvents, hm, hno.eventsFrom_eq]
    · have hsam : (fun t => referenceEvents (buf ++ t)) = fun t => eventsFrom [] (rest ++ t) := by
        funext t
        rw [referenceEvents, hd]
      have hr : ({ withMaxPayloadSize 0 with bomStripped := true } : SseDecoder).Ready rest [] :=
        ⟨rfl, rfl, rfl, rfl, rfl, [], rest, rfl, noBlock_nil, rfl⟩
      unfold decode
      rw [hs, hsam]
      exact hr.decodeLoop_advances _ (lt_succ_self _)
  | running hr =>
    have hs : stripBom d buf = (d, buf) := by simp [stripBom, hr.bomStripped]
    unfold decode
    simp only [hs, hr.notDraining]
    exact hr.decodeLoop_advances _ (lt_succ_self _)

end SseDecoder

/-- `decode` is called until it returns `None`, with what it returns on the way. -/
inductive DecodesUntilNone :
    SseDecoder → Bytes → List (Except SseError SseEvent) → SseDecoder → Bytes → Prop where
  | none {d d' : SseDecoder} {buf buf' : Bytes} (h : d.decode buf = (none, d', buf')) :
      DecodesUntilNone d buf [] d' buf'
  | some {d d' d'' : SseDecoder} {buf buf' buf'' : Bytes} {result : Except SseError SseEvent}
      {results : List (Except SseError SseEvent)} (h : d.decode buf = (some result, d', buf'))
      (hnext : DecodesUntilNone d' buf' results d'' buf'') :
      DecodesUntilNone d buf (result :: results) d'' buf''

/-- Each chunk is appended to the buffer, and the decoder is then called until it returns `None`. -/
inductive DecodesChunks :
    SseDecoder → Bytes → List Bytes → List (Except SseError SseEvent) → Prop where
  | nil {d : SseDecoder} {buf : Bytes} : DecodesChunks d buf [] []
  | cons {d d' : SseDecoder} {buf buf' chunk : Bytes} {chunks : List Bytes}
      {results later : List (Except SseError SseEvent)}
      (h : DecodesUntilNone d (buf ++ chunk) results d' buf')
      (hnext : DecodesChunks d' buf' chunks later) :
      DecodesChunks d buf (chunk :: chunks) (results ++ later)

lemma DecodesUntilNone.unique {d₁ d₂ : SseDecoder} {buf₁ buf₂ : Bytes}
    {results₁ results₂ : List (Except SseError SseEvent)}
    (h₁ : DecodesUntilNone d buf results₁ d₁ buf₁) (h₂ : DecodesUntilNone d buf results₂ d₂ buf₂) :
    results₁ = results₂ ∧ d₁ = d₂ ∧ buf₁ = buf₂ := by
  induction h₁ generalizing results₂ with
  | none h =>
    cases h₂ with
    | none h' =>
      rw [h] at h'
      cases h'
      exact ⟨rfl, rfl, rfl⟩
    | some h' =>
      rw [h] at h'
      cases h'
  | some h _ ih =>
    cases h₂ with
    | none h' =>
      rw [h] at h'
      cases h'
    | some h' hnext =>
      rw [h] at h'
      cases h'
      obtain ⟨rfl, hd, hb⟩ := ih hnext
      exact ⟨rfl, hd, hb⟩

lemma SseDecoder.Awaits.decodesUntilNone (h : Awaits d buf awaited) :
    ∃ events d' buf' later, DecodesUntilNone d buf (events.map .ok) d' buf' ∧
      Awaits d' buf' later ∧ later [] = [] ∧ ∀ t, awaited t = events ++ later t := by
  -- each returned event is one of the finitely many that the buffer alone holds
  induction hn : (awaited []).length using Nat.strong_induction_on generalizing d buf awaited with
  | h n ih =>
    have hs := h.decode_advances
    rcases hd : d.decode buf with ⟨result, d', buf'⟩
    rw [hd] at hs
    cases result with
    | none => exact ⟨[], d', buf', awaited, .none hd, hs.1, hs.2, fun _ => rfl⟩
    | some result =>
      obtain ⟨event, later, rfl, hl, he⟩ := hs
      have hles : (later []).length < n := by
        rw [he] at hn
        exact hn ▸ lt_succ_self _
      obtain ⟨events, d'', buf'', last, hrun, hlas, hnil, hr⟩ := ih _ hles hl rfl
      refine ⟨event :: events, d'', buf'', last, .some hd hrun, hlas, hnil, fun t => ?_⟩
      rw [he, hr, cons_append]

lemma SseDecoder.Awaits.decodesChunks_iff (h : Awaits d buf awaited) (hnil : awaited [] = [])
    (chunks : List Bytes) (results : List (Except SseError SseEvent)) :
    DecodesChunks d buf chunks results ↔ results = (awaited chunks.flatten).map .ok := by
  induction chunks generalizing d buf awaited results with
  | nil =>
    rw [flatten_nil, hnil, map_nil]
    constructor
    · rintro ⟨⟩
      rfl
    · rintro rfl
      exact .nil
  | cons chunk chunks ih =>
    obtain ⟨events, d', buf', later, hr, hlat, hl, he⟩ :=
      (h.append chunk).decodesUntilNone
    rw [flatten_cons, he, map_append]
    constructor
    · intro hc
      cases hc with
      | cons hr' hnext =>
        obtain ⟨rfl, rfl, rfl⟩ := hr.unique hr'
        rw [(ih hlat hl _).mp hnext]
    · rintro rfl
      exact .cons hr ((ih hlat hl _).mpr rfl)

/-- However a stream is cut into chunks, a decoder without a payload limit yields, event for event,
what it yields for the whole stream at once, and that is what the reference says. -/
theorem decoding_ignores_chunking (chunks : List Bytes)
    (results : List (Except SseError SseEvent)) :
    (DecodesChunks (.withMaxPayloadSize 0) [] chunks results ↔
        DecodesChunks (.withMaxPayloadSize 0) [] [chunks.flatten] results) ∧
      (DecodesChunks (.withMaxPayloadSize 0) [] chunks results ↔
        results = (referenceEvents chunks.flatten).map .ok) := by
  have hall : ∀ chunks, DecodesChunks (.withMaxPayloadSize 0) [] chunks results ↔
      results = (referenceEvents chunks.flatten).map .ok :=
    fun chunks => (SseDecoder.Awaits.fresh []).decodesChunks_iff rfl chunks results
  refine ⟨?_, hall chunks⟩
  rw [hall chunks, hall [chunks.flatten], flatten_singleton]

end Aioduct.Sse
