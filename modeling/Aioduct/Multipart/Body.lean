import Aioduct.Error
import Aioduct.Http.Header

/-!
# Multipart bodies

The parts of a multipart request and the two ways in which they become a body: at once, and frame by
frame if a part is itself a stream.
-/

namespace Aioduct.Form

open Wire Http Option

def crlf : Bytes := [13, 10]

/-- A streamed part gives its frames, or an error, one after another. -/
inductive PartBody where
  | buffered (data : Bytes)
  | streaming (frames : List (Except Error Frame))

/-- The data of the frames, if none of them is an error; trailers are passed over. -/
def framesData : List (Except Error Frame) → Option Bytes
  | [] => some []
  | .ok (.data bytes) :: frames => (framesData frames).map (bytes ++ ·)
  | .ok (.trailers _) :: frames => framesData frames
  | .error _ :: _ => none

def PartBody.content : PartBody → Option Bytes
  | .buffered data => some data
  | .streaming frames => framesData frames

structure Part where
  name : Bytes
  filename : Option Bytes := none
  contentType : Option Bytes := none
  headers : List (Bytes × Bytes) := []
  body : PartBody

variable (part : Part)

def Part.isStreaming : Bool :=
  match part.body with
  | .buffered _ => false
  | .streaming _ => true

variable (boundary : Bytes)

/-- The `bcharsnospace` characters, and no more than 70 of them. -/
def validateBoundary : Bool :=
  !boundary.isEmpty && boundary.length ≤ 70 &&
    boundary.all fun b => isAlphanumeric b || (ascii "'()+_,-./:=?").contains b

structure Multipart where
  boundary : Bytes
  valid : validateBoundary boundary = true
  parts : List Part := []

def escapeQuote (s : Bytes) : Bytes :=
  s.flatMap fun b => if b == byte '\\' || b == byte '"' then [byte '\\', b] else [b]

namespace Part

def disposition : Bytes :=
  ascii "Content-Disposition: form-data; name=\"" ++ escapeQuote part.name ++ ascii "\"" ++
    match part.filename with
    | some filename => ascii "; filename=\"" ++ escapeQuote filename ++ ascii "\""
    | none => []

def extraLines : List Bytes :=
  (part.contentType.map fun mime => ascii "Content-Type: " ++ mime).toList ++
    part.headers.map fun header => header.1 ++ ascii ": " ++ header.2

def head (part : Part) : Bytes :=
  ascii "--" ++ boundary ++ crlf ++ (part.disposition :: part.extraLines).flatMap (· ++ crlf) ++ crlf

def content (part : Part) : Option Bytes := part.body.content

end Part

def closing : Bytes := ascii "--" ++ boundary ++ ascii "--" ++ crlf

def encode (boundary : Bytes) : List (Part × Bytes) → Bytes
  | [] => closing boundary
  | (part, content) :: parts => part.head boundary ++ content ++ crlf ++ encode boundary parts

variable (form : Multipart)

def Multipart.intoBytes : Bytes :=
  encode form.boundary <| form.parts.map fun part =>
    (part, match part.body with
      | .buffered data => data
      | .streaming _ => [])

def Multipart.hasStreamingParts : Bool := form.parts.any Part.isStreaming

inductive StreamState where
  | nextPart
  | body
  | done

structure AsyncStream where
  boundary : Bytes
  parts : List Part
  state : StreamState := .nextPart
  currentBody : Option (List (Except Error Frame)) := none

namespace AsyncStream

abbrev Item := Except Error Bytes

/-- `poll_next` writes the delimiters and the head of a part itself. -/
def partHead (boundary : Bytes) (part : Part) : Bytes :=
  let name := ascii "Content-Disposition: form-data; name=\"" ++ escapeQuote part.name
  ascii "--" ++ boundary ++ crlf ++
    (match part.filename, part.contentType with
    | some filename, some mime => name ++ ascii "\"; filename=\"" ++ escapeQuote filename ++
      ascii "\"" ++ crlf ++ ascii "Content-Type: " ++ mime ++ crlf
    | some filename, none =>
      name ++ ascii "\"; filename=\"" ++ escapeQuote filename ++ ascii "\"" ++ crlf
    | none, some mime => name ++ ascii "\"" ++ crlf ++ ascii "Content-Type: " ++ mime ++ crlf
    | none, none => name ++ ascii "\"" ++ crlf) ++
    part.headers.flatMap (fun header => header.1 ++ ascii ": " ++ header.2 ++ crlf) ++ crlf

def lastDelimiter (boundary : Bytes) : Bytes := ascii "--" ++ boundary ++ ascii "--" ++ crlf

lemma partHead_eq (boundary : Bytes) (part : Part) : partHead boundary part = part.head boundary := by
  unfold partHead Part.head Part.disposition Part.extraLines
  cases part.filename <;> cases part.contentType <;> simp [ascii, List.flatMap_map]

lemma lastDelimiter_eq : lastDelimiter boundary = closing boundary := rfl

def pollPart (self : AsyncStream) : Option Item × AsyncStream :=
  match self.parts with
  | part :: parts =>
    match part.body with
    | .buffered data =>
      (some (.ok (partHead self.boundary part ++ data ++ crlf)),
        { self with parts := parts, state := .nextPart })
    | .streaming frames =>
      (some (.ok (partHead self.boundary part)),
        { self with parts := parts, currentBody := some frames, state := .body })
  | [] => (some (.ok (lastDelimiter self.boundary)), { self with state := .done })

def pollBody (self : AsyncStream) : List (Except Error Frame) → Option Item × AsyncStream
  | .ok (.data bytes) :: frames =>
    (some (.ok bytes), { self with currentBody := some frames, state := .body })
  -- The loop goes on to the next frame.
  | .ok (.trailers _) :: frames => pollBody self frames
  | .error e :: frames =>
    (some (.error e), { self with currentBody := some frames, state := .done })
  | [] => (some (.ok crlf), { self with currentBody := none, state := .nextPart })

def pollNext (self : AsyncStream) : Option Item × AsyncStream :=
  match self.state with
  | .nextPart => self.pollPart
  | .body =>
    match self.currentBody with
    | some frames => self.pollBody frames
    | none => self.pollPart
  | .done => (none, self)

/-- The bytes of the stream until it ends, if it gives no error in `fuel` polls. -/
def drain : Nat → AsyncStream → Option Bytes
  | 0, _ => none
  | fuel + 1, self =>
    match self.pollNext with
    | (some (.ok bytes), self) => (drain fuel self).map (bytes ++ ·)
    | (some (.error _), _) => none
    | (none, _) => some []

end AsyncStream

def Part.polls : Nat :=
  match part.body with
  | .buffered _ => 1
  | .streaming frames => frames.length + 2

def polls : List Part → Nat
  | [] => 2
  | part :: parts => part.polls + polls parts

def Multipart.intoStreamingBody : AsyncStream := { boundary := form.boundary, parts := form.parts }

/-- The body of a request with this form, if no part of it ends with an error. -/
def Multipart.wire : Option Bytes :=
  if form.hasStreamingParts then form.intoStreamingBody.drain (polls form.parts)
  else some form.intoBytes

def withContents (parts : List Part) : Option (List (Part × Bytes)) :=
  parts.mapM fun part => part.content.map fun content => (part, content)

lemma withContents_cons (parts : List Part) :
    withContents (part :: parts) =
      part.content.bind fun content => (withContents parts).map ((part, content) :: ·) := by
  unfold withContents
  rw [List.mapM_cons]
  cases part.content with
  | none => rfl
  | some content =>
    simp only [map_some, bind_some, bind_eq_bind, pure_def]
    rw [map_eq_bind]
    rfl

lemma withContents_buffered {parts : List Part} (h : ∀ part ∈ parts, part.isStreaming = false) :
    withContents parts = some (parts.map fun part =>
      (part, match part.body with
        | .buffered data => data
        | .streaming _ => [])) := by
  induction parts with
  | nil => rfl
  | cons part parts ih =>
    obtain ⟨hpar, hp⟩ := List.forall_mem_cons.mp h
    rw [withContents_cons, ih hp, List.map_cons]
    obtain ⟨name, filename, contentType, headers, body⟩ := part
    cases body with
    | buffered data => rfl
    | streaming frames => cases hpar

namespace AsyncStream

variable {fuel : Nat} {parts : List Part}

lemma drain_closing (boundary : Bytes) (current : Option (List (Except Error Frame)))
    (h : 2 ≤ fuel) : drain fuel ⟨boundary, [], .nextPart, current⟩ = some (closing boundary) := by
  obtain ⟨n, rfl⟩ := Nat.exists_eq_add_of_le' h
  simp [drain, pollNext, pollPart, lastDelimiter_eq]

lemma pollBody_currentBody (parts : List Part) (state : StreamState)
    (current other frames : List (Except Error Frame)) :
    pollBody ⟨boundary, parts, state, some current⟩ frames =
      pollBody ⟨boundary, parts, state, some other⟩ frames := by
  induction frames with
  | nil => rfl
  | cons frame frames ih =>
    rcases frame with e | ⟨bytes⟩ | ⟨fields⟩
    · rfl
    · rfl
    · exact ih

lemma drain_body {boundary : Bytes} {rest : Option Bytes}
    (hr : ∀ fuel, polls parts ≤ fuel → drain fuel ⟨boundary, parts, .nextPart, none⟩ = rest)
    (frames : List (Except Error Frame)) (h : frames.length + 1 + polls parts ≤ fuel) :
    drain fuel ⟨boundary, parts, .body, some frames⟩ =
      (framesData frames).bind fun data => rest.map (data ++ crlf ++ ·) := by
  induction frames generalizing fuel with
  | nil =>
    obtain ⟨n, rfl⟩ := Nat.exists_eq_add_of_le' (le_trans (Nat.le_add_right 1 _) (by simpa using h))
    simp only [drain, pollNext, pollBody, framesData]
    rw [hr n (by simp at h; omega)]
    simp
  | cons frame frames ih =>
    obtain ⟨n, rfl⟩ : ∃ n, fuel = n + 1 := ⟨fuel - 1, by simp at h; omega⟩
    rw [List.length_cons] at h
    rcases frame with e | ⟨bytes⟩ | ⟨fields⟩
    · simp [drain, pollNext, pollBody, framesData]
    · simp only [drain, pollNext, pollBody, framesData]
      rw [ih (by omega)]
      cases framesData frames <;> cases rest <;> simp
    have hs := @ih (n + 1) (by omega)
    simp only [drain, pollNext, pollBody, framesData] at hs ⊢
    rw [pollBody_currentBody boundary parts .body _ frames]
    exact hs

lemma drain_parts (boundary : Bytes) (parts : List Part) (h : polls parts ≤ fuel) :
    drain fuel ⟨boundary, parts, .nextPart, none⟩ =
      (withContents parts).map (encode boundary) := by
  induction parts generalizing fuel with
  | nil => exact drain_closing boundary none h
  | cons part parts ih =>
    obtain ⟨name, filename, contentType, headers, body⟩ := part
    cases body with
    | buffered data =>
      obtain ⟨n, rfl⟩ : ∃ n, fuel = n + 1 := ⟨fuel - 1, by simp [polls, Part.polls] at h; omega⟩
      simp only [drain, pollNext, pollPart, partHead_eq]
      rw [ih (by simp [polls, Part.polls] at h; omega), withContents_cons]
      cases withContents parts <;> simp [Part.content, PartBody.content, encode]
    | streaming frames =>
      obtain ⟨n, rfl⟩ : ∃ n, fuel = n + 1 := ⟨fuel - 1, by simp [polls, Part.polls] at h; omega⟩
      simp only [drain, pollNext, pollPart, partHead_eq]
      rw [drain_body (fun _ hf => ih hf) frames (by simp [polls, Part.polls] at h; omega),
        withContents_cons]
      cases hd : framesData frames <;> cases withContents parts <;>
        simp [Part.content, PartBody.content, hd, encode]

end AsyncStream

lemma Multipart.wire_eq : form.wire = (withContents form.parts).map (encode form.boundary) := by
  unfold Multipart.wire
  split
  · exact AsyncStream.drain_parts form.boundary form.parts le_rfl
  rename_i hs
  have hb : ∀ part ∈ form.parts, part.isStreaming = false := by
    simpa [Multipart.hasStreamingParts] using hs
  rw [withContents_buffered hb]
  rfl

/-- What the polls give until the stream ends, for at most `fuel` of them. -/
def AsyncStream.items : Nat → AsyncStream → List Item
  | 0, _ => []
  | fuel + 1, self =>
    match self.pollNext with
    | (some item, self) => item :: items fuel self
    | (none, _) => []

def framesBytes (frames : List (Except Error Frame)) : Bytes :=
  frames.flatMap fun
    | .ok (.data bytes) => bytes
    | _ => []

def Part.bytes : Bytes :=
  match part.body with
  | .buffered data => data
  | .streaming frames => framesBytes frames

def Multipart.buffered : Multipart :=
  { form with parts := form.parts.map fun part => { part with body := .buffered part.bytes } }

/-- The items are the whole body, or, if a part fails, a front of it without the closing delimiter
and then the error. -/
def Multipart.Streams (items : List AsyncStream.Item) : Prop :=
  ∃ chunks : List Bytes,
    ((∀ part ∈ form.parts, part.content.isSome) ∧ items = chunks.map .ok ∧
      form.buffered.intoBytes = chunks.flatten) ∨
    (∃ part ∈ form.parts, part.content = none) ∧ ∃ e rest, items = chunks.map .ok ++ [.error e] ∧
      form.buffered.intoBytes = chunks.flatten ++ (rest ++ closing form.boundary)

namespace AsyncStream

variable {boundary part} {valid : validateBoundary boundary} {parts : List Part}

lemma intoBytes_cons : (Multipart.buffered ⟨boundary, valid, part :: parts⟩).intoBytes =
    part.head boundary ++ part.bytes ++ crlf ++
      (Multipart.buffered ⟨boundary, valid, parts⟩).intoBytes := rfl

lemma closing_suffix_intoBytes :
    closing boundary <:+ (Multipart.buffered ⟨boundary, valid, parts⟩).intoBytes := by
  induction parts with
  | nil => exact List.suffix_rfl
  | cons part parts ih => exact ih.trans (List.suffix_append _ _)

/-- The frames of a streamed part, up to its error or to its end. -/
lemma items_body (boundary : Bytes) (parts : List Part) (frames : List (Except Error Frame))
    (n : Nat) : ∃ chunks : List Bytes,
      (framesData frames = none ∧ ∃ e rest, framesBytes frames = chunks.flatten ++ rest ∧
        items (frames.length + (polls parts + n) + 1) ⟨boundary, parts, .body, some frames⟩ =
          chunks.map .ok ++ [.error e]) ∨
      (framesData frames).isSome ∧ framesBytes frames = chunks.flatten ∧
        ∃ m, items (frames.length + (polls parts + n) + 1) ⟨boundary, parts, .body, some frames⟩ =
          chunks.map .ok ++ .ok crlf :: items (polls parts + m) { boundary, parts } := by
  induction frames generalizing n with
  | nil => exact ⟨[], .inr ⟨rfl, rfl, n, by rw [List.length_nil, zero_add]; rfl⟩⟩
  | cons frame frames ih =>
    rw [List.length_cons, add_right_comm _ 1]
    rcases frame with e | ⟨bytes⟩ | ⟨fields⟩
    · exact ⟨[], .inl ⟨rfl, e, framesBytes frames, rfl, rfl⟩⟩
    · have hste : ∀ k, items (k + 1) ⟨boundary, parts, .body, some (.ok (.data bytes) :: frames)⟩ =
          .ok bytes :: items k ⟨boundary, parts, .body, some frames⟩ := fun _ => rfl
      obtain ⟨chunks, ⟨hd, e, rest, hb, hi⟩ | ⟨hd, hb, m, hi⟩⟩ := ih n
      · refine ⟨bytes :: chunks, .inl ⟨?_, e, rest, ?_, ?_⟩⟩ <;> simp_all [framesData, framesBytes]
      · refine ⟨bytes :: chunks, .inr ⟨?_, ?_, m, ?_⟩⟩ <;> simp_all [framesData, framesBytes]
    have hs : ∀ k, items (k + 1) ⟨boundary, parts, .body,
        some (.ok (.trailers fields) :: frames)⟩ =
          items (k + 1) ⟨boundary, parts, .body, some frames⟩ := by
      intro k
      simp only [items, pollNext, pollBody]
      rw [pollBody_currentBody boundary parts .body _ frames]
    rw [hs]
    exact ih (n + 1)

lemma items_part (part : Part) (k : Nat) :
    items (k + 1) ⟨boundary, part :: parts, .nextPart, none⟩ =
      match part.body with
      | .buffered data => .ok (part.head boundary ++ data ++ crlf) :: items k { boundary, parts }
      | .streaming frames =>
        .ok (part.head boundary) :: items k ⟨boundary, parts, .body, some frames⟩ := by
  simp only [items, pollNext, pollPart, partHead_eq]
  cases part.body <;> rfl

lemma streams_cons {items : List Item} (h : Multipart.Streams ⟨boundary, valid, parts⟩ items)
    (chunks : List Bytes) (hp : part.content.isSome)
    (hc : chunks.flatten = part.head boundary ++ part.bytes ++ crlf) :
    Multipart.Streams ⟨boundary, valid, part :: parts⟩ (chunks.map .ok ++ items) := by
  obtain ⟨later, ⟨hall, rfl, hl⟩ | ⟨⟨failing, hm, hnone⟩, e, rest, rfl, hl⟩⟩ := h
  · refine ⟨chunks ++ later, .inl ⟨List.forall_mem_cons.mpr ⟨hp, hall⟩, by simp, ?_⟩⟩
    rw [intoBytes_cons, hl, List.flatten_append, hc]
  · refine ⟨chunks ++ later, .inr ⟨⟨failing, .tail _ hm, hnone⟩, e, rest, by simp, ?_⟩⟩
    rw [intoBytes_cons, hl, List.flatten_append, hc, List.append_assoc (_ ++ crlf)]

/-- However its parts are cut into frames, the stream gives the bytes of the buffered form. -/
theorem streams_buffered (form : Multipart) (n : Nat) :
    form.Streams (form.intoStreamingBody.items (polls form.parts + n)) := by
  obtain ⟨boundary, valid, parts⟩ := form
  induction parts generalizing n with
  | nil =>
    refine ⟨[closing boundary], .inl ⟨by simp, ?_, (List.append_nil _).symm⟩⟩
    rw [polls, add_comm 2]
    rfl
  | cons part parts ih =>
    rw [Multipart.intoStreamingBody, polls, Part.polls, add_assoc]
    cases hb : part.body with
    | buffered data =>
      rw [add_comm 1, items_part, hb]
      refine streams_cons (ih n) [_] ?_ ?_ <;> simp [Part.content, PartBody.content, Part.bytes, hb]
    | streaming frames =>
      rw [add_right_comm, items_part, hb]
      obtain ⟨chunks, ⟨hd, e, rest, hbyt, hi⟩ | ⟨hd, hbyt, m, hi⟩⟩ :=
        items_body boundary parts frames n
      · obtain ⟨front, hf⟩ := @closing_suffix_intoBytes boundary valid parts
        refine ⟨part.head boundary :: chunks, .inr ⟨⟨part, .head _, ?_⟩, e, rest ++ crlf ++ front,
          by simp [hi], ?_⟩⟩
        · simp [Part.content, PartBody.content, hb, hd]
        · simp [intoBytes_cons, Part.bytes, hb, hbyt, ← hf]
      have hcons := @streams_cons part boundary valid parts _ (ih m)
        (part.head boundary :: chunks ++ [crlf]) ?_ ?_
      · simpa [hi, Multipart.intoStreamingBody] using hcons
      · simpa [Part.content, PartBody.content, hb] using hd
      · simp [Part.bytes, hb, hbyt]

end AsyncStream

end Aioduct.Form
