import Aioduct.Error
import Aioduct.Http.Uri
import Aioduct.Wire.Action

/-!
# Message framing

`message_framing.rs`: all `Content-Length` lines are read as one length. A body is counted against
it while its frames go by.
-/

namespace Aioduct.MessageFraming

open Wire Http MultiMap List HeaderValue Or

variable {parsed result : Option UInt64} {name : HeaderName}

def parseLength (item : Bytes) : Option UInt64 :=
  if item.isEmpty || !item.all isDigit then none
  else (parseBelow (2 ^ 64) item).map UInt64.ofNat

def addContentLength (context value : Bytes) (parsed : Option UInt64) (item : Bytes) :
    Except Error (Option UInt64) :=
  match parseLength (trim isOws item) with
  | none =>
    .error (.invalidHeader
      (ascii "invalid " ++ context ++ ascii " Content-Length `" ++ value ++ ascii "`"))
  | some length =>
    if parsed.any (· != length) then
      .error (.invalidHeader
        (ascii "conflicting " ++ context ++ ascii " Content-Length field values"))
    else .ok (some length)

def addContentLengths (context : Bytes) (parsed : Option UInt64) (value : HeaderValue) :
    Except Error (Option UInt64) :=
  match value.toStr with
  | none =>
    .error (.invalidHeader
      (ascii "invalid " ++ context ++ ascii " Content-Length: " ++ HeaderValue.toStrError))
  | some value => (value.splitOn (byte ',')).foldlM (addContentLength context value) parsed

def parseContentLength (headers : HeaderMap) (context : Bytes) : Except Error (Option UInt64) :=
  (headers.getAll .contentLength).foldlM (addContentLengths context) none

def normalizeContentLength (headers : HeaderMap) (context : Bytes) :
    Except Error (HeaderMap × Option UInt64) := do
  match ← parseContentLength headers context with
  | none => pure (headers, none)
  | some length =>
    match HeaderValue.fromStr (numeral length.toNat) with
    | none =>
      throw (.invalidHeader (ascii "invalid normalized " ++ context ++ ascii " Content-Length: " ++
        HeaderValue.fromStrError))
    | some value => pure ((headers.remove .contentLength).insert .contentLength value, some length)

def validateResponseContentLength (requestMethod : Method) (status : StatusCode)
    (headers : HeaderMap) (context : Bytes) : Except Error (HeaderMap × Option UInt64) :=
  -- both fields of a successful CONNECT response are ignored, even if they are malformed
  if requestMethod = .connect && status.isSuccess then
    .ok ((headers.remove .contentLength).remove .transferEncoding, none)
  else do
    let (headers, length) ← normalizeContentLength headers context
    if length.isSome && (status.isInformational || status == 204) then
      throw (.invalidHeader (context ++ ascii " response must not contain Content-Length for " ++
        requestMethod.bytes ++ ascii " " ++ status.display))
    else if status == 205 && length.any (· != 0) then
      throw (.invalidHeader (context ++ ascii " 205 response Content-Length must be zero"))
    else pure (headers, length)

structure BodyLengthValidator where
  expected : Option UInt64
  seen : Nat := 0
  finished : Bool := false

namespace BodyLengthValidator

def fromExpected (expected : Option UInt64) : BodyLengthValidator := { expected := expected }

def exact (expected : UInt64) : BodyLengthValidator := fromExpected (some expected)

def overflow (context : Bytes) : Error :=
  .invalidHeader (context ++ ascii " body length overflow")

variable (self : BodyLengthValidator)

/-- The counter is a 64-bit number. -/
def record (count : Nat) (context : Bytes) : Except Error BodyLengthValidator :=
  if 2 ^ 64 ≤ self.seen + count then .error (overflow context)
  else
    match self.expected with
    | some expected =>
      if expected.toNat < self.seen + count then
        .error (.invalidHeader (context ++ ascii " body exceeds Content-Length " ++
          numeral expected.toNat))
      else .ok { self with seen := self.seen + count }
    | none => .ok { self with seen := self.seen + count }

def finish (context : Bytes) : Except Error BodyLengthValidator :=
  if self.finished then .ok self
  else
    match self.expected with
    | some expected =>
      if self.seen ≠ expected.toNat then
        .error (.invalidHeader (context ++ ascii " body ended after " ++ numeral self.seen ++
          ascii " bytes but Content-Length is " ++ numeral expected.toNat))
      else .ok { self with finished := true }
    | none => .ok { self with finished := true }

def isEndStream (innerIsEndStream : Bool) : Bool :=
  self.finished ||
    (innerIsEndStream && self.expected.all fun expected => expected.toNat == self.seen)

end BodyLengthValidator

variable {context : Bytes} {headers headers' : HeaderMap} {length : Option UInt64}
  {status : StatusCode} {requestMethod : Method}

lemma addContentLength_isSome {value item : Bytes}
    (h : addContentLength context value parsed item = .ok result) : result.isSome := by
  unfold addContentLength at h
  split at h
  · cases h
  split at h
  · cases h
  · cases h
    rfl

lemma addContentLengths_isSome {value : HeaderValue}
    (h : addContentLengths context parsed value = .ok result) : result.isSome := by
  unfold addContentLengths at h
  split at h
  · cases h
  · exact except_foldlM_invariant (fun _ _ _ => addContentLength_isSome) h
      (inr (splitOn_ne_nil _ _))

lemma getAll_of_parseContentLength_none (h : parseContentLength headers context = .ok none) :
    headers.getAll .contentLength = [] := by
  by_contra hne
  have hsome : (none : Option UInt64).isSome :=
    except_foldlM_invariant (fun _ _ _ => addContentLengths_isSome) h (inr hne)
  cases hsome

def lengthValue (length : UInt64) : HeaderValue where
  bytes := numeral length.toNat
  valid := by
    rw [List.all_eq_true]
    intro b hb
    have hdigit := isDigit_of_mem_numeral _ b hb
    grind [isDigit, isValueByte, byte]

lemma lengthValue_injective {n m : UInt64} (h : lengthValue n = lengthValue m) : n = m := by
  have hbyt : numeral n.toNat = numeral m.toNat := congrArg bytes h
  have hv := congrArg digitsValue hbyt
  rw [digitsValue_numeral, digitsValue_numeral] at hv
  exact UInt64.toNat_inj.mp hv

lemma fromStr_numeral (length : UInt64) :
    HeaderValue.fromStr (numeral length.toNat) = some (lengthValue length) := by
  exact dif_pos (lengthValue length).valid

lemma toStr_lengthValue (length : UInt64) :
    (lengthValue length).toStr = some (numeral length.toNat) := by
  unfold toStr
  rw [if_pos]
  · rfl
  rw [all_eq_true]
  intro b hb
  have hdigit := isDigit_of_mem_numeral _ b hb
  grind [isDigit, isVisible, byte]

section

variable (h : normalizeContentLength headers context = .ok (headers', length))

include h

lemma normalizeContentLength_eq_ok :
    (headers' = headers ∧ headers.getAll .contentLength = []) ∨
      ∃ n, parseContentLength headers context = .ok (some n) ∧
        headers' = (headers.remove .contentLength).insert .contentLength (lengthValue n) := by
  unfold normalizeContentLength at h
  rw [bind_eq_ok] at h
  obtain ⟨parsed, hp, h⟩ := h
  cases parsed with
  | none =>
    cases h
    exact inl ⟨rfl, getAll_of_parseContentLength_none hp⟩
  | some n =>
    simp only [fromStr_numeral] at h
    cases h
    exact inr ⟨n, hp, rfl⟩

lemma normalizeContentLength_getAll (hn : name ≠ .contentLength) :
    headers'.getAll name = headers.getAll name := by
  rcases normalizeContentLength_eq_ok h with ⟨rfl, -⟩ | ⟨n, -, rfl⟩
  · rfl
  · rw [getAll_insert_of_ne hn, getAll_remove_of_ne hn]

lemma normalizeContentLength_contentLength :
    (headers'.getAll .contentLength).length ≤ 1 ∧
      (headers.getAll .contentLength = [] → headers'.getAll .contentLength = []) := by
  rcases normalizeContentLength_eq_ok h with ⟨rfl, hnone⟩ | ⟨n, hp, rfl⟩
  · simp [hnone]
  · refine ⟨by simp, fun hnone => ?_⟩
    rw [parseContentLength, hnone] at hp
    cases hp

lemma normalizeContentLength_lengths :
    headers'.getAll .contentLength = (length.map lengthValue).toList := by
  unfold normalizeContentLength at h
  rw [bind_eq_ok] at h
  obtain ⟨parsed, hp, h⟩ := h
  cases parsed with
  | none =>
    cases h
    exact getAll_of_parseContentLength_none hp
  | some n =>
    simp only [fromStr_numeral] at h
    cases h
    exact getAll_insert_self _ _ _

end

section

variable
  (h : validateResponseContentLength requestMethod status headers context = .ok (headers', length))

include h

lemma validateResponseContentLength_eq_ok :
    (requestMethod = .connect ∧ status.isSuccess ∧ length = none ∧
        headers' = (headers.remove .contentLength).remove .transferEncoding) ∨
      normalizeContentLength headers context = .ok (headers', length) := by
  unfold validateResponseContentLength at h
  split at h
  next hc =>
    simp only [Bool.and_eq_true, decide_eq_true_eq] at hc
    cases h
    exact inl ⟨hc.1, hc.2, rfl, rfl⟩
  rw [bind_eq_ok] at h
  obtain ⟨⟨normalized, length'⟩, hn, h⟩ := h
  right
  dsimp only at h
  split_ifs at h
  · rw [hn]
    exact h

lemma validateResponseContentLength_getAll (hlen : name ≠ .contentLength)
    (hc : name ≠ .transferEncoding) : headers'.getAll name = headers.getAll name := by
  rcases validateResponseContentLength_eq_ok h with ⟨-, -, -, rfl⟩ | hn
  · rw [getAll_remove_of_ne hc, getAll_remove_of_ne hlen]
  · exact normalizeContentLength_getAll hn hlen

lemma validateResponseContentLength_lengths :
    headers'.getAll .contentLength = (length.map lengthValue).toList := by
  rcases validateResponseContentLength_eq_ok h with ⟨-, -, rfl, rfl⟩ | hn
  · rw [getAll_remove_of_ne (by decide), getAll_remove_self]
    rfl
  · exact normalizeContentLength_lengths hn

end

lemma isDigit_not_ows {b : UInt8} (h : isDigit b) : isOws b = false := by
  grind [isDigit, isOws, byte]

lemma parseLength_numeral (length : UInt64) :
    parseLength (trim isOws (numeral length.toNat)) = some length := by
  have hd := isDigit_of_mem_numeral length.toNat
  have hne := numeral_ne_nil length.toNat
  have ht : trim isOws (numeral length.toNat) = numeral length.toNat := by
    apply trim_of_stops
    · intro b hb
      exact isDigit_not_ows (hd b (mem_of_head? hb))
    · exact stopsEnd_of_all fun b hb => isDigit_not_ows (hd b hb)
  have hall : (numeral length.toNat).all isDigit := all_eq_true.mpr hd
  have hbou : length.toNat < 2 ^ 64 := length.toNat_lt
  rw [ht, parseLength, if_neg (by simp [hne, hall]), parseBelow, digitsValue_numeral, if_pos hbou]
  simp

lemma parseContentLength_lengthValue {length : UInt64}
    (h : headers.getAll .contentLength = [lengthValue length]) (context : Bytes) :
    parseContentLength headers context = .ok (some length) := by
  have hc : byte ',' ∉ numeral length.toNat := by
    intro hm
    exact absurd (isDigit_of_mem_numeral _ _ hm) (by decide)
  have hs : (numeral length.toNat).splitOn (byte ',') = [numeral length.toNat] :=
    splitOn_eq_singleton hc
  rw [parseContentLength, h, foldlM_cons, addContentLengths, toStr_lengthValue]
  simp only [hs, foldlM_cons, addContentLength, parseLength_numeral]
  rfl

lemma normalizeContentLength_of_parse {length : UInt64}
    (h : parseContentLength headers context = .ok (some length)) :
    normalizeContentLength headers context =
      .ok ((headers.remove .contentLength).insert .contentLength (lengthValue length),
        some length) := by
  simp [normalizeContentLength, h, bind, Except.bind, fromStr_numeral, pure, Except.pure]

lemma normalizeContentLength_again
    (h : normalizeContentLength headers context = .ok (headers', length)) {again : HeaderMap}
    (ha : again.getAll .contentLength = [] ∨
      again.getAll .contentLength = headers'.getAll .contentLength) :
    ∃ headers'' length', normalizeContentLength again context = .ok (headers'', length') ∧
      headers''.Equiv again := by
  have hnone : again.getAll .contentLength = [] →
      ∃ headers'' length', normalizeContentLength again context = .ok (headers'', length') ∧
        headers''.Equiv again := by
    intro hnone
    refine ⟨again, none, ?_, fun _ => rfl⟩
    rw [normalizeContentLength, parseContentLength, hnone]
    rfl
  rcases ha with hempty | ha
  · exact hnone hempty
  rcases normalizeContentLength_eq_ok h with ⟨rfl, hempty⟩ | ⟨n, -, rfl⟩
  · exact hnone (ha.trans hempty)
  rw [getAll_insert_self] at ha
  have hp := parseContentLength_lengthValue ha context
  refine ⟨_, _, normalizeContentLength_of_parse hp, fun name => ?_⟩
  by_cases hn : name = .contentLength
  · rw [hn, getAll_insert_self, ha]
  · rw [getAll_insert_of_ne hn, getAll_remove_of_ne hn]

end Aioduct.MessageFraming
