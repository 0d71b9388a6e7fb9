import Aioduct.Http.Header
import Aioduct.Wire.Utf8

/-!
# Response decompression

`decompress.rs`: the decoders that are chosen for `Content-Encoding` and the fields that are
left. A body is of any type, with a function that wraps it in a decoder.
-/

namespace Aioduct.Decompress

open Wire List Utf8 Http
open HeaderName (contentEncoding contentLength)

inductive StreamDecoder where
  | gzip
  | deflate
  | brotli
  | zstd

structure AcceptEncoding where
  gzip : Bool
  brotli : Bool
  zstd : Bool
  deflate : Bool
  maxDecodedSize : Option Nat

/-- The result for zstd is that of the library's constructor, `newZstd`. -/
def makeDecoder {ε : Type} (newZstd : Except ε StreamDecoder) (encoding : Bytes)
    (accept : AcceptEncoding) : Option (Except ε StreamDecoder) :=
  if (eqIgnoreCase encoding (ascii "gzip") || eqIgnoreCase encoding (ascii "x-gzip")) &&
      accept.gzip then
    some (.ok .gzip)
  else if eqIgnoreCase encoding (ascii "deflate") && accept.deflate then some (.ok .deflate)
  else if eqIgnoreCase encoding (ascii "br") && accept.brotli then some (.ok .brotli)
  else if eqIgnoreCase encoding (ascii "zstd") && accept.zstd then some newZstd
  else none

def isListed (encoding : Bytes) : Bool :=
  !eqIgnoreCase encoding (ascii "identity") && !encoding.isEmpty

def encodings (value : HeaderValue) : List Bytes :=
  (((lossy value.bytes).splitOn (byte ',')).map trimText).filter isListed

section

variable {ε β : Type} (newZstd : Except ε StreamDecoder)
  (wrap : StreamDecoder → Option Nat → β → β) (accept : AcceptEncoding)

/-- The loop over the encodings from the last, with `decoded_count`; no count is left when the
function returns from inside of it. -/
def decodeLoop : List Bytes → β → Nat → β × Option Nat
  | [], body, count => (body, some count)
  | encoding :: rest, body, count =>
    match makeDecoder newZstd encoding accept with
    | some (.ok decoder) =>
      decodeLoop rest (wrap decoder accept.maxDecodedSize body) (count + 1)
    | some (.error _) => (body, none)
    | none => (body, some count)

def decompressImpl (headers : HeaderMap) (body : β) : HeaderMap × β :=
  match headers.get contentEncoding with
  | none => (headers, body)
  | some value =>
    let encodings := encodings value
    if encodings.isEmpty then (headers, body)
    else
      match decodeLoop newZstd wrap accept encodings.reverse body 0 with
      | (body, none) => (headers, body)
      | (body, some count) =>
        if 0 < count then
          let headers := headers.remove contentLength
          if encodings.length ≤ count then (headers.remove contentEncoding, body)
          else
            let remaining := encodings.take (encodings.length - count)
            match HeaderValue.fromStr ((ascii ", ").intercalate remaining) with
            | some val => (headers.insert contentEncoding val, body)
            | none => (headers, body)
        else (headers, body)

end

def codingsOf (value : HeaderValue) : List Bytes :=
  ((value.bytes.splitOn (byte ',')).map (trim isWhitespace)).filter isListed

def codings (headers : HeaderMap) : List Bytes :=
  (headers.getAll contentEncoding).flatMap codingsOf

variable (accept : AcceptEncoding) (coding : Bytes)

def codec : Option StreamDecoder :=
  (makeDecoder (.ok .zstd : Except Unit _) coding accept).bind Except.toOption

def enabled : Bool := (codec accept coding).isSome

/-- After decompression the fields describe the body: it is decoded by the longest enabled end of
the list, from the last coding on, and the field has the codings before it. -/
def Described (headers : HeaderMap) : Prop :=
  ∀ {β : Type} (wrap : StreamDecoder → Option Nat → β → β) (body : β),
    let out := decompressImpl (.ok .zstd : Except Unit _) wrap accept headers body
    let removed := (codings headers).rtakeWhile (enabled accept)
    out.2 = (removed.filterMap (codec accept)).foldr (wrap · accept.maxDecodedSize) body ∧
      codings out.1 = (codings headers).rdropWhile (enabled accept) ∧
      (removed ≠ [] → out.1.getAll contentLength = [])

variable {accept : AcceptEncoding} {value : HeaderValue}

lemma encodings_eq (hv : ∀ b ∈ value.bytes, b < 128) : encodings value = codingsOf value := by
  have ht : ∀ part ∈ value.bytes.splitOn (byte ','), trimText part = trim isWhitespace part :=
    fun part hp => trimText_of_ascii fun b hb => hv b (mem_of_mem_splitOn hp hb)
  rw [encodings, lossy_of_ascii hv, map_congr_left ht, codingsOf]

lemma makeDecoder_eq :
    makeDecoder (.ok .zstd : Except Unit _) coding accept = (codec accept coding).map .ok := by
  unfold codec makeDecoder
  split_ifs <;> rfl

lemma decodeLoop_eq {β : Type} (wrap : StreamDecoder → Option Nat → β → β) (l : List Bytes)
    (body : β) (count : Nat) :
    decodeLoop (.ok .zstd : Except Unit _) wrap accept l body count =
      (((l.takeWhile (enabled accept)).filterMap (codec accept)).foldl
        (fun body decoder => wrap decoder accept.maxDecodedSize body) body,
        some (count + (l.takeWhile (enabled accept)).length)) := by
  induction l generalizing body count with
  | nil => rfl
  | cons coding l ih =>
    rw [decodeLoop, makeDecoder_eq]
    cases h : codec accept coding with
    | none => simp [enabled, h]
    | some decoder => simp [enabled, h, ih, Nat.add_assoc, Nat.add_comm]

lemma mem_codingsOf {coding : Bytes} (h : coding ∈ codingsOf value) :
    byte ',' ∉ coding ∧ trim isWhitespace coding = coding ∧ isListed coding ∧
      ∀ b ∈ coding, isValueByte b := by
  obtain ⟨hm, hl⟩ := mem_filter.mp h
  obtain ⟨part, hp, rfl⟩ := mem_map.mp hm
  exact ⟨fun hc => notMem_of_mem_splitOn hp (mem_of_mem_trim hc), trim_trim _ _, hl,
    fun b hb => all_eq_true.mp value.valid b (mem_of_mem_splitOn hp (mem_of_mem_trim hb))⟩

/-- The value that is written for the front of a line has just its codings. -/
lemma codingsOf_joined {l : List Bytes} (hl : l ⊆ codingsOf value) (hne : l ≠ []) :
    ∃ joined, HeaderValue.fromStr ((ascii ", ").intercalate l) = some joined ∧
      codingsOf joined = l := by
  have hb : ((ascii ", ").intercalate l).all isValueByte := by
    rw [all_eq_true]
    intro b hb
    rcases mem_intercalate hb with hs | ⟨coding, hc, hb⟩
    · exact all_eq_true.mp (by decide : (ascii ", ").all isValueByte) b hs
    · exact (mem_codingsOf (hl hc)).2.2.2 b hb
  refine ⟨⟨_, hb⟩, dif_pos hb, ?_⟩
  rw [codingsOf, map_trim_splitOn hne (by decide), filter_eq_self]
  · exact fun coding hc => (mem_codingsOf (hl hc)).2.2.1
  · exact fun coding hc => ⟨(mem_codingsOf (hl hc)).1, (mem_codingsOf (hl hc)).2.1⟩

lemma decompressImpl_spec {β : Type} (wrap : StreamDecoder → Option Nat → β → β) (body : β)
    {headers : HeaderMap} {rest : List HeaderValue}
    (hg : headers.getAll contentEncoding = value :: rest) (hv : ∀ b ∈ value.bytes, b < 128) :
    let out := decompressImpl (.ok .zstd : Except Unit _) wrap accept headers body
    let removed := (codingsOf value).rtakeWhile (enabled accept)
    out.2 = (removed.filterMap (codec accept)).foldr (wrap · accept.maxDecodedSize) body ∧
      codings out.1 = (if removed = [] then codings headers
        else (codingsOf value).rdropWhile (enabled accept)) ∧
      (removed ≠ [] → out.1.getAll contentLength = []) := by
  intro out removed
  have hout : out = decompressImpl (.ok .zstd : Except Unit _) wrap accept headers body := rfl
  have hl := @decodeLoop_eq accept β wrap (codingsOf value).reverse body 0
  have hr : (codingsOf value).reverse.takeWhile (enabled accept) = removed.reverse :=
    reverse_eq_iff.mp rfl
  rw [hr, filterMap_reverse, foldl_reverse, length_reverse, Nat.zero_add] at hl
  have ha : (codingsOf value).rdropWhile (enabled accept) ++ removed = codingsOf value :=
    rdropWhile_append_rtakeWhile ..
  simp only [decompressImpl, MultiMap.get, hg, head?_cons, encodings_eq hv, hl] at hout
  clear_value removed out
  by_cases hn : removed = []
  · subst hn
    have ho : out = (headers, body) := by simpa using hout
    simp [ho]
  rw [if_neg (by rw [← ha]; simp [hn]), if_pos (length_pos_iff.mpr hn)] at hout
  generalize (codingsOf value).rdropWhile (enabled accept) = front at *
  rw [← ha, length_append, Nat.add_sub_cancel, take_left] at hout
  have hne : contentLength ≠ contentEncoding := by decide
  by_cases hf : front = []
  · simp [hout, hf, codings, hn, hne]
  have hlt : ¬front.length + removed.length ≤ removed.length := by
    have hp := length_pos_iff.mpr hf
    omega
  obtain ⟨joined, hj, hc⟩ := codingsOf_joined (ha ▸ subset_append_left front removed) hf
  rw [if_neg hlt, hj] at hout
  simp [hout, codings, hn, hc, hne]

def endsEnabled (accept : AcceptEncoding) (codings : List Bytes) : Bool :=
  codings.getLast?.any (enabled accept)

lemma rtakeWhile_eq_nil (codings : List Bytes) :
    codings.rtakeWhile (enabled accept) = [] ↔ endsEnabled accept codings = false := by
  induction codings using reverseRecOn with
  | nil => simp [endsEnabled]
  | append_singleton codings coding ih => simp [endsEnabled, rtakeWhile_concat]

lemma length_removed (codings : List Bytes) :
    (codings.rdropWhile (enabled accept)).length +
      ((codings.rtakeWhile (enabled accept)).filterMap (codec accept)).length =
        codings.length := by
  have hf : ∀ coding ∈ codings.rtakeWhile (enabled accept), (codec accept coding).isSome :=
    fun _ => mem_rtakeWhile_imp (p := enabled accept)
  rw [filterMap_length_eq_length.mpr hf, ← length_append, rdropWhile_append_rtakeWhile]

theorem described_iff (accept : AcceptEncoding) (headers : HeaderMap)
    (ha : ∀ value ∈ headers.getAll contentEncoding, ∀ b ∈ value.bytes, b < 128) :
    Described accept headers ↔
      (headers.getAll contentEncoding).tail.flatMap codingsOf = [] ∨
        endsEnabled accept ((headers.getAll contentEncoding).head?.elim [] codingsOf) = false ∧
          endsEnabled accept (codings headers) = false := by
  cases hg : headers.getAll contentEncoding with
  | nil => simp [Described, decompressImpl, MultiMap.get, hg, codings]
  | cons value rest =>
    have hs {β : Type} (wrap : StreamDecoder → Option Nat → β → β) (body : β) :=
      @decompressImpl_spec accept value β wrap body headers rest hg (ha value (by simp [hg]))
    have hc : codings headers = codingsOf value ++ rest.flatMap codingsOf := by simp [codings, hg]
    simp only [tail_cons, head?_cons, Option.elim_some, ← rtakeWhile_eq_nil]
    constructor
    · intro h
      -- The bodies that list their decoders tell the two ends of lines apart.
      obtain ⟨hn, hd, -⟩ := h (fun decoder _ l => decoder :: l) []
      obtain ⟨hn', hd', -⟩ := hs (fun decoder _ l => decoder :: l) []
      rw [hn, foldr_cons_nil, foldr_cons_nil] at hn'
      rw [hd] at hd'
      have hall := @length_removed accept (codings headers)
      have hval := @length_removed accept (codingsOf value)
      have hlen := congrArg length hc
      rw [length_append] at hlen
      split_ifs at hd' with hr
      · exact .inr ⟨hr, rtakeWhile_eq_nil_iff.mpr (rdropWhile_eq_self_iff.mp hd')⟩
      · left
        rw [hd', hn'] at hall
        exact length_eq_zero_iff.mp (by omega)
    · intro h β wrap body
      have hsel {l : List Bytes} (h : l.rtakeWhile (enabled accept) = []) :
        l.rdropWhile (enabled accept) = l :=
          rdropWhile_eq_self_iff.mpr (rtakeWhile_eq_nil_iff.mp h)
      specialize hs wrap body
      rcases h with hb | ⟨hv, hall⟩
      · rw [hb, append_nil] at hc
        rw [← hc] at hs
        refine ⟨hs.1, hs.2.1.trans ?_, hs.2.2⟩
        split_ifs with hr
        · exact (hsel hr).symm
        · rfl
      · simp only [hv, if_pos] at hs
        simp only [hall, hsel hall]
        exact hs

def encoded (lines : List HeaderValue) : HeaderMap := ⟨lines.map (contentEncoding, ·)⟩

def gzipLine : HeaderValue := ⟨ascii "gzip", by decide⟩

def brotliLine : HeaderValue := ⟨ascii "br", by decide⟩

theorem described_gzip : Described ⟨true, true, true, true, none⟩
    (encoded [⟨ascii "x-own, gzip, br", by decide⟩]) :=
  (described_iff _ _ (by decide +kernel)).mpr (.inl rfl)

theorem second_line_not_decoded :
    ¬Described ⟨true, true, true, true, none⟩ (encoded [gzipLine, brotliLine]) := by
  intro h
  exact absurd (h (fun _ _ n => n + 1) 0).1 (by decide)

end Aioduct.Decompress
