import Aioduct.Wire.Bytes
import Aioduct.Wire.MultiMap

/-!
# Header fields

Field names, which are in lower case, field values and header maps.
-/

namespace Aioduct.Http

open Wire List Bool

def isNameChar (b : UInt8) : Bool :=
  isLowercase b || isDigit b || (ascii "!#$%&'*+-.^_`|~").contains b

def isName (s : Bytes) : Bool := !s.isEmpty && s.length ≤ 65535 && s.all isNameChar

structure HeaderName where
  bytes : Bytes
  valid : isName bytes = true
  deriving DecidableEq

namespace HeaderName

/-- `HeaderName::from_bytes`: upper-case letters are folded, other invalid bytes refused. -/
def fromBytes (s : Bytes) : Option HeaderName :=
  if h : isName (lowercase s) = true then some ⟨lowercase s, h⟩ else none

variable {n m : HeaderName} {b : UInt8}

@[ext] lemma ext (h : n.bytes = m.bytes) : n = m := by
  cases n
  simp_all

lemma nameChar (n : HeaderName) : ∀ b ∈ n.bytes, isNameChar b := by
  have h := n.valid
  simp only [isName, and_eq_true, all_eq_true] at h
  exact h.2

lemma ne_nil (n : HeaderName) : n.bytes ≠ [] := by
  have h := n.valid
  simp only [isName, and_eq_true, not_eq_true', isEmpty_eq_false_iff] at h
  exact h.1.1

lemma toLower_of_isNameChar (h : isNameChar b) : toLower b = b := by
  have hall : ∀ b : UInt8, isNameChar b → toLower b = b := by
    decide +kernel
  exact hall b h

lemma lowercase_bytes (n : HeaderName) : lowercase n.bytes = n.bytes := by
  conv_rhs => rw [← map_id n.bytes]
  apply map_congr_left
  intro b hb
  exact toLower_of_isNameChar (n.nameChar b hb)

@[simp] lemma fromBytes_bytes (n : HeaderName) : fromBytes n.bytes = some n := by
  simp [fromBytes, n.lowercase_bytes, n.valid]

lemma bytes_of_fromBytes {s : Bytes} (h : fromBytes s = some n) : n.bytes = lowercase s := by
  unfold fromBytes at h
  split at h
  · simp only [Option.some.injEq] at h
    rw [← h]
  · simp at h

lemma eqIgnoreCase_bytes : eqIgnoreCase n.bytes m.bytes ↔ n = m := by
  rw [eqIgnoreCase, n.lowercase_bytes, m.lowercase_bytes, beq_iff_eq]
  exact ⟨ext, congrArg HeaderName.bytes⟩

def age : HeaderName := ⟨ascii "age", by decide⟩

def acceptEncoding : HeaderName := ⟨ascii "accept-encoding", by decide⟩

def authorization : HeaderName := ⟨ascii "authorization", by decide⟩

def cacheControl : HeaderName := ⟨ascii "cache-control", by decide⟩

def connection : HeaderName := ⟨ascii "connection", by decide⟩

def contentEncoding : HeaderName := ⟨ascii "content-encoding", by decide⟩

def contentLength : HeaderName := ⟨ascii "content-length", by decide⟩

def contentType : HeaderName := ⟨ascii "content-type", by decide⟩

def cookie : HeaderName := ⟨ascii "cookie", by decide⟩

def etag : HeaderName := ⟨ascii "etag", by decide⟩

def expires : HeaderName := ⟨ascii "expires", by decide⟩

def host : HeaderName := ⟨ascii "host", by decide⟩

def http2Settings : HeaderName := ⟨ascii "http2-settings", by decide⟩

def ifModifiedSince : HeaderName := ⟨ascii "if-modified-since", by decide⟩

def ifNoneMatch : HeaderName := ⟨ascii "if-none-match", by decide⟩

def keepAlive : HeaderName := ⟨ascii "keep-alive", by decide⟩

def lastModified : HeaderName := ⟨ascii "last-modified", by decide⟩

def location : HeaderName := ⟨ascii "location", by decide⟩

def proxyAuthenticate : HeaderName := ⟨ascii "proxy-authenticate", by decide⟩

def proxyAuthorization : HeaderName := ⟨ascii "proxy-authorization", by decide⟩

def proxyConnection : HeaderName := ⟨ascii "proxy-connection", by decide⟩

def range : HeaderName := ⟨ascii "range", by decide⟩

def referer : HeaderName := ⟨ascii "referer", by decide⟩

def setCookie : HeaderName := ⟨ascii "set-cookie", by decide⟩

def te : HeaderName := ⟨ascii "te", by decide⟩

def trailer : HeaderName := ⟨ascii "trailer", by decide⟩

def transferEncoding : HeaderName := ⟨ascii "transfer-encoding", by decide⟩

def upgrade : HeaderName := ⟨ascii "upgrade", by decide⟩

def vary : HeaderName := ⟨ascii "vary", by decide⟩

end HeaderName

def isValueByte (b : UInt8) : Bool := (32 ≤ b && b != 127) || b == byte '\t'

structure HeaderValue where
  bytes : Bytes
  valid : bytes.all isValueByte = true
  deriving DecidableEq

namespace HeaderValue

def fromBytes (s : Bytes) : Option HeaderValue :=
  if h : s.all isValueByte = true then some ⟨s, h⟩ else none

def fromStr (s : Bytes) : Option HeaderValue := fromBytes s

/-- What `HeaderValue::from_str` reports. -/
def fromStrError : Bytes := ascii "failed to parse header value"

/-- What `HeaderValue::to_str` reports. -/
def toStrError : Bytes := ascii "failed to convert header to a str"

/-- `HeaderValue::to_str`: visible ASCII and tabs only. -/
def toStr (v : HeaderValue) : Option Bytes :=
  if v.bytes.all (fun b => isVisible b || b == byte '\t') then some v.bytes else none

variable {v : HeaderValue} {s : Bytes} {b : UInt8}

@[ext] lemma ext {w : HeaderValue} (h : v.bytes = w.bytes) : v = w := by
  cases v
  simp_all

lemma toStr_eq_some (h : v.toStr = some s) : s = v.bytes := by
  unfold toStr at h
  split at h
  · exact (Option.some.inj h).symm
  · simp at h

lemma fromStr_bytes (h : fromStr s = some v) : v.bytes = s := by
  unfold fromStr fromBytes at h
  split at h
  · simp only [Option.some.injEq] at h
    rw [← h]
  · simp at h

@[simp] lemma fromStr_self (v : HeaderValue) : fromStr v.bytes = some v := by
  exact dif_pos v.valid

lemma isValueByte_of_isVisible (h : isVisible b) : isValueByte b := by
  grind [isVisible, isValueByte]

lemma fromStr_of_visible (h : Visible s) :
    ∃ v, fromStr s = some v ∧ v.bytes = s ∧ v.toStr = some s := by
  have hv : s.all isValueByte := by
    simp only [all_eq_true]
    exact fun b hb => isValueByte_of_isVisible (h b hb)
  have hs : s.all (fun b => isVisible b || b == byte '\t') := by
    simp only [all_eq_true, or_eq_true]
    exact fun b hb => Or.inl (h b hb)
  refine ⟨⟨s, hv⟩, ?_, rfl, ?_⟩
  · simp [fromStr, fromBytes, hv]
  · simp [toStr, hs]

end HeaderValue

abbrev HeaderMap := MultiMap HeaderName HeaderValue

inductive Frame where
  | data (bytes : Bytes)
  | trailers (fields : HeaderMap)
  deriving DecidableEq

/-- A field value of a request with the mark of `HeaderValue::set_sensitive`. -/
structure MarkedValue where
  value : HeaderValue
  sensitive : Bool := false
  deriving DecidableEq

abbrev MarkedHeaderMap := MultiMap HeaderName MarkedValue

def MarkedHeaderMap.plain (headers : MarkedHeaderMap) : HeaderMap :=
  ⟨headers.lines.map fun line => (line.1, line.2.value)⟩

end Aioduct.Http
