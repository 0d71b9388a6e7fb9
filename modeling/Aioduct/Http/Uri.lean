import Aioduct.Http.Header
import Aioduct.Wire.Decimal

/-!
# Methods, versions and URIs

A URI is given by what its accessors return. Reading and assembling URIs is left to a library.
-/

namespace Aioduct.Http

open Wire

structure Method where
  bytes : Bytes
  deriving DecidableEq

namespace Method

def get : Method := ⟨ascii "GET"⟩

def head : Method := ⟨ascii "HEAD"⟩

def options : Method := ⟨ascii "OPTIONS"⟩

def connect : Method := ⟨ascii "CONNECT"⟩

def trace : Method := ⟨ascii "TRACE"⟩

end Method

abbrev StatusCode := UInt16

namespace StatusCode

variable (status : StatusCode)

def isInformational : Bool := 100 ≤ status && status < 200

def isSuccess : Bool := 200 ≤ status && status < 300

def reasons : List (StatusCode × String) :=
  [(100, "Continue"), (101, "Switching Protocols"), (102, "Processing"), (103, "Early Hints"),
    (200, "OK"), (201, "Created"), (202, "Accepted"), (203, "Non Authoritative Information"),
    (204, "No Content"), (205, "Reset Content"), (206, "Partial Content"), (207, "Multi-Status"),
    (208, "Already Reported"), (226, "IM Used"), (300, "Multiple Choices"),
    (301, "Moved Permanently"), (302, "Found"), (303, "See Other"), (304, "Not Modified"),
    (305, "Use Proxy"), (307, "Temporary Redirect"), (308, "Permanent Redirect"),
    (400, "Bad Request"), (401, "Unauthorized"), (402, "Payment Required"), (403, "Forbidden"),
    (404, "Not Found"), (405, "Method Not Allowed"), (406, "Not Acceptable"),
    (407, "Proxy Authentication Required"), (408, "Request Timeout"), (409, "Conflict"),
    (410, "Gone"), (411, "Length Required"), (412, "Precondition Failed"),
    (413, "Payload Too Large"), (414, "URI Too Long"), (415, "Unsupported Media Type"),
    (416, "Range Not Satisfiable"), (417, "Expectation Failed"), (418, "I'm a teapot"),
    (421, "Misdirected Request"), (422, "Unprocessable Entity"), (423, "Locked"),
    (424, "Failed Dependency"), (425, "Too Early"), (426, "Upgrade Required"),
    (428, "Precondition Required"), (429, "Too Many Requests"),
    (431, "Request Header Fields Too Large"), (451, "Unavailable For Legal Reasons"),
    (500, "Internal Server Error"), (501, "Not Implemented"), (502, "Bad Gateway"),
    (503, "Service Unavailable"), (504, "Gateway Timeout"), (505, "HTTP Version Not Supported"),
    (506, "Variant Also Negotiates"), (507, "Insufficient Storage"), (508, "Loop Detected"),
    (510, "Not Extended"), (511, "Network Authentication Required")]

def canonicalReason : Bytes := ascii ((reasons.lookup status).getD "<unknown status code>")

def display : Bytes := numeral status.toNat ++ ascii " " ++ canonicalReason status

end StatusCode

inductive Version where
  | http09
  | http10
  | http11
  | http2
  | http3
  deriving DecidableEq

def Version.debug : Version → Bytes
  | .http09 => ascii "HTTP/0.9"
  | .http10 => ascii "HTTP/1.0"
  | .http11 => ascii "HTTP/1.1"
  | .http2 => ascii "HTTP/2.0"
  | .http3 => ascii "HTTP/3.0"

def Version.isH1 (version : Version) : Bool := version == .http10 || version == .http11

def Version.isH2OrH3 (version : Version) : Bool := version == .http2 || version == .http3

structure Authority where
  /-- `Authority::as_str`. -/
  text : Bytes
  host : Bytes
  /-- `Authority::port_u16`. -/
  port : Option UInt16
  deriving DecidableEq

def Authority.same (a b : Authority) : Bool := eqIgnoreCase a.text b.text

structure PathAndQuery where
  /-- `PathAndQuery::as_str`. -/
  text : Bytes
  deriving DecidableEq

structure Uri where
  scheme : Option Bytes := none
  authority : Option Authority := none
  path : Bytes
  query : Option Bytes := none
  pathAndQuery : Option PathAndQuery := none
  deriving DecidableEq

def Uri.asterisk : Uri where
  path := ascii "*"
  pathAndQuery := some ⟨ascii "*"⟩

def sameAuthority : Option Authority → Option Authority → Bool
  | none, none => true
  | some a, some b => a.same b
  | _, _ => false

def Uri.same (u v : Uri) : Bool :=
  u.scheme == v.scheme && sameAuthority u.authority v.authority && u.path == v.path &&
    u.query == v.query

def Uri.display (uri : Uri) : Bytes :=
  (match uri.scheme with
    | some scheme => scheme ++ ascii "://"
    | none => []) ++
  (match uri.authority with
    | some authority => authority.text
    | none => []) ++
  uri.path ++
  (match uri.query with
    | some query => [byte '?'] ++ query
    | none => [])

/-- The parsers of the URI library, with the text of their errors, and what is known of them. -/
class UriParser where
  parseAuthority : Bytes → Except Bytes Authority
  parsePathAndQuery : Bytes → Except Bytes PathAndQuery
  parseUri : Bytes → Except Bytes Uri
  fromParts : Option Bytes → Option Authority → Option PathAndQuery → Except Bytes Uri
  /-- An authority is its text. -/
  parseAuthority_text : ∀ {s a}, parseAuthority s = .ok a → a.text = s
  fromParts_scheme : ∀ {s a p u}, fromParts (some s) a p = .ok u → u.scheme = some s
  fromParts_authority : ∀ {s a p u}, fromParts s a p = .ok u → u.authority = a
  fromParts_pathAndQuery : ∀ {s a p u}, fromParts s a (some p) = .ok u → u.pathAndQuery = some p
  /-- Absolute form. -/
  parseUri_absolute : ∀ {scheme s a u}, scheme = ascii "http" ∨ scheme = ascii "https" →
    parseAuthority s = .ok a → parseUri (scheme ++ ascii "://" ++ s) = .ok u →
    u.authority = some a
  /-- Authority form. -/
  parseUri_authority : ∀ {s a u}, parseAuthority s = .ok a → a.port.isSome →
    parseUri s = .ok u → u.authority = some a
  /-- Origin form. -/
  parseUri_origin : ∀ {s u}, s.head? = some (byte '/') ∨ s.head? = some (byte '?') →
    parseUri s = .ok u → u.authority = none

def PathAndQuery.Rooted (p : PathAndQuery) : Prop :=
  p.text.head? = some (byte '/') ∨ p.text.head? = some (byte '?')

/-- A URI as the library makes them: its authority is read from its text, and a path that is
absolute, or left out, is so in the text of the path too. -/
structure Uri.Valid [UriParser] (uri : Uri) : Prop where
  authority : ∀ {a}, uri.authority = some a → UriParser.parseAuthority a.text = .ok a
  rooted : ∀ {p}, uri.pathAndQuery = some p →
    uri.path = [] ∨ uri.path.head? = some (byte '/') → p.Rooted

/-- What is known of the URIs that the parsers make. -/
class UriLibrary extends UriParser where
  parsePathAndQuery_head : ∀ {s p}, s.head? = some (byte '/') → parsePathAndQuery s = .ok p →
    p.text.head? = some (byte '/')
  /-- A URI with a scheme has a path. -/
  fromParts_isSome : ∀ {s a p u}, fromParts (some s) a p = .ok u → p.isSome
  fromParts_rooted : ∀ {s a p u}, fromParts s a (some p) = .ok u →
    u.path = [] ∨ u.path.head? = some (byte '/') → p.Rooted
  /-- Origin form. -/
  parseUri_origin_scheme : ∀ {s u}, s.head? = some (byte '/') ∨ s.head? = some (byte '?') →
    parseUri s = .ok u → u.scheme = none

end Aioduct.Http
