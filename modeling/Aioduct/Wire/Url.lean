import Aioduct.Wire.Machine
import Aioduct.Wire.Split

/-!
# Origins of URLs

The scheme, host and port that the text of an absolute URL leads to.
-/

namespace Wire

structure Origin where
  scheme : Bytes
  host : Bytes
  port : Option Nat
  deriving DecidableEq

namespace Url

def separator : Bytes := ascii "://"

def endsAuthority (b : UInt8) : Bool := b == byte '/' || b == byte '?' || b == byte '#'

def authority (rest : Bytes) : Bytes := rest.takeWhile (!endsAuthority ·)

/-- A host in brackets keeps them. -/
def host (authority : Bytes) : Bytes :=
  let hostPort := authority.rtakeWhile (· != byte '@')
  if hostPort.head? = some (byte '[') then hostPort.takeWhile (· != byte ']') ++ [byte ']']
  else hostPort.takeWhile (· != byte ':')

def port (authority : Bytes) : Option Nat :=
  if authority.contains (byte ':') then
    parseUnsigned 16 (authority.rtakeWhile (· != byte ':'))
  else none

def defaultPort (scheme : Bytes) : Option Nat :=
  if scheme = ascii "http" then some 80
  else if scheme = ascii "https" then some 443
  else none

def originOf (scheme authority : Bytes) : Origin where
  scheme := lowercase scheme
  host := lowercase (host authority)
  port := (port authority).or (defaultPort (lowercase scheme))

def origin (url : Bytes) : Option Origin :=
  (splitOnce separator url).map fun parts => originOf parts.1 (authority parts.2)

variable {rest url scheme : Bytes}

lemma authority_append {t : Bytes} (h : Stops (!endsAuthority ·) t) :
    authority (rest ++ t) = authority rest := by
  unfold authority
  induction rest with
  | nil =>
    cases t with
    | nil => rfl
    | cons b t =>
      have hb : (!endsAuthority b) = false := h b rfl
      simp [hb]
  | cons b rest ih =>
    rw [List.cons_append, List.takeWhile_cons, List.takeWhile_cons, ih]

lemma origin_of_splitOnce (h : splitOnce separator url = some (scheme, rest)) :
    origin url = some (originOf scheme (authority rest)) := by
  rw [origin, h]
  rfl

lemma exists_splitOnce_of_origin (h : (origin url).isSome) :
    ∃ scheme rest, splitOnce separator url = some (scheme, rest) := by
  rw [origin, Option.isSome_map] at h
  obtain ⟨⟨scheme, rest⟩, hs⟩ := Option.isSome_iff_exists.mp h
  exact ⟨scheme, rest, hs⟩

lemma splitOnce_separator_front (h : splitOnce separator url = some (scheme, rest)) (t : Bytes) :
    splitOnce separator (scheme ++ separator ++ t) = some (scheme, t) :=
  splitOnce_front h t

end Url

end Wire
