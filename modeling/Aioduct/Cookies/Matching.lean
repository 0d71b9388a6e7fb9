import Aioduct.Wire.Bytes

/-!
# Cookie matching

`cookie/matching.rs`: which hosts and paths a cookie belongs to, and which hosts are one site.
-/

namespace Aioduct.Cookies

open Wire List Bool Or

def pathMatches (requestPath cookiePath : Bytes) : Bool :=
  requestPath == cookiePath ||
    (cookiePath.isPrefixOf requestPath &&
      ([byte '/'].isSuffixOf cookiePath || requestPath[cookiePath.length]? == some (byte '/')))

def defaultCookiePath (requestPath : Bytes) : Bytes :=
  if requestPath.head? ≠ some (byte '/') then ascii "/"
  else
    let directory := (requestPath.rdropWhile (· != byte '/')).dropLast
    if directory.isEmpty then ascii "/" else directory

def domainMatches (requestDomain cookieDomain : Bytes) : Bool :=
  eqIgnoreCase requestDomain cookieDomain ||
    (decide (cookieDomain.length < requestDomain.length) &&
      let suffixStart := requestDomain.length - cookieDomain.length
      requestDomain[suffixStart - 1]? == some (byte '.') &&
        eqIgnoreCase (requestDomain.drop suffixStart) cookieDomain)

def registrableDomain (domain : Bytes) : Bytes :=
  let domain := (domain.dropSuffix? [byte '.']).getD domain
  match (domain.splitOn (byte '.')).reverse with
  | tld :: sld :: _ => sld ++ [byte '.'] ++ tld
  | _ => domain

def isSameSite (domainA domainB : Bytes) : Bool :=
  eqIgnoreCase (registrableDomain domainA) (registrableDomain domainB)

/-- The host is the domain, or ends with a dot followed by the domain; case does not matter. -/
def DomainMatch (host domain : Bytes) : Prop :=
  lowercase host = lowercase domain ∨
    ∃ front, lowercase host = front ++ byte '.' :: lowercase domain

/-- The path is the cookie path, or goes on after it at a slash. -/
def PathMatch (path cookiePath : Bytes) : Prop :=
  path = cookiePath ∨
    ∃ rest, path = cookiePath ++ rest ∧
      (cookiePath.getLast? = some (byte '/') ∨ rest.head? = some (byte '/'))

lemma toLower_eq_dot {b : UInt8} : toLower b = byte '.' ↔ b = byte '.' := by
  have hall : ∀ b : UInt8, toLower b = byte '.' ↔ b = byte '.' := by
    decide +kernel
  exact hall b

lemma domainMatches_iff {host domain : Bytes} :
    domainMatches host domain ↔ DomainMatch host domain := by
  unfold domainMatches DomainMatch eqIgnoreCase
  simp only [or_eq_true, beq_iff_eq, and_eq_true, decide_eq_true_eq]
  apply or_congr Iff.rfl
  constructor
  · rintro ⟨hlen, hd, ht⟩
    -- the host is cut at the dot in front of the domain
    have hlt : host.length - domain.length - 1 < host.length := by omega
    have hg : host[host.length - domain.length - 1] = byte '.' := by
      rwa [getElem?_eq_getElem hlt, Option.some.injEq] at hd
    refine ⟨lowercase (host.take (host.length - domain.length - 1)), ?_⟩
    have hspl : host = host.take (host.length - domain.length - 1) ++
        byte '.' :: host.drop (host.length - domain.length) := by
      conv_lhs => rw [← take_append_drop (host.length - domain.length - 1) host,
        drop_eq_getElem_cons hlt, hg]
      rw [show host.length - domain.length - 1 + 1 = host.length - domain.length by omega]
    conv_lhs => rw [hspl]
    rw [lowercase_append, ← ht]
    rfl
  · rintro ⟨front, hf⟩
    obtain ⟨first, second, hh, hfir, hs⟩ := map_eq_append_iff.mp hf
    obtain ⟨dot, rest, rfl, hd, hr⟩ := map_eq_cons_iff.mp hs
    have hlen : rest.length = domain.length := by simpa [lowercase] using congrArg length hr
    rw [toLower_eq_dot] at hd
    subst hh hd
    have hsta : (first ++ byte '.' :: rest).length - domain.length = first.length + 1 := by
      rw [length_append, length_cons]
      omega
    rw [hsta, length_append, length_cons]
    refine ⟨by omega, by simp, ?_⟩
    rw [show first.length + 1 = (first ++ [byte '.']).length by simp,
      show first ++ byte '.' :: rest = (first ++ [byte '.']) ++ rest by simp, drop_left]
    exact hr

lemma pathMatches_iff {path cookiePath : Bytes} :
    pathMatches path cookiePath ↔ PathMatch path cookiePath := by
  unfold pathMatches PathMatch
  simp only [or_eq_true, beq_iff_eq, and_eq_true, isPrefixOf_iff_prefix, isSuffixOf_iff_suffix]
  apply or_congr Iff.rfl
  constructor
  · rintro ⟨⟨rest, rfl⟩, hs⟩
    refine ⟨rest, rfl, ?_⟩
    rcases hs with ⟨front, hf⟩ | hs
    · rw [← hf]
      exact inl (by simp)
    · rw [getElem?_append_right (Nat.le_refl _), Nat.sub_self] at hs
      exact inr (by rwa [head?_eq_getElem?])
  rintro ⟨rest, rfl, hs⟩
  refine ⟨⟨rest, rfl⟩, ?_⟩
  rcases hs with hs | hs
  · obtain ⟨front, hf⟩ := getLast?_eq_some_iff.mp hs
    exact inl ⟨front, hf.symm⟩
  · rw [getElem?_append_right (Nat.le_refl _), Nat.sub_self, ← head?_eq_getElem?]
    exact inr hs

lemma exists_other_host (host domain : Bytes) :
    ∃ other, other ≠ host ∧ DomainMatch other domain := by
  have hm : ∀ label : UInt8, DomainMatch (label :: byte '.' :: domain) domain := by
    intro label
    refine inr ⟨[toLower label], ?_⟩
    have hd : toLower (byte '.') = byte '.' := by decide
    simp [lowercase, hd]
  by_cases h : byte 'x' :: byte '.' :: domain = host
  · refine ⟨byte 'y' :: byte '.' :: domain, ?_, hm _⟩
    rw [← h]
    intro heq
    exact absurd (List.cons.inj heq).1 (by decide)
  · exact ⟨_, h, hm _⟩

end Aioduct.Cookies
