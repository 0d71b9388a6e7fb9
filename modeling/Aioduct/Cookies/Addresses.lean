import Aioduct.Cookies.Isolation
import Aioduct.Wire.Ip

/-!
# Addresses and empty domains

Domain matching compares bytes, so that a cookie of an address with a `Domain` attribute also goes
to other hosts.
-/

namespace Aioduct.Cookies

open Wire

/-- A host that is an address: of the old kind, or of the new kind in brackets. -/
def isAddress (host : Bytes) : Bool :=
  (Ip.parseV4 host).isSome ||
    (host.head? == some (byte '[') && host.getLast? == some (byte ']') &&
      (Ip.parseV6 (host.drop 1).dropLast).isSome)

/-- A cookie that should not leave its host: an address set it, or its domain is empty. -/
def Confined (host : Bytes) (c : Cookie) : Prop := isAddress host = true ∨ c.domain = some []

/-- Confined cookies are sent to the hosts that set them and to no other. -/
def StaysHome (calls : List JarCall) : Prop :=
  ∀ (order : Entries) (request : CookieRequest), order.Perm (run calls).entries →
    ∀ c ∈ (run calls).matchingCookies order request, ∀ host,
      latestAccepted calls c.key = some (host, c) → Confined host c → request.domain = host

def requestFor (other : Bytes) (c : Cookie) : CookieRequest where
  now := c.expiresAt.getD 0 - 1
  domain := other
  isSecure := true
  path := c.path
  siteForCookies := none

lemma sendable_requestFor {host other d : Bytes} {c : Cookie} (hk : c.expired = false)
    (honl : c.hostOnly = false) (hd : c.domain = some d) (hh : DomainMatch host d)
    (ho : DomainMatch other d) : Sendable (requestFor other c) host c where
  kept := hk
  domain := Or.inr ⟨honl, d, hd, hh, ho⟩
  path := Or.inl rfl
  unexpired := by
    intro time ht
    have hn : (requestFor other c).now = time - 1 := by
      rw [requestFor, Option.mem_def.mp ht, Option.getD_some]
    rw [hn]
    exact Int.sub_one_lt_of_le (Int.le_refl time)
  secure := fun _ => rfl
  site := by simp [requestFor, CookieRequest.isCrossSite]

/-- Confined cookies stay home exactly if none of them has a `Domain` attribute, or nothing is
sent anymore because a line has overflowed. -/
theorem stays_home_iff (calls : List JarCall) :
    StaysHome calls ↔
      (∃ call ∈ calls, call.Overflows) ∨
        ∀ host c, latestAccepted calls c.key = some (host, c) → c.expired = false →
          Confined host c → c.hostOnly = true := by
  obtain ⟨stored, hf, poisoned, hr, hi, hall⟩ := run_eq calls
  constructor
  · intro hsta
    by_cases hove : ∃ call ∈ calls, call.Overflows
    · exact Or.inl hove
    -- without the attribute on its own host the cookie would also belong to another one
    · refine Or.inr fun host c hl hk hcon => ?_
      by_contra ho
      have ho' : c.hostOnly = false := by simpa using ho
      obtain ⟨value, line, -, ha⟩ := mem_accepted (Keyed.mem_of_latest hl)
      rcases ha.domain with ⟨htrue, -⟩ | ⟨-, d, hd, hm⟩
      · exact ho htrue
      obtain ⟨other, hne, hoth⟩ := exists_other_host host d
      have hfalse : poisoned = false := by
        cases poisoned with
        | true => exact absurd (hi.mp rfl) hove
        | false => rfl
      obtain rfl := hall hfalse
      have hsel : (run calls).matchingCookies (run calls).entries (requestFor other c) =
          (requestFor other c).select (storeAll (accepted calls)) := by
        rw [hr, hfalse]
        rfl
      have hmem : c ∈ (run calls).matchingCookies (run calls).entries (requestFor other c) := by
        rw [hsel]
        exact (mem_select (List.Perm.refl _)).mpr ⟨host, hl, sendable_requestFor hk ho' hd hm hoth⟩
      exact hne (hsta _ _ (List.Perm.refl _) c hmem host hl hcon)
  · rintro (hove | hh) order request hord c hc host hl hcon
    · have hnone : (run calls).matchingCookies order request = [] := by
        rw [hr, hi.mpr hove]
        rfl
      rw [hnone] at hc
      cases hc
    have hfalse : poisoned = false := by
      cases poisoned with
      | true =>
        rw [hr] at hc
        cases hc
      | false => rfl
    obtain rfl := hall hfalse
    rw [hr, hfalse] at hc hord
    obtain ⟨host', hl', hs⟩ := (mem_select hord).mp hc
    obtain rfl : host' = host := by
      have heq := hl'.symm.trans hl
      exact (Prod.mk.inj (Option.some.inj heq)).1
    rcases hs.domain with ⟨-, hsam⟩ | ⟨ho, -⟩
    · exact hsam
    · rw [hh host' c hl hs.kept hcon] at ho
      cases ho

def addressCall : JarCall :=
  .storeFromResponse sampleTime (ascii "192.168.0.1") (ascii "/")
    (responseWith "a=1; Domain=0.1" (by decide))

def emptyDomainCall : JarCall :=
  .storeFromResponse sampleTime (ascii "one.test.") (ascii "/")
    (responseWith "a=1; Domain=." (by decide))

def requestTo (host : String) : CookieRequest where
  now := sampleTime
  domain := ascii host
  isSecure := false
  path := ascii "/"
  siteForCookies := none

/-- The first cookie is sent to another address, the second one to another host. -/
theorem cookie_leaves_address :
    isAddress (ascii "192.168.0.1") = true ∧
      ((accepted [addressCall]).map fun stored => (stored.1, stored.2.pair)) =
        [(ascii "192.168.0.1", ascii "a=1")] ∧
      ((run [addressCall]).matchingCookies (run [addressCall]).entries
        (requestTo "10.0.0.1")).map Cookie.pair = [ascii "a=1"] ∧
      ((accepted [emptyDomainCall]).map fun stored => (stored.1, stored.2.domain)) =
        [(ascii "one.test.", some [])] ∧
      ((run [emptyDomainCall]).matchingCookies (run [emptyDomainCall]).entries
        (requestTo "two.example.")).map Cookie.pair = [ascii "a=1"] := by
  refine ⟨?_, ?_, ?_, ?_, ?_⟩ <;> decide

end Aioduct.Cookies
