import Aioduct.Cookies.Isolation
import Aioduct.Http.Uri

/-!
# Cookies over plain HTTP

The client stores the cookies of a response without regard to its scheme (`post_execute` in
`client/request_flow.rs`).
-/

namespace Aioduct.Cookies

open Wire Http List Prod Or Keyed

variable {history : List (Bytes × Cookie)}

structure Received where
  now : SystemTime
  uri : Uri
  headers : HeaderMap

namespace Received

variable (r : Received)

def isPlain : Bool := r.uri.scheme == some (ascii "http")

def lines : List HeaderValue := r.headers.getAll .setCookie

def host (r : Received) : Option Bytes := r.uri.authority.map Authority.host

/-- The call that the client makes; without an authority there is none. -/
def calls : List JarCall :=
  (r.host.map fun host => .storeFromResponse r.now host r.uri.path r.headers).toList

end Received

variable (responses : List Received)

def jarAfter : CookieJar := run (responses.flatMap Received.calls)

variable (earlier : List Received) (r : Received)

/-- The jar while a response is stored, after some of its lines. -/
def jarDuring (host : Bytes) (lines : List HeaderValue) : CookieJar :=
  lines.foldl (CookieJar.storeLine r.now host r.uri.path) (jarAfter earlier)

def Cookie.isProtected (c : Cookie) : Bool :=
  c.secure || securePrefix.isPrefixOf c.name || hostPrefix.isPrefixOf c.name

/-- No protected cookie has been created, overwritten or deleted. -/
def Untouched (before after : CookieJar) : Prop :=
  ∀ c : Cookie, c.isProtected = true → (c ∈ after.cookies ↔ c ∈ before.cookies)

/-- No line of a response over plain HTTP touches a protected cookie. -/
def PlainTouchesNothing : Prop :=
  ∀ earlier r later, responses = earlier ++ r :: later → r.isPlain = true →
    ∀ host, r.host = some host → ∀ lines value more, r.lines = lines ++ value :: more →
      Untouched (jarDuring earlier r host lines)
        ((jarDuring earlier r host lines).storeLine r.now host r.uri.path value)

/-- A line that touches no protected cookie: it is not accepted, or it repeats a stored cookie, or
it is not protected itself and no protected cookie has its key. -/
def Harmless (jar : CookieJar) (now : SystemTime) (host path : Bytes) (value : HeaderValue) :
    Prop :=
  jar.poisoned = true ∨ ∀ stored ∈ acceptedLines now host path [value],
    (stored.2.expired = false ∧ stored.2 ∈ jar.cookies) ∨
      ((stored.2.expired = true ∨ stored.2.isProtected = false) ∧
        ∀ c ∈ jar.cookies, c.isProtected = true → c.key ≠ stored.2.key)

lemma mem_cookies_storeAll (hdom : ∀ stored ∈ history, stored.2.domain.isSome) (c : Cookie) :
    c ∈ (storeAll history).flatMap Prod.snd ↔
      c.expired = false ∧ ∃ host, latestStored history c.key = some (host, c) := by
  rw [mem_flatMap]
  constructor
  · rintro ⟨entry, he, hc⟩
    rw [cookies_of_mem_storeAll he, mem_cookiesOf_storeAll hdom] at hc
    exact hc.2
  rintro ⟨hk, host, hl⟩
  obtain ⟨d, hd⟩ := Option.isSome_iff_exists.mp (hdom _ (mem_of_latest hl))
  have hh := (mem_cookiesOf_storeAll hdom d c).mpr ⟨hd, hk, host, hl⟩
  unfold cookiesOf at hh
  cases hg : Assoc.get (storeAll history) d with
  | none =>
    rw [hg] at hh
    cases hh
  | some cookies =>
    rw [hg, Option.getD_some] at hh
    exact ⟨(d, cookies), Assoc.mem_of_get hg, hh⟩

lemma mem_cookies_concat {host : Bytes} {new : Cookie}
    (hd : ∀ stored ∈ history ++ [(host, new)], stored.2.domain.isSome) (c : Cookie) :
    c ∈ (storeAll (history ++ [(host, new)])).flatMap Prod.snd ↔
      (c = new ∧ new.expired = false) ∨
        (c.key ≠ new.key ∧ c ∈ (storeAll history).flatMap Prod.snd) := by
  have he : ∀ stored ∈ history, stored.2.domain.isSome :=
    fun stored hs => hd stored (mem_append_left _ hs)
  rw [mem_cookies_storeAll hd, mem_cookies_storeAll he]
  by_cases hkey : c.key = new.key
  · have hl : latestStored (history ++ [(host, new)]) c.key = some (host, new) := by
      rw [hkey]
      exact latest_concat_self history (host, new)
    rw [hl]
    constructor
    · rintro ⟨hk, host', heq⟩
      cases heq
      exact inl ⟨rfl, hk⟩
    · rintro (⟨rfl, hk⟩ | ⟨hne, -⟩)
      · exact ⟨hk, host, rfl⟩
      · exact absurd hkey hne
  have hl : latestStored (history ++ [(host, new)]) c.key = latestStored history c.key :=
    latest_concat_of_ne history (Ne.symm hkey)
  rw [hl]
  constructor
  · intro h
    exact inr ⟨hkey, h⟩
  · rintro (⟨rfl, -⟩ | ⟨-, h⟩)
    · exact absurd rfl hkey
    · exact h

lemma domain_isSome_of_acceptedLines {now : SystemTime} {host path : Bytes}
    {values : List HeaderValue} {stored : Bytes × Cookie}
    (h : stored ∈ acceptedLines now host path values) : stored.2.domain.isSome := by
  have hc : stored ∈ accepted
      [.storeFromResponse now host path ⟨values.map fun value => (.setCookie, value)⟩] := by
    have hv : (⟨values.map fun value => (.setCookie, value)⟩ : HeaderMap).getAll .setCookie =
        values := by simp [MultiMap.getAll, filter_map, Function.comp_def]
    simpa [accepted, JarCall.accepted, hv] using h
  exact domain_isSome_of_accepted hc

lemma jarDuring_eq (host : Bytes) (lines : List HeaderValue) :
    ∃ history poisoned, jarDuring earlier r host lines = ⟨storeAll history, poisoned⟩ ∧
      ∀ stored ∈ history, stored.2.domain.isSome := by
  obtain ⟨stored, hf, poisoned, hr, -, -⟩ := run_eq (earlier.flatMap Received.calls)
  have hsto : ∀ s ∈ stored, s.2.domain.isSome :=
    fun s hs => domain_isSome_of_accepted (hf.subset hs)
  unfold jarDuring jarAfter
  rw [hr]
  cases poisoned with
  | true => exact ⟨stored, true, foldl_fixed' (fun _ => rfl) lines, hsto⟩
  | false =>
    obtain ⟨more, hm, poisoned, hfol, -, -⟩ :=
      foldl_storeLine r.now host r.uri.path lines stored
    refine ⟨stored ++ more, poisoned, hfol, fun s hs => ?_⟩
    rcases mem_append.mp hs with hs | hs
    · exact hsto s hs
    · exact domain_isSome_of_acceptedLines (hm.subset hs)

/-- A line touches no protected cookie exactly if it is harmless. -/
lemma untouched_iff (host : Bytes) (lines : List HeaderValue) (value : HeaderValue) :
    Untouched (jarDuring earlier r host lines)
        ((jarDuring earlier r host lines).storeLine r.now host r.uri.path value) ↔
      Harmless (jarDuring earlier r host lines) r.now host r.uri.path value := by
  obtain ⟨history, poisoned, hj, hd⟩ := jarDuring_eq earlier r host lines
  rw [hj]
  cases poisoned with
  | true => exact iff_of_true (fun c _ => Iff.rfl) (inl rfl)
  | false =>
    unfold Untouched Harmless
    rw [or_iff_right (by simp)]
    rcases storeLine_cases r.now host r.uri.path (storeAll history) value with
      ⟨hnone, -, hl⟩ | ⟨new, hnew, -, hl⟩ | ⟨hnone, -, hl⟩
    · rw [hl, hnone]
      exact iff_of_true (fun c _ => Iff.rfl) (by simp)
    · have hcoo : (CookieJar.storeLine r.now host r.uri.path ⟨storeAll history, false⟩
          value).cookies = (storeAll (history ++ [(host, new)])).flatMap snd := by
        rw [hl, storeAll, storeAll, foldl_append]
        rfl
      have hd' : ∀ stored ∈ history ++ [(host, new)], stored.2.domain.isSome := by
        intro stored hs
        rcases mem_append.mp hs with hs | hs
        · exact hd stored hs
        · rw [mem_singleton] at hs
          exact domain_isSome_of_acceptedLines (hnew ▸ mem_singleton.mpr hs)
      have hu := nodup_key_storeAll hd
      rw [hcoo, hnew]
      simp only [mem_cookies_concat hd', mem_singleton, forall_eq]
      change (∀ c : Cookie, c.isProtected →
        ((c = new ∧ new.expired = false) ∨
          (c.key ≠ new.key ∧ c ∈ (storeAll history).flatMap snd) ↔
        c ∈ (storeAll history).flatMap snd)) ↔
        (new.expired = false ∧ new ∈ (storeAll history).flatMap snd) ∨
        ((new.expired ∨ new.isProtected = false) ∧
          ∀ c ∈ (storeAll history).flatMap snd, c.isProtected → c.key ≠ new.key)
      generalize (storeAll history).flatMap snd = held at *
      constructor
      · intro h
        by_cases hn : new.expired = false ∧ new ∈ held
        · exact inl hn
        refine inr ⟨?_, fun c hc hp hkey => ?_⟩
        · -- otherwise the line would create or overwrite a protected cookie
          by_contra hcre
          simp only [not_or, Bool.not_eq_true, Bool.not_eq_false] at hcre
          have hm := (h new hcre.2).mp (inl ⟨rfl, hcre.1⟩)
          exact hn ⟨hcre.1, hm⟩
        · rcases (h c hp).mpr hc with ⟨rfl, hk⟩ | ⟨hne, -⟩
          · exact hn ⟨hk, hc⟩
          · exact hne hkey
      rintro (⟨hk, hm⟩ | ⟨hnot, hke⟩) c hp
      · constructor
        · rintro (⟨rfl, -⟩ | ⟨-, hc⟩)
          · exact hm
          · exact hc
        intro hc
        by_cases hkey : c.key = new.key
        · exact inl ⟨inj_on_of_nodup_map hu hc hm hkey, hk⟩
        · exact inr ⟨hkey, hc⟩
      constructor
      · rintro (⟨rfl, hk⟩ | ⟨-, hc⟩)
        · rcases hnot with hnot | hnot
          · rw [hk] at hnot
            cases hnot
          · rw [hp] at hnot
            cases hnot
        · exact hc
      · intro hc
        exact inr ⟨hke c hc hp, hc⟩
    · rw [hl, hnone]
      exact iff_of_true (fun c _ => Iff.rfl) (by simp)

/-- In a run, plain responses touch no protected cookie exactly if all their lines happen to be
harmless; nothing in the jar sees to it. -/
theorem plain_touches_nothing_iff (responses : List Received) :
    PlainTouchesNothing responses ↔
      ∀ earlier r later, responses = earlier ++ r :: later → r.isPlain = true →
        ∀ host, r.host = some host → ∀ lines value more, r.lines = lines ++ value :: more →
          Harmless (jarDuring earlier r host lines) r.now host r.uri.path value := by
  unfold PlainTouchesNothing
  simp only [untouched_iff]

def responseFrom (scheme : String) (headers : HeaderMap) : Received where
  now := sampleTime
  uri := { scheme := some (ascii scheme),
           authority := some ⟨ascii "example.com", ascii "example.com", none⟩,
           path := ascii "/" }
  headers := headers

def secureLogin : Received :=
  responseFrom "https" (responseWith "sid=1; Secure; Path=/" (by decide))

def plainOverwrite : Received := responseFrom "http" (responseWith "sid=2; Path=/" (by decide))

def plainDelete : Received :=
  responseFrom "http" (responseWith "sid=; Max-Age=0; Path=/" (by decide))

def plainCreate : Received :=
  responseFrom "http" (responseWith "__Host-x=1; Secure; Path=/" (by decide))

def protectedPairs : List Bytes :=
  ((jarAfter responses).cookies.filter Cookie.isProtected).map Cookie.pair

/-- Responses over plain HTTP overwrite, delete and create protected cookies. -/
theorem plain_response_touches_secure_cookie :
    protectedPairs [secureLogin] = [ascii "sid=1"] ∧
      protectedPairs [secureLogin, plainOverwrite] = [] ∧
      (jarAfter [secureLogin, plainOverwrite]).cookies.map Cookie.pair = [ascii "sid=2"] ∧
      (jarAfter [secureLogin, plainDelete]).cookies = [] ∧
      protectedPairs [plainCreate] = [ascii "__Host-x=1"] := by
  refine ⟨?_, ?_, ?_, ?_, ?_⟩ <;> decide

end Aioduct.Cookies
