import Aioduct.Client.CookieField
import Aioduct.Client.Referer

/-!
# The cookies of the jar along a redirect chain

The jar adds the cookies of each hop to the `Cookie` line that the loop carries along. Only a
redirect to another origin takes the line out.
-/

namespace Aioduct.Client

open Wire Http Cookies List

variable {past : List Hop}

/-- The hops since the last change of the origin, the latest first. -/
def stay : Uri → List Hop → List Hop
  | _, [] => []
  | uri, hop :: past => if sameOrigin hop.uri uri then hop :: stay hop.uri past else []

def crossed : Uri → List Hop → Bool
  | _, [] => false
  | uri, hop :: past => !sameOrigin hop.uri uri || crossed hop.uri past

variable {uri : Uri}

lemma mem_of_mem_stay {hop : Hop} (h : hop ∈ stay uri past) : hop ∈ past := by
  induction past generalizing uri with
  | nil => cases h
  | cons first past ih =>
    rw [stay] at h
    split at h
    · rcases mem_cons.mp h with rfl | h
      · exact mem_cons_self
      · exact mem_cons_of_mem _ (ih h)
    · cases h

/-- The parts that the jar added at the earlier hops and that are still there. -/
def keptParts (uri : Uri) (past : List Hop) : List Bytes :=
  (stay uri past).reverse.flatMap fun hop => jarParts hop.selected

def ownParts (caller : List Bytes) (uri : Uri) (past : List Hop) : List Bytes :=
  if crossed uri past then [] else caller

/-- The `Cookie` line holds the caller's parts and what the jar added since the last change of the
origin. -/
structure CookieLine (caller : List Bytes) (place : Place) (headers : MarkedHeaderMap) : Prop where
  parts : fieldParts headers = ownParts caller place.uri place.past ++
    keptParts place.uri place.past ++ jarParts place.selected
  readable : ReadableCookies place.selected
  past : ∀ hop ∈ place.past, ReadableCookies hop.selected

lemma fieldParts_congr {headers headers' : MarkedHeaderMap}
    (h : headers'.getAll .cookie = headers.getAll .cookie) :
    fieldParts headers' = fieldParts headers := by
  simp only [fieldParts, cookieText, MultiMap.get, h]

lemma agreeOff_netrcApply (netrc : Netrc) (headers : MarkedHeaderMap) (uri : Uri) :
    MultiMap.AgreeOff [.authorization] headers (netrc.apply headers uri) := by
  unfold Netrc.apply
  split
  · exact MultiMap.AgreeOff.refl _ _
  split
  · exact MultiMap.agreeOff_insert mem_cons_self headers _
  · exact MultiMap.AgreeOff.refl _ _

lemma agreeOff_setReferer (enabled : Bool) (current next : Uri) (headers : MarkedHeaderMap) :
    MultiMap.AgreeOff [.referer] headers (setReferer enabled current next headers) := by
  unfold setReferer
  split
  · split
    · exact MultiMap.agreeOff_insert mem_cons_self headers _
    · exact MultiMap.AgreeOff.refl _ _
  · exact MultiMap.AgreeOff.refl _ _

variable (settings : Settings)

lemma carried_cookieLine (caller : List Bytes) : Carried settings (CookieLine caller) where
  finishes := fun h hf =>
    ⟨(fieldParts_congr (hf.agreeOff .cookie (by decide))).trans h.parts, h.readable, h.past⟩
  netrc := fun {place headers netrc} _ h =>
    ⟨(fieldParts_congr (agreeOff_netrcApply netrc headers place.uri .cookie (by decide))).trans
      h.parts, h.readable, h.past⟩
  addCookies := fun {uri past selected answered headers} h hr => by
    refine ⟨?_, hr, h.past⟩
    rw [fieldParts_addCookies hr, h.parts, jarParts_nil, append_nil]
  removeCookies := fun {uri past selected answered headers} h hr => by
    refine ⟨?_, fun c hc => absurd hc not_mem_nil, h.past⟩
    rw [fieldParts_removeCookies hr h.parts, jarParts_nil, append_nil]
  answer := fun {uri past selected answered headers value} h _ =>
    ⟨(fieldParts_congr (MultiMap.getAll_insert_of_ne (by decide) headers _)).trans h.parts,
      h.readable, h.past⟩
  redirect := fun {uri past selected answered headers next} h _ => by
    have hp : ∀ hop ∈ (⟨uri, selected, answered⟩ : Hop) :: past,
        ReadableCookies hop.selected := by
      intro hop hh
      rcases mem_cons.mp hh with rfl | hh
      · exact h.readable
      · exact h.past hop hh
    refine ⟨?_, fun c hc => absurd hc not_mem_nil, hp⟩
    rw [fieldParts_congr (agreeOff_setReferer _ _ _ _ .cookie (by decide)), jarParts_nil,
      append_nil]
    cases hs : sameOrigin uri next with
    | true =>
      rw [if_pos rfl, h.parts]
      simp [keptParts, stay, ownParts, crossed, hs]
    | false =>
      rw [if_neg Bool.false_ne_true]
      have hnone : fieldParts (dropCredentials settings.redirect.sensitiveHeaders headers) = [] := by
        simp [fieldParts, cookieText, MultiMap.get,
          getAll_dropCredentials_of_mem (by decide : HeaderName.cookie ∈ credentialNames),
          cookieParts_nil]
      rw [hnone]
      simp [ownParts, keptParts, crossed, stay, hs]

/-- The `Cookie` line of the request holds the caller's parts and the cookies that the jar selects
for this hop, each of them once, and nothing else. -/
structure JarExact (caller : List Bytes) (r : Sent) : Prop where
  parts : fieldParts r.headers = ownParts caller r.uri r.past ++ jarParts r.selected
  once : ((fieldParts r.headers).drop (ownParts caller r.uri r.past).length).Nodup

/-- Nothing was selected at the hops before, since the last change of the origin. -/
def NothingKept (r : Sent) : Prop := ∀ hop ∈ stay r.uri r.past, hop.selected = []

/-- Nothing is kept, and no two cookies that the jar selects for this hop read the same. -/
structure JarClean (r : Sent) : Prop where
  kept : NothingKept r
  distinct : (jarParts r.selected).Nodup

lemma keptParts_eq_nil (h : ∀ hop ∈ past, ReadableCookies hop.selected) :
    keptParts uri past = [] ↔ ∀ hop ∈ stay uri past, hop.selected = [] := by
  simp only [keptParts, flatMap_eq_nil_iff, mem_reverse]
  exact forall₂_congr fun hop hh => jarParts_eq_nil (h hop (mem_of_mem_stay hh))

lemma jarExact_iff {caller : List Bytes} {r : Sent} (h : CookieLine caller r.place r.headers) :
    JarExact caller r ↔ JarClean r := by
  have hp : fieldParts r.headers = ownParts caller r.uri r.past ++ keptParts r.uri r.past ++
      jarParts r.selected := h.parts
  have hpas : ∀ hop ∈ r.past, ReadableCookies hop.selected := h.past
  have hk : NothingKept r ↔ keptParts r.uri r.past = [] := (keptParts_eq_nil hpas).symm
  constructor
  · rintro ⟨he, ho⟩
    rw [he, drop_left] at ho
    exact ⟨hk.mpr (by simpa [hp] using he), ho⟩
  · rintro ⟨hn, hd⟩
    rw [hk.mp hn, append_nil] at hp
    exact ⟨hp, by rwa [hp, drop_left]⟩

def callerParts (request : Request) (start : Start) : List Bytes :=
  fieldParts (initial settings request start).headers

lemma cookieLine_initial (request : Request) (start : Start) :
    CookieLine (callerParts settings request start)
      ⟨(initial settings request start).uri, [], [], false⟩
      (initial settings request start).headers where
  parts := by simp [callerParts, ownParts, crossed, keptParts, stay, jarParts_nil]
  readable := fun c hc => absurd hc not_mem_nil
  past := fun hop hh => absurd hh not_mem_nil

/-- Each request of a run carries exactly the cookies that the jar selects for it, each once, exactly
if the jar selected nothing at the hops before it on the same origin and nothing twice for it. -/
theorem jar_exact_iff [UrlParser] {settings : Settings} {request : Request} {start : Start}
    {events : List Event} {s : State} (hrun : run settings request start events = some s) :
    (∀ r ∈ s.sent, JarExact (callerParts settings request start) r) ↔
      ∀ r ∈ s.sent, JarClean r :=
  forall₂_congr fun _ hr => jarExact_iff (good_of_sent (carried_cookieLine settings _)
    (cookieLine_initial settings request start) hrun hr)

def pathCookie : JarCall :=
  .storeFromResponse 0 (ascii "a.test") (ascii "/")
    ⟨[(.setCookie, ⟨ascii "sid=1; Path=/x", by decide⟩)]⟩

def jarSend : Event := .send ⟨[], 0, (Cookies.run [pathCookie]).entries, ⟨0, 0⟩⟩

def pathRequest : Request where
  method := .get
  uri := plainUri (ascii "https") (ascii "a.test") (ascii "/x")
  headers := ⟨[]⟩

/-- The URLs of the requests of a run with their `Cookie` lines and what the jar selected. -/
def sentCookies (events : List Event) : Option (List (Bytes × Bytes × List Bytes)) :=
  (@run .plain {} pathRequest { jar := some [pathCookie] } events).map fun s =>
    s.sent.map fun r => (r.uri.display, cookieText r.headers, r.selected.map Cookie.pair)

def pathChain : List Event :=
  [jarSend, redirectTo "https://a.test/x/2" (by decide), jarSend,
    redirectTo "https://a.test/y" (by decide), jarSend]

theorem jar_exact_iff_crossing : ∃ s, @run .plain {} pathRequest { jar := some [pathCookie] }
        [jarSend, leaveOrigin, jarSend] = some s ∧
      s.sent.length = 2 ∧
      ((∀ r ∈ s.sent, JarExact (callerParts {} pathRequest { jar := some [pathCookie] }) r) ↔
        ∀ r ∈ s.sent, JarClean r) := by
  have hsen : sentCookies [jarSend, leaveOrigin, jarSend] =
      some [(ascii "https://a.test/x", ascii "sid=1", [ascii "sid=1"]),
        (ascii "https://b.test/", [], [])] := by decide
  obtain ⟨s, hs, hm⟩ := Option.map_eq_some_iff.mp hsen
  refine ⟨s, hs, ?_, @jar_exact_iff .plain _ _ _ _ s hs⟩
  have hl := congrArg List.length hm
  simpa using hl

/-- The cookie is sent twice where it is selected, and again where it is not. -/
theorem jar_cookie_sent_again :
    sentCookies pathChain =
        some [(ascii "https://a.test/x", ascii "sid=1", [ascii "sid=1"]),
          (ascii "https://a.test/x/2", ascii "sid=1; sid=1", [ascii "sid=1"]),
          (ascii "https://a.test/y", ascii "sid=1; sid=1", [])] ∧
      ∃ s, @run .plain {} pathRequest { jar := some [pathCookie] } pathChain = some s ∧
        ¬∀ r ∈ s.sent, JarExact (callerParts {} pathRequest { jar := some [pathCookie] }) r := by
  refine ⟨by decide, ?_⟩
  have hi : (@run .plain {} pathRequest { jar := some [pathCookie] } pathChain).map
      (fun s => s.sent.all fun r => fieldParts r.headers ==
        ownParts (callerParts {} pathRequest { jar := some [pathCookie] }) r.uri r.past ++
          jarParts r.selected) = some false := by decide
  obtain ⟨s, hs, hall⟩ := Option.map_eq_some_iff.mp hi
  refine ⟨s, hs, fun he => ?_⟩
  rw [all_eq_true.mpr fun r hr => beq_iff_eq.mpr (he r hr).parts] at hall
  cases hall

end Aioduct.Client
