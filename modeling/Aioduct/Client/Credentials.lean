import Aioduct.Client.JarCookies

/-!
# Credentials and origins

A redirect to another origin takes the credentials out. After it only netrc, the jar and the answer
to a challenge put credentials back, the last one whichever origin asks for it.
-/

namespace Aioduct.Client

open Wire Http Cookies MultiMap List Option Bool Netrc

def netrcValue (settings : Settings) (uri : Uri) : Option HeaderValue :=
  settings.netrc.bind fun netrc => netrc.authorization uri

lemma host_eq_of_sameOrigin {u v : Uri} (h : sameOrigin u v) (hu : LowerHost u)
    (hv : LowerHost v) : (hostOf u).getD [] = (hostOf v).getD [] := by
  simp only [sameOrigin, and_eq_true, Option.any_eq_true] at h
  obtain ⟨⟨-, host, hh, hs⟩, -⟩ := h
  have hl : lowercase host = lowercase ((hostOf v).getD []) := by
    simpa [eqIgnoreCase] using hs
  have hr : lowercase ((hostOf v).getD []) = (hostOf v).getD [] := by
    cases ho : hostOf v with
    | none => rfl
    | some other => exact hv other ho
  rw [hh, Option.getD_some, ← hu host hh, hl, hr]

lemma netrcValue_congr {u v : Uri} (h : sameOrigin u v) (hu : LowerHost u)
    (hv : LowerHost v) (settings : Settings) : netrcValue settings u = netrcValue settings v := by
  have hs : u.scheme = v.scheme := by
    simp only [sameOrigin, and_eq_true, beq_iff_eq] at h
    exact h.1.1
  have hc : ∀ netrc : Netrc, netrc.credentials u = netrc.credentials v := by
    intro netrc
    unfold credentials isHttps
    rw [hs, host_eq_of_sameOrigin h hu hv]
  simp only [netrcValue, authorization, hc]

variable {settings : Settings} {value : HeaderValue} {uri next : Uri}
  {headers headers' : MarkedHeaderMap} {parts : List Bytes} {selected : List Cookie} {place : Place}

lemma netrcValue_scheme (h : netrcValue settings uri = some value) :
    ∃ rest, value.bytes = ascii "Basic " ++ rest := by
  obtain ⟨netrc, -, h⟩ := bind_eq_some_iff.mp h
  obtain ⟨entry, -, h⟩ := bind_eq_some_iff.mp h
  exact ⟨_, HeaderValue.fromStr_bytes h⟩

lemma netrcValue_ne_answer (h : netrcValue settings uri = some value) : ¬IsDigestAnswer value := by
  rintro ⟨rest, hr⟩
  obtain ⟨rest', hr'⟩ := netrcValue_scheme h
  rw [hr] at hr'
  exact absurd (List.cons.inj hr').1 (by decide)

lemma marksFrom_setReferer (enabled : Bool) (current next : Uri) (headers : MarkedHeaderMap) :
    MarksFrom headers (setReferer enabled current next headers) := by
  unfold setReferer
  split
  · split
    · exact marksFrom_insert_plain _ _ _
    · exact fun _ _ _ h => h
  · exact fun _ _ _ h => h

/-- There is at most one `Cookie` line, it is readable and not marked as sensitive. -/
def PlainCookie (headers : MarkedHeaderMap) : Prop :=
  headers.getAll .cookie = [] ∨
    ∃ value text, headers.getAll .cookie = [⟨value, false⟩] ∧ value.toStr = some text

lemma PlainCookie.congr (h : PlainCookie headers)
    (hc : headers'.getAll .cookie = headers.getAll .cookie) : PlainCookie headers' := by
  unfold PlainCookie
  rwa [hc]

lemma plainCookie_of_setsParts (h : SetsParts headers headers' parts) : PlainCookie headers' := by
  obtain ⟨value, text, rfl, ht, -⟩ := h
  exact .inr ⟨value, text, getAll_insert_self _ _ _, ht⟩

lemma marksFrom_of_setsParts (h : SetsParts headers headers' parts) :
    MarksFrom headers headers' := by
  obtain ⟨value, -, rfl, -⟩ := h
  exact marksFrom_insert_plain headers .cookie value

lemma plainCookie_addCookies (h : ReadableCookies selected) (hp : PlainCookie headers) :
    PlainCookie (addCookies selected headers) ∧ MarksFrom headers (addCookies selected headers) := by
  by_cases hne : selected = []
  · rw [hne, addCookies_nil]
    exact ⟨hp, fun _ _ _ hm => hm⟩
  · have hs := setsParts_addCookies h hne headers
    exact ⟨plainCookie_of_setsParts hs, marksFrom_of_setsParts hs⟩

lemma plainCookie_removeCookies (h : ReadableCookies selected) {own : List Bytes}
    (hp : fieldParts headers = own ++ jarParts selected) (hpla : PlainCookie headers) :
    PlainCookie (removeCookies selected headers) ∧
      MarksFrom headers (removeCookies selected headers) := by
  rcases removeCookies_cases h hp with ⟨heq, -⟩ | ⟨heq, -⟩ | hs
  · rw [heq]
    exact ⟨hpla, fun _ _ _ hm => hm⟩
  · rw [heq]
    exact ⟨.inl (getAll_remove_self _ _), marksFrom_remove headers .cookie⟩
  · exact ⟨plainCookie_of_setsParts hs, marksFrom_of_setsParts hs⟩

def answeredSince (answered : Bool) (uri : Uri) (past : List Hop) : Bool :=
  answered || (stay uri past).any Hop.answered

/-- The credentials of a request after a change of the origin. -/
structure Confined (settings : Settings) (place : Place) (headers : MarkedHeaderMap) : Prop where
  lower : LowerHost place.uri
  proxy : headers.getAll .proxyAuthorization = []
  cookie : PlainCookie headers
  marked : ∀ name value, value ∈ headers.getAll name → value.sensitive = true →
    name = .authorization
  chosen : answeredSince place.answered place.uri place.past = false →
    ∀ value ∈ headers.getAll .authorization, netrcValue settings place.uri = some value.value
  answer : answeredSince place.answered place.uri place.past = true →
    ∃ value, headers.getAll .authorization = [⟨value, false⟩] ∧ IsDigestAnswer value

lemma Confined.congr (h : Confined settings place headers)
    (hp : headers'.getAll .proxyAuthorization = headers.getAll .proxyAuthorization)
    (ha : headers'.getAll .authorization = headers.getAll .authorization)
    (hc : PlainCookie headers') (hm : MarksFrom headers headers') :
    Confined settings place headers' where
  lower := h.lower
  proxy := hp.trans h.proxy
  cookie := hc
  marked := fun name value hmem hs => h.marked name value (hm name value hs hmem) hs
  chosen := by
    rw [ha]
    exact h.chosen
  answer := by
    rw [ha]
    exact h.answer

lemma Confined.netrc (h : Confined settings place headers) {netrc : Netrc}
    (hnet : settings.netrc = some netrc) :
    Confined settings place (netrc.apply headers place.uri) := by
  unfold apply
  split
  · exact h
  split
  next hc _ value hval =>
    have hnone : headers.getAll .authorization = [] := by
      exact containsKey_eq_false.mp (eq_false_iff.mpr hc)
    have hu : answeredSince place.answered place.uri place.past = false := by
      cases ha : answeredSince place.answered place.uri place.past with
      | false => rfl
      | true =>
        obtain ⟨answer, hans, -⟩ := h.answer ha
        rw [hnone] at hans
        cases hans
    refine ⟨h.lower, ?_, h.cookie.congr ?_, ?_, fun _ v hv => ?_, fun ha => ?_⟩
    · rw [getAll_insert_of_ne (by decide)]
      exact h.proxy
    · exact getAll_insert_of_ne (by decide) _ _
    · intro name v hv hs
      by_cases hn : name = .authorization
      · exact hn
      · rw [getAll_insert_of_ne hn] at hv
        exact h.marked name v hv hs
    · rw [getAll_insert_self, mem_singleton] at hv
      rw [hv, netrcValue, hnet]
      exact hval
    · rw [hu] at ha
      cases ha
  · exact h

lemma Confined.answered {past : List Hop} {answered : Bool}
    (h : Confined settings ⟨uri, past, selected, answered⟩ headers)
    (hval : IsDigestAnswer value) :
    Confined settings ⟨uri, past, selected, true⟩
      (headers.insert .authorization ⟨value, false⟩) where
  lower := h.lower
  proxy := (getAll_insert_of_ne (by decide) _ _).trans h.proxy
  cookie := h.cookie.congr (getAll_insert_of_ne (by decide) _ _)
  marked := fun name v hv hs =>
    h.marked name v (marksFrom_insert_plain headers .authorization value name v hs hv) hs
  chosen := fun hfalse => by simp [answeredSince] at hfalse
  answer := fun _ => ⟨value, getAll_insert_self _ _ _, hval⟩

lemma answeredSince_cons (h : sameOrigin uri next) (selected : List Cookie)
    (answered : Bool) (past : List Hop) :
    answeredSince false next (⟨uri, selected, answered⟩ :: past) =
      answeredSince answered uri past := by simp [answeredSince, stay, h]

lemma Confined.stay {past : List Hop} {answered : Bool}
    (h : Confined settings ⟨uri, past, selected, answered⟩ headers) (hn : LowerHost next)
    (hs : sameOrigin uri next) :
    Confined settings ⟨next, ⟨uri, selected, answered⟩ :: past, [], false⟩ headers where
  lower := hn
  proxy := h.proxy
  cookie := h.cookie
  marked := h.marked
  chosen := by
    rw [answeredSince_cons hs, ← netrcValue_congr hs h.lower hn]
    exact h.chosen
  answer := by
    rw [answeredSince_cons hs]
    exact h.answer

lemma confined_dropCredentials (settings : Settings) (past : List Hop) (selected : List Cookie)
    (answered : Bool) (headers : MarkedHeaderMap) (hn : LowerHost next)
    (hc : sameOrigin uri next = false) :
    Confined settings ⟨next, ⟨uri, selected, answered⟩ :: past, [], false⟩
      (dropCredentials settings.redirect.sensitiveHeaders headers) where
  lower := hn
  proxy := getAll_dropCredentials_of_mem (by decide) _ _
  cookie := .inl (getAll_dropCredentials_of_mem (by decide) _ _)
  marked := fun name value hm hs => by
    rw [unmarked_dropCredentials hm] at hs
    cases hs
  chosen := fun _ value hm => by
    rw [getAll_dropCredentials_of_mem (by decide)] at hm
    cases hm
  answer := fun ha => by simp [answeredSince, Client.stay, hc] at ha

lemma Confined.setReferer (h : Confined settings place headers) (enabled : Bool)
    (current next : Uri) : Confined settings place (setReferer enabled current next headers) := by
  have ha := agreeOff_setReferer enabled current next headers
  exact h.congr (ha _ (by decide)) (ha _ (by decide))
    (h.cookie.congr (ha _ (by decide))) (marksFrom_setReferer _ _ _ _)

/-- The `Cookie` line of the request, and its credentials once the origin has changed. -/
structure Guarded (settings : Settings) (caller : List Bytes) (place : Place)
    (headers : MarkedHeaderMap) : Prop where
  line : CookieLine caller place headers
  confined : crossed place.uri place.past = true → Confined settings place headers

lemma carried_guarded (settings : Settings) (caller : List Bytes) :
    Carried settings (Guarded settings caller) where
  finishes := fun {place headers headers'} h hf => by
    refine ⟨(carried_cookieLine settings caller).finishes h.line hf, fun hc => ?_⟩
    have ha := hf.agreeOff
    exact (h.confined hc).congr (ha _ (by decide)) (ha _ (by decide))
      ((h.confined hc).cookie.congr (ha _ (by decide))) hf.marks
  netrc := fun hnet h =>
    ⟨(carried_cookieLine settings caller).netrc hnet h.line,
      fun hc => (h.confined hc).netrc hnet⟩
  addCookies := fun {uri past selected answered headers} h hr => by
    refine ⟨(carried_cookieLine settings caller).addCookies h.line hr, fun hc => ?_⟩
    have hold := h.confined hc
    have ha := agreeOff_addCookies selected headers
    obtain ⟨hcoo, hm⟩ := plainCookie_addCookies hr hold.cookie
    have hnew := hold.congr (ha _ (by decide)) (ha _ (by decide)) hcoo hm
    exact ⟨hnew.lower, hnew.proxy, hnew.cookie, hnew.marked, hnew.chosen, hnew.answer⟩
  removeCookies := fun {uri past selected answered headers} h hr => by
    refine ⟨(carried_cookieLine settings caller).removeCookies h.line hr, fun hc => ?_⟩
    have hold := h.confined hc
    have ha := agreeOff_removeCookies selected headers
    obtain ⟨hcoo, hm⟩ := plainCookie_removeCookies hr h.line.parts hold.cookie
    have hnew := hold.congr (ha _ (by decide)) (ha _ (by decide)) hcoo hm
    exact ⟨hnew.lower, hnew.proxy, hnew.cookie, hnew.marked, hnew.chosen, hnew.answer⟩
  answer := fun h hv =>
    ⟨(carried_cookieLine settings caller).answer h.line hv,
      fun hc => (h.confined hc).answered hv⟩
  redirect := fun {uri past selected answered headers next} h hn => by
    refine ⟨(carried_cookieLine settings caller).redirect h.line hn, fun hc => ?_⟩
    apply Confined.setReferer
    cases hs : sameOrigin uri next with
    | true =>
      have hb : crossed uri past := by simpa [crossed, hs] using hc
      exact (h.confined hb).stay hn hs
    | false => exact confined_dropCredentials settings past selected answered headers hn hs

/-- The request carries no credentials but those that netrc and the jar have for its own URL. -/
structure OwnCredentials (settings : Settings) (r : Sent) : Prop where
  authorization : ∀ value ∈ r.headers.getAll .authorization,
    netrcValue settings r.uri = some value.value
  cookie : ∀ value ∈ r.headers.getAll .cookie,
    value.value.toStr.map cookieParts = some (jarParts r.selected)
  proxy : r.headers.getAll .proxyAuthorization = []
  marked : ∀ name value, value ∈ r.headers.getAll name → value.sensitive = true →
    name = .authorization

/-- Since the last change of the origin no challenge was answered, and nothing of the jar is
left. -/
structure NothingForeign (r : Sent) : Prop where
  unanswered : answeredSince r.answered r.uri r.past = false
  kept : NothingKept r

lemma fieldParts_of_cookie (h : PlainCookie headers) :
    (∀ value ∈ headers.getAll .cookie, value.value.toStr.map cookieParts = some parts) ↔
      headers.getAll .cookie = [] ∨ fieldParts headers = parts := by
  rcases h with hnone | ⟨value, text, hv, ht⟩
  · simp [hnone]
  · simp [hv, fieldParts, cookieText, MultiMap.get, ht]

lemma ownCredentials_iff {caller : List Bytes} {r : Sent}
    (h : Guarded settings caller r.place r.headers) (hcro : crossed r.uri r.past) :
    OwnCredentials settings r ↔ NothingForeign r := by
  have hc : Confined settings r.place r.headers := h.confined hcro
  have hp : fieldParts r.headers = keptParts r.uri r.past ++ jarParts r.selected := by
    have hl := h.line.parts
    simpa [Sent.place, ownParts, hcro] using hl
  have hk : keptParts r.uri r.past = [] ↔ NothingKept r := keptParts_eq_nil h.line.past
  constructor
  · intro ho
    refine ⟨?_, hk.mp ?_⟩
    · cases ha : answeredSince r.answered r.uri r.past with
      | false => rfl
      | true =>
        obtain ⟨value, hv, hans⟩ := hc.answer ha
        have hn := ho.authorization ⟨value, false⟩ (hv ▸ mem_cons_self)
        exact absurd hans (netrcValue_ne_answer hn)
    rcases (fieldParts_of_cookie hc.cookie).mp ho.cookie with hnone | heq
    · have hempty : fieldParts r.headers = [] := by
        simp [fieldParts, cookieText, MultiMap.get, hnone, cookieParts_nil]
      rw [hempty] at hp
      exact (append_eq_nil_iff.mp hp.symm).1
    · rw [heq] at hp
      exact append_left_eq_self.mp hp.symm
  · intro hf
    refine ⟨hc.chosen hf.unanswered, ?_, hc.proxy, hc.marked⟩
    apply (fieldParts_of_cookie hc.cookie).mpr
    right
    rw [hp, hk.mpr hf.kept, nil_append]

lemma guarded_of_sent [UrlParser] {request : Request} {start : Start} {events : List Event}
    {s : State} (hrun : run settings request start events = some s) {r : Sent} (hr : r ∈ s.sent) :
    Guarded settings (callerParts settings request start) r.place r.headers := by
  refine good_of_sent (carried_guarded settings _) ⟨cookieLine_initial settings request start, ?_⟩
    hrun hr
  intro hc
  cases hc

/-- The requests of a run that come after a change of the origin carry only the credentials that
netrc and the jar have for their own URLs exactly if no challenge was answered since then, and the
jar had selected nothing at an earlier hop since then. -/
theorem own_credentials_iff [UrlParser] {settings : Settings} {request : Request} {start : Start}
    {events : List Event} {s : State} (hrun : run settings request start events = some s) :
    (∀ r ∈ s.sent, crossed r.uri r.past = true → OwnCredentials settings r) ↔
      ∀ r ∈ s.sent, crossed r.uri r.past = true → NothingForeign r :=
  forall₃_congr fun _ hr hc => ownCredentials_iff (guarded_of_sent hrun hr) hc

def digestSettings : Settings := { digestAuth := some ⟨ascii "user", ascii "secret"⟩ }

def challenge : HeaderValue := ⟨ascii "Digest realm=\"r\", nonce=\"n\"", by decide⟩

/-- The first origin redirects to another one, which asks for credentials. -/
def challengedChain : List Event :=
  [bareSend, leaveOrigin, bareSend,
    .respond { status := 401, headers := ⟨[(Digest.wwwAuthenticate, challenge)]⟩, now := 0 }]

/-- The URLs of the requests of a run with their `Authorization` lines. -/
def sentAuthorizations (events : List Event) : Option (List (Bytes × List Bytes)) :=
  (@run .plain digestSettings secureRequest {} events).map fun s =>
    s.sent.map fun r =>
      (r.uri.display, (r.headers.getAll .authorization).map fun value => value.value.bytes)

theorem own_credentials_iff_redirected :
    ∃ s, @run .plain digestSettings secureRequest {}
        [bareSend, leaveOrigin, bareSend] = some s ∧
      s.sent.length = 2 ∧
      ((∀ r ∈ s.sent, crossed r.uri r.past = true → OwnCredentials digestSettings r) ↔
        ∀ r ∈ s.sent, crossed r.uri r.past = true → NothingForeign r) := by
  have hsen : sentAuthorizations [bareSend, leaveOrigin, bareSend] =
      some [(ascii "https://a.test/1", []), (ascii "https://b.test/", [])] := by decide
  obtain ⟨s, hs, hm⟩ := map_eq_some_iff.mp hsen
  refine ⟨s, hs, ?_, @own_credentials_iff .plain _ _ _ _ s hs⟩
  have hl := congrArg List.length hm
  simpa using hl

/-- The second origin is given an answer that is made from the credentials of the client. -/
theorem credentials_answer_foreign_origin :
    sentAuthorizations challengedChain =
        some [(ascii "https://a.test/1", []), (ascii "https://b.test/", []),
          (ascii "https://b.test/",
            [ascii "Digest username=\"user\", realm=\"r\", nonce=\"n\", uri=\"/\", " ++
              ascii "response=\"cc862b05fc7ff4c4e92a6707ec24db96\""])] ∧
      ∃ s, @run .plain digestSettings secureRequest {} challengedChain = some s ∧
        ¬∀ r ∈ s.sent, crossed r.uri r.past = true → OwnCredentials digestSettings r := by
  refine ⟨by decide +kernel, ?_⟩
  have hf : (@run .plain digestSettings secureRequest {} challengedChain).map
      (fun s => s.sent.any fun r =>
        crossed r.uri r.past && !(r.headers.getAll .authorization).isEmpty) = some true := by
    decide +kernel
  obtain ⟨s, hs, ha⟩ := map_eq_some_iff.mp hf
  refine ⟨s, hs, fun ho => ?_⟩
  obtain ⟨r, hr, hc⟩ := any_eq_true.mp ha
  simp only [and_eq_true, not_eq_true', isEmpty_eq_false_iff] at hc
  obtain ⟨value, hv⟩ := exists_mem_of_ne_nil _ hc.2
  have hn := (ho r hr hc.1).authorization value hv
  -- the client has no netrc
  cases hn

/-- What the loop writes or takes out itself. -/
def loopNames : List HeaderName := wireNames ++ credentialNames ++ [.referer]

lemma carried_field {name : HeaderName} {own : List MarkedValue} (hn : name ∉ loopNames)
    (hl : name ∉ settings.redirect.sensitiveHeaders) (hm : ∀ v ∈ own, v.sensitive = false) :
    Carried settings fun _ headers => headers.getAll name = own := by
  rw [loopNames, mem_append, mem_append] at hn
  push Not at hn
  obtain ⟨⟨hwire, hcred⟩, href⟩ := hn
  obtain ⟨ha, hc⟩ : name ∉ [HeaderName.authorization] ∧ name ∉ [HeaderName.cookie] := by
    simp_all [credentialNames]
  refine ⟨fun h hf => (hf.agreeOff name hwire).trans h,
    fun _ h => (agreeOff_netrcApply _ _ _ name ha).trans h,
    fun h _ => (agreeOff_addCookies _ _ name hc).trans h,
    fun h _ => (agreeOff_removeCookies _ _ name hc).trans h,
    fun h _ => (agreeOff_insert mem_cons_self _ _ name ha).trans h, ?_⟩
  intro uri past selected answered headers next h _
  refine (agreeOff_setReferer _ _ _ _ name href).trans ?_
  split
  · exact h
  · rw [getAll_dropCredentials_of_notMem hcred _ (h ▸ hm), if_neg hl, h]

/-- A field that the loop does not write itself is on every request of a call, over all redirects,
answers and replays, as on the first one, unless it is listed or marked as sensitive. -/
theorem caller_fields_kept [UrlParser] {request : Request} {start : Start} {events : List Event}
    {s : State} (hrun : run settings request start events = some s) {name : HeaderName}
    (hn : name ∉ loopNames) (hl : name ∉ settings.redirect.sensitiveHeaders)
    (hm : ∀ v ∈ (initial settings request start).headers.getAll name, v.sensitive = false) :
    ∀ r ∈ s.sent, r.headers.getAll name = (initial settings request start).headers.getAll name :=
  fun _ hr => good_of_sent (carried_field hn hl hm) rfl hrun hr

def agedRun : Option State :=
  @run .plain digestSettings
    { secureRequest with headers := ⟨[(.age, ⟨⟨ascii "q", by decide⟩, false⟩)]⟩ } {}
    [bareSend, leaveOrigin, bareSend]

theorem caller_fields_kept_redirected :
    ∃ s, agedRun = some s ∧ s.sent.length = 2 ∧
      ∀ r ∈ s.sent, r.headers.getAll .age = [⟨⟨ascii "q", by decide⟩, false⟩] := by
  obtain ⟨s, hs, hl⟩ :=
    map_eq_some_iff.mp (show agedRun.map (·.sent.length) = some 2 by decide)
  exact ⟨s, hs, hl,
    @caller_fields_kept _ .plain _ _ _ s hs .age (by decide) (by decide) (by decide)⟩

end Aioduct.Client
