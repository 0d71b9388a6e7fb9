import Aioduct.Cookies.Accepted

/-!
# What a jar holds and sends

A jar holds the latest accepted cookie of every key, unless that was a deletion.
-/

namespace Aioduct.Cookies

open Wire Http List Cookie CookieJar Keyed Assoc Prod

variable {d host : Bytes} {request : CookieRequest} {order : Entries}

/-- The jar's content after cookies have been stored, each with the host it came from. -/
def storeAll (history : List (Bytes × Cookie)) : Entries :=
  history.foldl (fun entries stored => storeCookie entries stored.1 stored.2) []

lemma nodup_keys_storeAll (history : List (Bytes × Cookie)) :
    (Assoc.keys (storeAll history)).Nodup := by
  induction history using List.reverseRecOn with
  | nil => exact nodup_nil
  | append_singleton history stored ih =>
    rw [storeAll, foldl_append]
    exact nodup_keys_replaceOrAppend ih _ _

variable {c : Cookie} {history : List (Bytes × Cookie)} {calls : List JarCall}

lemma cookiesOf_storeCookie (entries : Entries) (host : Bytes)
    (hd : c.domain = some d) (domain : Bytes) :
    cookiesOf (storeCookie entries host c) domain =
      if domain = d then apply key expired (cookiesOf entries d) c
      else cookiesOf entries domain := by
  unfold storeCookie
  rw [hd, Option.getD_some]
  split
  next heq =>
    rw [heq, cookiesOf, get_replaceOrAppend_self, Option.getD_some]
  next hne =>
    rw [cookiesOf, get_replaceOrAppend_of_ne _ hne, ← cookiesOf]

lemma cookiesOf_storeAll (hdom : ∀ stored ∈ history, stored.2.domain.isSome) (domain : Bytes) :
    cookiesOf (storeAll history) domain =
      ((history.map Prod.snd).filter fun c => c.key.2.1 = some domain).foldl
        (apply key expired) [] := by
  induction history using List.reverseRecOn with
  | nil => rfl
  | append_singleton history stored ih =>
    have hsome := hdom stored (by simp)
    obtain ⟨d, hd⟩ := Option.isSome_iff_exists.mp hsome
    have hp := ih fun s hs => hdom s (mem_append_left _ hs)
    rw [storeAll, foldl_append, foldl_cons, foldl_nil, ← storeAll,
      cookiesOf_storeCookie _ _ hd, map_append, filter_append, map_cons,
      map_nil, filter_cons, filter_nil]
    by_cases heq : domain = d
    · have hk : decide (stored.2.key.2.1 = some domain) := by simp [key, hd, heq]
      rw [if_pos heq, if_pos hk, foldl_append, ← hp, heq]
      rfl
    · have hk : ¬decide (stored.2.key.2.1 = some domain) := by
        simp [key, hd, Ne.symm heq]
      rw [if_neg heq, if_neg hk, append_nil, hp]

/-- The latest cookie of a key that was stored, with the host it came from. -/
def latestStored (history : List (Bytes × Cookie)) (key : Bytes × Option Bytes × Bytes) :
    Option (Bytes × Cookie) :=
  Keyed.latest (fun stored => stored.2.key) history key

lemma mem_cookiesOf_storeAll (hd : ∀ stored ∈ history, stored.2.domain.isSome)
    (domain : Bytes) (c : Cookie) :
    c ∈ cookiesOf (storeAll history) domain ↔
      c.domain = some domain ∧ c.expired = false ∧
        ∃ host, latestStored history c.key = some (host, c) := by
  rw [cookiesOf_storeAll hd, mem_foldl_apply]
  by_cases hkey : c.domain = some domain
  · have hf : latest key
        ((history.map snd).filter fun c => c.key.2.1 = some domain) c.key =
        latest key (history.map snd) c.key :=
      latest_filter (fun key : Bytes × Option Bytes × Bytes => decide (key.2.1 = some domain))
        _ (by simp [key, hkey])
    rw [hf, latest_map]
    constructor
    · rintro ⟨hl, hk⟩
      obtain ⟨⟨host, c'⟩, hs, rfl⟩ := Option.map_eq_some_iff.mp hl
      exact ⟨hkey, hk, host, hs⟩
    · rintro ⟨-, hk, host, hs⟩
      exact ⟨Option.map_eq_some_iff.mpr ⟨(host, c), hs, rfl⟩, hk⟩
  constructor
  · rintro ⟨hl, -⟩
    have hm := (mem_filter.mp (mem_of_latest hl)).2
    exact absurd (of_decide_eq_true hm) hkey
  · rintro ⟨hsam, -⟩
    exact absurd hsam hkey

lemma cookies_of_mem_storeAll {entry : Bytes × List Cookie} (h : entry ∈ storeAll history) :
    entry.2 = cookiesOf (storeAll history) entry.1 := by
  have hg : get (storeAll history) entry.1 = some entry.2 :=
    get_of_mem (nodup_keys_storeAll history) h
  rw [cookiesOf, hg, Option.getD_some]

lemma nodup_key_storeAll (hd : ∀ stored ∈ history, stored.2.domain.isSome) :
    (((storeAll history).flatMap Prod.snd).map key).Nodup := by
  rw [map_flatMap, nodup_flatMap]
  constructor
  · intro entry he
    rw [cookies_of_mem_storeAll he, cookiesOf_storeAll hd]
    exact nodup_foldl_apply _
  -- the domain is part of the key, and it differs between entries
  have hk : (storeAll history).Pairwise fun a b => a.1 ≠ b.1 := by
    have hnodup := nodup_keys_storeAll history
    exact pairwise_map.mp hnodup
  apply hk.imp_of_mem
  intro a b ha hb hne key hkey hke
  obtain ⟨c, hc, rfl⟩ := mem_map.mp hkey
  obtain ⟨c', hc', heq⟩ := mem_map.mp hke
  rw [cookies_of_mem_storeAll ha, mem_cookiesOf_storeAll hd] at hc
  rw [cookies_of_mem_storeAll hb, mem_cookiesOf_storeAll hd] at hc'
  have hs : c'.domain = c.domain := congrArg (fun key => key.2.1) heq
  rw [hc.1, hc'.1] at hs
  exact hne (Option.some.inj hs).symm

/-! ### The history of a run -/

def acceptedLines (now : SystemTime) (domain path : Bytes) (values : List HeaderValue) :
    List (Bytes × Cookie) :=
  values.filterMap fun value =>
    match value.toStr with
    | none => none
    | some line =>
      match parseSetCookie now line domain path with
      | .ok cookie => some (domain, cookie)
      | .error _ => none

def JarCall.accepted : JarCall → List (Bytes × Cookie)
  | .storeFromResponse now domain path headers =>
    acceptedLines now domain path (headers.getAll .setCookie)
  | .applyToRequest _ _ _ => []

/-- All accepted cookies of a run, in order, with the hosts they came from. -/
def accepted (calls : List JarCall) : List (Bytes × Cookie) := calls.flatMap JarCall.accepted

def latestAccepted (calls : List JarCall) (key : Bytes × Option Bytes × Bytes) :
    Option (Bytes × Cookie) :=
  latestStored (accepted calls) key

def JarCall.Overflows : JarCall → Prop
  | .storeFromResponse now domain _ headers =>
    ∃ value ∈ headers.getAll .setCookie, ∃ line, value.toStr = some line ∧
      LineOverflows now domain line
  | .applyToRequest _ _ _ => False

def ValueOverflows (now : SystemTime) (domain : Bytes) (value : HeaderValue) : Prop :=
  ∃ line, value.toStr = some line ∧ LineOverflows now domain line

variable (now : SystemTime) (domain path : Bytes)

lemma storeLine_cases (entries : Entries) (value : HeaderValue) :
    (acceptedLines now domain path [value] = [] ∧ ¬ValueOverflows now domain value ∧
      storeLine now domain path ⟨entries, false⟩ value = ⟨entries, false⟩) ∨
    (∃ cookie, acceptedLines now domain path [value] = [(domain, cookie)] ∧
      ¬ValueOverflows now domain value ∧
      storeLine now domain path ⟨entries, false⟩ value =
        ⟨storeCookie entries domain cookie, false⟩) ∨
    (acceptedLines now domain path [value] = [] ∧ ValueOverflows now domain value ∧
      storeLine now domain path ⟨entries, false⟩ value = ⟨entries, true⟩) := by
  cases hl : value.toStr with
  | none =>
    exact .inl (by simp [acceptedLines, ValueOverflows, storeLine, hl])
  | some line =>
    have ho : ValueOverflows now domain value ↔
        parseSetCookie now line domain path = .error .overflow := by
      simp [ValueOverflows, hl, parseSetCookie_eq_overflow]
    rw [ho]
    cases hp : parseSetCookie now line domain path with
    | ok cookie =>
      exact .inr (.inl ⟨cookie, by simp [acceptedLines, storeLine, hl, hp]⟩)
    | error failure =>
      cases failure with
      | refused => exact .inl (by simp [acceptedLines, storeLine, hl, hp])
      | overflow =>
        exact .inr (.inr (by simp [acceptedLines, storeLine, hl, hp]))

/-- What becomes of a jar that is not poisoned: all accepted cookies are stored, unless an overflow
ends this. -/
def Stores (history : List (Bytes × Cookie)) (after : CookieJar) (accepted : List (Bytes × Cookie))
    (overflows : Prop) : Prop :=
  ∃ stored, stored <+: accepted ∧
    ∃ poisoned, after = ⟨storeAll (history ++ stored), poisoned⟩ ∧
      (poisoned = true ↔ overflows) ∧ (poisoned = false → stored = accepted)

lemma stores_foldl {α : Type} {step : CookieJar → α → CookieJar}
    {accepted : α → List (Bytes × Cookie)} {overflows : α → Prop}
    (hp : ∀ entries a, step ⟨entries, true⟩ a = ⟨entries, true⟩)
    (hs : ∀ history a,
      Stores history (step ⟨storeAll history, false⟩ a) (accepted a) (overflows a))
    (as : List α) (history : List (Bytes × Cookie)) :
    Stores history (as.foldl step ⟨storeAll history, false⟩) (as.flatMap accepted)
      (∃ a ∈ as, overflows a) := by
  induction as using List.reverseRecOn with
  | nil => exact ⟨[], prefix_rfl, false, by simp, by simp, fun _ => rfl⟩
  | append_singleton as a ih =>
    obtain ⟨stored, hf, poisoned, hfol, hi, hall⟩ := ih
    rw [foldl_append, foldl_cons, foldl_nil, hfol, flatMap_append, flatMap_singleton]
    cases poisoned with
    | true =>
      obtain ⟨earlier, hmem, ho⟩ := hi.mp rfl
      exact ⟨stored, hf.trans (prefix_append _ _), true, hp _ a,
        iff_of_true rfl ⟨earlier, mem_append_left _ hmem, ho⟩, by simp⟩
    | false =>
      obtain rfl := hall rfl
      have hfit : ¬∃ a ∈ as, overflows a := fun h => absurd (hi.mpr h) (by simp)
      obtain ⟨more, hm, poisoned, hl, ho, hr⟩ :=
        hs (history ++ as.flatMap accepted) a
      refine ⟨as.flatMap accepted ++ more, (prefix_append_right_inj _).mpr hm, poisoned, ?_,
        ?_, fun h => by rw [hr h]⟩
      · rw [hl, append_assoc]
      rw [ho]
      constructor
      · intro h
        exact ⟨a, by simp, h⟩
      rintro ⟨earlier, hmem, h⟩
      rcases mem_append.mp hmem with hmem | hmem
      · exact absurd ⟨earlier, hmem, h⟩ hfit
      · rwa [mem_singleton.mp hmem] at h

/-- What the lines of a response do to a jar that is not poisoned. -/
lemma foldl_storeLine (values : List HeaderValue) (history : List (Bytes × Cookie)) :
    Stores history (values.foldl (storeLine now domain path) ⟨storeAll history, false⟩)
      (acceptedLines now domain path values) (∃ value ∈ values, ValueOverflows now domain value) := by
  have hlin : acceptedLines now domain path values =
      values.flatMap fun value => acceptedLines now domain path [value] := by
    induction values with
    | nil => rfl
    | cons value values ih =>
      rw [flatMap_cons, ← ih]
      exact filterMap_append (l := [value])
  rw [hlin]
  refine stores_foldl (fun _ _ => rfl) (fun history value => ?_) values history
  rcases storeLine_cases now domain path (storeAll history) value with
    ⟨hnone, hf, hl⟩ | ⟨cookie, hc, hf, hl⟩ | ⟨hnone, ho, hl⟩
  · exact ⟨[], nil_prefix, false, by simp [hl], by simp [hf], fun _ => hnone.symm⟩
  · refine ⟨[(domain, cookie)], by simp [hc], false, ?_, by simp [hf], fun _ => hc.symm⟩
    rw [hl, storeAll, storeAll, foldl_append]
    rfl
  · exact ⟨[], nil_prefix, true, by simp [hl], by simp [ho], by simp⟩

lemma call_of_poisoned {jar : CookieJar} (h : jar.poisoned) (call : JarCall) :
    jar.call call = jar := by
  cases call with
  | storeFromResponse now domain path headers =>
    exact foldl_fixed' (f := storeLine now domain path) (fun _ => if_pos h) _
  | applyToRequest order request headers => rfl

lemma run_eq (calls : List JarCall) :
    ∃ stored, stored <+: accepted calls ∧
      ∃ poisoned, run calls = ⟨storeAll stored, poisoned⟩ ∧
      (poisoned ↔ ∃ call ∈ calls, call.Overflows) ∧
      (poisoned = false → stored = accepted calls) := by
  refine stores_foldl (fun _ => call_of_poisoned rfl) (fun history call => ?_) calls []
  cases call with
  | storeFromResponse now domain path headers =>
    exact foldl_storeLine now domain path (headers.getAll .setCookie) history
  | applyToRequest order request headers =>
    exact ⟨[], nil_prefix, false, by rw [append_nil]; rfl, by simp [JarCall.Overflows],
      fun _ => rfl⟩

lemma mem_accepted (h : (host, c) ∈ accepted calls) :
    ∃ value : HeaderValue, ∃ line, value.toStr = some line ∧ Accepted host line c := by
  obtain ⟨call, -, hm⟩ := mem_flatMap.mp h
  cases call with
  | storeFromResponse now domain path headers =>
    obtain ⟨value, -, hv⟩ := mem_filterMap.mp hm
    cases hl : value.toStr with
    | none =>
      rw [hl] at hv
      cases hv
    | some line =>
      rw [hl] at hv
      dsimp only at hv
      split at hv
      next cookie hp =>
        cases hv
        exact ⟨value, line, hl, accepted_of_parseSetCookie hp⟩
      · cases hv
  | applyToRequest order request headers => cases hm

lemma domain_isSome_of_accepted {stored : Bytes × Cookie} (h : stored ∈ accepted calls) :
    stored.2.domain.isSome := by
  obtain ⟨value, line, -, ha⟩ := mem_accepted h
  rcases ha.domain with ⟨-, hd⟩ | ⟨-, d, hd, -⟩
  · simp [hd]
  · simp [hd]

/-- A cookie from `host` belongs to a request: it is no deletion, it was set for the requested
host, and path, time, scheme and site fit. -/
structure Sendable (request : CookieRequest) (host : Bytes) (c : Cookie) : Prop where
  kept : c.expired = false
  domain : (c.hostOnly = true ∧ request.domain = host) ∨
    (c.hostOnly = false ∧
      ∃ d, c.domain = some d ∧ DomainMatch host d ∧ DomainMatch request.domain d)
  path : PathMatch request.path c.path
  unexpired : ∀ time ∈ c.expiresAt, request.now < time
  secure : c.secure = true → request.isSecure = true
  site : request.isCrossSite = true → c.sameSite = some .none

lemma selects_iff {line stored : Bytes} (ha : Accepted host line c) :
    (c.expired = false ∧ request.selects stored c) ↔ Sendable request host c := by
  have hdom : (if c.hostOnly then request.domain == c.domain.getD stored
      else domainMatches request.domain (c.domain.getD stored)) ↔
      (c.hostOnly ∧ request.domain = host) ∨ (c.hostOnly = false ∧
        ∃ d, c.domain = some d ∧ DomainMatch host d ∧ DomainMatch request.domain d) := by
    rcases ha.domain with ⟨ho, hd⟩ | ⟨ho, d, hd, hm⟩
    · simp [ho, hd]
    · simp [ho, hd, domainMatches_iff, hm]
  unfold CookieRequest.selects
  simp only [Bool.and_eq_true, hdom, pathMatches_iff, Bool.or_eq_true, Bool.not_eq_true',
    beq_iff_eq, Option.all_eq_true, decide_eq_true_eq]
  constructor
  · rintro ⟨hk, ⟨⟨⟨hd, hs⟩, hp⟩, ht⟩, hsit⟩
    refine ⟨hk, hd, hp, ht, fun h => ?_, fun h => ?_⟩
    · exact hs.resolve_left (by simp [h])
    · exact hsit.resolve_left (by simp [h])
  intro h
  refine ⟨h.kept, ⟨⟨⟨h.domain, ?_⟩, h.path⟩, h.unexpired⟩, ?_⟩
  · cases hs : c.secure with
    | false => exact Or.inl rfl
    | true => exact Or.inr (h.secure hs)
  · cases hsit : request.isCrossSite with
    | false => exact Or.inl rfl
    | true => exact Or.inr (h.site hsit)

lemma mem_select (ho : order.Perm (storeAll (accepted calls))) : c ∈ request.select order ↔
      ∃ host, latestAccepted calls c.key = some (host, c) ∧ Sendable request host c := by
  have hdom : ∀ stored ∈ accepted calls, stored.2.domain.isSome :=
    fun _ => domain_isSome_of_accepted
  unfold CookieRequest.select
  rw [mem_flatMap]
  constructor
  · rintro ⟨entry, he, hc⟩
    obtain ⟨hh, hs⟩ := mem_filter.mp hc
    rw [cookies_of_mem_storeAll (ho.mem_iff.mp he), mem_cookiesOf_storeAll hdom] at hh
    obtain ⟨-, hk, host, hl⟩ := hh
    obtain ⟨value, line, -, ha⟩ := mem_accepted (mem_of_latest hl)
    exact ⟨host, hl, (selects_iff ha).mp ⟨hk, hs⟩⟩
  rintro ⟨host, hl, hsen⟩
  obtain ⟨value, line, -, ha⟩ := mem_accepted (mem_of_latest hl)
  obtain ⟨d, hd⟩ := Option.isSome_iff_exists.mp (hdom _ (mem_of_latest hl))
  have hh : c ∈ cookiesOf (storeAll (accepted calls)) d :=
    (mem_cookiesOf_storeAll hdom d c).mpr ⟨hd, hsen.kept, host, hl⟩
  -- a cookie of a domain is in the entry of that domain
  cases hg : get (storeAll (accepted calls)) d with
  | none =>
    rw [cookiesOf, hg] at hh
    cases hh
  | some cookies =>
    rw [cookiesOf, hg, Option.getD_some] at hh
    exact ⟨(d, cookies), ho.mem_iff.mpr (mem_of_get hg),
      mem_filter.mpr ⟨hh, ((selects_iff ha).mpr hsen).2⟩⟩

lemma nodup_select (ho : order.Perm (storeAll (accepted calls)))
    (request : CookieRequest) : ((request.select order).map key).Nodup := by
  have hall : ((order.flatMap snd).map key).Nodup :=
    ((ho.flatMap_right snd).map key).nodup_iff.mpr
      (nodup_key_storeAll fun _ => domain_isSome_of_accepted)
  have hs : (request.select order).Sublist (order.flatMap snd) := by
    clear hall ho
    induction order with
    | nil => exact List.Sublist.refl _
    | cons entry order ih =>
      exact filter_sublist.append ih
  exact hall.sublist (hs.map key)

lemma cookieHeader_valid {cookies : List Cookie}
    (h : ∀ c ∈ cookies, ∃ host line, ∃ value : HeaderValue, value.toStr = some line ∧
      Accepted host line c) :
    ∃ value, HeaderValue.fromStr (cookieHeader cookies) = some value ∧
      value.bytes = cookieHeader cookies := by
  have hs : (ascii "; ").all isValueByte := by decide
  have he : (ascii "=").all isValueByte := by decide
  have hv : (cookieHeader cookies).all isValueByte := by
    rw [all_eq_true]
    intro b hb
    rcases mem_intercalate hb with hb | ⟨pair, hp, hb⟩
    · exact all_eq_true.mp hs b hb
    obtain ⟨c, hc, rfl⟩ := mem_map.mp hp
    obtain ⟨host, line, value, hl, ha⟩ := h c hc
    have hval : ∀ b ∈ line, isValueByte b := by
      rw [HeaderValue.toStr_eq_some hl]
      exact all_eq_true.mp value.valid
    rw [pair, mem_append, mem_append] at hb
    rcases hb with (hb | hb) | hb
    · exact hval b (ha.name_text b hb)
    · exact all_eq_true.mp he b hb
    · exact hval b (ha.value_text b hb)
  refine ⟨⟨cookieHeader cookies, hv⟩, ?_, rfl⟩
  exact dif_pos hv

/-- What isolates the cookies of a run from each other and from foreign hosts. -/
structure Isolated (calls : List JarCall) (order : Entries) (request : CookieRequest) : Prop where
  /-- No two cookies have one key. -/
  unique : ((run calls).cookies.map Cookie.key).Nodup
  /-- What is sent is the latest cookie of its key and belongs to the request. -/
  sound : ∀ c ∈ (run calls).matchingCookies order request, ∃ host,
    latestAccepted calls c.key = some (host, c) ∧ Sendable request host c
  /-- Unless a line has overflowed, everything that belongs to the request is sent once. -/
  complete : (¬∃ call ∈ calls, call.Overflows) → ∀ host c,
    latestAccepted calls c.key = some (host, c) → Sendable request host c →
      ((run calls).matchingCookies order request).count c = 1
  /-- After an overflow nothing is sent. -/
  silent : (∃ call ∈ calls, call.Overflows) → (run calls).matchingCookies order request = []
  /-- The pairs of the `Cookie` line are the selected ones. -/
  text : ((run calls).contribution order request).map HeaderValue.bytes =
    if ((run calls).matchingCookies order request).isEmpty then none
    else some (cookieHeader ((run calls).matchingCookies order request))

/-- The map is walked in some order; whatever it is, cookies do not leave their hosts. -/
theorem jar_isolation (calls : List JarCall) (order : Entries) (request : CookieRequest)
    (horder : order.Perm (run calls).entries) : Isolated calls order request := by
  obtain ⟨stored, hf, poisoned, hr, hi, hall⟩ := run_eq calls
  have hu : ((run calls).cookies.map key).Nodup := by
    rw [hr]
    exact nodup_key_storeAll fun _ hm => domain_isSome_of_accepted (hf.subset hm)
  rw [hr] at horder
  cases poisoned with
  | true =>
    have hnone : (run calls).matchingCookies order request = [] := by
      rw [hr]
      rfl
    refine ⟨hu, by simp [hnone], fun h => absurd (hi.mp rfl) h, fun _ => hnone, ?_⟩
    simp [contribution, hnone]
  | false =>
    obtain rfl := hall rfl
    have hs : (run calls).matchingCookies order request = request.select order := by
      rw [hr]
      rfl
    have hsou : ∀ c, c ∈ request.select order ↔ ∃ host,
        latestAccepted calls c.key = some (host, c) ∧ Sendable request host c :=
      fun _ => mem_select horder
    have ho := nodup_select horder request
    refine ⟨hu, fun c hc => ?_, fun _ host c hl hsen => ?_,
      fun h => absurd (hi.mpr h) (by simp), ?_⟩
    · rw [hs] at hc
      exact (hsou c).mp hc
    · rw [hs, count_eq_one_of_mem (ho.of_map _) ((hsou c).mpr ⟨host, hl, hsen⟩)]
    obtain ⟨value, hv, hb⟩ := cookieHeader_valid fun c hc => by
      obtain ⟨host, hl, -⟩ := (hsou c).mp hc
      obtain ⟨value, line, hlin, ha⟩ := mem_accepted (mem_of_latest hl)
      exact ⟨host, line, value, hlin, ha⟩
    rw [contribution, hs]
    split
    · rfl
    · rw [hv, Option.map_some, hb]

/-! ### Two runs -/

def sampleTime : SystemTime := 1700000000 * 10 ^ 9

def responseWith (line : String) (h : (ascii line).all isValueByte = true) : HeaderMap :=
  ⟨[(.setCookie, ⟨ascii line, h⟩)]⟩

def sampleCall : JarCall :=
  .storeFromResponse sampleTime (ascii "example.com") (ascii "/")
    (responseWith "a=1; Path=/" (by decide))

def overflowingCall : JarCall :=
  .storeFromResponse sampleTime (ascii "evil.test") (ascii "/")
    (responseWith "b=2; Max-Age=9223372036854775807" (by decide))

def sampleCookie : Cookie where
  name := ascii "a"
  value := ascii "1"
  domain := some (ascii "example.com")
  path := ascii "/"
  secure := false
  httpOnly := false
  sameSite := none
  expired := false
  expiresAt := none
  hostOnly := true

def sampleEntries : Entries := [(ascii "example.com", [sampleCookie])]

def sampleRequest : CookieRequest where
  now := sampleTime
  domain := ascii "example.com"
  isSecure := false
  path := ascii "/index"
  siteForCookies := none

lemma sendable_sample : Sendable sampleRequest (ascii "example.com") sampleCookie where
  kept := rfl
  domain := Or.inl ⟨rfl, rfl⟩
  path := Or.inr ⟨ascii "index", rfl, Or.inl (by decide)⟩
  unexpired := by simp [sampleCookie]
  secure := by simp [sampleCookie]
  site := by simp [sampleRequest, CookieRequest.isCrossSite]

/-- The cookie of the first response is sent back to its host. -/
theorem jar_isolation_sample :
    (run [sampleCall]).matchingCookies sampleEntries sampleRequest = [sampleCookie] ∧
      Isolated [sampleCall] sampleEntries sampleRequest := by
  have he : (run [sampleCall]).entries = sampleEntries := by decide
  exact ⟨by decide, jar_isolation _ _ _ (he ▸ List.Perm.refl _)⟩

/-- After the second response the cookie is still stored and belongs to the request, and is not
sent. -/
theorem poisoned_jar_sends_nothing :
    latestAccepted [sampleCall, overflowingCall] sampleCookie.key =
        some (ascii "example.com", sampleCookie) ∧
      Sendable sampleRequest (ascii "example.com") sampleCookie ∧
      (run [sampleCall, overflowingCall]).entries = sampleEntries ∧
      (run [sampleCall, overflowingCall]).matchingCookies sampleEntries sampleRequest = [] := by
  exact ⟨by decide, sendable_sample, by decide, by decide⟩

end Aioduct.Cookies
