import Aioduct.Cookies.Isolation

/-!
# What a line says

The lifetime and the path of a cookie as the attributes of its line give them, and the spelling of
hosts.
-/

namespace Aioduct.Cookies

open Wire Http List Option CookieJar Lifetime CookieRequest

variable {state : Attributes} {ends time : Option SystemTime} {default host' domain : Bytes}

def attributes (line : Bytes) : List Attribute := (line.splitOn (byte ';')).tail.map readAttribute

variable {now : SystemTime} {line host path : Bytes} {c : Cookie}

lemma foldl_attributes {γ δ : Type} {g : Attributes → γ} {get : Attribute → Option δ}
    (step : γ → δ → γ)
    (h : (line.splitOn (byte ';')).tail.foldlM (applyAttribute now host) {} = .ok state)
    (hg : ∀ attr state state', Reads now host attr state state' →
      g state' = (get attr).elim (g state) (step (g state))) :
    g state = ((attributes line).filterMap get).foldl step (g {}) := by
  rw [attributes, filterMap_map]
  exact except_foldlM_observe (fun _ _ _ hs => hg _ _ _ (reads_of_applyAttribute hs)) h

/-- A variable that an attribute overwrites holds its last value. -/
lemma last_attribute {g : Attributes → Option Bytes} {get : Attribute → Option Bytes}
    (hnone : g {} = none)
    (h : (line.splitOn (byte ';')).tail.foldlM (applyAttribute now host) {} = .ok state)
    (hg : ∀ attr state state', Reads now host attr state state' →
      g state' = (get attr).elim (g state) some) :
    g state = ((attributes line).filterMap get).getLast? := by
  rw [foldl_attributes (fun _ value => some value) h hg, hnone]
  induction (attributes line).filterMap get using reverseRecOn with
  | nil => rfl
  | append_singleton l value _ => simp

def lifetimes (now : SystemTime) (line : Bytes) : List Lifetime :=
  (attributes line).filterMap (Attribute.lifetime now)

variable (l : List Lifetime)

def maxAges : List (Option SystemTime) :=
  l.filterMap fun | .maxAge ends => some ends | .expires _ => none

def expiries : List (Option SystemTime) :=
  l.filterMap fun | .maxAge _ => none | .expires ends => some ends

def verdict : Bool × Option SystemTime → Option (Option SystemTime)
  | (true, _) => some none
  | (false, time) => time.map some

/-- When a cookie ends, if it does; a cookie that has expired is deleted at once. -/
def Cookie.expiry (c : Cookie) : Option (Option SystemTime) := verdict (c.expired, c.expiresAt)

lemma mem_maxAges {l : List Lifetime} : ends ∈ maxAges l ↔ .maxAge ends ∈ l := by
  unfold maxAges
  rw [mem_filterMap]
  constructor
  · rintro ⟨lifetime, hm, h⟩
    cases lifetime with
    | maxAge _ =>
      cases h
      exact hm
    | expires _ => cases h
  · exact fun hm => ⟨_, hm, rfl⟩

/-- Once a lifetime has been read only `Max-Age` counts, and a deletion stays. -/
lemma verdict_foldl_extend {expired : Bool}
    (h : ¬(time.isNone && !expired)) (l : List Lifetime) :
    verdict (l.foldl Lifetime.extend (expired, time)) =
      if expired ∨ .maxAge none ∈ l then some none
      else (maxAges l).getLast?.or (time.map some) := by
  induction l generalizing expired time with
  | nil => cases expired <;> simp [verdict, maxAges]
  | cons lifetime l ih =>
    rw [foldl_cons]
    cases lifetime with
    | maxAge ends =>
      cases ends with
      | none =>
        rw [extend, ih (by simp)]
        simp
      | some time =>
        rw [extend, ih (by simp)]
        simp [maxAges, getLast?_cons]
    | expires ends =>
      rw [extend_expires h, ih h]
      simp [maxAges]

lemma verdict_foldl :
    verdict (l.foldl Lifetime.extend (false, none)) =
      if .maxAge none ∈ l ∨ l.head? = some (.expires none) then some none
      else (maxAges l).getLast?.or (expiries l).head? := by
  cases l with
  | nil => rfl
  | cons lifetime l =>
    rw [foldl_cons]
    rcases lifetime with (- | time) | (- | time) <;>
      rw [extend, verdict_foldl_extend (by simp)] <;>
      simp [maxAges, expiries, getLast?_cons]

/-- The lifetimes of a line say one thing: before a `Max-Age` that keeps the cookie nothing deletes
it, and without `Max-Age` the first date is the last. -/
structure LastDecides (l : List Lifetime) : Prop where
  kept : ∀ ends, (maxAges l).getLast? = some (some ends) →
    .maxAge none ∉ l ∧ l.head? ≠ some (.expires none)
  dates : maxAges l = [] → (expiries l).head? = (expiries l).getLast?

lemma expiry_of_parseSetCookie (h : parseSetCookie now line host path = .ok c) :
    c.expiry = (maxAges (lifetimes now line)).getLast?.or (expiries (lifetimes now line)).getLast? ↔
      LastDecides (lifetimes now line) := by
  obtain ⟨name, value, state, -, hs, rfl, -⟩ := parseSetCookie_eq_ok h
  have hlif := foldl_attributes (g := fun state => (state.expired, state.expiresAt)) _ hs
    fun _ _ _ hr => hr.lifetime
  change verdict (state.expired, state.expiresAt) = _ ↔ _
  rw [hlif]
  change verdict ((lifetimes now line).foldl _ _) = _ ↔ _
  generalize lifetimes now line = l
  rw [verdict_foldl]
  rcases hl : (maxAges l).getLast? with - | - | ends
  · have hnil := getLast?_eq_none_iff.mp hl
    have hnone : .maxAge none ∉ l := by
      rw [← mem_maxAges, hnil]
      exact not_mem_nil
    have hf : (if .maxAge none ∈ l ∨ l.head? = some (.expires none) then some none
        else none.or (expiries l).head?) = (expiries l).head? := by
      rcases l with - | ⟨ends | (- | time), l⟩
      · rfl
      · cases hnil
      · simp [expiries]
      · simpa [expiries] using hnone
    rw [hf, none_or]
    exact ⟨fun heq => ⟨fun ends he => by simp [hl] at he, fun _ => heq⟩, fun h => h.dates hnil⟩
  · rw [if_pos (.inl (mem_maxAges.mp (mem_of_getLast? hl)))]
    exact iff_of_true rfl ⟨fun ends he => by simp [hl] at he, fun hnil => by simp [hnil] at hl⟩
  · split
    next hd =>
      refine iff_of_false (by simp) fun h => ?_
      obtain ⟨hnone, hh⟩ := h.kept ends hl
      exact hd.elim hnone hh
    next hk =>
      exact iff_of_true rfl ⟨fun _ _ => not_or.mp hk, fun hnil => by simp [hnil] at hl⟩

/-- Of a line that is not refused the last `Max-Age` that can be read decides, else the last date,
exactly if no attribute overflows and the lifetimes of the line say one thing. -/
theorem expiry_eq_last_iff (hline : parseSetCookie now line host path ≠ .error .refused) :
    (∃ c, parseSetCookie now line host path = .ok c ∧ c.expiry =
        (maxAges (lifetimes now line)).getLast?.or (expiries (lifetimes now line)).getLast?) ↔
      ¬LineOverflows now host line ∧ LastDecides (lifetimes now line) := by
  have ho : parseSetCookie now line host path = .error .overflow ↔ LineOverflows now host line :=
    parseSetCookie_eq_overflow
  rw [← ho]
  cases hp : parseSetCookie now line host path with
  | error failure =>
    cases failure with
    | refused => exact absurd hp hline
    | overflow => simp
  | ok c => simp [expiry_of_parseSetCookie hp]

def maxAgeThenPast : Bytes := ascii "a=1; Max-Age=60; Expires=Thu, 01 Jan 1970 00:00:00 GMT"

theorem expiry_eq_last_sample :
    maxAges (lifetimes sampleTime maxAgeThenPast) = [some (sampleTime + 60 * 10 ^ 9)] ∧
      ¬LineOverflows sampleTime (ascii "example.com") maxAgeThenPast ∧
      LastDecides (lifetimes sampleTime maxAgeThenPast) := by
  have hline : parseSetCookie sampleTime maxAgeThenPast (ascii "example.com") (ascii "/") ≠
      .error .refused := by decide
  exact ⟨by decide, (expiry_eq_last_iff hline).mp
    ⟨{ sampleCookie with expiresAt := some (sampleTime + 60 * 10 ^ 9) }, by decide, by decide⟩⟩

def pastThenMaxAge : Bytes := ascii "a=1; Expires=Thu, 01 Jan 1970 00:00:00 GMT; Max-Age=60"

/-- A date in the past deletes the cookie although `Max-Age` comes after it. -/
theorem past_date_outlives_maxAge :
    (parseSetCookie sampleTime pastThenMaxAge (ascii "example.com") (ascii "/")).map
        Cookie.expiry = .ok (some none) ∧
      (maxAges (lifetimes sampleTime pastThenMaxAge)).getLast? =
        some (some (sampleTime + 60 * 10 ^ 9)) := by decide

/-- The default path of RFC 6265: the path up to its last slash, or a slash. -/
def DefaultPath (path default : Bytes) : Prop :=
  (default = ascii "/" ∧ (path.head? ≠ some (byte '/') ∨ byte '/' ∉ path.tail)) ∨
    (path.head? = some (byte '/') ∧ default ≠ [] ∧
      ∃ last, byte '/' ∉ last ∧ path = default ++ byte '/' :: last)

lemma defaultPath_defaultCookiePath (path : Bytes) : DefaultPath path (defaultCookiePath path) := by
  unfold defaultCookiePath
  split
  next hh =>
    exact .inl ⟨rfl, .inl hh⟩
  rename_i hh
  rw [not_not] at hh
  have hne : path.rdropWhile (· != byte '/') ≠ [] := by
    intro hnil
    simpa using rdropWhile_eq_nil_iff.mp hnil _ (mem_of_mem_head? hh)
  obtain ⟨front, slash, hf⟩ := (eq_nil_or_concat _).resolve_left hne
  rw [concat_eq_append] at hf
  have hs : slash = byte '/' := by
    have hl := rdropWhile_last_not _ _ hne
    simpa [hf] using hl
  have hl : byte '/' ∉ path.rtakeWhile (· != byte '/') := fun hm => by
    simpa using mem_rtakeWhile_imp hm
  have hp : path.rdropWhile (· != byte '/') ++ path.rtakeWhile (· != byte '/') = path :=
    rdropWhile_append_rtakeWhile
  rw [hf, hs, append_assoc] at hp
  rw [hf, dropLast_concat]
  cases front with
  | nil =>
    exact .inl ⟨rfl, .inr (by rwa [← hp])⟩
  | cons b front => exact .inr ⟨hh, cons_ne_nil _ _, _, hl, hp.symm⟩

lemma DefaultPath.head (h : DefaultPath path default) : default.head? = some (byte '/') := by
  rcases h with ⟨rfl, -⟩ | ⟨hh, hne, last, -, rfl⟩
  · rfl
  · rwa [head?_append_of_ne_nil _ hne] at hh

lemma DefaultPath.pathMatches_iff (h : DefaultPath path default) :
    pathMatches path default ↔ path.head? = some (byte '/') := by
  rw [Cookies.pathMatches_iff]
  constructor
  · rintro (rfl | ⟨rest, rfl, -⟩)
    · exact h.head
    · simp [h.head]
  intro hh
  rcases h with ⟨rfl, -⟩ | ⟨-, -, last, -, hp⟩
  · obtain ⟨rest, rfl⟩ := head?_eq_some_iff.mp hh
    exact .inr ⟨rest, rfl, .inl rfl⟩
  · exact .inr ⟨_, hp, .inr rfl⟩

def pathAttribute (line : Bytes) : Option Bytes :=
  ((attributes line).filterMap Attribute.pathValue).getLast?

def usablePath (line : Bytes) : Option Bytes :=
  (pathAttribute line).filter fun value => value.head? = some (byte '/')

/-- A stored path begins with a slash, is the usable `Path` or the default path, and brings the
cookie back to where it was set, exactly if the `Path` of the line, or without one the path of the
request, begins with a slash. -/
theorem stored_path_iff (h : parseSetCookie now line host path = .ok c) :
    (c.path.head? = some (byte '/') ∧
      (∃ default, DefaultPath path default ∧ c.path = (usablePath line).getD default) ∧
      (usablePath line = none → pathMatches path c.path = true)) ↔
      ((pathAttribute line).getD path).head? = some (byte '/') := by
  obtain ⟨name, value, state, -, hs, rfl, -⟩ := parseSetCookie_eq_ok h
  have hp : state.path = pathAttribute line :=
    last_attribute rfl hs fun _ _ _ hr => hr.path
  have hd := defaultPath_defaultCookiePath path
  change (state.path.getD _).head? = _ ∧ (∃ default, _ ∧ state.path.getD _ = _) ∧
    (_ → pathMatches path (state.path.getD _) = true) ↔ _
  rw [hp, usablePath]
  cases pathAttribute line with
  | none =>
    simp only [getD_none, filter_none, hd.pathMatches_iff]
    exact ⟨fun h => h.2.2 trivial, fun h => ⟨hd.head, ⟨_, hd, rfl⟩, fun _ => h⟩⟩
  | some value =>
    by_cases hv : value.head? = some (byte '/')
    · simp [filter_some, hv]
      exact ⟨_, hd⟩
    · exact iff_of_false (fun h => hv h.1) hv

theorem stored_path_sample :
    parseSetCookie sampleTime (ascii "a=1; Path=/") (ascii "example.com") (ascii "/") =
        .ok sampleCookie ∧ sampleCookie.path.head? = some (byte '/') := by
  have hp : parseSetCookie sampleTime (ascii "a=1; Path=/") (ascii "example.com")
      (ascii "/") = .ok sampleCookie := by decide
  exact ⟨hp, ((stored_path_iff hp).mpr (by decide)).1⟩

/-- A `Path` that does not begin with a slash is stored as it is. -/
theorem relative_path_is_stored :
    (parseSetCookie sampleTime (ascii "a=1; Path=foo") (ascii "example.com") (ascii "/x/y")).map
        Cookie.path = .ok (ascii "foo") ∧
      pathMatches (ascii "/x/y") (ascii "foo") = false := by decide

lemma domainMatches_congr (h : lowercase host' = lowercase host) :
    domainMatches host' domain = domainMatches host domain := by
  rw [Bool.eq_iff_iff, domainMatches_iff, domainMatches_iff, DomainMatch, DomainMatch, h]

lemma splitOn_lowercase (s : Bytes) :
    (lowercase s).splitOn (byte '.') = (s.splitOn (byte '.')).map lowercase := by
  simp only [splitOn_eq_splitOnP]
  induction s with
  | nil => rfl
  | cons b s ih =>
    change splitOnP _ (toLower b :: lowercase s) = _
    rw [splitOnP_cons_eq_if_modifyHead, splitOnP_cons_eq_if_modifyHead, ih]
    simp only [beq_iff_eq, toLower_eq_dot]
    split
    · rfl
    · cases splitOnP (· == byte '.') s with
      | nil => rfl
      | cons first rest => rfl

lemma lowercase_registrableDomain (domain : Bytes) :
    lowercase (registrableDomain domain) = registrableDomain (lowercase domain) := by
  have hs : ∀ (front : Bytes) (b : UInt8), (front ++ [b]).dropSuffix? [byte '.'] =
      if b = byte '.' then some front else none := by
    simp [dropSuffix?]
  have hd : ((lowercase domain).dropSuffix? [byte '.']).getD (lowercase domain) =
      lowercase ((domain.dropSuffix? [byte '.']).getD domain) := by
    induction domain using reverseRecOn with
    | nil => rfl
    | append_singleton front b _ =>
      rw [lowercase_append, show lowercase [b] = [toLower b] from rfl, hs, hs]
      simp only [toLower_eq_dot]
      split
      · rfl
      · simp [lowercase]
  unfold registrableDomain
  simp only [hd, splitOn_lowercase, ← map_reverse]
  cases (((domain.dropSuffix? [byte '.']).getD domain).splitOn (byte '.')).reverse with
  | nil => rfl
  | cons tld rest =>
    cases rest with
    | nil => rfl
    | cons sld rest => simpa [lowercase] using toLower_eq_dot.mpr rfl

inductive Recased : JarCall → JarCall → Prop
  | store (now : SystemTime) {domain domain' : Bytes} (path : Bytes) (headers : HeaderMap)
      (h : lowercase domain' = lowercase domain) :
      Recased (.storeFromResponse now domain path headers)
        (.storeFromResponse now domain' path headers)
  | send (order : Entries) (headers : MarkedHeaderMap) {request : CookieRequest} {domain : Bytes}
      {site : Option Bytes} (h : lowercase domain = lowercase request.domain)
      (hsite : site.map lowercase = request.siteForCookies.map lowercase) :
      Recased (.applyToRequest order request headers)
        (.applyToRequest order { request with domain := domain, siteForCookies := site } headers)

/-- No cookie is bound to the one host: each line names a domain, and what is stored for the host
alone does not matter to the request. -/
def JarCall.HostFree : JarCall → Prop
  | .storeFromResponse _ _ _ headers => ∀ value ∈ headers.getAll .setCookie,
      ∀ line ∈ value.toStr, ∃ attr ∈ attributes line, attr.domainValue.isSome = true
  | .applyToRequest order request _ => ∀ entry ∈ order, ∀ c ∈ entry.2, c.hostOnly = true →
      lowercase (c.domain.getD entry.1) ≠ lowercase request.domain

def CookieJar.sends (jar : CookieJar) : JarCall → List Cookie
  | .storeFromResponse _ _ _ _ => []
  | .applyToRequest order request _ => jar.matchingCookies order request

def CookieJar.sent (jar : CookieJar) : List JarCall → List (List Cookie)
  | [] => []
  | call :: calls => jar.sends call :: (jar.call call).sent calls

lemma parseSetCookie_recased (h : lowercase host' = lowercase host)
    (hd : ∃ attr ∈ attributes line, attr.domainValue.isSome) :
    parseSetCookie now line host' path = parseSetCookie now line host path := by
  have hste : applyAttribute now host' = applyAttribute now host := by
    funext state attr
    simp only [applyAttribute, domainMatches_congr h]
  unfold parseSetCookie
  rw [hste]
  refine congrArg _ (funext fun pair => ?_)
  cases hs : (line.splitOn (byte ';')).tail.foldlM (applyAttribute now host) {} with
  | error e => rfl
  | ok state =>
    have hsome : state.domain.isSome := by
      rw [last_attribute (g := Attributes.domain) rfl hs fun _ _ _ hr => hr.domain,
        isSome_iff_ne_none, Ne, getLast?_eq_none_iff]
      obtain ⟨attr, hm, hv⟩ := hd
      obtain ⟨value, hv⟩ := isSome_iff_exists.mp hv
      exact ne_nil_of_mem (mem_filterMap.mpr ⟨attr, hm, hv⟩)
    obtain ⟨domain, hd⟩ := isSome_iff_exists.mp hsome
    change finishCookie _ _ = finishCookie _ _
    simp [finishCookie, prefixRulesHold, assemble, hd]

lemma isCrossSite_recased {request : CookieRequest} {site : Option Bytes}
    (h : lowercase domain = lowercase request.domain)
    (hsite : site.map lowercase = request.siteForCookies.map lowercase) :
    { request with domain := domain, siteForCookies := site }.isCrossSite = request.isCrossSite := by
  have ha : ∀ r : CookieRequest, r.isCrossSite = (r.siteForCookies.map lowercase).any fun site =>
      !(registrableDomain (lowercase r.domain) == registrableDomain site) := by
    intro r
    simp only [isCrossSite, isSameSite, eqIgnoreCase, lowercase_registrableDomain, Option.any_map]
  rw [ha, ha, h, hsite]

lemma call_recased {call call' : JarCall} (h : Recased call call')
    (hf : call = call' ∨ call.HostFree) (jar : CookieJar) :
    jar.call call' = jar.call call ∧ jar.sends call' = jar.sends call := by
  rcases hf with rfl | hf
  · exact ⟨rfl, rfl⟩
  cases h with
  | store now path headers h =>
    refine ⟨foldl_ext _ _ _ fun jar value hv => ?_, rfl⟩
    unfold storeLine
    cases hl : value.toStr with
    | none => rfl
    | some line =>
      simp only [parseSetCookie_recased h (hf value hv line hl)]
      cases hp : parseSetCookie now line _ path with
      | error e => cases e <;> rfl
      | ok c =>
        have hdom : c.domain.isSome := by
          rcases (accepted_of_parseSetCookie hp).domain with ⟨-, h⟩ | ⟨-, d, h, -⟩ <;> simp [h]
        obtain ⟨d, hd⟩ := isSome_iff_exists.mp hdom
        simp only [storeCookie, hd, getD_some]
  | @send order headers request domain site h hsite =>
    refine ⟨rfl, ?_⟩
    have hs : ∀ entry ∈ order, ∀ c ∈ entry.2,
        { request with domain := domain, siteForCookies := site }.selects entry.1 c =
          request.selects entry.1 c := by
      intro entry he c hc
      simp only [selects, isCrossSite_recased h hsite]
      cases honl : c.hostOnly with
      | false => simp [domainMatches_congr h]
      | true =>
        have ho := hf entry he c hc honl
        have hne : ∀ name, lowercase name = lowercase request.domain →
            (name == c.domain.getD entry.1) = false :=
          fun name hn => beq_eq_false_iff_ne.mpr fun heq => ho (heq ▸ hn)
        simp [hne domain h, hne request.domain rfl]
    simp only [sends, matchingCookies, select]
    rw [flatMap_congr fun entry he => filter_congr (hs entry he)]

/-- Runs that differ in the case of hosts only, where no cookie is bound to such a host, store and
send the same. -/
theorem sent_recased {calls calls' : List JarCall}
    (h : List.Forall₂ Recased calls calls')
    (hfree : List.Forall₂ (fun call call' => call = call' ∨ call.HostFree) calls calls')
    (jar : CookieJar) :
    calls'.foldl call jar = calls.foldl call jar ∧
      jar.sent calls' = jar.sent calls := by
  induction h generalizing jar with
  | nil => exact ⟨rfl, rfl⟩
  | cons hcal _ ih =>
    obtain ⟨hc, hr⟩ := forall₂_cons.mp hfree
    obtain ⟨hj, hs⟩ := call_recased hcal hc jar
    simp only [foldl_cons, sent, hj, hs]
    exact ⟨(ih hr _).1, congrArg _ (ih hr _).2⟩

def domainCall (host : Bytes) : JarCall :=
  .storeFromResponse sampleTime host (ascii "/")
    (responseWith "a=1; Domain=example.com" (by decide))

theorem sent_recased_sample :
    run [domainCall (ascii "EXAMPLE.com")] = run [domainCall (ascii "example.com")] := by
  have hc : Recased (domainCall (ascii "example.com")) (domainCall (ascii "EXAMPLE.com")) :=
    .store _ _ _ (by decide)
  have hf : (domainCall (ascii "example.com")).HostFree := by
    change ∀ value ∈ _, ∀ line ∈ _, _
    decide
  exact (sent_recased (.cons hc .nil) (.cons (.inr hf) .nil) {}).1

/-- A cookie without a domain is not sent to its own host in another spelling. -/
theorem host_only_cookie_is_bound_to_spelling :
    Recased (.applyToRequest sampleEntries sampleRequest ⟨[]⟩)
        (.applyToRequest sampleEntries { sampleRequest with domain := ascii "EXAMPLE.com" } ⟨[]⟩) ∧
      (run [sampleCall]).entries = sampleEntries ∧
      (run [sampleCall]).matchingCookies sampleEntries sampleRequest = [sampleCookie] ∧
      (run [sampleCall]).matchingCookies sampleEntries
        { sampleRequest with domain := ascii "EXAMPLE.com" } = [] :=
  ⟨.send _ _ rfl rfl, by decide⟩

end Aioduct.Cookies
