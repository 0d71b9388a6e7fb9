import Aioduct.Cache.Provenance

/-!
# What keeps cached responses apart

The key of the cache is method and URI; only the fields that a response names in `Vary` tell the
requests for one URI apart.
-/

namespace Aioduct.Cache

open Wire Http List Option HeaderValue MultiMap InMemoryCacheStore Exchange

variable {calls past : List CacheCall}

variable {x : Exchange} {e : CacheEntry} {clock : Clock} {headers : HeaderMap} {field : HeaderName}
  {n : Nat}

lemma entry_eq_some (h : x.entry clock = some (some e)) :
    ∃ names expires, varyNames x.headers = some names ∧ x.admits names ∧
      e = x.makeEntry clock names expires := by
  unfold entry at h
  split at h
  · simp at h
  rename_i names hn
  split at h
  next ha =>
    obtain ⟨expires, -, he⟩ := map_eq_some_iff.mp h
    exact ⟨names, expires, hn, ha, (some.inj he).symm⟩
  · simp at h

lemma lowercase_of_mem_varyNames {names : List Bytes} (h : varyNames headers = some names)
    {name : Bytes} (hn : name ∈ names) : lowercase name = name := by
  obtain ⟨lines, -, rfl⟩ := map_eq_some_iff.mp h
  obtain ⟨text, -, rfl⟩ := mem_map.mp hn
  exact lowercase_lowercase _

lemma varyMatches_makeEntry (x : Exchange) (clock : Clock) (names : List Bytes)
    (expires : Option SystemTime) (headers : HeaderMap) :
    varyMatches (x.makeEntry clock names expires) headers ↔
      hasUnresolvedHost names headers = false ∧
        ∀ name ∈ names, name ≠ ascii "*" ∧
          varyValue headers name = varyValue x.requestHeaders name := by
  cases names with
  | nil => simp [varyMatches, makeEntry, keptNames, hasUnresolvedHost]
  | cons name names =>
    cases hh : hasUnresolvedHost (name :: names) headers with
    | true | false => simp [varyMatches, makeEntry, keptNames, hh]

/-- The response names the field in `Vary` and the request had a readable value of it, or the
response names everything. -/
def Exchange.Separates (x : Exchange) (field : HeaderName) : Prop :=
  ∃ names, varyNames x.headers = some names ∧
    (ascii "*" ∈ names ∨
      (field.bytes ∈ names ∧ ∃ s, (x.requestHeaders.get field).bind HeaderValue.toStr = some s))

lemma varyValue_bytes (headers : HeaderMap) (field : HeaderName) :
    varyValue headers field.bytes = (headers.get field).bind toStr := by
  simp [varyValue]

lemma get_eq_of_readable {headers' : HeaderMap} {s : Bytes}
    (h : (headers.get field).bind toStr = some s)
    (h' : (headers'.get field).bind toStr = some s) :
    headers.get field = headers'.get field := by
  obtain ⟨v, hv, hs⟩ := bind_eq_some_iff.mp h
  obtain ⟨v', hv', hs'⟩ := bind_eq_some_iff.mp h'
  rw [hv, hv', ext ((toStr_eq_some hs).symm.trans (toStr_eq_some hs'))]

lemma get_eq_of_separates (he : x.entry clock = some (some e)) (hsep : x.Separates field)
    (hm : varyMatches e headers) : headers.get field = x.requestHeaders.get field := by
  obtain ⟨names, expires, hn, -, rfl⟩ := entry_eq_some he
  obtain ⟨names', hn', hsep⟩ := hsep
  obtain rfl : names = names' := some.inj (hn.symm.trans hn')
  rw [varyMatches_makeEntry] at hm
  rcases hsep with hsta | ⟨hf, s, hs⟩
  · exact absurd rfl (hm.2 _ hsta).1
  · have hv := (hm.2 _ hf).2
    rw [varyValue_bytes, varyValue_bytes, hs] at hv
    exact get_eq_of_readable hv hs

def unreadable : HeaderValue := ⟨[255], by decide⟩

/-- The request with another value of the field, and no readable one. -/
def alter (headers : HeaderMap) (field : HeaderName) : HeaderMap :=
  if headers.containsKey field then headers.remove field else headers.insert field unreadable

lemma getAll_alter_of_ne (headers : HeaderMap) {name : HeaderName} (h : name ≠ field) :
    (alter headers field).getAll name = headers.getAll name := by
  unfold alter
  split
  · exact getAll_remove_of_ne h headers
  · exact getAll_insert_of_ne h headers _

lemma get_alter_ne (headers : HeaderMap) (field : HeaderName) :
    (alter headers field).get field ≠ headers.get field := by
  unfold alter
  cases hk : headers.containsKey field with
  | true =>
    cases hv : headers.getAll field with
    | nil => simp [containsKey, hv] at hk
    | cons v vs => simp [MultiMap.get, hv]
  | false =>
    simp [MultiMap.get, MultiMap.containsKey_eq_false.mp hk]

lemma toStr_alter (headers : HeaderMap) (field : HeaderName) :
    ((alter headers field).get field).bind toStr = none := by
  unfold alter
  split
  · simp [MultiMap.get]
  · rw [MultiMap.get, MultiMap.getAll_insert_self]
    decide

lemma matches_alter (hh : field ≠ .host) (he : x.entry clock = some (some e))
    (hsep : ¬x.Separates field) : varyMatches e (alter x.requestHeaders field) := by
  obtain ⟨names, expires, hn, ha, rfl⟩ := entry_eq_some he
  have hr : hasUnresolvedHost names x.requestHeaders = false := by
    simp only [admits, Bool.and_eq_true, Bool.not_eq_true'] at ha
    exact ha.2
  rw [varyMatches_makeEntry]
  constructor
  · have hk : (alter x.requestHeaders field).containsKey .host =
        x.requestHeaders.containsKey .host :=
      containsKey_congr (getAll_alter_of_ne _ hh.symm)
    rw [hasUnresolvedHost, hk]
    exact hr
  intro name hnam
  refine ⟨fun hs => hsep ⟨names, hn, Or.inl (hs ▸ hnam)⟩, ?_⟩
  by_cases hf : name = field.bytes
  · -- the entry recorded no value: the one of the request was absent or unreadable
    subst hf
    rw [varyValue_bytes, varyValue_bytes, toStr_alter]
    cases hv : (x.requestHeaders.get field).bind toStr with
    | none => rfl
    | some s => exact absurd ⟨names, hn, Or.inr ⟨hnam, s, hv⟩⟩ hsep
  unfold varyValue
  cases hrea : HeaderName.fromBytes name with
  | none => rfl
  | some other =>
    have hne : other ≠ field := by
      rintro rfl
      apply hf
      rw [HeaderName.bytes_of_fromBytes hrea, lowercase_of_mem_varyNames hn hnam]
    simp [bind_some, MultiMap.get, getAll_alter_of_ne _ hne]

def exchanges (calls : List CacheCall) : List Exchange :=
  calls.filterMap fun call =>
    match call with
    | .store _ _ x => some x
    | _ => none

lemma mem_exchanges {order : Entries}
    (h : CacheCall.store order clock x ∈ calls) : x ∈ exchanges calls :=
  mem_filterMap.mpr ⟨_, h, rfl⟩

/-- After the calls `past` the lookup gives out, fresh or stale, the response stored for `x`. -/
def GivesOut (n : Nat) (past : List CacheCall) (clock : Clock) (method : Method) (uri : Uri)
    (headers : HeaderMap) (x : Exchange) : Prop :=
  ∃ order stored e, CacheCall.store order stored x ∈ past ∧
    cacheKey x.method x.uri = cacheKey method uri ∧ x.entry stored = some (some e) ∧
    findVariant (run n past) method uri headers = some e ∧
    (lookup (run n past) clock method uri headers).response = some (e.cached clock)

def Exchange.Servable (x : Exchange) : Prop :=
  ∃ stored e clock, x.entry stored = some (some e) ∧ e.isServed clock = true

lemma GivesOut.isServed {method : Method} {uri : Uri}
    (h : GivesOut n past clock method uri headers x) :
    ∃ stored e, x.entry stored = some (some e) ∧ varyMatches e headers ∧
      e.isServed clock := by
  obtain ⟨order, stored, e, -, -, he, hf, hr⟩ := h
  refine ⟨stored, e, he, (findVariant_eq_some hf).2, ?_⟩
  rw [lookup, hf] at hr
  rw [CacheEntry.isServed, hr, isSome_some]

lemma run_single (h : x.entry clock = some (some e)) :
    run n [.store [] clock x] = ⟨[(cacheKey x.method x.uri, [e])], n⟩ := by
  simp only [run, foldl_cons, foldl_nil, call, store_of_entry h]
  exact put_of_evict (evict_empty n) _ e

lemma get_run_single (h : x.entry clock = some (some e)) :
    (run n [.store [] clock x]).get (cacheKey x.method x.uri) = [e] := by
  simp [run_single h, InMemoryCacheStore.get, Assoc.get]

lemma givesOut_single {stored : Clock} (he : x.entry stored = some (some e))
    (hm : varyMatches e headers) (hs : e.isServed clock) :
    GivesOut n [.store [] stored x] clock x.method x.uri headers x := by
  have hf := findVariant_of_get (isCacheableMethod_of_entry he) (get_run_single (n := n) he) hm
  refine ⟨[], stored, e, mem_cons_self, rfl, he, hf, ?_⟩
  rw [lookup, hf]
  simp [serveEntry_response, hs]

/-- Responses of the given kind are given out only for requests with the same value of a field. -/
def KeepsApart (field : HeaderName) (kind : Exchange → Prop) (n : Nat)
    (calls : List CacheCall) : Prop :=
  ∀ past clock method uri headers rest,
    calls = past ++ .lookup clock method uri headers :: rest →
    ∀ x, GivesOut n past clock method uri headers x → kind x →
      headers.get field = x.requestHeaders.get field

/-- The responses of a set are kept apart in every run exactly if each of them is separated. -/
theorem keepsApart_iff {field : HeaderName} (hh : field ≠ .host) (kind : Exchange → Prop)
    (S : Set Exchange) :
    (∀ n calls, (∀ x ∈ exchanges calls, x ∈ S) → KeepsApart field kind n calls) ↔
      ∀ x ∈ S, kind x → x.Servable → x.Separates field := by
  constructor
  · intro hr x hx hk hser
    obtain ⟨stored, e, clock, he, hs⟩ := hser
    by_contra hsep
    have hg := givesOut_single (n := 256) he (matches_alter hh he hsep) hs
    have hsam := hr 256
      [.store [] stored x, .lookup clock x.method x.uri (alter x.requestHeaders field)]
      (by simpa [exchanges] using hx) [.store [] stored x] clock x.method x.uri _ [] rfl x hg
      hk
    exact get_alter_ne _ _ hsam
  intro hsep n calls hc past clock method uri headers rest heq x hg hk
  have hx : x ∈ S := by
    obtain ⟨order, stored, e, hmem, -⟩ := hg
    exact hc x (mem_exchanges (heq ▸ mem_append_left _ hmem))
  obtain ⟨stored, e, he, hm, hs⟩ := hg.isServed
  exact get_eq_of_separates he (hsep x hx hk ⟨stored, e, clock, he, hs⟩) hm

/-- A directive of `Cache-Control` that lets a shared cache use the response for others. -/
def isSharedDirective (part : Bytes) : Bool :=
  let part := lowercase (Utf8.trimText part)
  part == ascii "public" || part == ascii "must-revalidate" ||
    (part.dropPrefix? (ascii "s-maxage=")).isSome

def hasSharedDirective (headers : HeaderMap) : Bool :=
  (headers.getAll .cacheControl).any fun value =>
    value.toStr.any fun text => (text.splitOn (byte ',')).any isSharedDirective

/-- The request carried credentials, and the response does not allow others to use it. -/
def Exchange.isPersonal (x : Exchange) : Bool :=
  x.requestHeaders.containsKey .authorization && !hasSharedDirective x.headers

/-- A response to a request with `Authorization` is given out only for requests with the same
credentials, unless `Cache-Control` allows it. -/
def KeepsCredentials (n : Nat) (calls : List CacheCall) : Prop :=
  KeepsApart .authorization (fun x => x.isPersonal = true) n calls

/-- Credentials are kept apart in every run over a set of exchanges exactly if the servers do it:
each response to a request with credentials that can be given out names `Authorization` in
`Vary`. -/
theorem keeps_credentials_iff (S : Set Exchange) :
    (∀ n calls, (∀ x ∈ exchanges calls, x ∈ S) → KeepsCredentials n calls) ↔
      ∀ x ∈ S, x.isPersonal = true → x.Servable → x.Separates .authorization :=
  keepsApart_iff (by decide) _ S

def sampleUri : Uri where
  scheme := some (ascii "https")
  authority := some ⟨ascii "example.com", ascii "example.com", none⟩
  path := ascii "/account"

def sampleClock : Clock := ⟨0, 1700000000 * 10 ^ 9⟩

def personalExchange : Exchange where
  method := .get
  uri := sampleUri
  status := 200
  headers := ⟨[(.cacheControl, ⟨ascii "max-age=60", by decide⟩)]⟩
  body := ascii "secret"
  requestHeaders := ⟨[(.authorization, ⟨ascii "Bearer alice", by decide⟩)]⟩

/-- A request without credentials gets the response of one with them. -/
theorem credentials_cross :
    isResponseCacheable personalExchange.status personalExchange.headers = true ∧
      personalExchange.isPersonal = true ∧
      lookup (run 256 [.store [] sampleClock personalExchange]) sampleClock .get sampleUri ⟨[]⟩ =
        .fresh ⟨200, personalExchange.headers, ascii "secret", 0⟩ ∧
      ¬KeepsCredentials 256 [.store [] sampleClock personalExchange,
        .lookup sampleClock .get sampleUri ⟨[]⟩] := by
  refine ⟨by decide, by decide, by decide, fun hk => ?_⟩
  have he : ∃ e, personalExchange.entry sampleClock = some (some e) ∧
      varyMatches e ⟨[]⟩ = true ∧ e.isServed sampleClock = true :=
    ⟨personalExchange.makeEntry sampleClock [] none, by decide⟩
  obtain ⟨e, he, hm, hs⟩ := he
  have hsam := hk [.store [] sampleClock personalExchange] sampleClock .get sampleUri ⟨[]⟩ []
    rfl personalExchange (givesOut_single he hm hs) (by decide)
  exact absurd hsam (by decide)

variable {change method : Method} {uri : Uri}

lemma get_invalidate {cache : InMemoryCacheStore} (hu : isUnsafeMethod change)
    (hm : isCacheableMethod method) :
    (invalidate cache change uri).get (cacheKey method uri) = [] := by
  rw [invalidate, if_pos hu]
  rcases Bool.or_eq_true_iff.mp hm with hm | hm <;> obtain rfl := beq_iff_eq.mp hm
  · have hn : Method.get ≠ .head := by decide
    rw [get_remove_of_ne _ (by simp [cacheKey, hn]), get_remove_self]
  · exact get_remove_self _ _

/-- What is given out for a URI after an unsafe method has been used on it was stored later. -/
theorem served_after_change {before after : List CacheCall} {cached : CachedResponse}
    (hu : isUnsafeMethod change = true)
    (h : (lookup (run n (before ++ .invalidate change uri :: after)) clock method uri
      headers).response = some cached) :
    ∃ call ∈ after, ∃ entry, call.Made (cacheKey method uri) entry ∧
      entry.cached clock = cached := by
  unfold lookup at h
  split at h
  · cases h
  rename_i entry hf
  have hm : isCacheableMethod method := by
    by_contra hm
    simp [findVariant, hm] at hf
  have hmem := (findVariant_eq_some hf).1
  rw [run, foldl_append, foldl_cons] at hmem
  rcases mem_get_foldl hmem with hold | ⟨call, hc, hmade⟩
  · rw [call, get_invalidate hu hm] at hold
    cases hold
  rw [serveEntry_response] at h
  split at h
  · exact ⟨call, hc, entry, hmade, some.inj h⟩
  · cases h

theorem served_after_post :
    ∃ call ∈ [CacheCall.store [] sampleClock personalExchange], ∃ entry,
      call.Made (cacheKey .get sampleUri) entry ∧
        entry.cached sampleClock = ⟨200, personalExchange.headers, ascii "secret", 0⟩ :=
  @served_after_change sampleClock ⟨[]⟩ 256 ⟨ascii "POST"⟩ _ _
    [.store [] sampleClock personalExchange] _ _ (by decide) (by decide)

end Aioduct.Cache
