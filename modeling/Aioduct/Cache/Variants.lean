import Aioduct.Cache.Ranges

/-!
# Variants of a stored response

A variant fits a request by the first readable line of each field that `Vary` names, and of the
variants that fit the first one is taken.
-/

namespace Aioduct.Cache

open Wire Http Option HeaderValue Exchange List

def Exchange.Nominates (x : Exchange) (field : HeaderName) : Prop :=
  ∃ names, varyNames x.headers = some names ∧ field.bytes ∈ names

/-- A response is given out only for requests with the same lines of all fields that it names, and
never with `Vary: *`. -/
def RespectsVary (n : Nat) (calls : List CacheCall) : Prop :=
  ∀ past clock method uri headers rest,
    calls = past ++ .lookup clock method uri headers :: rest →
    ∀ x, GivesOut n past clock method uri headers x →
      (∀ names, varyNames x.headers = some names → ascii "*" ∉ names) ∧
        ∀ field, x.Nominates field → headers.getAll field = x.requestHeaders.getAll field

def requestedWith (calls : List CacheCall) : List HeaderMap :=
  calls.filterMap fun call =>
    match call with
    | .store _ _ x => some x.requestHeaders
    | .lookup _ _ _ headers => some headers
    | _ => none

/-- The field is left out or has one line of visible characters. -/
def OneLine (headers : HeaderMap) (field : HeaderName) : Prop :=
  headers.getAll field = [] ∨
    ∃ value s, headers.getAll field = [value] ∧ HeaderValue.toStr value = some s

lemma getAll_eq_of_oneLine {headers headers' : HeaderMap} {field : HeaderName}
    (h : OneLine headers field) (h' : OneLine headers' field)
    (hv : varyValue headers field.bytes = varyValue headers' field.bytes) :
    headers.getAll field = headers'.getAll field := by
  rw [varyValue_bytes, varyValue_bytes, MultiMap.get, MultiMap.get] at hv
  rcases h with hnone | ⟨value, s, hl, hs⟩
  · rcases h' with hnone' | ⟨value', s', hl', hs'⟩
    · rw [hnone, hnone']
    · simp [hnone, hl', hs'] at hv
  rcases h' with hnone' | ⟨value', s', hl', hs'⟩
  · simp [hnone', hl, hs] at hv
  · obtain rfl : s = s' := by simpa [hl, hl', hs, hs'] using hv
    rw [hl, hl', ext ((toStr_eq_some hs).symm.trans (toStr_eq_some hs'))]

/-- In a run whose requests have the nominated fields on one line of visible characters, or not at
all, `Vary` is respected. -/
theorem respectsVary_of_oneLine (n : Nat) (calls : List CacheCall)
    (h : ∀ x ∈ exchanges calls, ∀ field, x.Nominates field →
      ∀ headers ∈ requestedWith calls, OneLine headers field) : RespectsVary n calls := by
  intro past clock method uri headers rest hc x hg
  obtain ⟨stored, e, he, hm, -⟩ := hg.isServed
  obtain ⟨order, made, -, hmem, -⟩ := hg
  have hs : CacheCall.store order made x ∈ calls := by
    rw [hc]
    exact mem_append_left _ hmem
  have hl : headers ∈ requestedWith calls :=
    mem_filterMap.mpr ⟨.lookup clock method uri headers, by simp [hc], rfl⟩
  have hr : x.requestHeaders ∈ requestedWith calls :=
    mem_filterMap.mpr ⟨_, hs, rfl⟩
  obtain ⟨names, expires, hn, -, rfl⟩ := entry_eq_some he
  obtain ⟨-, hv⟩ := (varyMatches_makeEntry x stored names expires headers).mp hm
  constructor
  · intro names' hn' hsta
    obtain rfl : names = names' := some.inj (hn.symm.trans hn')
    exact (hv _ hsta).1 rfl
  rintro field ⟨names', hn', hf⟩
  obtain rfl : names = names' := some.inj (hn.symm.trans hn')
  have ho := h x (mem_exchanges hs) field ⟨names, hn, hf⟩
  exact getAll_eq_of_oneLine (ho headers hl) (ho _ hr) (hv _ hf).2

def acceptLanguage : HeaderName := ⟨ascii "accept-language", by decide⟩

def english : HeaderMap := ⟨[(acceptLanguage, ⟨ascii "en", by decide⟩)]⟩

def bilingual : HeaderMap := ⟨english.lines ++ [(acceptLanguage, ⟨ascii "de", by decide⟩)]⟩

def languageExchange (requestHeaders : HeaderMap) : Exchange :=
  { personalExchange with
    headers := ⟨personalExchange.headers.lines ++ [(.vary, ⟨ascii "Accept-Language", by decide⟩)]⟩
    requestHeaders := requestHeaders }

def languageEntry (clock : Clock) (requestHeaders : HeaderMap) : CacheEntry :=
  (languageExchange requestHeaders).makeEntry clock [ascii "accept-language"] none

lemma varyNames_languageExchange {names : List Bytes}
    (h : varyNames (languageExchange english).headers = some names) :
    names = [ascii "accept-language"] :=
  some.inj (h.symm.trans (by decide))

theorem respectsVary_of_oneLine_english :
    lookup (run 256 [.store [] sampleClock (languageExchange english)]) sampleClock .get sampleUri
        english = .fresh ((languageEntry sampleClock english).cached sampleClock) ∧
      RespectsVary 256 [.store [] sampleClock (languageExchange english),
        .lookup sampleClock .get sampleUri english] := by
  refine ⟨by decide, respectsVary_of_oneLine _ _ ?_⟩
  rintro x hx field ⟨names, hn, hf⟩ headers hh
  obtain rfl : x = languageExchange english := by simpa [exchanges] using hx
  obtain rfl := varyNames_languageExchange hn
  obtain rfl : field = acceptLanguage := HeaderName.ext (mem_singleton.mp hf)
  obtain rfl : headers = english := by simpa [requestedWith, languageExchange] using hh
  exact .inr ⟨_, _, rfl, rfl⟩

/-- The second line is not compared: a request for English gets what was made for one that accepts
German too. -/
theorem second_value_ignored :
    lookup (run 256 [.store [] sampleClock (languageExchange bilingual)]) sampleClock .get
        sampleUri english =
      .fresh ((languageEntry sampleClock bilingual).cached sampleClock) ∧
    ¬RespectsVary 256 [.store [] sampleClock (languageExchange bilingual),
      .lookup sampleClock .get sampleUri english] := by
  refine ⟨by decide, fun hr => ?_⟩
  have hg : GivesOut 256 [.store [] sampleClock (languageExchange bilingual)] sampleClock .get
      sampleUri english (languageExchange bilingual) :=
    givesOut_single (e := languageEntry sampleClock bilingual) (by decide)
      (by decide) (by decide)
  have hl := (hr _ _ _ _ _ [] rfl _ hg).2 acceptLanguage
    ⟨[ascii "accept-language"], by decide, by decide⟩
  cases hl

/-- What is compared when a variant that was made from a response is looked for. -/
def fitsRecord (record : Option VaryHeaders) (headers : HeaderMap) : Bool :=
  record.all fun stored => !hasUnresolvedHost (stored.map Prod.fst) headers &&
    stored.all fun field => field.1 != ascii "*" && varyValue headers field.1 == field.2

variable {x : Exchange} {e : CacheEntry} {clock : Clock}

lemma varyMatches_of_entry (h : x.entry clock = some (some e)) (headers : HeaderMap) :
    varyMatches e headers = fitsRecord e.requestVaryHeaders headers := by
  obtain ⟨names, expires, -, -, rfl⟩ := entry_eq_some h
  cases names with
  | nil => rfl
  | cons name names =>
    cases hh : hasUnresolvedHost (name :: names) headers <;>
      simp [varyMatches, fitsRecord, makeEntry, keptNames, Function.comp_def, hh]

/-- A response that is stored is what the next lookup of its request finds exactly if the first
variant that fits the request, once room is made for the new one, has its record, or none fits. -/
theorem lookup_after_store_iff (n : Nat) (past : List CacheCall) (order : Entries)
    (hentry : x.entry clock = some (some e))
    (hstar : ∀ names, varyNames x.headers = some names → ascii "*" ∉ names) :
    findVariant (store (run n past) order clock x) x.method x.uri x.requestHeaders = some e ∧
        lookup (store (run n past) order clock x) clock x.method x.uri x.requestHeaders =
          serveEntry e clock ↔
      ∀ f, (((run n past).evict order).get (cacheKey x.method x.uri)).find?
          (varyMatches · x.requestHeaders) = some f →
        f.requestVaryHeaders = e.requestVaryHeaders := by
  have hm : varyMatches e x.requestHeaders = true := by
    obtain ⟨names, expires, hn, ha, rfl⟩ := entry_eq_some hentry
    simp only [admits, Bool.and_eq_true, Bool.not_eq_true'] at ha
    refine (varyMatches_makeEntry x clock names expires _).mpr ⟨ha.2, fun name hnam => ?_⟩
    exact ⟨fun heq => hstar names hn (heq ▸ hnam), rfl⟩
  have hs : ∀ f ∈ ((run n past).evict order).get (cacheKey x.method x.uri),
      f.requestVaryHeaders = e.requestVaryHeaders → varyMatches f x.requestHeaders = true := by
    intro f hf hr
    obtain ⟨call, -, order', made, y, -, -, hmad⟩ :=
      mem_get_run (InMemoryCacheStore.mem_of_mem_get_evict hf)
    rw [varyMatches_of_entry hmad, hr, ← varyMatches_of_entry hentry, hm]
  rw [← Keyed.find?_upsert (p := fun f => varyMatches f x.requestHeaders) hm hs]
  have hfin : findVariant (store (run n past) order clock x) x.method x.uri x.requestHeaders =
      (Keyed.upsert CacheEntry.requestVaryHeaders
        (((run n past).evict order).get (cacheKey x.method x.uri)) e).find?
          (varyMatches · x.requestHeaders) := by
    rw [findVariant, if_pos (isCacheableMethod_of_entry hentry), store_of_entry hentry]
    simp [InMemoryCacheStore.put, InMemoryCacheStore.get, Assoc.get_replaceOrAppend_self, getD_some]
  rw [lookup, hfin]
  constructor
  · exact And.left
  · intro h
    exact ⟨h, by rw [h]⟩

theorem lookup_after_store_iff_english :
    findVariant (store (run 256 [.store [] sampleClock (languageExchange bilingual)]) [] ⟨1, 0⟩
      (languageExchange english)) .get sampleUri english =
        some (languageEntry ⟨1, 0⟩ english) := by
  refine ((lookup_after_store_iff (e := languageEntry ⟨1, 0⟩ english) 256 _ [] (by decide)
    fun names hn => ?_).mpr ?_).1
  · rw [varyNames_languageExchange hn]
    decide
  · intro f hf
    obtain rfl : languageEntry sampleClock bilingual = f := some.inj (Eq.trans (by decide) hf)
    decide

/-- A response without `Vary` that was stored before fits the request too. -/
theorem older_variant_found :
    (languageExchange english).entry ⟨1, 0⟩ = some (some (languageEntry ⟨1, 0⟩ english)) ∧
    findVariant (store (run 256 [.store [] sampleClock wholeExchange]) [] ⟨1, 0⟩
        (languageExchange english)) .get sampleUri english =
      some (wholeExchange.makeEntry sampleClock [] none) := by decide

end Aioduct.Cache
