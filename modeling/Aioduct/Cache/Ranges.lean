import Aioduct.Cache.Separation

/-!
# Partial responses and ranged requests

A 206 response is stored under the key of the whole resource, and what a ranged request stores can
take the place of what a plain request stored.
-/

namespace Aioduct.Cache

open Wire Http List InMemoryCacheStore CacheCall

variable {stored storedZ storedX : Clock} {e ez ex : CacheEntry} {z : Exchange}

/-- A 206 response is given out only for requests with the same `Range`. -/
def KeepsPartial (n : Nat) (calls : List CacheCall) : Prop :=
  KeepsApart .range (fun x => x.status = 206) n calls

def isRanged (headers : HeaderMap) : Bool := headers.containsKey .range

def CacheCall.storesRanged : CacheCall → Bool
  | .store _ _ x => isRanged x.requestHeaders
  | _ => false

def plainCalls (calls : List CacheCall) : List CacheCall :=
  calls.filter fun call => !call.storesRanged

/-- What a plain request gets does not depend on the ranged requests before it. -/
def RangesInvisible (n : Nat) (calls : List CacheCall) : Prop :=
  ∀ past clock method uri headers rest,
    calls = past ++ .lookup clock method uri headers :: rest → isRanged headers = false →
      lookup (run n past) clock method uri headers =
        lookup (run n (plainCalls past)) clock method uri headers

def Exchange.VisibleToPlain (x : Exchange) : Prop :=
  ∃ stored e headers clock, x.entry stored = some (some e) ∧ isRanged headers = false ∧
    varyMatches e headers = true ∧ e.isServed clock = true

variable {calls : List CacheCall} {n : Nat} {headers : HeaderMap} {clock : Clock} {x : Exchange}

lemma run_plainCalls (h : ∀ x ∈ exchanges calls, isRanged x.requestHeaders → ¬x.Storable) :
    run n (plainCalls calls) = run n calls := by
  apply run_filter
  intro call hc hr cache
  cases call with
  | store order clock x =>
    have hx : isRanged x.requestHeaders := by simpa [storesRanged] using hr
    exact store_of_not_storable (h x (mem_exchanges hc) hx)
  | lookup clock method uri headers => rfl
  | invalidate method uri | clear => simp [storesRanged] at hr

lemma lookup_eq_miss (h : ∀ x ∈ exchanges calls, ¬x.VisibleToPlain) {method : Method} {uri : Uri}
    (hp : isRanged headers = false) :
    lookup (run n calls) clock method uri headers = .miss := by
  unfold lookup
  split
  · rfl
  rename_i e hf
  obtain ⟨hmem, hm⟩ := findVariant_eq_some hf
  obtain ⟨call, hc, order, stored, x, rfl, -, he⟩ := mem_get_run hmem
  apply serveEntry_eq_miss
  rw [Bool.eq_false_iff]
  intro hs
  exact h x (mem_exchanges hc) ⟨stored, e, headers, clock, he, hp, hm, hs⟩

lemma mem_exchanges_plainCalls (h : x ∈ exchanges (plainCalls calls)) : x ∈ exchanges calls :=
  (filter_sublist.filterMap _).subset h

lemma mem_exchanges_append {past rest : List CacheCall} (h : x ∈ exchanges past) :
    x ∈ exchanges (past ++ rest) := by
  rw [exchanges, filterMap_append]
  exact mem_append_left _ h

lemma not_rangesInvisible_single (hr : isRanged x.requestHeaders)
    (he : x.entry stored = some (some e)) (hpla : isRanged headers = false)
    (hm : varyMatches e headers) (hs : e.isServed clock) :
    ¬RangesInvisible n [.store [] stored x, .lookup clock x.method x.uri headers] := by
  intro hsam
  have hl := hsam [.store [] stored x] clock x.method x.uri headers [] rfl hpla
  have hp : plainCalls [.store [] stored x] = [] := by
    simp [plainCalls, storesRanged, hr]
  have hmis : lookup (run n []) clock x.method x.uri headers = .miss := by
    unfold lookup findVariant
    split <;> simp_all [run, InMemoryCacheStore.get, Assoc.get]
  have hf := findVariant_of_get (isCacheableMethod_of_entry he) (get_run_single (n := n) he) hm
  rw [hp, hmis, lookup, hf] at hl
  exact ne_miss_of_isServed hs hl

lemma run_one_two (hz : z.entry storedZ = some (some ez)) (hx : x.entry storedX = some (some ex)) :
    run 1 [.store [] storedZ z, .store [(cacheKey z.method z.uri, [ez])] storedX x] =
      ⟨[(cacheKey x.method x.uri, [ex])], 1⟩ := by
  have he : (⟨[(cacheKey z.method z.uri, [ez])], 1⟩ : InMemoryCacheStore).evict
      [(cacheKey z.method z.uri, [ez])] = ⟨[], 1⟩ := by
    simp [evict, len, findOldestEntry, oldestTime,
      InMemoryCacheStore.get, Assoc.get, InMemoryCacheStore.remove]
  rw [← singleton_append, run_concat, run_single hz, call, store_of_entry hx]
  exact put_of_evict he _ ex

lemma not_rangesInvisible_two (hz : isRanged z.requestHeaders = false)
    (hx : isRanged x.requestHeaders)
    (hent : z.entry storedZ = some (some ez)) (hen : x.entry storedX = some (some ex))
    (hpla : isRanged headers = false) (hmat : varyMatches ez headers)
    (hser : ez.isServed clock) (hi : ¬x.VisibleToPlain) :
    ¬RangesInvisible 1 [.store [] storedZ z, .store [(cacheKey z.method z.uri, [ez])] storedX x,
      .lookup clock z.method z.uri headers] := by
  intro hsam
  have hl := hsam [.store [] storedZ z, .store [(cacheKey z.method z.uri, [ez])] storedX x]
    clock z.method z.uri headers [] rfl hpla
  have hp : plainCalls [.store [] storedZ z,
      .store [(cacheKey z.method z.uri, [ez])] storedX x] = [.store [] storedZ z] := by
    simp [plainCalls, storesRanged, hx, hz]
  have hmis : lookup (run 1 [.store [] storedZ z,
      .store [(cacheKey z.method z.uri, [ez])] storedX x]) clock z.method z.uri headers =
      .miss := by
    unfold lookup
    split
    · rfl
    rename_i e hf
    obtain ⟨hmem, hm⟩ := findVariant_eq_some hf
    have he : e = ex := by
      rw [InMemoryCacheStore.get, run_one_two hent hen] at hmem
      by_cases hk : cacheKey x.method x.uri = cacheKey z.method z.uri
      · simpa [Assoc.get, hk] using hmem
      · simp [Assoc.get, hk] at hmem
    subst he
    apply serveEntry_eq_miss
    rw [Bool.eq_false_iff]
    intro hs
    exact hi ⟨storedX, e, headers, clock, hen, hpla, hm, hs⟩
  have hf := findVariant_of_get (isCacheableMethod_of_entry hent)
    (get_run_single (n := 1) hent) hmat
  rw [hp, hmis, lookup, hf] at hl
  exact ne_miss_of_isServed hser hl.symm

lemma rangesInvisible_iff (S : Set Exchange) :
    (∀ n calls, (∀ x ∈ exchanges calls, x ∈ S) → RangesInvisible n calls) ↔
      (∀ x ∈ S, isRanged x.requestHeaders → ¬x.Storable) ∨
        ∀ x ∈ S, ¬x.VisibleToPlain := by
  constructor
  · intro hrun
    have hr : ∀ x ∈ S, isRanged x.requestHeaders → ¬x.VisibleToPlain := by
      rintro x hx hrx ⟨stored, e, headers, clock, hent, hp, hm, hser⟩
      refine not_rangesInvisible_single hrx hent hp hm hser (hrun 256 _ ?_)
      simpa [exchanges] using hx
    by_contra hc
    rw [not_or] at hc
    obtain ⟨hs, hv⟩ := hc
    push Not at hs hv
    obtain ⟨x, hx, hrx, storedX, ex, he⟩ := hs
    obtain ⟨z, hz, hv⟩ := hv
    cases hrz : isRanged z.requestHeaders with
    | true => exact hr z hz hrz hv
    | false =>
      obtain ⟨storedZ, ez, headers, clock, hen, hp, hm, hser⟩ := hv
      refine not_rangesInvisible_two hrz hrx hen he hp hm hser (hr x hx hrx) (hrun 1 _ ?_)
      intro y hy
      simp only [exchanges, filterMap_cons, filterMap_nil, mem_cons, not_mem_nil, or_false] at hy
      rcases hy with rfl | rfl
      · exact hz
      · exact hx
  · rintro (hs | hv) n calls hcal past clock method uri headers rest rfl hp
    · have hpas : ∀ x ∈ exchanges past, isRanged x.requestHeaders → ¬x.Storable :=
        fun x hx => hs x (hcal x (mem_exchanges_append hx))
      rw [run_plainCalls hpas]
    have hpas : ∀ x ∈ exchanges past, ¬x.VisibleToPlain :=
      fun x hx => hv x (hcal x (mem_exchanges_append hx))
    rw [lookup_eq_miss hpas hp,
      lookup_eq_miss (fun x hx => hpas x (mem_exchanges_plainCalls hx)) hp]

/-- Partial responses are kept apart, and plain requests are not disturbed by ranged ones, in
every run over a set of exchanges exactly if every 206 response that can be given out names `Range`
in `Vary`, and no response to a ranged request is stored or plain requests can be given nothing. -/
theorem keeps_partial_iff (S : Set Exchange) :
    (∀ n calls, (∀ x ∈ exchanges calls, x ∈ S) →
        KeepsPartial n calls ∧ RangesInvisible n calls) ↔
      (∀ x ∈ S, x.status = 206 → x.Servable → x.Separates .range) ∧
        ((∀ x ∈ S, isRanged x.requestHeaders = true → ¬x.Storable) ∨
          ∀ x ∈ S, ¬x.VisibleToPlain) := by
  have hh : HeaderName.range ≠ .host := by decide
  have hp := keepsApart_iff hh (fun x => x.status = 206) S
  rw [← rangesInvisible_iff S, ← hp]
  constructor
  · intro h
    exact ⟨fun n calls hc => (h n calls hc).1, fun n calls hc => (h n calls hc).2⟩
  · intro h n calls hc
    exact ⟨h.1 n calls hc, h.2 n calls hc⟩

def partialExchange : Exchange where
  method := .get
  uri := sampleUri
  status := 206
  headers := personalExchange.headers
  body := ascii "se"
  requestHeaders := ⟨[(.range, ⟨ascii "bytes=0-1", by decide⟩)]⟩

def wholeExchange : Exchange :=
  { personalExchange with requestHeaders := ⟨[]⟩ }

/-- A plain request gets the partial response, also in the place of the whole one that the cache
held before. -/
theorem partial_response_crosses :
    isResponseCacheable partialExchange.status partialExchange.headers = true ∧
      lookup (run 256 [.store [] sampleClock partialExchange]) sampleClock .get sampleUri ⟨[]⟩ =
        .fresh ⟨206, partialExchange.headers, ascii "se", 0⟩ ∧
      lookup (run 256 [.store [] sampleClock wholeExchange,
          .store [] sampleClock partialExchange]) sampleClock .get sampleUri ⟨[]⟩ =
        .fresh ⟨206, partialExchange.headers, ascii "se", 0⟩ ∧
      ¬KeepsPartial 256 [.store [] sampleClock partialExchange,
        .lookup sampleClock .get sampleUri ⟨[]⟩] ∧
      ¬RangesInvisible 256 [.store [] sampleClock partialExchange,
        .lookup sampleClock .get sampleUri ⟨[]⟩] := by
  have he : partialExchange.entry sampleClock =
      some (some (partialExchange.makeEntry sampleClock [] none)) := by decide
  have hm : varyMatches (partialExchange.makeEntry sampleClock [] none) ⟨[]⟩ = true := by
    decide
  have hs : (partialExchange.makeEntry sampleClock [] none).isServed sampleClock = true := by
    decide
  refine ⟨by decide, by decide, by decide, fun hk => ?_,
    not_rangesInvisible_single (by decide) he (by decide) hm hs⟩
  have hsam := hk [.store [] sampleClock partialExchange] sampleClock .get sampleUri ⟨[]⟩ []
    rfl partialExchange (givesOut_single he hm hs) rfl
  exact absurd hsam (by decide)

end Aioduct.Cache
