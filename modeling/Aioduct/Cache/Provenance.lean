import Aioduct.Cache.Store

/-!
# Where the entries of the cache come from

An entry of the cache was made by one of the `store` calls of the run, for the key under which it
is found.
-/

namespace Aioduct.Cache

open Wire Http InMemoryCacheStore List CacheEntry CacheLookup Assoc Or

variable {l variants : List CacheEntry} {index n : Nat} {entries order : Entries} {method : Method}
  {uri : Uri} {headers : HeaderMap} {e entry : CacheEntry} {cache : InMemoryCacheStore}
  {clock : Clock} {x : Exchange}

lemma mem_of_mem_swapRemove (h : e ∈ swapRemove l index) : e ∈ l := by
  unfold swapRemove at h
  split at h
  · exact h
  rename_i last hl
  split at h
  · exact mem_of_mem_dropLast h
  · rcases mem_or_eq_of_mem_set h with h | rfl
    · exact mem_of_mem_dropLast h
    · exact mem_of_getLast? hl

namespace InMemoryCacheStore

lemma get_remove_self (store : InMemoryCacheStore) (key : CacheKey) :
    (store.remove key).get key = [] := by
  simp only [get, remove, get_filter_ne_self, Option.getD_none]

variable {key key' : CacheKey} {store : InMemoryCacheStore} {order : Entries}

lemma get_remove_of_ne (store : InMemoryCacheStore) (h : key' ≠ key) :
    (store.remove key).get key' = store.get key' := by
  simp only [get, remove, get_filter_ne_of_ne _ h]

lemma mem_of_mem_get_remove (h : e ∈ (store.remove key).get key') : e ∈ store.get key' := by
  by_cases hk : key' = key
  · rw [hk, get_remove_self] at h
    cases h
  · rwa [get_remove_of_ne store hk] at h

lemma mem_get_replace
    (h : e ∈ (⟨Assoc.replaceOrAppend entries key variants, n⟩ : InMemoryCacheStore).get key') :
    (key' = key ∧ e ∈ variants) ∨ e ∈ (⟨entries, n⟩ : InMemoryCacheStore).get key' := by
  by_cases hk : key' = key
  · subst hk
    left
    simpa only [get, get_replaceOrAppend_self, Option.getD_some, true_and] using h
  · right
    simpa only [get, get_replaceOrAppend_of_ne _ hk] using h

lemma mem_of_mem_get_evict (h : e ∈ (store.evict order).get key) : e ∈ store.get key := by
  unfold evict at h
  split at h
  · split at h
    · exact h
    split at h
    · exact mem_of_mem_get_remove h
    · rcases mem_get_replace h with ⟨rfl, h⟩ | h
      · exact mem_of_mem_swapRemove h
      · exact h
  · exact h

lemma mem_of_mem_get_put {entry : CacheEntry} (h : e ∈ (store.put order key entry).get key') :
    (key' = key ∧ e = entry) ∨ e ∈ store.get key' := by
  rcases mem_get_replace h with ⟨rfl, h⟩ | h
  · rcases Keyed.of_mem_upsert h with rfl | h
    · exact inl ⟨rfl, rfl⟩
    · exact inr (mem_of_mem_get_evict h)
  · exact inr (mem_of_mem_get_evict h)

lemma put_of_evict (h : store.evict order = ⟨[], n⟩) (key : CacheKey)
    (entry : CacheEntry) : store.put order key entry = ⟨[(key, [entry])], n⟩ := by
  simp only [put, h]
  rfl

lemma evict_empty (n : Nat) : (⟨[], n⟩ : InMemoryCacheStore).evict [] = ⟨[], n⟩ := by
  unfold evict
  split <;> rfl

end InMemoryCacheStore

def CacheCall.Made (call : CacheCall) (key : CacheKey) (entry : CacheEntry) : Prop :=
  ∃ order clock x, call = .store order clock x ∧ cacheKey x.method x.uri = key ∧
    x.entry clock = some (some entry)

def Exchange.Storable (x : Exchange) : Prop := ∃ clock entry, x.entry clock = some (some entry)

lemma store_of_entry (h : x.entry clock = some (some entry)) :
    store cache order clock x = cache.put order (cacheKey x.method x.uri) entry := by
  simp [store, h]

lemma store_of_not_storable (h : ¬x.Storable) : store cache order clock x = cache := by
  unfold store
  split
  next entry he =>
    exact absurd ⟨clock, entry, he⟩ h
  · rfl

lemma mem_get_call {call : CacheCall} {key : CacheKey} (h : e ∈ (cache.call call).get key) :
    e ∈ cache.get key ∨ call.Made key e := by
  cases call with
  | store order clock x =>
    by_cases hs : ∃ entry, x.entry clock = some (some entry)
    · obtain ⟨entry, he⟩ := hs
      simp only [call, store_of_entry he] at h
      rcases mem_of_mem_get_put h with ⟨rfl, rfl⟩ | h
      · exact inr ⟨order, clock, x, rfl, rfl, he⟩
      · exact inl h
    left
    simp only [call, store] at h
    split at h
    next entry he =>
      exact absurd ⟨entry, he⟩ hs
    · exact h
  | lookup clock method uri headers => exact inl h
  | invalidate method uri =>
    left
    simp only [call, invalidate] at h
    split at h
    · exact mem_of_mem_get_remove (mem_of_mem_get_remove h)
    · exact h
  | clear => cases h

lemma run_concat (n : Nat) (calls : List CacheCall) (call : CacheCall) :
    run n (calls ++ [call]) = (run n calls).call call := by simp [run]

lemma mem_get_foldl {calls : List CacheCall} {key : CacheKey}
    (h : e ∈ (calls.foldl InMemoryCacheStore.call cache).get key) :
    e ∈ cache.get key ∨ ∃ call ∈ calls, call.Made key e := by
  induction calls generalizing cache with
  | nil => exact inl h
  | cons call calls ih =>
    rcases ih h with h | ⟨made, hmem, hm⟩
    · exact (mem_get_call h).imp_right fun hm => ⟨call, mem_cons_self, hm⟩
    · exact inr ⟨made, mem_cons_of_mem _ hmem, hm⟩

theorem mem_get_run {n : Nat} {calls : List CacheCall} {key : CacheKey} {e : CacheEntry}
    (h : e ∈ (run n calls).get key) : ∃ call ∈ calls, call.Made key e :=
  (mem_get_foldl h).resolve_left not_mem_nil

lemma run_filter (n : Nat) (calls : List CacheCall) (p : CacheCall → Bool)
    (h : ∀ call ∈ calls, p call = false → ∀ cache : InMemoryCacheStore, cache.call call = cache) :
    run n (calls.filter p) = run n calls := by
  induction calls using List.reverseRecOn with
  | nil => rfl
  | append_singleton calls call ih =>
    have hr := ih fun c hc => h c (mem_append_left _ hc)
    rw [filter_append, run_concat]
    cases hp : p call with
    | true => rw [filter_cons, if_pos hp, filter_nil, run_concat, hr]
    | false =>
      have hi := h call (mem_append_right _ mem_cons_self) hp (run n calls)
      rw [filter_cons, if_neg (by rw [hp]; exact Bool.false_ne_true), filter_nil,
        append_nil, hr, hi]

/-- The response that a lookup gives out, fresh or to be revalidated. -/
def CacheLookup.response : CacheLookup → Option CachedResponse
  | .fresh cached => some cached
  | .stale _ cached _ => some cached
  | .miss => none

def CacheEntry.isServed (entry : CacheEntry) (clock : Clock) : Bool :=
  (serveEntry entry clock).response.isSome

lemma serveEntry_response (entry : CacheEntry) (clock : Clock) :
    (serveEntry entry clock).response =
      if entry.isServed clock then some (entry.cached clock) else none := by
  unfold isServed serveEntry
  split
  · rfl
  split
  · rfl
  split
  · rfl
  split
  · rfl
  · rfl

lemma serveEntry_eq_miss (h : entry.isServed clock = false) : serveEntry entry clock = .miss := by
  unfold isServed at h
  cases hs : serveEntry entry clock with
  | fresh cached | stale validators cached staleIfError => simp [hs, response] at h
  | miss => rfl

lemma ne_miss_of_isServed (h : entry.isServed clock) : serveEntry entry clock ≠ .miss := by
  intro hm
  simp [isServed, hm, response] at h

lemma findVariant_eq_some (h : findVariant cache method uri headers = some e) :
    e ∈ cache.get (cacheKey method uri) ∧ varyMatches e headers := by
  unfold findVariant at h
  split at h
  · exact ⟨mem_of_find?_eq_some h, by simpa using List.find?_some h⟩
  · cases h

lemma isCacheableMethod_of_entry (h : x.entry clock = some (some e)) :
    isCacheableMethod x.method := by
  unfold Exchange.entry at h
  split at h
  · simp at h
  split at h
  next ha =>
    simp only [Exchange.admits, Bool.and_eq_true] at ha
    exact ha.1.1.1.1
  · simp at h

lemma findVariant_of_get
    (hmet : isCacheableMethod method) (hg : cache.get (cacheKey method uri) = [e])
    (hm : varyMatches e headers) : findVariant cache method uri headers = some e := by
  simp [findVariant, hmet, hg, hm]

end Aioduct.Cache
