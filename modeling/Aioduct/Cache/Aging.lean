import Aioduct.Cache.Validation

/-!
# Stored responses as they age

How long a stored response is used, and the age that is told with it.
-/

namespace Aioduct.Cache

open Wire Http CacheEntry Option Nat

variable {validators : Validators} {cached : CachedResponse}

def CacheLookup.isFresh : CacheLookup → Bool
  | .fresh _ => true
  | _ => false

variable {e : CacheEntry} {clock early late stored : Clock}

lemma isFresh_serveEntry (e : CacheEntry) (clock : Clock) :
    (serveEntry e clock).isFresh ↔
      (e.isFresh clock ∧ e.usedFresh) ∨ e.inGrace clock := by
  rw [← usedUnasked_iff, serveEntry_eq]
  cases e.usedUnasked clock <;> cases e.hasValidators <;> simp [CacheLookup.isFresh]

namespace CacheEntry

/-- Between the lifetime and the grace period there is a moment at which neither runs. -/
def hasGap (e : CacheEntry) (stored : Clock) : Bool :=
  e.staleWhileRevalidate.any fun grace : Duration => 0 < grace &&
    (e.maxAge.isSome || e.expiresAt.any fun expires => 0 ≤ expires && stored.system ≤ expires)

lemma exists_gap (hs : e.storedAt = stored.instant) (h : e.hasGap stored) :
    e.inGrace (stored.later (e.lifetime stored)) = false ∧
      e.inGrace (stored.later (e.lifetime stored + 1)) := by
  rw [Bool.eq_false_iff, Ne, inGrace_later hs, inGrace_later hs]
  obtain ⟨grace, hg, h⟩ := (any_eq_true _ _).mp h
  unfold lifetime
  cases ha : e.maxAge with
  | some maxAge => grind
  | none =>
    cases he : e.expiresAt with
    | none => simp [ha, he] at h
    | some expires =>
      simp only [ha, he, isSome_none, Bool.false_or, any_some, Bool.and_eq_true,
        decide_eq_true_eq] at h
      grind

/-- A grace period that begins before the response was stored only runs out. -/
lemma inGrace_of_le (hs : e.storedAt = stored.instant) (hn : e.hasGap stored = false)
    {early late : Duration} (hle : early ≤ late) (h : e.inGrace (stored.later late)) :
    e.inGrace (stored.later early) := by
  rw [inGrace_later hs] at h ⊢
  obtain ⟨grace, hg, ⟨maxAge, ha, hl, hu⟩ | ⟨ha, expires, he, h0, hl, hu⟩⟩ := h
  · have hp : 0 < grace := by grind
    simp [hasGap, hg, ha, hp] at hn
  · have hp : 0 < grace ∧ expires < stored.system := by grind [hasGap]
    exact ⟨grace, hg, .inr ⟨ha, expires, he, h0, by grind, by grind⟩⟩

end CacheEntry

variable {cache : InMemoryCacheStore} {method : Method} {uri : Uri} {requestHeaders : HeaderMap}

/-- What may be used without a request may always have been used so before, since it was stored,
exactly if no grace period begins after the lifetime. -/
theorem use_antitone_iff {x : Exchange} (hentry : x.entry stored = some (some e))
    (hfind : findVariant cache method uri requestHeaders = some e) :
    (∀ early late, early ≤ late →
        (lookup cache (stored.later late) method uri requestHeaders).isFresh = true →
        (lookup cache (stored.later early) method uri requestHeaders).isFresh = true) ↔
      e.hasGap stored = false := by
  have hs := storedAt_of_entry hentry
  simp only [lookup_of_find hfind, isFresh_serveEntry, isFresh_later hs]
  constructor
  · intro ha
    by_contra hg
    obtain ⟨hn, hl⟩ := exists_gap hs (by simpa using hg)
    rcases ha _ _ (le_add_right _ 1) (.inr hl) with ⟨h, -⟩ | h
    · exact lt_irrefl _ h
    · exact Bool.false_ne_true (hn.symm.trans h)
  · rintro hn early late hle (⟨hf, hu⟩ | hg)
    · exact .inl ⟨lt_of_le_of_lt hle hf, hu⟩
    · exact .inr (inGrace_of_le hs hn hle hg)

theorem use_antitone_iff_immutable : (lookupAfter immutableNoCache 20).isFresh = true := by
  have he : (directedExchange immutableNoCache).entry ⟨0, 0⟩ =
      some (some (directedEntry immutableNoCache)) := by decide
  exact (use_antitone_iff he (by decide)).mpr (by decide) (fromSecs 20) (fromSecs 59) (by decide)
    (by decide)

def graced : HeaderValue := ⟨ascii "max-age=60, stale-while-revalidate=30", by decide⟩

/-- At the end of the lifetime the grace period has not begun. -/
theorem gap_at_expiry : (lookupAfter graced 61).isFresh = true ∧
    (lookupAfter graced 60).isFresh = false := by decide

def Answer.isError : Answer → Bool
  | .response status | .challenged (.ok status) => isServerError status
  | .failed _ | .challenged (.error _) => true

def excused : HeaderValue := ⟨ascii "max-age=60, stale-if-error=30", by decide⟩

/-- The lines of all fields of the one are those of the other. -/
def Carries (headers updated : HeaderMap) : Prop :=
  ∀ name, updated.containsKey name = true → headers.getAll name = updated.getAll name

def storedExcused : InMemoryCacheStore := run 256 [.store [] ⟨0, 0⟩ (directedExchange excused)]

/-- `into_http_response`: an `Age` line is put behind the stored ones. -/
def CachedResponse.responseHeaders (cached : CachedResponse) : HeaderMap :=
  match HeaderValue.fromStr (numeral (cached.age / 10 ^ 9)) with
  | some secs => cached.headers.append .age secs
  | none => cached.headers

def Exchange.receivedAge (x : Exchange) : Nat :=
  (((x.headers.get .age).bind HeaderValue.toStr).bind (parseUnsigned 64)).getD 0

/-- The received age counts: for freshness, and in the one `Age` line that is told. -/
structure AgeCounted (x : Exchange) (lifetime passed : Duration) (lookup : CacheLookup) : Prop where
  fresh : lookup.isFresh = true → fromSecs x.receivedAge + passed < lifetime
  told : ∀ cached, lookup.response = some cached → ∃ value : HeaderValue,
    ∃ secs, cached.responseHeaders.getAll .age = [value] ∧ value.bytes = numeral secs ∧
      x.receivedAge + passed / 10 ^ 9 ≤ secs

variable {x : Exchange}

lemma getAll_responseHeaders (cached : CachedResponse) : ∃ value : HeaderValue,
    value.bytes = numeral (cached.age / 10 ^ 9) ∧
      cached.responseHeaders.getAll .age = cached.headers.getAll .age ++ [value] := by
  obtain ⟨value, hv, hb, -⟩ := HeaderValue.fromStr_of_visible
    (visible_of_all (by decide +kernel) (isDigit_of_mem_numeral (cached.age / 10 ^ 9)))
  refine ⟨value, hb, ?_⟩
  rw [CachedResponse.responseHeaders, hv]
  exact MultiMap.getAll_append_self _ _ _

/-- The age is counted exactly if the response is not given out, or was received without an `Age`
field and its grace period does not run. -/
theorem age_counted_iff (hentry : x.entry stored = some (some e))
    (hfind : findVariant cache method uri requestHeaders = some e) (passed : Duration) :
    AgeCounted x (e.lifetime stored) passed
        (lookup cache (stored.later passed) method uri requestHeaders) ↔
      e.isServed (stored.later passed) = false ∨
        (x.headers.containsKey .age = false ∧ e.inGrace (stored.later passed) = false) := by
  rw [lookup_of_find hfind]
  have hr := serveEntry_response e (stored.later passed)
  have hf : e.isFresh (stored.later passed) ↔ _ := isFresh_later (storedAt_of_entry hentry)
  have hh : e.headers = x.headers ∧ e.storedAt = stored.instant := by
    obtain ⟨names, expires, -, -, rfl⟩ := entry_eq_some hentry
    exact ⟨rfl, rfl⟩
  obtain ⟨value, hv, hl⟩ := getAll_responseHeaders (e.cached (stored.later passed))
  have ha : (e.cached (stored.later passed)).age = passed := by
    simp [cached, age, Clock.later, hh.2]
  rw [show (e.cached (stored.later passed)).headers = x.headers from hh.1] at hl
  rw [ha] at hv
  cases hs : e.isServed (stored.later passed) with
  | false =>
    rw [serveEntry_eq_miss hs]
    refine iff_of_true ⟨fun h => ?_, fun cached h => ?_⟩ (.inl rfl)
    · cases h
    · cases h
  | true =>
    rw [hs, if_pos rfl] at hr
    rw [or_iff_right (by simp)]
    constructor
    · intro h
      obtain ⟨line, secs, ho, -⟩ := h.told _ hr
      have hnone : x.headers.getAll .age = [] := by
        rw [hl] at ho
        simpa using congrArg List.length ho
      refine ⟨MultiMap.containsKey_eq_false.mpr hnone, ?_⟩
      rw [Bool.eq_false_iff]
      intro hg
      have hlt := h.fresh ((isFresh_serveEntry e _).mpr (.inr hg))
      rw [not_isFresh_of_inGrace hg] at hf
      exact Bool.false_ne_true (hf.mpr (lt_of_le_of_lt (le_add_left _ _) hlt))
    rintro ⟨hnone, hg⟩
    have hnone := MultiMap.containsKey_eq_false.mp hnone
    have hrec : x.receivedAge = 0 := by simp [Exchange.receivedAge, MultiMap.get, hnone]
    refine ⟨fun h => ?_, fun cached hc => ?_⟩
    · rcases (isFresh_serveEntry e _).mp h with ⟨h, -⟩ | h
      · simpa [hrec, fromSecs] using hf.mp h
      · rw [hg] at h
        cases h
    obtain rfl := some.inj (hr.symm.trans hc)
    refine ⟨value, passed / 10 ^ 9, ?_, hv, ?_⟩
    · rw [hl, hnone, List.nil_append]
    · rw [hrec, zero_add]

theorem age_counted_iff_excused : AgeCounted (directedExchange excused)
    ((directedEntry excused).lifetime ⟨0, 0⟩) (fromSecs 59)
    (lookup storedExcused (Clock.later ⟨0, 0⟩ (fromSecs 59)) .get sampleUri ⟨[]⟩) :=
  (age_counted_iff (by decide) (by decide) (fromSecs 59)).mpr
    (.inr (by decide))

def agedExchange : Exchange :=
  { directedExchange excused with
    headers := ⟨(directedExchange excused).headers.lines ++ [(.age, ⟨ascii "50", by decide⟩)]⟩ }

/-- It is used after 20 seconds more, and has two `Age` lines then. -/
theorem received_age_ignored : ∃ cached,
    lookup (run 256 [.store [] ⟨0, 0⟩ agedExchange]) ⟨fromSecs 20, fromSecs 20⟩ .get sampleUri
      ⟨[]⟩ = .fresh cached ∧
    cached.responseHeaders.getAll .age = [⟨ascii "50", by decide⟩, ⟨ascii "20", by decide⟩] ∧
    agedExchange.receivedAge = 50 ∧
    (parseCacheControl agedExchange.headers).maxAge = some (fromSecs 60) :=
  ⟨(agedExchange.makeEntry ⟨0, 0⟩ [] none).cached ⟨fromSecs 20, fromSecs 20⟩, by decide⟩

end Aioduct.Cache
