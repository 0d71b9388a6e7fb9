import Aioduct.Cache.Separation
import Aioduct.Error

/-!
# Responses that ask for validation

`no-cache` asks that a stored response is validated before every use, `must-revalidate` that it is
once its lifetime is over. `stale-while-revalidate` and `stale-if-error` let it be used beyond that.
-/

namespace Aioduct.Cache

open Wire Http CacheEntry Nat

/-- What the origin answers; `challenged` is a digest challenge that was answered, with what came of
the second request. -/
inductive Answer where
  | response (status : StatusCode)
  | failed (error : Error)
  | challenged (retried : Except Error StatusCode)

inductive Returned where
  | stored (cached : CachedResponse) (validated : Bool)
  | origin (status : StatusCode)
  | error (error : Error)

def isServerError (status : StatusCode) : Bool := 500 ≤ status && status < 600

/-- The end of a request whose lookup is known. Without a fresh response the origin is asked. -/
def deliver (lookup : CacheLookup) (answer : Answer) : Returned :=
  match lookup, answer with
  | .fresh cached, _ => .stored cached false
  | .stale _ cached staleIfError, .response status =>
    if isServerError status && staleIfError.any (cached.age ≤ ·) then .stored cached false
    else if status = 304 then .stored cached true
    else .origin status
  | .stale _ cached staleIfError, .failed error =>
    if staleIfError.any (cached.age ≤ ·) then .stored cached false else .error error
  | .stale _ cached _, .challenged (.ok status) =>
    -- `stale_if_error` was looked at before the challenge.
    if status = 304 then .stored cached true else .origin status
  | .miss, .response status | .miss, .challenged (.ok status) => .origin status
  | .miss, .failed error | .miss, .challenged (.error error)
  | .stale _ _ _, .challenged (.error error) => .error error

/-- A lookup can end with the stored response although the origin was not asked, or failed. -/
def Unvalidated (lookup : CacheLookup) : Prop :=
  ∃ answer cached, deliver lookup answer = .stored cached false

def cacheDirectives (headers : HeaderMap) : List Bytes :=
  ((headers.getAll .cacheControl).flatMap fun value => value.bytes.splitOn (byte ',')).map
    fun part => lowercase (Utf8.trimText part)

/-- The directives are kept by every lookup that finds the entry. -/
structure Honoured (x : Exchange) (e : CacheEntry) (clock : Clock) (lookup : CacheLookup) :
    Prop where
  noCache : ascii "no-cache" ∈ cacheDirectives x.headers → ¬Unvalidated lookup
  mustRevalidate : ascii "must-revalidate" ∈ cacheDirectives x.headers →
    e.isFresh clock = false → ¬Unvalidated lookup

namespace CacheEntry

variable (self : CacheEntry) (clock : Clock)

def inGrace : Bool :=
  self.staleWhileRevalidate.any fun grace => (self.staleness clock).any (· ≤ grace)

def standsIn : Bool :=
  self.hasValidators && self.staleIfError.any (self.age clock ≤ ·)

def usedFresh : Bool := !self.mustRevalidate || self.immutable

def usedUnasked : Bool :=
  (self.isFresh clock && self.usedFresh) || self.inGrace clock

end CacheEntry

lemma unvalidated_fresh (cached : CachedResponse) : Unvalidated (.fresh cached) :=
  ⟨.response 200, cached, rfl⟩

lemma unvalidated_stale {validators : Validators} {cached : CachedResponse}
    {staleIfError : Option Duration} :
    Unvalidated (.stale validators cached staleIfError) ↔
      staleIfError.any (cached.age ≤ ·) := by
  constructor
  · rintro ⟨answer, cached', hd⟩
    cases answer with
    | response status =>
      simp only [deliver] at hd
      split at hd
      next hc =>
        exact (Bool.and_eq_true_iff.mp hc).2
      · split at hd <;> simp at hd
    | failed error =>
      simp only [deliver] at hd
      split at hd
      · assumption
      · simp at hd
    | challenged retried =>
      cases retried with
      | ok status =>
        simp only [deliver] at hd
        split at hd <;> simp at hd
      | error error => cases hd
  · intro h
    refine ⟨.failed (.other []), cached, ?_⟩
    simp [deliver, h]

lemma not_unvalidated_miss : ¬Unvalidated .miss := by
  rintro ⟨answer, cached, hd⟩
  cases answer with
  | challenged retried => cases retried <;> cases hd
  | _ => cases hd

variable (e : CacheEntry) (clock : Clock)

lemma serveEntry_eq : serveEntry e clock =
    if e.usedUnasked clock then .fresh (e.cached clock)
    else if e.hasValidators then
      .stale ⟨e.etag, e.lastModified⟩ (e.cached clock) e.staleIfError
    else .miss := by
  unfold serveEntry usedUnasked usedFresh inGrace
  cases e.isFresh clock <;> cases e.mustRevalidate <;> cases e.immutable <;> rfl

lemma usedUnasked_iff : e.usedUnasked clock ↔
    (e.isFresh clock ∧ e.usedFresh) ∨ e.inGrace clock := by simp [usedUnasked]

lemma unvalidated_serveEntry :
    Unvalidated (serveEntry e clock) ↔
      (e.isFresh clock ∧ e.usedFresh) ∨ e.inGrace clock ∨
        e.standsIn clock := by
  rw [← or_assoc, ← usedUnasked_iff, serveEntry_eq]
  split
  next hu =>
    simp [unvalidated_fresh, hu]
  rename_i hu
  rw [or_iff_right hu, standsIn]
  split
  next hv =>
    rw [unvalidated_stale, hv, Bool.true_and]
    rfl
  next hv =>
    simp [not_unvalidated_miss, hv]

def Clock.later (stored : Clock) (passed : Duration) : Clock :=
  ⟨stored.instant + passed, stored.system + passed⟩

namespace CacheEntry

variable (self : CacheEntry) (stored : Clock)

def lifetime : Duration :=
  match self.maxAge with
  | some maxAge => maxAge
  | none =>
    match self.expiresAt with
    | some expires => (expires - stored.system).toNat
    | none => 0

def everInGrace : Bool :=
  self.staleWhileRevalidate.any fun grace : Duration => 0 < grace &&
    (self.maxAge.isSome || self.expiresAt.any fun expires =>
      0 ≤ expires && stored.system ≤ expires + grace)

def everStandsIn : Bool := self.hasValidators && self.staleIfError.isSome

def everStandsInStale : Bool :=
  self.hasValidators && self.staleIfError.any (self.lifetime stored ≤ ·)

variable {e : CacheEntry} {stored : Clock} {passed : Duration}

lemma age_later (h : e.storedAt = stored.instant) : e.age (stored.later passed) = passed := by
  rw [age, Clock.later, h]
  exact Nat.add_sub_cancel_left _ _

lemma isFresh_later (h : e.storedAt = stored.instant) :
    e.isFresh (stored.later passed) ↔ passed < e.lifetime stored := by
  unfold isFresh lifetime
  cases e.maxAge with
  | some maxAge => simp [age_later h]
  | none =>
    cases e.expiresAt with
    | none => simp
    | some expires =>
      simp only [Option.any_some, Clock.later]
      grind

/-- When the grace period runs: after the lifetime has ended, and until the period is over. -/
lemma inGrace_later (h : e.storedAt = stored.instant) :
    e.inGrace (stored.later passed) ↔ ∃ grace, e.staleWhileRevalidate = some grace ∧
      ((∃ maxAge, e.maxAge = some maxAge ∧ maxAge < passed ∧ passed ≤ maxAge + grace) ∨
        e.maxAge = none ∧ ∃ expires, e.expiresAt = some expires ∧ 0 ≤ expires ∧
          expires < stored.system + passed ∧ stored.system + passed ≤ expires + grace) := by
  unfold inGrace staleness
  rw [age_later h]
  cases e.staleWhileRevalidate with
  | none => simp
  | some grace =>
    cases e.maxAge with
    | some maxAge =>
      simp only [Option.any_some, Option.some.injEq, exists_eq_left', reduceCtorEq, false_and,
        or_false]
      grind
    | none =>
      cases e.expiresAt with
      | none => simp
      | some expires =>
        simp only [Option.any_some, Option.some.injEq, exists_eq_left', reduceCtorEq, false_and,
          exists_false, true_and, false_or, Clock.later]
        grind

lemma not_isFresh_of_inGrace {e : CacheEntry} {clock : Clock} (h : e.inGrace clock) :
    e.isFresh clock = false := by
  obtain ⟨grace, -, h⟩ := Option.any_eq_true _ _ |>.mp h
  obtain ⟨staleness, hs, -⟩ := Option.any_eq_true _ _ |>.mp h
  unfold CacheEntry.staleness at hs
  unfold isFresh
  cases ha : e.maxAge with
  | some maxAge =>
    simp only [ha] at hs
    split at hs
    next hlt =>
      simp only [decide_eq_false_iff_not]
      exact not_lt.mpr hlt.le
    · cases hs
  | none =>
    simp only [ha] at hs
    cases he : e.expiresAt with
    | none => rfl
    | some expires =>
      simp only [he] at hs
      split at hs
      next hlt =>
        simp only [Option.any_some, decide_eq_false_iff_not]
        exact not_lt.mpr hlt.2.2.le
      · cases hs

lemma exists_inGrace (h : e.storedAt = stored.instant) :
    (∃ passed, e.inGrace (stored.later passed)) ↔ e.everInGrace stored := by
  simp only [inGrace_later h, everInGrace, Option.any_eq_true, Bool.and_eq_true, Bool.or_eq_true,
    decide_eq_true_eq, Option.isSome_iff_exists]
  constructor
  · rintro ⟨passed, grace, hg, ⟨maxAge, ha, hl, hu⟩ | ⟨-, expires, he, h0, hl, hu⟩⟩
    · exact ⟨grace, hg, by grind, .inl ⟨maxAge, ha⟩⟩
    · exact ⟨grace, hg, by grind, .inr ⟨expires, he, h0, by grind⟩⟩
  rintro ⟨grace, hg, hpos, h⟩
  cases ha : e.maxAge with
  | some maxAge => exact ⟨maxAge + 1, grace, hg, .inl ⟨maxAge, rfl, by grind, by grind⟩⟩
  | none =>
    rw [ha] at h
    obtain ⟨expires, he, h0, hu⟩ := h.resolve_left (by simp)
    -- as soon as the date is over, or at once
    exact ⟨(expires + 1 - stored.system).toNat, grace, hg,
      .inr ⟨rfl, expires, he, h0, by grind, by grind⟩⟩

lemma exists_standsIn (h : e.storedAt = stored.instant) :
    (∃ passed, e.standsIn (stored.later passed)) ↔ e.everStandsIn := by
  simp only [standsIn, everStandsIn, age_later h]
  cases e.staleIfError with
  | none => simp
  | some grace =>
    simp only [Option.any_some, Option.isSome_some, Bool.and_true, Bool.and_eq_true,
      decide_eq_true_eq]
    exact ⟨fun ⟨_, hv, _⟩ => hv, fun hv => ⟨0, hv, Nat.zero_le _⟩⟩

lemma exists_standsIn_stale (h : e.storedAt = stored.instant) :
    (∃ passed, e.isFresh (stored.later passed) = false ∧ e.standsIn (stored.later passed)) ↔
      e.everStandsInStale stored := by
  simp only [standsIn, everStandsInStale, age_later h, Bool.eq_false_iff, Ne, isFresh_later h,
    not_lt]
  cases e.staleIfError with
  | none => simp
  | some grace =>
    simp only [Option.any_some, Bool.and_eq_true, decide_eq_true_eq]
    exact ⟨fun ⟨_, hl, hv, hg⟩ => ⟨hv, hl.trans hg⟩, fun ⟨hv, hg⟩ => ⟨_, le_rfl, hv, hg⟩⟩

end CacheEntry

/-- Nothing in the entry overrides the directives of the response. -/
structure NothingOverrides (x : Exchange) (e : CacheEntry) (stored : Clock) : Prop where
  noCache : ascii "no-cache" ∈ cacheDirectives x.headers →
    ¬(0 < e.lifetime stored ∧ e.usedFresh = true) ∧ e.everInGrace stored = false ∧
      e.everStandsIn = false
  mustRevalidate : ascii "must-revalidate" ∈ cacheDirectives x.headers →
    e.everInGrace stored = false ∧ e.everStandsInStale stored = false

section

variable {e : CacheEntry} {stored : Clock} (h : e.storedAt = stored.instant)

include h

lemma never_unvalidated_iff :
    (∀ passed, ¬Unvalidated (serveEntry e (stored.later passed))) ↔
      ¬(0 < e.lifetime stored ∧ e.usedFresh = true) ∧ e.everInGrace stored = false ∧
        e.everStandsIn = false := by
  simp only [unvalidated_serveEntry, isFresh_later h, Bool.eq_false_iff (b := e.everInGrace stored),
    Bool.eq_false_iff (b := e.everStandsIn), ne_eq, ← exists_inGrace h, ← exists_standsIn h]
  constructor
  · intro hn
    refine ⟨fun ⟨hf, hu⟩ => hn 0 (.inl ⟨hf, hu⟩), ?_, ?_⟩
    · rintro ⟨passed, hg⟩
      exact hn passed (.inr (.inl hg))
    · rintro ⟨passed, hs⟩
      exact hn passed (.inr (.inr hs))
  rintro ⟨hf, hg, hs⟩ passed (⟨hl, hu⟩ | hi | hi)
  · exact hf ⟨Nat.zero_lt_of_lt hl, hu⟩
  · exact hg ⟨passed, hi⟩
  · exact hs ⟨passed, hi⟩

lemma never_unvalidated_stale_iff :
    (∀ passed, e.isFresh (stored.later passed) = false →
        ¬Unvalidated (serveEntry e (stored.later passed))) ↔
      e.everInGrace stored = false ∧ e.everStandsInStale stored = false := by
  simp only [unvalidated_serveEntry, Bool.eq_false_iff (b := e.everInGrace stored),
    Bool.eq_false_iff (b := e.everStandsInStale stored), ne_eq, ← exists_inGrace h,
    ← exists_standsIn_stale h]
  constructor
  · intro hn
    refine ⟨?_, ?_⟩
    · rintro ⟨passed, hg⟩
      exact hn passed (not_isFresh_of_inGrace hg) (.inr (.inl hg))
    · rintro ⟨passed, hs, hsta⟩
      exact hn passed hs (.inr (.inr hsta))
  rintro ⟨hg, hsta⟩ passed hs (⟨hi, -⟩ | hi | hi)
  · rw [hs] at hi
    cases hi
  · exact hg ⟨passed, hi⟩
  · exact hsta ⟨passed, hs, hi⟩

end

lemma lookup_of_find {e : CacheEntry} {cache : InMemoryCacheStore} {method : Method} {uri : Uri}
    {requestHeaders : HeaderMap} (hf : findVariant cache method uri requestHeaders = some e)
    (clock : Clock) : lookup cache clock method uri requestHeaders = serveEntry e clock := by
  simp [lookup, hf]

lemma storedAt_of_entry {x : Exchange} {stored : Clock} {e : CacheEntry}
    (h : x.entry stored = some (some e)) : e.storedAt = stored.instant := by
  obtain ⟨names, expires, -, -, rfl⟩ := entry_eq_some h
  rfl

/-- A stored response is used as its directives ask at every later time exactly if nothing in its
entry overrides them. -/
theorem honoured_iff {x : Exchange} {stored : Clock} {e : CacheEntry}
    (hentry : x.entry stored = some (some e)) {cache : InMemoryCacheStore} {method : Method}
    {uri : Uri} {requestHeaders : HeaderMap}
    (hfind : findVariant cache method uri requestHeaders = some e) :
    (∀ passed, Honoured x e (stored.later passed)
        (lookup cache (stored.later passed) method uri requestHeaders)) ↔
      NothingOverrides x e stored := by
  have hs := storedAt_of_entry hentry
  simp only [lookup_of_find hfind]
  constructor
  · intro h
    refine ⟨fun hd => ?_, fun hd => ?_⟩
    · exact (never_unvalidated_iff hs).mp fun passed => (h passed).noCache hd
    · exact (never_unvalidated_stale_iff hs).mp fun passed => (h passed).mustRevalidate hd
  intro h passed
  refine ⟨fun hd => ?_, fun hd => ?_⟩
  · exact (never_unvalidated_iff hs).mpr (h.noCache hd) passed
  · exact (never_unvalidated_stale_iff hs).mpr (h.mustRevalidate hd) passed

variable (cacheControl : HeaderValue)

def directedExchange : Exchange where
  method := .get
  uri := sampleUri
  status := 200
  headers := ⟨[(.cacheControl, cacheControl), (.etag, ⟨ascii "\"1\"", by decide⟩)]⟩
  body := ascii "old"
  requestHeaders := ⟨[]⟩

def directedEntry : CacheEntry := (directedExchange cacheControl).makeEntry ⟨0, 0⟩ [] none

def secondsLater (seconds : Nat) : Clock := Clock.later ⟨0, 0⟩ (fromSecs seconds)

def lookupAfter (seconds : Nat) : CacheLookup :=
  lookup (run 256 [.store [] ⟨0, 0⟩ (directedExchange cacheControl)]) (secondsLater seconds) .get
    sampleUri ⟨[]⟩

def plainNoCache : HeaderValue := ⟨ascii "no-cache, max-age=60", by decide⟩

def immutableNoCache : HeaderValue := ⟨ascii "no-cache, max-age=60, immutable", by decide⟩

def graceRevalidate : HeaderValue :=
  ⟨ascii "must-revalidate, max-age=60, stale-while-revalidate=30", by decide⟩

def errorRevalidate : HeaderValue :=
  ⟨ascii "must-revalidate, max-age=60, stale-if-error=300", by decide⟩

theorem honoured_iff_no_cache :
    (∀ passed, Honoured (directedExchange plainNoCache) (directedEntry plainNoCache)
        (Clock.later ⟨0, 0⟩ passed)
        (lookup (run 256 [.store [] ⟨0, 0⟩ (directedExchange plainNoCache)])
          (Clock.later ⟨0, 0⟩ passed) .get sampleUri ⟨[]⟩)) ↔
      NothingOverrides (directedExchange plainNoCache) (directedEntry plainNoCache) ⟨0, 0⟩ := by
  have he : (directedExchange plainNoCache).entry ⟨0, 0⟩ =
      some (some (directedEntry plainNoCache)) := by decide
  have hf : findVariant (run 256 [.store [] ⟨0, 0⟩ (directedExchange plainNoCache)]) .get
      sampleUri ⟨[]⟩ = some (directedEntry plainNoCache) := by decide
  exact honoured_iff he hf

/-- `immutable` overrides `no-cache`, and both grace periods override `must-revalidate`. -/
theorem directives_overridden :
    (lookupAfter immutableNoCache 1 =
        .fresh ((directedEntry immutableNoCache).cached (secondsLater 1)) ∧
      ¬Honoured (directedExchange immutableNoCache) (directedEntry immutableNoCache)
        (secondsLater 1) (lookupAfter immutableNoCache 1)) ∧
    (lookupAfter graceRevalidate 61 =
        .fresh ((directedEntry graceRevalidate).cached (secondsLater 61)) ∧
      ¬Honoured (directedExchange graceRevalidate) (directedEntry graceRevalidate)
        (secondsLater 61) (lookupAfter graceRevalidate 61)) ∧
    (deliver (lookupAfter errorRevalidate 61) (.response 503) =
        .stored ((directedEntry errorRevalidate).cached (secondsLater 61)) false ∧
      ¬Honoured (directedExchange errorRevalidate) (directedEntry errorRevalidate)
        (secondsLater 61) (lookupAfter errorRevalidate 61)) := by
  have hi : lookupAfter immutableNoCache 1 =
      .fresh ((directedEntry immutableNoCache).cached (secondsLater 1)) := by decide
  have hg : lookupAfter graceRevalidate 61 =
      .fresh ((directedEntry graceRevalidate).cached (secondsLater 61)) := by decide
  have he : lookupAfter errorRevalidate 61 =
      .stale ⟨some (ascii "\"1\""), none⟩
        ((directedEntry errorRevalidate).cached (secondsLater 61)) (some (fromSecs 300)) := by
    decide
  have hd : deliver (lookupAfter errorRevalidate 61) (.response 503) =
      .stored ((directedEntry errorRevalidate).cached (secondsLater 61)) false := by
    rw [he]
    rfl
  refine ⟨⟨hi, fun h => ?_⟩, ⟨hg, fun h => ?_⟩, hd, fun h => ?_⟩
  · refine h.noCache (by decide) ?_
    rw [hi]
    exact unvalidated_fresh _
  · refine h.mustRevalidate (by decide) (by decide) ?_
    rw [hg]
    exact unvalidated_fresh _
  · exact h.mustRevalidate (by decide) (by decide) ⟨_, _, hd⟩

end Aioduct.Cache
