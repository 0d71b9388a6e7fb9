import Aioduct.Cache.Headers
import Aioduct.Wire.Assoc
import Aioduct.Wire.Keyed

/-!
# The response cache

`cache/mod.rs`, `cache/policy.rs` and `cache/store.rs`: entries by method and URI, with variants for
the request fields that `Vary` names. The clocks are read once for a call; the order in which the
hash map is walked is an argument.
-/

namespace Aioduct.Cache

open Wire Http

structure Clock where
  instant : Nat
  system : SystemTime

abbrev VaryHeaders := List (Bytes × Option Bytes)

structure CacheEntry where
  status : StatusCode
  headers : HeaderMap
  body : Bytes
  storedAt : Nat
  maxAge : Option Duration
  expiresAt : Option SystemTime
  etag : Option Bytes
  lastModified : Option Bytes
  mustRevalidate : Bool
  immutable : Bool
  staleWhileRevalidate : Option Duration
  staleIfError : Option Duration
  vary : Option (List Bytes)
  requestVaryHeaders : Option VaryHeaders
  deriving DecidableEq

namespace CacheEntry

variable (self : CacheEntry)

def age (clock : Clock) : Duration := clock.instant - self.storedAt

def isFresh (clock : Clock) : Bool :=
  match self.maxAge with
  | some maxAge => self.age clock < maxAge
  | none => self.expiresAt.any (clock.system < ·)

def staleness (clock : Clock) : Option Duration :=
  match self.maxAge with
  | some maxAge => if maxAge < self.age clock then some (self.age clock - maxAge) else none
  | none =>
    match self.expiresAt with
    | some expires =>
      if 0 ≤ clock.system ∧ 0 ≤ expires ∧ expires < clock.system then
        some (clock.system - expires).toNat
      else none
    | none => none

def hasValidators : Bool := self.etag.isSome || self.lastModified.isSome

end CacheEntry

variable (method : Method)

def isCacheableMethod : Bool := method == .get || method == .head

def isCacheableStatus (status : StatusCode) : Bool :=
  [200, 203, 204, 206, 300, 301, 308, 404, 405, 410, 414, 501].contains status

def isUnsafeMethod : Bool :=
  !(method == .get || method == .head || method == .options || method == .trace)

def hasUnresolvedHost (vary : List Bytes) (requestHeaders : HeaderMap) : Bool :=
  !requestHeaders.containsKey .host && vary.any (eqIgnoreCase · (ascii "host"))

def varyValue (requestHeaders : HeaderMap) (name : Bytes) : Option Bytes :=
  ((HeaderName.fromBytes name).bind requestHeaders.get).bind HeaderValue.toStr

def varyMatches (entry : CacheEntry) (requestHeaders : HeaderMap) : Bool :=
  match entry.vary with
  | none => true
  | some names =>
    if hasUnresolvedHost names requestHeaders then false
    else
      match entry.requestVaryHeaders with
      | none => true
      | some stored =>
        stored.all fun field =>
          field.1 != ascii "*" && varyValue requestHeaders field.1 == field.2

def isResponseCacheable (status : StatusCode) (headers : HeaderMap) : Bool :=
  let directives := parseCacheControl headers
  isCacheableStatus status && !(directives.noStore || directives.isPrivate) &&
    (directives.maxAge.isSome || headers.containsKey .expires || headers.containsKey .etag ||
      headers.containsKey .lastModified)

/-- What the equality of the keys compares: authorities are equal without regard to case. -/
structure CacheKey where
  method : Method
  scheme : Option Bytes
  authority : Option Bytes
  path : Bytes
  query : Option Bytes
  deriving DecidableEq

def cacheKey (uri : Uri) : CacheKey where
  method := method
  scheme := uri.scheme
  authority := uri.authority.map fun authority => lowercase authority.text
  path := uri.path
  query := uri.query

abbrev Entries := List (CacheKey × List CacheEntry)

structure InMemoryCacheStore where
  entries : Entries := []
  maxEntries : Nat := 256

def swapRemove (l : List CacheEntry) (index : Nat) : List CacheEntry :=
  match l.getLast? with
  | none => l
  | some last => if index + 1 = l.length then l.dropLast else (l.dropLast).set index last

/-- The first of the entries that were stored first. -/
def oldestIndex (variants : List CacheEntry) : Option Nat :=
  (variants.map CacheEntry.storedAt).min?.bind fun time =>
    variants.findIdx? fun entry => entry.storedAt == time

def oldestTime (variants : List CacheEntry) : Option Nat := (variants.map CacheEntry.storedAt).min?

def findOldestEntry (order : Entries) : Option CacheKey :=
  let times := order.filterMap fun item => (oldestTime item.2).map fun time => (item.1, time)
  (times.map Prod.snd).min?.bind fun time =>
    (times.find? fun item => item.2 == time).map Prod.fst

namespace InMemoryCacheStore

def get (store : InMemoryCacheStore) (key : CacheKey) : List CacheEntry :=
  (Assoc.get store.entries key).getD []

def remove (store : InMemoryCacheStore) (key : CacheKey) : InMemoryCacheStore :=
  { store with entries := store.entries.filter (·.1 ≠ key) }

def len (store : InMemoryCacheStore) : Nat :=
  store.entries.foldl (fun total item => total + item.2.length) 0

def evict (store : InMemoryCacheStore) (order : Entries) : InMemoryCacheStore :=
  if store.maxEntries ≤ store.len then
    match findOldestEntry order with
    | none => store
    | some key =>
      if (store.get key).length ≤ 1 then store.remove key
      else
        { store with
          entries := Assoc.replaceOrAppend store.entries key
            (swapRemove (store.get key) ((oldestIndex (store.get key)).getD 0)) }
  else store

def put (store : InMemoryCacheStore) (order : Entries) (key : CacheKey) (entry : CacheEntry) :
    InMemoryCacheStore :=
  let store := store.evict order
  { store with
    entries := Assoc.replaceOrAppend store.entries key
      (Keyed.upsert CacheEntry.requestVaryHeaders (store.get key) entry) }

end InMemoryCacheStore

structure CachedResponse where
  status : StatusCode
  headers : HeaderMap
  body : Bytes
  age : Duration
  deriving DecidableEq

structure Validators where
  etag : Option Bytes
  lastModified : Option Bytes
  deriving DecidableEq

inductive CacheLookup where
  | fresh (cached : CachedResponse)
  | stale (validators : Validators) (cached : CachedResponse) (staleIfError : Option Duration)
  | miss
  deriving DecidableEq

def CacheEntry.cached (entry : CacheEntry) (clock : Clock) : CachedResponse where
  status := entry.status
  headers := entry.headers
  body := entry.body
  age := entry.age clock

def serveEntry (entry : CacheEntry) (clock : Clock) : CacheLookup :=
  if entry.isFresh clock && !entry.mustRevalidate then .fresh (entry.cached clock)
  else if entry.immutable && entry.isFresh clock then .fresh (entry.cached clock)
  else if entry.staleWhileRevalidate.any fun grace => (entry.staleness clock).any (· ≤ grace) then
    .fresh (entry.cached clock)
  else if entry.hasValidators then
    .stale ⟨entry.etag, entry.lastModified⟩ (entry.cached clock) entry.staleIfError
  else .miss

def findVariant (store : InMemoryCacheStore) (method : Method) (uri : Uri)
    (requestHeaders : HeaderMap) : Option CacheEntry :=
  if isCacheableMethod method then
    (store.get (cacheKey method uri)).find? fun entry => varyMatches entry requestHeaders
  else none

def lookup (store : InMemoryCacheStore) (clock : Clock) (method : Method) (uri : Uri)
    (requestHeaders : HeaderMap) : CacheLookup :=
  match findVariant store method uri requestHeaders with
  | none => .miss
  | some entry => serveEntry entry clock

def varyNames (headers : HeaderMap) : Option (List Bytes) :=
  ((headers.getAll .vary).mapM HeaderValue.toStr).map fun lines =>
    (lines.flatMap (List.splitOn (byte ','))).map fun name => lowercase (Utf8.trimText name)

structure Exchange where
  method : Method
  uri : Uri
  status : StatusCode
  headers : HeaderMap
  body : Bytes
  requestHeaders : HeaderMap

namespace Exchange

variable (x : Exchange)

/-- The response may be stored; `names` are the names of its `Vary` lines. -/
def admits (names : List Bytes) : Bool :=
  let directives := parseCacheControl x.headers
  isCacheableMethod x.method && isCacheableStatus x.status &&
    !(directives.noStore || directives.isPrivate) &&
    !(directives.noCache &&
      !(x.headers.containsKey .etag || x.headers.containsKey .lastModified)) &&
    !hasUnresolvedHost names x.requestHeaders

def keptNames (names : List Bytes) : Option (List Bytes) :=
  if names.isEmpty then none else some names

def makeEntry (clock : Clock) (names : List Bytes) (expires : Option SystemTime) : CacheEntry :=
  let directives := parseCacheControl x.headers
  { status := x.status
    headers := x.headers
    body := x.body
    storedAt := clock.instant
    maxAge := directives.maxAge
    expiresAt := expires
    etag := (x.headers.get .etag).bind HeaderValue.toStr
    lastModified := (x.headers.get .lastModified).bind HeaderValue.toStr
    mustRevalidate := directives.mustRevalidate
    immutable := directives.immutable
    staleWhileRevalidate := directives.staleWhileRevalidate
    staleIfError := directives.staleIfError
    vary := keptNames names
    requestVaryHeaders := (keptNames names).map fun names =>
      names.map fun name => (name, varyValue x.requestHeaders name) }

/-- The expiry that an entry keeps: only without a lifetime is `Expires` read. -/
def keptExpires : Option (Option SystemTime) :=
  if (parseCacheControl x.headers).maxAge.isNone then parseExpires x.headers else some none

/-- The entry of a response that may be stored. The outer `none` is an overflow while `Expires` is
read. -/
def entry (clock : Clock) : Option (Option CacheEntry) :=
  match varyNames x.headers with
  | none => some none
  | some names =>
    if x.admits names then
      (x.keptExpires).map fun expires => some (x.makeEntry clock names expires)
    else some none

end Exchange

variable (cache : InMemoryCacheStore)

/-- A panic leaves the store as it was: its lock is not held yet. -/
def store (order : Entries) (clock : Clock) (x : Exchange) : InMemoryCacheStore :=
  match x.entry clock with
  | some (some entry) => cache.put order (cacheKey x.method x.uri) entry
  | _ => cache

def invalidate (method : Method) (uri : Uri) : InMemoryCacheStore :=
  if isUnsafeMethod method then (cache.remove (cacheKey .get uri)).remove (cacheKey .head uri)
  else cache

inductive CacheCall where
  | store (order : Entries) (clock : Clock) (x : Exchange)
  | lookup (clock : Clock) (method : Method) (uri : Uri) (requestHeaders : HeaderMap)
  | invalidate (method : Method) (uri : Uri)
  | clear

/-- What a call leaves behind; a lookup changes nothing. -/
def InMemoryCacheStore.call : CacheCall → InMemoryCacheStore
  | .store order clock x => Cache.store cache order clock x
  | .lookup _ _ _ _ => cache
  | .invalidate method uri => Cache.invalidate cache method uri
  | .clear => { cache with entries := [] }

def run (maxEntries : Nat) (calls : List CacheCall) : InMemoryCacheStore :=
  calls.foldl InMemoryCacheStore.call { maxEntries := maxEntries }

end Aioduct.Cache
