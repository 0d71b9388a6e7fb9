import Aioduct.Pool.Key
import Aioduct.Time
import Aioduct.Wire.Table

/-!
# The connection pool

`pool/mod.rs` and `pool/connection.rs`: handles on connections, the connections that are idle, and
what the pool does with them while its lock is held. The clock is read once for an operation.
-/

namespace Aioduct.Pool

open Wire

inductive HttpConnection where
  | h1
  | h2
  | h3
  deriving DecidableEq

/-- A handle on a connection. `transport` tells the connections apart, `names` are those of the
certificate of the peer, and `key` is there while the handle counts as active in the pool. -/
structure PooledConnection where
  transport : Nat
  conn : HttpConnection
  remoteAddr : Option SocketAddr := none
  names : List Bytes := []
  sans : List Bytes := []
  createdAt : Instant
  isMultiplexClone : Bool := false
  /-- Whether it holds a permit for a stream. -/
  permit : Bool := false
  key : Option PoolKey := none
  sans_names : sans = [] ∨ sans = names
  permit_clone : permit = true → isMultiplexClone = true

structure Transport where
  activeStreams : Nat := 0
  retired : Bool := false

abbrev Transports := Nat → Transport

/-- When an operation takes place, and which connections can then take a request. -/
structure Moment where
  now : Instant
  ready : Nat → Bool

/-- `Instant::duration_since`: no time has passed since a later instant. -/
def durationSince (now since : Instant) : Nat := (now - since).toNat

namespace PooledConnection

variable (self : PooledConnection)

def isH2OrH3 : Bool :=
  match self.conn with
  | .h1 => false
  | .h2 => true
  | .h3 => true

def isH3 : Bool := self.conn = .h3

def isReady (moment : Moment) (transports : Transports) : Bool :=
  !(transports self.transport).retired && moment.ready self.transport

def acquireMultiplexPermit (transports : Transports) (maxActive : Option Nat) : Option Transports :=
  let shared := transports self.transport
  if !self.isH2OrH3 || maxActive.any (· ≤ shared.activeStreams) then none
  else some <| Function.update transports self.transport
    { shared with activeStreams := shared.activeStreams + 1 }

/-- Another handle on the same connection, with a permit of its own. -/
def clone : PooledConnection :=
  { self with isMultiplexClone := true, permit := true, permit_clone := fun _ => rfl }

def cloneForMultiplexWithLimit (transports : Transports) (maxActive : Option Nat) :
    Option (PooledConnection × Transports) :=
  if (transports self.transport).retired then none
  else (self.acquireMultiplexPermit transports maxActive).map fun transports =>
    (self.clone, transports)

def withoutPermit : PooledConnection :=
  { self with permit := false, permit_clone := fun h => Bool.noConfusion h }

def withKey (key : Option PoolKey) : PooledConnection := { self with key := key }

/-- The names of the certificate are looked up when the connection is given back. -/
def populateSans : PooledConnection :=
  if self.isH2OrH3 && self.sans.isEmpty then
    { self with sans := self.names, sans_names := .inr rfl }
  else self

lemma sans_populateSans (h : self.populateSans.isH2OrH3) :
    self.populateSans.sans = self.populateSans.names := by
  unfold populateSans at h ⊢
  split at h
  next hs => rw [if_pos hs]
  next hs =>
    rw [if_neg hs]
    rw [h, Bool.true_and, List.isEmpty_iff] at hs
    exact self.sans_names.resolve_left hs

lemma mem_names_of_mem_sans {name : Bytes} (h : name ∈ self.sans) : name ∈ self.names :=
  self.sans_names.elim (fun hn => absurd (hn ▸ h) List.not_mem_nil) fun hn => hn ▸ h

end PooledConnection

/-- A connection that nobody uses. It holds neither a slot nor a permit, so that nothing else changes
when it is dropped. -/
structure IdleConnection where
  connection : PooledConnection
  idleSince : Instant
  key_none : connection.key = none
  not_clone : connection.isMultiplexClone = false

namespace IdleConnection

def new (connection : PooledConnection) (now : Instant)
    (not_clone : connection.isMultiplexClone = false) : IdleConnection where
  connection := connection.withKey none
  idleSince := now
  key_none := rfl
  not_clone := not_clone

def touched (self : IdleConnection) (now : Instant) : IdleConnection := { self with idleSince := now }

end IdleConnection

structure PoolConfig where
  maxIdlePerHost : Nat := 10
  maxActivePerHost : Option Nat := none
  maxActiveStreams : Option Nat := none
  idleTimeout : Nat := 90 * 10 ^ 9
  maxLifetime : Option Nat := none
  /-- The limits are `NonZeroUsize`. -/
  active_pos : ∀ max ∈ maxActivePerHost, 0 < max
  streams_pos : ∀ max ∈ maxActiveStreams, 0 < max

/-- The queues of idle connections by key, the oldest first; the keys by certificate name; and how
many handles of a key are active. -/
structure PoolInner where
  config : PoolConfig
  idle : Table PoolKey (List IdleConnection) := ∅
  sanIndex : Table Bytes (List PoolKey) := ∅
  active : Counters PoolKey := ∅

namespace PoolConfig

def new : PoolConfig where
  active_pos max h := absurd h (Option.not_mem_none max)
  streams_pos max h := absurd h (Option.not_mem_none max)

variable (self : PoolConfig)

def withMaxActivePerHost (max : Nat) (h : 0 < max) : PoolConfig :=
  { self with maxActivePerHost := some max, active_pos := fun _ hmem => Option.some.inj hmem ▸ h }

def withinLifetime (now : Instant) (connection : PooledConnection) : Bool :=
  match self.maxLifetime with
  | some max => durationSince now connection.createdAt < max
  | none => true

def idleTooLong (now : Instant) (entry : IdleConnection) : Bool :=
  self.idleTimeout ≤ durationSince now entry.idleSince

def usable (now : Instant) (entry : IdleConnection) : Bool :=
  !self.idleTooLong now entry && self.withinLifetime now entry.connection

end PoolConfig

/-- What the search through a queue found: the handle that is handed out, the entry that goes to the
back of the queue, those that were passed over, and those that were not reached. -/
structure Scan where
  found : Option PooledConnection := none
  back : List IdleConnection := []
  retained : List IdleConnection := []
  rest : List IdleConnection := []
  transports : Transports

def Scan.kept (scan : Scan) : List IdleConnection := scan.back ++ scan.retained ++ scan.rest

def Scan.retain (entry : IdleConnection) (scan : Scan) : Scan :=
  { scan with retained := entry :: scan.retained }

def scan (config : PoolConfig) (moment : Moment) (transports : Transports) (key : PoolKey)
    (accepts : PooledConnection → Bool) : List IdleConnection → Scan
  | [] => { transports := transports }
  | entry :: queue =>
    if !config.usable moment.now entry then scan config moment transports key accepts queue
    else if !accepts entry.connection then
      (scan config moment transports key accepts queue).retain entry
    else if entry.connection.isReady moment transports then
      if entry.connection.isH2OrH3 then
        match entry.connection.cloneForMultiplexWithLimit transports config.maxActiveStreams with
        | some (cloned, transports) =>
          { found := some (cloned.withKey key)
            back := [entry.touched moment.now]
            rest := queue
            transports := transports }
        | none => (scan config moment transports key accepts queue).retain (entry.touched moment.now)
      else
        { found := some (entry.connection.withKey key)
          rest := queue
          transports := transports }
    else scan config moment transports key accepts queue

namespace PoolInner

variable (self : PoolInner) (key : PoolKey)

def full : Bool := self.config.maxActivePerHost.any (· ≤ self.active.count key)

def queue : List IdleConnection := (self.idle.lookup key).getD []

def setQueue (queue : List IdleConnection) : PoolInner :=
  { self with
    idle := if queue.isEmpty then self.idle.erase key else self.idle.insert key queue }

def incrementActive : PoolInner := { self with active := self.active.increment key }

def decrementActive : PoolInner := { self with active := self.active.decrement key }

def tryReserveActive : Option PoolInner :=
  if self.full key then none else some (self.incrementActive key)

def rekeyActive (old new : PoolKey) : PoolInner := (self.decrementActive old).incrementActive new

variable (moment : Moment)

def checkoutMatching (transports : Transports) (key : PoolKey)
    (accepts : PooledConnection → Bool) : Option PooledConnection × PoolInner × Transports :=
  if self.full key then (none, self, transports)
  else
    match self.idle.lookup key with
    | none => (none, self, transports)
    | some queue =>
      let scanned := scan self.config moment transports key accepts queue.reverse
      let left := self.setQueue key scanned.kept.reverse
      (scanned.found,
        if scanned.found.isSome then left.incrementActive key else left,
        scanned.transports)

def checkout (transports : Transports) (key : PoolKey) :
    Option PooledConnection × PoolInner × Transports :=
  self.checkoutMatching moment transports key fun _ => true

def checkoutH3 (transports : Transports) (key : PoolKey) :
    Option PooledConnection × PoolInner × Transports :=
  self.checkoutMatching moment transports key PooledConnection.isH3

/-- A key is put under each name of a connection. -/
def indexNames (index : Table Bytes (List PoolKey)) (key : PoolKey) (names : List Bytes) :
    Table Bytes (List PoolKey) :=
  names.foldl (fun index name =>
    let keys := (index.lookup name).getD []
    index.insert name (if keys.contains key then keys else keys ++ [key])) index

def releaseSlot (connection : PooledConnection) : PoolInner :=
  match connection.key with
  | some key => self.decrementActive key
  | none => self

/-- `checkin` of a handle that is not a clone. -/
def checkin (now : Instant) (key : PoolKey) (connection : PooledConnection)
    (not_clone : connection.isMultiplexClone = false) : PoolInner :=
  let self := self.releaseSlot connection
  if self.config.maxIdlePerHost = 0 then self
  else if !self.config.withinLifetime now connection then self
  else
    let queue := self.queue key
    -- A full queue gives up its oldest entry.
    let queue := if self.config.maxIdlePerHost ≤ queue.length then queue.tail else queue
    { self with
      sanIndex := indexNames self.sanIndex key connection.sans
      idle := self.idle.insert key (queue ++ [IdleConnection.new connection now not_clone]) }

def evict : PoolInner := { self with idle := self.idle.erase key }

variable (transports : Transports)

/-- A handle goes: its slot and its permit are given back. -/
def dropConnection (connection : PooledConnection) : PoolInner × Transports :=
  (self.releaseSlot connection,
   if connection.permit then
     let shared := transports connection.transport
     Function.update transports connection.transport
       { shared with activeStreams := shared.activeStreams - 1 }
   else transports)

/-- `checkin_connection`: clones are dropped. -/
def checkinConnection (now : Instant) (key : PoolKey)
    (connection : PooledConnection) : PoolInner × Transports :=
  let connection := connection.populateSans
  if h : connection.isMultiplexClone then self.dropConnection transports connection
  else (self.checkin now key connection (Bool.eq_false_iff.mpr h), transports)

/-- `retire_multiplex_transport`: the connection is marked, and the queue of its key dropped. The
handle gives up its key without being counted down. -/
def retireMultiplexTransport (connection : PooledConnection) :
    PoolInner × Transports × PooledConnection :=
  if !connection.isH2OrH3 then (self, transports, connection)
  else
    (match connection.key with
      | some key => self.evict key
      | none => self,
     Function.update transports connection.transport
       { transports connection.transport with retired := true },
     connection.withKey none)

def coalesces (transports : Transports) (key : PoolKey) (host : Bytes)
    (addr : SocketAddr) (entry : IdleConnection) : Bool :=
  self.config.usable moment.now entry && entry.connection.isH2OrH3 &&
    (key.h3Endpoint.isNone || entry.connection.isH3) && entry.connection.sans.contains host &&
    entry.connection.remoteAddr = some addr && entry.connection.isReady moment transports

/-- The first entry from the back that serves the host: the queue with it touched, and the handle. -/
def findCoalesced (self : PoolInner) (moment : Moment) (transports : Transports) (key : PoolKey)
    (host : Bytes) (addr : SocketAddr) :
    List IdleConnection → Option (List IdleConnection × PooledConnection × Transports)
  | [] => none
  | entry :: queue =>
    let next := (findCoalesced self moment transports key host addr queue).map fun found =>
      (entry :: found.1, found.2)
    if self.coalesces moment transports key host addr entry then
      match entry.connection.cloneForMultiplexWithLimit transports
          self.config.maxActiveStreams with
      | some (cloned, transports) =>
        some (entry.touched moment.now :: queue, cloned.withKey key, transports)
      | none => next
    else next

def findCandidate (self : PoolInner) (moment : Moment) (transports : Transports) (host : Bytes)
    (addr : SocketAddr) (route : ProxyRoute) :
    List PoolKey → Option (PoolKey × List IdleConnection × PooledConnection × Transports)
  | [] => none
  | key :: keys =>
    let next := findCandidate self moment transports host addr route keys
    if key.proxyRoute ≠ route || key.forcedAddr.isSome || self.full key then next
    else
      match self.idle.lookup key with
      | none => next
      | some queue =>
        match self.findCoalesced moment transports key host addr queue.reverse with
        | some (queue, connection, transports) => some (key, queue.reverse, connection, transports)
        | none => next

/-- Keys without idle connections are taken out of the entry of the name. -/
def dropStale (host : Bytes) : PoolInner :=
  match self.sanIndex.lookup host with
  | none => self
  | some keys =>
    let live := keys.filter fun key => (self.idle.lookup key).isSome
    { self with
      sanIndex := if live.isEmpty then self.sanIndex.erase host else self.sanIndex.insert host live }

abbrev Walk := { order : List PoolKey → List PoolKey // ∀ keys, (order keys).Perm keys }

def checkoutCoalesced (transports : Transports) (walk : Walk) (host : Bytes)
    (addr : SocketAddr) (route : ProxyRoute) : Option PooledConnection × PoolInner × Transports :=
  match self.sanIndex.lookup host with
  | none => (none, self, transports)
  | some keys =>
    match self.findCandidate moment transports host addr route (walk.1 keys) with
    | some (key, queue, connection, transports) =>
      let left := { self with idle := self.idle.insert key queue }
      (some connection, (left.incrementActive key).dropStale host, transports)
    | none => (none, self.dropStale host, transports)

/-- `prune_expired`: entries that may not be used any more go, then empty queues, then names without
a queue. -/
def pruneExpired (now : Instant) : PoolInner :=
  let idle := Table.filterMap (fun _ queue =>
    let queue := queue.filter (self.config.usable now)
    if queue.isEmpty then none else some queue) self.idle
  { self with
    idle := idle
    sanIndex := Table.filterMap (fun _ keys =>
      let keys := keys.filter fun key => (idle.lookup key).isSome
      if keys.isEmpty then none else some keys) self.sanIndex }

end PoolInner

end Aioduct.Pool
