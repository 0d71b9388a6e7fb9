import Aioduct.Pool.Inner

/-!
# The pool and those who use it

Requests act in any order; each operation takes the lock of the pool once.
-/

namespace Aioduct.Pool

open Wire PoolInner List Option PooledConnection

variable {queue : List IdleConnection} {host : Bytes} {addr : SocketAddr}

structure Established where
  conn : HttpConnection
  remoteAddr : Option SocketAddr := none
  names : List Bytes := []
  createdAt : Instant

def Established.connection (self : Established) (transport : Nat) : PooledConnection where
  transport := transport
  conn := self.conn
  remoteAddr := self.remoteAddr
  names := self.names
  createdAt := self.createdAt
  sans_names := .inl rfl
  permit_clone h := Bool.noConfusion h

inductive Op where
  | reserve (key : PoolKey)
  | dropReservation (i : Nat)
  /-- A connection was opened for a reservation. -/
  | attach (i : Nat) (established : Established)
  | checkout (moment : Moment) (key : PoolKey)
  | checkoutH3 (moment : Moment) (key : PoolKey)
  | checkoutCoalesced (moment : Moment) (walk : PoolInner.Walk) (host : Bytes) (addr : SocketAddr)
      (route : ProxyRoute)
  | checkin (now : Instant) (i : Nat) (key : PoolKey)
  /-- A request goes on with a clone, so that the handle can be checked in at once. -/
  | split (i : Nat)
  | rekey (i : Nat) (key : PoolKey)
  | retire (i : Nat)
  | drop (i : Nat)
  | evict (key : PoolKey)
  | reap (now : Instant)
  /-- A permit goes from a handle to a response. -/
  | takePermit (i : Nat)
  | dropPermit (i : Nat)
  | retirePermit (i : Nat)

structure System where
  inner : PoolInner
  transports : Transports := fun _ => {}
  /-- The number of connections that were opened. -/
  opened : Nat := 0
  reservations : List PoolKey := []
  handles : List PooledConnection := []
  permits : List Nat := []

namespace System

def new (config : PoolConfig) : System where
  inner := { config := config }

variable (self : System)

def handOut (result : Option PooledConnection × PoolInner × Transports) : System :=
  { self with
    inner := result.2.1
    transports := result.2.2
    handles := result.1.toList ++ self.handles }

def releasePermit (transports : Transports) (transport : Nat) : Transports :=
  Function.update transports transport
    { transports transport with activeStreams := (transports transport).activeStreams - 1 }

/-- What happens to a handle that is taken out of the handles. -/
def onHandle (i : Nat) (act : PooledConnection → System → System) : System :=
  match takeAt self.handles i with
  | some (connection, rest) => act connection { self with handles := rest }
  | none => self

def checkinHandle (now : Instant) (key : PoolKey) (connection : PooledConnection)
    (self : System) : System :=
  let result := self.inner.checkinConnection self.transports now key connection
  { self with inner := result.1, transports := result.2 }

variable (connection : PooledConnection)

def splitHandle (self : System) : System :=
  match connection.cloneForMultiplexWithLimit self.transports self.inner.config.maxActiveStreams with
  | some (cloned, transports) =>
    { self with
      transports := transports
      handles := cloned :: connection.withKey none :: self.handles }
  | none => { self with handles := connection :: self.handles }

def rekeyHandle (key : PoolKey) (connection : PooledConnection) (self : System) : System :=
  match connection.key with
  | some old =>
    { self with
      inner := self.inner.rekeyActive old key
      handles := connection.withKey key :: self.handles }
  | none => { self with handles := connection :: self.handles }

def retireHandle (self : System) : System :=
  let result := self.inner.retireMultiplexTransport self.transports connection
  { self with
    inner := result.1
    transports := result.2.1
    handles := result.2.2 :: self.handles }

def dropHandle (self : System) : System :=
  let result := self.inner.dropConnection self.transports connection
  { self with inner := result.1, transports := result.2 }

def takePermitOf (self : System) : System :=
  { self with
    handles := connection.withoutPermit :: self.handles
    permits := (if connection.permit then [connection.transport] else []) ++ self.permits }

def step : Op → System
  | .reserve key =>
    match self.inner.tryReserveActive key with
    | some inner => { self with inner := inner, reservations := key :: self.reservations }
    | none => self
  | .dropReservation i =>
    match takeAt self.reservations i with
    | some (key, rest) =>
      { self with inner := self.inner.decrementActive key, reservations := rest }
    | none => self
  | .attach i established =>
    match takeAt self.reservations i with
    | some (key, rest) =>
      { self with
        reservations := rest
        transports := Function.update self.transports self.opened {}
        handles := (established.connection self.opened).withKey key :: self.handles
        opened := self.opened + 1 }
    | none => self
  | .checkout moment key => self.handOut (self.inner.checkout moment self.transports key)
  | .checkoutH3 moment key => self.handOut (self.inner.checkoutH3 moment self.transports key)
  | .checkoutCoalesced moment walk host addr route =>
    self.handOut (self.inner.checkoutCoalesced moment self.transports walk host addr route)
  | .checkin now i key => self.onHandle i (checkinHandle now key)
  | .split i => self.onHandle i splitHandle
  | .rekey i key => self.onHandle i (rekeyHandle key)
  | .retire i => self.onHandle i retireHandle
  | .drop i => self.onHandle i dropHandle
  | .evict key => { self with inner := self.inner.evict key }
  | .reap now => { self with inner := self.inner.pruneExpired now }
  | .takePermit i => self.onHandle i takePermitOf
  | .dropPermit i =>
    match takeAt self.permits i with
    | some (transport, rest) =>
      { self with permits := rest, transports := releasePermit self.transports transport }
    | none => self
  | .retirePermit i =>
    match self.permits[i]? with
    | some transport =>
      { self with
        transports := Function.update self.transports transport
          { self.transports transport with retired := true } }
    | none => self

def run (ops : List Op) : System := ops.foldl step self

lemma run_invariant {P : System → Prop} {self : System} (hi : P self)
    (hs : ∀ self op, P self → P (step self op)) (ops : List Op) : P (self.run ops) :=
  List.foldlRecOn ops step hi fun _ h op _ => hs _ op h

lemma run_concat (ops : List Op) (op : Op) : self.run (ops ++ [op]) = (self.run ops).step op := by
  simp [run]

lemma onHandle_cases {P : System → Prop} (self : System) (i : Nat)
    (act : PooledConnection → System → System) (hnone : P self)
    (ha : ∀ connection rest, self.handles.Perm (connection :: rest) →
      P (act connection { self with handles := rest })) : P (self.onHandle i act) := by
  unfold onHandle
  split
  next connection rest ht =>
    exact ha connection rest (takeAt_perm ht)
  · exact hnone

end System

/-! ### What the operations of the pool do to the counts -/

section Active

variable {self : PoolInner} {moment : Moment} {transports : Transports} {key : PoolKey}
  {connection : PooledConnection} {transports' : Transports}

lemma full_eq_false (h : self.full key = false) :
    ∀ max ∈ self.config.maxActivePerHost, self.active.count key < max := by
  intro max hm
  unfold full at h
  rw [mem_def.mp hm, any_some] at h
  simpa using h

/-- A handle that is handed out is counted under its key, which had room for it. -/
def HandsOut (self : PoolInner) (result : Option PooledConnection × PoolInner × Transports) : Prop :=
  (result.1 = none ∧ result.2.1.active = self.active) ∨
    ∃ connection key, result.1 = some connection ∧ connection.key = some key ∧
      self.full key = false ∧ result.2.1.active = self.active.increment key

lemma clone_eq {cloned : PooledConnection} {maxActive : Option Nat}
    (h : connection.cloneForMultiplexWithLimit transports maxActive = some (cloned, transports')) :
    cloned = connection.clone ∧ connection.isH2OrH3 ∧
      connection.acquireMultiplexPermit transports maxActive = some transports' := by
  unfold cloneForMultiplexWithLimit at h
  split_ifs at h
  obtain ⟨acquired, ha, heq⟩ := map_eq_some_iff.mp h
  cases heq
  refine ⟨rfl, ?_, ha⟩
  unfold acquireMultiplexPermit at ha
  simp only at ha
  split_ifs at ha
  next hl =>
    simp only [Bool.or_eq_true, Bool.not_eq_true', not_or, Bool.not_eq_false] at hl
    exact hl.1

section Scan

variable {config : PoolConfig} {key : PoolKey} {accepts : PooledConnection → Bool}

structure Eligible (config : PoolConfig) (moment : Moment) (transports : Transports)
    (accepts : PooledConnection → Bool) (entry : IdleConnection) : Prop where
  usable : config.usable moment.now entry = true
  accepts : accepts entry.connection = true
  ready : entry.connection.isReady moment transports = true

lemma scan_cons_cases (entry : IdleConnection) (queue : List IdleConnection) :
    scan config moment transports key accepts (entry :: queue) =
        scan config moment transports key accepts queue ∨
      (∃ since, (since = entry.idleSince ∨ entry.connection.isH2OrH3) ∧
        scan config moment transports key accepts (entry :: queue) =
          (scan config moment transports key accepts queue).retain (entry.touched since)) ∨
      (Eligible config moment transports accepts entry ∧ entry.connection.isH2OrH3 ∧
        ∃ transports', entry.connection.acquireMultiplexPermit transports config.maxActiveStreams =
            some transports' ∧
          scan config moment transports key accepts (entry :: queue) =
            { found := some (entry.connection.clone.withKey key)
              back := [entry.touched moment.now]
              rest := queue
              transports := transports' }) ∨
      (Eligible config moment transports accepts entry ∧ entry.connection.isH2OrH3 = false ∧
        scan config moment transports key accepts (entry :: queue) =
          { found := some (entry.connection.withKey key)
            rest := queue
            transports := transports }) := by
  by_cases hu : config.usable moment.now entry
  · by_cases ha : accepts entry.connection
    · by_cases hr : entry.connection.isReady moment transports
      · by_cases hm : entry.connection.isH2OrH3
        · cases hc : entry.connection.cloneForMultiplexWithLimit transports
            config.maxActiveStreams with
          | none =>
            exact .inr (.inl ⟨moment.now, .inr hm, by
              simp [scan, hu, ha, hr, hm, hc]⟩)
          | some result =>
            obtain ⟨cloned, transports'⟩ := result
            obtain ⟨rfl, -, hacq⟩ := clone_eq hc
            exact .inr (.inr (.inl ⟨⟨hu, ha, hr⟩, hm, transports',
              hacq, by simp [scan, hu, ha, hr, hm, hc]⟩))
        · exact .inr (.inr (.inr ⟨⟨hu, ha, hr⟩, by simpa using hm, by
            simp [scan, hu, ha, hr, hm]⟩))
      · exact .inl (by simp [scan, hu, ha, hr])
    · exact .inr (.inl ⟨entry.idleSince, .inl rfl, by
        simp [scan, hu, ha, IdleConnection.touched]⟩)
  · exact .inl (by simp [scan, hu])

lemma scan_found (h : (scan config moment transports key accepts queue).found = some connection) :
    ∃ entry ∈ queue, Eligible config moment transports accepts entry ∧ connection =
      (if entry.connection.isH2OrH3 then entry.connection.clone else entry.connection).withKey
        key := by
  induction queue with
  | nil => cases h
  | cons entry queue ih =>
    rcases @scan_cons_cases moment transports config key accepts entry queue with
      heq | ⟨since, -, heq⟩ | ⟨he, hmux, transports', -, heq⟩ | ⟨he, hs, heq⟩
    · rw [heq] at h
      obtain ⟨found, hm, hf⟩ := ih h
      exact ⟨found, mem_cons_of_mem _ hm, hf⟩
    · rw [heq] at h
      obtain ⟨found, hm, hf⟩ := ih h
      exact ⟨found, mem_cons_of_mem _ hm, hf⟩
    · rw [heq] at h
      refine ⟨entry, mem_cons_self, he, ?_⟩
      rw [if_pos hmux, ← some.inj h]
    rw [heq] at h
    refine ⟨entry, mem_cons_self, he, ?_⟩
    rw [hs, ← some.inj h]
    rfl

end Scan

lemma handsOut_checkoutMatching (self : PoolInner) (moment : Moment) (transports : Transports)
    (key : PoolKey) (accepts : PooledConnection → Bool) :
    HandsOut self (self.checkoutMatching moment transports key accepts) := by
  unfold checkoutMatching
  split
  · exact .inl ⟨rfl, rfl⟩
  rename_i hful
  split
  · exact .inl ⟨rfl, rfl⟩
  rename_i queue hq
  cases hf : (scan self.config moment transports key accepts queue.reverse).found with
  | none =>
    left
    simp only [hf]
    exact ⟨trivial, rfl⟩
  | some connection =>
    right
    simp only [hf]
    obtain ⟨entry, -, -, rfl⟩ := scan_found hf
    exact ⟨_, key, rfl, rfl, Bool.eq_false_iff.mpr hful, rfl⟩

lemma findCoalesced_spec {left : List IdleConnection}
    (h : self.findCoalesced moment transports key host addr queue =
      some (left, connection, transports')) :
    ∃ before entry after, queue = before ++ entry :: after ∧
      left = before ++ entry.touched moment.now :: after ∧
      self.coalesces moment transports key host addr entry ∧
      connection = entry.connection.clone.withKey key := by
  induction queue generalizing left with
  | nil => cases h
  | cons entry queue ih =>
    unfold findCoalesced at h
    split at h <;> [split at h; skip]
    next hs _ cloned acquired hc =>
      obtain ⟨rfl, -⟩ := clone_eq hc
      cases h
      exact ⟨[], entry, queue, rfl, rfl, hs, rfl⟩
    -- The entry stays as it is, and the search goes on.
    all_goals
      obtain ⟨⟨left', found⟩, hf, heq⟩ := map_eq_some_iff.mp h
      cases heq
      obtain ⟨before, found, after, rfl, rfl, hr⟩ := ih hf
      exact ⟨entry :: before, found, after, rfl, rfl, hr⟩

lemma isH2OrH3_of_coalesces {entry : IdleConnection}
    (h : self.coalesces moment transports key host addr entry) :
    entry.connection.isH2OrH3 := by
  unfold coalesces at h
  simp only [Bool.and_eq_true] at h
  exact h.1.1.1.1.2

lemma findCandidate_spec {route : ProxyRoute} {keys : List PoolKey}
    (h : self.findCandidate moment transports host addr route keys =
      some (key, queue, connection, transports')) :
    key.proxyRoute = route ∧ key.forcedAddr = none ∧ self.full key = false ∧
      ∃ before entry after, self.queue key = before ++ entry :: after ∧
        queue = before ++ entry.touched moment.now :: after ∧
        self.coalesces moment transports key host addr entry ∧
        connection = entry.connection.clone.withKey key := by
  induction keys with
  | nil => cases h
  | cons candidate keys ih =>
    unfold findCandidate at h
    split at h
    · exact ih h
    rename_i hk
    simp only [Bool.or_eq_true, decide_eq_true_eq, not_or, not_not, isSome_iff_ne_none,
      Bool.not_eq_true] at hk
    split at h
    · exact ih h
    rename_i idle hi
    split at h
    next left connection' transports'' hf =>
      obtain ⟨rfl, rfl, rfl, rfl⟩ := by simpa only [some.injEq, Prod.mk.injEq] using h
      obtain ⟨before, entry, after, hq, rfl, hs⟩ := findCoalesced_spec hf
      refine ⟨hk.1.1, hk.1.2, hk.2, after.reverse, entry, before.reverse, ?_, ?_, hs⟩
      · rw [queue, hi, getD_some, ← reverse_reverse idle, hq]
        simp
      · simp
    · exact ih h

lemma dropStale_active (self : PoolInner) (host : Bytes) :
    (self.dropStale host).active = self.active := by
  unfold dropStale
  split <;> rfl

lemma handsOut_checkoutCoalesced (self : PoolInner) (moment : Moment) (transports : Transports)
    (walk : PoolInner.Walk) (host : Bytes) (addr : SocketAddr) (route : ProxyRoute) :
    HandsOut self (self.checkoutCoalesced moment transports walk host addr route) := by
  unfold checkoutCoalesced
  split
  · exact .inl ⟨rfl, rfl⟩
  split
  next key queue connection transports' hf =>
    obtain ⟨-, -, hful, _, entry, _, -, -, -, rfl⟩ := findCandidate_spec hf
    exact .inr ⟨_, key, rfl, rfl, hful, dropStale_active _ _⟩
  · exact .inl ⟨rfl, dropStale_active _ _⟩

def released (active : Counters PoolKey) (connection : PooledConnection) : Counters PoolKey :=
  match connection.key with
  | some key => active.decrement key
  | none => active

lemma releaseSlot_frame (self : PoolInner) (connection : PooledConnection) :
    self.releaseSlot connection = { self with active := released self.active connection } := by
  unfold releaseSlot released
  cases connection.key <;> rfl

lemma populateSans_eq (connection : PooledConnection) :
    ∃ sans h, connection.populateSans = { connection with sans, sans_names := h } := by
  unfold populateSans
  split
  · exact ⟨connection.names, .inr rfl, rfl⟩
  · exact ⟨connection.sans, connection.sans_names, rfl⟩

/-- A check-in gives the slot back, and puts the connection into its queue or drops it. -/
lemma checkinConnection_spec (self : PoolInner) (transports : Transports) (now : Instant)
    (key : PoolKey) (connection : PooledConnection) :
    let after := (self.checkinConnection transports now key connection).1
    after.active = released self.active connection ∧ after.config = self.config ∧
      (after.idle = self.idle ∧ after.sanIndex = self.sanIndex ∨
        connection.isMultiplexClone = false ∧ ∃ queue entry,
          queue <+ self.queue key ∧
          (queue.length < self.config.maxIdlePerHost ∨ queue.length < (self.queue key).length) ∧
          entry.idleSince = now ∧ entry.connection.transport = connection.transport ∧
          entry.connection.isH2OrH3 = connection.isH2OrH3 ∧
          after.idle = self.idle.insert key (queue ++ [entry]) ∧
          after.sanIndex = indexNames self.sanIndex key entry.connection.sans ∧
          (entry.connection.isH2OrH3 → entry.connection.sans = entry.connection.names)) := by
  obtain ⟨sans, h, hs⟩ := populateSans_eq connection
  have hr : released self.active connection.populateSans = released self.active connection := by
    rw [hs]
    rfl
  simp only [checkinConnection, dropConnection, checkin, releaseSlot_frame, hr]
  split
  · exact ⟨rfl, rfl, .inl ⟨rfl, rfl⟩⟩
  next hc =>
  split
  · exact ⟨rfl, rfl, .inl ⟨rfl, rfl⟩⟩
  next hmax =>
  split
  · exact ⟨rfl, rfl, .inl ⟨rfl, rfl⟩⟩
  refine ⟨rfl, rfl, .inr ⟨?_, _, _, ?_, ?_, rfl, ?_, ?_, rfl, rfl, fun hm => ?_⟩⟩
  · rw [hs] at hc
    exact Bool.eq_false_iff.mpr hc
  · split
    · exact tail_sublist _
    · exact .refl _
  · split
    next hle =>
      right
      rw [length_tail]
      exact Nat.sub_lt ((Nat.pos_of_ne_zero hmax).trans_le hle) Nat.one_pos
    next hlt => exact .inl (not_le.mp hlt)
  · exact (congrArg PooledConnection.transport hs :)
  · exact (congrArg PooledConnection.isH2OrH3 hs :)
  · exact connection.sans_populateSans hm

end Active

section Config

section

variable (self : PoolInner)

lemma checkoutMatching_config (moment : Moment) (transports : Transports) (key : PoolKey)
    (accepts : PooledConnection → Bool) :
    (self.checkoutMatching moment transports key accepts).2.1.config = self.config := by
  unfold checkoutMatching
  split
  · rfl
  split
  · rfl
  · simp only
    split <;> rfl

lemma dropStale_config (host : Bytes) : (self.dropStale host).config = self.config := by
  unfold dropStale
  split <;> rfl

end

end Config

namespace System

/-- What an operation does to the pool itself. -/
inductive Touches (self : System) : Op → PoolInner → Prop where
  | nothing (op : Op) : Touches self op self.inner
  | reserve {key : PoolKey} (h : self.inner.full key = false) :
      Touches self (.reserve key) (self.inner.incrementActive key)
  | release (op : Op) (key : PoolKey) : Touches self op (self.inner.decrementActive key)
  | matching (op : Op) (moment : Moment) (key : PoolKey) (accepts : PooledConnection → Bool) :
      Touches self op (self.inner.checkoutMatching moment self.transports key accepts).2.1
  | coalesced (op : Op) (moment : Moment) (walk : PoolInner.Walk) (host : Bytes)
      (addr : SocketAddr) (route : ProxyRoute) : Touches self op
        (self.inner.checkoutCoalesced moment self.transports walk host addr route).2.1
  | checkin {now : Instant} {i : Nat} {key : PoolKey} {connection : PooledConnection}
      {rest : List PooledConnection} (h : takeAt self.handles i = some (connection, rest)) :
      Touches self (.checkin now i key)
        (self.inner.checkinConnection self.transports now key connection).1
  | rekey {i : Nat} {key : PoolKey} (old : PoolKey) :
      Touches self (.rekey i key) (self.inner.rekeyActive old key)
  | evict (op : Op) (key : PoolKey) : Touches self op (self.inner.evict key)
  | prune (op : Op) (now : Instant) : Touches self op (self.inner.pruneExpired now)

variable (self : System)

lemma touches_step (op : Op) : self.Touches op (self.step op).inner := by
  have hh : ∀ i act, (∀ connection rest, takeAt self.handles i = some (connection, rest) →
      self.Touches op (act connection { self with handles := rest }).inner) →
      self.Touches op (self.onHandle i act).inner := by
    intro i act h
    unfold onHandle
    split
    · next ht => exact h _ _ ht
    · exact .nothing op
  cases op with
  | reserve key =>
    simp only [step, tryReserveActive]
    cases hf : self.inner.full key with
    | true => exact .nothing _
    | false => exact .reserve hf
  | dropReservation i =>
    simp only [step]
    split
    · exact .release _ _
    · exact .nothing _
  | checkout moment key | checkoutH3 moment key => exact .matching _ moment key _
  | checkoutCoalesced moment walk host addr route => exact .coalesced _ moment walk host addr route
  | checkin now i key => exact hh i _ fun _ _ ht => .checkin ht
  | split i =>
    refine hh i _ fun connection rest _ => ?_
    unfold splitHandle
    split <;> exact .nothing _
  | rekey i key =>
    refine hh i _ fun connection rest _ => ?_
    unfold rekeyHandle
    split
    · exact .rekey _
    · exact .nothing _
  | retire i =>
    refine hh i _ fun connection rest _ => ?_
    simp only [retireHandle, retireMultiplexTransport]
    split
    · exact .nothing _
    · cases connection.key with
      | none => exact .nothing _
      | some key => exact .evict _ key
  | drop i =>
    refine hh i _ fun connection rest _ => ?_
    simp only [dropHandle, dropConnection, releaseSlot]
    cases connection.key with
    | none => exact .nothing _
    | some key => exact .release _ key
  | evict key => exact .evict _ key
  | reap now => exact .prune _ now
  | takePermit i => exact hh i _ fun _ _ _ => .nothing _
  | attach | dropPermit | retirePermit =>
    simp only [step]
    split <;> exact .nothing _

lemma step_config (op : Op) : (self.step op).inner.config = self.inner.config := by
  have h := self.touches_step op
  generalize (self.step op).inner = after at h ⊢
  cases h with
  | matching => exact checkoutMatching_config _ _ _ _ _
  | coalesced =>
    unfold checkoutCoalesced
    split
    · rfl
    · split <;> exact dropStale_config _ _
  | checkin => exact (checkinConnection_spec _ _ _ _ _).2.1
  | nothing | reserve | release | rekey | evict | prune => rfl

lemma run_config (ops : List Op) : (self.run ops).inner.config = self.inner.config :=
  run_invariant (P := fun after => after.inner.config = self.inner.config) rfl
    (fun after op h => (step_config after op).trans h) ops

end System

end Aioduct.Pool
