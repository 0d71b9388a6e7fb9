import Aioduct.Pool.Indexes

/-!
# Connections that serve one request at a time

Such a connection is owned by the request that holds a handle on it, or by the pool.
-/

namespace Aioduct.Pool

open Wire PoolInner PooledConnection List Option Table Nat Scan Bool

/-- A handle on this connection, which can serve one request at a time. -/
def PooledConnection.owns (transport : Nat) (self : PooledConnection) : Bool :=
  !self.isH2OrH3 && self.transport == transport

def inQueue (transport : Nat) (queue : List IdleConnection) : Nat :=
  queue.countP fun entry => entry.connection.owns transport

def PoolInner.idleOwners (self : PoolInner) (transport : Nat) : Nat :=
  Table.total (inQueue transport) self.idle

/-- How many own a connection that can serve one request at a time. -/
def System.ownersOf (self : System) (transport : Nat) : Nat :=
  self.handles.countP (owns transport) + self.inner.idleOwners transport

section Owners

variable {transport : Nat} (connection : PooledConnection)

@[simp] lemma owns_withKey (key : Option PoolKey) :
    (connection.withKey key).owns transport = connection.owns transport := rfl

@[simp] lemma owns_clone : connection.clone.owns transport = connection.owns transport := rfl

lemma owns_of_multiplexed {connection : PooledConnection} (h : connection.isH2OrH3) :
    connection.owns transport = false := by
  unfold owns
  rw [h]
  rfl

lemma inQueue_reverse (queue : List IdleConnection) :
    inQueue transport queue.reverse = inQueue transport queue :=
  countP_reverse

lemma inQueue_cons (entry : IdleConnection) (queue : List IdleConnection) :
    inQueue transport (entry :: queue) =
      inQueue transport queue + (entry.connection.owns transport).toNat := by
  unfold inQueue
  rw [countP_cons]
  cases entry.connection.owns transport <;> rfl

lemma countP_owns_cons (handles : List PooledConnection) :
    (connection :: handles).countP (owns transport) =
      handles.countP (owns transport) + (connection.owns transport).toNat := by
  rw [countP_cons]
  cases connection.owns transport <;> rfl

lemma inQueue_append (queue queue' : List IdleConnection) :
    inQueue transport (queue ++ queue') = inQueue transport queue + inQueue transport queue' :=
  countP_append

lemma scan_owners {config : PoolConfig} {moment : Moment} {transports : Transports} {key : PoolKey}
    {accepts : PooledConnection → Bool} (queue : List IdleConnection) :
    (scan config moment transports key accepts queue).found.toList.countP
        (owns transport) +
      inQueue transport (scan config moment transports key accepts queue).kept ≤
      inQueue transport queue := by
  obtain ⟨taken, hl, hf⟩ := @scan_leaves moment transports key accepts config queue
  have hs := hl.sublist.countP_le (p := owns transport)
  generalize scan config moment transports key accepts queue = scanned at *
  rw [connections, connections, countP_map, countP_map] at hs
  change inQueue _ _ ≤ inQueue _ _ at hs
  simp only [kept, inQueue_append] at hs ⊢
  rcases hf with ⟨hf, -⟩ | ⟨entry, -, hm, hf⟩ | ⟨entry, -, rfl, hf⟩ <;> rw [hf]
  · simp only [toList_none, countP_nil]
    omega
  · simp only [toList_some, countP_owns_cons, countP_nil, owns_withKey, owns_clone,
      owns_of_multiplexed hm, toNat_false]
    omega
  · simp only [toList_some, countP_owns_cons, countP_nil, owns_withKey, inQueue_cons] at hs ⊢
    omega

end Owners

section Inner

variable (self : PoolInner) (transport : Nat) (key : PoolKey)

lemma idleOwners_eq :
    self.idleOwners transport =
      inQueue transport (self.queue key) + Table.total (inQueue transport) (self.idle.erase key) := by
  unfold idleOwners queue
  rw [total_erase _ _ key]
  unfold weightAt
  cases self.idle.lookup key <;> rfl

variable (queue : List IdleConnection)

lemma idleOwners_insert : { self with idle := self.idle.insert key queue }.idleOwners transport =
      inQueue transport queue + Table.total (inQueue transport) (self.idle.erase key) :=
  rfl

lemma idleOwners_evict_le : (self.evict key).idleOwners transport ≤ self.idleOwners transport := by
  rw [idleOwners_eq self transport key]
  exact le_add_left _ _

lemma idleOwners_setQueue :
    (self.setQueue key queue).idleOwners transport =
      inQueue transport queue + Table.total (inQueue transport) (self.idle.erase key) := by
  unfold setQueue
  split
  next hempty =>
    rw [isEmpty_iff.mp hempty]
    exact (zero_add _).symm
  · exact idleOwners_insert self transport key queue

lemma idleOwners_checkoutMatching (moment : Moment) (transports : Transports) (key : PoolKey)
    (accepts : PooledConnection → Bool) :
    (self.checkoutMatching moment transports key accepts).1.toList.countP
        (owns transport) +
      (self.checkoutMatching moment transports key accepts).2.1.idleOwners transport ≤
      self.idleOwners transport := by
  unfold PoolInner.checkoutMatching
  split
  · simp
  split
  · simp
  rename_i queue hq
  have hs := @scan_owners transport self.config moment transports key accepts queue.reverse
  rw [inQueue_reverse] at hs
  have hl := idleOwners_setQueue self transport key
    (scan self.config moment transports key accepts queue.reverse).kept.reverse
  rw [inQueue_reverse] at hl
  have hw := idleOwners_eq self transport key
  unfold PoolInner.queue at hw
  rw [hq, getD_some] at hw
  simp only
  have ha : ∀ inner : PoolInner, (inner.incrementActive key).idleOwners transport =
      inner.idleOwners transport := fun _ => rfl
  split
  · rw [ha]
    omega
  · omega

lemma idleOwners_checkoutCoalesced (moment : Moment) (transports : Transports)
    (walk : PoolInner.Walk) (host : Bytes) (addr : SocketAddr) (route : ProxyRoute) :
    (self.checkoutCoalesced moment transports walk host addr route).1.toList.countP
        (owns transport) +
      (self.checkoutCoalesced moment transports walk host addr route).2.1.idleOwners transport ≤
      self.idleOwners transport := by
  have hs : ∀ inner : PoolInner, (inner.dropStale host).idleOwners transport =
      inner.idleOwners transport := by
    intro inner
    unfold idleOwners
    rw [dropStale_idle]
  unfold checkoutCoalesced
  split
  · simp
  split
  next key queue connection transports' hf =>
    obtain ⟨-, -, -, before, entry, after, hb, rfl, hser, rfl⟩ := findCandidate_spec hf
    simp only [toList_some, countP_owns_cons, countP_nil, owns_withKey, owns_clone,
      owns_of_multiplexed (isH2OrH3_of_coalesces hser), toNat_false, zero_add]
    rw [hs]
    show { self with idle := self.idle.insert key _ }.idleOwners transport ≤ _
    rw [idleOwners_insert, idleOwners_eq self transport key, hb, inQueue_append,
      inQueue_append, inQueue_cons, inQueue_cons]
    exact le_rfl
  · rw [hs]
    simp

variable (connection : PooledConnection) (transports : Transports)

lemma idleOwners_dropConnection :
    (self.dropConnection transports connection).1.idleOwners transport =
      self.idleOwners transport := by
  rw [dropConnection, releaseSlot_frame]
  rfl

variable (now : Instant)

lemma idleOwners_checkinConnection_le (key : PoolKey) :
    (self.checkinConnection transports now key connection).1.idleOwners transport ≤
      self.idleOwners transport + (connection.owns transport).toNat := by
  obtain ⟨-, -, ⟨hi, -⟩ | ⟨-, queue, entry, hq, -, -, ht, hm, hi, -⟩⟩ :=
    checkinConnection_spec self transports now key connection
  · unfold idleOwners
    rw [hi]
    exact le_add_right _ _
  have ho : entry.connection.owns transport = connection.owns transport := by
    rw [owns, owns, ht, hm]
  have hs : inQueue transport queue ≤ inQueue transport (self.queue key) := hq.countP_le
  have hl := idleOwners_insert self transport key (queue ++ [entry])
  rw [idleOwners_eq self transport key]
  unfold idleOwners at hl ⊢
  rw [hi, hl, inQueue_append, inQueue_cons, ho]
  have hnil : inQueue transport [] = 0 := rfl
  omega

lemma idleOwners_retire_le :
    (self.retireMultiplexTransport transports connection).1.idleOwners transport ≤
      self.idleOwners transport := by
  unfold retireMultiplexTransport
  split
  · exact le_rfl
  · cases connection.key with
    | none => exact le_rfl
    | some key => exact idleOwners_evict_le self transport key

lemma idleOwners_pruneExpired_le :
    (self.pruneExpired now).idleOwners transport ≤ self.idleOwners transport := by
  apply total_filterMap_le
  intro _ queue kept hk
  simp only at hk
  split_ifs at hk
  · cases hk
    exact filter_sublist.countP_le

end Inner

namespace System

/-- A connection that was opened has at most one owner, and no other has any. -/
def Exclusive (self : System) : Prop :=
  ∀ transport, self.ownersOf transport ≤ if transport < self.opened then 1 else 0

variable {self : System}

def KeepsOwners (before after : System) : Prop :=
  after.opened = before.opened ∧ ∀ transport, after.ownersOf transport ≤ before.ownersOf transport

lemma KeepsOwners.exclusive {after : System} (h : KeepsOwners self after) (hs : self.Exclusive) :
    after.Exclusive := by
  intro transport
  rw [h.1]
  exact (h.2 transport).trans (hs transport)

lemma keepsOwners_handOut (self : System)
    {result : Option PooledConnection × PoolInner × Transports}
    (h : ∀ transport, result.1.toList.countP (owns transport) +
      result.2.1.idleOwners transport ≤ self.inner.idleOwners transport) :
    KeepsOwners self (self.handOut result) := by
  refine ⟨rfl, fun transport => ?_⟩
  show (result.1.toList ++ self.handles).countP _ + result.2.1.idleOwners transport ≤ _
  unfold ownersOf
  rw [countP_append]
  have hr := h transport
  omega

lemma keepsOwners_onHandle (self : System) (i : Nat) (act : PooledConnection → System → System)
    (h : ∀ connection rest, (act connection { self with handles := rest }).opened = self.opened ∧
      ∀ transport, (act connection { self with handles := rest }).ownersOf transport ≤
        rest.countP (owns transport) + (connection.owns transport).toNat +
          self.inner.idleOwners transport) :
    KeepsOwners self (self.onHandle i act) := by
  refine onHandle_cases (P := KeepsOwners self) self i act ⟨rfl, fun _ => le_rfl⟩ ?_
  intro connection rest hp
  refine ⟨(h connection rest).1, fun transport => ?_⟩
  unfold ownersOf
  rw [hp.countP_eq, countP_owns_cons]
  exact (h connection rest).2 transport

lemma keepsOwners_split (self : System) (i : Nat) : KeepsOwners self (self.step (.split i)) := by
  refine keepsOwners_onHandle self i _ fun connection rest => ?_
  unfold splitHandle
  split
  next cloned transports hc =>
    obtain ⟨rfl, hm, -⟩ := clone_eq hc
    refine ⟨rfl, fun transport => ?_⟩
    simp only [ownersOf, countP_owns_cons, owns_clone, owns_withKey,
      owns_of_multiplexed hm, toNat_false]
    omega
  · refine ⟨rfl, fun transport => ?_⟩
    simp only [ownersOf, countP_owns_cons]
    exact le_rfl

lemma keepsOwners_rekey (self : System) (i : Nat) (key : PoolKey) :
    KeepsOwners self (self.step (.rekey i key)) := by
  refine keepsOwners_onHandle self i _ fun connection rest => ?_
  unfold rekeyHandle
  split
  · refine ⟨rfl, fun transport => ?_⟩
    simp only [ownersOf, countP_owns_cons, owns_withKey]
    exact le_rfl
  · refine ⟨rfl, fun transport => ?_⟩
    simp only [ownersOf, countP_owns_cons]
    exact le_rfl

lemma keepsOwners_retire (self : System) (i : Nat) : KeepsOwners self (self.step (.retire i)) := by
  refine keepsOwners_onHandle self i _ fun connection rest => ⟨rfl, fun transport => ?_⟩
  have hh : (self.inner.retireMultiplexTransport self.transports connection).2.2.owns
      transport = connection.owns transport := by
    unfold retireMultiplexTransport
    split <;> rfl
  simp only [retireHandle, ownersOf, countP_owns_cons, hh]
  have hi := idleOwners_retire_le self.inner transport connection self.transports
  omega

lemma keepsOwners_step (self : System) (op : Op)
    (hop : ∀ i established, op ≠ .attach i established) : KeepsOwners self (self.step op) := by
  have hs : KeepsOwners self self := ⟨rfl, fun _ => le_rfl⟩
  cases op with
  | reserve key =>
    unfold step tryReserveActive
    simp only
    split
    next inner hi =>
      split_ifs at hi
      · cases hi
        exact hs
    · exact hs
  | dropReservation i | dropPermit i | retirePermit i =>
    unfold step
    simp only
    split <;> exact hs
  | attach i established => exact absurd rfl (hop i established)
  | checkout moment key | checkoutH3 moment key =>
    exact keepsOwners_handOut self fun _ => idleOwners_checkoutMatching _ _ _ _ _ _
  | checkoutCoalesced moment walk host addr route =>
    exact keepsOwners_handOut self fun _ => idleOwners_checkoutCoalesced _ _ _ _ _ _ _ _
  | checkin now i key =>
    refine keepsOwners_onHandle self i _ fun connection rest => ⟨rfl, fun transport => ?_⟩
    simp only [checkinHandle, ownersOf]
    have hidl := idleOwners_checkinConnection_le self.inner transport connection self.transports now
      key
    omega
  | split i => exact keepsOwners_split self i
  | rekey i key => exact keepsOwners_rekey self i key
  | retire i => exact keepsOwners_retire self i
  | drop i =>
    refine keepsOwners_onHandle self i _ fun connection rest => ⟨rfl, fun transport => ?_⟩
    simp only [dropHandle, ownersOf, idleOwners_dropConnection]
    omega
  | evict key =>
    refine ⟨rfl, fun transport => ?_⟩
    exact Nat.add_le_add_left (idleOwners_evict_le _ _ _) _
  | reap now =>
    refine ⟨rfl, fun transport => ?_⟩
    exact Nat.add_le_add_left (idleOwners_pruneExpired_le _ _ _) _
  | takePermit i =>
    refine keepsOwners_onHandle self i _ fun connection rest => ⟨rfl, fun transport => ?_⟩
    simp only [takePermitOf, ownersOf, countP_owns_cons]
    exact le_rfl

lemma exclusive_attach (h : self.Exclusive) (i : Nat) (established : Established) :
    (self.step (.attach i established)).Exclusive := by
  unfold step
  simp only
  split
  next key rest ht =>
    intro transport
    have hb := h transport
    have hn : ((established.connection self.opened).withKey key).owns transport =
        (established.connection self.opened).owns transport := rfl
    simp only [ownersOf, countP_owns_cons, hn] at hb ⊢
    by_cases ho : transport = self.opened
    · rw [if_neg (by omega)] at hb
      rw [if_pos (by omega)]
      have hone := toNat_le ((established.connection self.opened).owns transport)
      omega
    have hoth : (established.connection self.opened).owns transport = false := by
      unfold owns Established.connection
      simp [Ne.symm ho]
    rw [hoth]
    split at hb
    · rw [if_pos (by omega)]
      exact hb
    · rw [if_neg (by omega)]
      exact hb
  · exact h

lemma exclusive_run (config : PoolConfig) (ops : List Op) : ((new config).run ops).Exclusive := by
  apply run_invariant
  · intro transport
    exact zero_le _
  intro self op h
  by_cases hop : ∃ i established, op = .attach i established
  · obtain ⟨i, established, rfl⟩ := hop
    exact exclusive_attach h i established
  · exact (keepsOwners_step self op fun i established heq => hop ⟨i, established, heq⟩).exclusive h

end System

end Aioduct.Pool
