import Aioduct.Pool.System

/-!
# The indexes of the idle connections

The queues of the pool and the index by certificate name, over all operations.
-/

namespace Aioduct.Pool

open Wire PoolInner List AList

variable {pool after : PoolInner} {moment : Moment} {transports : Transports} {key : PoolKey}
  {accepts : PooledConnection → Bool} {entry : IdleConnection} {queue left : List IdleConnection}

section Queue

variable (self : PoolInner)

lemma queue_of_idle (h : after.idle = self.idle) (key : PoolKey) :
    after.queue key = self.queue key := by
  unfold queue
  rw [h]

lemma queue_insert (key key' : PoolKey) (queue : List IdleConnection) :
    { self with idle := self.idle.insert key queue }.queue key' =
      if key' = key then queue else self.queue key' := by
  unfold PoolInner.queue
  split
  next heq =>
    rw [heq, lookup_insert]
    rfl
  next hne =>
    rw [lookup_insert_ne hne]

lemma lookup_setQueue (key key' : PoolKey) (queue : List IdleConnection) :
    (self.setQueue key queue).idle.lookup key' =
      if key' = key then if queue = [] then none else some queue else self.idle.lookup key' := by
  unfold setQueue
  by_cases heq : key' = key
  · subst heq
    by_cases he : queue = [] <;> simp [he]
  · by_cases he : queue = [] <;> simp [heq, he]

lemma dropStale_idle (host : Bytes) : (self.dropStale host).idle = self.idle := by
  unfold dropStale
  split <;> rfl

def PoolInner.indexed (name : Bytes) : List PoolKey := (self.sanIndex.lookup name).getD []

end Queue

/-- An entry that stays the same, or one of a multiplexed connection that was used. -/
def StaysFrom (queue : List IdleConnection) (entry : IdleConnection) : Prop :=
  ∃ before ∈ queue, entry.connection = before.connection ∧
    (entry.idleSince = before.idleSince ∨ entry.connection.isH2OrH3 = true)

/-- Entries of a queue in their order. -/
def Leaves (left queue : List IdleConnection) : Prop :=
  SublistForall₂ (fun entry before => entry.connection = before.connection ∧
    (entry.idleSince = before.idleSince ∨ entry.connection.isH2OrH3 = true)) left queue

def connections (queue : List IdleConnection) : List PooledConnection := queue.map (·.connection)

lemma Leaves.of_sublist (h : left <+ queue) : Leaves left queue :=
  sublistForall₂_iff.mpr ⟨left, forall₂_same.mpr fun _ _ => ⟨rfl, .inl rfl⟩, h⟩

lemma Leaves.reverse (h : Leaves left queue) : Leaves left.reverse queue.reverse := by
  obtain ⟨same, hs, h⟩ := sublistForall₂_iff.mp h
  exact sublistForall₂_iff.mpr ⟨same.reverse, rel_reverse hs, h.reverse⟩

lemma Leaves.staysFrom (h : Leaves left queue) (hm : entry ∈ left) : StaysFrom queue entry := by
  induction h with
  | nil => cases hm
  | cons hs _ ih =>
    rcases mem_cons.mp hm with rfl | hm
    · exact ⟨_, mem_cons_self, hs⟩
    · obtain ⟨before, hb, hs⟩ := ih hm
      exact ⟨before, mem_cons_of_mem _ hb, hs⟩
  | cons_right _ ih =>
    obtain ⟨before, hb, hs⟩ := ih hm
    exact ⟨before, mem_cons_of_mem _ hb, hs⟩

lemma Leaves.sublist (h : Leaves left queue) : connections left <+ connections queue := by
  induction h with
  | nil => exact nil_sublist _
  | cons hs _ ih => simpa [connections, hs.1] using ih
  | cons_right _ ih => exact ih.cons _

lemma leaves_touched (before after : List IdleConnection) (h : entry.connection.isH2OrH3)
    (now : Instant) : Leaves (before ++ entry.touched now :: after) (before ++ entry :: after) := by
  induction before with
  | nil => exact .cons ⟨rfl, .inr h⟩ (Leaves.of_sublist (.refl _))
  | cons first before ih => exact .cons ⟨rfl, .inl rfl⟩ ih

/-- A search drops entries, and takes one out or shares one. -/
lemma scan_leaves {config : PoolConfig} (queue : List IdleConnection) :
    let scanned := scan config moment transports key accepts queue
    ∃ taken, Leaves (scanned.retained ++ scanned.back ++ taken ++ scanned.rest) queue ∧
      (scanned.found = none ∧ scanned.back = [] ∨
        (∃ entry, scanned.back = [entry] ∧ entry.connection.isH2OrH3 ∧
          scanned.found = some (entry.connection.clone.withKey key)) ∨
        ∃ entry, scanned.back = [] ∧ taken = [entry] ∧
          scanned.found = some (entry.connection.withKey key)) := by
  induction queue with
  | nil => exact ⟨[], .nil, .inl ⟨rfl, rfl⟩⟩
  | cons entry queue ih =>
    obtain ⟨taken, hl, hf⟩ := ih
    rcases @scan_cons_cases moment transports config key accepts entry queue with
      heq | ⟨since, hs, heq⟩ | ⟨-, hm, transports', -, heq⟩ | ⟨-, -, heq⟩ <;> rw [heq]
    · exact ⟨taken, hl.cons_right, hf⟩
    · exact ⟨taken, hl.cons ⟨rfl, hs⟩, hf⟩
    · exact ⟨[], .cons ⟨rfl, .inr hm⟩ (Leaves.of_sublist (.refl _)), .inr (.inl ⟨_, rfl, hm, rfl⟩)⟩
    · exact ⟨[entry], .of_sublist (.refl _), .inr (.inr ⟨entry, rfl, rfl, rfl⟩)⟩

/-- What is left of each queue, while its key stays indexed. -/
def Shrinks (pool after : PoolInner) : Prop :=
  ∀ key left, after.idle.lookup key = some left → ∃ queue kept, pool.idle.lookup key = some queue ∧
    left <+~ kept ∧ Leaves kept queue ∧ (left = [] → queue = []) ∧
    ∀ name, key ∈ pool.indexed name → key ∈ after.indexed name

lemma Shrinks.of_idle (h : after.idle = pool.idle)
    (hi : ∀ key name, (pool.idle.lookup key).isSome → key ∈ pool.indexed name →
      key ∈ after.indexed name) : Shrinks pool after := by
  intro key left hl
  rw [h] at hl
  exact ⟨left, left, hl, .refl _, .of_sublist (.refl _), id, fun name => hi key name (hl ▸ rfl)⟩

lemma shrinks_setQueue {kept : List IdleConnection} (hp : left <+~ kept)
    (hk : Leaves kept (pool.queue key)) : Shrinks pool (pool.setQueue key left) := by
  intro key' left' hl
  rw [lookup_setQueue] at hl
  split at hl
  next heq =>
    subst heq
    split at hl
    · cases hl
    next hne =>
      cases hl
      cases hq : pool.idle.lookup key' with
      | none =>
        rw [PoolInner.queue, hq] at hk
        cases hk
        exact absurd (subperm_nil.mp hp) hne
      | some queue =>
        rw [PoolInner.queue, hq] at hk
        exact ⟨queue, kept, rfl, hp, hk, fun h => absurd h hne, fun _ h => h⟩
  · exact ⟨left', left', hl, .refl _, .of_sublist (.refl _), id, fun _ h => h⟩

/-- What a checkout leaves of a queue. The entries keep their order; only one that was cloned goes to
the back. -/
def KeepsOrder (queue left : List IdleConnection) (found : Option PooledConnection)
    (key : PoolKey) : Prop :=
  ∃ older shared newer, older ++ shared ++ newer <+ connections queue ∧
    connections left = older ++ newer ++ shared ∧
    (shared = [] ∨ ∃ connection : PooledConnection, shared = [connection] ∧
      connection.isH2OrH3 ∧ found = some (connection.clone.withKey key))

section Checkout

variable (pool moment transports key accepts)

lemma checkoutMatching_left :
    let result := pool.checkoutMatching moment transports key accepts
    result.1 = none ∧ result.2.1 = pool ∨ ∃ left kept, left <+~ kept ∧ Leaves kept (pool.queue key) ∧
      KeepsOrder (pool.queue key) left result.1 key ∧ (result.2.1 = pool.setQueue key left ∨
        result.2.1 = (pool.setQueue key left).incrementActive key) := by
  unfold checkoutMatching
  split
  · exact .inl ⟨rfl, rfl⟩
  split
  · exact .inl ⟨rfl, rfl⟩
  rename_i queue hq
  rw [show pool.queue key = queue from congrArg (Option.getD · []) hq]
  -- the search begins at the newest entry
  obtain ⟨taken, hl, hf⟩ := @scan_leaves moment transports key accepts pool.config queue.reverse
  generalize scan pool.config moment transports key accepts queue.reverse = scanned at hl hf ⊢
  have hs : scanned.retained ++ scanned.back ++ scanned.rest <+
      scanned.retained ++ scanned.back ++ taken ++ scanned.rest := by
    rw [append_assoc _ taken]
    exact (sublist_append_right taken _).append_left _
  refine .inr ⟨scanned.kept.reverse, _, ?_, reverse_reverse queue ▸ hl.reverse,
    ⟨(connections scanned.rest).reverse, (connections scanned.back).reverse,
      (connections scanned.retained).reverse, ?_, ?_, ?_⟩, ?_⟩
  · have hp : scanned.kept.reverse ~ scanned.retained ++ scanned.back ++ scanned.rest :=
      (reverse_perm _).trans (perm_append_comm.append_right _)
    exact (hp.subperm.trans hs.subperm).trans (reverse_perm _).symm.subperm
  · simpa [connections] using (Sublist.trans (hs.map IdleConnection.connection) hl.sublist).reverse
  · simp [connections, Scan.kept]
  · rcases hf with ⟨-, hb⟩ | ⟨entry, hb, hm, hf⟩ | ⟨entry, hb, -⟩
    · exact .inl (by rw [hb]; rfl)
    · exact .inr ⟨entry.connection, by rw [hb]; rfl, hm, hf⟩
    · exact .inl (by rw [hb]; rfl)
  · simp only
    split
    · exact .inr rfl
    · exact .inl rfl

lemma shrinks_checkoutMatching :
    Shrinks pool (pool.checkoutMatching moment transports key accepts).2.1 := by
  rcases checkoutMatching_left pool moment transports key accepts with
    ⟨-, h⟩ | ⟨left, kept, hp, hk, -, h⟩
  · rw [h]
    exact .of_idle rfl fun _ _ _ h => h
  rcases h with h | h <;> rw [h] <;> exact shrinks_setQueue hp hk

end Checkout

lemma dropStale_indexed (hi : (pool.idle.lookup key).isSome) {name : Bytes}
    (h : key ∈ pool.indexed name) (host : Bytes) : key ∈ (pool.dropStale host).indexed name := by
  unfold dropStale
  split
  · exact h
  rename_i keys hk
  simp only [indexed]
  by_cases heq : name = host
  · subst heq
    have hm : key ∈ keys.filter fun key => (pool.idle.lookup key).isSome := by
      rw [indexed, hk] at h
      exact mem_filter.mpr ⟨h, hi⟩
    rwa [if_neg fun he => not_mem_nil (isEmpty_iff.mp he ▸ hm), lookup_insert]
  · split
    · rwa [lookup_erase_ne heq]
    · rwa [lookup_insert_ne heq]

lemma checkoutCoalesced_left (pool : PoolInner) (moment : Moment) (transports : Transports)
    (walk : PoolInner.Walk) (host : Bytes) (addr : SocketAddr) (route : ProxyRoute) :
    let after := (pool.checkoutCoalesced moment transports walk host addr route).2.1
    Shrinks pool after ∧ ∀ key, connections (after.queue key) = connections (pool.queue key) := by
  unfold checkoutCoalesced
  split
  · exact ⟨.of_idle rfl fun _ _ _ h => h, fun _ => rfl⟩
  split
  next found queue connection transports' hf =>
    obtain ⟨-, -, -, before, entry, after, hb, rfl, hs, -⟩ := findCandidate_spec hf
    have hk : Leaves (before ++ entry.touched moment.now :: after) (pool.queue found) :=
      hb ▸ leaves_touched before after (isH2OrH3_of_coalesces hs) moment.now
    have hset := shrinks_setQueue (.refl _) hk
    rw [setQueue, if_neg (by simp)] at hset
    simp only
    refine ⟨fun key left hl => ?_, fun key => ?_⟩
    · rw [dropStale_idle] at hl
      obtain ⟨queue, kept, hq, hp, hk, hne, hi⟩ := hset key left hl
      refine ⟨queue, kept, hq, hp, hk, hne, fun name hn => dropStale_indexed (hl ▸ rfl) ?_ host⟩
      exact hi name hn
    · rw [queue_of_idle _ (dropStale_idle _ _)]
      show connections ({ pool with idle := pool.idle.insert found _ }.queue key) = _
      rw [queue_insert]
      split
      next heq =>
        rw [heq, hb, connections, connections, map_append, map_append]
        rfl
      · rfl
  · exact ⟨.of_idle (dropStale_idle _ _) fun key name hi h => dropStale_indexed hi h host,
      fun key => by rw [queue_of_idle _ (dropStale_idle _ _)]⟩

lemma shrinks_pruneExpired (now : Instant) : Shrinks pool (pool.pruneExpired now) := by
  intro key left hl
  have hx : ∀ name, key ∈ pool.indexed name → key ∈ (pool.pruneExpired now).indexed name := by
    intro name h
    have hi : ((pool.pruneExpired now).idle.lookup key).isSome := hl ▸ rfl
    simp only [indexed, pruneExpired] at hi h ⊢
    rw [Table.lookup_filterMap]
    cases hk : pool.sanIndex.lookup name with
    | none =>
      rw [hk] at h
      cases h
    | some keys =>
      rw [hk] at h
      rw [Option.bind_some]
      generalize hl : keys.filter _ = live
      have hm : key ∈ live := hl ▸ mem_filter.mpr ⟨h, hi⟩
      rwa [if_neg fun he => not_mem_nil (isEmpty_iff.mp he ▸ hm)]
  simp only [pruneExpired, Table.lookup_filterMap] at hl
  obtain ⟨queue, hq, hl⟩ := Option.bind_eq_some_iff.mp hl
  split at hl
  · cases hl
  next hne =>
    cases hl
    exact ⟨queue, _, hq, .refl _, .of_sublist filter_sublist,
      fun h => absurd (isEmpty_iff.mpr h) hne, hx⟩

/-- No queue is empty or too long, and each name of the certificate of a multiplexed connection in
it leads to its key. -/
def Consistent (pool : PoolInner) : Prop :=
  ∀ key queue, pool.idle.lookup key = some queue →
    queue ≠ [] ∧ queue.length ≤ pool.config.maxIdlePerHost ∧
      ∀ entry ∈ queue, entry.connection.isH2OrH3 = true →
        ∀ name ∈ entry.connection.names, key ∈ pool.indexed name

lemma Shrinks.consistent (h : Shrinks pool after) (hc : after.config = pool.config)
    (hp : Consistent pool) : Consistent after := by
  intro key left hl
  obtain ⟨queue, kept, hq, hs, hk, hne, hi⟩ := h key left hl
  obtain ⟨hn, hb, hx⟩ := hp key queue hq
  refine ⟨fun he => hn (hne he), ?_, fun entry hm hmul name hname => ?_⟩
  · have hle := hk.sublist.length_le
    simp only [connections, length_map] at hle
    exact hc ▸ hs.length_le.trans (hle.trans hb)
  · obtain ⟨before, hb, heq, -⟩ := hk.staysFrom (hs.subset hm)
    exact hi name (hx before hb (heq ▸ hmul) name (heq ▸ hname))

lemma mem_indexNames (index : Table Bytes (List PoolKey)) (key key' : PoolKey) (names : List Bytes)
    (name : Bytes) (h : key' ∈ (index.lookup name).getD [] ∨ key' = key ∧ name ∈ names) :
    key' ∈ ((indexNames index key names).lookup name).getD [] := by
  induction names generalizing index with
  | nil => simpa [indexNames] using h
  | cons first names ih =>
    refine ih _ ?_
    by_cases heq : name = first
    · subst heq
      left
      rw [lookup_insert, Option.getD_some]
      split
      next hc =>
        rcases h with h | ⟨rfl, -⟩
        · exact h
        · exact contains_iff_mem.mp hc
      · exact mem_append.mpr (h.imp_right fun h => mem_singleton.mpr h.1)
    · rw [lookup_insert_ne heq]
      exact h.imp_right fun ⟨hk, hm⟩ => ⟨hk, (mem_cons.mp hm).resolve_left heq⟩

lemma Consistent.checkin (h : Consistent pool) (transports : Transports) (now : Instant)
    (key : PoolKey) (connection : PooledConnection) :
    Consistent (pool.checkinConnection transports now key connection).1 := by
  obtain ⟨-, hc, ⟨hi, hx⟩ | ⟨-, queue, entry, hq, hlen, -, -, -, hi, hx, hsan⟩⟩ :=
    checkinConnection_spec pool transports now key connection <;>
  generalize (pool.checkinConnection transports now key connection).1 = after at hc hi hx ⊢
  · unfold Consistent indexed
    rw [hc, hi, hx]
    exact h
  intro key' queue' hl
  rw [hi] at hl
  rw [hc]
  simp only [indexed, hx]
  by_cases heq : key' = key
  · subst heq
    rw [lookup_insert] at hl
    cases hl
    have hb : (pool.queue key').length ≤ pool.config.maxIdlePerHost ∧ ∀ entry ∈ pool.queue key',
        entry.connection.isH2OrH3 → ∀ name ∈ entry.connection.names, key' ∈ pool.indexed name := by
      unfold PoolInner.queue
      cases hq : pool.idle.lookup key' with
      | none => exact ⟨Nat.zero_le _, by simp⟩
      | some queue => exact (h key' queue hq).2
    refine ⟨by simp, ?_, fun entry' he hmul name hn => mem_indexNames _ _ _ _ _ ?_⟩
    · rw [length_append, length_singleton]
      omega
    rcases mem_append.mp he with he | he
    · exact .inl (hb.2 entry' (hq.subset he) hmul name hn)
    · obtain rfl := mem_singleton.mp he
      exact .inr ⟨rfl, hsan hmul ▸ hn⟩
  · rw [lookup_insert_ne heq] at hl
    obtain ⟨hne, hlen, hx⟩ := h key' queue' hl
    exact ⟨hne, hlen, fun entry he hmul name hn =>
      mem_indexNames _ _ _ _ _ (.inl (hx entry he hmul name hn))⟩

lemma Consistent.step {self : System} (h : Consistent self.inner) (op : Op) :
    Consistent (self.step op).inner := by
  have ht := self.touches_step op
  have hc := self.step_config op
  generalize (self.step op).inner = after at ht hc ⊢
  cases ht with
  | matching => exact (shrinks_checkoutMatching _ _ _ _ _).consistent hc h
  | coalesced => exact (checkoutCoalesced_left _ _ _ _ _ _ _).1.consistent hc h
  | evict op key => exact Shrinks.consistent (shrinks_setQueue (.refl _) .nil) hc h
  | prune op now => exact (shrinks_pruneExpired now).consistent hc h
  | nothing | reserve | release | rekey => exact h
  | checkin => exact h.checkin _ _ _ _

end Aioduct.Pool
