import Aioduct.Pool.Owners

/-!
# Who gets which connection

A checkout gives a connection that was checked in under the key, and a connection that can serve
one request at a time is never held twice.
-/

namespace Aioduct.Pool

open Wire PoolInner List PoolConfig

variable {before inner : PoolInner} {config : PoolConfig}
  {accepts : PooledConnection → Bool} {now : Instant} {key' key : PoolKey}

abbrev CheckIn := PoolKey × Nat × Instant

namespace System

def checksIn (self : System) : Op → List CheckIn
  | .checkin now i key =>
    match takeAt self.handles i with
    | some (connection, _) =>
      if connection.isMultiplexClone then [] else [(key, connection.transport, now)]
    | none => []
  | _ => []

def checkedIn (self : System) : List Op → List CheckIn
  | [] => []
  | op :: ops => checkedIn (self.step op) ops ++ self.checksIn op

end System

/-- Each idle connection was checked in under its key. One that can serve one request at a time is
idle since then. -/
def Logged (log : List CheckIn) (self : PoolInner) : Prop :=
  ∀ key, ∀ entry ∈ self.queue key, ∃ since, (key, entry.connection.transport, since) ∈ log ∧
    (entry.idleSince = since ∨ entry.connection.isH2OrH3 = true)

variable {entry : IdleConnection} {queue : List IdleConnection} {after : PoolInner}
  {connection : PooledConnection} {log : List CheckIn}

def Descends (before after : PoolInner) : Prop :=
  ∀ key, ∀ entry ∈ after.queue key, StaysFrom (before.queue key) entry

lemma Descends.logged (h : Descends before after) (hl : Logged log before) : Logged log after := by
  intro key entry he
  obtain ⟨old, hold, hc, hi⟩ := h key entry he
  obtain ⟨since, hm, hs⟩ := hl key old hold
  refine ⟨since, hc ▸ hm, ?_⟩
  rcases hi with hi | hmux
  · rw [hi, hc]
    exact hs
  · exact .inr hmux

lemma Shrinks.descends (h : Shrinks before after) : Descends before after := by
  intro key entry he
  unfold PoolInner.queue at he ⊢
  cases hl : after.idle.lookup key with
  | none =>
    rw [hl] at he
    cases he
  | some left =>
    obtain ⟨queue, kept, hq, hp, hk, -⟩ := h key left hl
    rw [hl] at he
    rw [hq]
    exact hk.staysFrom (hp.subset he)

section Descends

variable (self : PoolInner)

lemma descends_of_idle (h : after.idle = self.idle) : Descends self after := by
  intro key entry he
  rw [queue_of_idle self h] at he
  exact ⟨entry, he, rfl, .inl rfl⟩

end Descends

section History

variable {self : System} {log : List CheckIn}

lemma Logged.append (h : Logged log inner) (log' : List CheckIn) : Logged (log' ++ log) inner := by
  intro key entry he
  obtain ⟨since, hm, hs⟩ := h key entry he
  exact ⟨since, mem_append_right _ hm, hs⟩

lemma logged_checkinConnection (h : Logged log inner) (transports : Transports)
    (now : Instant) (key : PoolKey) (connection : PooledConnection) :
    Logged ((if connection.isMultiplexClone then [] else [(key, connection.transport, now)]) ++ log)
      (inner.checkinConnection transports now key connection).1 := by
  obtain ⟨-, -, ⟨hi, -⟩ | ⟨hc, queue, entry, hq, -, hs, ht, -, hi, -⟩⟩ :=
    checkinConnection_spec inner transports now key connection
  · exact ((descends_of_idle inner hi).logged h).append _
  rw [hc]
  intro key' entry' he
  rw [queue_of_idle { inner with idle := inner.idle.insert key _ } hi, queue_insert] at he
  split at he
  next heq =>
    subst heq
    rcases mem_append.mp he with he | he
    · exact h.append _ _ entry' (hq.subset he)
    · obtain rfl := mem_singleton.mp he
      exact ⟨now, ht ▸ mem_append_left _ (mem_singleton_self _), .inl hs⟩
  · exact h.append _ key' entry' he

/-- One operation: what it checks in is added to the log. -/
lemma logged_step (h : Logged log self.inner) (op : Op) :
    Logged (self.checksIn op ++ log) (self.step op).inner := by
  have hs := self.touches_step op
  generalize (self.step op).inner = after at hs ⊢
  cases hs with
  | matching => exact ((shrinks_checkoutMatching _ _ _ _ _).descends.logged h).append _
  | coalesced => exact ((checkoutCoalesced_left _ _ _ _ _ _ _).1.descends.logged h).append _
  | checkin ht =>
    simp only [System.checksIn, ht]
    exact logged_checkinConnection h _ _ _ _
  | evict op key => exact ((Shrinks.descends (shrinks_setQueue (.refl _) .nil)).logged h).append _
  | prune op now => exact ((shrinks_pruneExpired now).descends.logged h).append _
  | nothing | reserve | release | rekey => exact h.append _

lemma logged_run (h : Logged log self.inner) (ops : List Op) :
    Logged (self.checkedIn ops ++ log) (self.run ops).inner := by
  induction ops generalizing self log with
  | nil => exact h
  | cons op ops ih =>
    have hr := ih (logged_step h op)
    rw [← append_assoc] at hr
    exact hr

end History

/-- A handle from the pool: on a connection that was checked in under the key and neither was idle
too long nor lives too long. -/
structure CheckedOut (config : PoolConfig) (log : List CheckIn) (entries : List IdleConnection)
    (now : Instant) (key : PoolKey) (connection : PooledConnection) : Prop where
  active : connection.key = some key
  checkedIn : ∃ since, (key, connection.transport, since) ∈ log ∧
    (connection.isH2OrH3 = false → durationSince now since < config.idleTimeout)
  idle : ∃ entry ∈ entries, entry.connection.transport = connection.transport ∧
    durationSince now entry.idleSince < config.idleTimeout
  lifetime : ∀ max ∈ config.maxLifetime, durationSince now connection.createdAt < max

lemma usable_iff :
    config.usable now entry ↔ durationSince now entry.idleSince < config.idleTimeout ∧
      ∀ max ∈ config.maxLifetime, durationSince now entry.connection.createdAt < max := by
  unfold usable idleTooLong withinLifetime
  cases config.maxLifetime <;> simp

lemma CheckedOut.of_entry (hlog : Logged log inner) (he : entry ∈ inner.queue key)
    (hu : config.usable now entry) (hk : connection.key = some key)
    (ht : connection.transport = entry.connection.transport)
    (hcon : connection.isH2OrH3 = entry.connection.isH2OrH3)
    (hc : connection.createdAt = entry.connection.createdAt) :
    CheckedOut config log (inner.queue key) now key connection := by
  obtain ⟨hi, hl⟩ := usable_iff.mp hu
  obtain ⟨since, hm, hsin⟩ := hlog key entry he
  refine ⟨hk, ⟨since, ht ▸ hm, fun hs => ?_⟩, ⟨entry, he, ht.symm, hi⟩, hc ▸ hl⟩
  rcases hsin with rfl | hmux
  · exact hi
  · rw [hcon, hmux] at hs
    cases hs

/-- A handle on a connection to another host: one that serves several requests, whose certificate
names the host, at the address, over the proxies, and not dialled at a forced address. -/
structure Coalesced (host : Bytes) (addr : SocketAddr) (route : ProxyRoute) (key : PoolKey)
    (connection : PooledConnection) : Prop where
  multiplexed : connection.isH2OrH3 = true
  named : host ∈ connection.names
  address : connection.remoteAddr = some addr
  route : key.proxyRoute = route
  unforced : key.forcedAddr = none

namespace System

variable {self : System} {log : List CheckIn} {moment : Moment}

lemma checkedOut_of_checkoutMatching (hl : Logged log self.inner)
    (h : (self.inner.checkoutMatching moment self.transports key accepts).1 = some connection) :
    CheckedOut self.inner.config log (self.inner.queue key) moment.now key connection := by
  unfold checkoutMatching at h
  split at h
  · cases h
  split at h
  · cases h
  rename_i queue hq
  obtain ⟨entry, hm, he, rfl⟩ := scan_found h
  have hent : entry ∈ self.inner.queue key := by
    unfold PoolInner.queue
    rw [hq]
    exact mem_reverse.mp hm
  refine .of_entry hl hent he.usable rfl ?_ ?_ ?_
  all_goals split <;> rfl

lemma coalesced_of_checkoutCoalesced (hl : Logged log self.inner) {walk : PoolInner.Walk}
    {host : Bytes} {addr : SocketAddr} {route : ProxyRoute}
    (h : (self.inner.checkoutCoalesced moment self.transports walk host addr route).1 =
      some connection) :
    ∃ key, CheckedOut self.inner.config log (self.inner.queue key) moment.now key connection ∧
      Coalesced host addr route key connection := by
  unfold checkoutCoalesced at h
  split at h
  · cases h
  split at h
  next key queue found transports' hfou =>
    cases h
    obtain ⟨hr, hf, -, before, entry, after, hb, -, hs, rfl⟩ :=
      findCandidate_spec hfou
    have he : entry ∈ self.inner.queue key := by
      rw [hb]
      exact mem_append_right _ mem_cons_self
    unfold coalesces at hs
    simp only [Bool.and_eq_true, decide_eq_true_eq, contains_iff_mem] at hs
    obtain ⟨⟨⟨⟨⟨hu, hm⟩, -⟩, hsan⟩, ha⟩, -⟩ := hs
    exact ⟨key, .of_entry hl he hu rfl rfl rfl rfl,
      ⟨hm, entry.connection.mem_names_of_mem_sans hsan, ha, hr, hf⟩⟩
  · cases h

/-- After every run from an unused pool: a checkout gives a connection that was checked in under the
key and may still be used; a coalesced checkout one that also serves several requests, has a
certificate that names the host, and goes to the address over the same proxies; and no connection
that serves one request at a time has two owners. Keys are equal exactly for the same target. -/
theorem pool_isolates (config : PoolConfig) (ops : List Op) : let self := (new config).run ops
    let log := (new config).checkedIn ops
    (∀ moment key accepts connection,
      (self.inner.checkoutMatching moment self.transports key accepts).1 = some connection →
        CheckedOut config log (self.inner.queue key) moment.now key connection) ∧
    (∀ moment walk host addr route connection,
      (self.inner.checkoutCoalesced moment self.transports walk host addr route).1 =
        some connection → ∃ key,
          CheckedOut config log (self.inner.queue key) moment.now key connection ∧
          Coalesced host addr route key connection) ∧
    (∀ transport, self.ownersOf transport ≤ 1) ∧
    ∀ target target' : Target, target.key = target'.key ↔ target.Same target' := by
  intro self log
  have hc : self.inner.config = config := run_config _ _
  have hl : Logged log self.inner := by
    have hi : Logged [] (new config).inner := by
      intro key entry he
      cases he
    have hr := logged_run hi ops
    rwa [append_nil] at hr
  refine ⟨?_, ?_, ?_, Target.key_eq_iff⟩
  · intro moment key accepts connection h
    rw [← hc]
    exact checkedOut_of_checkoutMatching hl h
  · intro moment walk host addr route connection h
    rw [← hc]
    exact coalesced_of_checkoutCoalesced hl h
  intro transport
  have ho := exclusive_run config ops transport
  split at ho
  · exact ho
  · exact ho.trans (Nat.zero_le 1)

def idleKey : PoolKey where
  origin := { scheme := ascii "https", host := .name (ascii "example.net"), port := some 443 }

def idleRun : List Op :=
  [.reserve idleKey, .attach 0 { conn := .h1, createdAt := 0 }, .checkin 5 0 idleKey,
    .reserve idleKey,
    .attach 0
      { conn := .h2, createdAt := 0, names := [ascii "other.example.net"],
        remoteAddr := some ⟨.v4 [192, 0, 2, 1], 443⟩ },
    .checkin 5 0 idleKey]

def soonAfter : Moment := ⟨10, fun _ => true⟩

theorem pool_isolates_idle : let self := (new .new).run idleRun
    let log := (new .new).checkedIn idleRun
    (self.inner.checkoutMatching soonAfter self.transports idleKey (!·.isH2OrH3)).1.isSome = true ∧
      (∀ connection,
        (self.inner.checkoutMatching soonAfter self.transports idleKey (!·.isH2OrH3)).1 =
          some connection → CheckedOut .new log (self.inner.queue idleKey) 10 idleKey connection) ∧
      (self.inner.checkoutCoalesced soonAfter self.transports ⟨id, fun _ => .refl _⟩
        (ascii "other.example.net") ⟨.v4 [192, 0, 2, 1], 443⟩ .direct).1.isSome = true ∧
      self.ownersOf 0 ≤ 1 := by
  refine ⟨by decide, ?_, by decide, ?_⟩
  · exact fun connection => (pool_isolates .new idleRun).1 soonAfter idleKey _ connection
  · exact (pool_isolates .new idleRun).2.2.1 0

end System

end Aioduct.Pool
