import Aioduct.Pool.System

/-!
# The count of active handles

The count of a key is the number of reservations and handles that own a slot of the key, together
with those that were retired while they owned one and are never counted down.
-/

namespace Aioduct.Pool

open Wire List PooledConnection

variable {active : Counters PoolKey} {connection : PooledConnection} {i : Nat}
  {rest handles : List PooledConnection} (reservations : List PoolKey)

def slots (handles : List PooledConnection) : List PoolKey :=
  reservations ++ handles.filterMap PooledConnection.key

lemma slots_cons (connection : PooledConnection) (handles : List PooledConnection) :
    (slots reservations (connection :: handles)).Perm
      (connection.key.toList ++ slots reservations handles) := by
  have hk : (connection :: handles).filterMap key =
      connection.key.toList ++ handles.filterMap key := by
    rw [filterMap_cons]
    cases connection.key <;> rfl
  unfold slots
  rw [hk, ← append_assoc, ← append_assoc]
  exact perm_append_comm.append_right _

namespace System

variable (self : System)

def owners : List PoolKey := slots self.reservations self.handles

def Exact : Prop := ∀ key, self.inner.active.count key = self.owners.count key

/-- The counts are those of the owners and of the slots that were given up. -/
def Balanced (forgotten : List PoolKey) (self : System) : Prop :=
  self.inner.active.Balanced self.owners forgotten

def forgets : Op → List PoolKey
  | .retire i =>
    match takeAt self.handles i with
    | some (connection, _) => if connection.isH2OrH3 then connection.key.toList else []
    | none => []
  | _ => []

def forgotten (self : System) : List Op → List PoolKey
  | [] => []
  | op :: ops => forgotten (self.step op) ops ++ self.forgets op

end System

section Steps

variable {self : System} {forgotten : List PoolKey}

lemma balanced_released
    {owners : List PoolKey} (h : active.Balanced (connection.key.toList ++ owners) forgotten) :
    (released active connection).Balanced owners forgotten := by
  unfold released
  cases hk : connection.key with
  | none =>
    rw [hk] at h
    exact h
  | some key =>
    rw [hk] at h
    exact h.decrement

lemma balanced_handOut (h : self.Balanced forgotten)
    {result : Option PooledConnection × PoolInner × Transports}
    (hr : HandsOut self.inner result) : (self.handOut result).Balanced forgotten := by
  show result.2.1.active.Balanced
    (slots self.reservations (result.1.toList ++ self.handles)) forgotten
  rcases hr with ⟨hnone, ha⟩ | ⟨connection, key, hsome, hk, -, ha⟩
  · rw [hnone, ha]
    exact h
  have ho := slots_cons self.reservations connection self.handles
  rw [hk] at ho
  rw [hsome, ha]
  exact (Counters.Balanced.increment h key).perm ho.symm

lemma balanced_takeReservation (h : self.Balanced forgotten) {key : PoolKey}
    {rest : List PoolKey} (ht : takeAt self.reservations i = some (key, rest)) :
    self.inner.active.Balanced (key :: slots rest self.handles) forgotten :=
  Counters.Balanced.perm h ((takeAt_perm ht).append_right _)

lemma balanced_takeHandle (h : self.Balanced forgotten)
    (hp : self.handles.Perm (connection :: rest)) :
    self.inner.active.Balanced (connection.key.toList ++ slots self.reservations rest) forgotten :=
  Counters.Balanced.perm h (((hp.filterMap _).append_left _).trans (slots_cons _ _ _))

lemma balanced_onHandle (h : self.Balanced forgotten) {act : PooledConnection → System → System}
    (ha : ∀ connection rest, self.inner.active.Balanced
        (connection.key.toList ++ slots self.reservations rest) forgotten →
      (act connection { self with handles := rest }).Balanced forgotten) :
    (self.onHandle i act).Balanced forgotten :=
  System.onHandle_cases self i act h fun connection rest hp =>
    ha connection rest (balanced_takeHandle h hp)

lemma balanced_putBack (connection : PooledConnection) {reservations : List PoolKey}
    (h : active.Balanced (connection.key.toList ++ slots reservations handles) forgotten) :
    active.Balanced (slots reservations (connection :: handles)) forgotten :=
  h.perm (slots_cons _ _ _).symm

lemma balanced_retire (h : self.Balanced forgotten) (i : Nat) :
    (self.step (.retire i)).Balanced (self.forgets (.retire i) ++ forgotten) := by
  cases ht : takeAt self.handles i with
  | none =>
    simp only [System.step, System.onHandle, System.forgets, ht]
    exact h
  | some taken =>
    obtain ⟨connection, rest⟩ := taken
    simp only [System.step, System.onHandle, System.forgets, ht]
    have hb := balanced_takeHandle h (takeAt_perm ht)
    show ((self.inner.retireMultiplexTransport self.transports connection).1.active).Balanced
      (slots self.reservations
        ((self.inner.retireMultiplexTransport self.transports connection).2.2 :: rest)) _
    apply balanced_putBack
    unfold PoolInner.retireMultiplexTransport
    by_cases hm : connection.isH2OrH3
    · rw [hm]
      cases hk : connection.key with
      | none =>
        rw [hk] at hb
        exact hb
      | some key =>
        rw [hk] at hb
        exact hb.forget
    · rw [Bool.not_eq_true] at hm
      rw [hm]
      exact hb

/-- One operation: only the slot that a retired handle gives up is not counted down. -/
lemma balanced_step (h : self.Balanced forgotten) (op : Op) :
    (self.step op).Balanced (self.forgets op ++ forgotten) := by
  cases op with
  | reserve key =>
    unfold System.step PoolInner.tryReserveActive
    simp only
    split
    next inner hi =>
      split_ifs at hi
      · cases hi
        exact Counters.Balanced.increment h key
    · exact h
  | dropReservation i =>
    unfold System.step
    simp only
    split
    next key rest ht =>
      exact (balanced_takeReservation h ht).decrement
    · exact h
  | attach i established =>
    unfold System.step
    simp only
    split
    next key rest ht =>
      exact balanced_putBack ((established.connection self.opened).withKey key)
        (balanced_takeReservation h ht)
    · exact h
  | checkout moment key | checkoutH3 moment key =>
    exact balanced_handOut h (handsOut_checkoutMatching _ _ _ _ _)
  | checkoutCoalesced moment walk host addr route =>
    exact balanced_handOut h (handsOut_checkoutCoalesced _ _ _ _ _ _ _)
  | checkin now i key =>
    refine balanced_onHandle h fun connection rest hb => ?_
    show ((self.inner.checkinConnection self.transports now key connection).1.active).Balanced _ _
    rw [(checkinConnection_spec _ _ _ _ _).1]
    exact balanced_released hb
  | split i =>
    refine balanced_onHandle h fun connection rest hb => ?_
    unfold System.splitHandle
    split
    next cloned transports hc =>
      obtain ⟨rfl, -, -⟩ := clone_eq hc
      refine balanced_putBack connection.clone ?_
      refine Counters.Balanced.perm hb (List.Perm.append_left _ ?_)
      exact (slots_cons _ (connection.withKey none) rest).symm
    · exact balanced_putBack connection hb
  | rekey i key =>
    refine balanced_onHandle h fun connection rest hb => ?_
    unfold System.rekeyHandle
    split
    next old hold =>
      rw [hold] at hb
      exact balanced_putBack (connection.withKey key) (hb.decrement.increment key)
    · exact balanced_putBack connection hb
  | retire i => exact balanced_retire h i
  | drop i =>
    refine balanced_onHandle h fun connection rest hb => ?_
    show ((self.inner.releaseSlot connection).active).Balanced _ _
    rw [releaseSlot_frame]
    exact balanced_released hb
  | evict key => exact h
  | reap now => exact h
  | takePermit i =>
    refine balanced_onHandle h fun connection rest hb => ?_
    exact balanced_putBack connection.withoutPermit hb
  | dropPermit i | retirePermit i =>
    unfold System.step
    simp only
    split <;> exact h

lemma balanced_run (h : self.Balanced forgotten) (ops : List Op) :
    (self.run ops).Balanced (self.forgotten ops ++ forgotten) := by
  induction ops generalizing self forgotten with
  | nil => exact h
  | cons op ops ih =>
    have hr := ih (balanced_step h op)
    rw [← append_assoc] at hr
    exact hr

end Steps

namespace System

variable (self : System)

/-- The operation retires a handle on a multiplexed connection that still owns a slot. -/
def RetiresActive (i : Nat) : Prop :=
  ∃ connection rest, takeAt self.handles i = some (connection, rest) ∧
    connection.isH2OrH3 = true ∧ connection.key.isSome = true

lemma forgets_eq_nil_iff (op : Op) :
    self.forgets op = [] ↔ ∀ i, op = .retire i → ¬self.RetiresActive i := by
  cases op
  case retire i =>
    simp only [forgets, Op.retire.injEq, forall_eq', RetiresActive]
    cases takeAt self.handles i with
    | none => simp
    | some taken =>
      obtain ⟨connection, rest⟩ := taken
      cases hm : connection.isH2OrH3 <;> cases hk : connection.key <;> simp [*]
  all_goals simp [forgets]

lemma forgotten_eq_nil_iff (ops : List Op) :
    self.forgotten ops = [] ↔ ∀ before i after, ops = before ++ .retire i :: after →
      ¬(self.run before).RetiresActive i := by
  induction ops generalizing self with
  | nil => simp [forgotten]
  | cons op ops ih =>
    unfold forgotten
    rw [append_eq_nil_iff, ih, forgets_eq_nil_iff]
    constructor
    · rintro ⟨hl, hn⟩ before i after heq
      cases before with
      | nil =>
        obtain ⟨rfl, -⟩ := List.cons.inj heq
        exact hn i rfl
      | cons first before =>
        obtain ⟨rfl, rfl⟩ := List.cons.inj heq
        exact hl before i after rfl
    intro h
    refine ⟨fun before i after heq => ?_, fun i heq => ?_⟩
    · exact h (op :: before) i after (by rw [heq]; rfl)
    · exact h [] i ops (by rw [heq]; rfl)

/-- After every run from an unused pool the count of each key is the number of live reservations and
handles that own a slot of it exactly if no handle on a multiplexed connection was retired while it
owned a slot. -/
theorem active_exact_iff (config : PoolConfig) (ops : List Op) :
    ((new config).run ops).Exact ↔ ∀ before i after, ops = before ++ .retire i :: after →
      ¬((new config).run before).RetiresActive i := by
  have hi : (new config).Balanced [] := fun _ => rfl
  have hr := balanced_run hi ops
  rw [append_nil] at hr
  rw [← forgotten_eq_nil_iff]
  exact Counters.Balanced.exact_iff hr

def sampleKey : PoolKey where
  origin := { scheme := ascii "https", host := .name (ascii "example.com"), port := some 443 }

def retiredRun : List Op :=
  [.reserve sampleKey, .attach 0 { conn := .h2, createdAt := 0 }, .retire 0, .drop 0]

/-- A slot is never given back: nobody owns it, and no other connection to the host can be opened. -/
theorem retired_slot_leaks :
    let config := PoolConfig.new.withMaxActivePerHost 1 Nat.one_pos
    let after := (new config).run retiredRun
    after.owners = [] ∧ after.inner.active.count sampleKey = 1 ∧
      (after.step (.reserve sampleKey)).owners = [] := by decide

end System

end Aioduct.Pool
