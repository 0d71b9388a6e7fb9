import Aioduct.Pool.System

/-!
# The limit of active handles per host

A slot is only taken if the limit of its key leaves room for it, except when a handle is moved to
another key.
-/

namespace Aioduct.Pool

open Wire PoolInner Counters Nat

namespace System

def WithinLimit (self : System) : Prop :=
  ∀ key, ∀ max ∈ self.inner.config.maxActivePerHost, self.inner.active.count key ≤ max

/-- A handle is moved to a key that has room for it once its own slot is given back. -/
def HasRoom (self : System) (i : Nat) (key : PoolKey) : Prop :=
  ∀ connection rest old, takeAt self.handles i = some (connection, rest) →
    connection.key = some old → ∀ max ∈ self.inner.config.maxActivePerHost,
      (self.inner.active.decrement old).count key < max

end System

/-- Each count stays, or goes down, or goes up by one where the limit leaves room. -/
def GrowsWithRoom (before after : PoolInner) : Prop :=
  ∀ key, after.active.count key ≤ before.active.count key ∨
    before.full key = false ∧ after.active.count key = before.active.count key + 1

section Steps

variable {self : PoolInner} {after : PoolInner}

lemma GrowsWithRoom.of_active (h : after.active = self.active) : GrowsWithRoom self after :=
  fun _ => .inl (by rw [h])

lemma GrowsWithRoom.of_increment {key : PoolKey} (hf : self.full key = false)
    (h : after.active = self.active.increment key) : GrowsWithRoom self after := by
  intro key'
  rw [h, count_increment]
  split
  next heq =>
    rw [heq]
    exact .inr ⟨hf, rfl⟩
  · exact .inl le_rfl

lemma GrowsWithRoom.of_released {connection : PooledConnection}
    (h : after.active = released self.active connection) : GrowsWithRoom self after := by
  intro key
  left
  rw [h]
  unfold released
  split
  · rw [count_decrement]
    exact sub_le _ _
  · exact le_rfl

lemma GrowsWithRoom.of_handsOut {result : Option PooledConnection × PoolInner × Transports}
    (h : HandsOut self result) : GrowsWithRoom self result.2.1 := by
  rcases h with ⟨-, ha⟩ | ⟨connection, key, -, -, hf, ha⟩
  · exact .of_active ha
  · exact .of_increment hf ha

end Steps

/-- Every operation but a move to another key. -/
lemma growsWithRoom_step (self : System) (op : Op) (hop : ∀ i key, op ≠ .rekey i key) :
    GrowsWithRoom self.inner (self.step op).inner := by
  have h := self.touches_step op
  generalize (self.step op).inner = after at h ⊢
  cases h with
  | reserve hf => exact .of_increment hf rfl
  | release op key =>
    intro key'
    left
    show (self.inner.active.decrement key).count key' ≤ _
    rw [count_decrement]
    exact sub_le _ _
  | matching => exact .of_handsOut (handsOut_checkoutMatching _ _ _ _ _)
  | coalesced => exact .of_handsOut (handsOut_checkoutCoalesced _ _ _ _ _ _ _)
  | checkin => exact .of_released (checkinConnection_spec _ _ _ _ _).1
  | rekey => exact absurd rfl (hop _ _)
  | nothing | evict | prune => exact .of_active rfl

namespace System

variable {self : System}

lemma withinLimit_step (h : self.WithinLimit) {op : Op} (hop : ∀ i key, op ≠ .rekey i key) :
    (self.step op).WithinLimit := by
  intro key max hm
  rw [step_config] at hm
  rcases growsWithRoom_step self op hop key with hle | ⟨hf, heq⟩
  · exact hle.trans (h key max hm)
  · rw [heq]
    exact full_eq_false hf max hm

lemma withinLimit_rekey_iff (h : self.WithinLimit) (i : Nat) (key : PoolKey) :
    (self.step (.rekey i key)).WithinLimit ↔ self.HasRoom i key := by
  unfold HasRoom
  simp only [step, onHandle]
  cases ht : takeAt self.handles i with
  | none => simpa using h
  | some taken =>
    obtain ⟨connection, rest⟩ := taken
    simp only [Option.some.injEq, Prod.mk.injEq, and_imp]
    unfold rekeyHandle
    cases hold : connection.key with
    | none =>
      refine ⟨?_, fun _ => h⟩
      rintro - connection' rest' old rfl rfl hold'
      rw [hold] at hold'
      cases hold'
    | some old =>
      constructor
      · rintro hw connection' rest' old' rfl rfl hold' max hm
        obtain rfl : old = old' := Option.some.inj (hold.symm.trans hold')
        have hc := hw key max hm
        simp only [rekeyActive, incrementActive, decrementActive, count_increment, if_true] at hc
        exact hc
      intro hr key' max hm
      have hr := hr connection rest old rfl rfl hold max hm
      simp only [rekeyActive, incrementActive, decrementActive, count_increment]
      split
      next heq =>
        rw [heq]
        exact hr
      · rw [add_zero, count_decrement]
        exact (sub_le _ _).trans (h key' max hm)

/-- Over every run from an unused pool no key ever has more active handles than the limit allows
exactly if every handle that is moved to another key finds room there. -/
theorem within_limit_iff (config : PoolConfig) (ops : List Op) :
    (∀ before after, ops = before ++ after → ((new config).run before).WithinLimit) ↔
      ∀ before i key after, ops = before ++ .rekey i key :: after →
        ((new config).run before).HasRoom i key := by
  constructor
  · intro h before i key after heq
    have hb := h before (.rekey i key :: after) heq
    have ha := h (before ++ [.rekey i key]) after (by rw [heq]; simp)
    rw [run_concat] at ha
    exact (withinLimit_rekey_iff hb i key).mp ha
  intro h before
  -- The induction is on the operations so far; each of them keeps the limit.
  induction before using List.reverseRecOn with
  | nil =>
    intro after _ key max _
    exact zero_le max
  | append_singleton before op ih =>
    intro after heq
    have hb := ih (op :: after) (by rw [heq]; simp)
    rw [run_concat]
    by_cases hop : ∃ i key, op = .rekey i key
    · obtain ⟨i, key, rfl⟩ := hop
      exact (withinLimit_rekey_iff hb i key).mpr (h before i key after (by rw [heq]; simp))
    · exact withinLimit_step hb fun i key hr => hop ⟨i, key, hr⟩

def probeKey : PoolKey where
  origin := { scheme := ascii "http", host := .name (ascii "example.org"), port := some 80 }
  protocol := .h2c

/-- A request holds the only HTTP/1.1 connection that the host may have when the probe of another
one falls back to HTTP/1.1 and is moved to the same key. -/
def fallbackRun : List Op :=
  [.reserve { probeKey with protocol := .auto }, .attach 0 { conn := .h1, createdAt := 0 },
    .reserve probeKey, .attach 0 { conn := .h1, createdAt := 0 },
    .rekey 0 { probeKey with protocol := .auto }]

theorem fallback_exceeds_limit : let config := PoolConfig.new.withMaxActivePerHost 1 Nat.one_pos
    let after := (new config).run fallbackRun
    after.inner.active.count { probeKey with protocol := .auto } = 2 ∧
      after.handles.map (·.key) =
        [some { probeKey with protocol := .auto }, some { probeKey with protocol := .auto }] := by
  decide

end System

end Aioduct.Pool
