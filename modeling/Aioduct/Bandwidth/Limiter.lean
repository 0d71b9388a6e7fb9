import Aioduct.Wire.TokenBucket

/-!
# Bandwidth limiter

`bandwidth/mod.rs`: a bucket of one second's worth of bytes. Credited bytes and the time that is
used up for them are rounded down separately.
-/

namespace Aioduct.Bandwidth

open Wire.TokenBucket Nat

structure BandwidthLimiter where
  bytesPerSec : UInt64
  positive : 0 < bytesPerSec.toNat

namespace BandwidthLimiter

def slowest : BandwidthLimiter := ⟨1, Nat.one_pos⟩

variable (self : BandwidthLimiter)

def bps : Nat := self.bytesPerSec.toNat

def newBytes (elapsed : Nat) : Nat := elapsed * self.bps / 10 ^ 9 % 2 ^ 64

def consumedNs (bytes : Nat) : Nat := bytes * 10 ^ 9 / max self.bps 1 % 2 ^ 64

def rate : Rate where
  capacity := self.bps
  credit elapsed := ⟨self.newBytes elapsed, self.consumedNs (self.newBytes elapsed)⟩

/-- What `wait_duration` returns when it finds so many bytes. -/
def waitDuration (available bytesNeeded : Nat) : Nat :=
  if bytesNeeded ≤ available then 0
  else min ((bytesNeeded - available) * 10 ^ 9 / max self.bps 1) (2 ^ 64 - 1)

/-- `wait_duration` without interference. -/
def waitAt (bucket : Bucket) (now bytesNeeded : Nat) : Nat × Bucket :=
  let bucket := bucket.refill self.rate now
  (self.waitDuration bucket.tokens bytesNeeded, bucket)

/-- `try_consume` without interference. -/
def consumeAt (bucket : Bucket) (now n : Nat) : Nat × Bucket :=
  let bucket := bucket.refill self.rate now
  (min bucket.tokens n, bucket.take (min bucket.tokens n))

/-- Fewer bytes than this are missing for less than a nanosecond. -/
def slack : Nat := (self.bps - 1) / 10 ^ 9

section

variable (self : BandwidthLimiter)

lemma bps_pos : 0 < self.bps := self.positive

lemma max_bps : max self.bps 1 = self.bps :=
  Nat.max_eq_left self.bps_pos

lemma waitDuration_eq_zero {available bytesNeeded : Nat} :
    self.waitDuration available bytesNeeded = 0 ↔ bytesNeeded ≤ available + self.slack := by
  have hpos := self.bps_pos
  unfold waitDuration
  rw [max_bps]
  split
  next hle =>
    exact iff_of_true rfl (le_add_right_of_le hle)
  have hm : min ((bytesNeeded - available) * 10 ^ 9 / self.bps) (2 ^ 64 - 1) = 0 ↔
      (bytesNeeded - available) * 10 ^ 9 / self.bps = 0 := by omega
  rw [hm, div_eq_zero_iff_lt hpos, slack]
  omega

lemma slack_eq_zero (h : self.bps ≤ 10 ^ 9) : self.slack = 0 := by
  exact div_eq_of_lt (by omega)

variable (elapsed : Nat)

lemma newBytes_le : self.newBytes elapsed * 10 ^ 9 ≤ elapsed * self.bps :=
  le_trans (Nat.mul_le_mul_right _ (Nat.mod_le _ _)) (Nat.div_mul_le_self _ _)

lemma newBytes_eq (h : self.bps ≤ 10 ^ 9) {elapsed : Nat} (he : elapsed < 2 ^ 64) :
    self.newBytes elapsed = elapsed * self.bps / 10 ^ 9 := by
  apply mod_eq_of_lt
  refine lt_of_le_of_lt ?_ he
  calc elapsed * self.bps / 10 ^ 9 ≤ elapsed * 10 ^ 9 / 10 ^ 9 :=
        Nat.div_le_div_right (Nat.mul_le_mul_left _ h)
    _ = elapsed := Nat.mul_div_cancel _ (by decide)

lemma consumedNs_le : self.consumedNs (self.newBytes elapsed) ≤ elapsed := by
  refine le_trans (mod_le _ _) ?_
  rw [max_bps]
  exact Nat.div_le_of_le_mul (by rw [Nat.mul_comm self.bps]; exact self.newBytes_le elapsed)

@[simp]
lemma rate_capacity : self.rate.capacity = self.bps := rfl

@[simp]
lemma rate_credit :
    self.rate.credit elapsed = ⟨self.newBytes elapsed, self.consumedNs (self.newBytes elapsed)⟩ :=
  rfl

end

end BandwidthLimiter

end Aioduct.Bandwidth
