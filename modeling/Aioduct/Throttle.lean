import Aioduct.Wire.TokenBucket

/-!
# Rate limiter

`throttle.rs`: a bucket of tokens of which each request takes one. A token comes back after each
refill interval.
-/

namespace Aioduct

open Wire.TokenBucket List Bucket UInt64

variable {num den bound since n emptied k : Nat}

structure RateLimiter where
  maxTokens : UInt64
  /-- In nanoseconds. -/
  refillInterval : Nat

namespace RateLimiter

def new (maxTokens : UInt64) (per : Nat) : RateLimiter where
  maxTokens := maxTokens
  refillInterval := if 0 < maxTokens then per / maxTokens.toNat % 2 ^ 64 else per

variable (self : RateLimiter)

def credit (elapsed : Nat) : Credit :=
  let refillNs := self.refillInterval % 2 ^ 64
  if refillNs = 0 then ⟨0, 0⟩
  else
    let newTokens := elapsed / refillNs
    ⟨newTokens, newTokens * refillNs⟩

def rate : Rate where
  capacity := self.maxTokens.toNat
  credit := self.credit

inductive Op where
  | tryAcquire
  | waitDuration
  deriving DecidableEq

def tryAcquire (tokens : Nat) : Bool := 0 < tokens

def waitDuration (tokens : Nat) : Nat :=
  if 0 < tokens then 0 else self.refillInterval

def usage : Usage Op where
  perform
    | .tryAcquire, tokens => ⟨if tryAcquire tokens then 1 else 0, none⟩
    | .waitDuration, _ => ⟨0, none⟩
  taken_le op tokens := by
    cases op with
    | tryAcquire =>
      cases tokens with
      | zero => exact le_rfl
      | succ n => exact Nat.succ_le_succ (Nat.zero_le n)
    | waitDuration => exact Nat.zero_le _

def acquired (log : List (Op × Nat)) : Nat :=
  log.countP fun entry => entry.1 == .tryAcquire && tryAcquire entry.2

/-- Any number of callers on one limiter, from its creation on. -/
def run (self : RateLimiter) (now : UInt64) (callers : Nat) (actions : List (Action Op)) :
    System Op :=
  (System.start self.rate now.toNat callers).run self.rate usage actions

lemma took_eq (entry : Op × Nat) :
    usage.took entry = if entry.1 == .tryAcquire && tryAcquire entry.2 then 1 else 0 := by
  obtain ⟨op, tokens⟩ := entry
  cases op with
  | tryAcquire => rfl
  | waitDuration => rfl

lemma taken_eq_acquired (log : List (Op × Nat)) : usage.taken log = acquired log := by
  unfold Usage.taken acquired
  induction log with
  | nil => rfl
  | cons entry log ih => rw [weigh, ih, took_eq, countP_cons, Nat.add_comm]

lemma rate_pays (hi : self.refillInterval < 2 ^ 64) : self.rate.Pays 1 self.refillInterval := by
  intro elapsed _
  simp only [rate, credit, Nat.mod_eq_of_lt hi]
  split
  · simp
  · exact ⟨le_of_eq (Nat.mul_one _).symm, Nat.div_mul_le_self _ _⟩

lemma rate_pays_nothing (hi : self.refillInterval = 0) : self.rate.Pays 0 1 := by
  intro elapsed _
  simp [rate, credit, hi]

lemma rate_pays_at_least : self.rate.Pays 1 1 := by
  intro elapsed _
  simp only [rate, credit]
  split
  · simp
  next hne =>
    rw [Nat.mul_one, Nat.mul_one]
    exact ⟨Nat.le_mul_of_pos_right _ (Nat.pos_of_ne_zero hne), Nat.div_mul_le_self _ _⟩

lemma new_refillInterval_lt {maxTokens : UInt64} (h : 0 < maxTokens) (per : Nat) :
    (new maxTokens per).refillInterval < 2 ^ 64 := by
  simp only [new, if_pos h]
  exact Nat.mod_lt _ (by decide)

lemma acquired_eq_zero {log : List (Op × Nat)} (h : ∀ entry ∈ log, entry.2 ≤ 0) :
    acquired log = 0 := by
  rw [acquired, countP_eq_zero]
  intro entry he
  have hzero : entry.2 = 0 := Nat.le_zero.mp (h entry he)
  simp [tryAcquire, hzero]

lemma run_accounted {self : RateLimiter} (hp : self.rate.Pays num den)
    (now : UInt64) (callers : Nat) (actions : List (Action Op)) :
    Accounted self.rate usage now.toNat num den (self.run now callers actions) :=
  (accounted_start self.rate usage num den now.toNat_lt callers).run hp actions

/-- However many callers try and however their steps are interleaved, no more of them get a token
than there are at first and come back in the time that has passed. -/
theorem acquired_le (maxTokens : UInt64) (per : Nat) (now : UInt64) (callers : Nat)
    (actions : List (Action Op)) :
    let limiter := new maxTokens per
    let s := limiter.run now callers actions
    acquired s.log ≤ maxTokens.toNat + (s.clock - now.toNat) / limiter.refillInterval ∧
      s.bucket.tokens ≤ maxTokens.toNat := by
  intro limiter s
  refine ⟨?_, (run_accounted limiter.rate_pays_at_least now callers actions).capacity⟩
  by_cases hempty : 0 < maxTokens
  · rw [← taken_eq_acquired]
    by_cases hi : limiter.refillInterval = 0
    · have ha := run_accounted (limiter.rate_pays_nothing hi) now callers actions
      have ht := ha.taken_le Nat.one_pos
      rw [Nat.mul_zero, Nat.zero_div] at ht
      rw [hi, Nat.div_zero]
      exact ht
    · have hp := limiter.rate_pays (new_refillInterval_lt hempty per)
      have ht := (run_accounted hp now callers actions).taken_le (Nat.pos_of_ne_zero hi)
      rwa [Nat.mul_one] at ht
  have hf := (run_accounted limiter.rate_pays_at_least now callers actions).found
  have hzero : maxTokens = 0 := by
    rw [lt_iff_toNat_lt, Nat.not_lt] at hempty
    exact UInt64.toNat_inj.mp (Nat.le_zero.mp hempty)
  have hc : limiter.rate.capacity = 0 := congrArg toNat hzero
  rw [hc] at hf
  rw [acquired_eq_zero hf]
  exact Nat.zero_le _

/-! ### The delivered rate -/

def call (bucket : Bucket) (now : Nat) (op : Op) : Bucket :=
  let refilled := bucket.refill self.rate now
  refilled.take (usage.perform op refilled.tokens).taken

def calls (bucket : Bucket) (history : List (Nat × Op)) : Bucket :=
  history.foldl (fun bucket entry => self.call bucket entry.1 entry.2) bucket

def added (self : RateLimiter) : Bucket → List (Nat × Op) → Nat
  | _, [] => 0
  | bucket, (now, op) :: history =>
    (bucket.refill self.rate now).tokens - bucket.tokens + self.added (self.call bucket now op) history

def Within : Nat → Nat → List (Nat × Op) → Prop
  | start, finish, [] => start ≤ finish
  | start, finish, (now, _) :: history => start ≤ now ∧ Within now finish history

def full (start : Nat) : Bucket := ⟨self.maxTokens.toNat, start, []⟩

/-- The configured rate is delivered: from the call that leaves the bucket empty on, at most
`maxTokens` tokens are added in each `per`, and one is there after `per`. The clock counts in 64
bits. -/
structure Delivers (limiter : RateLimiter) (per : Nat) : Prop where
  atMost : ∀ (start : Nat) (before : List (Nat × Op)) (emptied : Nat) (op : Op) (k : Nat)
    (after : List (Nat × Op)), Within start emptied before → emptied < 2 ^ 64 →
    (limiter.call (limiter.calls (limiter.full start) before) emptied op).tokens = 0 →
    Within emptied (emptied + k * per) after → (∀ entry ∈ after, entry.1 < 2 ^ 64) →
    limiter.added (limiter.call (limiter.calls (limiter.full start) before) emptied op) after ≤
      k * limiter.maxTokens.toNat
  available : ∀ (start : Nat) (before : List (Nat × Op)) (emptied : Nat) (op : Op)
    (waits : List (Nat × Op)) (now : Nat), Within start emptied before →
    (limiter.call (limiter.calls (limiter.full start) before) emptied op).tokens = 0 →
    (∀ entry ∈ waits, entry.2 = .waitDuration) → Within emptied now waits →
    emptied + per ≤ now → now < 2 ^ 64 →
    0 < ((limiter.calls (limiter.call (limiter.calls (limiter.full start) before) emptied op)
      waits).refill limiter.rate now).tokens

section

variable {self : RateLimiter} {bucket : Bucket}

lemma refill_of_interval_zero (hzero : self.refillInterval = 0) (now : Nat) :
    bucket.refill self.rate now = bucket := by
  apply refill_of_zero
  simp [rate, credit, hzero]

lemma call_last (bucket : Bucket) (now : Nat) (op : Op) :
    (self.call bucket now op).last = (bucket.refill self.rate now).last := rfl

variable {now start finish per : Nat} {history waits before after : List (Nat × Op)}
  {op : Op}

section

variable (hpos : 0 < self.refillInterval) (hlt : self.refillInterval < 2 ^ 64)

include hpos hlt

lemma credit_of_pos (elapsed : Nat) : self.rate.credit elapsed =
      ⟨elapsed / self.refillInterval, elapsed / self.refillInterval * self.refillInterval⟩ := by
  have hne : self.refillInterval ≠ 0 := Nat.ne_of_gt hpos
  simp only [rate, credit, Nat.mod_eq_of_lt hlt]
  rw [if_neg hne]

lemma refill_last (now : Nat) : (bucket.refill self.rate now).last =
      bucket.last + (now - bucket.last) / self.refillInterval * self.refillInterval := by
  have hc := credit_of_pos hpos hlt (now - bucket.last)
  by_cases hzero : (self.rate.credit (now - bucket.last)).tokens = 0
  · rw [refill_of_zero hzero]
    rw [hc] at hzero
    rw [show (now - bucket.last) / self.refillInterval = 0 from hzero, Nat.zero_mul, Nat.add_zero]
  · rw [refill_of_ne_zero hzero, hc]
    rfl

lemma refill_last_le_now (hl : bucket.last ≤ now) :
    (bucket.refill self.rate now).last ≤ now ∧
      now < (bucket.refill self.rate now).last + self.refillInterval := by
  rw [refill_last hpos hlt]
  have hd := Nat.div_add_mod (now - bucket.last) self.refillInterval
  have hm := Nat.mod_lt (now - bucket.last) hpos
  rw [Nat.mul_comm] at hd
  omega

lemma refill_added_mul_le (now : Nat) :
    ((bucket.refill self.rate now).tokens - bucket.tokens) * self.refillInterval + bucket.last ≤
      (bucket.refill self.rate now).last := by
  rw [refill_last hpos hlt, Nat.add_comm]
  apply Nat.add_le_add_left
  apply Nat.mul_le_mul_right
  have hc := credit_of_pos hpos hlt (now - bucket.last)
  by_cases hzero : (self.rate.credit (now - bucket.last)).tokens = 0
  · rw [refill_of_zero hzero, Nat.sub_self]
    exact Nat.zero_le _
  rw [refill_of_ne_zero hzero, hc]
  rw [Nat.sub_le_iff_le_add']
  exact Nat.min_le_left _ _

lemma added_mul_le (hw : Within start finish history) (hl : bucket.last ≤ start) :
    self.added bucket history * self.refillInterval + bucket.last ≤ finish := by
  induction history generalizing bucket start with
  | nil =>
    rw [added, Nat.zero_mul, Nat.zero_add]
    exact le_trans hl hw
  | cons entry history ih =>
    obtain ⟨now, op⟩ := entry
    obtain ⟨hn, hr⟩ := hw
    have hh := @refill_added_mul_le self bucket hpos hlt now
    have hm := (refill_last_le_now hpos hlt (le_trans hl hn)).1
    have ht := ih hr (show (self.call bucket now op).last ≤ now from hm)
    rw [call_last] at ht
    rw [added, Nat.add_mul]
    omega

lemma calls_last_le (hw : Within start finish history) (hl : bucket.last ≤ start) :
    (self.calls bucket history).last ≤ finish := by
  induction history generalizing bucket start with
  | nil => exact le_trans hl hw
  | cons entry history ih =>
    obtain ⟨hn, hr⟩ := hw
    exact ih hr (refill_last_le_now hpos hlt (le_trans hl hn)).1

end

lemma added_of_interval_zero (hzero : self.refillInterval = 0) (history : List (Nat × Op)) :
    self.added bucket history = 0 := by
  induction history generalizing bucket with
  | nil => rfl
  | cons entry history ih =>
    rw [added, refill_of_interval_zero hzero, Nat.sub_self, ih]

lemma Within.of_lt (hw : Within start finish history) (hs : start ≤ bound)
    (ht : ∀ entry ∈ history, entry.1 ≤ bound) : Within start bound history := by
  induction history generalizing start with
  | nil => exact hs
  | cons entry history ih =>
    obtain ⟨hn, hr⟩ := hw
    exact ⟨hn, ih hr (ht _ mem_cons_self) fun other ho =>
      ht other (mem_cons_of_mem _ ho)⟩

lemma calls_waits (hc : 0 < self.rate.capacity)
    (hw : ∀ entry ∈ waits, entry.2 = .waitDuration)
    (h : 0 < bucket.tokens ∨ bucket.last ≤ since) :
    0 < (self.calls bucket waits).tokens ∨ (self.calls bucket waits).last ≤ since := by
  induction waits generalizing bucket with
  | nil => exact h
  | cons entry waits ih =>
    obtain ⟨now, op⟩ := entry
    obtain rfl : op = .waitDuration := hw _ mem_cons_self
    apply ih fun other ho => hw other (mem_cons_of_mem _ ho)
    change 0 < (bucket.refill self.rate now).tokens ∨ (bucket.refill self.rate now).last ≤ since
    by_cases hzero : (self.rate.credit (now - bucket.last)).tokens = 0
    · rw [refill_of_zero hzero]
      exact h
    left
    rw [refill_of_ne_zero hzero]
    change 0 < min (bucket.tokens + _) self.rate.capacity
    omega

lemma calls_acquire (hc : (self.rate.credit (now - bucket.last)).tokens = 0)
    (hn : n ≤ bucket.tokens) :
    self.calls bucket (List.replicate n (now, .tryAcquire)) =
      { bucket with tokens := bucket.tokens - n } := by
  induction n generalizing bucket with
  | zero => rfl
  | succ n ih =>
    have ht : 0 < bucket.tokens := by omega
    have hcal : self.call bucket now .tryAcquire =
        { bucket with tokens := bucket.tokens - 1 } := by
      unfold call
      rw [refill_of_zero hc]
      simp [usage, tryAcquire, ht, Bucket.take]
    have hr := @ih { bucket with tokens := bucket.tokens - 1 } hc
      (by change n ≤ bucket.tokens - 1; omega)
    change self.calls (self.call bucket now .tryAcquire) _ = _
    rw [hcal, hr]
    simp only [Bucket.mk.injEq, and_true]
    omega

/-- At most the configured number of tokens is added if the interval is exact, or if the clock
stops before one more could be. -/
lemma atMost_of_interval (hpos : 0 < self.refillInterval) (hlt : self.refillInterval < 2 ^ 64)
    (hrat : self.refillInterval * self.maxTokens.toNat = per ∨
      2 ^ 64 ≤ self.refillInterval * (self.maxTokens.toNat + 1))
    (hb : Within start emptied before) (he : emptied < 2 ^ 64)
    (ha : Within emptied (emptied + k * per) after)
    (ht : ∀ entry ∈ after, entry.1 < 2 ^ 64) :
    self.added (self.call (self.calls (self.full start) before) emptied op) after ≤
      k * self.maxTokens.toNat := by
  have hl : (self.calls (self.full start) before).last ≤ emptied :=
    calls_last_le hpos hlt hb le_rfl
  obtain ⟨hm, hr⟩ := refill_last_le_now hpos hlt hl
  rw [← call_last _ _ op] at hm hr
  generalize self.call (self.calls (self.full start) before) emptied op = bucket at hm hr ⊢
  have hp := added_mul_le hpos hlt ha hm
  -- less than an interval was left when the bucket was emptied
  have hbou : self.added bucket after * self.refillInterval <
      (k * self.maxTokens.toNat + 1) * self.refillInterval := by
    rcases hrat with hexa | hc
    · have hw : k * per = k * self.maxTokens.toNat * self.refillInterval := by
        rw [← hexa, Nat.mul_comm self.refillInterval, Nat.mul_assoc]
      rw [Nat.add_mul, Nat.one_mul]
      omega
    cases k with
    | zero =>
      omega
    | succ k =>
      have hs := added_mul_le hpos hlt
        (ha.of_lt (Nat.le_sub_one_of_lt he)
          fun entry hent => Nat.le_sub_one_of_lt (ht entry hent)) hm
      have hmor : self.refillInterval * (self.maxTokens.toNat + 1) ≤
          ((k + 1) * self.maxTokens.toNat + 1) * self.refillInterval := by
        rw [Nat.mul_comm]
        apply Nat.mul_le_mul_right
        apply Nat.succ_le_succ
        exact Nat.le_mul_of_pos_left _ (Nat.succ_pos k)
      omega
  exact Nat.lt_succ_iff.mp (Nat.lt_of_mul_lt_mul_right hbou)

lemma available_of_interval (hpos : 0 < self.refillInterval) (hlt : self.refillInterval < 2 ^ 64)
    (hc : 0 < self.maxTokens.toNat) (hp : self.refillInterval ≤ per)
    (hb : Within start emptied before) (hwai : ∀ entry ∈ waits, entry.2 = .waitDuration)
    (hn : emptied + per ≤ now) :
    0 < ((self.calls (self.call (self.calls (self.full start) before) emptied op) waits).refill
      self.rate now).tokens := by
  have hl : (self.call (self.calls (self.full start) before) emptied op).last ≤ emptied := by
    exact (refill_last_le_now hpos hlt (calls_last_le hpos hlt hb le_rfl)).1
  generalize hbuc :
    self.calls (self.call (self.calls (self.full start) before) emptied op) waits = bucket
  have hw := calls_waits (show 0 < self.rate.capacity from hc) hwai (Or.inr hl)
  rw [hbuc] at hw
  by_cases hzero : (self.rate.credit (now - bucket.last)).tokens = 0
  · rw [refill_of_zero hzero]
    rcases hw with ht | hs
    · exact ht
    -- the interval is over
    rw [credit_of_pos hpos hlt] at hzero
    have hlow : 1 ≤ (now - bucket.last) / self.refillInterval :=
      (Nat.le_div_iff_mul_le hpos).mpr (by omega)
    exact absurd hzero (Nat.ne_of_gt hlow)
  · rw [refill_of_ne_zero hzero]
    change 0 < min (bucket.tokens + _) self.maxTokens.toNat
    omega

lemma call_empties (hcap : 0 < self.maxTokens.toNat)
    (hc : (self.rate.credit (now - start)).tokens = 0) :
    self.call (self.calls (self.full start)
      (List.replicate (self.maxTokens.toNat - 1) (now, .tryAcquire))) now .tryAcquire =
      ⟨0, start, []⟩ := by
  have hall := calls_acquire (show (self.rate.credit (now - (self.full start).last)).tokens = 0
    from hc) (show self.maxTokens.toNat ≤ (self.full start).tokens from le_rfl)
  have hs : List.replicate self.maxTokens.toNat (now, Op.tryAcquire) =
      List.replicate (self.maxTokens.toNat - 1) (now, .tryAcquire) ++ [(now, .tryAcquire)] := by
    rw [← replicate_succ', Nat.sub_add_cancel hcap]
  rw [hs, calls, foldl_append] at hall
  refine hall.trans ?_
  change (⟨self.maxTokens.toNat - self.maxTokens.toNat, start, []⟩ : Bucket) = _
  rw [Nat.sub_self]

lemma within_replicate (h : start ≤ now) (n : Nat) (op : Op) :
    Within start now (List.replicate n (now, op)) := by
  induction n generalizing start with
  | zero => exact h
  | succ n ih => exact ⟨h, ih le_rfl⟩

/-- An interval that is rounded down gives one token more. -/
lemma not_atMost (hpos : 0 < self.refillInterval) (hlt : self.refillInterval < 2 ^ 64)
    (hcap : 0 < self.maxTokens.toNat)
    (hr : self.refillInterval * self.maxTokens.toNat < per)
    (hc : self.refillInterval * (self.maxTokens.toNat + 1) < 2 ^ 64) : ¬self.Delivers per := by
  intro hd
  have hcre : (self.rate.credit (self.refillInterval - 1 - 0)).tokens = 0 := by
    rw [credit_of_pos hpos hlt]
    exact Nat.div_eq_of_lt (by omega)
  have hempty := call_empties hcap hcre
  have hmor : self.refillInterval * (self.maxTokens.toNat + 1) =
      self.refillInterval * self.maxTokens.toNat + self.refillInterval := Nat.mul_succ _ _
  have ho : self.refillInterval ≤ self.refillInterval * self.maxTokens.toNat :=
    Nat.le_mul_of_pos_right _ hcap
  have ha := hd.atMost 0 _ (self.refillInterval - 1) .tryAcquire 1
    [(self.refillInterval * self.maxTokens.toNat, .tryAcquire),
      (self.refillInterval * (self.maxTokens.toNat + 1), .waitDuration)]
    (within_replicate (Nat.zero_le _) _ _) (by omega) (by rw [hempty])
    ⟨by omega, by omega, by change _ ≤ _; omega⟩
    (by
      intro entry he
      simp only [mem_cons, not_mem_nil, or_false] at he
      rcases he with rfl | rfl
      · exact lt_of_le_of_lt (by omega) hc
      · exact hc)
  rw [hempty] at ha
  -- the first call finds the bucket full again, the second one more token
  have hf : (⟨0, 0, []⟩ : Bucket).refill self.rate
      (self.refillInterval * self.maxTokens.toNat) =
      ⟨self.maxTokens.toNat, self.refillInterval * self.maxTokens.toNat, [0]⟩ := by
    have hm : self.rate.credit (self.refillInterval * self.maxTokens.toNat - 0) =
        ⟨self.maxTokens.toNat, self.refillInterval * self.maxTokens.toNat⟩ := by
      rw [credit_of_pos hpos hlt, Nat.sub_zero, Nat.mul_div_cancel_left _ hpos, Nat.mul_comm]
    rw [refill_of_ne_zero (by rw [hm]; exact Nat.ne_of_gt hcap), hm]
    simp [move, add, rate]
  have hs : ((⟨self.maxTokens.toNat - 1, self.refillInterval * self.maxTokens.toNat, [0]⟩ :
      Bucket).refill self.rate (self.refillInterval * (self.maxTokens.toNat + 1))).tokens =
      self.maxTokens.toNat := by
    have hm : self.rate.credit (self.refillInterval * (self.maxTokens.toNat + 1) -
        self.refillInterval * self.maxTokens.toNat) = ⟨1, self.refillInterval⟩ := by
      rw [credit_of_pos hpos hlt, hmor, Nat.add_sub_cancel_left, Nat.div_self hpos, Nat.one_mul]
    rw [refill_of_ne_zero (by rw [hm]; exact Nat.one_ne_zero), hm]
    change min (self.maxTokens.toNat - 1 + 1) self.maxTokens.toNat = _
    omega
  have hcal : self.call ⟨0, 0, []⟩ (self.refillInterval * self.maxTokens.toNat) .tryAcquire =
      ⟨self.maxTokens.toNat - 1, self.refillInterval * self.maxTokens.toNat, [0]⟩ := by
    unfold call
    rw [hf]
    simp [usage, tryAcquire, hcap, Bucket.take]
  rw [added, hf, hcal, added, hs, added] at ha
  simp only at ha
  omega

lemma not_available (hzero : self.refillInterval = 0) (hcap : 0 < self.maxTokens.toNat)
    (hclo : per < 2 ^ 64) : ¬self.Delivers per := by
  intro hd
  have hc : (self.rate.credit (0 - 0)).tokens = 0 := by simp [rate, credit, hzero]
  have hempty := call_empties hcap hc
  have ht := hd.available 0 _ 0 .tryAcquire [] per (within_replicate le_rfl _ _)
    (by rw [hempty]) (by simp) (Nat.zero_le _) (by omega) hclo
  rw [hempty, calls, foldl_nil, refill_of_interval_zero hzero] at ht
  exact absurd ht (Nat.lt_irrefl 0)

end

/-- The configured rate is delivered exactly if the interval is not rounded, neither to a shorter
one nor to none, as far as the clock lets it be seen. -/
theorem delivers_iff (maxTokens : UInt64) (per : Nat) (hmax : 0 < maxTokens) :
    (new maxTokens per).Delivers per ↔
      ((new maxTokens per).refillInterval = 0 ∧ 2 ^ 64 ≤ per) ∨
      (0 < (new maxTokens per).refillInterval ∧
        ((new maxTokens per).refillInterval * maxTokens.toNat = per ∨
          2 ^ 64 ≤ (new maxTokens per).refillInterval * (maxTokens.toNat + 1))) := by
  have hc : 0 < maxTokens.toNat := lt_iff_toNat_lt.mp hmax
  have hlt := new_refillInterval_lt hmax per
  have hle : (new maxTokens per).refillInterval * maxTokens.toNat ≤ per := by
    simp only [new, if_pos hmax]
    exact le_trans (Nat.mul_le_mul_right _ (Nat.mod_le _ _)) (Nat.div_mul_le_self _ _)
  constructor
  · intro hd
    rcases Nat.eq_zero_or_pos (new maxTokens per).refillInterval with hzero | hpos
    · refine Or.inl ⟨hzero, ?_⟩
      by_contra hclo
      exact not_available hzero hc (Nat.lt_of_not_le hclo) hd
    refine Or.inr ⟨hpos, ?_⟩
    by_contra hrounded
    rw [not_or] at hrounded
    exact not_atMost hpos hlt hc (lt_of_le_of_ne hle hrounded.1) (Nat.lt_of_not_le hrounded.2) hd
  rintro (⟨hzero, hclo⟩ | ⟨hpos, hr⟩)
  · constructor
    · intro start before emptied op k after _ _ _ _ _
      rw [added_of_interval_zero hzero]
      exact Nat.zero_le _
    · intro start before emptied op waits now _ _ _ _ hn hbou
      omega
  have hs : (new maxTokens per).refillInterval ≤ per :=
    le_trans (Nat.le_mul_of_pos_right _ hc) hle
  constructor
  · intro start before emptied op k after hb he _ ha ht
    exact atMost_of_interval hpos hlt hr hb he ha ht
  · intro start before emptied op waits now hb _ hw _ hn _
    exact available_of_interval hpos hlt hc hs hb hw hn

theorem delivers_iff_tenth : (new 10 1000).Delivers 1000 ∧ ¬(new 3 10).Delivers 10 := by
  constructor
  · exact (delivers_iff 10 1000 (by decide)).mpr (by decide)
  · intro h
    exact absurd ((delivers_iff 3 10 (by decide)).mp h) (by decide)

/-- Two requests in a nanosecond: the interval is rounded to none, and no token ever comes back. -/
theorem interval_rounded_to_none : let limiter := new 2 1
    let emptied := limiter.calls (limiter.full 0) [(0, .tryAcquire), (0, .tryAcquire)]
    emptied.tokens = 0 ∧ (emptied.refill limiter.rate 1000000000).tokens = 0 := by decide

end RateLimiter

end Aioduct
