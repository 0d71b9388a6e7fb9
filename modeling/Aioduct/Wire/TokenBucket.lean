import Mathlib.Data.Nat.Basic
import Mathlib.Algebra.Group.Nat.Defs

/-!
# Token buckets

A bucket of tokens that is refilled from the time that has passed. A caller reads the clock, moves
the moment up to which time is credited and adds the tokens in separate atomic steps.
-/

namespace Wire.TokenBucket

open List Nat

structure Credit where
  tokens : Nat
  time : Nat

/-- How elapsed time is changed into tokens, and how many of them are kept. -/
structure Rate where
  capacity : Nat
  credit : Nat → Credit

/-- The shared words; `older` are the moments that `last` has been at, the latest first. -/
structure Bucket where
  tokens : Nat
  last : Nat
  older : List Nat := []

namespace Bucket

/-- A read of the moment that is `age` changes late. -/
def load (self : Bucket) (age : Nat) : Nat := (self.last :: self.older)[age]?.getD self.last

def add (self : Bucket) (rate : Rate) (tokens : Nat) : Bucket :=
  { self with tokens := min (self.tokens + tokens) rate.capacity }

def move (self : Bucket) (time : Nat) : Bucket :=
  { self with last := self.last + time, older := self.last :: self.older }

def take (self : Bucket) (tokens : Nat) : Bucket := { self with tokens := self.tokens - tokens }

@[simp]
lemma take_zero (self : Bucket) : self.take 0 = self := rfl

def refill (self : Bucket) (rate : Rate) (now : Nat) : Bucket :=
  let credit := rate.credit (now - self.last)
  if credit.tokens = 0 then self else (self.move credit.time).add rate credit.tokens

variable {self : Bucket} {rate : Rate} {now : Nat}

lemma refill_of_zero (h : (rate.credit (now - self.last)).tokens = 0) :
    self.refill rate now = self := by simp [refill, h]

lemma refill_of_ne_zero (h : (rate.credit (now - self.last)).tokens ≠ 0) :
    self.refill rate now = (self.move (rate.credit (now - self.last)).time).add rate
      (rate.credit (now - self.last)).tokens := by simp [refill, h]

end Bucket

/-- How far a caller has come with a refill. -/
inductive Refill where
  | start
  | clocked (now : Nat)
  | loaded (now last : Nat)
  | won (tokens : Nat)
  | finished
  deriving DecidableEq

def Refill.step (rate : Rate) (clock age : Nat) (bucket : Bucket) : Refill → Bucket × Refill
  | .start => (bucket, .clocked clock)
  | .clocked now => (bucket, .loaded now (bucket.load age))
  | .loaded now last =>
    let credit := rate.credit (now - last)
    if credit.tokens = 0 then (bucket, .finished)
    else if bucket.last = last then (bucket.move credit.time, .won credit.tokens)
    else (bucket, .finished)
  | .won tokens => (bucket.add rate tokens, .finished)
  | .finished => (bucket, .finished)

lemma Refill.tokens_le_step {rate : Rate} {bucket : Bucket} (h : bucket.tokens ≤ rate.capacity)
    (clock age : Nat) (phase : Refill) :
    bucket.tokens ≤ (phase.step rate clock age bucket).1.tokens := by
  cases phase with
  | start => exact le_rfl
  | clocked now => exact le_rfl
  | loaded now last =>
    simp only [step]
    split
    · exact le_rfl
    · split <;> exact le_rfl
  | won tokens => exact Nat.le_min.mpr ⟨Nat.le_add_right _ _, h⟩
  | finished => exact le_rfl

structure Outcome (Op : Type) where
  taken : Nat
  next : Option Op

/-- The operations on the tokens. Each is done in one atomic step after a refill. -/
structure Usage (Op : Type) where
  perform : Op → Nat → Outcome Op
  taken_le : ∀ op tokens, (perform op tokens).taken ≤ tokens

inductive Caller (Op : Type) where
  | idle
  | busy (phase : Refill) (op : Op)

def Caller.proceed {Op : Type} : Option Op → Caller Op
  | some op => .busy .start op
  | none => .idle

/-- The clock, the shared memory, the callers, and the operations that were done with the tokens
that each has found. -/
structure System (Op : Type) where
  clock : Nat
  bucket : Bucket
  callers : List (Caller Op)
  log : List (Op × Nat) := []

inductive Action (Op : Type) where
  | tick (time : Nat)
  | call (caller : Nat) (op : Op)
  | advance (caller age : Nat)

def Action.map {Op Op' : Type} (f : Op → Op') : Action Op → Action Op'
  | .tick time => .tick time
  | .call caller op => .call caller (f op)
  | .advance caller age => .advance caller age

namespace System

variable {Op : Type} (rate : Rate) (usage : Usage Op)

def start (now callers : Nat) : System Op where
  clock := now
  bucket := ⟨rate.capacity, now, []⟩
  callers := List.replicate callers .idle

variable (self : System Op)

def tick (time : Nat) : System Op :=
  if self.clock + time < 2 ^ 64 then { self with clock := self.clock + time } else self

def call (caller : Nat) (op : Op) : System Op :=
  match self.callers[caller]? with
  | some .idle => { self with callers := self.callers.set caller (.busy .start op) }
  | _ => self

def refillStep (caller age : Nat) (phase : Refill) (op : Op) : System Op :=
  let (bucket, phase) := phase.step rate self.clock age self.bucket
  { self with bucket := bucket, callers := self.callers.set caller (.busy phase op) }

def performStep (caller : Nat) (op : Op) : System Op :=
  let outcome := usage.perform op self.bucket.tokens
  { self with
    bucket := self.bucket.take outcome.taken
    callers := self.callers.set caller (.proceed outcome.next)
    log := self.log ++ [(op, self.bucket.tokens)] }

def advance (caller age : Nat) : System Op :=
  match self.callers[caller]? with
  | some (.busy phase op) =>
    if phase = .finished then self.performStep usage caller op
    else self.refillStep rate caller age phase op
  | _ => self

def step : Action Op → System Op
  | .tick time => self.tick time
  | .call caller op => self.call caller op
  | .advance caller age => self.advance rate usage caller age

def run (actions : List (Action Op)) : System Op := actions.foldl (step rate usage) self

lemma run_invariant {P : System Op → Prop}
    (hste : ∀ s action, P s → P (step rate usage s action)) {s : System Op} (hs : P s)
    (actions : List (Action Op)) : P (run rate usage s actions) := by
  induction actions generalizing s with
  | nil => exact hs
  | cons action actions ih => exact ih (hste s action hs)

lemma run_append (s : System Op) (actions actions' : List (Action Op)) :
    s.run rate usage (actions ++ actions') = (s.run rate usage actions).run rate usage actions' :=
  foldl_append

lemma length_callers_step (s : System Op) (action : Action Op) :
    (s.step rate usage action).callers.length = s.callers.length := by
  cases action with
  | tick time =>
    simp only [step, tick]
    split <;> rfl
  | call caller op =>
    simp only [step, call]
    split
    · exact length_set
    · rfl
  | advance caller age =>
    simp only [step, advance]
    split
    · split
      · exact length_set
      · exact length_set
    · rfl

def steps : Nat :=
  if (rate.credit (self.clock - self.bucket.last)).tokens = 0 then 4 else 5

lemma run_steps {s : System Op} {op : Op} (hc : s.callers = [.busy .start op]) :
    let refilled := s.bucket.refill rate s.clock
    let outcome := usage.perform op refilled.tokens
    s.run rate usage (List.replicate (s.steps rate) (.advance 0 0)) =
      { s with
        bucket := refilled.take outcome.taken
        callers := [.proceed outcome.next]
        log := s.log ++ [(op, refilled.tokens)] } := by
  obtain ⟨clock, bucket, callers, log⟩ := s
  obtain rfl : callers = [.busy .start op] := hc
  by_cases hzero : (rate.credit (clock - bucket.last)).tokens = 0
  · simp only [steps, if_pos hzero, Bucket.refill_of_zero hzero]
    simp [run, step, advance, refillStep, performStep, Refill.step, Bucket.load, hzero]
  · simp only [steps, if_neg hzero, Bucket.refill_of_ne_zero hzero]
    simp [run, step, advance, refillStep, performStep, Refill.step, Bucket.load, hzero]

end System

def weigh {α : Type} (weight : α → Nat) : List α → Nat
  | [] => 0
  | a :: l => weight a + weigh weight l

lemma weigh_append {α : Type} (weight : α → Nat) (l l' : List α) :
    weigh weight (l ++ l') = weigh weight l + weigh weight l' := by
  induction l with
  | nil => simp [weigh]
  | cons a l ih => simp [weigh, ih, Nat.add_assoc]

variable {i : Nat}

lemma weigh_set {α : Type} (weight : α → Nat) {l : List α} {a : α} (h : l[i]? = some a) (b : α) :
    weigh weight (l.set i b) + weight a = weigh weight l + weight b := by
  induction l generalizing i with
  | nil => simp at h
  | cons c l ih =>
    cases i with
    | zero =>
      obtain rfl : c = a := by simpa using h
      simp only [set_cons_zero, weigh]
      omega
    | succ i =>
      have hr := ih (by simpa using h)
      simp only [set_cons_succ, weigh]
      omega

lemma weigh_replicate_zero {α : Type} {weight : α → Nat} {a : α} (h : weight a = 0) (n : Nat) :
    weigh weight (List.replicate n a) = 0 := by
  induction n with
  | zero => rfl
  | succ n ih => simp [replicate_succ, weigh, h, ih]

section

variable {Op : Type} (usage : Usage Op)

def Usage.took (entry : Op × Nat) : Nat := (usage.perform entry.1 entry.2).taken

def Usage.taken (log : List (Op × Nat)) : Nat := weigh usage.took log

end

def Caller.owed {Op : Type} : Caller Op → Nat
  | .busy (.won tokens) _ => tokens
  | _ => 0

/-- The moments that a caller has read from the clock are over. -/
def Caller.Past {Op : Type} (clock : Nat) : Caller Op → Prop
  | .busy (.clocked now) _ | .busy (.loaded now _) _ => now ≤ clock
  | _ => True

/-- No more tokens are credited than the time they use up pays for, at `num` tokens in `den` units
of time; and no time is used up that has not passed. -/
def Rate.Pays (rate : Rate) (num den : Nat) : Prop :=
  ∀ elapsed < 2 ^ 64, (rate.credit elapsed).tokens * den ≤ (rate.credit elapsed).time * num ∧
    (rate.credit elapsed).time ≤ elapsed

/-- The tokens that were taken, are there or are owed are the capacity and what was paid for by
time since `start`. -/
structure Accounted {Op : Type} (rate : Rate) (usage : Usage Op) (start num den : Nat)
    (s : System Op) : Prop where
  clock : s.clock < 2 ^ 64
  last : s.bucket.last ≤ s.clock
  past : ∀ caller ∈ s.callers, caller.Past s.clock
  capacity : s.bucket.tokens ≤ rate.capacity
  found : ∀ entry ∈ s.log, entry.2 ≤ rate.capacity
  balance : (usage.taken s.log + s.bucket.tokens + weigh Caller.owed s.callers) * den +
    start * num ≤ rate.capacity * den + s.bucket.last * num

namespace Accounted

variable {Op : Type} {rate : Rate} {usage : Usage Op} {start num den : Nat} {s : System Op}

lemma past_mono {caller : Caller Op} {clock clock' : Nat} (h : caller.Past clock)
    (hle : clock ≤ clock') : caller.Past clock' := by
  unfold Caller.Past at h ⊢
  split at h
  · exact le_trans h hle
  · exact le_trans h hle
  · trivial

variable (h : Accounted rate usage start num den s)

include h

lemma tick (time : Nat) :
    Accounted rate usage start num den (s.tick time) := by
  unfold System.tick
  split
  next hlt =>
    exact ⟨hlt, le_trans h.last (le_add_right _ _),
      fun caller hc => past_mono (h.past caller hc) (le_add_right _ _),
      h.capacity, h.found, h.balance⟩
  · exact h

lemma exchange {caller caller' : Caller Op}
    (hi : s.callers[i]? = some caller) (howe : caller'.owed = caller.owed)
    (hp : caller'.Past s.clock) :
    Accounted rate usage start num den { s with callers := s.callers.set i caller' } := by
  have hw := weigh_set Caller.owed hi caller'
  refine ⟨h.clock, h.last, fun other ho => ?_, h.capacity, h.found, ?_⟩
  · rcases mem_or_eq_of_mem_set ho with hm | rfl
    · exact h.past other hm
    · exact hp
  · have hs : weigh Caller.owed (s.callers.set i caller') = weigh Caller.owed s.callers := by
      omega
    simpa only [hs] using h.balance

lemma call (i : Nat) (op : Op) :
    Accounted rate usage start num den (s.call i op) := by
  unfold System.call
  split
  next hi =>
    exact h.exchange hi rfl trivial
  · exact h

variable {op : Op}

lemma win (hpay : rate.Pays num den) {now : Nat}
    (hi : s.callers[i]? = some (.busy (.loaded now s.bucket.last) op)) :
    Accounted rate usage start num den
      { s with
        bucket := s.bucket.move (rate.credit (now - s.bucket.last)).time
        callers := s.callers.set i (.busy (.won (rate.credit (now - s.bucket.last)).tokens) op) } := by
  have hn : now ≤ s.clock := h.past _ (mem_of_getElem? hi)
  have hlt : now - s.bucket.last < 2 ^ 64 :=
    lt_of_le_of_lt (sub_le _ _) (lt_of_le_of_lt hn h.clock)
  obtain ⟨hp, ht⟩ := hpay _ hlt
  generalize hc : rate.credit (now - s.bucket.last) = credit at hp ht ⊢
  have hw := weigh_set Caller.owed hi (.busy (.won credit.tokens) op)
  have hb := h.balance
  have hl := h.last
  refine ⟨h.clock, ?_, fun other ho => ?_, h.capacity, h.found, ?_⟩
  · change s.bucket.last + credit.time ≤ s.clock
    omega
  · rcases mem_or_eq_of_mem_set ho with hm | rfl
    · exact h.past other hm
    · trivial
  have howe : weigh Caller.owed (s.callers.set i (.busy (.won credit.tokens) op)) =
      weigh Caller.owed s.callers + credit.tokens := by simpa [Caller.owed] using hw
  change (usage.taken s.log + s.bucket.tokens +
      weigh Caller.owed (s.callers.set i (.busy (.won credit.tokens) op))) * den + start * num ≤
    rate.capacity * den + (s.bucket.last + credit.time) * num
  rw [howe, ← Nat.add_assoc, Nat.add_mul _ credit.tokens, Nat.add_mul s.bucket.last]
  omega

lemma add {tokens : Nat}
    (hi : s.callers[i]? = some (.busy (.won tokens) op)) :
    Accounted rate usage start num den
      { s with
        bucket := s.bucket.add rate tokens
        callers := s.callers.set i (.busy .finished op) } := by
  have hw := weigh_set Caller.owed hi (.busy .finished op)
  have hb := h.balance
  have howe : weigh Caller.owed (s.callers.set i (.busy .finished op)) + tokens =
      weigh Caller.owed s.callers := by simpa [Caller.owed] using hw
  refine ⟨h.clock, h.last, fun other ho => ?_, min_le_right _ _, h.found, ?_⟩
  · rcases mem_or_eq_of_mem_set ho with hm | rfl
    · exact h.past other hm
    · trivial
  refine le_trans ?_ hb
  apply Nat.add_le_add_right
  apply Nat.mul_le_mul_right
  change usage.taken s.log + min (s.bucket.tokens + tokens) rate.capacity +
    weigh Caller.owed (s.callers.set i (.busy .finished op)) ≤ _
  omega

lemma refillStep (hp : rate.Pays num den)
    {age : Nat} {phase : Refill} (hi : s.callers[i]? = some (.busy phase op)) :
    Accounted rate usage start num den (s.refillStep rate i age phase op) := by
  have hpas : (Caller.busy phase op).Past s.clock := h.past _ (mem_of_getElem? hi)
  unfold System.refillStep
  cases phase with
  | start => exact h.exchange hi rfl le_rfl
  | clocked now => exact h.exchange hi rfl hpas
  | loaded now last =>
    simp only [Refill.step]
    split
    · exact h.exchange hi rfl trivial
    split
    next hl =>
      subst hl
      exact h.win hp hi
    · exact h.exchange hi rfl trivial
  | won tokens => exact h.add hi
  | finished => exact h.exchange hi rfl trivial

lemma performStep
    (hi : s.callers[i]? = some (.busy .finished op)) :
    Accounted rate usage start num den (s.performStep usage i op) := by
  have ht := usage.taken_le op s.bucket.tokens
  have hp : ∀ next : Option Op, (Caller.proceed next).owed = 0 ∧
      (Caller.proceed next).Past s.clock := by
    intro next
    cases next <;> exact ⟨rfl, trivial⟩
  have hw := weigh_set Caller.owed hi (.proceed (usage.perform op s.bucket.tokens).next)
  rw [(hp _).1] at hw
  have hl : usage.taken (s.log ++ [(op, s.bucket.tokens)]) =
      usage.taken s.log + (usage.perform op s.bucket.tokens).taken := by
    simp [Usage.taken, weigh_append, weigh, Usage.took]
  refine ⟨h.clock, h.last, fun other ho => ?_, le_trans (sub_le _ _) h.capacity,
    fun entry he => ?_, ?_⟩
  · rcases mem_or_eq_of_mem_set ho with hm | rfl
    · exact h.past other hm
    · exact (hp _).2
  · rcases mem_append.mp he with hm | hm
    · exact h.found entry hm
    · rw [mem_singleton.mp hm]
      exact h.capacity
  have hs : usage.taken (s.log ++ [(op, s.bucket.tokens)]) +
      (s.bucket.tokens - (usage.perform op s.bucket.tokens).taken) +
      weigh Caller.owed (s.callers.set i (.proceed (usage.perform op s.bucket.tokens).next)) =
      usage.taken s.log + s.bucket.tokens + weigh Caller.owed s.callers := by
    have howe : (Caller.busy .finished op).owed = 0 := rfl
    omega
  have hb := h.balance
  rw [← hs] at hb
  exact hb

lemma step (hpay : rate.Pays num den)
    (action : Action Op) : Accounted rate usage start num den (s.step rate usage action) := by
  cases action with
  | tick time => exact h.tick time
  | call caller op => exact h.call caller op
  | advance caller age =>
    simp only [System.step, System.advance]
    split
    next phase op hi =>
      split
      next hp =>
        subst hp
        exact h.performStep hi
      · exact h.refillStep hpay hi
    · exact h

lemma run (hp : rate.Pays num den)
    (actions : List (Action Op)) :
    Accounted rate usage start num den (s.run rate usage actions) :=
  System.run_invariant rate usage (fun _ action hs => hs.step hp action) h actions

lemma taken_le (hd : 0 < den) :
    usage.taken s.log ≤ rate.capacity + (s.clock - start) * num / den := by
  have hb := h.balance
  have hl := Nat.mul_le_mul_right num h.last
  have hs : (s.clock - start) * num = s.clock * num - start * num := Nat.sub_mul _ _ _
  have ht : usage.taken s.log * den ≤ rate.capacity * den + (s.clock - start) * num := by
    have hp : usage.taken s.log * den ≤
        (usage.taken s.log + s.bucket.tokens + weigh Caller.owed s.callers) * den := by
      apply Nat.mul_le_mul_right
      omega
    omega
  have hdiv : usage.taken s.log ≤ (rate.capacity * den + (s.clock - start) * num) / den :=
    (le_div_iff_mul_le hd).mpr ht
  rwa [add_comm, add_mul_div_right _ _ hd, add_comm] at hdiv

end Accounted

lemma accounted_start {Op : Type} (rate : Rate) (usage : Usage Op) (num den : Nat) {now : Nat}
    (hn : now < 2 ^ 64) (callers : Nat) :
    Accounted rate usage now num den (System.start rate now callers) := by
  refine ⟨hn, le_rfl, fun caller hc => ?_, le_rfl, fun entry he => absurd he not_mem_nil, ?_⟩
  · rw [eq_of_mem_replicate hc]
    trivial
  have ho : weigh Caller.owed (List.replicate callers (.idle : Caller Op)) = 0 :=
    @weigh_replicate_zero (Caller Op) Caller.owed .idle rfl callers
  change (0 + rate.capacity + weigh Caller.owed (List.replicate callers .idle)) * den + now * num ≤
    rate.capacity * den + now * num
  rw [ho, zero_add, add_zero]

end Wire.TokenBucket
