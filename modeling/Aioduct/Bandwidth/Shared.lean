import Aioduct.Bandwidth.Body

/-!
# A limiter that is shared

Any number of callers and bodies on one limiter, with their atomic steps in any order. A body asks
and takes in two calls, and hands on its frame after the second one however many bytes it got.
-/

namespace Aioduct.Bandwidth

open Wire Wire.TokenBucket System Bucket Action

variable {i j start time bytes : Nat}

/-- What is called: the limiter itself, or a body that has a data frame of so many bytes, which it
may have kept from an earlier poll. -/
inductive Call where
  | tryConsume (n : Nat)
  | waitDuration (n : Nat)
  | pollFrame (n : Nat) (kept : Bool)

/-- `release` takes the bytes for a frame that is handed on. -/
inductive Op where
  | call (call : Call)
  | release (n : Nat)

namespace BandwidthLimiter

variable (self : BandwidthLimiter)

def perform : Op → Nat → Outcome Op
  | .call (.tryConsume n), tokens => ⟨min tokens n, none⟩
  | .call (.waitDuration _), _ => ⟨0, none⟩
  | .call (.pollFrame n kept), tokens =>
    if self.waitDuration tokens n = 0 then ⟨0, some (.release n)⟩
    else ⟨0, if kept then none else some (.call (.waitDuration n))⟩
  | .release n, tokens => ⟨min tokens n, none⟩

def usage : Usage Op where
  perform := self.perform
  taken_le op tokens := by
    unfold perform
    split
    · exact Nat.min_le_left _ _
    · exact Nat.zero_le _
    · split <;> exact Nat.zero_le _
    · exact Nat.min_le_left _ _

def handedOut : Op × Nat → Nat
  | (.call (.tryConsume n), tokens) => min tokens n
  | (.release n, _) => n
  | _ => 0

variable (log : List (Op × Nat))

def delivered : Nat := weigh handedOut log

def serve (s : System Op) (actions : List (Action Call)) : System Op :=
  s.run self.rate self.usage (actions.map (.map .call))

/-! ### Without interference -/

def takes : Op → Bool
  | .call (.tryConsume _) | .release _ => true
  | _ => false

/-- Bytes are taken while another body is between its two calls. -/
def Disturbs (s : System Op) : Action Call → Prop
  | .advance caller _ => ∃ op, s.callers[caller]? = some (.busy .finished op) ∧ takes op = true ∧
      ∃ other phase n, other ≠ caller ∧ s.callers[other]? = some (.busy phase (.release n))
  | _ => False

def Undisturbed (self : BandwidthLimiter) : System Op → List (Action Call) → Prop
  | _, [] => True
  | s, action :: actions =>
    ¬ Disturbs s action ∧ self.Undisturbed (self.serve s [action]) actions

/-- A body between its two calls finds the bytes that it was promised, and what was handed out was
taken. -/
structure Covered (limiter : BandwidthLimiter) (s : System Op) : Prop where
  promised : ∀ (caller : Nat) (phase : Refill) (n : Nat),
    s.callers[caller]? = some (.busy phase (.release n)) → n ≤ s.bucket.tokens
  taken : delivered s.log = limiter.usage.taken s.log

lemma getElem?_set_cases {α : Type} {l : List α} {a b : α}
    (h : (l.set i a)[j]? = some b) : (i = j ∧ a = b) ∨ (j ≠ i ∧ l[j]? = some b) := by
  rw [List.getElem?_set] at h
  split at h
  · split at h
    · exact .inl ⟨‹_›, Option.some.inj h⟩
    · cases h
  · exact .inr ⟨fun heq => absurd heq.symm ‹_›, h⟩

lemma delivered_append (entry : Op × Nat) :
    delivered (log ++ [entry]) = delivered log + handedOut entry := by
  simp [delivered, weigh_append, weigh]

lemma taken_append (entry : Op × Nat) :
    self.usage.taken (log ++ [entry]) = self.usage.taken log + self.usage.took entry := by
  simp [Usage.taken, weigh_append, weigh]

namespace Covered

variable {limiter : BandwidthLimiter} {s : System Op} {caller : Nat} {op : Op}

lemma refillStep (h : Covered limiter s) (hcap : s.bucket.tokens ≤ limiter.bps)
    {phase : Refill} (hc : s.callers[caller]? = some (.busy phase op)) (age : Nat) :
    Covered limiter (s.refillStep limiter.rate caller age phase op) := by
  refine ⟨fun other phase' n ho => ?_, h.taken⟩
  refine le_trans ?_ (Refill.tokens_le_step hcap s.clock age phase)
  rcases getElem?_set_cases ho with ⟨rfl, heq⟩ | ⟨-, ho⟩
  · injection heq with _ hop
    exact h.promised _ phase n (by rw [hc, hop])
  · exact h.promised other phase' n ho

lemma perform_takes (h : Covered limiter s)
    (ha : ∀ other phase n, other ≠ caller → s.callers[other]? ≠ some (.busy phase (.release n)))
    (hn : (limiter.perform op s.bucket.tokens).next = none)
    (hs : handedOut (op, s.bucket.tokens) = limiter.usage.took (op, s.bucket.tokens)) :
    Covered limiter (s.performStep limiter.usage caller op) := by
  refine ⟨fun other phase n ho => ?_, ?_⟩
  · rcases getElem?_set_cases ho with ⟨-, heq⟩ | ⟨hne, ho⟩
    · rw [show (limiter.usage.perform op s.bucket.tokens).next = none from hn] at heq
      cases heq
    · exact absurd ho (ha other phase n hne)
  · simp only [performStep]
    rw [delivered_append, taken_append, h.taken, hs]

lemma perform_asks (h : Covered limiter s)
    (ht : (limiter.perform op s.bucket.tokens).taken = 0)
    (hn : ∀ n, (limiter.perform op s.bucket.tokens).next = some (.release n) →
      n ≤ s.bucket.tokens) (hs : handedOut (op, s.bucket.tokens) = 0) :
    Covered limiter (s.performStep limiter.usage caller op) := by
  have ht' : (limiter.usage.perform op s.bucket.tokens).taken = 0 := ht
  refine ⟨fun other phase n ho => ?_, ?_⟩
  · simp only [performStep, ht', take, Nat.sub_zero]
    rcases getElem?_set_cases ho with ⟨-, heq⟩ | ⟨-, ho⟩
    · apply hn n
      change Caller.proceed (limiter.perform op s.bucket.tokens).next = _ at heq
      cases hop : (limiter.perform op s.bucket.tokens).next with
      | none =>
        rw [hop] at heq
        cases heq
      | some next =>
        rw [hop] at heq
        injection heq with _ hr
        rw [hr]
    · exact h.promised other phase n ho
  · simp only [performStep]
    rw [delivered_append, taken_append, h.taken, hs, Usage.took, ht']

lemma performStep (hs : limiter.slack = 0) (h : Covered limiter s)
    (hc : s.callers[caller]? = some (.busy .finished op))
    (hq : takes op → ∀ other phase n, other ≠ caller →
      s.callers[other]? ≠ some (.busy phase (.release n))) :
    Covered limiter (s.performStep limiter.usage caller op) := by
  cases op with
  | call call =>
    cases call with
    | tryConsume n => exact h.perform_takes (hq rfl) rfl rfl
    | waitDuration n => exact h.perform_asks rfl (fun m hn => by cases hn) rfl
    | pollFrame n kept =>
      by_cases hw : limiter.waitDuration s.bucket.tokens n = 0
      · have hp : limiter.perform (.call (.pollFrame n kept)) s.bucket.tokens =
            ⟨0, some (.release n)⟩ := if_pos hw
        refine h.perform_asks (by rw [hp]) (fun m hn => ?_) rfl
        rw [hp] at hn
        obtain rfl : n = m := by simpa using hn
        -- nothing but the bytes themselves is counted as enough
        rwa [waitDuration_eq_zero, hs, Nat.add_zero] at hw
      have hp : limiter.perform (.call (.pollFrame n kept)) s.bucket.tokens =
          ⟨0, if kept then none else some (.call (.waitDuration n))⟩ := if_neg hw
      refine h.perform_asks (by rw [hp]) (fun m hn => ?_) rfl
      rw [hp] at hn
      cases kept <;> simp at hn
  | release n =>
    have hpro := h.promised caller _ n hc
    exact h.perform_takes (hq rfl) rfl (Nat.min_eq_right hpro).symm

lemma step (hs : limiter.slack = 0) (h : Covered limiter s)
    (hcap : s.bucket.tokens ≤ limiter.bps) {action : Action Call}
    (hq : ¬ Disturbs s action) : Covered limiter (limiter.serve s [action]) := by
  cases action with
  | tick time =>
    simp only [serve, List.map, map, System.run, List.foldl, System.step, System.tick]
    split
    · exact ⟨h.promised, h.taken⟩
    · exact h
  | call caller call =>
    simp only [serve, List.map, map, System.run, List.foldl, System.step, System.call]
    split
    · refine ⟨fun other phase n ho => ?_, h.taken⟩
      rcases getElem?_set_cases ho with ⟨-, heq⟩ | ⟨-, ho⟩
      · cases heq
      · exact h.promised other phase n ho
    · exact h
  | advance caller age =>
    simp only [serve, List.map, map, System.run, List.foldl, System.step, System.advance]
    split
    next phase op hc =>
      split
      next hp =>
        subst hp
        exact h.performStep hs hc fun ht other phase n hne ho =>
          hq ⟨op, hc, ht, other, phase, n, hne, ho⟩
      · exact h.refillStep hcap hc age
    · exact h

end Covered

/-! ### The rates that keep the limit -/

lemma rate_pays (h : self.bps ∣ 10 ^ 9) : self.rate.Pays self.bps (10 ^ 9) := by
  intro elapsed he
  rw [rate_credit]
  refine ⟨?_, self.consumedNs_le elapsed⟩
  have hle : self.newBytes elapsed * 10 ^ 9 / self.bps ≤ elapsed :=
    Nat.div_le_of_le_mul (by rw [Nat.mul_comm self.bps]; exact self.newBytes_le elapsed)
  have hc : self.consumedNs (self.newBytes elapsed) =
      self.newBytes elapsed * 10 ^ 9 / self.bps := by
    rw [consumedNs, max_bps]
    exact Nat.mod_eq_of_lt (lt_of_le_of_lt hle he)
  rw [hc, Nat.div_mul_cancel (Nat.dvd_mul_left_of_dvd h _)]

variable {s : System Op}

lemma covered_serve {self : BandwidthLimiter} (h : self.bps ∣ 10 ^ 9) (hc : Covered self s)
    (ha : Accounted self.rate self.usage start self.bps (10 ^ 9) s)
    {actions : List (Action Call)} (hq : self.Undisturbed s actions) :
    Covered self (self.serve s actions) := by
  have hs := self.slack_eq_zero (Nat.le_of_dvd (by decide) h)
  induction actions generalizing s with
  | nil => exact hc
  | cons action actions ih =>
    exact ih (hc.step hs ha.capacity hq.1) (ha.step (self.rate_pays h) (action.map .call)) hq.2

lemma undisturbed_of_one (self : BandwidthLimiter) (h : s.callers.length = 1)
    (actions : List (Action Call)) : self.Undisturbed s actions := by
  induction actions generalizing s with
  | nil => trivial
  | cons action actions ih =>
    refine ⟨?_, ih ((length_callers_step _ _ s _).trans h)⟩
    cases action with
    | tick time => exact id
    | call caller call => exact id
    | advance caller age =>
      rintro ⟨op, hc, -, other, phase, n, hne, ho⟩
      have hlt := (List.getElem?_eq_some_iff.mp hc).1
      have hlt' := (List.getElem?_eq_some_iff.mp ho).1
      omega

def Reaches (self : BandwidthLimiter) (s s' : System Op) : Prop :=
  ∃ actions, self.serve s actions = s'

namespace Reaches

variable {limiter : BandwidthLimiter} {s s' s'' : System Op}

lemma trans (h : limiter.Reaches s s') (h' : limiter.Reaches s' s'') : limiter.Reaches s s'' := by
  obtain ⟨actions, rfl⟩ := h
  obtain ⟨actions', rfl⟩ := h'
  refine ⟨actions ++ actions', ?_⟩
  rw [serve, List.map_append, run_append]
  rfl

lemma tick (h : s.clock + time < 2 ^ 64) : limiter.Reaches s { s with clock := s.clock + time } :=
  ⟨[.tick time], if_pos h⟩

lemma perform {op : Op} (h : s.callers = [.busy .start op]) :
    let refilled := s.bucket.refill limiter.rate s.clock
    let outcome := limiter.perform op refilled.tokens
    limiter.Reaches s
      { s with
        bucket := refilled.take outcome.taken
        callers := [.proceed outcome.next]
        log := s.log ++ [(op, refilled.tokens)] } := by
  refine ⟨List.replicate (s.steps limiter.rate) (.advance 0 0), ?_⟩
  rw [serve, List.map_replicate]
  exact run_steps limiter.rate limiter.usage h

lemma call (h : s.callers = [.idle]) (call : Call) :
    let refilled := s.bucket.refill limiter.rate s.clock
    let outcome := limiter.perform (.call call) refilled.tokens
    limiter.Reaches s
      { s with
        bucket := refilled.take outcome.taken
        callers := [.proceed outcome.next]
        log := s.log ++ [(.call call, refilled.tokens)] } := by
  have hb : limiter.Reaches s { s with callers := [.busy .start (.call call)] } := by
    refine ⟨[.call 0 call], ?_⟩
    simp [serve, System.run, map, System.step, System.call, h]
  exact hb.trans (perform rfl)

end Reaches

/-- The poll of a body that is kept from others is such a run: it leaves the same bucket, and hands
out the bytes of the frame that it answers with. -/
lemma reaches_pollPending {body : BandwidthBody} (h : s.callers = [.idle]) (data : Bytes) :
    let polled := body.pollPending (.alone s.clock) s.bucket data
    ∃ s', body.limiter.Reaches s s' ∧ s'.callers = [.idle] ∧ s'.clock = s.clock ∧
      s'.bucket = polled.bucket ∧
      delivered s'.log = delivered s.log +
        if polled.answer = .ready (some (.ok (.data data))) then data.length else 0 := by
  intro polled
  have ha : body.limiter.Reaches s _ := Reaches.call h (.pollFrame data.length true)
  by_cases hw : (body.limiter.waitAt s.bucket s.clock data.length).1 = 0
  · have hper : body.limiter.perform (.call (.pollFrame data.length true))
        (s.bucket.refill body.limiter.rate s.clock).tokens = ⟨0, some (.release data.length)⟩ :=
      if_pos hw
    have hp : polled = ⟨.ready (some (.ok (.data data))), { body with pending := none },
        (body.limiter.consumeAt (s.bucket.refill body.limiter.rate s.clock) s.clock
          data.length).2⟩ := if_pos hw
    simp only [hper, take_zero] at ha
    refine ⟨_, ha.trans (.perform rfl), rfl, rfl, by rw [hp]; rfl, ?_⟩
    rw [hp, if_pos rfl, delivered_append, delivered_append]
    rfl
  have hper : body.limiter.perform (.call (.pollFrame data.length true))
      (s.bucket.refill body.limiter.rate s.clock).tokens = ⟨0, none⟩ := if_neg hw
  have hp : polled = ⟨.pending, { body with
        sleep := some (s.clock + (body.limiter.waitAt s.bucket s.clock data.length).1) },
      s.bucket.refill body.limiter.rate s.clock⟩ := if_neg hw
  simp only [hper, take_zero] at ha
  refine ⟨_, ha, rfl, rfl, by rw [hp], ?_⟩
  rw [hp, delivered_append]
  rfl

lemma reaches_drained (self : BandwidthLimiter) :
    ∃ s, self.Reaches (System.start self.rate 0 1) s ∧ s.callers = [.idle] ∧ s.clock = 0 ∧
      s.bucket.tokens = 0 ∧ s.bucket.last = 0 ∧ delivered s.log = self.bps := by
  have hzero : (self.rate.credit (0 - 0)).tokens = 0 := by
    simp [newBytes]
  have hr : (⟨self.bps, 0, []⟩ : Bucket).refill self.rate 0 = ⟨self.bps, 0, []⟩ :=
    refill_of_zero hzero
  have hc : self.Reaches (start self.rate 0 1) _ :=
    Reaches.call rfl (.tryConsume self.bps)
  simp only [show (start self.rate 0 1 : System Op).bucket = ⟨self.bps, 0, []⟩ from rfl,
    show (start self.rate 0 1 : System Op).clock = 0 from rfl, hr] at hc
  refine ⟨_, hc, rfl, rfl, ?_, rfl, ?_⟩
  · simp [perform, take]
  · simp [delivered, weigh, handedOut, start]

lemma exceeds_of_fast (self : BandwidthLimiter) (h : 10 ^ 9 < self.bps) :
    ∃ s, self.Reaches (System.start self.rate 0 1) s ∧
      self.bps + (s.clock - 0) * self.bps / 10 ^ 9 < delivered s.log := by
  obtain ⟨s, hr, hi, hc, ht, hl, hd⟩ := self.reaches_drained
  let body := BandwidthBody.new [] self
  obtain ⟨s', hr', -, hc', -, hd'⟩ := @reaches_pollPending s body hi [0]
  have hs : 1 ≤ self.slack := (Nat.one_le_div_iff (by decide)).mpr (by omega)
  have hw : (self.waitAt s.bucket s.clock 1).1 = 0 := by
    rw [waitAt, waitDuration_eq_zero]
    omega
  have ha : (body.pollPending (.alone s.clock) s.bucket [0]).answer =
      .ready (some (.ok (.data [0]))) := by
    have hp : body.pollPending (.alone s.clock) s.bucket [0] =
        ⟨.ready (some (.ok (.data [0]))), _, _⟩ := if_pos hw
    rw [hp]
  refine ⟨s', hr.trans hr', ?_⟩
  rw [hd', hd, if_pos ha, hc', hc]
  simp

/-! A nanosecond too much is enough for a byte, and what is used up for the byte is rounded down. -/

section Slow

variable {limiter : BandwidthLimiter}

def perByte (limiter : BandwidthLimiter) : Nat := 10 ^ 9 / limiter.bps

lemma credit_perByte (hslow : limiter.bps ≤ 10 ^ 9) (h : ¬ limiter.bps ∣ 10 ^ 9) :
    limiter.rate.credit (limiter.perByte + 1) = ⟨1, limiter.perByte⟩ := by
  have hpos := limiter.bps_pos
  have hd := Nat.div_add_mod (10 ^ 9) limiter.bps
  have hm := Nat.mod_lt (10 ^ 9) hpos
  have hp : limiter.perByte ≤ 10 ^ 9 := Nat.div_le_self _ _
  have hn : limiter.newBytes (limiter.perByte + 1) = 1 := by
    rw [limiter.newBytes_eq hslow (by omega), Nat.add_mul, Nat.one_mul, Nat.mul_comm, perByte]
    apply Nat.div_eq_of_lt_le
    · omega
    · have hne : limiter.bps ≠ 10 ^ 9 := fun heq => h (heq ▸ Nat.dvd_refl _)
      omega
  rw [rate_credit, hn, consumedNs, max_bps, Nat.one_mul]
  congr
  exact Nat.mod_eq_of_lt (by rw [← perByte]; omega)

/-- So many bytes came back, each in the nanoseconds that it uses up. -/
structure Drained (limiter : BandwidthLimiter) (bytes : Nat) (s : System Op) : Prop where
  callers : s.callers = [.idle]
  tokens : s.bucket.tokens = 0
  last : s.bucket.last = bytes * limiter.perByte
  clock : s.clock ≤ bytes * limiter.perByte + 1
  delivered : delivered s.log = limiter.bps + bytes

section

variable (hslow : limiter.bps ≤ 10 ^ 9) (h : ¬ limiter.bps ∣ 10 ^ 9)

include hslow h

lemma Drained.next (hs : Drained limiter bytes s) (hb : bytes ≤ limiter.bps) :
    ∃ s', limiter.Reaches s s' ∧ Drained limiter (bytes + 1) s' := by
  have hpos := limiter.bps_pos
  have hp : limiter.perByte ≤ 10 ^ 9 := Nat.div_le_self _ _
  have hall : bytes * limiter.perByte ≤ 10 ^ 9 :=
    le_trans (Nat.mul_le_mul_right _ hb) (Nat.mul_div_le _ _)
  have hclo := hs.clock
  have hl : s.clock + (bytes * limiter.perByte + limiter.perByte + 1 - s.clock) =
      s.bucket.last + (limiter.perByte + 1) := by
    rw [hs.last]
    omega
  have htic : limiter.Reaches s
      { s with clock := s.bucket.last + (limiter.perByte + 1) } := by
    rw [← hl]
    apply Reaches.tick
    omega
  have hc := credit_perByte hslow h
  have hr : s.bucket.refill limiter.rate (s.bucket.last + (limiter.perByte + 1)) =
      (s.bucket.move limiter.perByte).add limiter.rate 1 := by
    rw [refill_of_ne_zero, Nat.add_sub_cancel_left, hc]
    rw [Nat.add_sub_cancel_left, hc]
    exact Nat.one_ne_zero
  have ht : ((s.bucket.move limiter.perByte).add limiter.rate 1).tokens = 1 := by
    simp only [add, move, hs.tokens, rate_capacity, Nat.zero_add]
    exact Nat.min_eq_left hpos
  have hcal := @Reaches.call limiter { s with clock := s.bucket.last + (limiter.perByte + 1) }
    hs.callers (.tryConsume 1)
  simp only [hr, ht] at hcal
  refine ⟨_, htic.trans hcal, rfl, ?_, ?_, ?_, ?_⟩
  · simp [take, ht, perform]
  · simp [take, add, move, hs.last, Nat.add_mul]
  · simp only [hs.last, Nat.add_mul, Nat.one_mul]
    omega
  · rw [delivered_append, hs.delivered]
    rfl

lemma reaches_bytes (hb : bytes ≤ limiter.bps + 1) :
    ∃ s, limiter.Reaches (System.start limiter.rate 0 1) s ∧ Drained limiter bytes s := by
  induction bytes with
  | zero =>
    obtain ⟨s, hr, hi, hc, ht, hl, hd⟩ := limiter.reaches_drained
    exact ⟨s, hr, hi, ht, by omega, by omega, hd⟩
  | succ bytes ih =>
    obtain ⟨s, hr, hs⟩ := ih (by omega)
    obtain ⟨s', hr', hs'⟩ := hs.next hslow h (by omega)
    exact ⟨s', hr.trans hr', hs'⟩

lemma exceeds_of_slow :
    ∃ s, limiter.Reaches (System.start limiter.rate 0 1) s ∧
      limiter.bps + (s.clock - 0) * limiter.bps / 10 ^ 9 < BandwidthLimiter.delivered s.log := by
  obtain ⟨s, hr, hs⟩ := reaches_bytes hslow h (le_refl (limiter.bps + 1))
  refine ⟨s, hr, ?_⟩
  rw [hs.delivered, Nat.sub_zero]
  apply Nat.add_lt_add_left
  rw [Nat.div_lt_iff_lt_mul (by decide)]
  have hm : 0 < 10 ^ 9 % limiter.bps := Nat.emod_pos_of_not_dvd h
  have hd : limiter.perByte * limiter.bps + 10 ^ 9 % limiter.bps = 10 ^ 9 := by
    rw [perByte, Nat.mul_comm]
    exact Nat.div_add_mod _ _
  calc s.clock * limiter.bps
      ≤ ((limiter.bps + 1) * limiter.perByte + 1) * limiter.bps := Nat.mul_le_mul_right _ hs.clock
    _ = (limiter.bps + 1) * (limiter.perByte * limiter.bps) + limiter.bps := by
        rw [Nat.add_mul, Nat.one_mul, Nat.mul_assoc]
    _ < (limiter.bps + 1) * (limiter.perByte * limiter.bps) +
          (limiter.bps + 1) * (10 ^ 9 % limiter.bps) := by
        apply Nat.add_lt_add_left
        exact lt_of_lt_of_le (Nat.lt_succ_self _) (Nat.le_mul_of_pos_right _ hm)
    _ = (limiter.bps + 1) * 10 ^ 9 := by rw [← Nat.mul_add, hd]

end

end Slow

/-- A limit that is kept in every run in which no body is disturbed between its two calls is one
whose bytes come after whole numbers of nanoseconds. -/
theorem delivered_le_iff (limiter : BandwidthLimiter) :
    (∀ (now : UInt64) (callers : Nat) (actions : List (Action Call)),
      limiter.Undisturbed (System.start limiter.rate now.toNat callers) actions →
        let s := limiter.serve (System.start limiter.rate now.toNat callers) actions
        delivered s.log ≤ limiter.bps + (s.clock - now.toNat) * limiter.bps / 10 ^ 9) ↔
      limiter.bps ∣ 10 ^ 9 := by
  constructor
  · intro hall
    by_contra hd
    have he : ∃ s, limiter.Reaches (start limiter.rate 0 1) s ∧
        limiter.bps + (s.clock - 0) * limiter.bps / 10 ^ 9 < delivered s.log := by
      rcases Nat.lt_or_ge (10 ^ 9) limiter.bps with hf | hslow
      · exact limiter.exceeds_of_fast hf
      · exact exceeds_of_slow hslow hd
    obtain ⟨s, ⟨actions, rfl⟩, hlt⟩ := he
    have hq : limiter.Undisturbed (start limiter.rate 0 1) actions :=
      limiter.undisturbed_of_one rfl actions
    exact absurd (hall 0 1 actions hq) (Nat.not_le.mpr hlt)
  intro hd now callers actions hq s
  have ha :=
    accounted_start limiter.rate limiter.usage limiter.bps (10 ^ 9) now.toNat_lt callers
  have hc : Covered limiter (start limiter.rate now.toNat callers) := by
    refine ⟨fun caller phase n hcal => ?_, rfl⟩
    have hm := List.mem_of_getElem? hcal
    cases List.eq_of_mem_replicate hm
  rw [(covered_serve hd hc ha hq).taken]
  exact (ha.run (limiter.rate_pays hd) _).taken_le (by decide)

/-- Two bodies that both see the only byte before one of them takes it. -/
theorem shared_byte_delivered_twice :
    let steps (caller : Nat) : List (Action Call) := List.replicate 4 (.advance caller 0)
    let s := slowest.serve (System.start slowest.rate 0 2)
      ([.call 0 (.pollFrame 1 false), .call 1 (.pollFrame 1 false)] ++
        steps 0 ++ steps 1 ++ steps 0 ++ steps 1)
    delivered s.log = 2 ∧ slowest.bps + (s.clock - 0) * slowest.bps / 10 ^ 9 = 1 := by
  decide

end BandwidthLimiter

end Aioduct.Bandwidth
