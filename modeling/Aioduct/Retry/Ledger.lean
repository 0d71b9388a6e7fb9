import Aioduct.Retry.Outage

/-!
# The tokens of a request

A token that a request withdraws is spent by one retry or given back once, and an attempt is
reserved for a request that holds no token.
-/

namespace Aioduct.Retry

open FinalizedRequestState Option Bool List

/-- How often a request has withdrawn a token, spent it and given it back. -/
structure Tally where
  withdrawn : Nat := 0
  spent : Nat := 0
  returned : Nat := 0

def Tally.add (tally : Tally) : Use → Tally
  | .idle => tally
  | .withdrawn => { tally with withdrawn := tally.withdrawn + 1 }
  | .spent => { tally with spent := tally.spent + 1 }
  | .returned => { tally with returned := tally.returned + 1 }

/-- The tokens of a bucket before and after each use of one; what is put in beyond `maxTokens` is
lost. -/
def Use.Counts (before after maxTokens deposit : Nat) : Use → Prop
  | .idle => after = before ∨ after = min (before + deposit) maxTokens
  | .withdrawn => after + 1 = before
  | .spent => after = before
  | .returned => after = min (before + 1) maxTokens

lemma RetryBudget.Effect.counts {self budget : RetryBudget} {use : Use}
    (h : self.Effect budget use) :
    use.Counts self.tokens budget.tokens self.maxTokens self.depositAmount := by
  cases use with
  | idle => exact h.imp (congrArg tokens) (congrArg tokens)
  | withdrawn => exact (tryWithdraw_eq_some h).1.symm
  | spent | returned => exact congrArg tokens h

/-- The answer to a challenge is being signed, after a move. -/
def Move.signing (move : Move) (before : Bool) : Bool :=
  match move with
  | .drained true => true
  | .answer => false
  | _ => before

/-- Each retry is counted once, and one that is reserved waits for its turn or its signature. -/
structure Request.Within (request : Request) (spent : Nat) (signing : Bool) : Prop where
  limit : request.state.maxRetries = request.config.maxRetries
  attempts : spent + request.state.pendingRetryReservation.isSome.toNat =
    request.state.retryAttempt
  bounded : request.state.retryAttempt + request.state.pendingRetryEligibility.toNat ≤
    request.state.maxRetries
  pending : request.state.pendingRetryReservation.isSome = true →
    request.state.pendingReplay.isSome = true ∨ signing = true

variable {tally : Tally} {signing : Bool}

namespace Request

variable {request after : Request} {budget : RetryBudget}

lemma spent_add_of_ne {move : Move} (h : move.use true false = .returned) (before after : Bool) :
    (tally.add (move.use before after)).spent = tally.spent := by
  cases before <;> cases after
  case true.false => rw [h]; rfl
  all_goals rfl

lemma spent_add_same (move : Move) (held : Bool) :
    (tally.add (move.use held held)).spent = tally.spent := by
  cases held <;> rfl

lemma Within.commit (h : request.Within tally.spent signing)
    (hr : request.state.pendingRetryReservation.isSome)
    {move : Move} (hm : move.use true false = .spent) (signing' : Bool) :
    Within { request with state := request.state.commitRetryReservation }
      (tally.add (move.use (holds (some request))
        (holds (some { request with state := request.state.commitRetryReservation })))).spent
      signing' := by
  have ha := h.attempts
  obtain ⟨hh, hc⟩ := request.state.holdsNothing_of_reserved hr
  rw [hr] at ha
  simp only [holds, hh, hc, Bool.not_true, Bool.not_false, hm]
  exact ⟨h.limit, ha, h.bounded, by simp [commitRetryReservation]⟩

lemma Within.move (h : request.Within tally.spent signing) {move : Move}
    (hm : (request.move budget move).request = some after) :
    after.Within (tally.add (move.use (holds (some request)) (holds (some after)))).spent
      (move.signing signing) := by
  cases move with
  | finalize method body snapshot | clear =>
    cases hm
    rw [spent_add_of_ne rfl]
    exact ⟨h.limit, h.attempts, h.bounded, h.pending⟩
  | challenge =>
    rw [spent_add_of_ne rfl]
    simp only [Request.move] at hm
    split at hm
    · rcases request.state.tryNewPermit_cases budget with
        ⟨hf, budget', hmay, -, heq⟩ | ⟨flag, heq⟩ <;> rw [heq] at hm <;> cases hm
      · exact ⟨h.limit, h.attempts, of_decide_eq_true (and_eq_true_iff.mp hmay).2, h.pending⟩
      · exact ⟨h.limit, h.attempts, h.bounded, h.pending⟩
    · cases hm
      exact h
  | drained ok =>
    rw [spent_add_of_ne rfl]
    simp only [Request.move] at hm
    split at hm
    next he =>
      obtain ⟨hl, ha, hb, hp⟩ := h
      rw [he] at hb
      cases ok with
      | true =>
        cases hm
        refine ⟨hl, ?_, hb, fun _ => .inr rfl⟩
        simpa [commitPermit, request.state.exclusive he] using ha
      | false =>
        simp only [dropPermit, he, if_true] at hm
        cases hm
        exact ⟨hl, ha, Nat.le_of_lt hb, hp⟩
    cases hm
    refine ⟨h.limit, h.attempts, h.bounded, fun hr => ?_⟩
    cases ok with
    | true => exact .inr rfl
    | false => exact h.pending hr
  | answer =>
    simp only [Request.move] at hm
    split at hm
    next hr =>
      cases hm
      exact h.commit (and_eq_true_iff.mp hr).1 rfl _
    rename_i hi
    cases hm
    rw [spent_add_same]
    refine ⟨h.limit, h.attempts, h.bounded, fun hr => .inl ?_⟩
    rw [hr, Bool.true_and, isNone_iff_eq_none] at hi
    exact isSome_iff_ne_none.mpr hi
  | finish attempt =>
    rw [spent_add_of_ne rfl]
    simp only [Request.move, finish] at hm
    split at hm
    · split at hm
      · rcases request.state.tryStartConfiguredRetry_cases budget with
          ⟨snapshot, hf, budget', hmay, -, heq⟩ | ⟨flag, heq⟩
        · simp only [heq, if_true] at hm
          cases hm
          obtain ⟨he, hres⟩ := request.state.holdsNothing_iff.mp hf
          have ha := h.attempts
          rw [hres] at ha
          have hb : _ + 1 ≤ _ := of_decide_eq_true (and_eq_true_iff.mp hmay).2
          refine ⟨h.limit, by simpa [reserve, denied] using ha, ?_, fun _ => .inl rfl⟩
          simpa [reserve, denied, he] using hb
        · simp only [heq, false_eq_true, if_false] at hm
          cases hm
      · cases hm
    · cases hm
      exact h
  | dispatch =>
    simp only [Request.move] at hm
    split at hm
    next hrep =>
      cases hm
      exact h.commit (request.state.reserved hrep) rfl _
    · cases hm
      rw [spent_add_same]
      exact h
  | abandon => cases hm

end Request

def signingAfter (id : Nat) (signing : Bool) : Event → Bool
  | .move other move => if other = id then move.signing signing else signing
  | .start _ _ _ => signing

namespace System

def holdsAt (s : System) (id : Nat) : Bool := s.requests[id]?.any holds

def useOf (s : System) (id : Nat) : Event → Use
  | .move other move =>
    if other = id then move.use (s.holdsAt id) ((s.step (.move id move)).holdsAt id) else .idle
  | .start _ _ _ => .idle

def tallyOf (s : System) (id : Nat) (sofar : Tally) : List Event → Tally
  | [] => sofar
  | event :: events => (s.step event).tallyOf id (sofar.add (s.useOf id event)) events

/-- The uses of a request's token so far add up. -/
structure Booked (s : System) (id : Nat) (tally : Tally) (signing : Bool) : Prop where
  balance : tally.withdrawn = tally.spent + tally.returned + (s.holdsAt id).toNat
  unused : s.requests[id]? = none → tally.spent = 0
  within : ∀ request, s.requests[id]? = some (some request) → request.Within tally.spent signing

variable {s s' : System} {id : Nat}

lemma balance_add {before after : Bool} (move : Move)
    (h : tally.withdrawn = tally.spent + tally.returned + before.toNat) :
    (tally.add (move.use before after)).withdrawn =
      (tally.add (move.use before after)).spent + (tally.add (move.use before after)).returned +
        after.toNat := by
  cases before <;> cases after
  case true.false =>
    rcases move.use_released with hu | hu <;> rw [hu] <;> simp [Tally.add, h] <;> omega
  all_goals simpa [Move.use, Tally.add] using h

lemma Booked.congr (h : s.Booked id tally signing) (hs : s'.requests[id]? = s.requests[id]?) :
    s'.Booked id tally signing := by
  obtain ⟨hb, hu, hw⟩ := h
  constructor <;> simpa only [holdsAt, hs]

lemma useOf_move (move : Move) :
    s.useOf id (.move id move) = .idle ∧ s.step (.move id move) = s ∧
        (∀ request, s.requests[id]? ≠ some (some request)) ∨
      ∃ request, s.requests[id]? = some (some request) ∧
        (s.step (.move id move)).budget = (request.move s.budget move).budget ∧
        (s.step (.move id move)).requests[id]? = some (request.move s.budget move).request ∧
        s.useOf id (.move id move) =
          move.use (holds (some request)) (holds (request.move s.budget move).request) := by
  rcases s.step_move_cases id move with ⟨heq, hnone⟩ | ⟨request, hid, hr, heq⟩
  · refine .inl ⟨?_, heq, hnone⟩
    rw [useOf, if_pos rfl, heq]
    cases s.holdsAt id <;> rfl
  have hb : s.requests[id]? = some (some request) := by
    rw [getElem?_eq_getElem hid, hr]
  have ha : (s.step (.move id move)).requests[id]? =
      some (request.move s.budget move).request := by
    rw [heq]
    exact getElem?_set_self hid
  refine .inr ⟨request, hb, by rw [heq], ha, ?_⟩
  simp [useOf, holdsAt, hb, ha]

lemma Booked.step (h : s.Booked id tally signing) (event : Event) :
    (s.step event).Booked id (tally.add (s.useOf id event)) (signingAfter id signing event) := by
  cases event with
  | start config method body =>
    change Booked _ id tally signing
    have hg : (s.step (.start config method body)).requests[id]? = if id < s.requests.length
        then s.requests[id]? else [some _][id - s.requests.length]? := getElem?_append
    by_cases hid : id < s.requests.length
    · exact h.congr (by rw [hg, if_pos hid])
    have hnone : s.requests[id]? = none := getElem?_eq_none (Nat.le_of_not_lt hid)
    rw [if_neg hid] at hg
    cases hi : id - s.requests.length with
    | zero =>
      rw [hi] at hg
      refine ⟨?_, fun hempty => by simp [hg] at hempty, fun request hr => ?_⟩
      · simpa [holdsAt, hnone, hg, holds, new, holdsNothing] using h.balance
      · obtain rfl : _ = request := some.inj (some.inj (hg.symm.trans hr))
        exact ⟨rfl, by simpa [new] using h.unused hnone, by simp [new], by simp [new]⟩
    | succ index => exact h.congr (by rw [hg, hnone, hi]; rfl)
  | move other move =>
    by_cases ho : other = id
    · subst ho
      rw [signingAfter, if_pos rfl]
      rcases useOf_move move with ⟨hu, heq, hnone⟩ | ⟨request, hb, -, ha, hu⟩
      · rw [heq, hu]
        exact ⟨h.balance, h.unused, fun request hsome => absurd hsome (hnone request)⟩
      have hbal := h.balance
      rw [holdsAt, hb, any_some] at hbal
      rw [hu]
      refine ⟨?_, fun hempty => by simp [ha] at hempty, fun after hsome => ?_⟩
      · rw [holdsAt, ha, any_some]
        exact balance_add move hbal
      · have hm := some.inj (ha.symm.trans hsome)
        rw [hm]
        exact (h.within request hb).move hm
    · have hs : (s.step (.move other move)).requests[id]? = s.requests[id]? := by
        rcases s.step_move_cases other move with ⟨heq, -⟩ | ⟨request, hid, -, heq⟩
        · rw [heq]
        · simp [heq, ho]
      simpa [useOf, signingAfter, ho, Tally.add] using h.congr hs

lemma Booked.run (h : s.Booked id tally signing) (events : List Event) :
    (s.run events).Booked id (s.tallyOf id tally events)
      (events.foldl (signingAfter id) signing) := by
  induction events generalizing s tally signing with
  | nil => exact h
  | cons event events ih => exact ih (h.step event)

lemma booked_new (budget : RetryBudget) (id : Nat) : Booked ⟨budget, [], 0⟩ id {} false := by
  constructor <;> simp [holdsAt]

/-- Every token that a request withdraws is spent by one retry or given back once, the bucket
changes accordingly, and no request makes more retries than it may. -/
theorem tokens_conserved (maxTokens depositPerSuccess : Nat) (events : List Event) (id : Nat)
    (move : Move) :
    let start : System := ⟨.new maxTokens depositPerSuccess, [], 0⟩
    let s := start.run events
    let tally := start.tallyOf id {} events
    s.budget.tokens ≤ maxTokens ∧
      (s.useOf id (.move id move)).Counts s.budget.tokens (s.step (.move id move)).budget.tokens
        maxTokens depositPerSuccess ∧
      tally.withdrawn = tally.spent + tally.returned + (s.holdsAt id).toNat ∧
      ∀ request, s.requests[id]? = some (some request) →
        tally.spent ≤ request.config.maxRetries := by
  intro start s tally
  have hb : s.Booked id tally _ := (booked_new _ id).run events
  obtain ⟨hbou, hdep⟩ : s.budget.maxTokens = maxTokens ∧ s.budget.depositAmount =
    depositPerSuccess := sameBounds_run start events
  refine ⟨hbou ▸ s.budget.tokens_le, ?_, hb.balance, fun request hr => ?_⟩
  · rcases useOf_move (s := s) move with ⟨hu, heq, -⟩ | ⟨request, -, hbud, -, hu⟩
    · rw [hu, heq]
      exact .inl rfl
    · rw [hu, hbud]
      exact hbou ▸ hdep ▸ (request.transfer_move s.budget move).effect.counts
  · obtain ⟨hl, ha, hbo, -⟩ := hb.within request hr
    omega

end System

end Aioduct.Retry
