import Aioduct.Retry.Loop

/-!
# Retries in an outage

While every attempt fails, the retries of all requests should be paid with the tokens that the
bucket has when the outage begins.
-/

namespace Aioduct.Retry

open Http FinalizedRequestState List Request Move Nat Option

/-! ### Tokens in use -/

def holds : Option Request → Bool
  | some request => !request.state.holdsNothing
  | none => false

/-- The number of tokens that are withdrawn and neither used nor given back. -/
def System.outstanding (s : System) : Nat := s.requests.countP holds

def held (request : Option Request) : Nat := if holds request then 1 else 0

variable (self : RetryBudget)

/-- Nothing is ever put into the bucket besides what is given back. -/
def RetryBudget.NoGain : Prop := self.depositAmount = 0 ∨ self.maxTokens = 0

namespace RetryBudget

lemma refund_tokens_le : self.refund.tokens ≤ self.tokens + 1 :=
  Nat.min_le_left _ _

lemma NoGain.deposit_tokens_le {self : RetryBudget} (h : self.NoGain) :
    self.deposit.tokens ≤ self.tokens := by
  unfold deposit
  rw [fill_tokens]
  rcases h with h | h <;> omega

end RetryBudget

namespace FinalizedRequestState

lemma drop_of_holdsNothing {self : FinalizedRequestState} (h : self.holdsNothing)
    (budget : RetryBudget) : self.drop budget = budget := by
  obtain ⟨he, hr⟩ := self.holdsNothing_iff.mp h
  simp [drop, he, hr]

section

variable (self : FinalizedRequestState)

lemma drop_eq_refund (h : self.holdsNothing = false) (budget : RetryBudget) :
    self.drop budget = budget.refund := by
  cases he : self.pendingRetryEligibility with
  | true => simp [drop, he, self.exclusive he]
  | false =>
    have hr : self.pendingRetryReservation.isSome := by
      simpa [holdsNothing, he, ← not_isSome] using h
    simp [drop, he, hr]

variable (budget : RetryBudget)

lemma holdsNothing_of_reserved (h : self.pendingRetryReservation.isSome) :
    self.holdsNothing = false ∧ self.commitRetryReservation.holdsNothing := by
  have he : self.pendingRetryEligibility = false := by
    by_contra hne
    have hnone := self.exclusive (by simpa using hne)
    simp [hnone] at h
  constructor
  · simp [holdsNothing, ← not_isSome, h]
  · simp [holdsNothing, commitRetryReservation, he]

lemma tryStartConfiguredRetry_cases :
    (∃ snapshot h budget', self.mayReserve ∧ budget.tryWithdraw = some budget' ∧
        self.tryStartConfiguredRetry budget =
          (true, (self.denied false).reserve snapshot h, budget')) ∨
      ∃ flag, self.tryStartConfiguredRetry budget = (false, self.denied flag, budget) := by
  unfold tryStartConfiguredRetry
  cases self.snapshot with
  | none => exact .inr ⟨self.retryBudgetDenied, rfl⟩
  | some snapshot =>
    dsimp only
    split
    next hm =>
      cases budget.tryWithdraw with
      | none => exact .inr ⟨_, rfl⟩
      | some budget' => exact .inl ⟨snapshot, (Bool.and_eq_true_iff.mp hm).1, budget', hm, rfl, rfl⟩
    · exact .inr ⟨_, rfl⟩

lemma tryNewPermit_cases :
    (∃ h budget', self.mayReserve ∧ budget.tryWithdraw = some budget' ∧
        self.tryNewPermit budget =
          ({ self.denied false with pendingRetryEligibility := true, exclusive := h }, budget')) ∨
      ∃ flag, self.tryNewPermit budget = (self.denied flag, budget) := by
  unfold tryNewPermit
  split
  next hm =>
    cases budget.tryWithdraw with
    | none => exact .inr ⟨_, rfl⟩
    | some budget' =>
      have hn := self.holdsNothing_iff.mp (Bool.and_eq_true_iff.mp hm).1
      exact .inl ⟨fun _ => hn.2, budget', hm, rfl, rfl⟩
  · exact .inr ⟨_, rfl⟩

end

end FinalizedRequestState

/-! ### One move -/

/-- What a move does with the token of its request. -/
inductive Use
  | idle
  | withdrawn
  | spent
  | returned
  deriving DecidableEq

/-- A token that the request no longer holds is spent by sending, and given back otherwise. -/
def Move.use (move : Move) (before after : Bool) : Use :=
  match before, after with
  | false, true => .withdrawn
  | true, false =>
    match move with
    | .dispatch | .answer => .spent
    | _ => .returned
  | _, _ => .idle

lemma Move.use_released (move : Move) :
    move.use true false = .spent ∨ move.use true false = .returned := by
  cases move <;> simp [use]

def RetryBudget.Effect (budget : RetryBudget) : Use → Prop
  | .idle => budget = self ∨ budget = self.deposit
  | .withdrawn => self.tryWithdraw = some budget
  | .spent => budget = self
  | .returned => budget = self.refund

/-- The bucket changes with the token of the request, and a retry spends one. -/
structure Moved.Transfer (moved : Moved) (request : Request) (budget : RetryBudget) (move : Move) :
    Prop where
  effect : budget.Effect moved.budget (move.use (holds (some request)) (holds moved.request))
  retries : moved.retries = 0 ∨
    moved.retries = 1 ∧ move.use (holds (some request)) (holds moved.request) = .spent

namespace Request

variable {self : Request} {state : FinalizedRequestState} {budget budget' : RetryBudget}
  {move : Move}

lemma transfer_of_holdsNothing_eq (h : state.holdsNothing = self.state.holdsNothing) :
    Moved.Transfer ⟨some { self with state }, budget, 0⟩ self budget move := by
  refine ⟨?_, .inl rfl⟩
  cases hs : self.state.holdsNothing <;>
    simp [holds, h, hs, use, RetryBudget.Effect]

lemma transfer_of_tryWithdraw (hm : self.state.mayReserve)
    (hw : budget.tryWithdraw = some budget') (hs : state.holdsNothing = false) :
    Moved.Transfer ⟨some { self with state }, budget', 0⟩ self budget move := by
  refine ⟨?_, .inl rfl⟩
  simpa [holds, (Bool.and_eq_true_iff.mp hm).1, hs, use, RetryBudget.Effect]

lemma transfer_leave {outcome : Outcome} (h : self.canFinish outcome) (flag : Bool)
    (attempt : Attempt) :
    (leave { self with state := self.state.denied flag } outcome budget).Transfer self budget
      (.finish attempt) := by
  have hd : (self.state.denied flag).holdsNothing = self.state.holdsNothing := rfl
  refine ⟨?_, .inl rfl⟩
  cases hs : self.state.holdsNothing with
  | true =>
    rw [hs] at hd
    cases outcome with
    | status status =>
      cases hf : (self.state.denied flag).retryBudgetDenied <;>
        simp [holds, hs, leave, hf, use, RetryBudget.Effect, drop_of_holdsNothing hd]
    | error error =>
      simp [holds, hs, leave, use, RetryBudget.Effect, drop_of_holdsNothing hd]
  | false =>
    rw [hs] at hd
    cases outcome with
    | status status => simp [canFinish, hs, isError] at h
    | error error =>
      simp [holds, hs, leave, use, RetryBudget.Effect, (self.state.denied flag).drop_eq_refund hd]

lemma transfer_finish {attempt : Attempt} (h : self.canFinish attempt.outcome) :
    (self.finish attempt.outcome budget).Transfer self budget (.finish attempt) := by
  unfold finish
  split
  · rcases self.state.tryStartConfiguredRetry_cases budget with
      ⟨snapshot, hf, budget', hm, hw, heq⟩ | ⟨flag, heq⟩
    · simp only [heq, if_true]
      exact transfer_of_tryWithdraw hm hw (by simp [holdsNothing, reserve])
    · simp only [heq, Bool.false_eq_true, if_false]
      exact transfer_leave h flag attempt
  · exact transfer_leave h self.state.retryBudgetDenied attempt

lemma transfer_commit (hres : self.state.pendingRetryReservation.isSome)
    (hm : move.use true false = .spent) {retries : Nat} (hr : retries = 0 ∨ retries = 1) :
    Moved.Transfer ⟨some { self with state := self.state.commitRetryReservation }, budget, retries⟩
      self budget move := by
  obtain ⟨hh, hc⟩ := self.state.holdsNothing_of_reserved hres
  have hu : move.use (holds (some self))
      (holds (some { self with state := self.state.commitRetryReservation })) = .spent := by
    simpa [holds, hh, hc] using hm
  constructor
  · rw [hu]
    exact rfl
  · exact hr.imp_right fun h => ⟨h, hu⟩

/-- All that a move does with the bucket. -/
lemma transfer_move (self : Request) (budget : RetryBudget) (move : Move) :
    (self.move budget move).Transfer self budget move := by
  have hs : Moved.Transfer ⟨some self, budget, 0⟩ self budget move :=
    transfer_of_holdsNothing_eq rfl
  cases move with
  | finalize method body snapshot | clear => exact transfer_of_holdsNothing_eq rfl
  | challenge =>
    simp only [move]
    split
    · rcases self.state.tryNewPermit_cases budget with
        ⟨h, budget', hm, hw, heq⟩ | ⟨flag, heq⟩
      · simp only [heq]
        exact transfer_of_tryWithdraw hm hw (by simp [holdsNothing])
      · simp only [heq]
        exact transfer_of_holdsNothing_eq rfl
    · exact hs
  | drained ok =>
    simp only [move]
    split
    next he =>
      have hh : self.state.holdsNothing = false := by simp [holdsNothing, he]
      cases ok with
      | true => exact transfer_of_holdsNothing_eq hh.symm
      | false =>
        refine ⟨?_, .inl rfl⟩
        simp [dropPermit, he, holds, holdsNothing, self.state.exclusive he, use, RetryBudget.Effect]
    · exact hs
  | answer =>
    simp only [move]
    split
    next hres =>
      exact transfer_commit (Bool.and_eq_true_iff.mp hres).1 rfl (.inl rfl)
    · exact hs
  | finish attempt =>
    simp only [move]
    split
    next hf =>
      exact transfer_finish hf
    · exact hs
  | dispatch =>
    simp only [move]
    split
    next hr =>
      exact transfer_commit (self.state.reserved hr) rfl (.inr rfl)
    · exact hs
  | abandon =>
    refine ⟨?_, .inl rfl⟩
    cases hsel : self.state.holdsNothing with
    | true => simp [holds, move, hsel, use, RetryBudget.Effect,
        drop_of_holdsNothing hsel]
    | false => simp [holds, move, hsel, use, RetryBudget.Effect,
        self.state.drop_eq_refund hsel]

end Request

def RetryBudget.SameBounds (other : RetryBudget) : Prop :=
  self.maxTokens = other.maxTokens ∧ self.depositAmount = other.depositAmount

lemma RetryBudget.SameBounds.refl : self.SameBounds self := ⟨rfl, rfl⟩

lemma RetryBudget.SameBounds.trans {first second third : RetryBudget}
    (h : first.SameBounds second) (h' : second.SameBounds third) : first.SameBounds third :=
  ⟨h.1.trans h'.1, h.2.trans h'.2⟩

variable {self : RetryBudget}

lemma RetryBudget.Effect.sameBounds {budget : RetryBudget} {use : Use}
    (h : self.Effect budget use) : budget.SameBounds self := by
  cases use with
  | idle => rcases h with rfl | rfl <;> exact ⟨rfl, rfl⟩
  | withdrawn =>
    obtain ⟨-, rfl⟩ := tryWithdraw_eq_some h
    exact ⟨rfl, rfl⟩
  | spent | returned =>
    cases h
    exact ⟨rfl, rfl⟩

/-- The retries made, the tokens in the bucket and the token of the request together do not grow,
where nothing is put into the bucket. -/
lemma Moved.Transfer.noGain {moved : Moved} {request : Request} {move : Move}
    (h : moved.Transfer request self move) (hg : self.NoGain) :
    moved.retries + moved.budget.tokens + held moved.request ≤
      self.tokens + held (some request) := by
  obtain ⟨he, hr⟩ := h
  have hd := hg.deposit_tokens_le
  have hre := self.refund_tokens_le
  unfold held
  cases hbef : holds (some request) <;> cases ha : holds moved.request <;>
    rw [hbef, ha] at he hr
  · rcases he with h | h <;> simp_all [use]
  · have ht := (RetryBudget.tryWithdraw_eq_some he).1
    simp_all [use]
  · rcases move.use_released with hu | hu <;> rw [hu] at he hr
    · have hb : moved.budget = self := he
      simp only [hb, Bool.false_eq_true, if_false, if_true]
      omega
    · have hb : moved.budget = self.refund := he
      simp_all
  · rcases he with h | h <;> simp_all [use]

namespace System

lemma step_move_cases (s : System) (id : Nat) (move : Move) :
    s.step (.move id move) = s ∧ (∀ request, s.requests[id]? ≠ some (some request)) ∨
      ∃ (request : Request) (hid : id < s.requests.length), s.requests[id] = some request ∧
        s.step (.move id move) =
          { budget := (request.move s.budget move).budget
            requests := s.requests.set id (request.move s.budget move).request
            retries := s.retries + (request.move s.budget move).retries } := by
  have hs : s.step (.move id move) = s.act id move := rfl
  rw [hs]
  unfold act
  split
  next request hr =>
    obtain ⟨hid, hr⟩ := List.getElem?_eq_some_iff.mp hr
    exact .inr ⟨request, hid, hr, rfl⟩
  next hnone =>
    exact .inl ⟨rfl, hnone⟩

variable {s : System}

lemma outstanding_set {id : Nat} (hid : id < s.requests.length) (request : Option Request) :
    (s.requests.set id request).countP holds + held s.requests[id] =
      s.outstanding + held request := by
  rw [countP_set hid, outstanding, held, held]
  cases hold : holds s.requests[id] with
  | true =>
    have hpos := countP_pos_iff.mpr ⟨_, getElem_mem hid, hold⟩
    simp only [if_true]
    omega
  | false =>
    simp only [Bool.false_eq_true, if_false]
    omega

lemma sameBounds_step (s : System) (event : Event) : (s.step event).budget.SameBounds s.budget := by
  cases event with
  | start config method body => exact .refl _
  | move id move =>
    rcases s.step_move_cases id move with ⟨h, -⟩ | ⟨request, hid, -, h⟩
    · rw [h]
      exact .refl _
    · rw [h]
      exact (request.transfer_move s.budget move).effect.sameBounds

def funds (s : System) : Nat := s.retries + s.budget.tokens + s.outstanding

lemma funds_step (h : s.budget.NoGain) (event : Event) : (s.step event).funds ≤ s.funds := by
  cases event with
  | start config method body =>
    have hn : (s.step (.start config method body)).outstanding = s.outstanding := by
      simp [outstanding, step, holds, new, holdsNothing]
    have hs : (s.step (.start config method body)).funds =
        s.retries + s.budget.tokens + (s.step (.start config method body)).outstanding := rfl
    rw [hs, hn]
    exact le_refl _
  | move id move =>
    rcases s.step_move_cases id move with ⟨heq, -⟩ | ⟨request, hid, hr, heq⟩
    · rw [heq]
    have hp := (request.transfer_move s.budget move).noGain h
    have hset := outstanding_set hid (request.move s.budget move).request
    rw [hr] at hset
    rw [heq]
    simp only [funds]
    rw [outstanding]
    dsimp only
    omega

lemma sameBounds_run (s : System) (events : List Event) :
    (s.run events).budget.SameBounds s.budget := by
  induction events generalizing s with
  | nil => exact .refl _
  | cons event events ih => exact (ih (s.step event)).trans (s.sameBounds_step event)

lemma funds_run (h : s.budget.NoGain) (events : List Event) : (s.run events).funds ≤ s.funds := by
  induction events generalizing s with
  | nil => exact le_refl _
  | cons event events ih =>
    obtain ⟨hm, hd⟩ := s.sameBounds_step event
    have hn : (s.step event).budget.NoGain := by
      unfold RetryBudget.NoGain
      rwa [hm, hd]
    exact (ih hn).trans (funds_step h event)

/-! ### Using up the bucket -/

lemma step_move_last (budget : RetryBudget) (requests : List (Option Request)) (request : Request)
    (retries : Nat) (move : Move) :
    step ⟨budget, requests ++ [some request], retries⟩ (.move requests.length move) =
      ⟨(request.move budget move).budget, requests ++ [(request.move budget move).request],
        retries + (request.move budget move).retries⟩ := by
  have hs : step ⟨budget, requests ++ [some request], retries⟩
      (.move requests.length move) =
      act ⟨budget, requests ++ [some request], retries⟩ requests.length move := rfl
  rw [hs]
  unfold act
  simp [set_cons_zero]

end System

def Event.failing : Event → Bool
  | .move _ (.finish attempt) => attempt.failing
  | .move _ .challenge => false
  | _ => true

namespace Request

lemma move_finish_of_canRetry {self : Request} {budget budget' : RetryBudget} {attempt : Attempt}
    (hm : self.state.mayReserve) (hc : self.canRetry attempt.outcome)
    (hw : budget.tryWithdraw = some budget') :
    ∃ after : Request, self.move budget (.finish attempt) = ⟨some after, budget', 0⟩ ∧
      after.state.pendingReplay.isSome := by
  have hf : self.canFinish attempt.outcome := by
    simp [canFinish, (Bool.and_eq_true_iff.mp hm).1]
  have hs : self.state.snapshot.isSome :=
    (Bool.and_eq_true_iff.mp (Bool.and_eq_true_iff.mp hc).1).1
  obtain ⟨snapshot, hs⟩ := isSome_iff_exists.mp hs
  simp only [move, hf, if_true, finish, hc, tryStartConfiguredRetry, hs, hm, dif_pos, hw]
  exact ⟨_, rfl, rfl⟩

lemma move_finish_of_response {self : Request} (budget : RetryBudget) {status : StatusCode}
    (hn : self.state.holdsNothing) (hd : self.state.retryBudgetDenied = false)
    (hc : self.canRetry (.status status) = false) :
    self.move budget (.finish (.ended (.status status))) = ⟨none, budget.deposit, 0⟩ := by
  simp [move, Attempt.outcome, canFinish, hn, finish, hc, leave, hd, drop_of_holdsNothing hn]

end Request

variable (id : Nat)

def retryOnce : List Event :=
  [.start { maxRetries := 1 } .get .empty,
    .move id (.finalize .get .empty (some ⟨.empty⟩)),
    .move id (.finish (.ended (.status 503))),
    .move id .dispatch]

def failOnce : List Event :=
  [.start { maxRetries := 0 } .get .empty, .move id (.finish (.ended (.status 503)))]

lemma failing_retryOnce : ∀ event ∈ retryOnce id, event.failing :=
  all_eq_true.mp rfl

lemma failing_failOnce : ∀ event ∈ failOnce id, event.failing :=
  all_eq_true.mp rfl

def sentRequest : Request :=
  ⟨{ maxRetries := 1 },
    (new .get .empty 1).recordFinalized .get .empty (some ⟨.empty⟩)⟩

namespace System

variable {s : System}

lemma run_retryOnce (h : 0 < s.budget.tokens) :
    ∃ request, s.run (retryOnce s.requests.length) =
      ⟨s.budget.fill (s.budget.tokens - 1), s.requests ++ [request], s.retries + 1⟩ := by
  have hw : s.budget.tryWithdraw = some (s.budget.fill (s.budget.tokens - 1)) := if_pos h
  have hc : sentRequest.canRetry (Attempt.ended (.status 503)).outcome := by decide
  obtain ⟨after, hfin, hr⟩ :=
    move_finish_of_canRetry (by decide) hc hw
  have hd : ∀ budget, after.move budget .dispatch =
      ⟨some { after with state := after.state.commitRetryReservation }, budget, 1⟩ := by
    intro budget
    simp [move, hr]
  have hs : s.step (.start { maxRetries := 1 } .get .empty) =
      ⟨s.budget, s.requests ++ [some ⟨{ maxRetries := 1 }, .new .get .empty 1⟩], s.retries⟩ := rfl
  have hf : ∀ request : Request,
      request.move s.budget (.finalize .get .empty (some ⟨.empty⟩)) =
        ⟨some { request with state :=
          request.state.recordFinalized .get .empty (some ⟨.empty⟩) }, s.budget, 0⟩ :=
    fun _ => rfl
  have hsen : (⟨{ maxRetries := 1 }, (new .get .empty 1).recordFinalized
      .get .empty (some ⟨.empty⟩)⟩ : Request) = sentRequest := rfl
  simp only [run, retryOnce, foldl_cons, foldl_nil, hs, step_move_last, hf,
    hsen, hfin, hd, add_zero]
  exact ⟨_, rfl⟩

lemma run_failOnce (s : System) :
    s.run (failOnce s.requests.length) =
      ⟨s.budget.deposit, s.requests ++ [none], s.retries⟩ := by
  have hs : s.step (.start { maxRetries := 0 } .get .empty) =
      ⟨s.budget, s.requests ++ [some ⟨{ maxRetries := 0 }, .new .get .empty 0⟩], s.retries⟩ := rfl
  have hf : move ⟨{ maxRetries := 0 }, .new .get .empty 0⟩ s.budget
      (.finish (.ended (.status 503))) = ⟨none, s.budget.deposit, 0⟩ :=
    move_finish_of_response s.budget (by decide) rfl (by decide)
  simp [run, failOnce, foldl_cons, foldl_nil, hs, step_move_last, hf, add_zero]

lemma run_append (s : System) (events events' : List Event) :
    s.run (events ++ events') = (s.run events).run events' := foldl_append

lemma exists_run_spending (s : System) :
    ∃ events more, (∀ event ∈ events, event.failing) ∧
      (s.run events).retries = s.retries + s.budget.tokens ∧
      (s.run events).budget.tokens = 0 ∧ (s.run events).requests = s.requests ++ more := by
  induction ht : s.budget.tokens generalizing s with
  | zero => exact ⟨[], [], by simp, by simp [run], ht, by simp [run]⟩
  | succ tokens ih =>
    obtain ⟨request, hrun⟩ := run_retryOnce (s := s) (by omega)
    have hle := s.budget.tokens_le
    obtain ⟨events, more, hf, hr, hempty, hreq⟩ :=
      ih (s.run (retryOnce s.requests.length)) (by rw [hrun, RetryBudget.fill_tokens]; omega)
    refine ⟨retryOnce s.requests.length ++ events, request :: more, ?_, ?_, ?_, ?_⟩
    · exact forall_mem_append.mpr ⟨failing_retryOnce _, hf⟩
    · rw [run_append, hr, hrun]
      dsimp only
      omega
    · rw [run_append, hempty]
    · rw [run_append, hreq, hrun]
      simp

lemma exists_run_exceeding {t : System} {events : List Event}
    (hf : ∀ event ∈ events, event.failing) (hrun : s.run events = t)
    (hr : t.retries = s.retries + s.budget.tokens) (ht : 0 < t.budget.tokens) :
    ∃ events, (∀ event ∈ events, event.failing) ∧
      s.retries + s.budget.tokens < (s.run events).retries := by
  obtain ⟨request, hm⟩ := run_retryOnce ht
  refine ⟨events ++ retryOnce t.requests.length, ?_, ?_⟩
  · exact forall_mem_append.mpr ⟨hf, failing_retryOnce _⟩
  · rw [run_append, hrun, hm, hr]
    exact lt_succ_self _

lemma exists_run_exceeding_of_deposit (h : ¬s.budget.NoGain) :
    ∃ events, (∀ event ∈ events, event.failing) ∧
      s.retries + s.budget.tokens < (s.run events).retries := by
  obtain ⟨events, more, hf, hr, hempty, -⟩ := s.exists_run_spending
  obtain ⟨hm, hd⟩ := s.sameBounds_run events
  have hrun : s.run (events ++ failOnce (s.run events).requests.length) =
      ⟨(s.run events).budget.deposit, (s.run events).requests ++ [none],
        (s.run events).retries⟩ := by rw [run_append, run_failOnce]
  refine exists_run_exceeding ?_ hrun hr ?_
  · exact forall_mem_append.mpr ⟨hf, failing_failOnce _⟩
  · simp only [RetryBudget.NoGain, not_or] at h
    simp only [RetryBudget.deposit, RetryBudget.fill_tokens, hempty, hm, hd]
    omega

lemma exists_run_exceeding_of_outstanding (h : s.outstanding ≠ 0) (hroo : s.budget.maxTokens ≠ 0) :
    ∃ events, (∀ event ∈ events, event.failing) ∧
      s.retries + s.budget.tokens < (s.run events).retries := by
  obtain ⟨events, more, hf, hr, hempty, hre⟩ := s.exists_run_spending
  obtain ⟨hm, -⟩ := s.sameBounds_run events
  -- The request that holds the token is still where it was.
  obtain ⟨request, hmem, hh⟩ := countP_pos_iff.mp (Nat.pos_of_ne_zero h)
  obtain ⟨id, hid, hreq⟩ := getElem_of_mem hmem
  obtain ⟨request, rfl⟩ : ∃ r, request = some r := by
    cases request with
    | none => cases hh
    | some r => exact ⟨r, rfl⟩
  have hreq : (s.run events).requests[id]? = some (some request) := by
    rw [hre, getElem?_append_left hid, getElem?_eq_getElem hid, hreq]
  have hrun : s.run (events ++ [.move id .abandon]) =
      ⟨request.state.drop (s.run events).budget, (s.run events).requests.set id none,
        (s.run events).retries⟩ := by
    rw [run_append]
    have hs : (s.run events).run [.move id .abandon] = (s.run events).act id .abandon := rfl
    rw [hs]
    unfold act
    rw [hreq]
    rfl
  refine exists_run_exceeding ?_ hrun hr ?_
  · exact forall_mem_append.mpr ⟨hf, forall_mem_singleton.mpr rfl⟩
  have hd : request.state.drop (s.run events).budget = (s.run events).budget.refund :=
    request.state.drop_eq_refund (by simpa [holds] using hh) _
  rw [hd, RetryBudget.refund, RetryBudget.fill_tokens, hempty, hm]
  omega

/-- Whatever has happened before, the retries of an outage stay within the tokens in the bucket
exactly if no token is withdrawn when it begins and responses put nothing into the bucket. -/
theorem outage_retries_bounded_iff (maxTokens depositPerSuccess : Nat) (before : List Event) :
    (∀ outage, (∀ event ∈ outage, event.failing = true) →
        ((run ⟨.new maxTokens depositPerSuccess, [], 0⟩ before).run outage).retries ≤
          (run ⟨.new maxTokens depositPerSuccess, [], 0⟩ before).retries +
            (run ⟨.new maxTokens depositPerSuccess, [], 0⟩ before).budget.tokens) ↔
      (run ⟨.new maxTokens depositPerSuccess, [], 0⟩ before).outstanding = 0 ∧
        (depositPerSuccess = 0 ∨ maxTokens = 0) := by
  obtain ⟨hm, hd⟩ :=
    sameBounds_run ⟨.new maxTokens depositPerSuccess, [], 0⟩ before
  have hn : maxTokens = 0 →
      (run ⟨.new maxTokens depositPerSuccess, [], 0⟩ before).outstanding = 0 := by
    rintro rfl
    have hfun := funds_run (s := ⟨.new 0 depositPerSuccess, [], 0⟩) (.inr rfl) before
    exact le_zero.mp (le_trans (le_add_left _ _) hfun)
  generalize run ⟨.new maxTokens depositPerSuccess, [], 0⟩ before = s at *
  have hm : s.budget.maxTokens = maxTokens := hm
  have hnoG : s.budget.NoGain ↔ depositPerSuccess = 0 ∨ maxTokens = 0 := by
    rw [RetryBudget.NoGain, hm, hd]
    rfl
  rw [← hnoG]
  constructor
  · intro h
    constructor
    · by_contra hne
      obtain ⟨events, hf, hlt⟩ := exists_run_exceeding_of_outstanding hne
        fun hzero => hne (hn (hm.symm.trans hzero))
      exact absurd (h events hf) (not_le.mpr hlt)
    · by_contra hg
      obtain ⟨events, hf, hlt⟩ := exists_run_exceeding_of_deposit hg
      exact absurd (h events hf) (not_le.mpr hlt)
  rintro ⟨hnone, hg⟩ outage -
  have hfun := funds_run hg outage
  simp only [funds, hnone] at hfun
  omega

/-- A bucket of one token pays for two retries, since the first request returns its last 503 as any
response. -/
theorem exhausted_request_refills_bucket :
    (run ⟨.new 1 1, [], 0⟩
        (retryOnce 0 ++ [.move 0 (.finish (.ended (.status 503)))] ++ retryOnce 1)).retries = 2 ∧
      ∀ event ∈ retryOnce 0 ++ [.move 0 (.finish (.ended (.status 503)))] ++ retryOnce 1,
        event.failing = true := by refine ⟨by decide, all_eq_true.mp rfl⟩

end System

end Aioduct.Retry
