import Aioduct.Http.Uri

/-!
# The retry budget

`retry.rs` and `client/replay.rs`: a bucket of tokens that any number of requests share, and the
state in which a request reserves an attempt. Delays are left out.
-/

namespace Aioduct.Retry

open Wire Http

structure RetryBudget where
  tokens : Nat
  maxTokens : Nat
  depositAmount : Nat
  tokens_le : tokens ≤ maxTokens

namespace RetryBudget

def new (maxTokens depositPerSuccess : Nat) : RetryBudget where
  tokens := maxTokens
  maxTokens := maxTokens
  depositAmount := depositPerSuccess
  tokens_le := Nat.le_refl _

variable (self : RetryBudget) (tokens : Nat)

/-- The bucket with so many tokens, but no more than it can hold. -/
def fill : RetryBudget where
  tokens := min tokens self.maxTokens
  maxTokens := self.maxTokens
  depositAmount := self.depositAmount
  tokens_le := Nat.min_le_right _ _

def tryWithdraw : Option RetryBudget :=
  if 0 < self.tokens then some (self.fill (self.tokens - 1)) else none

def deposit : RetryBudget := self.fill (self.tokens + self.depositAmount)

def refund : RetryBudget := self.fill (self.tokens + 1)

@[simp] lemma fill_tokens : (self.fill tokens).tokens = min tokens self.maxTokens := rfl

lemma tryWithdraw_eq_some {self budget : RetryBudget} (h : self.tryWithdraw = some budget) :
    self.tokens = budget.tokens + 1 ∧ budget = self.fill (self.tokens - 1) := by
  unfold tryWithdraw at h
  split at h
  · cases h
    have hle := self.tokens_le
    refine ⟨?_, rfl⟩
    rw [fill_tokens]
    omega
  · cases h

end RetryBudget

/-- An error of an attempt, as far as it decides on a retry. -/
inductive SendError
  | io
  | hyper
  | timeout
  | connectTimeout
  | readTimeout
  /-- An error at an address, with an error of the client or another one inside. -/
  | remoteAddr (source : Option SendError)
  | other

inductive Outcome
  | status (status : StatusCode)
  | error (error : SendError)

structure RetryContext where
  outcome : Outcome
  method : Method
  attempt : Nat
  maxRetries : Nat

inductive RetryDecision
  | retry
  | doNotRetry
  | useDefault

structure RetryConfig where
  maxRetries : Nat := 3
  retryOnStatus : Bool := true
  classifier : Option (RetryContext → RetryDecision) := none

def isRetryableError : SendError → Bool
  | .io | .hyper | .timeout | .connectTimeout | .readTimeout => true
  | .remoteAddr (some source) => isRetryableError source
  | .remoteAddr none | .other => false

def isRetryableStatus (status : StatusCode) : Bool :=
  (500 ≤ status && status < 600) || status == 408 || status == 425 || status == 429

def isIdempotent (method : Method) : Bool :=
  [ascii "GET", ascii "HEAD", ascii "PUT", ascii "DELETE", ascii "OPTIONS",
    ascii "TRACE"].contains method.bytes

variable (self : RetryConfig) (outcome : Outcome)

/-- `classify_status` and `classify_error`. -/
def RetryConfig.classify (method : Method) (attempt : Nat) : RetryDecision :=
  match self.classifier with
  | some f => f ⟨outcome, method, attempt, self.maxRetries⟩
  | none => .useDefault

def RetryConfig.defaultShouldRetry (method : Method) : Bool :=
  match outcome with
  | .status status => self.retryOnStatus && isRetryableStatus status && isIdempotent method
  | .error error => isRetryableError error && isIdempotent method

def RetryConfig.shouldRetry (method : Method) (attempt : Nat) : Bool :=
  match self.classify outcome method attempt with
  | .retry => true
  | .doNotRetry => false
  | .useDefault => self.defaultShouldRetry outcome method

inductive BodyReplayability
  | empty
  | replayable
  | oneShot
  deriving DecidableEq

def BodyReplayability.canReproduce (self : BodyReplayability) : Bool := self != .oneShot

/-- What of a request that was sent is kept for sending it again. -/
structure FinalizedRequestSnapshot where
  bodyReplayability : BodyReplayability

/-- The state that a request shares with its attempts. A token is withdrawn while the answer to an
authentication challenge is prepared (`pendingRetryEligibility`) or an attempt is reserved
(`pendingRetryReservation`). -/
structure FinalizedRequestState where
  method : Method
  body : BodyReplayability
  snapshot : Option FinalizedRequestSnapshot
  pendingReplay : Option FinalizedRequestSnapshot
  retryAttempt : Nat
  pendingRetryEligibility : Bool
  pendingRetryReservation : Option Nat
  maxRetries : Nat
  retryBudgetDenied : Bool
  exclusive : pendingRetryEligibility = true → pendingRetryReservation = none
  reserved : pendingReplay.isSome = true → pendingRetryReservation.isSome = true

namespace FinalizedRequestState

def new (method : Method) (body : BodyReplayability) (maxRetries : Nat) :
    FinalizedRequestState where
  method := method
  body := body
  snapshot := none
  pendingReplay := none
  retryAttempt := 0
  pendingRetryEligibility := false
  pendingRetryReservation := none
  maxRetries := maxRetries
  retryBudgetDenied := false
  exclusive := by simp
  reserved := by simp

variable (self : FinalizedRequestState)

def recordFinalized (method : Method) (body : BodyReplayability)
    (snapshot : Option FinalizedRequestSnapshot) : FinalizedRequestState :=
  { self with method, body, snapshot }

def clearReplaySnapshot : FinalizedRequestState := { self with snapshot := none }

def replayBody : BodyReplayability :=
  (self.snapshot.map FinalizedRequestSnapshot.bodyReplayability).getD self.body

def holdsNothing : Bool := !self.pendingRetryEligibility && self.pendingRetryReservation.isNone

lemma holdsNothing_iff :
    self.holdsNothing ↔
      self.pendingRetryEligibility = false ∧ self.pendingRetryReservation = none := by
  simp [holdsNothing]

/-- The common tests of `try_start_retry` and `RetryEligibilityPermit::try_new`: nothing is reserved
yet and the attempts are not used up. -/
def mayReserve : Bool := self.holdsNothing && self.retryAttempt < self.maxRetries

def denied (retryBudgetDenied : Bool) : FinalizedRequestState := { self with retryBudgetDenied }

def reserve (snapshot : FinalizedRequestSnapshot) (h : self.holdsNothing = true) :
    FinalizedRequestState :=
  { self with
    retryAttempt := self.retryAttempt + 1
    pendingRetryReservation := some (self.retryAttempt + 1)
    pendingReplay := some snapshot
    exclusive := by
      intro hpend
      rw [(self.holdsNothing_iff.mp h).1] at hpend
      cases hpend
    reserved := by simp }

variable (budget : RetryBudget)

/-- `try_start_configured_retry`: whether an attempt was reserved. -/
def tryStartConfiguredRetry : Bool × FinalizedRequestState × RetryBudget :=
  match self.snapshot with
  | none => (false, self, budget)
  | some snapshot =>
    if h : self.mayReserve = true then
      match budget.tryWithdraw with
      | none => (false, self.denied true, budget)
      | some budget =>
        (true, (self.denied false).reserve snapshot (Bool.and_eq_true_iff.mp h).1, budget)
    else (false, self.denied false, budget)

/-- `RetryEligibilityPermit::try_new`. -/
def tryNewPermit : FinalizedRequestState × RetryBudget :=
  if h : self.mayReserve = true then
    match budget.tryWithdraw with
    | none => (self.denied true, budget)
    | some budget =>
      ({ self.denied false with
          pendingRetryEligibility := true
          exclusive := fun _ => (self.holdsNothing_iff.mp (Bool.and_eq_true_iff.mp h).1).2 },
        budget)
  else (self.denied false, budget)

/-- `RetryEligibilityPermit::commit`, of a permit that is held. -/
def commitPermit : FinalizedRequestState :=
  { self with
    pendingRetryEligibility := false
    retryAttempt := self.retryAttempt + 1
    pendingRetryReservation := some (self.retryAttempt + 1)
    exclusive := by simp
    reserved := by simp }

/-- The drop of a permit that was not committed. -/
def dropPermit : FinalizedRequestState × RetryBudget :=
  if self.pendingRetryEligibility then
    ({ self with
        pendingRetryEligibility := false
        retryBudgetDenied := false
        exclusive := by simp }, budget.refund)
  else (self, budget)

/-- `commit_retry_reservation`, and `take_pending_replay` where a replay is pending. -/
def commitRetryReservation : FinalizedRequestState :=
  { self with
    pendingReplay := none
    pendingRetryReservation := none
    exclusive := by simp
    reserved := by simp }

/-- The drop of the state: what is withdrawn and not used goes back. -/
def drop : RetryBudget :=
  let budget := if self.pendingRetryEligibility then budget.refund else budget
  if self.pendingRetryReservation.isSome then budget.refund else budget

end FinalizedRequestState

end Aioduct.Retry
