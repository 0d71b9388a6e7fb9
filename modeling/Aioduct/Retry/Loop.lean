import Aioduct.Retry.Budget

/-!
# Requests that share a budget

`send_with_retry` of `request/request_send.rs`: any number of requests that make their moves in any
order. A move uses the bucket at most once, so that the moves are atomic.
-/

namespace Aioduct.Retry

open Http

structure Request where
  config : RetryConfig
  state : FinalizedRequestState

inductive Attempt
  /-- A response, or an error. -/
  | ended (outcome : Outcome)
  /-- The attempt failed and a stored response with this status stands in for it. -/
  | stale (status : StatusCode)

namespace Attempt

def outcome : Attempt → Outcome
  | .ended outcome => outcome
  | .stale status => .status status

/-- The attempt has failed, and such that it could be retried. -/
def failing : Attempt → Bool
  | .ended (.status status) => isRetryableStatus status
  | .ended (.error error) => isRetryableError error
  | .stale _ => true

end Attempt

inductive Move
  /-- The request of the attempt is known, with what is kept of it. -/
  | finalize (method : Method) (body : BodyReplayability)
      (snapshot : Option FinalizedRequestSnapshot)
  /-- Another hop of the attempt is prepared. -/
  | clear
  /-- An authentication challenge that can be answered. -/
  | challenge
  /-- The challenged response has been read to its end, or not. -/
  | drained (ok : Bool)
  /-- The answer to the challenge is sent. -/
  | answer
  /-- The attempt has ended. -/
  | finish (attempt : Attempt)
  /-- The reserved attempt is sent. -/
  | dispatch
  /-- The caller gives the request up. -/
  | abandon

/-- The request after a move, if it has not returned, the bucket, and the retries made. -/
structure Moved where
  request : Option Request
  budget : RetryBudget
  retries : Nat := 0

namespace Request

variable (self : Request) (outcome : Outcome) (budget : RetryBudget)

/-- The loop returns. A response puts tokens into the bucket unless the bucket has just denied one;
then the state is dropped. -/
def leave : Moved where
  request := none
  budget :=
    match outcome with
    | .status _ =>
      self.state.drop (if self.state.retryBudgetDenied then budget else budget.deposit)
    | .error _ => self.state.drop budget

def canRetry : Bool :=
  self.state.snapshot.isSome && self.state.replayBody.canReproduce &&
    self.config.shouldRetry outcome self.state.method self.state.retryAttempt

def finish : Moved :=
  if self.canRetry outcome then
    let (started, state, budget) := self.state.tryStartConfiguredRetry budget
    if started then ⟨some { self with state }, budget, 0⟩
    else leave { self with state } outcome budget
  else self.leave outcome budget

def isError : Outcome → Bool
  | .status _ => false
  | .error _ => true

/-- The attempt is under way; before a challenge is answered it can end with an error only. -/
def canFinish : Bool :=
  self.state.holdsNothing ||
    (isError outcome && !self.state.pendingRetryEligibility && self.state.pendingReplay.isNone)

/-- A move that the request cannot make now changes nothing. -/
def move : Move → Moved
  | .finalize method body snapshot =>
    ⟨some { self with state := self.state.recordFinalized method body snapshot }, budget, 0⟩
  | .clear => ⟨some { self with state := self.state.clearReplaySnapshot }, budget, 0⟩
  | .challenge =>
    if self.state.holdsNothing then
      let (state, budget) := self.state.tryNewPermit budget
      ⟨some { self with state }, budget, 0⟩
    else ⟨some self, budget, 0⟩
  | .drained ok =>
    if self.state.pendingRetryEligibility then
      if ok then ⟨some { self with state := self.state.commitPermit }, budget, 0⟩
      else
        let (state, budget) := self.state.dropPermit budget
        ⟨some { self with state }, budget, 0⟩
    else ⟨some self, budget, 0⟩
  | .answer =>
    if self.state.pendingRetryReservation.isSome && self.state.pendingReplay.isNone then
      ⟨some { self with state := self.state.commitRetryReservation }, budget, 0⟩
    else ⟨some self, budget, 0⟩
  | .finish attempt =>
    if self.canFinish attempt.outcome then self.finish attempt.outcome budget
    else ⟨some self, budget, 0⟩
  | .dispatch =>
    if self.state.pendingReplay.isSome then
      ⟨some { self with state := self.state.commitRetryReservation }, budget, 1⟩
    else ⟨some self, budget, 0⟩
  | .abandon => ⟨none, self.state.drop budget, 0⟩

end Request

/-- The requests in the order in which they were started; `none` has returned. -/
structure System where
  budget : RetryBudget
  requests : List (Option Request) := []
  retries : Nat := 0

inductive Event
  | start (config : RetryConfig) (method : Method) (body : BodyReplayability)
  | move (id : Nat) (move : Move)

namespace System

def act (s : System) (id : Nat) (move : Move) : System :=
  match s.requests[id]? with
  | some (some request) =>
    let moved := request.move s.budget move
    { budget := moved.budget
      requests := s.requests.set id moved.request
      retries := s.retries + moved.retries }
  | _ => s

def step (s : System) : Event → System
  | .start config method body =>
    { s with
      requests := s.requests ++ [some ⟨config, .new method body config.maxRetries⟩] }
  | .move id move => s.act id move

def run (s : System) (events : List Event) : System := events.foldl step s

end System

end Aioduct.Retry
