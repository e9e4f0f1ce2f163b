import Mathlib

/-!
# The circuit breaker

One breaker guards the origin.  It counts consecutive failures while closed,
rejects everything for `openMs` once open, and then lets a bounded number of
probes through.  Every operation holds the breaker's mutex, so each is one step;
the clock readings they take are parameters.
-/

namespace EdgeCache

/-- The constructor parameters of `CircuitBreaker`. -/
structure BreakerLimits where
  failureThreshold : ℤ
  openMs : ℤ
  halfOpenMaxProbes : ℤ
  deriving DecidableEq

/-- `CircuitBreaker::State`. -/
inductive BreakerState
  | closed
  | opened
  | halfOpen
  deriving DecidableEq

/-- `CircuitBreaker`. -/
structure CircuitBreaker where
  state : BreakerState
  consecutiveFailures : ℤ
  halfOpenProbes : ℤ
  openedAt : ℤ
  deriving DecidableEq

namespace CircuitBreaker

/-- A new breaker. -/
def initial : CircuitBreaker where
  state := .closed
  consecutiveFailures := 0
  halfOpenProbes := 0
  openedAt := 0

/-- `allowRequest` at the clock reading `now`, in nanoseconds. -/
def allowRequest (limits : BreakerLimits) (now : ℤ) (b : CircuitBreaker) :
    Bool × CircuitBreaker :=
  match b.state with
  | .closed => (true, b)
  | .opened =>
      let elapsed := (now - b.openedAt).tdiv 1000000
      if limits.openMs ≤ elapsed then
        (true, { b with state := .halfOpen, halfOpenProbes := 1 })
      else (false, b)
  | .halfOpen =>
      if b.halfOpenProbes < limits.halfOpenMaxProbes then
        (true, { b with halfOpenProbes := b.halfOpenProbes + 1 })
      else (false, b)

/-- `recordSuccess`. -/
def recordSuccess (b : CircuitBreaker) : CircuitBreaker :=
  let b := { b with consecutiveFailures := 0 }
  if b.state ≠ .closed then { b with state := .closed, halfOpenProbes := 0 } else b

/-- `transitionToOpen_`. -/
def transitionToOpen (now : ℤ) (b : CircuitBreaker) : CircuitBreaker :=
  { b with state := .opened, openedAt := now, halfOpenProbes := 0 }

/-- `recordFailure`. -/
def recordFailure (limits : BreakerLimits) (now : ℤ) (b : CircuitBreaker) : CircuitBreaker :=
  if b.state = .halfOpen then b.transitionToOpen now
  else
    let b := { b with consecutiveFailures := b.consecutiveFailures + 1 }
    if b.state = .closed ∧ limits.failureThreshold ≤ b.consecutiveFailures then
      b.transitionToOpen now
    else b

/-- A closed breaker admits every request and is left alone. -/
theorem allowRequest_of_closed {limits : BreakerLimits} {now : ℤ} {b : CircuitBreaker}
    (closed : b.state = .closed) : b.allowRequest limits now = (true, b) := by
  simp [allowRequest, closed]

/-- A success leaves the breaker closed. -/
theorem state_recordSuccess (b : CircuitBreaker) : b.recordSuccess.state = .closed := by
  simp only [recordSuccess]
  split
  · rfl
  · rename_i closed
    exact not_not.mp closed

/-- A success ends every row of failures. -/
theorem consecutiveFailures_recordSuccess (b : CircuitBreaker) :
    b.recordSuccess.consecutiveFailures = 0 := by
  simp only [recordSuccess]
  split <;> rfl

end CircuitBreaker

end EdgeCache
