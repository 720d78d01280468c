import Pingsix.RetrySound

/-!
# The decision to retry

The proxy loop reads the retry flag of every error a callback gives back, so
the flag has to be decided by then. The callbacks decide an undecided one only
where they grant a retry for a failure to connect.
-/

namespace Pingsix

/-! ## The proxy loop -/

/-- A failed attempt, whether its connection was reused, and whether the body can be sent again. -/
structure ProxyAttempt extends Attempt where
  reused : Bool
  replayable : Bool
  deriving DecidableEq, Repr

/-- An attempt of the loop, with the tries before it and what the callback gave back. -/
structure LoopStep where
  tries : Nat
  attempt : ProxyAttempt
  result : Except Overflow AttemptError

namespace LoopStep

/-- The error is given back with a flag the loop can read, and an undecided one became a retry exactly if it ought to. -/
def Decided (step : LoopStep) : Prop :=
  ∃ e, step.result = .ok e ∧ e.retry ≠ .reusedOnly ∧
    (step.attempt.error.retry = .reusedOnly →
      (e.retry = .decided true ↔ step.attempt.reused = true ∧ step.attempt.replayable = true))

end LoopStep

/-! ## What one callback decides -/

end Pingsix
