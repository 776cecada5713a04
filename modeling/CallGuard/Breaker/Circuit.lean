/-!
# The state of a circuit
-/

namespace CallGuard

/-- Where a circuit breaker stands: calls pass, calls are rejected, or a limited number of trial calls pass. -/
inductive Circuit where
  | closed
  | opened
  | halfOpen
deriving DecidableEq, Repr

namespace Circuit

/-- The state in messages. -/
def label : Circuit → String
  | closed => "CLOSED"
  | opened => "OPEN"
  | halfOpen => "HALF_OPEN"

/-- The state as a value of a configuration. -/
def name : Circuit → String
  | closed => "Closed"
  | opened => "Open"
  | halfOpen => "HalfOpen"

/-- All states by name. -/
def choices : List (String × Circuit) := [closed, opened, halfOpen].map fun c => (c.name, c)

end Circuit

/-- A change of a circuit's state, from the one left to the one entered. -/
structure Transition where
  source : Circuit
  target : Circuit
deriving DecidableEq, Repr

end CallGuard
