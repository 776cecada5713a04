/-!
# Decisions of a limiter
-/

namespace CallGuard

/-- What a limiter says to one request: it may proceed, and so many more after it at once, or it is denied, with a
wait in milliseconds that is never zero. -/
inductive Decision where
  | allowed (remaining : Nat)
  | limited (retryAfterMs : Nat)
deriving DecidableEq, Repr

namespace Decision

/-- True if the request may proceed. -/
def isAllowed : Decision → Bool
  | allowed _ => true
  | limited _ => false

/-- What is left of the quota, or how long to wait. -/
def info : Decision → Nat
  | allowed remaining => remaining
  | limited retryAfterMs => retryAfterMs

end Decision

end CallGuard
