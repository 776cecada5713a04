import CallGuard.Cancel.Reason
import CallGuard.Labels

/-!
# How a guarded call fails

A call fails for a reason of the layers around it (a **control signal**: no node,
an open breaker, a rate limit, a cancellation) or with the error of the service
behind them. Each error has a text and an HTTP-style status code.
-/

namespace CallGuard

namespace StatusCode

/-- Malformed or invalid request. -/
def badRequest : UInt16 := 400
/-- Missing or invalid credentials. -/
def unauthorized : UInt16 := 401
/-- The caller is not permitted. -/
def forbidden : UInt16 := 403
/-- The resource does not exist. -/
def notFound : UInt16 := 404
/-- Conflicting state. -/
def conflict : UInt16 := 409
/-- Quota exhausted. -/
def tooManyRequests : UInt16 := 429
/-- The caller went away before a response. -/
def clientClosedRequest : UInt16 := 499
/-- Unclassified failure. -/
def internal : UInt16 := 500
/-- The service is unavailable. -/
def serviceUnavailable : UInt16 := 503
/-- The deadline expired. -/
def gatewayTimeout : UInt16 := 504

/-- All codes with a name, ascending. -/
def all : List UInt16 :=
  [badRequest, unauthorized, forbidden, notFound, conflict, tooManyRequests, clientClosedRequest,
    internal, serviceUnavailable, gatewayTimeout]

end StatusCode

/-- An application error: a status code, a stable reason for machines, a message for people, and details. -/
structure StatusError where
  code : UInt16
  reason : String
  message : String
  metadata : Labels
deriving DecidableEq

namespace StatusError

/-- A status error without details. -/
def new (code : UInt16) (reason message : String) : StatusError := ⟨code, reason, message, .empty⟩

/-- The same error with other details. -/
def withMetadata (e : StatusError) (metadata : Labels) : StatusError := { e with metadata }

/-- **The request itself is at fault**, and repeating it will not help. -/
def isClientError (e : StatusError) : Bool := 400 ≤ e.code && e.code < 500

/-- Details in order of their names, between braces; nothing if there are none. -/
def metadataText (l : Labels) : String :=
  if l.isEmpty then ""
  else " metadata = \x7b" ++ ", ".intercalate (l.entries.map fun e => e.1 ++ ": " ++ e.2) ++ "\x7d"

/-- The text of a status error. -/
def text (e : StatusError) : String :=
  "code = " ++ toString e.code.toNat ++ " reason = " ++ e.reason ++ " message = " ++ e.message ++
    metadataText e.metadata

end StatusError

/-- Why a guarded call failed: there was no node left to pick, the breaker of a name rejected it, the limiter denied
it for a key, it was cancelled or its deadline passed, the service answered with a coded error or failed in another
way, or a setting was rejected. -/
inductive CallError where
  | noAvailableNode
  | circuitOpen (name : String)
  | rateLimited (key : String) (retryAfterMs : Nat)
  | cancelled (reason : CancelReason)
  | status (e : StatusError)
  | call (message : String)
  | invalidConfig (field reason : String)
deriving DecidableEq

namespace CallError

/-- The kind of an error. -/
def kind : CallError → String
  | noAvailableNode => "NoAvailableNode"
  | circuitOpen _ => "CircuitOpen"
  | rateLimited _ _ => "RateLimited"
  | cancelled _ => "Cancelled"
  | status _ => "Status"
  | call _ => "Call"
  | invalidConfig _ _ => "InvalidConfig"

/-- The text of an error. -/
def message : CallError → String
  | noAvailableNode => "no available node"
  | circuitOpen name => "circuit breaker " ++ name ++ " is open"
  | rateLimited key ms => "rate limited for key " ++ key ++ ", retry after " ++ toString ms ++ "ms"
  | cancelled reason => "call cancelled: " ++ reason.name
  | status e => "status error: " ++ e.text
  | call text => text
  | invalidConfig field reason => "invalid config " ++ field ++ ": " ++ reason

/-- The status code that describes an error to a remote caller. -/
def code : CallError → UInt16
  | noAvailableNode => StatusCode.serviceUnavailable
  | circuitOpen _ => StatusCode.serviceUnavailable
  | rateLimited _ _ => StatusCode.tooManyRequests
  | cancelled .deadlineExceeded => StatusCode.gatewayTimeout
  | cancelled _ => StatusCode.clientClosedRequest
  | status e => e.code
  | call _ => StatusCode.internal
  | invalidConfig _ _ => StatusCode.internal

/-- **Control signals** come from the layers around a call and say nothing about the service. -/
def isControlSignal : CallError → Bool
  | noAvailableNode => true
  | circuitOpen _ => true
  | rateLimited _ _ => true
  | cancelled _ => true
  | _ => false

/-- True for an error of the service that blames the request. -/
def isClientError : CallError → Bool
  | status e => e.isClientError
  | _ => false

/-- No error is both a control signal and the caller's fault. -/
theorem not_isClientError_of_isControlSignal {e : CallError} (h : e.isControlSignal = true) :
    e.isClientError = false := by
  cases e <;> first | rfl | cases h

end CallError

end CallGuard
