import CallGuard.Cancel.Scopes
import CallGuard.Labels
import CallGuard.Time.Instant

/-!
# Call contexts

A context travels with every call. It may belong to a cancellation scope, expire
at a deadline and carry values. Contexts are derived from one another: a derived
context keeps what it does not change, and expires no later than its parent.

* `Context.value_withValue`: a value reads back as last written along the derivation.
-/

namespace CallGuard

/-- What travels with a call: the scope by which it can be cancelled and the time at which it expires, if there are
any, and values for keys and log fields. -/
structure Context where
  scope : Option ScopeId
  deadline : Option Instant
  values : Labels
deriving DecidableEq

namespace Context

/-- The value that holds the path of a request. -/
def pathKey : String := "path"

/-- The value that holds the address of the caller. -/
def clientIpKey : String := "client_ip"

/-- A context that never ends and carries nothing. -/
def background : Context := ⟨none, none, .empty⟩

instance : Inhabited Context := ⟨background⟩

/-- The context in a scope of its own. -/
def withScope (c : Context) (scope : ScopeId) : Context := { c with scope := some scope }

/-- The context with a deadline, or with the one it has if that is earlier. -/
def withDeadline (c : Context) (deadline : Instant) : Context :=
  match c.deadline with
  | some existing => { c with deadline := some (if existing < deadline then existing else deadline) }
  | none => { c with deadline := some deadline }

/-- The context with a value. -/
def withValue (c : Context) (name value : String) : Context :=
  { c with values := c.values.insert name value }

/-- A value of the context. -/
def value (c : Context) (name : String) : Option String := c.values.get? name

/-- The path of the request, for log fields. -/
def path (c : Context) : String := (c.value pathKey).getD "unknown"

/-- Why the context's scope was cancelled, if it was. -/
def cancelled? (c : Context) (scopes : Scopes) : Option CancelReason := c.scope.bind scopes.reason?

/-- **Why the context is over** at a time, if it is: the reason of its scope, or else its deadline. -/
def err (c : Context) (scopes : Scopes) (now : Int) : Option CancelReason :=
  match c.cancelled? scopes, c.deadline with
  | some reason, _ => some reason
  | none, some deadline => if deadline.nanos ≤ now then some .deadlineExceeded else none
  | none, none => none

theorem value_withValue (c : Context) (name value other : String) :
    (c.withValue name value).value other = if other = name then some value else c.value other :=
  c.values.get?_insert name value other

end Context

end CallGuard
