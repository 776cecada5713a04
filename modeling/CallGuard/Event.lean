import CallGuard.Balancer.Kind
import CallGuard.Breaker.Circuit
import CallGuard.Error
import CallGuard.Text.Quoted
import CallGuard.Time.Span

/-!
# Log events

Everything the layers report, as data: an event has a level, a message and named
fields.
-/

namespace CallGuard

/-- How important an event is. -/
inductive Level where
  | debug
  | info
  | warn
  | error
deriving DecidableEq, Repr

/-- The name of a level. -/
def Level.name : Level → String
  | debug => "DEBUG"
  | info => "INFO"
  | warn => "WARN"
  | error => "ERROR"

/-- Something that a layer reports: a breaker moved or rejected a call, a limiter dropped idle keys, denied a call
or is near its limit, an outcome is retried or the last attempt failed, nodes were replaced, none was there or a
filter left none, a pipeline was built. -/
inductive Event where
  | breakerMoved (name : String) (transition : Transition)
  | breakerRejected (name : String) (circuit : Circuit) (path : String)
  | keysSwept (evicted live : Nat)
  | rateLimited (key path : String) (waitMs : Nat)
  | limitNear (key path : String) (remaining : Nat)
  | retrying (attempt maxAttempts : Nat) (delay : Span) (path : String) (error : Option CallError)
  | retryFailed (attempts : Nat) (path : String) (error : CallError)
  | nodesUpdated (oldCount newCount : Nat)
  | noNodes (path : String)
  | allFiltered (path : String) (step : Nat)
  | pipelineBuilt (breaker : String) (balancer : BalancerKind) (attempts : Nat)
deriving DecidableEq

/-- The value of a field: a number, or a text that a line shows as it is or between quotes. -/
inductive FieldValue where
  | count (n : Nat)
  | plain (s : String)
  | quoted (s : String)
deriving DecidableEq

/-- The value in a line. -/
def FieldValue.lineText : FieldValue → String
  | count n => toString n
  | plain s => s
  | quoted s => CallGuard.quoted s

namespace Event

/-- The level of an event. -/
def level : Event → Level
  | breakerMoved _ _ => .info
  | breakerRejected _ _ _ => .warn
  | keysSwept _ _ => .debug
  | rateLimited _ _ _ => .warn
  | limitNear _ _ _ => .debug
  | retrying _ _ _ _ _ => .info
  | retryFailed _ _ _ => .error
  | nodesUpdated _ _ => .debug
  | noNodes _ => .debug
  | allFiltered _ _ => .debug
  | pipelineBuilt _ _ _ => .debug

/-- The message of an event. -/
def message : Event → String
  | breakerMoved _ _ => "circuit breaker state changed"
  | breakerRejected _ _ _ => "circuit breaker open, request rejected"
  | keysSwept _ _ => "rate limiter swept idle keys"
  | rateLimited _ _ _ => "rate limited"
  | limitNear _ _ _ => "rate limit approaching"
  | retrying _ _ _ _ _ => "retrying request"
  | retryFailed _ _ _ => "retry failed"
  | nodesUpdated _ _ => "selector nodes updated"
  | noNodes _ => "no nodes to select from"
  | allFiltered _ _ => "filters removed every node"
  | pipelineBuilt _ _ _ => "resilience pipeline built"

/-- The fields of an event. -/
def fields : Event → List (String × FieldValue)
  | breakerMoved name t =>
    [("name", .plain name), ("from", .plain t.source.label), ("to", .plain t.target.label)]
  | breakerRejected name circuit path =>
    [("name", .plain name), ("state", .plain circuit.label), ("path", .quoted path)]
  | keysSwept evicted live => [("evicted", .count evicted), ("live", .count live)]
  | rateLimited key path waitMs =>
    [("key", .plain key), ("path", .quoted path), ("wait_ms", .count waitMs)]
  | limitNear key path remaining =>
    [("key", .plain key), ("path", .quoted path), ("remaining", .count remaining)]
  | retrying attempt maxAttempts delay path _ =>
    [("attempt", .count attempt), ("max_attempts", .count maxAttempts), ("delay", .plain delay.text),
      ("path", .quoted path)]
  | retryFailed attempts path error =>
    [("attempts", .count attempts), ("path", .quoted path), ("error", .plain error.message)]
  | nodesUpdated oldCount newCount => [("old", .count oldCount), ("new", .count newCount)]
  | noNodes path => [("path", .quoted path)]
  | allFiltered path step => [("path", .quoted path), ("step", .count step)]
  | pipelineBuilt breaker balancer attempts =>
    [("breaker", .plain breaker), ("balancer", .plain balancer.label), ("attempts", .count attempts)]

/-- What a line shows after the fields of an event: the error that led to another attempt. -/
def lineOnlyFields : Event → List (String × FieldValue)
  | retrying _ _ _ _ (some e) => [("error", .quoted e.message)]
  | _ => []

/-- The lines that an event writes to a log: message and fields on one line, unless a plain field has
line breaks of its own. -/
def lines (e : Event) : List String :=
  let fields := (e.fields ++ e.lineOnlyFields).map fun f => " " ++ f.1 ++ "=" ++ f.2.lineText
  (e.message ++ String.join fields).splitOn "\n"

end Event

/-- True if a text occurs in a line. -/
def occursIn (text : List Char) : List Char → Bool
  | [] => text.isEmpty
  | c :: rest => text.isPrefixOf (c :: rest) || occursIn text rest

/-- Log lines that contain a text. -/
def linesContaining (events : List Event) (text : String) : List String :=
  (events.flatMap Event.lines).filter fun line => occursIn text.toList line.toList

end CallGuard
