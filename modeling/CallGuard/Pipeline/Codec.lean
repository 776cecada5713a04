import CallGuard.Json.Record
import CallGuard.Pipeline.Config

/-!
# Settings as JSON

How every kind of settings, and the nodes and instances of discovery, are written
to JSON and read back. Spans are whole milliseconds. A field of settings that is
missing takes its default; the parameters of a limiter's rule are all required.
-/

namespace CallGuard

/-! ## Breaker -/

/-- A breaker's settings as an object. -/
def Breaker.Config.encode (c : Breaker.Config) : Json :=
  .obj [("name", .str c.name), ("threshold", .int c.threshold.toNat), ("timeout", .ofSpan c.timeout),
    ("max_requests", .int c.maxRequests.toNat)]

/-- A breaker's settings from JSON. -/
def Breaker.Config.decode? (j : Json) : Option Breaker.Config := do
  let r ← j.record? ["name", "threshold", "timeout", "max_requests"]
  let d := Breaker.Config.standard
  return {
    name := ← r.optional "name" d.name Json.text?
    threshold := ← r.optional "threshold" d.threshold Json.word32?
    timeout := ← r.optional "timeout" d.timeout Json.span?
    maxRequests := ← r.optional "max_requests" d.maxRequests Json.word32? }

/-! ## Limiter -/

/-- A rule as an object whose `type` names it. -/
def Limiter.Algorithm.encode : Limiter.Algorithm → Json
  | .tokenBucket rate capacity =>
    .obj [("type", .str "token_bucket"), ("rate", .ofFloat rate), ("capacity", .ofFloat capacity)]
  | .slidingWindow rate window =>
    .obj [("type", .str "sliding_window"), ("rate", .int rate.toNat), ("window", .ofSpan window)]
  | .cellRate rate burst =>
    .obj [("type", .str "gcra"), ("rate", .ofFloat rate), ("burst", .int burst.toNat)]

/-- The name of a rule and the document that holds its parameters: an object without its `type`, which
comes once, or an array without its first item. -/
def Limiter.Algorithm.tagged? : Json → Option (String × Json)
  | .obj members =>
    match members.filter fun m => m.1 == "type" with
    | [(_, .str tag)] => some (tag, .obj (members.filter fun m => m.1 != "type"))
    | _ => none
  | .arr (.str tag :: items) => some (tag, .arr items)
  | _ => none

/-- The parameters of the rule of a name. -/
def Limiter.Algorithm.ofTag? (tag : String) (parameters : Json) : Option Limiter.Algorithm :=
  if tag == "token_bucket" then do
    let r ← parameters.record? ["rate", "capacity"]
    return .tokenBucket (← r.required "rate" Json.float?) (← r.required "capacity" Json.float?)
  else if tag == "sliding_window" then do
    let r ← parameters.record? ["rate", "window"]
    return .slidingWindow (← r.required "rate" Json.word32?) (← r.required "window" Json.span?)
  else if tag == "gcra" then do
    let r ← parameters.record? ["rate", "burst"]
    return .cellRate (← r.required "rate" Json.float?) (← r.required "burst" Json.word32?)
  else none

/-- A rule from JSON. Since its name may come last, all of it has to be readable, members that are no
parameters included. -/
def Limiter.Algorithm.decode? (j : Json) : Option Limiter.Algorithm := do
  let (tag, parameters) ← if j.isReadable then tagged? j else none
  ofTag? tag parameters

/-- A limiter's settings as an object. -/
def Limiter.Config.encode (c : Limiter.Config) : Json :=
  .obj [("algorithm", c.algorithm.encode), ("cleanup_interval", .ofSpan c.cleanupInterval),
    ("inactive_threshold", .ofSpan c.inactiveThreshold)]

/-- A limiter's settings from JSON. -/
def Limiter.Config.decode? (j : Json) : Option Limiter.Config := do
  let r ← j.record? ["algorithm", "cleanup_interval", "inactive_threshold"]
  let d := Limiter.Config.standard
  return {
    algorithm := ← r.optional "algorithm" d.algorithm Limiter.Algorithm.decode?
    cleanupInterval := ← r.optional "cleanup_interval" d.cleanupInterval Json.span?
    inactiveThreshold := ← r.optional "inactive_threshold" d.inactiveThreshold Json.span? }

/-! ## Retry -/

/-- A retry's settings as an object. -/
def Retry.Config.encode (c : Retry.Config) : Json :=
  .obj [("attempts", .int c.attempts.toNat), ("base_delay", .ofSpan c.baseDelay),
    ("backoff", .bool c.backoff), ("max_delay", .ofSpan c.maxDelay)]

/-- A retry's settings from JSON. -/
def Retry.Config.decode? (j : Json) : Option Retry.Config := do
  let r ← j.record? ["attempts", "base_delay", "backoff", "max_delay"]
  let d := Retry.Config.standard
  return {
    attempts := ← r.optional "attempts" d.attempts Json.word32?
    baseDelay := ← r.optional "base_delay" d.baseDelay Json.span?
    backoff := ← r.optional "backoff" d.backoff Json.bool?
    maxDelay := ← r.optional "max_delay" d.maxDelay Json.span? }

/-! ## Selector -/

/-- A balancing strategy by name. -/
def BalancerKind.encode (k : BalancerKind) : Json := .str k.name

/-- A balancing strategy from JSON. -/
def BalancerKind.decode? (j : Json) : Option BalancerKind := j.choice? choices

/-- A selector's settings as an object. -/
def Selector.Config.encode (c : Selector.Config) : Json := .obj [("balancer", c.balancer.encode)]

/-- A selector's settings from JSON. -/
def Selector.Config.decode? (j : Json) : Option Selector.Config := do
  let r ← j.record? ["balancer"]
  return { balancer := ← r.optional "balancer" default BalancerKind.decode? }

/-! ## The whole pipeline -/

/-- All settings as an object of objects. -/
def Pipeline.Config.encode (c : Pipeline.Config) : Json :=
  .obj [("selector", c.selector.encode), ("breaker", c.breaker.encode), ("limiter", c.limiter.encode),
    ("retry", c.retry.encode)]

/-- All settings from JSON. -/
def Pipeline.Config.decode? (j : Json) : Option Pipeline.Config := do
  let r ← j.record? ["selector", "breaker", "limiter", "retry"]
  return {
    selector := ← r.optional "selector" default Selector.Config.decode?
    breaker := ← r.optional "breaker" default Breaker.Config.decode?
    limiter := ← r.optional "limiter" default Limiter.Config.decode?
    retry := ← r.optional "retry" default Retry.Config.decode? }

/-! ## States, nodes and instances -/

/-- A breaker's state by name. -/
def Circuit.encode (c : Circuit) : Json := .str c.name

/-- A breaker's state from JSON. -/
def Circuit.decode? (j : Json) : Option Circuit := j.choice? choices

/-- A node as an object. -/
def Node.encode (n : Node) : Json :=
  .obj [("id", .str n.id), ("address", .str n.address), ("metadata", .ofLabels n.metadata),
    ("weight", .int n.weight.toInt)]

/-- A node from JSON. Labels and weight may be missing. -/
def Node.decode? (j : Json) : Option Node := do
  let r ← j.record? ["id", "address", "metadata", "weight"]
  return {
    id := ← r.required "id" Json.text?
    address := ← r.required "address" Json.text?
    metadata := ← r.optional "metadata" .empty Json.labels?
    weight := ← r.optional "weight" defaultWeight Json.signed64? }

/-- A service instance as an object. -/
def ServiceInstance.encode (i : ServiceInstance) : Json :=
  .obj [("id", .str i.id), ("name", .str i.name), ("version", .str i.version),
    ("metadata", .ofLabels i.metadata), ("endpoints", .arr (i.endpoints.map .str))]

/-- A service instance from JSON. Labels and endpoints may be missing. -/
def ServiceInstance.decode? (j : Json) : Option ServiceInstance := do
  let r ← j.record? ["id", "name", "version", "metadata", "endpoints"]
  return {
    id := ← r.required "id" Json.text?
    name := ← r.required "name" Json.text?
    version := ← r.required "version" Json.text?
    metadata := ← r.optional "metadata" .empty Json.labels?
    endpoints := ← r.optional "endpoints" [] (Json.list? Json.text?) }

end CallGuard
