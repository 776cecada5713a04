import CallGuard.Breaker.Layer
import CallGuard.Limiter.Layer
import CallGuard.Retry.Layer
import CallGuard.Simulation.Caller
import CallGuard.Simulation.Script

/-!
# A test bench for layers

A bench holds any number of breakers and limiters, counts the calls that reach the
service and keeps a trace. Layers are described as data and installed one by one:
each breaker and limiter gets a place of its own.
-/

namespace CallGuard

/-- The state of a test bench: clocks and log, breakers and limiters in the order in which they were installed, the
calls of the service since the count was last cleared, and what layers and service have noted. -/
structure Bench where
  env : Env
  breakers : Array WatchedBreaker
  limiters : Array Limiter
  calls : Nat
  trace : Array String

namespace Bench

/-- A bench without layers. -/
def start : Bench := ⟨.start, #[], #[], 0, #[]⟩

instance : Inhabited Bench := ⟨start⟩

/-- The surroundings. -/
def envCell : Cell Bench Env := ⟨env, fun b env => { b with env }⟩

/-- The number of calls. -/
def callsCell : Cell Bench Nat := ⟨calls, fun b calls => { b with calls }⟩

/-- The breaker at a place. -/
def breakerCell (i : Nat) : Cell Bench WatchedBreaker :=
  ⟨fun b => (b.breakers[i]?).getD default,
    fun b w => { b with breakers := b.breakers.setIfInBounds i w }⟩

/-- The limiter at a place. -/
def limiterCell (i : Nat) (fallback : Limiter) : Cell Bench Limiter :=
  ⟨fun b => (b.limiters[i]?).getD fallback,
    fun b l => { b with limiters := b.limiters.setIfInBounds i l }⟩

/-- Adds a note to the trace. -/
def note (text : String) : Run Bench Unit := modify fun b => { b with trace := b.trace.push text }

/-! ## Layers -/

/-- Which outcomes a retry layer retries. A reply may say that the service is busy, and a request that it may be
repeated, for which the standard rule holds then. -/
inductive RetryRule where
  | standard
  | always
  | never
  | anyError
  | busy
  | idempotent
deriving DecidableEq, Repr

/-- The predicate of a rule. -/
def RetryRule.predicate : RetryRule → Retry.Predicate String String
  | .standard => Retry.retryErrors
  | .always => fun _ _ _ => true
  | .never => fun _ _ _ => false
  | .anyError => fun _ _ reply => match reply with
    | .ok _ => false
    | .error _ => true
  | .busy => fun _ _ reply => match reply with
    | .ok text => text == "busy"
    | .error _ => false
  | .idempotent => fun ctx req reply =>
    (ctx.path == "/get" || "idem".toList.isPrefixOf req.toList) && Retry.retryErrors ctx req reply

/-- Which key a limiter layer counts against: the address of the caller, the path of the request or a value of the
context. -/
inductive KeyRule where
  | standard
  | path
  | value (name : String)
deriving DecidableEq

/-- The key of a call. -/
def KeyRule.key : KeyRule → Context → String
  | .standard => Limiter.defaultKey
  | .path => Context.path
  | .value name => fun ctx => (ctx.value name).getD "none"

/-- A layer, described as data. It may note when a call comes in and goes out, mark path, request and reply, fail
without calling on, or be several layers as one. Calls that a limiter denies fail, or get a reply, which is the
standard one if it is not given. -/
inductive Layer where
  | record (name : String)
  | tag (name : String)
  | deny (e : CallError)
  | chain (layers : List Layer)
  | retry (config : Retry.Config) (rule : RetryRule)
  | breaker (config : Breaker.Config)
  | limit (limiter : Limiter) (key : KeyRule) (onDenied : Option (Option (Reply String)))

/-- A recording layer. -/
def recordLayer (name : String) : Middleware Bench String String := fun next ctx req => do
  note ("before_" ++ name)
  let reply ← next ctx req
  note ("after_" ++ name)
  return reply

/-- A marking layer. -/
def tagLayer (name : String) : Middleware Bench String String := fun next ctx req => do
  let reply ← next (ctx.withValue Context.pathKey (ctx.path ++ "/" ++ name)) (name ++ "(" ++ req ++ ")")
  return reply.map fun text => name ++ "[" ++ text ++ "]"

/-- A layer that fails every call. -/
def denyLayer (e : CallError) : Middleware Bench String String := fun _ _ _ => return .error e

/-- The reply to a denied call. -/
def deniedReply (reply : Option (Reply String)) (ctx : Context) (req : String) : Reply String :=
  reply.getD (.ok ("response to " ++ req ++ "@" ++ ctx.path))

mutual

/-- A layer installed on a bench. -/
def install : Layer → Bench → Middleware Bench String String × Bench
  | .record name, b => (recordLayer name, b)
  | .tag name, b => (tagLayer name, b)
  | .deny e, b => (denyLayer e, b)
  | .chain layers, b =>
    let (chain, b) := installAll layers b
    (Chain.wrap chain, b)
  | .retry config rule, b => (Retry.layer envCell config rule.predicate, b)
  | .breaker config, b =>
    (WatchedBreaker.layer envCell (breakerCell b.breakers.size),
      { b with breakers := b.breakers.push (.new config) })
  | .limit limiter key onDenied, b =>
    (Limiter.layer envCell (limiterCell b.limiters.size limiter) ⟨key.key, onDenied.map deniedReply⟩,
      { b with limiters := b.limiters.push limiter })

/-- A list of layers installed on a bench. -/
def installAll : List Layer → Bench → Chain Bench String String × Bench
  | [], b => ([], b)
  | layer :: rest, b =>
    let (m, b) := install layer b
    let (chain, b) := installAll rest b
    (m :: chain, b)

end

/-! ## Calls -/

/-- The service of a bench: it notes the request and follows the script. -/
def service (script : Script) (caller : Option ScopeId) : Handler Bench String String := fun ctx req => do
  note ("handler(" ++ req ++ ")")
  script.handler envCell callsCell caller ctx req

/-- **A call through layers** to a scripted service. Count and trace are cleared beforehand. -/
def call (layers : Middleware Bench String String) (script : Script) (caller : Caller) (req : String) :
    Run Bench (Observation String) := do
  modify fun b => { b with calls := 0, trace := #[] }
  let (ctx, scope) ← caller.enter envCell
  Observation.of envCell (layers (service script scope) ctx req)

end Bench

end CallGuard
