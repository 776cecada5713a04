import CallGuard.Handler

/-!
# Callers

How the context of a single call is made, and what is seen of the call from
outside. A cancellation that the caller has planned is forgotten when the call is
over.
-/

namespace CallGuard

/-- How the context of a call is made: its values, when it expires, whether it has a scope of its own, the reason
for which that is cancelled beforehand, and the milliseconds after which it is cancelled, and why. -/
structure Caller where
  values : List (String × String)
  timeout : Option Span
  cancelable : Bool
  cancelled : Option CancelReason
  cancelAt : Option (Nat × CancelReason)

/-- What is seen of a call: the reply, and how long it took in milliseconds. -/
structure Observation (Resp : Type) where
  reply : Reply Resp
  elapsedMs : Nat

variable {σ α Resp : Type}

namespace Caller

/-- A caller who waits for ever. -/
def background : Caller := ⟨[], none, false, none, none⟩

instance : Inhabited Caller := ⟨background⟩

/-- The context of a caller before it can be cancelled. -/
def context (c : Caller) (t : Timeline) : Except TimeError Context :=
  let ctx := c.values.foldl (fun ctx e => ctx.withValue e.1 e.2) Context.background
  match c.timeout with
  | some timeout => t.withTimeout ctx timeout
  | none => .ok ctx

/-- **The context of a caller** and its scope, if it has one. -/
def enter (c : Caller) (env : Cell σ Env) : Run σ (Context × Option ScopeId) := do
  let v ← Run.read env
  let ctx ← Run.ofTime (c.context v.timeline)
  if c.cancelable then
    let (ctx, scope, timeline) := v.timeline.withCancel ctx
    let timeline := match c.cancelled with
      | some reason => timeline.cancel scope reason
      | none => timeline
    let alarm := c.cancelAt.map fun (ms, reason) => ⟨timeline.wakeAfter (.ofMillis ms), scope, reason⟩
    Run.write env { v with timeline := { timeline with alarm } }
    return (ctx, some scope)
  else return (ctx, none)

end Caller

/-- A call timed from beginning to end. -/
def Observation.of (env : Cell σ Env) (call : Run σ (Reply Resp)) : Run σ (Observation Resp) := do
  let start := (← Run.read env).timeline.now
  let reply ← call
  return ⟨reply, (← Run.read env).timeline.now - start⟩

/-- A computation from a state, after which no planned cancellation is left, even if it failed. -/
def Run.perform (env : Cell σ Env) (step : Run σ α) (s : σ) : Except TimeError α × σ :=
  let (result, s) := step.runFrom s
  let v := env.get s
  (result, env.set s { v with timeline := { v.timeline with alarm := none } })

end CallGuard
