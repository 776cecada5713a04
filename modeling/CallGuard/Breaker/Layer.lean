import CallGuard.Breaker.Basic
import CallGuard.Handler

/-!
# Calls through a breaker

A call asks the breaker first. If it may proceed, its outcome is recorded: a reply
is a success and an error of the service a failure, while a control signal from
further inside says nothing about the service.
-/

namespace CallGuard

/-- A breaker and the transitions that its observer was told, in order. -/
structure WatchedBreaker where
  breaker : Breaker
  observed : Array Transition

namespace WatchedBreaker

/-- A new breaker. -/
def new (config : Breaker.Config) : WatchedBreaker := ⟨.new config, #[]⟩

instance : Inhabited WatchedBreaker := ⟨new default⟩

variable {σ Req Resp : Type}

/-- Carries out an operation: its transition is reported to the log and to the observer. -/
def carryOut {α : Type} (env : Cell σ Env) (cell : Cell σ WatchedBreaker)
    (op : Breaker → Instant → Breaker.Outcome α) : Run σ α := do
  let now ← Env.readClock env
  let w ← Run.read cell
  let o := op w.breaker now
  Run.write cell ⟨o.breaker, w.observed ++ o.transition.toArray⟩
  match o.transition with
  | some t => Env.report env (.breakerMoved w.breaker.config.name t)
  | none => pure ()
  return o.answer

/-- Records how a call ended. -/
def record (env : Cell σ Env) (cell : Cell σ WatchedBreaker) : Reply Resp → Run σ Unit
  | .ok _ => carryOut env cell fun b _ => b.success
  | .error e => if e.isControlSignal then pure () else carryOut env cell Breaker.failure

/-- **A call through a breaker.** -/
def layer (env : Cell σ Env) (cell : Cell σ WatchedBreaker) : Middleware σ Req Resp :=
  fun next ctx req => do
    if ← carryOut env cell Breaker.allow then
      let reply ← next ctx req
      record env cell reply
      return reply
    else
      let b := (← Run.read cell).breaker
      Env.report env (.breakerRejected b.config.name b.circuit ctx.path)
      return .error (.circuitOpen b.config.name)

end WatchedBreaker

end CallGuard
