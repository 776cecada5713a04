import CallGuard.Handler
import CallGuard.Retry.Plan

/-!
# Retried calls

A call is tried until its outcome is accepted or the tries are used up; the last
outcome is returned as it is. The waits in between race the end of the context,
and no try after the first begins once the context is over.
-/

namespace CallGuard.Retry

/-- Decides whether an outcome is to be retried. -/
abbrev Predicate (Req Resp : Type) := Context → Req → Reply Resp → Bool

/-- **The default**: errors are retried, but neither control signals nor errors that blame the request. -/
def retryErrors {Req Resp : Type} : Predicate Req Resp := fun _ _ reply =>
  match reply with
  | .ok _ => false
  | .error e => !(e.isControlSignal || e.isClientError)

variable {σ Req Resp : Type}

/-- Reports a failure after more than one try. -/
def reportFailure (env : Cell σ Env) (ctx : Context) (attempt : Nat) (reply : Reply Resp) :
    Run σ Unit :=
  match reply with
  | .error e => if 0 < attempt then Env.report env (.retryFailed (attempt + 1) ctx.path e) else pure ()
  | .ok _ => pure ()

/-- Try number `attempt`, counted from zero, with `left` tries after it; `previous` is the last wait. -/
def attemptFrom (env : Cell σ Env) (config : Config) (retryIf : Predicate Req Resp)
    (next : Handler σ Req Resp) (ctx : Context) (req : Req) (attempt : Nat) (previous : Span) :
    Nat → Run σ (Reply Resp)
  | 0 => do
    let reply ← next ctx req
    reportFailure env ctx attempt reply
    return reply
  | left + 1 => do
    let reply ← next ctx req
    if retryIf ctx req reply then
      let delay := config.nextDelay previous attempt
      Env.report env (.retrying (attempt + 1) config.tries delay ctx.path reply.error?)
      match ← Env.raceFor env ctx delay with
      | some reason => return .error (.cancelled reason)
      | none =>
        -- a reason given in the same instant that the wait ended
        match ← Env.err env ctx with
        | some reason => return .error (.cancelled reason)
        | none => attemptFrom env config retryIf next ctx req (attempt + 1) delay left
    else
      reportFailure env ctx attempt reply
      return reply

/-- **A retried call.** -/
def layer (env : Cell σ Env) (config : Config) (retryIf : Predicate Req Resp) :
    Middleware σ Req Resp := fun next ctx req =>
  attemptFrom env config retryIf next ctx req 0 config.baseDelay (config.tries - 1)

end CallGuard.Retry
