import CallGuard.Handler
import CallGuard.Limiter.Basic

/-!
# Calls through a limiter

Each call is counted against a key, by default the caller's address. A denied call
does not reach the handler; it fails, unless a stand-in answers it.
-/

namespace CallGuard.Limiter

/-- The key of calls without an address. -/
def globalKey : String := "global"

/-- Below this number of remaining permits the limit is reported as near. -/
def nearLimit : Nat := 10

/-- **The default key**: the address of the caller, if there is one that is not empty. -/
def defaultKey (ctx : Context) : String :=
  match ctx.value Context.clientIpKey with
  | some ip => if ip.isEmpty then globalKey else ip
  | none => globalKey

/-- How a limiter is put around calls: the key that a call is counted against, and who answers denied calls, if they
are not to fail. -/
structure Policy (Req Resp : Type) where
  key : Context → String
  onDenied : Option (Context → Req → Reply Resp)

/-- The default key, and denied calls fail. -/
def Policy.standard {Req Resp : Type} : Policy Req Resp := ⟨defaultKey, none⟩

variable {σ Req Resp : Type}

/-- Asks the limiter about a call for a key. -/
def ask (env : Cell σ Env) (cell : Cell σ Limiter) (key : String) : Run σ Decision := do
  let now ← Env.readClock env
  let v := (← Run.read cell).allow key now
  Run.write cell v.limiter
  match v.sweep with
  | some s => Env.report env (.keysSwept s.evicted s.live)
  | none => pure ()
  Run.ofTime v.decision

/-- **A call through a limiter.** -/
def layer (env : Cell σ Env) (cell : Cell σ Limiter) (policy : Policy Req Resp) :
    Middleware σ Req Resp := fun next ctx req => do
  let key := policy.key ctx
  match ← ask env cell key with
  | .limited wait =>
    Env.report env (.rateLimited key ctx.path wait)
    match policy.onDenied with
    | some answer => return answer ctx req
    | none => return .error (.rateLimited key wait)
  | .allowed remaining =>
    if remaining < nearLimit then Env.report env (.limitNear key ctx.path remaining)
    next ctx req

end CallGuard.Limiter
