import CallGuard.Breaker.Layer
import CallGuard.Limiter.Layer
import CallGuard.Pipeline.Config
import CallGuard.Retry.Layer

/-!
# The standard pipeline

Calls go through the retry, then the breaker, then the limiter, and from there to
the transport: every attempt is asked about anew, and a rejected one never leaves
the client. The node to call is selected beforehand.
-/

namespace CallGuard

/-- The parts of a client: what selects nodes and what its calls go through. -/
structure Pipeline where
  selector : Selector Strategy
  breaker : WatchedBreaker
  limiter : Limiter

namespace Pipeline

/-- What is reported about a new pipeline. -/
def Config.builtEvent (c : Config) : Event :=
  .pipelineBuilt c.breaker.name c.selector.balancer c.retry.attempts.toNat

/-- **The pipeline of settings**, if they are accepted. The seed is for random node picks. -/
def build (c : Config) (now : Instant) (seed : UInt64) : Except CallError Pipeline := do
  c.validate
  return ⟨c.selector.build seed, .new c.breaker, c.limiter.build now⟩

/-- The selector of a pipeline. -/
def selectorCell : Cell Pipeline (Selector Strategy) := ⟨selector, fun p selector => { p with selector }⟩

/-- The breaker of a pipeline. -/
def breakerCell : Cell Pipeline WatchedBreaker := ⟨breaker, fun p breaker => { p with breaker }⟩

/-- The limiter of a pipeline. -/
def limiterCell : Cell Pipeline Limiter := ⟨limiter, fun p limiter => { p with limiter }⟩

variable {σ Req Resp : Type}

/-- The layers of a pipeline, outermost first. -/
def layers (c : Config) (env : Cell σ Env) (breaker : Cell σ WatchedBreaker) (limiter : Cell σ Limiter) :
    Chain σ Req Resp :=
  [Retry.layer env c.retry Retry.retryErrors, WatchedBreaker.layer env breaker,
    Limiter.layer env limiter .standard]

/-- **A transport behind the whole pipeline.** -/
def wrap (c : Config) (env : Cell σ Env) (cell : Cell σ Pipeline) : Middleware σ Req Resp :=
  Chain.wrap (layers c env (cell.via breakerCell) (cell.via limiterCell))

end Pipeline

end CallGuard
