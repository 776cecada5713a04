import CallGuard.Breaker.Basic
import CallGuard.Limiter.Config
import CallGuard.Retry.Plan
import CallGuard.Selector.Basic

/-!
# Settings of a whole pipeline

One record with the settings of every layer, so that one document can describe a
client.

* `Pipeline.Config.validate_ok_iff`: a pipeline is accepted exactly when its layers are.
-/

namespace CallGuard

/-- The settings of a selector: how it balances. -/
structure Selector.Config where
  balancer : BalancerKind
deriving DecidableEq

instance : Inhabited Selector.Config := ⟨⟨default⟩⟩

/-- The selector of the settings, with a seed for its random picks. -/
def Selector.Config.build (c : Selector.Config) (seed : UInt64) : Selector Strategy :=
  .new (.ofKind c.balancer seed)

/-- The settings of every layer. -/
structure Pipeline.Config where
  selector : Selector.Config
  breaker : Breaker.Config
  limiter : Limiter.Config
  retry : Retry.Config
deriving DecidableEq, Inhabited

/-- The first complaint of a layer: of the breaker, the limiter or the retry, in this order. -/
def Pipeline.Config.validate (c : Pipeline.Config) : Except CallError Unit := do
  c.breaker.validate
  c.limiter.validate
  c.retry.validate

theorem Pipeline.Config.validate_ok_iff (c : Pipeline.Config) :
    c.validate = .ok () ↔
      c.breaker.validate = .ok () ∧ c.limiter.validate = .ok () ∧ c.retry.validate = .ok () := by
  unfold Pipeline.Config.validate
  cases c.breaker.validate <;> cases c.limiter.validate <;> cases c.retry.validate <;>
    simp [bind, Except.bind]

end CallGuard
