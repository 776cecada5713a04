import CallGuard.Handler
import CallGuard.Selector.Basic

/-!
# Selecting as part of a call

The operations of a selector that is part of a larger state, with their events
reported to the log.
-/

namespace CallGuard.Selector

variable {σ β : Type}

/-- The candidates are replaced. -/
def replaceNodes (env : Cell σ Env) (cell : Cell σ (Selector β)) (nodes : List Node) : Run σ Unit := do
  let (event, s) := (← Run.read cell).update nodes
  Run.write cell s
  Env.report env event

/-- A node is selected for a call. -/
def selectFor [Balancer β] (env : Cell σ Env) (cell : Cell σ (Selector β)) (ctx : Context) :
    Run σ (Reply Node) := do
  let (picked, events, s) := (← Run.read cell).select ctx.path
  Run.write cell s
  events.forM (Env.report env)
  return picked

end CallGuard.Selector
