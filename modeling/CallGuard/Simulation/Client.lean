import CallGuard.Pipeline.Basic
import CallGuard.Selector.Run
import CallGuard.Simulation.Caller
import CallGuard.Simulation.Transport

/-!
# A simulated client

A pipeline in front of the simulated network: a node is selected for each call,
and the call goes to it through the whole pipeline.
-/

namespace CallGuard

/-- A pipeline with its settings, the network behind it and their surroundings. -/
structure Client where
  env : Env
  config : Pipeline.Config
  pipeline : Pipeline
  transport : Transport

namespace Client

/-- The surroundings. -/
def envCell : Cell Client Env := ⟨env, fun c env => { c with env }⟩

/-- The pipeline. -/
def pipelineCell : Cell Client Pipeline := ⟨pipeline, fun c pipeline => { c with pipeline }⟩

/-- The network. -/
def transportCell : Cell Client Transport := ⟨transport, fun c transport => { c with transport }⟩

/-- The selector of the pipeline. -/
def selectorCell : Cell Client (Selector Strategy) := pipelineCell.via Pipeline.selectorCell

/-- The breaker of the pipeline. -/
def breakerCell : Cell Client WatchedBreaker := pipelineCell.via Pipeline.breakerCell

/-- The limiter of the pipeline. -/
def limiterCell : Cell Client Limiter := pipelineCell.via Pipeline.limiterCell

/-- The candidate nodes are replaced. -/
def update (nodes : List Node) : Run Client Unit := Selector.replaceNodes envCell selectorCell nodes

/-- **A client of settings**, if they are accepted, with nodes that the selector and the network know. -/
def build (config : Pipeline.Config) (nodes : List Node) (seed : UInt64) : Except CallError Client := do
  let pipeline ← Pipeline.build config .origin seed
  let env := { Env.start with log := #[config.builtEvent] }
  let client : Client := ⟨env, config, pipeline, .new nodes seed⟩
  return ((update nodes).runFrom client).2

/-- What is seen of a call: the selected node, and the reply if there was one. -/
inductive Called where
  | notSelected (e : CallError)
  | sent (node : String) (observation : Observation Response)

/-- **A call**, to a selected node unless one is given. -/
def call (caller : Caller) (body : String) (node : Option Node) : Run Client Called := do
  let (ctx, _) ← caller.enter envCell
  let selected ← match node with
    | some n => pure (.ok n)
    | none => Selector.selectFor envCell selectorCell ctx
  match selected with
  | .error e => return .notSelected e
  | .ok n =>
    let config := (← get).config
    let handler := Pipeline.wrap config envCell pipelineCell (Transport.handler envCell transportCell)
    return .sent n.id (← Observation.of envCell (handler ctx ⟨n, body⟩))

/-- The limiter is asked about a key, outside of a call. -/
def ask (key : String) : Run Client Decision := Limiter.ask envCell limiterCell key

end Client

end CallGuard
