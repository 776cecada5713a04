import CallGuard.Balancer.Basic
import CallGuard.Context.Basic
import CallGuard.Event

/-!
# Selecting a node

A selector holds the candidate nodes of the last update, a list of filters and a
balancer. A selection runs the candidates through the filters in order and lets
the balancer pick from what is left. If nothing is left at any step, the balancer
is not asked.

* `Selector.select_nodes`: selecting changes neither candidates nor filters.
-/

namespace CallGuard

/-- Maps a candidate list to another. -/
abbrev NodeFilter := List Node → List Node

/-- The candidates of the last update, the filters in the order in which they are applied, and a balancer that picks
from what they leave. -/
structure Selector (β : Type) where
  nodes : List Node
  filters : List NodeFilter
  balancer : β

namespace Selector

variable {β : Type}

/-- A selector without candidates and filters. -/
def new (balancer : β) : Selector β := ⟨[], [], balancer⟩

/-- The default selector picks at random. -/
instance : Inhabited (Selector Strategy) := ⟨new (.ofKind default 0)⟩

/-- The number of candidates. -/
def size (s : Selector β) : Nat := s.nodes.length

/-- The candidates replaced, and what is reported about it. -/
def update (s : Selector β) (nodes : List Node) : Event × Selector β :=
  (.nodesUpdated s.nodes.length nodes.length, { s with nodes })

/-- More filters after the ones there are. -/
def apply (s : Selector β) (filters : List NodeFilter) : Selector β :=
  { s with filters := s.filters ++ filters }

/-- The candidates after the filters from number `step` on, or the number of the first filter that leaves
none. -/
def filterFrom (step : Nat) (nodes : List Node) : List NodeFilter → Except Nat (List Node)
  | [] => .ok nodes
  | f :: rest => if (f nodes).isEmpty then .error step else filterFrom (step + 1) (f nodes) rest

/-- The candidates left to pick from, or what is reported if there are none. -/
def candidates (s : Selector β) (path : String) : Except Event (List Node) :=
  if s.nodes.isEmpty then .error (.noNodes path)
  else
    match filterFrom 0 s.nodes s.filters with
    | .ok nodes => .ok nodes
    | .error step => .error (.allFiltered path step)

/-- **One selection**: the picked node or why there is none, what is reported, and the selector afterwards. -/
def select [Balancer β] (s : Selector β) (path : String) :
    Except CallError Node × List Event × Selector β :=
  match s.candidates path with
  | .error e => (.error .noAvailableNode, [e], s)
  | .ok nodes =>
    let (picked, balancer) := Balancer.pick s.balancer nodes
    (picked, [], { s with balancer })

theorem select_nodes [Balancer β] (s : Selector β) (path : String) :
    (s.select path).2.2.nodes = s.nodes ∧ (s.select path).2.2.filters = s.filters := by
  unfold select
  split <;> exact ⟨rfl, rfl⟩

end Selector

end CallGuard
