import CallGuard.Selector.Run

/-!
# Selection for tests

Filters described as data, and a balancer that always takes the last node and
counts how often it was asked.
-/

namespace CallGuard

/-- A node filter, described as data: nodes of at least a weight, the first nodes, nodes with a value of a label,
all but one, all in reverse, all of them twice, none, or all. -/
inductive FilterRule where
  | minWeight (weight : Int64)
  | take (count : Nat)
  | label (name value : String)
  | dropId (id : String)
  | reverse
  | twice
  | nothing
  | everything
deriving DecidableEq

/-- The filter of a rule. -/
def FilterRule.toFilter : FilterRule → NodeFilter
  | .minWeight weight => List.filter fun n => weight ≤ n.weight
  | .take count => List.take count
  | .label name value => List.filter fun n => n.metadata.get? name == some value
  | .dropId id => List.filter fun n => n.id != id
  | .reverse => List.reverse
  | .twice => fun nodes => nodes ++ nodes
  | .nothing => fun _ => []
  | .everything => id

/-- A built-in balancer, or the one that takes the last node and counts its picks. -/
inductive TestBalancer where
  | builtIn (s : Strategy)
  | last (picks : Nat)
deriving DecidableEq

namespace TestBalancer

/-- The last node of a list. -/
def lastNode (nodes : List Node) : Except CallError Node :=
  match nodes.getLast? with
  | some n => .ok n
  | none => .error .noAvailableNode

/-- One pick. -/
def pick : TestBalancer → List Node → Except CallError Node × TestBalancer
  | builtIn s, nodes =>
    let (picked, s) := s.pick nodes
    (picked, builtIn s)
  | last picks, nodes => (lastNode nodes, last (picks + 1))

instance : Balancer TestBalancer := ⟨pick⟩

/-- How often the counting balancer was asked. -/
def picks? : TestBalancer → Option Nat
  | builtIn _ => none
  | last picks => some picks

end TestBalancer

/-- A selector, its surroundings, and a balancer beside it that it does not use. -/
structure SelectionBench where
  env : Env
  selector : Selector TestBalancer
  beside : Option TestBalancer

namespace SelectionBench

/-- A bench with a selector without candidates. -/
def new (balancer : TestBalancer) (beside : Option TestBalancer) (filters : List FilterRule) :
    SelectionBench :=
  ⟨.start, (Selector.new balancer).apply (filters.map FilterRule.toFilter), beside⟩

/-- The surroundings. -/
def envCell : Cell SelectionBench Env := ⟨env, fun b env => { b with env }⟩

/-- The selector. -/
def selectorCell : Cell SelectionBench (Selector TestBalancer) :=
  ⟨selector, fun b selector => { b with selector }⟩

/-- The candidates are replaced. -/
def update (nodes : List Node) : Run SelectionBench Unit :=
  Selector.replaceNodes envCell selectorCell nodes

/-- Filters are added. -/
def apply (filters : List FilterRule) : Run SelectionBench Unit :=
  Run.update selectorCell fun s => s.apply (filters.map FilterRule.toFilter)

/-- A node is selected. -/
def select (ctx : Context) : Run SelectionBench (Reply Node) :=
  Selector.selectFor envCell selectorCell ctx

/-- Several nodes are selected, one after another. -/
def selectMany (ctx : Context) (count : Nat) : Run SelectionBench (List (Reply Node)) :=
  (List.range count).mapM fun _ => select ctx

/-- A balancer picks from a list by itself: the one beside the selector, or else the selector's. -/
def pick (nodes : List Node) : Run SelectionBench (Reply Node) := do
  let b ← get
  match b.beside with
  | some balancer =>
    let (picked, balancer) := balancer.pick nodes
    set { b with beside := some balancer }
    return picked
  | none =>
    let (picked, balancer) := b.selector.balancer.pick nodes
    set { b with selector := { b.selector with balancer } }
    return picked

end SelectionBench

end CallGuard
