/-!
# Built-in ways to balance
-/

namespace CallGuard

/-- The built-in strategies for picking a node. -/
inductive BalancerKind where
  | random
  | roundRobin
  | weightedRandom
deriving DecidableEq, Repr

namespace BalancerKind

instance : Inhabited BalancerKind := ⟨random⟩

/-- The strategy as a value of a configuration. -/
def name : BalancerKind → String
  | random => "random"
  | roundRobin => "round_robin"
  | weightedRandom => "weighted_random"

/-- The strategy in messages. -/
def label : BalancerKind → String
  | random => "Random"
  | roundRobin => "RoundRobin"
  | weightedRandom => "WeightedRandom"

/-- All strategies by name. -/
def choices : List (String × BalancerKind) :=
  [random, roundRobin, weightedRandom].map fun k => (k.name, k)

end BalancerKind

end CallGuard
