import CallGuard.Balancer.Kind
import CallGuard.Node
import CallGuard.Random.Generator

/-!
# Balancing

A balancer picks one node of a list for each call and may remember something from
pick to pick. Three balancers are built in: a uniform random pick, a turn through
the list, and a random pick in proportion to the weights.

* `Strategy.pick_nil`: no balancer picks from an empty list.
* `walk_lt`: a walk with a draw below the sum of the shares finds a node.
-/

namespace CallGuard

/-- Picks one node of a list, or says why there is none, and moves on to its next state. -/
class Balancer (β : Type) where
  pick : β → List Node → Except CallError Node × β

/-- The node at a place, or the error of an empty pick where there is none. -/
def nodeAt (nodes : List Node) (i : Nat) : Except CallError Node :=
  match nodes[i]? with
  | some n => .ok n
  | none => .error .noAvailableNode

/-- The share of a node in weighted picks: its weight, and nothing for a weight below one. -/
def Node.share (n : Node) : Nat := n.weight.toInt.toNat

/-- The sum of all shares, at most the largest unsigned 64-bit number. -/
def totalShare (nodes : List Node) : Nat :=
  nodes.foldl (fun sum n => min (sum + n.share) 18446744073709551615) 0

/-- **The node in whose share a draw falls**, when the shares lie next to each other in the order of the
list. -/
def walk : Nat → List Node → Option Node
  | _, [] => none
  | draw, n :: rest => if draw < n.share then some n else walk (draw - n.share) rest

/-- The last node with a share. -/
def lastWithShare (nodes : List Node) : Option Node := nodes.reverse.find? fun n => 0 < n.share

/-- The node of a draw, or the last node with a share if the draw falls behind all of them. -/
def weightedNode (draw : Nat) (nodes : List Node) : Except CallError Node :=
  match walk draw nodes with
  | some n => .ok n
  | none =>
    match lastWithShare nodes with
    | some n => .ok n
    | none => .error .noAvailableNode

/-- A built-in balancer and its state: uniform random picks, turns through the list by a counter that is never
reset, or random picks by weight. -/
inductive Strategy where
  | random (g : Generator)
  | roundRobin (counter : UInt64)
  | weightedRandom (g : Generator)
deriving DecidableEq

namespace Strategy

/-- The strategy of a kind. Its generator, if it has one, starts from the seed. -/
def ofKind (kind : BalancerKind) (seed : UInt64) : Strategy :=
  match kind with
  | .random => random (.ofSeed seed)
  | .roundRobin => roundRobin 0
  | .weightedRandom => weightedRandom (.ofSeed seed)

/-- **One pick.** Without a share among the nodes a weighted pick is uniform. -/
def pick : Strategy → List Node → Except CallError Node × Strategy
  | s, [] => (.error .noAvailableNode, s)
  | random g, nodes =>
    let (i, g) := g.below nodes.length
    (nodeAt nodes i, random g)
  | roundRobin counter, nodes =>
    let counter := counter + 1
    (nodeAt nodes (counter.toNat % nodes.length), roundRobin counter)
  | weightedRandom g, nodes =>
    let total := totalShare nodes
    if total = 0 then
      let (i, g) := g.below nodes.length
      (nodeAt nodes i, weightedRandom g)
    else
      let (draw, g) := g.below total
      (weightedNode draw nodes, weightedRandom g)

instance : Balancer Strategy := ⟨pick⟩

theorem pick_nil (s : Strategy) : s.pick [] = (.error .noAvailableNode, s) := by
  cases s <;> rfl

end Strategy

theorem walk_lt {draw : Nat} {nodes : List Node} (h : draw < nodes.foldr (fun n sum => n.share + sum) 0) :
    ∃ n ∈ nodes, walk draw nodes = some n ∧ 0 < n.share := by
  induction nodes generalizing draw with
  | nil => simp at h
  | cons n rest ih =>
    unfold walk
    by_cases hn : draw < n.share
    · exact ⟨n, List.mem_cons_self .., if_pos hn, by omega⟩
    · rw [List.foldr_cons] at h
      have hd : draw - n.share < rest.foldr (fun n sum => n.share + sum) 0 := by omega
      obtain ⟨m, hm, hw, hs⟩ := ih hd
      exact ⟨m, List.mem_cons_of_mem _ hm, by rw [if_neg hn, hw], hs⟩

end CallGuard
