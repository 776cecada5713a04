import CallGuard.Balancer.Basic
import CallGuard.Time.Span

/-!
# What balancers pick

A built-in balancer has a node for every list that is not empty, whatever state it is in:
its draws stay below their bounds, a turn is taken modulo the length, and a draw below the
total falls into the share of some node, also where the total was capped.

* `totalShare_eq`: the total is the sum of the shares, cut to a word.
* `weightedNode_mem`: a draw below the total finds a node of the list.
* `Strategy.pick_mem`: **every built-in balancer picks a node of the list.**
-/

namespace CallGuard

variable {nodes : List Node}

theorem nodeAt_of_lt {i : Nat} (h : i < nodes.length) : nodeAt nodes i = .ok nodes[i] := by
  unfold nodeAt
  rw [List.getElem?_eq_getElem h]

theorem nodeAt_mem {i : Nat} (h : i < nodes.length) : ∃ n ∈ nodes, nodeAt nodes i = .ok n :=
  ⟨nodes[i], List.getElem_mem h, nodeAt_of_lt h⟩

/-- What nodes have together. -/
def sumShares (nodes : List Node) : Nat := nodes.foldr (fun n sum => n.share + sum) 0

@[simp] theorem sumShares_nil : sumShares [] = 0 := rfl

@[simp] theorem sumShares_cons (n : Node) (nodes : List Node) :
    sumShares (n :: nodes) = n.share + sumShares nodes := rfl

/-- **The total is the sum of the shares**, cut to a word. -/
theorem totalShare_eq (nodes : List Node) : totalShare nodes = min (sumShares nodes) maxWord := by
  have hsum : ∀ start ≤ maxWord,
      nodes.foldl (fun sum n => min (sum + n.share) maxWord) start = min (start + sumShares nodes) maxWord := by
    induction nodes with
    | nil =>
      intro start hstart
      simp [hstart]
    | cons n rest ih =>
      intro start hstart
      have hrest := ih (min (start + n.share) maxWord) (Nat.min_le_right _ _)
      rw [List.foldl_cons, hrest, sumShares_cons]
      omega
  have hzero := hsum 0 (Nat.zero_le _)
  rwa [Nat.zero_add] at hzero

theorem weightedNode_of_walk {draw : Nat} {n : Node} (h : walk draw nodes = some n) :
    weightedNode draw nodes = .ok n := by
  unfold weightedNode
  rw [h]

theorem weightedNode_mem {draw : Nat} (h : draw < totalShare nodes) :
    ∃ n ∈ nodes, weightedNode draw nodes = .ok n := by
  rw [totalShare_eq] at h
  have hsum : draw < sumShares nodes := by omega
  obtain ⟨n, hn, hwalk, -⟩ := walk_lt hsum
  exact ⟨n, hn, weightedNode_of_walk hwalk⟩

/-- **A built-in balancer picks a node of the list**, in any state, if there is one. -/
theorem Strategy.pick_mem (s : Strategy) (h : nodes ≠ []) : ∃ n ∈ nodes, (s.pick nodes).1 = .ok n := by
  have hlength : 0 < nodes.length := List.length_pos_iff.2 h
  obtain ⟨first, rest, rfl⟩ := List.exists_cons_of_ne_nil h
  cases s with
  | random g => exact nodeAt_mem (Generator.below_lt hlength g)
  | roundRobin counter => exact nodeAt_mem (Nat.mod_lt _ hlength)
  | weightedRandom g =>
    unfold Strategy.pick
    dsimp only
    split
    · exact nodeAt_mem (Generator.below_lt hlength g)
    · rename_i htotal
      exact weightedNode_mem (Generator.below_lt (Nat.pos_of_ne_zero htotal) g)

end CallGuard
