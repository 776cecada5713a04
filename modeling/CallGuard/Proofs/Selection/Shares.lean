import CallGuard.Proofs.Selection.Picks
import Mathlib.Data.Nat.Count

/-!
# Shares of a weighted pick

The shares of the nodes lie next to each other in the order of the list, and a draw falls
into the share of one place. The walk takes the shares off the draw one by one; it finds the
node at this place, so that every place is found by as many draws as its weight says, and a
place without a positive weight by none. Where the sum of the shares exceeds a word the total
is cut to it. The draws that are left fall into shares all the same.

* `FallsInto`: the shares as intervals of draws.
* `exists_fallsInto`, `FallsInto.unique`: the intervals cover all draws below the sum, and none twice.
* `FallsInto.walk`: the walk finds the node in whose share a draw falls.
* `count_fallsInto`, `count_walk`: how many draws find a place, and how many find a node.
* `Strategy.proportional`: **a weighted pick is in proportion to the weights.**
-/

namespace CallGuard

variable {nodes : List Node} {n : Node} {draw i j : Nat}

/-! ## Shares and weights -/

theorem Node.share_eq (n : Node) : (n.share : Int) = max n.weight.toInt 0 := Int.toNat_eq_max _

theorem Node.share_pos_iff : 0 < n.share ↔ 0 < n.weight := by
  have hzero : (0 : Int64).toInt = 0 := rfl
  rw [Int64.lt_iff_toInt_lt, hzero]
  unfold Node.share
  omega

theorem share_le_sumShares (h : n ∈ nodes) : n.share ≤ sumShares nodes := by
  induction h with
  | head rest =>
    rw [sumShares_cons]
    exact Nat.le_add_right _ _
  | tail m _ ih =>
    rw [sumShares_cons]
    exact Nat.le_add_left_of_le ih

/-! ## Where a draw falls -/

/-- **A draw falls into the share of a place**, when the shares lie next to each other. -/
def FallsInto (draw : Nat) (nodes : List Node) (i : Nat) : Prop :=
  sumShares (nodes.take i) ≤ draw ∧ draw < sumShares (nodes.take (i + 1))

instance (draw : Nat) (nodes : List Node) (i : Nat) : Decidable (FallsInto draw nodes i) :=
  inferInstanceAs (Decidable (_ ∧ _))

theorem not_fallsInto_nil : ¬FallsInto draw [] i := by
  simp [FallsInto]

theorem fallsInto_zero : FallsInto draw (n :: nodes) 0 ↔ draw < n.share := by
  simp [FallsInto]

theorem fallsInto_succ :
    FallsInto draw (n :: nodes) (i + 1) ↔ n.share ≤ draw ∧ FallsInto (draw - n.share) nodes i := by
  simp only [FallsInto, List.take_succ_cons, sumShares_cons]
  omega

theorem exists_fallsInto (h : draw < sumShares nodes) : ∃ i, FallsInto draw nodes i := by
  induction nodes generalizing draw with
  | nil => simp at h
  | cons n rest ih =>
    by_cases hn : draw < n.share
    · exact ⟨0, fallsInto_zero.2 hn⟩
    · rw [sumShares_cons] at h
      have hless : draw - n.share < sumShares rest := by omega
      obtain ⟨i, hi⟩ := ih hless
      exact ⟨i + 1, fallsInto_succ.2 ⟨Nat.le_of_not_lt hn, hi⟩⟩

theorem FallsInto.unique (hi : FallsInto draw nodes i) (hj : FallsInto draw nodes j) : i = j := by
  induction nodes generalizing draw i j with
  | nil => exact absurd hi not_fallsInto_nil
  | cons n rest ih =>
    cases i with
    | zero =>
      cases j with
      | zero => rfl
      | succ j =>
        have hlt := fallsInto_zero.1 hi
        have hle := (fallsInto_succ.1 hj).1
        omega
    | succ i =>
      cases j with
      | zero =>
        have hlt := fallsInto_zero.1 hj
        have hle := (fallsInto_succ.1 hi).1
        omega
      | succ j => rw [ih (fallsInto_succ.1 hi).2 (fallsInto_succ.1 hj).2]

/-- **The walk finds the node in whose share the draw falls**, and that is a share of some size. -/
theorem FallsInto.walk (h : FallsInto draw nodes i) :
    ∃ hi : i < nodes.length, walk draw nodes = some nodes[i] ∧ 0 < nodes[i].share := by
  induction nodes generalizing draw i with
  | nil => exact absurd h not_fallsInto_nil
  | cons n rest ih =>
    unfold CallGuard.walk
    cases i with
    | zero =>
      have hn := fallsInto_zero.1 h
      refine ⟨Nat.succ_pos _, if_pos hn, ?_⟩
      simp only [List.getElem_cons_zero]
      omega
    | succ i =>
      obtain ⟨hle, hrest⟩ := fallsInto_succ.1 h
      obtain ⟨hi, hwalk, hpos⟩ := ih hrest
      refine ⟨Nat.succ_lt_succ hi, ?_, by simpa using hpos⟩
      rw [if_neg (Nat.not_lt.2 hle), hwalk]
      simp

/-! ## How many draws -/

/-- A count in two parts, as a first share and the shares after it: on the first one the predicate is the same
everywhere, on the second one it is another, moved. -/
theorem count_add_of {p q : Nat → Prop} [DecidablePred p] [DecidablePred q] (same : Prop) [Decidable same]
    {a : Nat} (hfirst : ∀ k < a, p k ↔ same) (hsecond : ∀ k, p (a + k) ↔ q k) (b : Nat) :
    Nat.count p (a + b) = (if same then a else 0) + Nat.count q b := by
  have hmoved : Nat.count (fun k => p (a + k)) b = Nat.count q b := by
    simp only [hsecond]
  have hstart : Nat.count p a = if same then a else 0 := by
    split
    · rename_i h
      exact Nat.count_iff_forall.2 fun k hk => (hfirst k hk).2 h
    · rename_i h
      exact Nat.count_iff_forall_not.2 fun k hk hp => h ((hfirst k hk).1 hp)
  rw [Nat.count_add, hmoved, hstart]

/-- **As many draws fall into a share as it is large.** -/
theorem count_fallsInto (hi : i < nodes.length) :
    Nat.count (fun draw => FallsInto draw nodes i) (sumShares nodes) = nodes[i].share := by
  induction nodes generalizing i with
  | nil => cases hi
  | cons n rest ih =>
    -- the draws below the first share, and those after it less that share
    rw [sumShares_cons]
    cases i with
    | zero =>
      have hcount := count_add_of (p := fun draw => FallsInto draw (n :: rest) 0) (q := fun _ => False)
        True (a := n.share) (by simp [fallsInto_zero]) (by simp [fallsInto_zero]) (sumShares rest)
      rw [hcount]
      simp
    | succ i =>
      have hcount := count_add_of (p := fun draw => FallsInto draw (n :: rest) (i + 1))
        (q := fun draw => FallsInto draw rest i) False (a := n.share)
        (fun draw hdraw => by simp [fallsInto_succ, hdraw]) (by simp [fallsInto_succ]) (sumShares rest)
      rw [hcount, ih (Nat.lt_of_succ_lt_succ hi)]
      simp

/-- **A node is found by its share of draws**, and as many times that as it is in the list. -/
theorem count_walk (nodes : List Node) (n : Node) :
    Nat.count (fun draw => walk draw nodes = some n) (sumShares nodes) = nodes.count n * n.share := by
  induction nodes with
  | nil => simp
  | cons m rest ih =>
    have hcount := count_add_of (p := fun draw => walk draw (m :: rest) = some n)
      (q := fun draw => walk draw rest = some n) (m = n) (a := m.share)
      (fun draw hdraw => by simp [walk, hdraw])
      (fun draw => by simp [walk, Nat.not_lt.2 (Nat.le_add_right m.share draw)]) (sumShares rest)
    rw [sumShares_cons, hcount, ih]
    by_cases hm : m = n
    · subst hm
      rw [if_pos rfl, List.count_cons_self, Nat.succ_mul, Nat.add_comm]
    · rw [if_neg hm, List.count_cons_of_ne hm, Nat.zero_add]

/-! ## Weighted picks -/

theorem totalShare_pos (h : ∃ n ∈ nodes, 0 < n.weight) : 0 < totalShare nodes := by
  obtain ⟨n, hn, hweight⟩ := h
  have hshare := Node.share_pos_iff.2 hweight
  have hle := share_le_sumShares hn
  rw [totalShare_eq, maxWord]
  omega

theorem totalShare_of_le (h : sumShares nodes ≤ maxWord) : totalShare nodes = sumShares nodes := by
  rw [totalShare_eq]
  exact Nat.min_eq_left h

theorem exists_fallsInto_of_lt (h : draw < totalShare nodes) : ∃ i, FallsInto draw nodes i := by
  -- also where the total is cut, no draw below it is past the last share
  rw [totalShare_eq] at h
  exact exists_fallsInto (by omega)

/-- **The node of a draw is the one in whose share it falls**, and its weight is positive. -/
theorem FallsInto.weightedNode (h : FallsInto draw nodes i) : ∃ hi : i < nodes.length,
    CallGuard.walk draw nodes = some nodes[i] ∧ CallGuard.weightedNode draw nodes = .ok nodes[i] ∧
      0 < nodes[i].weight := by
  obtain ⟨hi, hwalk, hshare⟩ := h.walk
  exact ⟨hi, hwalk, weightedNode_of_walk hwalk, Node.share_pos_iff.1 hshare⟩

theorem weightedNode_eq_ok_iff (h : draw < sumShares nodes) :
    weightedNode draw nodes = .ok n ↔ walk draw nodes = some n := by
  obtain ⟨i, hfalls⟩ := exists_fallsInto h
  obtain ⟨hi, hwalk, hnode, -⟩ := hfalls.weightedNode
  rw [hwalk, hnode, Except.ok.injEq, Option.some.injEq]

theorem Strategy.pick_weightedRandom (h : 0 < totalShare nodes) (g : Generator) :
    (Strategy.weightedRandom g).pick nodes =
      (weightedNode (g.below (totalShare nodes)).1 nodes,
        .weightedRandom (g.below (totalShare nodes)).2) := by
  have hne : totalShare nodes ≠ 0 := Nat.ne_of_gt h
  cases nodes with
  | nil => exact absurd rfl hne
  | cons n rest =>
    unfold Strategy.pick
    simp only [if_neg hne]

/-- **Weighted picks are in proportion to the weights.** A draw below the total falls into the share of one place
and no other. The walk then finds the node there, so that nothing after the walk is ever reached, and the weight of
the node is positive. A pick draws below the total and takes the node in whose share the draw falls. If the positive
weights sum to a word or less, that is the total, and every place has as many draws as its weight says; a node that
is in the list several times is picked by so many times the draws. -/
structure Proportional (nodes : List Node) : Prop where
  falls : ∀ draw < totalShare nodes, ∃! i, FallsInto draw nodes i
  finds : ∀ draw i, FallsInto draw nodes i → ∃ hi : i < nodes.length,
    walk draw nodes = some nodes[i] ∧ weightedNode draw nodes = .ok nodes[i] ∧ 0 < nodes[i].weight
  picks : ∀ g : Generator, ∃ i, ∃ hi : i < nodes.length,
    FallsInto (g.below (totalShare nodes)).1 nodes i ∧ (g.below (totalShare nodes)).1 < totalShare nodes ∧
      (Strategy.weightedRandom g).pick nodes =
        (.ok nodes[i], .weightedRandom (g.below (totalShare nodes)).2)
  places : sumShares nodes ≤ maxWord → totalShare nodes = sumShares nodes ∧
    ∀ i (hi : i < nodes.length),
      (Nat.count (fun draw => FallsInto draw nodes i) (totalShare nodes) : Int) = max nodes[i].weight.toInt 0
  counted : sumShares nodes ≤ maxWord → ∀ n,
    Nat.count (fun draw => weightedNode draw nodes = .ok n) (totalShare nodes) = nodes.count n * n.share

/-- **A weighted pick is in proportion to the weights**, if one of them is positive. -/
theorem Strategy.proportional (h : ∃ n ∈ nodes, 0 < n.weight) : Proportional nodes where
  falls := by
    intro draw hdraw
    obtain ⟨i, hi⟩ := exists_fallsInto_of_lt hdraw
    exact ⟨i, hi, fun j hj => hj.unique hi⟩
  finds := fun draw i hfalls => hfalls.weightedNode
  picks := by
    intro g
    have hpos := totalShare_pos h
    have hlt := Generator.below_lt hpos g
    obtain ⟨i, hfalls⟩ := exists_fallsInto_of_lt hlt
    obtain ⟨hi, -, hnode, -⟩ := hfalls.weightedNode
    refine ⟨i, hi, hfalls, hlt, ?_⟩
    rw [pick_weightedRandom hpos, hnode]
  places := by
    intro hle
    refine ⟨totalShare_of_le hle, ?_⟩
    intro i hi
    rw [totalShare_of_le hle, count_fallsInto hi, Node.share_eq]
  counted := by
    intro hle n
    rw [totalShare_of_le hle, ← count_walk]
    apply Nat.le_antisymm
    · apply Nat.count_mono_left
      intro draw hdraw
      exact (weightedNode_eq_ok_iff hdraw).1
    · apply Nat.count_mono_left
      intro draw hdraw
      exact (weightedNode_eq_ok_iff hdraw).2

/-- Nodes without a share around others, one of which is listed twice. -/
def uneven : List Node :=
  [(Node.new "a" "a:80").withWeight (-1), (Node.new "b" "b:80").withWeight 2,
    (Node.new "c" "c:80").withWeight 0, (Node.new "b" "b:80").withWeight 2,
    (Node.new "d" "d:80").withWeight 3]

theorem Strategy.proportional_uneven : (∃ n ∈ uneven, 0 < n.weight) ∧ Proportional uneven := by
  have hpositive : ∃ n ∈ uneven, 0 < n.weight := by decide
  exact ⟨hpositive, Strategy.proportional hpositive⟩

/-- Three of the largest weights are more than a word: the total is cut, and its last draw falls into the
last share. -/
example : totalShare (List.replicate 3 ((Node.new "a" "a:80").withWeight Int64.maxValue)) = maxWord ∧
    FallsInto (maxWord - 1) (List.replicate 3 ((Node.new "a" "a:80").withWeight Int64.maxValue)) 2 := by
  decide

end CallGuard
