import CallGuard.Proofs.Selection.Picks
import CallGuard.Proofs.Selection.Runs
import Mathlib.Data.Int.CardIntervalMod

/-!
# Turns

A balancer that takes turns counts its picks and goes to the place of the count modulo the
number of nodes. Picks in a row have counts in a row, whichever lists of the same length they
are from, so every place gets the same number of them, up to one. In a selector a pick in a
row is one selection that reaches the balancer after another. Selections that fail and
updates in between leave the balancer alone.

* `Balancer.picks`: picks in a row, with any balancer.
* `Selector.served`: the selections of a run that reach the balancer.
* `Selector.served_eq`: these are picks in a row.
* `count_turn`: how many of so many counts in a row go to a place.
* `Selector.takes_turns`: **picks in a row take turns**, from any count, also those of a selector.
-/

namespace CallGuard

/-! ## Picks in a row -/

namespace Balancer

variable {β : Type} [Balancer β]

/-- The balancer after a pick from each of the lists, latest first. -/
def after (b : β) (lists : List (List Node)) : β := lists.foldr (fun nodes b => (pick b nodes).2) b

/-- **Picks in a row**, latest first: what each is from, and its answer. -/
def picks (b : β) : List (List Node) → List (List Node × Except CallError Node)
  | [] => []
  | nodes :: past => (nodes, (pick (after b past) nodes).1) :: picks b past

@[simp] theorem length_picks (b : β) (lists : List (List Node)) : (picks b lists).length = lists.length := by
  induction lists with
  | nil => rfl
  | cons nodes past ih => simp [picks, ih]

end Balancer

namespace Selector

variable {β : Type} [Balancer β]

/-- **The selections of a run that reach the balancer**, latest first: what the filters leave, and the
answer. -/
def served (s : Selector β) : List Step → List (List Node × Except CallError Node)
  | [] => []
  | .update _ :: past => served s past
  | .apply _ :: past => served s past
  | .select path :: past =>
    match (s.after past).candidates path with
    | .ok left => (left, ((s.after past).select path).1) :: served s past
    | .error _ => served s past

/-- **The balancer of a selector picks in a row**: it moves with the selections that reach it, and with
nothing else. -/
theorem served_eq (s : Selector β) (run : List Step) :
    s.served run = Balancer.picks s.balancer ((s.served run).map Prod.fst) ∧
      (s.after run).balancer = Balancer.after s.balancer ((s.served run).map Prod.fst) := by
  induction run with
  | nil => exact ⟨rfl, rfl⟩
  | cons step past ih =>
    obtain ⟨hserved, hbalancer⟩ := ih
    cases step with
    | update nodes => exact ⟨hserved, hbalancer⟩
    | apply filters => exact ⟨hserved, hbalancer⟩
    | select path =>
      unfold served
      rw [after, select]
      cases (s.after past).candidates path with
      | error e => exact ⟨hserved, hbalancer⟩
      | ok left =>
        simp only [List.map_cons, Balancer.picks]
        rw [← hserved, ← hbalancer]
        refine ⟨rfl, ?_⟩
        show _ = (Balancer.pick (Balancer.after s.balancer _) left).2
        rw [← hbalancer]

end Selector

/-! ## Turns -/

/-- **The place of turn number `k`** among `n` nodes. -/
def turn (counter : UInt64) (n k : Nat) : Nat := (counter.toNat + 1 + k) % n

theorem div_ceil {n : Nat} (hn : 0 < n) (m : Nat) :
    (m + (n - 1)) / n = m / n + if 0 < m % n then 1 else 0 := by
  have hless : n - 1 < n := Nat.sub_lt hn Nat.one_pos
  rw [Nat.add_div hn, Nat.div_eq_of_lt hless, Nat.mod_eq_of_lt hless]
  split <;> split <;> omega

/-- **How many turns a place gets**: every `n`-th one, and at most one more. -/
theorem count_turn (counter : UInt64) {n i : Nat} (hi : i < n) (m : Nat) :
    Nat.count (fun k => turn counter n k = i) m = m / n ∨
      Nat.count (fun k => turn counter n k = i) m = (m + (n - 1)) / n := by
  have hn : 0 < n := Nat.zero_lt_of_lt hi
  set start := counter.toNat + 1
  have hturn : ∀ k, turn counter n k = i ↔ start + k ≡ i [MOD n] := by
    intro k
    unfold turn Nat.ModEq
    rw [Nat.mod_eq_of_lt hi]
  -- the turns are the counts up to the end, less those up to the start
  have hsplit := Nat.count_add (p := (· ≡ i [MOD n])) start m
  rw [Nat.count_modEq_card _ hn, Nat.count_modEq_card _ hn, Nat.mod_eq_of_lt hi] at hsplit
  simp only [hturn]
  generalize Nat.count (fun k => start + k ≡ i [MOD n]) m = turns at hsplit ⊢
  -- a carry of the two remainders is one turn more for every place
  have hstart := Nat.mod_lt start hn
  have hmany := Nat.mod_lt m hn
  rw [Nat.add_div hn] at hsplit
  rw [div_ceil hn]
  by_cases hcarry : n ≤ start % n + m % n
  · have hend := Nat.add_mod_add_of_le_add_mod hcarry
    rw [if_pos hcarry] at hsplit
    split at hsplit <;> split at hsplit <;> split <;> omega
  · have hend := Nat.add_mod_of_add_mod_lt (Nat.lt_of_not_le hcarry)
    rw [if_neg hcarry] at hsplit
    split at hsplit <;> split at hsplit <;> split <;> omega

variable {counter : UInt64} {nodes : List Node} {n : Nat} {lists : List (List Node)}

theorem pick_roundRobin (counter : UInt64) (hn : 0 < n) (hlength : nodes.length = n) :
    ∃ h : (counter + 1).toNat % n < nodes.length, Balancer.pick (Strategy.roundRobin counter) nodes =
      (.ok nodes[(counter + 1).toNat % n], Strategy.roundRobin (counter + 1)) := by
  subst hlength
  have hplace := Nat.mod_lt (counter + 1).toNat hn
  refine ⟨hplace, ?_⟩
  rw [← nodeAt_of_lt hplace]
  cases nodes with
  | nil => cases hn
  | cons first rest => rfl

/-- **Picks take turns** from a count on. They are listed latest first, and numbered from the first one. Every pick
answers with the node at the place of its turn, and every place has its part of the turns, rounded down or up. -/
structure TakesTurns (counter : UInt64) (n : Nat) (picks : List (List Node × Except CallError Node)) : Prop where
  answers : ∀ k nodes answer, picks.reverse[k]? = some (nodes, answer) →
    ∃ h : turn counter n k < nodes.length, answer = .ok nodes[turn counter n k]
  fair : ∀ i < n, Nat.count (fun k => turn counter n k = i) picks.length = picks.length / n ∨
    Nat.count (fun k => turn counter n k = i) picks.length = (picks.length + (n - 1)) / n

theorem toNat_succ {counter : UInt64} (h : counter.toNat + 1 < UInt64.size) :
    (counter + 1).toNat = counter.toNat + 1 := by
  rw [UInt64.toNat_add, UInt64.toNat_one]
  exact Nat.mod_eq_of_lt h

/-- The counter counts picks, as long as it does not start over. -/
theorem after_roundRobin (hn : 0 < n) (hlists : ∀ nodes ∈ lists, nodes.length = n)
    (hcount : counter.toNat + lists.length < UInt64.size) :
    ∃ reached : UInt64, Balancer.after (Strategy.roundRobin counter) lists = .roundRobin reached ∧
      reached.toNat = counter.toNat + lists.length := by
  induction lists with
  | nil => exact ⟨counter, rfl, rfl⟩
  | cons nodes past ih =>
    rw [List.length_cons] at hcount
    obtain ⟨reached, hafter, hreached⟩ := ih (fun left h => hlists left (List.mem_cons_of_mem _ h)) (by omega)
    obtain ⟨_, hpick⟩ := pick_roundRobin reached hn (hlists nodes List.mem_cons_self)
    refine ⟨reached + 1, ?_, ?_⟩
    · show (Balancer.pick (Balancer.after (Strategy.roundRobin counter) past) nodes).2 = _
      rw [hafter, hpick]
    · rw [toNat_succ (by omega), hreached, List.length_cons, Nat.add_assoc]

/-- **The next pick goes to the place of its turn.** -/
theorem pick_after (hn : 0 < n) (hlength : nodes.length = n) (hlists : ∀ left ∈ lists, left.length = n)
    (hcount : counter.toNat + lists.length + 1 < UInt64.size) :
    ∃ h : turn counter n lists.length < nodes.length,
      (Balancer.pick (Balancer.after (Strategy.roundRobin counter) lists) nodes).1 =
        .ok nodes[turn counter n lists.length] := by
  have hpast : counter.toNat + lists.length < UInt64.size := by omega
  obtain ⟨reached, hafter, hreached⟩ := after_roundRobin hn hlists hpast
  have hnext : (reached + 1).toNat = counter.toNat + 1 + lists.length := by
    rw [toNat_succ (by omega), hreached]
    omega
  have hpick := pick_roundRobin reached hn hlength
  rw [hnext] at hpick
  obtain ⟨hplace, hpick⟩ := hpick
  refine ⟨hplace, ?_⟩
  rw [hafter, hpick]
  rfl

/-- **Picks in a row take turns.** -/
theorem takesTurns_picks (hn : 0 < n) (hlists : ∀ nodes ∈ lists, nodes.length = n)
    (hcount : counter.toNat + lists.length < UInt64.size) :
    TakesTurns counter n (Balancer.picks (Strategy.roundRobin counter) lists) := by
  refine ⟨?_, fun i hi => count_turn counter hi _⟩
  induction lists with
  | nil => simp [Balancer.picks]
  | cons nodes past ih =>
    have hpast : ∀ left ∈ past, left.length = n := fun left h => hlists left (List.mem_cons_of_mem _ h)
    rw [List.length_cons] at hcount
    intro k left answer hk
    rw [Balancer.picks, List.reverse_cons] at hk
    -- the latest pick comes last in the order of the turns
    rcases Nat.lt_trichotomy k past.length with hearlier | rfl | hlater
    · rw [List.getElem?_append_left (by simpa using hearlier)] at hk
      exact ih hpast (by omega) k left answer hk
    · rw [List.getElem?_append_right (by simp)] at hk
      simp only [List.length_reverse, Balancer.length_picks, Nat.sub_self, List.getElem?_cons_zero,
        Option.some.injEq, Prod.mk.injEq] at hk
      obtain ⟨rfl, rfl⟩ := hk
      exact pick_after hn (hlists _ List.mem_cons_self) hpast (by omega)
    · rw [List.getElem?_eq_none (by simp; omega)] at hk
      cases hk

/-- **Picks in a row take turns**, from any count on that does not reach the end of its range, on lists of one
length. So do the selections of a selector that reach its balancer, whatever is done with it in between. -/
theorem Selector.takes_turns (counter : UInt64) (n : Nat) (hn : 0 < n) :
    (∀ lists : List (List Node), (∀ nodes ∈ lists, nodes.length = n) →
      counter.toNat + lists.length < UInt64.size →
      TakesTurns counter n (Balancer.picks (Strategy.roundRobin counter) lists)) ∧
    ∀ (s : Selector Strategy) (run : List Selector.Step), s.balancer = .roundRobin counter →
      (∀ served ∈ s.served run, served.1.length = n) →
      counter.toNat + (s.served run).length < UInt64.size → TakesTurns counter n (s.served run) := by
  refine ⟨fun lists hlists hcount => takesTurns_picks hn hlists hcount, ?_⟩
  intro s run hbalancer hserved hcount
  have hpicks := (s.served_eq run).1
  rw [hbalancer] at hpicks
  rw [hpicks]
  apply takesTurns_picks hn
  · intro nodes hnodes
    obtain ⟨served, hmem, rfl⟩ := List.mem_map.1 hnodes
    exact hserved served hmem
  · simpa using hcount

/-- A selector that leaves out one node, and whose balancer has six counts left. -/
def Selector.worn : Selector Strategy :=
  ⟨[.new "a" "a:80", .new "x" "x:80", .new "b" "b:80"], [List.filter fun n => n.id ≠ "x"],
    .roundRobin 18446744073709551609⟩

/-- Four selections that reach the balancer, and one each that fails for want of nodes and for a filter. -/
def Selector.meanwhile : List Selector.Step :=
  [.select "/p", .update [.new "e" "e:80", .new "x" "x:80", .new "f" "f:80"], .select "/p",
    .update [.new "x" "x:80"], .select "/p", .select "/p", .update [.new "c" "c:80", .new "d" "d:80"],
    .select "/p", .update [], .select "/p"]

theorem Selector.takes_turns_meanwhile : 0 < 2 ∧ (Selector.worn.served Selector.meanwhile).length = 4 ∧
    TakesTurns 18446744073709551609 2 (Selector.worn.served Selector.meanwhile) ∧
    TakesTurns 18446744073709551609 2 (Balancer.picks (Strategy.roundRobin 18446744073709551609)
      [[.new "a" "a:80", .new "b" "b:80"], [.new "c" "c:80", .new "d" "d:80"]]) := by
  obtain ⟨hpicks, hserved⟩ := Selector.takes_turns 18446744073709551609 2 (by decide)
  refine ⟨by decide, by decide, ?_, ?_⟩
  · exact hserved Selector.worn Selector.meanwhile rfl (by decide) (by decide)
  · exact hpicks _ (by decide) (by decide)

end CallGuard
