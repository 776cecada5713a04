import CallGuard.Proofs.Selection.Picks
import CallGuard.Selector.Basic

/-!
# Runs of a selector

A run is the list of what was done with a selector, latest first. What a selection answers
is read off the run: it works on the nodes of the latest update and on all filters that
were added, in order. The balancer is asked once for every selection whose candidates
survive all filters, and never otherwise.

* `Selector.latest`, `Selector.added`, `Selector.stage`: what a selection works on.
* `Selector.Starves`: some step of the filters leaves nothing.
* `Selector.select_eq`: a selection starves, or the balancer picks from what is left.
* `Selector.balancer_after`: the balancer has picked from what such selections left, and from nothing else.
* `Selector.follows_run`: **what a selection answers after any run.**
-/

namespace CallGuard.Selector

/-- What can be done with a selector: the candidates are replaced, filters are added as the first ones or after
others, or a node is selected for a call with a path. -/
inductive Step where
  | update (nodes : List Node)
  | apply (filters : List NodeFilter)
  | select (path : String)

/-! ## What a selection works on -/

/-- The nodes of the latest update. -/
def latest : List Step → List Node
  | [] => []
  | .update nodes :: _ => nodes
  | _ :: past => latest past

/-- All filters, in the order in which they were added. -/
def added : List Step → List NodeFilter
  | [] => []
  | .apply filters :: past => added past ++ filters
  | _ :: past => added past

/-- What is left of the candidates after so many filters, one applied after another. -/
def stage (nodes : List Node) (filters : List NodeFilter) (count : Nat) : List Node :=
  (filters.take count).foldl (fun left f => f left) nodes

/-- **Some step leaves nothing**: there are no candidates, or a filter leaves none. -/
def Starves (nodes : List Node) (filters : List NodeFilter) : Prop :=
  ∃ count, count ≤ filters.length ∧ stage nodes filters count = []

instance (nodes : List Node) (filters : List NodeFilter) : Decidable (Starves nodes filters) :=
  inferInstanceAs (Decidable (∃ count, count ≤ filters.length ∧ stage nodes filters count = []))

/-- What the balancer is to pick from. -/
def left (nodes : List Node) (filters : List NodeFilter) : List Node := stage nodes filters filters.length

/-- **The lists that the balancer was asked about**, latest first: those of the selections that did not
starve. -/
def asked : List Step → List (List Node)
  | [] => []
  | .select _ :: past =>
    if Starves (latest past) (added past) then asked past
    else left (latest past) (added past) :: asked past
  | _ :: past => asked past

variable {β : Type} {nodes : List Node} {f : NodeFilter} {filters : List NodeFilter}

theorem starves_nil : Starves nodes [] ↔ nodes = [] := by
  constructor
  · rintro ⟨count, hcount, hstage⟩
    have hzero : count = 0 := Nat.le_zero.1 hcount
    subst hzero
    exact hstage
  · intro h
    exact ⟨0, Nat.le_refl _, h⟩

theorem starves_cons : Starves nodes (f :: filters) ↔ nodes = [] ∨ Starves (f nodes) filters := by
  constructor
  · rintro ⟨count, hcount, hstage⟩
    cases count with
    | zero => exact .inl hstage
    | succ count => exact .inr ⟨count, Nat.le_of_succ_le_succ hcount, hstage⟩
  · rintro (h | ⟨count, hcount, hstage⟩)
    · exact ⟨0, Nat.zero_le _, h⟩
    · exact ⟨count + 1, Nat.succ_le_succ hcount, hstage⟩

theorem left_ne_nil (h : ¬Starves nodes filters) : left nodes filters ≠ [] := by
  intro hnil
  exact h ⟨filters.length, Nat.le_refl _, hnil⟩

/-! ## One selection -/

/-- The filters stop at the first step that leaves nothing. -/
theorem filterFrom_eq (hne : nodes ≠ []) (filters : List NodeFilter) (step : Nat) :
    (Starves nodes filters → ∃ failed, filterFrom step nodes filters = .error failed) ∧
      (¬Starves nodes filters → filterFrom step nodes filters = .ok (left nodes filters)) := by
  induction filters generalizing nodes step with
  | nil =>
    rw [starves_nil]
    exact ⟨fun h => absurd h hne, fun _ => rfl⟩
  | cons f rest ih =>
    rw [starves_cons, or_iff_right hne]
    unfold filterFrom
    by_cases hf : f nodes = []
    · rw [if_pos (List.isEmpty_iff.2 hf)]
      exact ⟨fun _ => ⟨step, rfl⟩, fun h => absurd ⟨0, Nat.zero_le _, hf⟩ h⟩
    · rw [if_neg (mt List.isEmpty_iff.1 hf)]
      exact ih hf (step + 1)

theorem candidates_eq (s : Selector β) (path : String) :
    (Starves s.nodes s.filters → ∃ e, s.candidates path = .error e) ∧
      (¬Starves s.nodes s.filters → s.candidates path = .ok (left s.nodes s.filters)) := by
  unfold candidates
  by_cases hnodes : s.nodes = []
  · rw [if_pos (List.isEmpty_iff.2 hnodes)]
    exact ⟨fun _ => ⟨_, rfl⟩, fun h => absurd ⟨0, Nat.zero_le _, hnodes⟩ h⟩
  · rw [if_neg (mt List.isEmpty_iff.1 hnodes)]
    obtain ⟨hstarves, hserves⟩ := filterFrom_eq hnodes s.filters 0
    constructor
    · intro h
      obtain ⟨failed, hfailed⟩ := hstarves h
      rw [hfailed]
      exact ⟨_, rfl⟩
    · intro h
      rw [hserves h]

variable [Balancer β]

/-- **A selection starves**, and then the selector stays as it is, or the balancer picks from what is
left. -/
theorem select_eq (s : Selector β) (path : String) :
    (s.select path).1 = (if Starves s.nodes s.filters then .error .noAvailableNode
      else (Balancer.pick s.balancer (left s.nodes s.filters)).1) ∧
    (s.select path).2.2 = if Starves s.nodes s.filters then s
      else { s with balancer := (Balancer.pick s.balancer (left s.nodes s.filters)).2 } := by
  obtain ⟨hstarves, hserves⟩ := s.candidates_eq path
  unfold select
  by_cases h : Starves s.nodes s.filters
  · obtain ⟨e, he⟩ := hstarves h
    rw [he, if_pos h, if_pos h]
    exact ⟨rfl, rfl⟩
  · rw [hserves h, if_neg h, if_neg h]
    exact ⟨rfl, rfl⟩

/-! ## Runs -/

/-- The selector after a run. -/
def after (s : Selector β) : List Step → Selector β
  | [] => s
  | .update nodes :: past => ((after s past).update nodes).2
  | .apply filters :: past => (after s past).apply filters
  | .select path :: past => ((after s past).select path).2.2

theorem nodes_after (balancer : β) (run : List Step) : ((new balancer).after run).nodes = latest run := by
  induction run with
  | nil => rfl
  | cons step past ih =>
    cases step with
    | update nodes => rfl
    | apply filters => exact ih
    | select path => exact (select_nodes _ path).1.trans ih

theorem filters_after (balancer : β) (run : List Step) : ((new balancer).after run).filters = added run := by
  induction run with
  | nil => rfl
  | cons step past ih =>
    cases step with
    | update nodes => exact ih
    | apply filters =>
      show ((new balancer).after past).filters ++ filters = added past ++ filters
      rw [ih]
    | select path => exact (select_nodes _ path).2.trans ih

/-- **The balancer is asked once for every selection that does not starve**, and never otherwise. -/
theorem balancer_after (balancer : β) (run : List Step) :
    ((new balancer).after run).balancer =
      (asked run).foldr (fun nodes b => (Balancer.pick b nodes).2) balancer := by
  induction run with
  | nil => rfl
  | cons step past ih =>
    cases step with
    | update nodes => exact ih
    | apply filters => exact ih
    | select path =>
      have hselect := (select_eq ((new balancer).after past) path).2
      rw [nodes_after, filters_after] at hselect
      show (((new balancer).after past).select path).2.2.balancer = _
      rw [hselect, asked]
      by_cases h : Starves (latest past) (added past)
      · rw [if_pos h, if_pos h]
        exact ih
      · rw [if_neg h, if_neg h, List.foldr_cons, ← ih]

/-- **A selection after a run** works on the nodes of the latest update and on all filters. If some step leaves
nothing, it answers that there is no node, and the balancer stays as it is. Else it answers what the balancer picks,
which has picked once then. -/
structure Follows (s : Selector β) (run : List Step) (path : String) : Prop where
  answer : (s.select path).1 = if Starves (latest run) (added run) then .error .noAvailableNode
    else (Balancer.pick s.balancer (left (latest run) (added run))).1
  balancer : (s.select path).2.2.balancer = if Starves (latest run) (added run) then s.balancer
    else (Balancer.pick s.balancer (left (latest run) (added run))).2

theorem follows_after (balancer : β) (run : List Step) (path : String) :
    ((new balancer).after run).Follows run path := by
  obtain ⟨hanswer, hselect⟩ := select_eq ((new balancer).after run) path
  rw [nodes_after, filters_after] at hanswer hselect
  refine ⟨hanswer, ?_⟩
  rw [hselect]
  split <;> rfl

/-- **What a selection answers after any run.** With any balancer it follows the run, and the balancer has
picked from what earlier selections left for it. A built-in balancer answers with a node of what is left,
so that only a step that leaves nothing makes a selection fail. -/
theorem follows_run (run : List Step) (path : String) :
    (∀ (β : Type) [Balancer β] (balancer : β), ((new balancer).after run).Follows run path ∧
      ((new balancer).after run).balancer =
        (asked run).foldr (fun nodes b => (Balancer.pick b nodes).2) balancer) ∧
    ∀ strategy : Strategy,
      ((((new strategy).after run).select path).1 = .error .noAvailableNode ↔
        Starves (latest run) (added run)) ∧
      (Starves (latest run) (added run) ∨
        ∃ n ∈ left (latest run) (added run), (((new strategy).after run).select path).1 = .ok n) := by
  refine ⟨fun β _ balancer => ⟨follows_after balancer run path, balancer_after balancer run⟩,
    fun strategy => ?_⟩
  have hanswer := (follows_after strategy run path).answer
  by_cases h : Starves (latest run) (added run)
  · rw [if_pos h] at hanswer
    exact ⟨⟨fun _ => h, fun _ => hanswer⟩, .inl h⟩
  · obtain ⟨n, hn, hpick⟩ := ((new strategy).after run).balancer.pick_mem (left_ne_nil h)
    rw [if_neg h] at hanswer
    have hok : (((new strategy).after run).select path).1 = .ok n := hanswer.trans hpick
    rw [hok]
    exact ⟨⟨fun herror => (by cases herror), fun hstarves => absurd hstarves h⟩, .inr ⟨n, hn, rfl⟩⟩

/-- Filters may bring nodes back in another order, and the next ones see those. -/
example : Starves [.new "a" "a:80", .new "b" "b:80"] [List.reverse, List.take 1, List.filter (·.id = "a")] := by
  decide

end CallGuard.Selector
