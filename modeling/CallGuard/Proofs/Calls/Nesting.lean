import CallGuard.Simulation.Bench

/-!
# Chains in chains

A member of a chain may be a chain itself, to any depth. A call does not notice: it goes
through the middlewares that are no chains, from left to right. A gate is a middleware that
notes a call on its way in and on its way out, and may answer it instead of calling on. A call
goes in up to the first gate that answers, or to the handler if none does, and comes out
through the same gates.

* `Chain.Tree.wrap_eq`: a tree of chains wraps as the chain of its leaves.
* `Chain.Tree.Padded.leaves_eq`: an empty chain adds no leaf, wherever it is put.
* `Gate.runFrom_layer`: what one gate does to a call.
* `Gate.onion`: what gates around one another do to it.
* `Chain.nests`: **chains nest and flatten**, and gates in a chain are passed in order and in reverse.
-/

namespace CallGuard

variable {σ Req Resp : Type}

/-! ## Trees -/

namespace Chain

/-- Middlewares put together to chains, and these to further chains. -/
inductive Tree (σ Req Resp : Type) where
  | leaf (layer : Middleware σ Req Resp)
  | node (members : List (Tree σ Req Resp))

namespace Tree

mutual

/-- **A tree as one middleware**: every node is the chain of its members. -/
def wrap : Tree σ Req Resp → Middleware σ Req Resp
  | leaf layer => layer
  | node members => Chain.wrap (wrapAll members)

/-- Each tree of a list as one middleware. -/
def wrapAll : List (Tree σ Req Resp) → Chain σ Req Resp
  | [] => []
  | t :: rest => t.wrap :: wrapAll rest

end

mutual

/-- The middlewares of a tree, from left to right. -/
def leaves : Tree σ Req Resp → Chain σ Req Resp
  | leaf layer => [layer]
  | node members => leavesAll members

/-- The middlewares of a list of trees, from left to right. -/
def leavesAll : List (Tree σ Req Resp) → Chain σ Req Resp
  | [] => []
  | t :: rest => t.leaves ++ leavesAll rest

end

mutual

/-- **A tree wraps as the chain of its leaves.** -/
theorem wrap_eq : ∀ t : Tree σ Req Resp, t.wrap = Chain.wrap t.leaves
  | leaf layer => rfl
  | node members => by
    funext next
    rw [wrap, leaves]
    exact wrap_wrapAll members next

theorem wrap_wrapAll : ∀ (trees : List (Tree σ Req Resp)) (next : Handler σ Req Resp),
    Chain.wrap (wrapAll trees) next = Chain.wrap (leavesAll trees) next
  | [], _ => rfl
  | t :: rest, next => by
    rw [wrapAll, leavesAll, wrap_cons, wrap_append, wrap_wrapAll rest next, wrap_eq t]

end

theorem leavesAll_append (before after : List (Tree σ Req Resp)) :
    leavesAll (before ++ after) = leavesAll before ++ leavesAll after := by
  induction before with
  | nil => rfl
  | cons t before ih => rw [List.cons_append, leavesAll, leavesAll, ih, List.append_assoc]

/-- **An empty chain is put somewhere** into a tree, at any depth. -/
inductive Padded : Tree σ Req Resp → Tree σ Req Resp → Prop where
  | here (before after : List (Tree σ Req Resp)) :
      Padded (node (before ++ after)) (node (before ++ node [] :: after))
  | within {t padded : Tree σ Req Resp} (before after : List (Tree σ Req Resp)) : Padded t padded →
      Padded (node (before ++ t :: after)) (node (before ++ padded :: after))

/-- **An empty chain adds no leaf.** -/
theorem Padded.leaves_eq {t padded : Tree σ Req Resp} (h : Padded t padded) : padded.leaves = t.leaves := by
  induction h with
  | here before after =>
    have hempty : (node [] : Tree σ Req Resp).leaves = [] := by rw [leaves, leavesAll]
    rw [leaves, leaves, leavesAll_append, leavesAll_append, leavesAll, hempty, List.nil_append]
  | within before after _ ih =>
    rw [leaves, leaves, leavesAll_append, leavesAll_append, leavesAll, leavesAll, ih]

end Tree

end Chain

/-! ## Gates -/

/-- A middleware that notes the calls that come in and go out, under its name. It may have an answer of its own to a
call, and then does not call on. -/
structure Gate (σ Req Resp : Type) where
  name : String
  answer : σ → Context → Req → Option (Reply Resp)

namespace Gate

/-- The note on the way in. -/
def entry (gate : Gate σ Req Resp) : String := "before_" ++ gate.name

/-- The note on the way out. -/
def exit (gate : Gate σ Req Resp) : String := "after_" ++ gate.name

variable (trace : Cell σ (Array String))

/-- **A gate as a middleware.** It sees the state with its own note. -/
def layer (gate : Gate σ Req Resp) : Middleware σ Req Resp := fun next ctx req => do
  Run.update trace fun notes => notes.push gate.entry
  let s ← Run.read (.whole σ)
  let reply ← match gate.answer s ctx req with
    | some reply => pure reply
    | none => next ctx req
  Run.update trace fun notes => notes.push gate.exit
  return reply

/-- A state with more notes. -/
def noted (s : σ) (notes : List String) : σ := trace.set s (trace.get s ++ notes.toArray)

variable {trace}

theorem noted_nil (htrace : trace.Lawful) (s : σ) : noted trace s [] = s := by
  rw [noted, Array.append_empty]
  exact htrace.set_get s

theorem noted_noted (htrace : trace.Lawful) (s : σ) (notes more : List String) :
    noted trace (noted trace s notes) more = noted trace s (notes ++ more) := by
  simp only [noted, htrace.get_set, htrace.set_set, Array.append_assoc, List.append_toArray]

theorem runFrom_note (text : String) (s : σ) :
    (Run.update trace fun notes => notes.push text).runFrom s = (.ok (), noted trace s [text]) := by
  rw [Run.runFrom_update, noted, Array.append_singleton]

/-- What a gate leaves of a run that it called on to: another note, if there is a reply. -/
def left (trace : Cell σ (Array String)) (notes : List String) :
    Except TimeError (Reply Resp) × σ → Except TimeError (Reply Resp) × σ
  | (.ok reply, s) => (.ok reply, noted trace s notes)
  | (.error e, s) => (.error e, s)

/-- **A call at a gate** is noted, and then answered or handed on. -/
theorem runFrom_layer (gate : Gate σ Req Resp) (next : Handler σ Req Resp) (ctx : Context) (req : Req)
    (s : σ) :
    (gate.layer trace next ctx req).runFrom s = left trace [gate.exit]
      (match gate.answer (noted trace s [gate.entry]) ctx req with
        | some reply => (.ok reply, noted trace s [gate.entry])
        | none => (next ctx req).runFrom (noted trace s [gate.entry])) := by
  have hread : ∀ s : σ, (Run.read (.whole σ)).runFrom s = (.ok s, s) := fun _ => rfl
  simp only [layer, Run.runFrom_bind, runFrom_note, hread]
  cases gate.answer (noted trace s [gate.entry]) ctx req with
  | some reply => simp only [Run.runFrom_bind, runFrom_note, Run.runFrom_pure, left]
  | none =>
    simp only [Run.runFrom_bind, runFrom_note, Run.runFrom_pure]
    rcases (next ctx req).runFrom (noted trace s [gate.entry]) with ⟨e | reply, s'⟩ <;> simp only [left]

/-- **What the gate at a place answers** to a call that came in through all gates before it. -/
def answerAt (trace : Cell σ (Array String)) (gates : List (Gate σ Req Resp)) (s : σ) (ctx : Context) (req : Req)
    (place : Nat) : Option (Reply Resp) :=
  gates[place]?.bind fun gate => gate.answer (noted trace s ((gates.take (place + 1)).map entry)) ctx req

theorem answerAt_cons_zero (gate : Gate σ Req Resp) (gates : List (Gate σ Req Resp)) (s : σ) (ctx : Context)
    (req : Req) :
    answerAt trace (gate :: gates) s ctx req 0 = gate.answer (noted trace s [gate.entry]) ctx req := rfl

theorem answerAt_cons_succ (htrace : trace.Lawful) (gate : Gate σ Req Resp) (gates : List (Gate σ Req Resp))
    (s : σ) (ctx : Context) (req : Req) (place : Nat) :
    answerAt trace (gate :: gates) s ctx req (place + 1) =
      answerAt trace gates (noted trace s [gate.entry]) ctx req place := by
  simp only [answerAt, List.getElem?_cons_succ, List.take_succ_cons, List.map_cons, noted_noted htrace,
    List.singleton_append]

/-- **What gates around one another do to a call.** The first gate that answers gives the reply. Nothing further in
is called: the call has been noted on its way in up to this gate, and by the same gates on its way out. If none
answers, the handler is called once, in between all notes. -/
structure Onion (trace : Cell σ (Array String)) (gates : List (Gate σ Req Resp)) (next : Handler σ Req Resp)
    (ctx : Context) (req : Req) (s : σ) : Prop where
  answered : ∀ place reply, answerAt trace gates s ctx req place = some reply →
    (∀ i < place, answerAt trace gates s ctx req i = none) →
    (Chain.wrap (gates.map (layer trace)) next ctx req).runFrom s =
      (.ok reply, noted trace s ((gates.take (place + 1)).map entry ++
        ((gates.take (place + 1)).map exit).reverse))
  handled : (∀ i, answerAt trace gates s ctx req i = none) →
    (Chain.wrap (gates.map (layer trace)) next ctx req).runFrom s =
      left trace (gates.map exit).reverse ((next ctx req).runFrom (noted trace s (gates.map entry)))

theorem left_left (htrace : trace.Lawful) (notes more : List String) (r : Except TimeError (Reply Resp) × σ) :
    left trace more (left trace notes r) = left trace (notes ++ more) r := by
  rcases r with ⟨e | reply, s⟩ <;> simp only [left, noted_noted htrace]

theorem left_nil (htrace : trace.Lawful) (r : Except TimeError (Reply Resp) × σ) : left trace [] r = r := by
  rcases r with ⟨e | reply, s⟩ <;> simp only [left, noted_nil htrace]

/-- **Gates around one another**: one gate, and within it the rest of them. -/
theorem onion (htrace : trace.Lawful) (gates : List (Gate σ Req Resp)) (next : Handler σ Req Resp)
    (ctx : Context) (req : Req) (s : σ) : Onion trace gates next ctx req s := by
  induction gates generalizing s with
  | nil =>
    refine ⟨fun place reply hanswer => ?_, fun _ => ?_⟩
    · simp [answerAt] at hanswer
    · simp only [List.map_nil, List.reverse_nil, Chain.wrap_nil, noted_nil htrace, left_nil htrace]
  | cons gate gates ih =>
    have hwrap : (Chain.wrap ((gate :: gates).map (layer trace)) next ctx req).runFrom s =
        (gate.layer trace (Chain.wrap (gates.map (layer trace)) next) ctx req).runFrom s := by
      rw [List.map_cons, Chain.wrap_cons]
    have hrest := ih (noted trace s [gate.entry])
    constructor
    · intro place reply hanswer hfirst
      rw [hwrap, runFrom_layer]
      cases place with
      | zero =>
        rw [answerAt_cons_zero] at hanswer
        simp only [hanswer, left, noted_noted htrace]
        rfl
      | succ place =>
        have hgate := hfirst 0 (Nat.succ_pos place)
        rw [answerAt_cons_zero] at hgate
        rw [answerAt_cons_succ htrace] at hanswer
        have hearlier : ∀ i < place, answerAt trace gates (noted trace s [gate.entry]) ctx req i = none := by
          intro i hi
          rw [← answerAt_cons_succ htrace]
          exact hfirst (i + 1) (Nat.succ_lt_succ hi)
        simp only [hgate, hrest.answered place reply hanswer hearlier, left, noted_noted htrace]
        simp only [List.take_succ_cons, List.map_cons, List.reverse_cons, List.append_assoc, List.cons_append,
          List.nil_append]
    · intro hnone
      have hgate := hnone 0
      rw [answerAt_cons_zero] at hgate
      have hothers : ∀ i, answerAt trace gates (noted trace s [gate.entry]) ctx req i = none := by
        intro i
        rw [← answerAt_cons_succ htrace]
        exact hnone (i + 1)
      rw [hwrap, runFrom_layer]
      simp only [hgate, hrest.handled hothers, left_left htrace, noted_noted htrace]
      simp only [List.map_cons, List.reverse_cons, List.cons_append, List.nil_append]

end Gate

/-! ## Gates of a bench -/

namespace Bench

/-- The trace. -/
def traceCell : Cell Bench (Array String) := ⟨trace, fun b trace => { b with trace }⟩

theorem traceCell_lawful : traceCell.Lawful := ⟨fun _ _ => rfl, fun _ => rfl, fun _ _ _ => rfl⟩

/-- A recording layer is a gate that never answers. -/
theorem recordLayer_eq (name : String) : recordLayer name = Gate.layer traceCell ⟨name, fun _ _ _ => none⟩ := rfl

/-- A recording layer around one that denies is a gate that always answers. -/
theorem recordLayer_denyLayer (name : String) (e : CallError) :
    Chain.wrap [recordLayer name, denyLayer e] =
      Gate.layer traceCell ⟨name, fun _ _ _ => some (.error e)⟩ := rfl

end Bench

/-! ## Chains -/

/-- **Chains nest and flatten.** A tree of chains wraps a handler as the flat chain of its leaves does, and an
empty chain anywhere in it has no effect. In a chain of gates a call goes in up to the first one that
answers, or to the handler, and out again through the same gates. -/
theorem Chain.nests :
    (∀ (t : Tree σ Req Resp) (next : Handler σ Req Resp), t.wrap next = Chain.wrap t.leaves next) ∧
    (∀ (t padded : Tree σ Req Resp) (next : Handler σ Req Resp), Tree.Padded t padded →
      padded.wrap next = t.wrap next) ∧
    ∀ (trace : Cell σ (Array String)), trace.Lawful → ∀ (gates : List (Gate σ Req Resp))
      (next : Handler σ Req Resp) (ctx : Context) (req : Req) (s : σ), Gate.Onion trace gates next ctx req s := by
  refine ⟨fun t next => ?_, fun t padded next hpadded => ?_, fun trace htrace gates next ctx req s => ?_⟩
  · rw [t.wrap_eq]
  · rw [padded.wrap_eq, t.wrap_eq, hpadded.leaves_eq]
  · exact Gate.onion htrace gates next ctx req s

/-- Three gates of a bench. The second one may deny all calls. -/
def Bench.gates (denial : Option CallError) : List (Gate Bench String String) :=
  [⟨"a", fun _ _ _ => none⟩, ⟨"b", fun _ _ _ => denial.map .error⟩, ⟨"c", fun _ _ _ => none⟩]

/-- A service that notes the request and sends it back. -/
def Bench.echo : Handler Bench String String := fun _ req => do
  note ("handler(" ++ req ++ ")")
  return .ok req

theorem Chain.nests_denied :
    Bench.traceCell.Lawful ∧
    (Chain.wrap [Bench.recordLayer "a", Chain.wrap [Bench.recordLayer "b", Bench.denyLayer .noAvailableNode],
        Bench.recordLayer "c"] Bench.echo .background "x").runFrom .start =
      (.ok (.error .noAvailableNode),
        { Bench.start with trace := #["before_a", "before_b", "after_b", "after_a"] }) ∧
    (Chain.wrap [Bench.recordLayer "a", Bench.recordLayer "b", Bench.recordLayer "c"] Bench.echo
        .background "x").runFrom .start =
      (.ok (.ok "x"), { Bench.start with
        trace := #["before_a", "before_b", "before_c", "handler(x)", "after_c", "after_b", "after_a"] }) ∧
    Tree.Padded (.node [.leaf (Bench.recordLayer "a"), .node [.leaf (Bench.tagLayer "b")]])
      (.node [.leaf (Bench.recordLayer "a"), .node [.node [], .leaf (Bench.tagLayer "b")]]) ∧
    (Tree.node [.leaf (Bench.recordLayer "a"), .node [.node [], .leaf (Bench.tagLayer "b")]]).wrap Bench.echo =
      (Tree.node [.leaf (Bench.recordLayer "a"), .node [.leaf (Bench.tagLayer "b")]]).wrap Bench.echo := by
  obtain ⟨-, hpadded, honion⟩ := @Chain.nests Bench String String
  have hgates := fun denial => honion Bench.traceCell Bench.traceCell_lawful (Bench.gates denial) Bench.echo
    .background "x" .start
  have hinner : Tree.Padded (.node [.leaf (Bench.recordLayer "a"), .node [.leaf (Bench.tagLayer "b")]])
      (.node [.leaf (Bench.recordLayer "a"), .node [.node [], .leaf (Bench.tagLayer "b")]]) :=
    .within [.leaf (Bench.recordLayer "a")] [] (.here [] [.leaf (Bench.tagLayer "b")])
  have hfirst : ∀ i < 1, Gate.answerAt Bench.traceCell (Bench.gates (some .noAvailableNode)) .start .background
      "x" i = none := by
    intro i hi
    obtain rfl : i = 0 := by omega
    rfl
  have hnone : ∀ i, Gate.answerAt Bench.traceCell (Bench.gates none) .start .background "x" i = none := by
    intro i
    match i with
    | 0 => rfl
    | 1 => rfl
    | 2 => rfl
    | _ + 3 => rfl
  refine ⟨Bench.traceCell_lawful, ?_, ?_, hinner, hpadded _ _ _ hinner⟩
  · rw [Bench.recordLayer_denyLayer, Bench.recordLayer_eq, Bench.recordLayer_eq]
    exact (hgates (some .noAvailableNode)).answered 1 _ rfl hfirst
  · rw [Bench.recordLayer_eq, Bench.recordLayer_eq, Bench.recordLayer_eq]
    exact (hgates none).handled hnone

end CallGuard
