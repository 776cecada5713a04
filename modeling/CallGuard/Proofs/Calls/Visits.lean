import CallGuard.Handler

/-!
# Watching a handler

What a layer does with its handler is seen by watching the handler: every invocation
leaves a note of what it was called with, from which state to which, and what came of
it. The notes are kept beside the state, out of reach of handler and layer.

* `Visit`: the note of one invocation.
* `Handler.watched`: a handler that leaves a note of every invocation.
* `Handler.flaky`: a handler that fails at first.
* `Cell.first`: the state of a watched call is the first part of what there is.
* `Env.noted`, `Env.timed`: what a report and the passing of time make of a state.
-/

namespace CallGuard

variable {σ Req Resp : Type}

/-- One invocation of a handler: what it was given and in which state, the reply or the time computation that
failed, and the state in which it came back. -/
structure Visit (σ Req Resp : Type) where
  ctx : Context
  req : Req
  start : σ
  outcome : Except TimeError (Reply Resp)
  finish : σ

/-- An invocation of a handler in a state. -/
def Handler.visit (next : Handler σ Req Resp) (ctx : Context) (req : Req) (s : σ) :
    Visit σ Req Resp :=
  ⟨ctx, req, s, ((next ctx req).runFrom s).1, ((next ctx req).runFrom s).2⟩

/-- **A watched handler** does what the handler does, and notes every invocation. -/
def Handler.watched (next : Handler σ Req Resp) :
    Handler (σ × List (Visit σ Req Resp)) Req Resp := fun ctx req =>
  ExceptT.mk fun w =>
    let v := next.visit ctx req w.1
    (v.outcome, v.finish, w.2 ++ [v])

theorem Handler.visit_watched (next : Handler σ Req Resp) (ctx : Context) (req : Req) (s : σ)
    (visits : List (Visit σ Req Resp)) :
    next.watched.visit ctx req (s, visits) =
      ⟨ctx, req, (s, visits), (next.visit ctx req s).outcome, (next.visit ctx req s).finish,
        visits ++ [next.visit ctx req s]⟩ := rfl

/-- The first of two things. -/
def Cell.first (α β : Type) : Cell (α × β) α := ⟨Prod.fst, fun p a => (a, p.2)⟩

/-- The second of two things. -/
def Cell.second (α β : Type) : Cell (α × β) β := ⟨Prod.snd, fun p b => (p.1, b)⟩

theorem Cell.first_lawful (α β : Type) : (Cell.first α β).Lawful :=
  ⟨fun _ _ => rfl, fun _ => rfl, fun _ _ _ => rfl⟩

/-- A handler that counts its invocations, and fails as often as it is told. -/
def Handler.flaky (failures : Nat) : Handler (Env × Nat) String String := fun _ _ => do
  let calls ← Run.read (Cell.second Env Nat)
  Run.write (Cell.second Env Nat) (calls + 1)
  return if calls < failures then .error (.call "down") else .ok "up"

theorem Cell.second_lawful (α β : Type) : (Cell.second α β).Lawful :=
  ⟨fun _ _ => rfl, fun _ => rfl, fun _ _ _ => rfl⟩

theorem Cell.first_disjoint_second (α β : Type) : (Cell.first α β).Disjoint (Cell.second α β) :=
  ⟨fun _ _ => rfl, fun _ _ => rfl, fun _ _ _ => rfl⟩

/-- The surroundings of a watched call: those of the call, whatever is noted beside. -/
abbrev Cell.beside (ν : Type) (env : Cell σ Env) : Cell (σ × ν) Env := (Cell.first σ ν).via env

namespace Env

/-- The state with one more event in the log. -/
def noted (env : Cell σ Env) (e : Event) (s : σ) : σ :=
  env.set s { env.get s with log := (env.get s).log.push e }

/-- The state with another timeline. -/
def timed (env : Cell σ Env) (t : Timeline) (s : σ) : σ :=
  env.set s { env.get s with timeline := t }

end Env

end CallGuard
