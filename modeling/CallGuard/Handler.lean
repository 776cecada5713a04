import CallGuard.Env

/-!
# Handlers, middleware and chains

A handler turns a context and a request into a reply. A middleware puts a handler
around a handler. A chain puts its middlewares around one another, the first one
outermost: it runs first on the way in and last on the way out.

* `Chain.wrap_append`: one chain after another wraps as both together.
* `Chain.wrap_nested`: a chain inside a chain wraps as its members in its place.
-/

namespace CallGuard

/-- What a call comes back with. -/
abbrev Reply (Resp : Type) := Except CallError Resp

/-- The error that a call came back with, if it failed. -/
def Reply.error? {Resp : Type} : Reply Resp → Option CallError
  | .ok _ => none
  | .error e => some e

/-- Performs calls. -/
abbrev Handler (σ Req Resp : Type) := Context → Req → Run σ (Reply Resp)

/-- Puts a handler around a handler. -/
abbrev Middleware (σ Req Resp : Type) := Handler σ Req Resp → Handler σ Req Resp

/-- Middlewares from the outermost to the innermost. -/
abbrev Chain (σ Req Resp : Type) := List (Middleware σ Req Resp)

namespace Chain

variable {σ Req Resp : Type}

/-- **A chain as one middleware**: its members around one another. -/
def wrap (layers : Chain σ Req Resp) : Middleware σ Req Resp :=
  fun next => layers.foldr (fun layer inner => layer inner) next

@[simp] theorem wrap_nil (next : Handler σ Req Resp) : wrap [] next = next := rfl

@[simp] theorem wrap_cons (layer : Middleware σ Req Resp) (layers : Chain σ Req Resp)
    (next : Handler σ Req Resp) : wrap (layer :: layers) next = layer (wrap layers next) := rfl

theorem wrap_append (outer inner : Chain σ Req Resp) (next : Handler σ Req Resp) :
    wrap (outer ++ inner) next = wrap outer (wrap inner next) :=
  List.foldr_append

/-- **A nested chain counts as its members.** -/
theorem wrap_nested (outer inner rest : Chain σ Req Resp) (next : Handler σ Req Resp) :
    wrap (outer ++ wrap inner :: rest) next = wrap (outer ++ (inner ++ rest)) next := by
  rw [wrap_append, wrap_append, wrap_append, wrap_cons]

end Chain

end CallGuard
