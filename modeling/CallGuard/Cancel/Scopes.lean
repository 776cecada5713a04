import CallGuard.Cancel.Reason

/-!
# Cancellation scopes

Scopes form a forest: a scope derived from another is cancelled with it. Scopes
are numbered in the order they are made, so a parent has a smaller number than its
children. A parent knows its children only while something holds them: a
cancellation passes from a scope to the held children that are not cancelled yet,
and never through a scope that nothing holds.

* `Scopes.reason?_add`: a scope derived from a cancelled one starts out cancelled.
* `Scopes.length_cancel`: cancelling makes and removes no scope.
-/

namespace CallGuard

/-- The number of a scope. -/
abbrev ScopeId := Nat

/-- What is known of a scope: the one it was derived from, why it was cancelled, if it was, and whether something
refers to it still. -/
structure Scope where
  parent : Option ScopeId
  reason : Option CancelReason
  held : Bool
deriving DecidableEq

/-- All scopes. The one of number `n` is at place `n`. -/
structure Scopes where
  list : List Scope
deriving DecidableEq

namespace Scopes

/-- No scopes. -/
def empty : Scopes := ⟨[]⟩

instance : Inhabited Scopes := ⟨empty⟩

/-- Why a scope was cancelled, if it was. -/
def reason? (s : Scopes) (id : ScopeId) : Option CancelReason := (s.list[id]?).bind Scope.reason

/-- **A new scope**, derived from a parent or on its own. It takes over the parent's reason. -/
def add (s : Scopes) (parent : Option ScopeId) : ScopeId × Scopes :=
  (s.list.length, ⟨s.list ++ [⟨parent, parent.bind s.reason?, true⟩]⟩)

/-- Passes a cancellation of `target` on through the scopes from number `i` on. `reached` are the scopes
before them that it has newly cancelled. -/
def spread (target : ScopeId) (reason : CancelReason) (reached : List ScopeId) (i : ScopeId) :
    List Scope → List Scope
  | [] => []
  | scope :: rest =>
    let isReached := i == target || (scope.held && scope.parent.any reached.contains)
    if isReached && scope.reason.isNone then
      { scope with reason := some reason } :: spread target reason (i :: reached) (i + 1) rest
    else scope :: spread target reason reached (i + 1) rest

/-- **Cancels a scope** and the held scopes below it. The first reason of a scope stays. -/
def cancel (s : Scopes) (id : ScopeId) (reason : CancelReason) : Scopes :=
  ⟨spread id reason [] 0 s.list⟩

/-- Marks the scopes from number `i` on that are no longer held. -/
def releaseFrom (isHeld : ScopeId → Bool) (i : ScopeId) : List Scope → List Scope
  | [] => []
  | scope :: rest =>
    { scope with held := scope.held && isHeld i } :: releaseFrom isHeld (i + 1) rest

/-- The same scopes when only those of `isHeld` are still referred to. A scope let go never comes back. -/
def release (s : Scopes) (isHeld : ScopeId → Bool) : Scopes := ⟨releaseFrom isHeld 0 s.list⟩

theorem reason?_add (s : Scopes) (parent : Option ScopeId) :
    (s.add parent).2.reason? (s.add parent).1 = parent.bind s.reason? := by
  simp [add, reason?]

theorem length_spread (target : ScopeId) (reason : CancelReason) (list : List Scope) :
    ∀ reached i, (spread target reason reached i list).length = list.length := by
  induction list with
  | nil => intros; rfl
  | cons scope rest ih =>
    intro reached i
    simp only [spread]
    split <;> simp [ih]

@[simp] theorem length_cancel (s : Scopes) (id : ScopeId) (reason : CancelReason) :
    (s.cancel id reason).list.length = s.list.length := length_spread _ _ _ _ _

end Scopes

end CallGuard
