import CallGuard.Handler

/-!
# Scripted services

A service that behaves as written down: for each call how long it takes, what else
happens meanwhile and what it answers. The last entry of a script stands for all
calls after it as well.
-/

namespace CallGuard

/-- How one call to a scripted service goes: how long it takes, how far the clock of breakers and limiters moves on,
the reason for which the caller is cancelled, and the reply, if it is not the standard one. These take place in the
order of the fields. -/
structure Script.Entry where
  delay : Option Span
  advance : Option Span
  cancel : Option CancelReason
  reply : Option (Reply String)

/-- A call that takes no time and has the standard reply. -/
def Script.Entry.plain : Script.Entry := ⟨none, none, none, none⟩

/-- Entries for the first calls; the last one repeats. -/
abbrev Script := List Script.Entry

namespace Script

/-- The entry for a call, counted from zero. -/
def entry (s : Script) (call : Nat) : Entry := (s[min call (s.length - 1)]?).getD .plain

variable {σ : Type}

/-- **The scripted service.** The cell counts the calls; `caller` is the scope that a script may cancel. -/
def handler (s : Script) (env : Cell σ Env) (calls : Cell σ Nat) (caller : Option ScopeId) :
    Handler σ String String := fun _ req => do
  let call ← Run.read calls
  Run.write calls (call + 1)
  let e := s.entry call
  match e.delay with
  | some span => Env.sleep env span
  | none => pure ()
  match e.advance with
  | some span => Env.advanceClock env span
  | none => pure ()
  match caller, e.cancel with
  | some scope, some reason => Env.cancel env scope reason
  | _, _ => pure ()
  return e.reply.getD (.ok ("response to " ++ req))

end Script

end CallGuard
