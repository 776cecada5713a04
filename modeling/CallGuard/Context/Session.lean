import CallGuard.Context.Timeline
import CallGuard.KeyMap

/-!
# Sessions of named contexts

A session keeps contexts, tokens and handles under names. A **token** shows
whether its scope is cancelled, a **handle** cancels it. A scope is held while a
name refers to it; a name that is reused or dropped lets go of what it had.

* `Session.step`: one action and its answer.
* `Session.run`: a list of actions.
-/

namespace CallGuard

/-- Contexts by name, and the scopes of tokens and handles by name. -/
structure Session where
  timeline : Timeline
  contexts : KeyMap Context
  tokens : KeyMap ScopeId
  handles : KeyMap ScopeId

namespace Session

/-- The session without names. -/
def start : Session := ⟨.start, .empty, .empty, .empty⟩

instance : Inhabited Session := ⟨start⟩

/-- A cancellation by a handle, planned for some milliseconds into a wait. -/
structure Plan where
  handle : String
  after : Nat
  reason : CancelReason
deriving DecidableEq

/-- What can be done in a session. Contexts are derived from others, in a new scope with its handle, with a value or
with a deadline; tokens and handles come in pairs, for a scope of its own or below that of a token; names are copied
and given up; contexts and tokens are read, or waited for up to a limit in milliseconds. -/
inductive Action where
  | background (name : String)
  | withCancel (source name handle : String)
  | withValue (source name key value : String)
  | withTimeout (source name : String) (timeout : Span)
  | withDeadline (source name : String) (deadline : Span)
  | clone (source name : String)
  | pair (token handle : String)
  | child (source token handle : String)
  | cancel (handle : String) (reason : CancelReason)
  | drop (name : String)
  | value (context key : String)
  | path (context : String)
  | deadline (context : String)
  | showToken (token : String)
  | advance (ms : Nat)
  | done (context : String) (limit : Nat) (plan : Option Plan)
  | cancelled (token : String) (limit : Nat) (plan : Option Plan)
deriving DecidableEq

/-- What an action answers. A name may be unknown: nothing has it. -/
inductive Answer where
  | nothing
  | text (s : Option String)
  | deadline (at? : Option Instant)
  | count (n : Nat)
  | waited (reason : Option CancelReason) (ms : Nat)
  | failed (e : TimeError)
  | unknownName
deriving DecidableEq

/-- True if a name refers to a scope. -/
def holds (s : Session) (id : ScopeId) : Bool :=
  s.contexts.entries.any (fun e => e.2.scope == some id) ||
    s.tokens.entries.any (fun e => e.2 == id) || s.handles.entries.any (fun e => e.2 == id)

/-- The session after its scopes without a name are let go. -/
def settle (s : Session) : Session :=
  { s with timeline := { s.timeline with scopes := s.timeline.scopes.release s.holds } }

/-- A context put under a name. -/
def setContext (s : Session) (name : String) (c : Context) : Session :=
  settle { s with contexts := s.contexts.set name c }

/-- A token and a handle of a new scope put under names. -/
def setPair (s : Session) (parent : Option ScopeId) (token handle : String) : Session :=
  let (id, scopes) := s.timeline.scopes.add parent
  settle { s with
    timeline := { s.timeline with scopes }
    tokens := s.tokens.set token id
    handles := s.handles.set handle id }

/-- A context and a handle of a new scope put under names. -/
def setCancelable (s : Session) (c : Context) (name handle : String) : Session :=
  let (derived, id, timeline) := s.timeline.withCancel c
  settle { s with
    timeline
    contexts := s.contexts.set name derived
    handles := s.handles.set handle id }

/-- A name given up wherever it is used, and how often it was. -/
def dropName (s : Session) (name : String) : Nat × Session :=
  let count := [s.contexts.get? name |>.isSome, s.tokens.get? name |>.isSome,
    s.handles.get? name |>.isSome].count true
  (count, settle { s with
    contexts := s.contexts.erase name
    tokens := s.tokens.erase name
    handles := s.handles.erase name })

/-- The alarm of a planned cancellation, if its handle exists. -/
def alarm? (s : Session) (plan : Option Plan) : Option Alarm := do
  let plan ← plan
  let scope ← s.handles.get? plan.handle
  return ⟨s.timeline.wakeAfter (.ofMillis plan.after), scope, plan.reason⟩

/-- Waits for the end of a context. A planned cancellation is forgotten when the wait is over. -/
def waitFor (s : Session) (c : Context) (limit : Nat) (plan : Option Plan) : Answer × Session :=
  -- the alarm is there only for this wait
  let before := { s.timeline with alarm := s.alarm? plan }
  -- at the limit itself, the end of the context counts
  let lot := { before.lot with timerFirst := false }
  let (reason, after) := before.race lot c (before.limitAfter limit)
  (.waited reason (after.now - before.now), { s with timeline := { after.drawn with alarm := none } })

/-- The text that shows a token. -/
def tokenText (reason : Option CancelReason) : String :=
  let shown := match reason with
    | some r => "Some(" ++ r.name ++ ")"
    | none => "None"
  "CancelToken \x7b reason: " ++ shown ++ " \x7d"

/-- Answers with the context of a name, if there is one. -/
def withContext (s : Session) (name : String) (f : Context → Answer × Session) : Answer × Session :=
  match s.contexts.get? name with
  | some c => f c
  | none => (.unknownName, s)

/-- Answers with the scope of a name, if there is one. -/
def withScope (s : Session) (names : KeyMap ScopeId) (name : String)
    (f : ScopeId → Answer × Session) : Answer × Session :=
  match names.get? name with
  | some id => f id
  | none => (.unknownName, s)

/-- **One action** and its answer. -/
def step (s : Session) : Action → Answer × Session
  | .background name => (.nothing, s.setContext name .background)
  | .withCancel source name handle =>
    s.withContext source fun c => (.nothing, s.setCancelable c name handle)
  | .withValue source name key value =>
    s.withContext source fun c => (.nothing, s.setContext name (c.withValue key value))
  | .withTimeout source name timeout =>
    s.withContext source fun c =>
      match s.timeline.withTimeout c timeout with
      | .ok derived => (.nothing, s.setContext name derived)
      | .error e => (.failed e, s)
  | .withDeadline source name deadline =>
    s.withContext source fun c =>
      match Instant.origin.add deadline with
      | .ok t => (.nothing, s.setContext name (c.withDeadline t))
      | .error e => (.failed e, s)
  | .clone source name => s.withContext source fun c => (.nothing, s.setContext name c)
  | .pair token handle => (.nothing, s.setPair none token handle)
  | .child source token handle =>
    s.withScope s.tokens source fun id => (.nothing, s.setPair (some id) token handle)
  | .cancel handle reason =>
    s.withScope s.handles handle fun id =>
      (.nothing, { s with timeline := s.timeline.cancel id reason })
  | .drop name =>
    let (count, s) := s.dropName name
    (.count count, s)
  | .value context key => s.withContext context fun c => (.text (c.value key), s)
  | .path context => s.withContext context fun c => (.text c.path, s)
  | .deadline context => s.withContext context fun c => (.deadline c.deadline, s)
  | .showToken token =>
    s.withScope s.tokens token fun id => (.text (tokenText (s.timeline.scopes.reason? id)), s)
  | .advance ms => (.nothing, { s with timeline := s.timeline.advance ms })
  | .done context limit plan => s.withContext context fun c => s.waitFor c limit plan
  | .cancelled token limit plan =>
    s.withScope s.tokens token fun id => s.waitFor (Context.background.withScope id) limit plan

/-- A list of actions, one after another. -/
def run (s : Session) (actions : List Action) : Session :=
  actions.foldl (fun s a => (s.step a).2) s

/-- Why the context of a name is over, if it is. -/
def err (s : Session) (name : String) : Option CancelReason :=
  (s.contexts.get? name).bind s.timeline.err

end Session

end CallGuard
