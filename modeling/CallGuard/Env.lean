import CallGuard.Context.Timeline
import CallGuard.Event

/-!
# The surroundings of a call

What every layer may read and change: the clock that breakers and limiters go by,
the timeline on which calls wait, and the log. A computation also has the state of
the layers, of which it sees one part at a time through a **cell**.

* `Cell.via_lawful`: a lawful part of a lawful part is lawful.
* `Run.runFrom_bind`: a sequence stops at the first failed time computation and keeps
  the state it got to.
-/

namespace CallGuard

/-- The clock of breakers and limiters, which moves only when it is told to, time for waiting with the cancellation
scopes, and the log. -/
structure Env where
  clock : Instant
  timeline : Timeline
  log : Array Event

/-- Both clocks at zero and nothing reported. -/
def Env.start : Env := ⟨.origin, .start, #[]⟩

instance : Inhabited Env := ⟨Env.start⟩

/-- A part of a larger state, to be read and replaced. -/
structure Cell (σ α : Type) where
  get : σ → α
  set : σ → α → σ

/-- A cell whose reads and writes fit together. -/
structure Cell.Lawful {σ α : Type} (c : Cell σ α) : Prop where
  get_set : ∀ s a, c.get (c.set s a) = a
  set_get : ∀ s, c.set s (c.get s) = s
  set_set : ∀ s a b, c.set (c.set s a) b = c.set s b

/-- Two cells that share nothing. -/
structure Cell.Disjoint {σ α β : Type} (c : Cell σ α) (d : Cell σ β) : Prop where
  get_set : ∀ s b, c.get (d.set s b) = c.get s
  set_get : ∀ s a, d.get (c.set s a) = d.get s
  comm : ∀ s a b, d.set (c.set s a) b = c.set (d.set s b) a

/-- The whole state as a cell. -/
def Cell.whole (σ : Type) : Cell σ σ := ⟨id, fun _ s => s⟩

theorem Cell.whole_lawful (σ : Type) : (Cell.whole σ).Lawful :=
  ⟨fun _ _ => rfl, fun _ => rfl, fun _ _ _ => rfl⟩

/-- A part of a part. -/
def Cell.via {σ α β : Type} (outer : Cell σ α) (inner : Cell α β) : Cell σ β :=
  ⟨fun s => inner.get (outer.get s), fun s b => outer.set s (inner.set (outer.get s) b)⟩

/-- **Parts of parts**: reads and writes that fit together do so at any depth. -/
theorem Cell.via_lawful {σ α β : Type} {outer : Cell σ α} {inner : Cell α β} (ho : outer.Lawful)
    (hi : inner.Lawful) : (outer.via inner).Lawful where
  get_set s b := by simp only [via, ho.get_set, hi.get_set]
  set_get s := by simp only [via, hi.set_get, ho.set_get]
  set_set s a b := by simp only [via, ho.get_set, ho.set_set, hi.set_set]

/-- A computation over a state. It may end with a failed time computation, and then keeps what it has
changed. -/
abbrev Run (σ α : Type) := ExceptT TimeError (StateM σ) α

namespace Run

variable {σ α : Type}

/-- Reads a part of the state. -/
def read (c : Cell σ α) : Run σ α := return c.get (← get)

/-- Replaces a part of the state. -/
def write (c : Cell σ α) (a : α) : Run σ Unit := modify fun s => c.set s a

/-- Changes a part of the state. -/
def update (c : Cell σ α) (f : α → α) : Run σ Unit := modify fun s => c.set s (f (c.get s))

/-- Ends with a failed time computation, or goes on with its result. -/
def ofTime (r : Except TimeError α) : Run σ α :=
  match r with
  | .ok a => pure a
  | .error e => throw e

/-- What a computation leads to from a state. -/
def runFrom (r : Run σ α) (s : σ) : Except TimeError α × σ := StateT.run (ExceptT.run r) s

@[simp] theorem runFrom_pure (a : α) (s : σ) : (pure a : Run σ α).runFrom s = (.ok a, s) := rfl

@[simp] theorem runFrom_read (c : Cell σ α) (s : σ) : (read c).runFrom s = (.ok (c.get s), s) := rfl

@[simp] theorem runFrom_write (c : Cell σ α) (a : α) (s : σ) :
    (write c a).runFrom s = (.ok (), c.set s a) := rfl

@[simp] theorem runFrom_update (c : Cell σ α) (f : α → α) (s : σ) :
    (update c f).runFrom s = (.ok (), c.set s (f (c.get s))) := rfl

@[simp] theorem runFrom_ofTime (r : Except TimeError α) (s : σ) :
    (ofTime r : Run σ α).runFrom s = (r, s) := by
  cases r <;> rfl

/-- **One computation after another**: the second one starts where the first one ended, if it did not
fail. -/
theorem runFrom_bind {β : Type} (r : Run σ α) (f : α → Run σ β) (s : σ) :
    (r >>= f).runFrom s = match r.runFrom s with
      | (.ok a, s') => (f a).runFrom s'
      | (.error e, s') => (.error e, s') := by
  change StateT.run (ExceptT.run r >>= ExceptT.bindCont f) s = _
  rw [StateT.run_bind]
  change (let p := r.runFrom s; StateT.run (ExceptT.bindCont f p.1) p.2) = _
  rcases r.runFrom s with ⟨e | a, s'⟩ <;> rfl

end Run

namespace Env

variable {σ : Type}

/-- Reports an event. -/
def report (env : Cell σ Env) (e : Event) : Run σ Unit :=
  Run.update env fun v => { v with log := v.log.push e }

/-- The time of breakers and limiters. -/
def readClock (env : Cell σ Env) : Run σ Instant := return (← Run.read env).clock

/-- Moves the clock of breakers and limiters on. -/
def advanceClock (env : Cell σ Env) (span : Span) : Run σ Unit := do
  let v ← Run.read env
  let clock ← Run.ofTime (v.clock.add span)
  Run.write env { v with clock }

/-- Waits for a span. -/
def sleep (env : Cell σ Env) (s : Span) : Run σ Unit :=
  Run.update env fun v => { v with timeline := v.timeline.sleep s }

/-- Waits for a span or for the end of a context, whichever comes first. -/
def raceFor (env : Cell σ Env) (c : Context) (s : Span) : Run σ (Option CancelReason) := do
  let v ← Run.read env
  let (reason, timeline) := v.timeline.raceFor c s
  Run.write env { v with timeline }
  return reason

/-- Cancels a scope now. -/
def cancel (env : Cell σ Env) (scope : ScopeId) (reason : CancelReason) : Run σ Unit :=
  Run.update env fun v => { v with timeline := v.timeline.cancel scope reason }

/-- Why a context is over now, if it is. -/
def err (env : Cell σ Env) (c : Context) : Run σ (Option CancelReason) :=
  return (← Run.read env).timeline.err c

@[simp] theorem runFrom_report (env : Cell σ Env) (e : Event) (s : σ) :
    (report env e).runFrom s =
      (.ok (), env.set s { env.get s with log := (env.get s).log.push e }) := rfl

@[simp] theorem runFrom_readClock (env : Cell σ Env) (s : σ) :
    (readClock env).runFrom s = (.ok (env.get s).clock, s) := rfl

@[simp] theorem runFrom_raceFor (env : Cell σ Env) (c : Context) (span : Span) (s : σ) :
    (raceFor env c span).runFrom s =
      (.ok ((env.get s).timeline.raceFor c span).1,
        env.set s { env.get s with timeline := ((env.get s).timeline.raceFor c span).2 }) := rfl

@[simp] theorem runFrom_err (env : Cell σ Env) (c : Context) (s : σ) :
    (err env c).runFrom s = (.ok ((env.get s).timeline.err c), s) := rfl

end Env

end CallGuard
