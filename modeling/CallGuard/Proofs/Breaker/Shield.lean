import CallGuard.Breaker.Layer
import CallGuard.Proofs.Breaker.History
import CallGuard.Proofs.Calls.Visits

/-!
# An open breaker shields its service

Calls go through a breaker one after another, each to a handler of its own that leaves
the breaker alone; the clock may be moved on in a handler and between calls, never
back. Once a failure has opened the breaker, calls are rejected without a word to
their handlers until the timeout has passed, and the first one after that gets through.

* `WatchedBreaker.Call`: a call and what became of it; `calls` are those of a run.
* `WatchedBreaker.Trips`: a call whose failure leaves the breaker open.
* `WatchedBreaker.Shut`: the breaker as such a call leaves it; `shut_of_trips`.
* `WatchedBreaker.Shields`: what later calls come to; `Shut.shields_calls` is the run lemma.
* `WatchedBreaker.shields`: **an open breaker shields its service.**
-/

namespace CallGuard

namespace Breaker

theorem config_allow (b : Breaker) (now : Instant) : (b.allow now).breaker.config = b.config := by
  unfold allow
  split
  · rfl
  · split <;> rfl
  · rfl

theorem config_success (b : Breaker) : b.success.breaker.config = b.config := by
  unfold success
  split
  · rfl
  · split <;> rfl
  · rfl

theorem config_failure (b : Breaker) (now : Instant) : (b.failure now).breaker.config = b.config := by
  simp only [failure]
  split
  · split <;> rfl
  · rfl
  · rfl

theorem config_perform (b : Breaker) (now : Instant) (op : Operation) :
    (b.perform now op).breaker.config = b.config := by
  cases op with
  | allow => exact config_allow b now
  | success => exact config_success b
  | failure => exact config_failure b now
  | reset => rfl

theorem lastFailure_failure (b : Breaker) (now : Instant) :
    (b.failure now).breaker.lastFailure = some now := by
  simp only [failure]
  split
  · split <;> rfl
  · rfl
  · rfl

end Breaker

namespace WatchedBreaker

variable {σ Req Resp : Type}

/-! ## One call -/

section Call

variable (env : Cell σ Env) (cell : Cell σ WatchedBreaker)

/-- What the clock shows. -/
def time (s : σ) : Instant := (env.get s).clock

/-- The state when an operation has been carried out: its transition is told to the observer and reported. -/
def carried {α : Type} (o : Breaker.Outcome α) (s : σ) : σ :=
  let told := cell.set s ⟨o.breaker, (cell.get s).observed ++ o.transition.toArray⟩
  match o.transition with
  | some t => Env.noted env (.breakerMoved (cell.get s).breaker.config.name t) told
  | none => told

/-- The breaker's answer to a call. -/
def answer (s : σ) : Breaker.Outcome Bool := (cell.get s).breaker.allow (time env s)

/-- The state when the breaker has answered. -/
def asked (s : σ) : σ := carried env cell (answer env cell s) s

/-- The state when a reply has been recorded. -/
def recorded (reply : Reply Resp) (s : σ) : σ :=
  match reply with
  | .ok _ => carried env cell (cell.get s).breaker.success s
  | .error e =>
    if e.isControlSignal then s else carried env cell ((cell.get s).breaker.failure (time env s)) s

/-- The state when a call that got through is over. -/
def settled (v : Visit σ Req Resp) : σ :=
  match v.outcome with
  | .ok reply => recorded env cell reply v.finish
  | .error _ => v.finish

/-- The state when a call was rejected. -/
def rejected (ctx : Context) (s : σ) : σ :=
  let b := (cell.get (asked env cell s)).breaker
  Env.noted env (.breakerRejected b.config.name b.circuit ctx.path) (asked env cell s)

theorem runFrom_carryOut {α : Type} (op : Breaker → Instant → Breaker.Outcome α) (s : σ) :
    (carryOut env cell op).runFrom s =
      (.ok (op (cell.get s).breaker (time env s)).answer,
        carried env cell (op (cell.get s).breaker (time env s)) s) := by
  unfold carryOut carried time
  simp only [Run.runFrom_bind, Env.runFrom_readClock, Run.runFrom_read, Run.runFrom_write]
  cases (op (cell.get s).breaker (env.get s).clock).transition <;> rfl

theorem runFrom_record (reply : Reply Resp) (s : σ) :
    (record env cell reply).runFrom s = (.ok (), recorded env cell reply s) := by
  unfold record recorded
  cases reply with
  | ok a => exact runFrom_carryOut env cell (fun b _ => b.success) s
  | error e =>
    dsimp only
    split
    · rfl
    · exact runFrom_carryOut env cell Breaker.failure s

/-- **A call through a breaker**: it gets through, and its reply is recorded, or it is rejected. -/
theorem runFrom_layer (next : Handler σ Req Resp) (ctx : Context) (req : Req) (s : σ) :
    (layer env cell next ctx req).runFrom s =
      if (answer env cell s).answer then
        ((next.visit ctx req (asked env cell s)).outcome,
          settled env cell (next.visit ctx req (asked env cell s)))
      else
        (.ok (.error (.circuitOpen (cell.get (asked env cell s)).breaker.config.name)),
          rejected env cell ctx s) := by
  have hask : (carryOut env cell Breaker.allow).runFrom s = (.ok (answer env cell s).answer, asked env cell s) :=
    runFrom_carryOut env cell Breaker.allow s
  rw [layer, Run.runFrom_bind, hask]
  dsimp only
  by_cases h : (answer env cell s).answer = true
  · rw [if_pos h, if_pos h, Run.runFrom_bind, settled, Handler.visit]
    rcases (next ctx req).runFrom (asked env cell s) with ⟨e | reply, s'⟩
    · rfl
    · simp only [Run.runFrom_bind, runFrom_record, Run.runFrom_pure]
  · rw [if_neg h, if_neg h]
    rfl

/-! Notes beside the state change nothing. -/

theorem carried_beside {α ν : Type} (o : Breaker.Outcome α) (s : σ) (n : ν) :
    carried (env.beside ν) ((Cell.first σ ν).via cell) o (s, n) = (carried env cell o s, n) := by
  unfold carried
  cases o.transition <;> rfl

theorem asked_beside {ν : Type} (s : σ) (n : ν) :
    asked (env.beside ν) ((Cell.first σ ν).via cell) (s, n) = (asked env cell s, n) :=
  carried_beside env cell (answer env cell s) s n

theorem recorded_beside {ν : Type} (reply : Reply Resp) (s : σ) (n : ν) :
    recorded (env.beside ν) ((Cell.first σ ν).via cell) reply (s, n) = (recorded env cell reply s, n) := by
  unfold recorded
  cases reply with
  | ok a => exact carried_beside env cell _ s n
  | error e =>
    dsimp only
    split
    · rfl
    · exact carried_beside env cell _ s n

theorem settled_visit_watched (next : Handler σ Req Resp) (ctx : Context) (req : Req) (s : σ)
    (visits : List (Visit σ Req Resp)) :
    settled (env.beside _) ((Cell.first _ _).via cell) (next.watched.visit ctx req (s, visits)) =
      (settled env cell (next.visit ctx req s), visits ++ [next.visit ctx req s]) := by
  rw [Handler.visit_watched, settled, settled]
  dsimp only
  cases (next.visit ctx req s).outcome with
  | ok reply => exact recorded_beside env cell reply _ _
  | error e => rfl

end Call

/-- A call and what became of it: the invocations of its handler, the reply or the time computation that failed, and
the states when it was made and when it was over. -/
structure Call (σ Req Resp : Type) where
  ctx : Context
  start : σ
  visits : List (Visit σ Req Resp)
  result : Except TimeError (Reply Resp)
  finish : σ

/-- **A call through the breaker** to a handler. Its invocations are those that a watched handler notes. -/
def call (env : Cell σ Env) (cell : Cell σ WatchedBreaker) (next : Handler σ Req Resp) (ctx : Context)
    (req : Req) (s : σ) : Call σ Req Resp where
  ctx := ctx
  start := s
  visits := ((layer (env.beside _) ((Cell.first _ _).via cell) next.watched ctx req).runFrom (s, [])).2.2
  result := ((layer env cell next ctx req).runFrom s).1
  finish := ((layer env cell next ctx req).runFrom s).2

section Cells

variable {env : Cell σ Env} {cell : Cell σ WatchedBreaker} {next : Handler σ Req Resp} {ctx : Context}
  {req : Req} {s : σ}

theorem call_admitted (next : Handler σ Req Resp) (ctx : Context) (req : Req)
    (h : (answer env cell s).answer = true) :
    call env cell next ctx req s =
      ⟨ctx, s, [next.visit ctx req (asked env cell s)], (next.visit ctx req (asked env cell s)).outcome,
        settled env cell (next.visit ctx req (asked env cell s))⟩ := by
  have hwatched : (answer (env.beside _) ((Cell.first _ _).via cell)
      (s, ([] : List (Visit σ Req Resp)))).answer = true := h
  rw [call, runFrom_layer, runFrom_layer, if_pos h, if_pos hwatched, asked_beside, settled_visit_watched]
  rfl

theorem call_rejected (next : Handler σ Req Resp) (ctx : Context) (req : Req)
    (h : ¬(answer env cell s).answer = true) :
    call env cell next ctx req s =
      ⟨ctx, s, [], .ok (.error (.circuitOpen (cell.get (asked env cell s)).breaker.config.name)),
        rejected env cell ctx s⟩ := by
  have hwatched : ¬(answer (env.beside _) ((Cell.first _ _).via cell)
      (s, ([] : List (Visit σ Req Resp)))).answer = true := h
  rw [call, runFrom_layer, runFrom_layer, if_neg h, if_neg hwatched, rejected, asked_beside]
  rfl

theorem time_noted (henv : env.Lawful) (e : Event) (s : σ) : time env (Env.noted env e s) = time env s := by
  rw [time, Env.noted, henv.get_set, time]

variable (henv : env.Lawful) (hcell : cell.Lawful) (hapart : env.Disjoint cell)
include hapart

theorem get_noted (e : Event) (s : σ) : cell.get (Env.noted env e s) = cell.get s := hapart.set_get _ _

include hcell in
theorem get_carried {α : Type} (o : Breaker.Outcome α) (s : σ) :
    cell.get (carried env cell o s) = ⟨o.breaker, (cell.get s).observed ++ o.transition.toArray⟩ := by
  unfold carried
  cases o.transition with
  | none => exact hcell.get_set _ _
  | some t =>
    dsimp only
    rw [get_noted hapart, hcell.get_set]

include henv in
theorem time_carried {α : Type} (o : Breaker.Outcome α) (s : σ) :
    time env (carried env cell o s) = time env s := by
  unfold carried
  cases o.transition with
  | none => exact congrArg Env.clock (hapart.get_set _ _)
  | some t =>
    dsimp only
    rw [time_noted henv, time, hapart.get_set, time]

end Cells

/-! ## Calls one after another -/

/-- Something that happens: a call through the breaker to a handler, or anything else in between, as when the clock
is moved on. -/
inductive Step (σ Req Resp : Type) where
  | call (next : Handler σ Req Resp) (ctx : Context) (req : Req)
  | meanwhile (work : Run σ Unit)

/-- What happens in a step outside of the breaker. -/
def Step.outside : Step σ Req Resp → σ → σ
  | .call next ctx req => fun s => (next.visit ctx req s).finish
  | .meanwhile work => fun s => (work.runFrom s).2

/-- **Work aside** leaves the breaker alone and does not turn the clock back. -/
structure Aside (env : Cell σ Env) (cell : Cell σ WatchedBreaker) (work : σ → σ) : Prop where
  breaker : ∀ s, cell.get (work s) = cell.get s
  clock : ∀ s, time env s ≤ time env (work s)

/-- **The calls of a run** through the breaker. -/
def calls (env : Cell σ Env) (cell : Cell σ WatchedBreaker) : List (Step σ Req Resp) → σ →
    List (Call σ Req Resp)
  | [], _ => []
  | .meanwhile work :: rest, s => calls env cell rest (work.runFrom s).2
  | .call next ctx req :: rest, s =>
    call env cell next ctx req s :: calls env cell rest (call env cell next ctx req s).finish

/-- **A call whose failure leaves the breaker open**: its handler came back with an error, which is
recorded if it is no control signal. -/
structure Trips (cell : Cell σ WatchedBreaker) (c : Call σ Req Resp) : Prop where
  failed : ∃ v e, c.visits = [v] ∧ v.outcome = .ok (.error e) ∧ e.isControlSignal = false
  opened : (cell.get c.finish).breaker.circuit = .opened

/-- **What a call comes to** after a failure at a time has left the breaker open, with the calls in between. Its
handler is not invoked before the timeout has passed. Until then the call is rejected in the name of the breaker,
which stays as it is. The first call after that gets through. -/
structure Shields (env : Cell σ Env) (cell : Cell σ WatchedBreaker) (config : Breaker.Config) (t : Instant)
    (between : List (Call σ Req Resp)) (c : Call σ Req Resp) : Prop where
  late : ∀ v ∈ c.visits, t.nanos + config.timeout.nanos ≤ (time env v.start).nanos
  early : (time env c.start).nanos < t.nanos + config.timeout.nanos →
    c.visits = [] ∧ c.result = .ok (.error (.circuitOpen config.name)) ∧
      cell.get c.finish = cell.get c.start
  first : t.nanos + config.timeout.nanos ≤ (time env c.start).nanos →
    (∀ d ∈ between, (time env d.start).nanos < t.nanos + config.timeout.nanos) → c.visits ≠ []

/-- **The breaker as a failure at a time has left it open.** -/
structure Shut (env : Cell σ Env) (cell : Cell σ WatchedBreaker) (config : Breaker.Config) (t : Instant)
    (s : σ) : Prop where
  config : (cell.get s).breaker.config = config
  circuit : (cell.get s).breaker.circuit = .opened
  failed : (cell.get s).breaker.lastFailure = some t
  past : t ≤ time env s

section Runs

variable {env : Cell σ Env} {cell : Cell σ WatchedBreaker} {config : Breaker.Config} {t : Instant}
  {next : Handler σ Req Resp} {ctx : Context} {req : Req} {s : σ} {work : σ → σ}
  {steps : List (Step σ Req Resp)} {before between rest : List (Call σ Req Resp)} {c : Call σ Req Resp}

theorem Shut.aside (h : Shut env cell config t s) (hwork : Aside env cell work) :
    Shut env cell config t (work s) := by
  obtain ⟨hconfig, hcircuit, hfailed, hpast⟩ := h
  rw [← hwork.breaker s] at hconfig hcircuit hfailed
  exact ⟨hconfig, hcircuit, hfailed, Int.le_trans hpast (hwork.clock s)⟩

theorem Shut.answer (h : Shut env cell config t s) :
    answer env cell s =
      if t.nanos + config.timeout.nanos ≤ (time env s).nanos then
        (Breaker.moveTo { (cell.get s).breaker with successes := 0 } .halfOpen).answering true
      else (cell.get s).breaker.stay false := by
  have hdue := Breaker.timeout_le_iff h.failed h.past
  rw [h.config] at hdue
  unfold WatchedBreaker.answer Breaker.allow
  simp only [h.circuit, h.config, hdue]

/-- Before the timeout has passed, nothing is done to it. -/
theorem Shut.asked_early (h : Shut env cell config t s) (hcell : cell.Lawful)
    (hearly : (time env s).nanos < t.nanos + config.timeout.nanos) : asked env cell s = s := by
  rw [asked, h.answer, if_neg (Int.not_le.2 hearly)]
  simp only [carried, Breaker.stay, Option.toArray_none, Array.append_empty]
  exact hcell.set_get s

theorem Shut.call_early (h : Shut env cell config t s) (hcell : cell.Lawful)
    (hearly : (time env s).nanos < t.nanos + config.timeout.nanos) (next : Handler σ Req Resp)
    (ctx : Context) (req : Req) :
    call env cell next ctx req s =
      ⟨ctx, s, [], .ok (.error (.circuitOpen config.name)),
        Env.noted env (.breakerRejected config.name .opened ctx.path) s⟩ := by
  have hno : ¬(WatchedBreaker.answer env cell s).answer = true := by
    rw [h.answer, if_neg (Int.not_le.2 hearly)]
    exact Bool.false_ne_true
  rw [call_rejected next ctx req hno, rejected, h.asked_early hcell hearly, h.config, h.circuit]

theorem Shut.answer_due (h : Shut env cell config t s)
    (hdue : t.nanos + config.timeout.nanos ≤ (time env s).nanos) :
    (WatchedBreaker.answer env cell s).answer = true := by
  rw [h.answer, if_pos hdue]
  rfl

variable (henv : env.Lawful) (hcell : cell.Lawful) (hapart : env.Disjoint cell)
include henv hapart

theorem time_visit (next : Handler σ Req Resp) (ctx : Context) (req : Req) (s : σ) :
    ∀ v ∈ (call env cell next ctx req s).visits, time env v.start = time env s := by
  intro v hv
  by_cases h : (answer env cell s).answer = true
  · rw [call_admitted next ctx req h] at hv
    rw [List.mem_singleton.1 hv]
    exact time_carried henv hapart _ s
  · rw [call_rejected next ctx req h] at hv
    cases hv

include hcell

theorem settled_keeps (v : Visit σ Req Resp) :
    (cell.get (settled env cell v)).breaker.config = (cell.get v.finish).breaker.config ∧
      time env (settled env cell v) = time env v.finish := by
  unfold settled
  cases v.outcome with
  | error e => exact ⟨rfl, rfl⟩
  | ok reply =>
    unfold recorded
    cases reply with
    | ok a =>
      dsimp only
      rw [get_carried hcell hapart, time_carried henv hapart]
      exact ⟨Breaker.config_success _, rfl⟩
    | error e =>
      dsimp only
      split
      · exact ⟨rfl, rfl⟩
      · rw [get_carried hcell hapart, time_carried henv hapart]
        exact ⟨Breaker.config_failure _ _, rfl⟩

/-- **A call keeps** the settings of the breaker, and does not turn the clock back. -/
theorem call_keeps (hnext : Aside env cell fun s => (next.visit ctx req s).finish) (s : σ) :
    (cell.get (call env cell next ctx req s).finish).breaker.config = (cell.get s).breaker.config ∧
      time env s ≤ time env (call env cell next ctx req s).finish := by
  have hconfig : (cell.get (asked env cell s)).breaker.config = (cell.get s).breaker.config := by
    rw [asked, get_carried hcell hapart]
    exact Breaker.config_allow _ _
  have htime : time env (asked env cell s) = time env s := time_carried henv hapart _ s
  by_cases h : (answer env cell s).answer = true
  · rw [call_admitted next ctx req h]
    obtain ⟨hsettled, hwhen⟩ := settled_keeps henv hcell hapart (next.visit ctx req (asked env cell s))
    have hbreaker := hnext.breaker (asked env cell s)
    have hclock := hnext.clock (asked env cell s)
    dsimp only at hbreaker hclock ⊢
    rw [hbreaker] at hsettled
    rw [htime] at hclock
    exact ⟨hsettled.trans hconfig, hwhen ▸ hclock⟩
  · rw [call_rejected next ctx req h]
    dsimp only
    rw [rejected, get_noted hapart, time_noted henv]
    exact ⟨hconfig, Int.le_of_eq (congrArg Instant.nanos htime.symm)⟩

/-- **A failure that leaves the breaker open** has shut it at that time. -/
theorem shut_of_trips (hnext : Aside env cell fun s => (next.visit ctx req s).finish) (s : σ)
    (h : Trips cell (call env cell next ctx req s)) :
    Shut env cell (cell.get s).breaker.config (time env (call env cell next ctx req s).finish)
      (call env cell next ctx req s).finish := by
  obtain ⟨⟨v, e, hvisits, hout, hsignal⟩, hopened⟩ := h
  refine ⟨(call_keeps henv hcell hapart hnext s).1, hopened, ?_, Int.le_refl _⟩
  by_cases hyes : (answer env cell s).answer = true
  · rw [call_admitted next ctx req hyes] at hvisits ⊢
    obtain rfl : next.visit ctx req (asked env cell s) = v := List.head_eq_of_cons_eq hvisits
    have hsettled : settled env cell (next.visit ctx req (asked env cell s)) =
        carried env cell ((cell.get (next.visit ctx req (asked env cell s)).finish).breaker.failure
          (time env (next.visit ctx req (asked env cell s)).finish))
          (next.visit ctx req (asked env cell s)).finish := by
      simp only [settled, hout, recorded, hsignal, Bool.false_eq_true, if_false]
    dsimp only
    rw [hsettled, get_carried hcell hapart, time_carried henv hapart]
    exact Breaker.lastFailure_failure _ _
  · rw [call_rejected next ctx req hyes] at hvisits
    cases hvisits

/-- **Any call of a run** is made after some steps, and the run goes on from where it ends. -/
theorem calls_split (haside : ∀ step ∈ steps, Aside env cell step.outside)
    (h : calls env cell steps s = before ++ c :: rest) : ∃ next ctx req s' later,
      (Aside env cell fun s => (next.visit ctx req s).finish) ∧ c = call env cell next ctx req s' ∧
      rest = calls env cell later c.finish ∧ (∀ step ∈ later, Aside env cell step.outside) ∧
      (cell.get s').breaker.config = (cell.get s).breaker.config ∧ time env s ≤ time env s' := by
  induction steps generalizing before s with
  | nil => exact absurd h (by simp [calls])
  | cons step later ih =>
    have hstep := haside step List.mem_cons_self
    have hlater := fun step' hstep' => haside step' (List.mem_cons_of_mem step hstep')
    cases step with
    | meanwhile work =>
      obtain ⟨next, ctx, req, s', left, hnext, hc, hrest, hleft, hconfig, htime⟩ := ih hlater h
      have hbreaker := hstep.breaker s
      have hclock := hstep.clock s
      refine ⟨next, ctx, req, s', left, hnext, hc, hrest, hleft, hconfig.trans ?_, Int.le_trans hclock htime⟩
      exact congrArg (fun w => w.breaker.config) hbreaker
    | call next ctx req =>
      cases before with
      | nil =>
        obtain ⟨rfl, rfl⟩ := List.cons.inj h
        exact ⟨next, ctx, req, s, later, hstep, rfl, rfl, hlater, rfl, Int.le_refl _⟩
      | cons first more =>
        obtain ⟨hkeeps, hclock⟩ := call_keeps henv hcell hapart hstep s
        obtain ⟨next', ctx', req', s', left, hnext, hc, hrest, hleft, hconfig, htime⟩ :=
          ih hlater (List.cons.inj h).2
        exact ⟨next', ctx', req', s', left, hnext, hc, hrest, hleft, hconfig.trans hkeeps,
          Int.le_trans hclock htime⟩

/-- **Calls to a shut breaker.** -/
theorem Shut.shields_calls (h : Shut env cell config t s)
    (haside : ∀ step ∈ steps, Aside env cell step.outside)
    (hcalls : calls env cell steps s = between ++ c :: rest) : Shields env cell config t between c := by
  induction steps generalizing between s with
  | nil => exact absurd hcalls (by simp [calls])
  | cons step later ih =>
    have hstep := haside step List.mem_cons_self
    have hlater := fun step' hstep' => haside step' (List.mem_cons_of_mem step hstep')
    cases step with
    | meanwhile work => exact ih (h.aside hstep) hlater hcalls
    | call next ctx req =>
      rcases Int.lt_or_le (time env s).nanos (t.nanos + config.timeout.nanos) with hearly | hdue
      · -- rejected, and the breaker is as shut as before
        have hcall := h.call_early hcell hearly next ctx req
        cases between with
        | nil =>
          obtain ⟨rfl, -⟩ := List.cons.inj hcalls
          rw [hcall]
          refine ⟨fun v hv => absurd hv List.not_mem_nil, fun _ => ⟨rfl, rfl, get_noted hapart _ s⟩,
            fun hlate _ => ?_⟩
          exact absurd hlate (Int.not_le.2 hearly)
        | cons d more =>
          obtain ⟨rfl, hmore⟩ := List.cons.inj hcalls
          have hshut : Shut env cell config t (call env cell next ctx req s).finish := by
            obtain ⟨hconfig, hcircuit, hfailed, hpast⟩ := h
            rw [hcall]
            dsimp only
            refine ⟨?_, ?_, ?_, ?_⟩
            · rwa [get_noted hapart]
            · rwa [get_noted hapart]
            · rwa [get_noted hapart]
            · rwa [time_noted henv]
          obtain ⟨hlate, hrejected, hfirst⟩ := ih hshut hlater hmore
          exact ⟨hlate, hrejected, fun hc hall =>
            hfirst hc fun d hd => hall d (List.mem_cons_of_mem _ hd)⟩
      · -- the timeout has passed for this call, and for all that come later
        cases between with
        | nil =>
          obtain ⟨rfl, -⟩ := List.cons.inj hcalls
          refine ⟨fun v hv => ?_, fun hearly => absurd hdue (Int.not_le.2 hearly), fun _ _ => ?_⟩
          · rw [time_visit henv hapart next ctx req s v hv]
            exact hdue
          · rw [call_admitted next ctx req (h.answer_due hdue)]
            exact List.cons_ne_nil _ _
        | cons d more =>
          obtain ⟨rfl, hmore⟩ := List.cons.inj hcalls
          have hclock := (call_keeps henv hcell hapart hstep s).2
          obtain ⟨next', ctx', req', s', left, -, rfl, -, -, -, htime⟩ :=
            calls_split henv hcell hapart hlater hmore
          have hlate : t.nanos + config.timeout.nanos ≤ (time env s').nanos :=
            Int.le_trans hdue (Int.le_trans hclock htime)
          refine ⟨fun v hv => ?_, fun hearly => absurd hlate (Int.not_le.2 hearly), fun _ hall => ?_⟩
          · rw [time_visit henv hapart next' ctx' req' s' v hv]
            exact hlate
          · exact absurd hdue (Int.not_le.2 (hall _ List.mem_cons_self))

/-- **An open breaker shields its service**: what any call comes to that is made after a failure has left
the breaker open. -/
theorem shields {failed : Call σ Req Resp} (haside : ∀ step ∈ steps, Aside env cell step.outside)
    (hcalls : calls env cell steps s = before ++ failed :: (between ++ c :: rest))
    (htrips : Trips cell failed) :
    Shields env cell (cell.get s).breaker.config (time env failed.finish) between c := by
  obtain ⟨next, ctx, req, s', later, hnext, rfl, hrest, hlater, hconfig, -⟩ :=
    calls_split henv hcell hapart haside hcalls
  have hshut := shut_of_trips henv hcell hapart hnext s' htrips
  rw [hconfig] at hshut
  exact hshut.shields_calls henv hcell hapart hlater hrest.symm

end Runs

/-- The clock is moved on, or stays where it is, and nothing else happens. -/
theorem advanced_cases (env : Cell σ Env) (span : Span) (s : σ) :
    ((Env.advanceClock env span).runFrom s).2 = s ∨
      ∃ clock, time env s ≤ clock ∧
        ((Env.advanceClock env span).runFrom s).2 = env.set s { env.get s with clock } := by
  simp only [Env.advanceClock, Run.runFrom_bind, Run.runFrom_read, Run.runFrom_ofTime, Instant.add]
  cases hclock : (env.get s).clock.add? span with
  | none => exact .inl rfl
  | some clock =>
    have hlater := Instant.add?_eq_some_iff.1 hclock
    refine .inr ⟨clock, ?_, rfl⟩
    rw [time, Instant.le_iff]
    omega

theorem aside_advance {env : Cell σ Env} {cell : Cell σ WatchedBreaker} (henv : env.Lawful)
    (hapart : env.Disjoint cell) (span : Span) :
    Aside env cell fun s => ((Env.advanceClock env span).runFrom s).2 := by
  constructor
  · intro s
    rcases advanced_cases env span s with hsame | ⟨clock, -, hset⟩
    · exact congrArg cell.get hsame
    · exact (congrArg cell.get hset).trans (hapart.set_get _ _)
  · intro s
    rcases advanced_cases env span s with hsame | ⟨clock, hlater, hset⟩
    · rw [hsame]
      exact Int.le_refl _
    · rw [hset]
      simp only [time, henv.get_set] at hlater ⊢
      exact hlater

/-- A handler that takes some time on the clock for its reply. -/
def slow (env : Cell σ Env) (span : Span) (reply : Reply Resp) : Handler σ Req Resp := fun _ _ => do
  Env.advanceClock env span
  return reply

theorem aside_slow {env : Cell σ Env} {cell : Cell σ WatchedBreaker} (henv : env.Lawful)
    (hapart : env.Disjoint cell) (span : Span) (reply : Reply Resp) (ctx : Context) (req : Req) :
    Aside env cell fun s => ((slow env span reply).visit ctx req s).finish := by
  have hmoved : ∀ s, ((slow env span reply).visit ctx req s).finish =
      ((Env.advanceClock env span).runFrom s).2 := by
    intro s
    rw [Handler.visit, slow, Run.runFrom_bind]
    dsimp only
    split <;> simp_all
  simp only [hmoved]
  exact aside_advance henv hapart span

/-- A service that is down for one call, and up again for two more, the last one ten seconds later. -/
def outage : List (Step (Env × WatchedBreaker) String String) :=
  [.call (slow (Cell.first _ _) (.ofSeconds 1) (.error (.call "down"))) .background "a",
    .call (slow (Cell.first _ _) (.ofSeconds 1) (.ok "up")) .background "b",
    .meanwhile (Env.advanceClock (Cell.first _ _) (.ofSeconds 10)),
    .call (slow (Cell.first _ _) (.ofSeconds 1) (.ok "up")) .background "c"]

/-- One failure shuts the breaker; the next call is rejected, and the one after the timeout gets through. -/
theorem shields_outage : ∃ failed rejected trial : Call (Env × WatchedBreaker) String String,
    calls (Cell.first _ _) (Cell.second _ _) outage (.start, .new ⟨"db", 1, .ofSeconds 10, 1⟩) =
      [failed, rejected, trial] ∧
    Trips (Cell.second _ _) failed ∧ rejected.visits = [] ∧ trial.visits ≠ [] ∧
    Shields (Cell.first _ _) (Cell.second _ _) ⟨"db", 1, .ofSeconds 10, 1⟩
      (time (Cell.first _ _) failed.finish) [rejected] trial := by
  have henv := Cell.first_lawful Env WatchedBreaker
  have hcell := Cell.second_lawful Env WatchedBreaker
  have hapart := Cell.first_disjoint_second Env WatchedBreaker
  have haside : ∀ step ∈ outage, Aside (Cell.first _ _) (Cell.second _ _) step.outside := by
    intro step hstep
    simp only [outage, List.mem_cons, List.not_mem_nil, or_false] at hstep
    rcases hstep with rfl | rfl | rfl | rfl
    · exact aside_slow henv hapart _ _ _ _
    · exact aside_slow henv hapart _ _ _ _
    · exact aside_advance henv hapart _
    · exact aside_slow henv hapart _ _ _ _
  obtain ⟨failed, rejected, trial, hcalls, htrips, hrejected, htrial⟩ :
      ∃ failed rejected trial : Call (Env × WatchedBreaker) String String,
        calls (Cell.first _ _) (Cell.second _ _) outage (.start, .new ⟨"db", 1, .ofSeconds 10, 1⟩) =
          [] ++ failed :: ([rejected] ++ trial :: []) ∧
        Trips (Cell.second _ _) failed ∧ rejected.visits = [] ∧ trial.visits ≠ [] :=
    ⟨_, _, _, rfl, ⟨⟨_, _, rfl, rfl, rfl⟩, rfl⟩, rfl, List.cons_ne_nil _ _⟩
  exact ⟨failed, rejected, trial, hcalls, htrips, hrejected, htrial,
    shields henv hcell hapart haside hcalls htrips⟩

end WatchedBreaker

end CallGuard
