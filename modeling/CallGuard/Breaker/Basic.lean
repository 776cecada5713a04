import CallGuard.Breaker.Circuit
import CallGuard.Error
import CallGuard.Text.Quoted
import CallGuard.Time.Instant

/-!
# The circuit breaker

A breaker counts failures in a row while it is closed and opens at a threshold.
An open breaker rejects calls until a timeout has passed since the last failure;
the next question then makes it half-open. A half-open breaker lets trial calls
through: enough successes close it, one failure opens it again.

Every operation is a function of the breaker and the time. It answers with the
breaker afterwards and the transition it made, if it made one.

* `Breaker.Config.validate_ok_iff`: an accepted breaker can open and can close.
* `Breaker.moveTo_transition`: a reported transition is a change of state, and every change is reported.
* `Breaker.allow_closed` to `Breaker.reset_breaker`: every operation in every state.
-/

namespace CallGuard

/-- The settings of a breaker: the name of the guarded service in logs and errors, the failures in a row that open
the circuit, how long after the last one it lets a trial through, and the successful trials that close it. -/
structure Breaker.Config where
  name : String
  threshold : UInt32
  timeout : Span
  maxRequests : UInt32
deriving DecidableEq

namespace Breaker.Config

/-- The default settings. -/
def standard : Breaker.Config := ⟨"default", 5, .ofMillis 30000, 3⟩

instance : Inhabited Breaker.Config := ⟨standard⟩

/-- A breaker that could not open or close is refused. -/
def validate (c : Breaker.Config) : Except CallError Unit :=
  if c.threshold = 0 then .error (.invalidConfig "breaker.threshold" "must be at least 1")
  else if c.maxRequests = 0 then .error (.invalidConfig "breaker.max_requests" "must be at least 1")
  else .ok ()

theorem validate_ok_iff (c : Breaker.Config) :
    c.validate = .ok () ↔ 0 < c.threshold.toNat ∧ 0 < c.maxRequests.toNat := by
  have hpos : ∀ n : UInt32, 0 < n.toNat ↔ n ≠ 0 := fun n => by
    rw [Nat.pos_iff_ne_zero, ne_eq, ne_eq, ← UInt32.toNat_inj, UInt32.toNat_zero]
  rw [hpos, hpos]
  unfold validate
  split
  · simp_all
  · split <;> simp_all

end Breaker.Config

/-- A circuit breaker and what it remembers: failures in a row, successful trials since it became half-open, and
when the last failure was. -/
structure Breaker where
  config : Breaker.Config
  circuit : Circuit
  failures : Nat
  successes : Nat
  lastFailure : Option Instant
deriving DecidableEq

/-- What an operation on a breaker leads to: its answer, the breaker afterwards, and the change of state it made, if
it made one. -/
structure Breaker.Outcome (α : Type) where
  answer : α
  breaker : Breaker
  transition : Option Transition

namespace Breaker

/-- A closed breaker that has seen nothing. -/
def new (config : Config) : Breaker := ⟨config, .closed, 0, 0, none⟩

instance : Inhabited Breaker := ⟨new default⟩

/-- The largest count of failures; it stays there. -/
def maxCount : Nat := 4294967295

/-- The breaker in a state, and the transition if that is a change. -/
def moveTo (b : Breaker) (target : Circuit) : Outcome Unit :=
  ⟨(), { b with circuit := target }, if b.circuit = target then none else some ⟨b.circuit, target⟩⟩

/-- An operation that changes no state. -/
def stay {α : Type} (b : Breaker) (answer : α) : Outcome α := ⟨answer, b, none⟩

/-- The same outcome with another answer. -/
def Outcome.answering {α β : Type} (o : Outcome α) (answer : β) : Outcome β :=
  ⟨answer, o.breaker, o.transition⟩

/-- How long ago the last failure was; forever, if there was none. -/
def sinceFailure (b : Breaker) (now : Instant) : Span :=
  match b.lastFailure with
  | some t => now.since t
  | none => .longest

/-- **May a call proceed?** An open breaker whose timeout has passed becomes half-open here. -/
def allow (b : Breaker) (now : Instant) : Outcome Bool :=
  match b.circuit with
  | .closed => b.stay true
  | .opened =>
    if b.config.timeout ≤ b.sinceFailure now then
      (moveTo { b with successes := 0 } .halfOpen).answering true
    else b.stay false
  | .halfOpen => b.stay (decide (b.successes < b.config.maxRequests.toNat))

/-- **A call succeeded.** -/
def success (b : Breaker) : Outcome Unit :=
  match b.circuit with
  | .closed => stay { b with failures := 0 } ()
  | .halfOpen =>
    -- the trial that makes up the number closes the circuit
    if b.config.maxRequests.toNat ≤ b.successes + 1 then
      moveTo { b with failures := 0, successes := 0 } .closed
    else stay { b with successes := b.successes + 1 } ()
  | .opened => b.stay ()

/-- The breaker with one more failure, now. -/
def countFailure (b : Breaker) (now : Instant) : Breaker :=
  { b with failures := min (b.failures + 1) maxCount, lastFailure := some now }

/-- **A call failed.** -/
def failure (b : Breaker) (now : Instant) : Outcome Unit :=
  let b := b.countFailure now
  match b.circuit with
  | .closed => if b.config.threshold.toNat ≤ b.failures then b.moveTo .opened else b.stay ()
  | .halfOpen => moveTo { b with successes := 0 } .opened
  | .opened => b.stay ()

/-- **Forced closed**, with nothing remembered. -/
def reset (b : Breaker) : Outcome Unit :=
  moveTo { b with failures := 0, successes := 0, lastFailure := none } .closed

theorem moveTo_transition (b : Breaker) (target : Circuit) (t : Transition) :
    (b.moveTo target).transition = some t ↔
      t = ⟨b.circuit, (b.moveTo target).breaker.circuit⟩ ∧ b.circuit ≠ target := by
  unfold moveTo
  by_cases h : b.circuit = target
  · simp [h]
  · simp [h, eq_comm]

/-! ## Operations as data -/

/-- The operations on a breaker. -/
inductive Operation where
  | allow
  | success
  | failure
  | reset
deriving DecidableEq, Repr

/-- An operation carried out. Only a question has an answer. -/
def perform (b : Breaker) (now : Instant) : Operation → Outcome (Option Bool)
  | .allow =>
    let o := b.allow now
    o.answering (some o.answer)
  | .success => b.success.answering none
  | .failure => (b.failure now).answering none
  | .reset => b.reset.answering none

section Cases

variable {b : Breaker} {now : Instant}

theorem allow_closed (h : b.circuit = .closed) : b.perform now .allow = ⟨some true, b, none⟩ := by
  simp [perform, allow, h, stay, Outcome.answering]

theorem allow_halfOpen (h : b.circuit = .halfOpen) :
    b.perform now .allow = ⟨some (decide (b.successes < b.config.maxRequests.toNat)), b, none⟩ := by
  simp [perform, allow, h, stay, Outcome.answering]

theorem allow_early (h : b.circuit = .opened) (ht : ¬b.config.timeout ≤ b.sinceFailure now) :
    b.perform now .allow = ⟨some false, b, none⟩ := by
  simp [perform, allow, h, ht, stay, Outcome.answering]

theorem allow_due (h : b.circuit = .opened) (ht : b.config.timeout ≤ b.sinceFailure now) :
    b.perform now .allow =
      ⟨some true, { b with circuit := .halfOpen, successes := 0 }, some ⟨.opened, .halfOpen⟩⟩ := by
  simp [perform, allow, h, ht, moveTo, Outcome.answering]

theorem success_closed (h : b.circuit = .closed) :
    b.perform now .success = ⟨none, { b with failures := 0 }, none⟩ := by
  simp [perform, success, h, stay, Outcome.answering]

theorem success_opened (h : b.circuit = .opened) : b.perform now .success = ⟨none, b, none⟩ := by
  simp [perform, success, h, stay, Outcome.answering]

theorem success_trial (h : b.circuit = .halfOpen) (hn : b.successes + 1 < b.config.maxRequests.toNat) :
    b.perform now .success = ⟨none, { b with successes := b.successes + 1 }, none⟩ := by
  simp [perform, success, h, Nat.not_le.2 hn, stay, Outcome.answering]

theorem success_last (h : b.circuit = .halfOpen) (hn : b.config.maxRequests.toNat ≤ b.successes + 1) :
    b.perform now .success =
      ⟨none, { b with circuit := .closed, failures := 0, successes := 0 }, some ⟨.halfOpen, .closed⟩⟩ := by
  simp [perform, success, h, hn, moveTo, Outcome.answering]

/-- A count that does not pass the threshold is in range. -/
theorem min_maxCount (b : Breaker) {n : Nat} (h : n ≤ b.config.threshold.toNat) : min n maxCount = n := by
  have := b.config.threshold.toNat_lt
  simp only [maxCount]
  omega

theorem failure_closed (h : b.circuit = .closed) (hn : b.failures + 1 < b.config.threshold.toNat) :
    b.perform now .failure =
      ⟨none, { b with failures := b.failures + 1, lastFailure := some now }, none⟩ := by
  have hsat := b.min_maxCount (Nat.le_of_lt hn)
  simp [perform, failure, countFailure, h, hsat, Nat.not_le.2 hn, stay, Outcome.answering]

theorem failure_last (h : b.circuit = .closed) (hn : b.failures + 1 = b.config.threshold.toNat) :
    b.perform now .failure =
      ⟨none, { b with circuit := .opened, failures := b.failures + 1, lastFailure := some now },
        some ⟨.closed, .opened⟩⟩ := by
  have hsat := b.min_maxCount (Nat.le_of_eq hn)
  simp [perform, failure, countFailure, h, hsat, Nat.le_of_eq hn.symm, moveTo, Outcome.answering]

theorem failure_opened (h : b.circuit = .opened) :
    b.perform now .failure = ⟨none, b.countFailure now, none⟩ := by
  simp [perform, failure, countFailure, h, stay, Outcome.answering]

theorem failure_halfOpen (h : b.circuit = .halfOpen) :
    b.perform now .failure =
      ⟨none, { b.countFailure now with circuit := .opened, successes := 0 },
        some ⟨.halfOpen, .opened⟩⟩ := by
  simp [perform, failure, countFailure, h, moveTo, Outcome.answering]

theorem reset_breaker :
    (b.perform now .reset).breaker =
      { b with circuit := .closed, failures := 0, successes := 0, lastFailure := none } := rfl

end Cases

/-! ## Description -/

/-- The settings in full. -/
def Config.describe (c : Config) : String :=
  "CircuitBreakerConfig \x7b name: " ++ quoted c.name ++ ", threshold: " ++
    toString c.threshold.toNat ++ ", timeout: " ++ c.timeout.text ++ ", max_requests: " ++
    toString c.maxRequests.toNat ++ " \x7d"

/-- The breaker in full, as far as it has seen no failure. -/
def describe (b : Breaker) (observed : Bool) : String :=
  "CircuitBreaker \x7b config: " ++ b.config.describe ++ ", state: BreakerState \x7b state: " ++
    b.circuit.name ++ ", failure_count: " ++ toString b.failures ++ ", success_count: " ++
    toString b.successes ++ ", last_failure: None \x7d, observer: " ++ toString observed ++ " \x7d"

end Breaker

end CallGuard
