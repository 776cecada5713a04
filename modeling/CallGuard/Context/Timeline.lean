import CallGuard.Context.Basic

/-!
# Waiting

While something waits, time jumps to the next timer; otherwise it stands still
until it is moved on. Timers go off on whole milliseconds, at the first one that
is not too early. Waiting for a timer can be a race against the end of a context;
a cancellation planned for later, an **alarm**, takes place on the way. What is due
on the same millisecond happens in any order: for each wait a **lot** decides.

* `Timeline.tick_eq`: a timer goes off on the first whole millisecond that is not too early, up to the last one.
* `Timeline.wakeAfter_eq`: a wait is not cut if it is no longer than timers may run.
* `Timeline.le_sleepUntil`: sleeping never goes back in time.
-/

namespace CallGuard

/-- A cancellation of a scope, planned for a time in milliseconds. -/
structure Alarm where
  due : Nat
  scope : ScopeId
  reason : CancelReason
deriving DecidableEq

/-- A lot: what comes first of several things that are due on the same millisecond. An alarm comes before or after
the end of a wait, a timer after or before the end of a context, and a deadline after or before a cancellation. -/
structure Lot where
  alarmLast : Bool
  timerFirst : Bool
  deadlineFirst : Bool
deriving DecidableEq

/-- Alarms come first, then cancellations, deadlines and timers. -/
def Lot.standard : Lot := ⟨false, false, false⟩

/-- The last millisecond whose alarms go off in a wait until `stop`. -/
def Lot.alarmsBy (lot : Lot) (stop : Nat) : Nat := if lot.alarmLast then stop - 1 else stop

/-- What the timers of a run are like: the longest that one for a span runs, and the lots to come, one for each
wait. After the last one all lots are the standard one. -/
structure Timers where
  longest : Span
  lots : List Lot
deriving DecidableEq

/-- The time in milliseconds since the start, the scopes, the planned cancellation and the timers. -/
structure Timeline where
  now : Nat
  scopes : Scopes
  alarm : Option Alarm
  timers : Timers
deriving DecidableEq

namespace Timeline

/-- A span that nobody waits for the end of: thirty years. -/
def farFuture : Span := .ofSeconds 946080000

/-- The start of time. -/
def start : Timeline := ⟨0, .empty, none, ⟨farFuture, []⟩⟩

instance : Inhabited Timeline := ⟨start⟩

/-- The time in nanoseconds. -/
def nanos (t : Timeline) : Nat := nanosPerMilli * t.now

/-- What a 64-bit counter of milliseconds shows. -/
def counted (t : Timeline) : Nat := t.now % (maxWord + 1)

/-- The last millisecond for which there are timers. Timers for later times go off on it, and at once when
it is past. -/
def lastTick : Nat := maxWord - 2

/-- The millisecond on which a timer for a time in nanoseconds goes off. -/
def tick (nanos : Nat) : Nat := min lastTick (((nanosPerMilli - 1) + nanos) / nanosPerMilli)

/-- The millisecond on which a timer for a deadline goes off. -/
def tickOf (deadline : Instant) : Nat := tick deadline.nanos.toNat

/-- How long a timer for a span runs. If it would end at no instant, it runs for the far future. -/
def running (t : Timeline) (s : Span) : Span :=
  match Instant.ofNanos? (t.nanos + s.nanos) with
  | some _ => min s t.timers.longest
  | none => farFuture

/-- The millisecond on which a wait for a span is over. -/
def wakeAfter (t : Timeline) (s : Span) : Nat := tick (t.nanos + (t.running s).nanos)

/-- The millisecond on which a limit of so many milliseconds from now is reached. -/
def limitAfter (t : Timeline) (ms : Nat) : Nat := min lastTick (t.now + ms)

/-- Why a context is over now, if it is. -/
def err (t : Timeline) (c : Context) : Option CancelReason := c.err t.scopes t.nanos

/-- Why the scope of a context was cancelled, if it was. -/
def cancelled? (t : Timeline) (c : Context) : Option CancelReason := c.cancelled? t.scopes

/-- A context that expires after a span, if there is such an instant. -/
def withTimeout (t : Timeline) (c : Context) (timeout : Span) : Except TimeError Context :=
  match Instant.ofNanos? (t.nanos + timeout.nanos) with
  | some deadline => .ok (c.withDeadline deadline)
  | none => .error .overflow

/-- A context in a new scope below its own, and that scope. -/
def withCancel (t : Timeline) (c : Context) : Context × ScopeId × Timeline :=
  let (id, scopes) := t.scopes.add c.scope
  (c.withScope id, id, { t with scopes })

/-- A scope is cancelled now. -/
def cancel (t : Timeline) (scope : ScopeId) (reason : CancelReason) : Timeline :=
  { t with scopes := t.scopes.cancel scope reason }

/-- The alarm takes place if it is due by `limit`, at its time or at once if that is past. -/
def ring (t : Timeline) (limit : Nat) : Timeline :=
  match t.alarm with
  | some a =>
    if a.due ≤ limit then
      { t with now := max t.now a.due, scopes := t.scopes.cancel a.scope a.reason, alarm := none }
    else t
  | none => t

/-- The lot of the next wait. -/
def lot (t : Timeline) : Lot := t.timers.lots.headD .standard

/-- The timeline when the lot of a wait is used up. -/
def drawn (t : Timeline) : Timeline := { t with timers := { t.timers with lots := t.timers.lots.tail } }

/-- Time passes until `wake`, if that is to come. -/
def sleepUntil (t : Timeline) (lot : Lot) (wake : Nat) : Timeline :=
  if wake ≤ t.now then t else { t.ring (lot.alarmsBy wake) with now := wake }

/-- Time is moved on by milliseconds at once. This is no wait, so no alarm goes off and nothing is cut. -/
def advance (t : Timeline) (ms : Nat) : Timeline := { t with now := t.now + ms }

/-- Time passes for a span. -/
def sleep (t : Timeline) (s : Span) : Timeline := (t.sleepUntil t.lot (t.wakeAfter s)).drawn

/-- The millisecond on which a race is over that nothing cuts short: that of its timer, or that of the deadline
if it comes first. -/
def stop (c : Context) (wake : Nat) : Nat := ((c.deadline.map tickOf).map (min wake)).getD wake

/-- Time passes until a race is over, which may be at once, or until the context is cancelled. -/
def pass (t : Timeline) (lot : Lot) (c : Context) (stop : Nat) : Timeline :=
  if (t.cancelled? c).isSome ∨ stop ≤ t.now then t
  else
    let rung := t.ring (lot.alarmsBy stop)
    if (rung.cancelled? c).isSome then rung else { rung with now := stop }

/-- That the deadline of a context has passed, once the timer for it has gone off. -/
def expired? (t : Timeline) (c : Context) : Option CancelReason :=
  if (c.deadline.map tickOf).any (· ≤ t.now) then some .deadlineExceeded else none

/-- Why a context is over, to one who waits for that. -/
def ended? (t : Timeline) (lot : Lot) (c : Context) : Option CancelReason :=
  if lot.deadlineFirst then (t.expired? c).or (t.cancelled? c) else (t.cancelled? c).or (t.expired? c)

/-- **A race** between a timer and the end of a context. The answer is the reason if the context wins. -/
def race (t : Timeline) (lot : Lot) (c : Context) (wake : Nat) : Option CancelReason × Timeline :=
  let later := t.pass lot c (stop c wake)
  (if lot.timerFirst ∧ wake ≤ later.now then none else later.ended? lot c, later)

/-- A race against a timer that goes off after a span. -/
def raceFor (t : Timeline) (c : Context) (s : Span) : Option CancelReason × Timeline :=
  let (reason, later) := t.race t.lot c (t.wakeAfter s)
  (reason, later.drawn)

theorem tick_eq {nanos : Nat} (h : nanos ≤ nanosPerMilli * lastTick) :
    tick nanos = ((nanosPerMilli - 1) + nanos) / nanosPerMilli := by
  have h0 : 0 < nanosPerMilli := by decide
  refine Nat.min_eq_right (Nat.lt_succ_iff.mp ((Nat.div_lt_iff_lt_mul h0).mpr ?_))
  rw [Nat.succ_mul, Nat.mul_comm]
  omega

theorem wakeAfter_eq {t : Timeline} {s : Span} (h : s ≤ t.timers.longest)
    (hreach : t.nanos + s.nanos ≤ nanosPerMilli * lastTick) : t.wakeAfter s = tick (t.nanos + s.nanos) := by
  have hinstant : Instant.minNanos ≤ (t.nanos + s.nanos : Int) ∧ (t.nanos + s.nanos : Int) ≤ Instant.maxNanos := by
    simp only [nanosPerMilli, lastTick, maxWord, Instant.minNanos, Instant.maxNanos] at hreach ⊢
    omega
  have hmin : min s t.timers.longest = s := if_pos h
  rw [wakeAfter, running, Instant.ofNanos?, dif_pos hinstant]
  exact congrArg (fun r : Span => tick (t.nanos + r.nanos)) hmin

theorem le_sleepUntil (t : Timeline) (lot : Lot) (wake : Nat) : t.now ≤ (t.sleepUntil lot wake).now := by
  unfold sleepUntil
  split
  · exact Nat.le_refl _
  · exact Nat.le_of_lt (Nat.lt_of_not_le ‹_›)

end Timeline

end CallGuard
