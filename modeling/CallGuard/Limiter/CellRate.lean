import CallGuard.Limiter.Rule
import CallGuard.Time.Seconds

/-!
# The generic cell rate

Every key has a theoretical arrival time for its next request, which starts some
emission intervals in the past. A request before that time is denied until then;
another one is admitted and moves the time one interval on, at least to now.
-/

namespace CallGuard

/-- The pace of requests: the time between two at the steady pace, and how many such intervals a new key is ahead.
-/
structure CellRate where
  interval : Span
  burst : UInt32
deriving DecidableEq

namespace CellRate

/-- The pace of a rate in requests per second. -/
def ofRate (rate : Float) (burst : UInt32) : CellRate := ⟨.ofFloat (1.0 / rate), burst⟩

/-- The theoretical arrival time of a new key. Where no instant lies so far back it is now. -/
def fresh (c : CellRate) (now : Instant) : Instant :=
  (now.sub? (c.interval.scale c.burst.toNat)).getD now

/-- The theoretical arrival time after an admission. Where no instant lies so far ahead it stays, but is
never in the past of now. -/
def advanced (c : CellRate) (now arrival : Instant) : Instant :=
  max ((arrival.add? c.interval).getD arrival) now

/-- How many intervals the arrival time lies in the past, at most the burst. -/
def remaining (c : CellRate) (now arrival : Instant) : Nat :=
  if arrival ≤ now ∧ c.interval ≠ .zero then
    min ((now.since arrival).toFloat / c.interval.toFloat).toUInt64.toNat c.burst.toNat
  else 0

/-- **One request**: denied before the arrival time, without touching the entry. -/
def judge (c : CellRate) (now : Instant) (e : Stamped Instant) : Decision × Stamped Instant :=
  if now < e.value then (.limited (e.value.since now).waitMillis, e)
  else
    let arrival := c.advanced now e.value
    (.allowed (c.remaining now arrival), ⟨arrival, now⟩)

/-- The pace as a rule. -/
def rule (c : CellRate) : Rule Instant where
  fresh := c.fresh
  judge now e :=
    let (d, e) := c.judge now e
    (.ok d, e)

end CellRate

end CallGuard
