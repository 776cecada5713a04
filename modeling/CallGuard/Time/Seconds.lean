import CallGuard.Decimal.Binary
import CallGuard.Time.Span

/-!
# Spans as seconds

Rates are floats per second, so spans are read as a float number of seconds and
written back from one. Reading rounds as floats do; writing rounds the exact
value to the nearest nanosecond, and fails outside the range of a span.
-/

namespace CallGuard.Span

/-- The span as a float number of seconds: whole seconds plus the rest over `10 ^ 9`. -/
def toFloat (s : Span) : Float :=
  s.seconds.toUInt64.toFloat + s.subsecond.toUInt64.toFloat / 1000000000.0

/-- Nanoseconds of `m * 2 ^ e` seconds, rounded to the nearest, a half to the even one. -/
def nanosOfBinary (m : Nat) (e : Int) : Nat :=
  if e < 0 then roundEven (nanosPerSecond * m) (Nat.pow 2 e.natAbs)
  else nanosPerSecond * m * Nat.pow 2 e.natAbs

/-- The span of a float number of seconds. Negative numbers, numbers from `2^64` on and floats without
a value have none; negative zero is the empty span. -/
def ofFloat? (x : Float) : Option Span :=
  match Binary.ofFloat? x with
  | none => none
  | some v =>
    if v.negative && !v.isZero then none
    else
      let n := nanosOfBinary v.mantissa v.exponent
      if h : n ≤ maxNanos then some ⟨n, h⟩ else none

/-- The span of a float number of seconds, the longest one where there is none. -/
def ofFloat (x : Float) : Span := (ofFloat? x).getD longest

end CallGuard.Span
