import CallGuard.Time.Seconds

/-!
# Quantities of tokens

A token bucket computes with fractions of tokens. The numbers it needs are a
class, so that one rule serves floats, with which limiters run, and rationals, on
which it is exact.
-/

namespace CallGuard

/-- Numbers that count tokens and seconds. `least` is the smaller of two numbers, and where only one has a value,
that one; `whole` goes from zero to the largest unsigned 64-bit number; and `wait` is the longest span where a
number of seconds has none. -/
class Quantity (α : Type) extends Add α, Sub α, Mul α, Div α where
  one : α
  least : α → α → α
  reaches : α → α → Bool
  whole : α → Nat
  seconds : Span → α
  wait : α → Span

/-- The smaller of two floats, the other one if one is no number. -/
def leastFloat (a b : Float) : Float :=
  if a.isNaN then b else if b.isNaN then a else if b < a then b else a

instance : Quantity Float where
  one := 1.0
  least := leastFloat
  reaches a b := b ≤ a
  whole x := x.toUInt64.toNat
  seconds := Span.toFloat
  wait := Span.ofFloat

/-- The span nearest to an exact number of seconds. -/
def waitRat (x : Rat) : Span :=
  if x < 0 then .longest
  else
    let n := roundEven (nanosPerSecond * x.num.natAbs) x.den
    if h : n ≤ Span.maxNanos then ⟨n, h⟩ else .longest

instance : Quantity Rat where
  one := 1
  least a b := if b < a then b else a
  reaches a b := b ≤ a
  whole x := min x.floor.toNat maxWord
  seconds s := mkRat s.nanos nanosPerSecond
  wait := waitRat

end CallGuard
