import CallGuard.Decimal.Binary
import CallGuard.Decimal.Positional

/-!
# The shortest decimal of a float

Of all decimals that are nearer to a float than to any other float, the text of
the float shows one with the fewest digits, of those the nearest, and of two
equally near ones the one further from zero. With
`v = mantissa * 2 ^ exponent` written as `units / 10 ^ places`, the decimals with
fewer digits are the multiples of `10, 100, …` units, and only the two multiples
around `v` can be in its interval when any is.
-/

namespace CallGuard.Decimal

/-- The rounding interval of a float and its value, all over one denominator `4 * 10 ^ places`. It is closed if the
ends themselves round to the value. -/
structure Interval where
  value : Nat
  low : Nat
  high : Nat
  closed : Bool
  places : Nat

/-- The reals that round to `v`. Below a power of two the floats lie twice as dense. -/
def Interval.of (v : Binary) : Interval :=
  let below := if v.mantissa = Binary.implicitBit ∧ -1074 < v.exponent then 1 else 2
  -- half a step to either side; times four, so that all of it stays whole
  let factor := if v.exponent < 0 then Nat.pow 5 v.exponent.natAbs else Nat.pow 2 v.exponent.natAbs
  { value := 4 * v.mantissa * factor
    low := (4 * v.mantissa - below) * factor
    high := (4 * v.mantissa + 2) * factor
    closed := v.mantissa % 2 == 0
    places := if v.exponent < 0 then v.exponent.natAbs else 0 }

/-- True for a number of units inside the interval. -/
def Interval.holds (i : Interval) (units : Nat) : Bool :=
  if i.closed then i.low ≤ 4 * units && 4 * units ≤ i.high
  else i.low < 4 * units && 4 * units < i.high

/-- The multiple of `10 ^ k` units to show, if one of the two around the value is in the interval. -/
def Interval.multiple? (i : Interval) (k : Nat) : Option Nat :=
  let below := i.value / 4 / Nat.pow 10 k * Nat.pow 10 k
  let above := below + Nat.pow 10 k
  match i.holds below, i.holds above with
  | true, true => some (if i.value - 4 * below < 4 * above - i.value then below else above)
  | true, false => some below
  | false, true => some above
  | false, false => none

/-- The first multiple found when the steps shrink from `10 ^ k` to single units. -/
def Interval.search (i : Interval) : Nat → Nat
  | 0 => (i.multiple? 0).getD (i.value / 4)
  | k + 1 => (i.multiple? (k + 1)).getD (i.search k)

/-- The text of a finite float. -/
def shortest (v : Binary) : String :=
  let i := Interval.of v
  let digits := (toString (i.value / 4)).length
  let size := if v.isZero then "0" else positional (i.search digits) i.places
  if v.negative then "-" ++ size else size

/-- **Text of a float**: its shortest decimal without an exponent, or a name if it has no value. -/
def floatText (x : Float) : String :=
  match Binary.ofFloat? x with
  | some v => shortest v
  | none => if x.isNaN then "NaN" else if x < 0 then "-inf" else "inf"

end CallGuard.Decimal
