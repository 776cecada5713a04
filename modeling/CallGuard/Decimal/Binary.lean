/-!
# The exact value of a float

A finite float is a whole number times a power of two. Everything that has to be
exact about floats is computed on that form, in whole numbers.

* `roundEven`: the quotient rounded to the nearest whole number, a half to the even one.
-/

namespace CallGuard

/-- The number `mantissa * 2 ^ exponent`, or its negative. The mantissa of a float is below `2 ^ 53`. -/
structure Binary where
  negative : Bool
  mantissa : Nat
  exponent : Int
deriving DecidableEq

namespace Binary

/-- The bit above the stored mantissa of a float, `2 ^ 52`. -/
def implicitBit : Nat := 4503599627370496

/-- The exact value of a float, if it is finite. -/
def ofFloat? (x : Float) : Option Binary :=
  let bits := x.toBits.toNat
  let biased : Nat := bits / implicitBit % 2048
  let fraction : Nat := bits % implicitBit
  let negative := 2048 * implicitBit ≤ bits
  if biased = 2047 then none
  else if biased = 0 then some ⟨negative, fraction, -1074⟩
  else some ⟨negative, implicitBit + fraction, (biased : Int) - 1075⟩

/-- True for both zeros. -/
def isZero (v : Binary) : Bool := v.mantissa == 0

end Binary

/-- The quotient rounded to the nearest whole number; a half goes to the even neighbour. -/
def roundEven (num den : Nat) : Nat :=
  let q := num / den
  let r := num % den
  if 2 * r < den then q else if den < 2 * r then q + 1 else q + q % 2

theorem roundEven_one (n : Nat) : roundEven n 1 = n := by
  simp [roundEven, Nat.mod_one]

end CallGuard
