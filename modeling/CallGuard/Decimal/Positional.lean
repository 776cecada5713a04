/-!
# Positional decimals

A decimal fraction is written as its whole part, a point and the digits that
follow, without zeros at the end and without the point if nothing follows.
-/

namespace CallGuard.Decimal

/-- The digits of `part / 10 ^ places` after the point, without the zeros at the end. -/
def fractionDigits (part places : Nat) : String :=
  let digits := (toString part).toList
  let padded := List.replicate (places - digits.length) '0' ++ digits
  String.ofList (padded.reverse.dropWhile (· == '0')).reverse

/-- The text of `units / 10 ^ places`. -/
def positional (units places : Nat) : String :=
  let whole := units / Nat.pow 10 places
  let part := units % Nat.pow 10 places
  toString whole ++ (if part = 0 then "" else "." ++ fractionDigits part places)

/-- Nothing follows the point of a whole number. -/
theorem positional_zero (n : Nat) : positional n 0 = toString n := by
  simp [positional, Nat.mod_one]

end CallGuard.Decimal
