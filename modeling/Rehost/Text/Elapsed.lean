import Rehost.Text.Hex

/-!
# Times and rates in text

A span of time is written in the largest unit of which it holds at least one, with two decimals. Both
decimals and rates are rounded to the nearest, and a tie goes to the even neighbour.
-/

namespace Rehost.Text

/-- A quotient rounded to the nearest number, to the even one of two. -/
def roundDiv (numerator denominator : Nat) : Nat :=
  let quotient := numerator / denominator
  let rest := 2 * (numerator % denominator)
  if rest > denominator ∨ (rest = denominator ∧ quotient % 2 = 1) then quotient + 1 else quotient

/-- A number with leading zeros up to a width. -/
def decimalPadded (width n : Nat) : String :=
  let digits := Nat.toDigits 10 n
  String.ofList (List.replicate (width - digits.length) '0' ++ digits)

/-- A number of hundredths with a decimal point. -/
def hundredths (n : Nat) : String := toString (n / 100) ++ "." ++ decimalPadded 2 (n % 100)

/-- A span of time given in nanoseconds. -/
def elapsed (nanos : Nat) : String :=
  if 1000000000 ≤ nanos then hundredths (roundDiv nanos 10000000) ++ "s"
  else if 1000000 ≤ nanos then hundredths (roundDiv nanos 10000) ++ "ms"
  else if 1000 ≤ nanos then hundredths (roundDiv nanos 10) ++ "µs"
  else hundredths (nanos * 100) ++ "ns"

/-- How many per second, if there were `count` in some nanoseconds. -/
def perSecond (count nanos : Nat) : Nat := roundDiv (count * 1000000000) (max nanos 1)

end Rehost.Text
