import StackMachine.Number.Decimal
import StackMachine.Text.Blank

/-!
# Writing doubles with a fixed number of digits

Two roundings of the exact value: to a number of significant digits and to a number of decimal
places. The general form counts significant digits, leaves out trailing zeros of the fraction,
and is positional unless the decimal exponent is small or large.
-/

namespace StackMachine

namespace Decimal

/-- The exponent `e` with `10 ^ e ≤ num / den < 10 ^ (e + 1)`, for positive arguments. -/
def exponentOf (num den : Nat) : Int :=
  if den ≤ num then (digitCount (num / den) : Int) - 1
  else
    let count := digitCount (den / num)
    if den = num * Nat.pow 10 (count - 1) then 1 - (count : Int) else -(count : Int)

/-- Rounds `num / den` to `count` significant digits. The exponent belongs to the first digit;
rounding up to a power of ten raises it. -/
def significant (count num den : Nat) : Nat × Int :=
  let exponent := exponentOf num den
  let rounded := Number.roundScaled num den 10 (count - 1 - exponent)
  if rounded < Nat.pow 10 count then (rounded, exponent) else (rounded / 10, exponent + 1)

/-- Writes `n / 10 ^ places` with exactly `places` digits after the point. -/
def pointed (places n : Nat) : List Char :=
  let digits := Text.padLeft '0' (places + 1) (Nat.toDigits 10 n)
  let whole := digits.take (digits.length - places)
  if places = 0 then whole else whole ++ '.' :: digits.drop (digits.length - places)

/-- Drops trailing zeros of a fraction and a point left without digits. -/
def trimFraction (cs : List Char) : List Char :=
  if '.' ∈ cs then
    match (cs.reverse.dropWhile (· == '0')) with
    | '.' :: rest => rest.reverse
    | rest => rest.reverse
  else cs

end Decimal

namespace Double

/-- A minus sign for negative numbers. -/
def signText (x : Double) : List Char := if x.isNegative then ['-'] else []

/-- A finite double rounded to `places` digits after the point. -/
def fixed (places : Nat) (x : Double) : List Char :=
  x.signText ++
    Decimal.pointed places (Number.roundScaled x.numerator x.denominator 10 places)

/-- How the general form is written. -/
structure GeneralFormat where
  /-- The number of significant digits. -/
  precision : Nat
  /-- The least decimal exponent that is written positionally. -/
  lowest : Int
  /-- The least number of exponent digits. -/
  exponentWidth : Nat

/-- The general form of a finite double other than zero. -/
def general (format : GeneralFormat) (x : Double) : List Char :=
  let (coefficient, exponent) := Decimal.significant format.precision x.numerator x.denominator
  if exponent < format.lowest ∨ format.precision ≤ exponent then
    let mantissa := Decimal.trimFraction (Decimal.pointed (format.precision - 1) coefficient)
    let digits := Text.padLeft '0' format.exponentWidth (Nat.toDigits 10 exponent.natAbs)
    x.signText ++ mantissa ++ 'e' :: (if exponent < 0 then '-' else '+') :: digits
  else Decimal.trimFraction (x.fixed (format.precision - 1 - exponent).toNat)

end Double

end StackMachine
