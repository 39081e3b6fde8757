import StackMachine.Number.Significant

/-!
# The shortest digits that read back

Of all decimals that round to a given double, the ones with the fewest digits, and of these the
one nearest to it. The search tries one digit, two digits and so on: on each decimal grid only
the two neighbours of the value can be the answer.
-/

namespace StackMachine

namespace Decimal

/-- Whether `c * 10 ^ power ≤ num / den`. -/
def atMost (c : Nat) (power : Int) (num den : Nat) : Bool :=
  c * Nat.pow 10 power.toNat * den ≤ num * Nat.pow 10 (-power).toNat

/-- Whether `num / den ≤ c * 10 ^ power`. -/
def atLeast (c : Nat) (power : Int) (num den : Nat) : Bool :=
  num * Nat.pow 10 (-power).toNat ≤ c * Nat.pow 10 power.toNat * den

end Decimal

namespace Double

/-- A bound of the reals that round to a double, as a ratio: `quarters` quarters of the unit of
its significand. -/
def bound (x : Double) (quarters : Nat) : Nat × Nat :=
  (quarters * Nat.pow 2 (x.scale - 2).toNat, Nat.pow 2 (2 - x.scale).toNat)

/-- Whether `c * 10 ^ power` rounds to the absolute value of `x`. The ends of the interval count
if the significand is even. -/
def roundsTo (x : Double) (c : Nat) (power : Int) : Bool :=
  let m := x.significand
  let narrow := m = exponentWeight ∧ 1 < x.exponentField
  let low := x.bound (if narrow then 4 * m - 1 else 4 * m - 2)
  let high := x.bound (4 * m + 2)
  let aboveLow := Decimal.atLeast c power low.1 low.2
  let belowHigh := Decimal.atMost c power high.1 high.2
  if m % 2 = 0 then aboveLow && belowHigh
  else aboveLow && belowHigh && !Decimal.atMost c power low.1 low.2 &&
    !Decimal.atLeast c power high.1 high.2

/-- The nearest decimal on the grid `10 ^ power` that rounds to `x`, if one does. A tie goes
up. -/
def onGrid? (x : Double) (power : Int) : Option Decimal :=
  let num := x.numerator * Nat.pow 10 (-power).toNat
  let den := x.denominator * Nat.pow 10 power.toNat
  let below := num / den
  match x.roundsTo below power, x.roundsTo (below + 1) power with
  | true, true => some ⟨if 2 * (num % den) < den then below else below + 1, power⟩
  | true, false => some ⟨below, power⟩
  | false, true => some ⟨below + 1, power⟩
  | false, false => none

/-- The shortest decimal that reads back as the absolute value of `x`, a finite double other
than zero. Seventeen digits always suffice. -/
def shortest (x : Double) : Decimal :=
  let exponent := Decimal.exponentOf x.numerator x.denominator
  ((List.range 17).findSome? fun (count : Nat) => x.onGrid? (exponent - count)).getD ⟨0, 0⟩

/-- A decimal in positional notation, without a point if it is an integer. -/
def positional (d : Decimal) : List Char :=
  match d.exponent with
  | .ofNat k => Nat.toDigits 10 (d.coefficient * Nat.pow 10 k)
  | .negSucc k => Decimal.trimFraction (Decimal.pointed (k + 1) d.coefficient)

/-- The shortest positional text that reads back as `x`. -/
def exactText (x : Double) : String :=
  if x.isNaN then "NaN"
  else if x.isInfinite then if x.isNegative then "-inf" else "inf"
  else String.ofList (x.signText ++ if x.isZero then ['0'] else positional x.shortest)

end Double

end StackMachine
