import StackMachine.Number.Double
import StackMachine.Text.Numeral

/-!
# Reading decimals

A decimal is a coefficient times a power of ten. Its text is digits with an optional point and
an optional exponent; at least one digit stands before or after the point. Reading rounds the
exact value to the nearest double.
-/

namespace StackMachine

/-- The number `coefficient * 10 ^ exponent`. -/
structure Decimal where
  /-- The digits as one integer. -/
  coefficient : Nat
  /-- The power of ten that scales them. -/
  exponent : Int
  deriving DecidableEq, Repr

namespace Decimal

/-- How many decimal digits a number is written with. -/
def digitCount (n : Nat) : Nat := (Nat.toDigits 10 n).length

/-- Reads an exponent mark with its integer; no text at all means the exponent `0`. -/
def readExponent? : List Char → Option Int
  | [] => some 0
  | c :: cs => if c == 'e' || c == 'E' then Text.readInteger? cs else none

/-- Reads digits, an optional point and an optional exponent. -/
def read? (cs : List Char) : Option Decimal :=
  let whole := cs.takeWhile Char.isDigit
  let afterWhole := cs.dropWhile Char.isDigit
  let (fraction, rest) := match afterWhole with
    | '.' :: tail => (tail.takeWhile Char.isDigit, tail.dropWhile Char.isDigit)
    | _ => ([], afterWhole)
  let digits := whole ++ fraction
  if digits.isEmpty then none
  else (readExponent? rest).map fun exponent =>
    ⟨Text.digitsValue digits, exponent - fraction.length⟩

/-- The double nearest to a decimal. The bounds on its size decide the extreme cases without
computing a huge power: below `10 ^ -330` lies nothing but zero, above `10 ^ 309` nothing but
infinity. -/
def toDouble (negative : Bool) (d : Decimal) : Double :=
  let top := digitCount d.coefficient + d.exponent
  if d.coefficient = 0 ∨ top < -330 then Double.zero negative
  else if 310 < top then Double.infinity negative
  else
    Double.ofRatio negative (d.coefficient * Nat.pow 10 d.exponent.toNat)
      (Nat.pow 10 (-d.exponent).toNat)

end Decimal

namespace Double

/-- Reads a double: an optional sign, then a decimal or, in any case, the words `inf`,
`infinity` or `nan`. -/
def read? (cs : List Char) : Option Double :=
  let (negative, body) := Text.splitSign cs
  let word := String.ofList (body.map Char.toLower)
  if word = "inf" ∨ word = "infinity" then some (infinity negative)
  else if word = "nan" then some (if negative then quietNaN.negate else quietNaN)
  else (Decimal.read? body).map (Decimal.toDouble negative)

/-- The longest beginning of a text that reads as a double. -/
def readLongest? (cs : List Char) : Option Double :=
  (List.range cs.length).reverse.findSome? fun n => read? (cs.take (n + 1))

end Double

end StackMachine
