import StackMachine.Number.Rounding

/-!
# Binary floating point with 64 bits

A `Double` is its 64 bits: a sign, an 11-bit exponent and a 52-bit fraction. A finite double
denotes `significand * 2 ^ scale` exactly, and arithmetic is the exact result rounded to the
nearest double, ties to an even significand. Results that are not a number follow one rule: the
first operand that is not a number is passed on, made quiet; an operation on numbers that has no
result gives `Double.indefinite`.
-/

namespace StackMachine

/-- A binary floating-point number, given by its bits. -/
structure Double where
  /-- Sign, exponent and fraction, most significant first. -/
  bits : UInt64
  deriving DecidableEq, Repr, Inhabited

namespace Double

/-- The weight of the sign bit. -/
def signWeight : Nat := 0x8000000000000000

/-- The weight of the lowest exponent bit. -/
def exponentWeight : Nat := 0x10000000000000

/-- The bits of infinity: the greatest exponent and an empty fraction. -/
def infinityBits : Nat := 0x7FF * exponentWeight

/-- The double with the given sign and the given bits below the sign. -/
def ofParts (negative : Bool) (magnitude : Nat) : Double :=
  ⟨UInt64.ofNat ((if negative then signWeight else 0) + magnitude)⟩

/-- Whether the sign bit is set. -/
def isNegative (x : Double) : Bool := signWeight ≤ x.bits.toNat

/-- The bits below the sign. -/
def magnitude (x : Double) : Nat := x.bits.toNat % signWeight

/-- Not a number: the greatest exponent with a fraction. -/
def isNaN (x : Double) : Bool := infinityBits < x.magnitude

/-- Plus or minus infinity. -/
def isInfinite (x : Double) : Bool := x.magnitude = infinityBits

/-- Plus or minus zero. -/
def isZero (x : Double) : Bool := x.magnitude = 0

/-- Zero with the given sign. -/
def zero (negative : Bool) : Double := ofParts negative 0

/-- Infinity with the given sign. -/
def infinity (negative : Bool) : Double := ofParts negative infinityBits

/-- The quiet not-a-number that a text denotes. -/
def quietNaN : Double := ofParts false (infinityBits + 0x8000000000000)

/-- What an operation on numbers gives when it has no result. -/
def indefinite : Double := ofParts true (infinityBits + 0x8000000000000)

/-- The biased exponent field. -/
def exponentField (x : Double) : Nat := x.magnitude / exponentWeight

/-- The integer significand of a finite double. -/
def significand (x : Double) : Nat :=
  let fraction := x.magnitude % exponentWeight
  if x.exponentField = 0 then fraction else fraction + exponentWeight

/-- The power of two that scales the significand. -/
def scale (x : Double) : Int :=
  if x.exponentField = 0 then -1074 else (x.exponentField : Int) - 1075

/-- The numerator of the absolute value of a finite double. -/
def numerator (x : Double) : Nat := x.significand * Nat.pow 2 x.scale.toNat

/-- The denominator of the absolute value of a finite double. -/
def denominator (x : Double) : Nat := Nat.pow 2 (-x.scale).toNat

/-- The double nearest to `num / den`, ties to an even significand. A result too large becomes
infinite and a result too small becomes zero. -/
def ofRatio (negative : Bool) (num den : Nat) : Double :=
  if num = 0 then zero negative
  else
    let guess : Int := (Nat.log2 num : Int) - Nat.log2 den - 53
    let wide := match guess with
      | .ofNat k => num / (den * Nat.pow 2 k)
      | .negSucc k => num * Nat.pow 2 (k + 1) / den
    let exponent := max (-1074) (if wide < 0x20000000000000 then guess else guess + 1)
    let significand := Number.roundScaled num den 2 (-exponent)
    ofParts negative (min ((exponent + 1074).toNat * exponentWeight + significand) infinityBits)

/-- The double nearest to an integer. -/
def ofInt (n : Int) : Double := ofRatio (n < 0) n.natAbs 1

/-- A number that orders doubles; both zeros have the key `0`. -/
def orderKey (x : Double) : Int :=
  if x.isNegative then -(x.magnitude : Int) else x.magnitude

/-- Numeric equality: zeros are equal, and what is not a number equals nothing. -/
def equal (x y : Double) : Bool :=
  !x.isNaN && !y.isNaN && x.orderKey = y.orderKey

/-- Numeric order; false if either side is not a number. -/
def less (x y : Double) : Bool :=
  !x.isNaN && !y.isNaN && x.orderKey < y.orderKey

/-- Numeric order or equality; false if either side is not a number. -/
def lessEqual (x y : Double) : Bool :=
  !x.isNaN && !y.isNaN && x.orderKey ≤ y.orderKey

/-- Flips the sign bit. -/
def negate (x : Double) : Double := ofParts (!x.isNegative) x.magnitude

/-- Clears the sign bit. -/
def abs (x : Double) : Double := ofParts false x.magnitude

/-- A not-a-number with its quiet bit set. -/
def quiet (x : Double) : Double :=
  if x.magnitude / 0x8000000000000 % 2 = 1 then x
  else ofParts x.isNegative (x.magnitude + 0x8000000000000)

/-- The exact value times `2 ^ 1074`, an integer for every finite double. -/
def units (x : Double) : Int :=
  let size : Int := x.significand * Nat.pow 2 (x.scale + 1074).toNat
  if x.isNegative then -size else size

/-- Runs `op` on two operands that are numbers, passing on what is not. -/
def lift (op : Double → Double → Double) (x y : Double) : Double :=
  if x.isNaN then x.quiet else if y.isNaN then y.quiet else op x y

/-- The sum of two numbers. -/
def addNumbers (x y : Double) : Double :=
  if x.isInfinite then
    if y.isInfinite && x.isNegative != y.isNegative then indefinite else x
  else if y.isInfinite then y
  else
    let total := x.units + y.units
    if total = 0 then zero (x.isNegative && y.isNegative)
    else ofRatio (total < 0) total.natAbs (Nat.pow 2 1074)

/-- The product of two numbers. -/
def mulNumbers (x y : Double) : Double :=
  let negative := x.isNegative != y.isNegative
  if x.isInfinite || y.isInfinite then
    if x.isZero || y.isZero then indefinite else infinity negative
  else ofRatio negative (x.numerator * y.numerator) (x.denominator * y.denominator)

/-- The quotient of two numbers. -/
def divNumbers (x y : Double) : Double :=
  let negative := x.isNegative != y.isNegative
  if x.isInfinite then if y.isInfinite then indefinite else infinity negative
  else if y.isInfinite then zero negative
  else if y.isZero then if x.isZero then indefinite else infinity negative
  else ofRatio negative (x.numerator * y.denominator) (x.denominator * y.numerator)

/-- The sum, rounded. -/
def add : Double → Double → Double := lift addNumbers

/-- The difference, rounded. -/
def sub : Double → Double → Double := lift fun x y => addNumbers x y.negate

/-- The product, rounded. -/
def mul : Double → Double → Double := lift mulNumbers

/-- The quotient, rounded. -/
def div : Double → Double → Double := lift divNumbers

/-- The power function of the host's mathematics library. -/
def pow (x y : Double) : Double :=
  let power := Float.pow (Float.ofBits x.bits) (Float.ofBits y.bits)
  if power.isNaN then lift (fun _ _ => indefinite) x y else ⟨power.toBits⟩

/-- The value without its fraction, kept between `low` and `high`; what is not a number gives
`0`. -/
def truncate (low high : Int) (x : Double) : Int :=
  if x.isNaN then 0
  else if x.isInfinite then if x.isNegative then low else high
  else
    let size : Int := x.numerator / x.denominator
    max low (min high (if x.isNegative then -size else size))

end Double

end StackMachine
