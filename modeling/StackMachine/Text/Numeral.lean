/-!
# Numerals

Reading and writing integers in decimal. A numeral is an optional sign and one or more ASCII
digits; nothing else is accepted, and leading zeros are.
-/

namespace StackMachine.Text

/-- The value of an ASCII digit. -/
def digitValue (c : Char) : Nat := c.toNat - '0'.toNat

/-- The number that a run of ASCII digits denotes. -/
def digitsValue (cs : List Char) : Nat := cs.foldl (fun n c => 10 * n + digitValue c) 0

/-- Splits an optional sign off; the flag says whether it was a minus. -/
def splitSign : List Char → Bool × List Char
  | '-' :: cs => (true, cs)
  | '+' :: cs => (false, cs)
  | cs => (false, cs)

/-- Reads an optional sign followed by one or more ASCII digits. -/
def readInteger? (cs : List Char) : Option Int :=
  let (negative, digits) := splitSign cs
  if digits.isEmpty || !digits.all Char.isDigit then none
  else
    let n : Int := digitsValue digits
    some (if negative then -n else n)

/-- Reads an integer that lies between `low` and `high`. -/
def readBetween? (low high : Int) (cs : List Char) : Option Int :=
  match readInteger? cs with
  | some n => if low ≤ n ∧ n ≤ high then some n else none
  | none => none

/-- Reads a signed 32-bit integer. -/
def readInt32? (cs : List Char) : Option Int32 :=
  (readBetween? (-0x80000000) 0x7FFFFFFF cs).map Int32.ofInt

/-- Reads a signed 64-bit integer. -/
def readInt64? (cs : List Char) : Option Int64 :=
  (readBetween? (-0x8000000000000000) 0x7FFFFFFFFFFFFFFF cs).map Int64.ofInt

/-- The greatest size that fits in a 64-bit word. -/
def maxSize : Nat := 0xFFFFFFFFFFFFFFFF

/-- Why a text is not a size. -/
inductive SizeError
  /-- There is no text at all. -/
  | empty
  /-- Some character is not a digit. -/
  | badDigit
  /-- The number exceeds `maxSize`. -/
  | tooLarge
  deriving DecidableEq, Repr

/-- The wording of a size error. -/
def SizeError.message : SizeError → String
  | .empty => "cannot parse integer from empty string"
  | .badDigit => "invalid digit found in string"
  | .tooLarge => "number too large to fit in target type"

/-- Reads digits after the value `n`, stopping at the first fault. -/
def readSizeDigits (n : Nat) : List Char → Except SizeError Nat
  | [] => .ok n
  | c :: cs =>
    if !c.isDigit then .error .badDigit
    else if 10 * n + digitValue c > maxSize then .error .tooLarge
    else readSizeDigits (10 * n + digitValue c) cs

/-- Reads a size: an optional plus sign and one or more ASCII digits, at most `maxSize`. -/
def readSize (cs : List Char) : Except SizeError Nat :=
  match cs with
  | [] => .error .empty
  | ['+'] => .error .badDigit
  | '+' :: digits => readSizeDigits 0 digits
  | digits => readSizeDigits 0 digits

/-- The decimal text of an integer. -/
def writeInteger (n : Int) : String :=
  match n with
  | .ofNat k => toString k
  | .negSucc k => "-" ++ toString (k + 1)

end StackMachine.Text
