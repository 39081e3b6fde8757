import StackMachine.Fault
import StackMachine.Value.Equality

/-!
# Operators

What the operators do. The operands decide the rule: a double on either side makes the operation
one on doubles, two integers are computed in 64 bits and wrap around, and texts, pointers, lists
and dictionaries have a few operators each. An operator that fails does so on the line it is given.
-/

namespace StackMachine

/-- The operators that have a meaning for some operands. -/
inductive Operator
  /-- Sum, or concatenation. -/
  | add
  /-- Difference. -/
  | sub
  /-- Product, or repetition. -/
  | mul
  /-- Quotient. -/
  | div
  /-- Remainder. -/
  | rem
  /-- Equality. -/
  | eq
  /-- Inequality. -/
  | ne
  /-- Less. -/
  | lt
  /-- Greater. -/
  | gt
  /-- Less or equal. -/
  | le
  /-- Greater or equal. -/
  | ge
  /-- Conjunction. -/
  | and
  /-- Disjunction. -/
  | or
  /-- The right operand. -/
  | assign
  deriving DecidableEq, Repr

/-- The operator that a text spells. -/
def Operator.ofText? (text : String) : Option Operator :=
  if text = "+" then some add
  else if text = "-" then some sub
  else if text = "*" then some mul
  else if text = "/" then some div
  else if text = "%" then some rem
  else if text = "==" then some eq
  else if text = "!=" then some ne
  else if text = "<" then some lt
  else if text = ">" then some gt
  else if text = "<=" then some le
  else if text = ">=" then some ge
  else if text = "and" ∨ text = "&&" then some and
  else if text = "or" ∨ text = "||" then some or
  else if text = "=" then some assign
  else none

namespace Value

/-- The greatest number of items that repeating a list may give. -/
def maxRepeated : UInt64 := 0x4000000

/-- Operations on doubles. -/
def doubleOp (x y : Double) (operator : String) (line : Nat) : Except Fault Value :=
  let nonZero (d : Double) : Bool := !d.equal (Double.zero false)
  match Operator.ofText? operator with
  | some .add => .ok (double (x.add y))
  | some .sub => .ok (double (x.sub y))
  | some .mul => .ok (double (x.mul y))
  | some .div =>
    if y.equal (Double.zero false) then .error (.onLine .divisionByZero line)
    else .ok (double (x.div y))
  | some .eq => .ok (bool (x.equal y))
  | some .ne => .ok (bool (!x.equal y))
  | some .lt => .ok (bool (x.less y))
  | some .gt => .ok (bool (y.less x))
  | some .le => .ok (bool (x.lessEqual y))
  | some .ge => .ok (bool (y.lessEqual x))
  | some .and => .ok (bool (nonZero x && nonZero y))
  | some .or => .ok (bool (nonZero x || nonZero y))
  | some .rem | some .assign | none =>
    .error (.onLine (.unsupportedOperator .double operator) line)

/-- Operations on integers, computed in 64 bits. -/
def integerOp (a b : Int64) (operator : String) (line : Nat) : Except Fault Value :=
  match Operator.ofText? operator with
  | some .add => .ok (long (a + b))
  | some .sub => .ok (long (a - b))
  | some .mul => .ok (long (a * b))
  | some .div => if b = 0 then .error (.onLine .divisionByZero line) else .ok (long (a / b))
  | some .rem => if b = 0 then .error (.onLine .remainderByZero line) else .ok (long (a % b))
  | some .eq => .ok (bool (a = b))
  | some .ne => .ok (bool (a ≠ b))
  | some .lt => .ok (bool (a < b))
  | some .gt => .ok (bool (b < a))
  | some .le => .ok (bool (a ≤ b))
  | some .ge => .ok (bool (b ≤ a))
  | some .and => .ok (bool (a ≠ 0 && b ≠ 0))
  | some .or => .ok (bool (a ≠ 0 || b ≠ 0))
  | some .assign | none => .error (.onLine (.unsupportedOperator .integer operator) line)

/-- Operations on texts. -/
def textOp (a b : String) (operator : String) (line : Nat) : Except Fault Value :=
  match Operator.ofText? operator with
  | some .add => .ok (str (a ++ b))
  | some .eq => .ok (bool (a == b))
  | some .ne => .ok (bool (a != b))
  | _ => .error (.onLine (.unsupportedOperator .text operator) line)

/-- Whether a value counts as null in a comparison of pointers; what is no pointer does. -/
def countsAsNull (v : Value) : Bool :=
  match v.pointer? with
  | some p => p.isNull
  | none => true

/-- Operations with a pointer on at least one side. -/
def pointerOp (left right : Value) (operator : String) (line : Nat) : Except Fault Value :=
  match Operator.ofText? operator, left.pointer?, right.pointer? with
  | some .eq, some a, some b => .ok (bool (a.target = b.target))
  | some .ne, some a, some b => .ok (bool (a.target ≠ b.target))
  | some .eq, _, _ => .ok (bool (left.countsAsNull && right.countsAsNull))
  | some .ne, _, _ => .ok (bool (left.countsAsNull != right.countsAsNull))
  | some .assign, _, some _ => .ok right
  | _, _, _ => .error (.onLine (.unsupportedOperator .pointer operator) line)

/-- The product of two words; there is none if it does not fit in a word. -/
def checkedProduct (a b : UInt64) : Option UInt64 :=
  if a.toBitVec.umulOverflow b.toBitVec then none else some (a * b)

/-- Puts so many copies of items behind others. -/
def repeatOnto (items : List Value) : (times : Nat) → Array Value → Array Value
  | 0, out => out
  | times + 1, out => repeatOnto items times (out ++ items)

/-- A list repeated. The count and the length are words; a count below zero counts as zero. -/
def repeatList (items : List Value) (count : Int64) (line : Nat) : Except Fault Value :=
  let times := (max count 0).toUInt64
  if items.isEmpty || times = 0 then .ok (list [])
  else
    match (checkedProduct (UInt64.ofNat items.length) times).filter (· ≤ maxRepeated) with
    | none => .error (.onLine (.repetitionTooLarge items.length times.toNat) line)
    | some _ => .ok (list (repeatOnto items times.toNat #[]).toList)

/-- A binary operator applied to two values. -/
def binary (left right : Value) (operator : String) (line : Nat) : Except Fault Value :=
  if left.isDouble || right.isDouble then doubleOp left.toDouble right.toDouble operator line
  else
    match left.integer?, right.integer? with
    | some a, some b => integerOp a b operator line
    | _, count =>
      match left, right with
      | str a, str b => textOp a b operator line
      | pointer _, _ => pointerOp left right operator line
      | _, pointer _ => pointerOp left right operator line
      | list xs, list ys =>
        if Operator.ofText? operator = some .add then .ok (list (xs ++ ys))
        else .error (.onLine .operandMismatch line)
      | list items, _ =>
        match Operator.ofText? operator, count with
        | some .mul, some n => repeatList items n line
        | _, _ => .error (.onLine .operandMismatch line)
      | dict xs, dict ys =>
        if Operator.ofText? operator = some .eq then .ok (bool (equalEntries xs ys))
        else .error (.onLine .operandMismatch line)
      | _, _ => .error (.onLine .operandMismatch line)

/-- A unary operator applied to a value. -/
def unary (operand : Value) (operator : String) (line : Nat) : Except Fault Value :=
  if operator = "-" then
    match operand with
    | int n => .ok (int (-n))
    | long n => .ok (long (-n))
    | double x => .ok (double x.negate)
    | _ => .error (.onLine .notNegatable line)
  else if operator = "!" ∨ operator = "not" then .ok (bool (!operand.isTruthy))
  else .error (.onLine (.unknownUnary operator) line)

end Value

end StackMachine
