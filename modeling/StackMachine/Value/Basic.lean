import StackMachine.Number.Double

/-!
# Values

The dynamically typed values of a program. A pointer says what it refers to; whether it is null
is read off its target, so a null pointer never refers to anything.
-/

namespace StackMachine

/-- What a pointer refers to. -/
inductive Target
  /-- Nothing. -/
  | null
  /-- A managed object, by its number. -/
  | object (id : Int)
  /-- An object of the collector, by its handle. -/
  | collected (handle : Nat)
  /-- An open file, by its number. -/
  | file (id : Int)
  /-- A raw block, by its address. -/
  | address (location : Int)
  deriving DecidableEq, Repr, Inhabited

/-- The integer that identifies a target; `0` for null. -/
def Target.identity : Target → Int64
  | .null => 0
  | .object id => Int64.ofInt id
  | .collected handle => Int64.ofNat handle
  | .file id => Int64.ofInt id
  | .address location => Int64.ofInt location

/-- A pointer value. -/
structure Pointer where
  /-- What it refers to. -/
  target : Target
  /-- The name of the type it was created with. -/
  tag : String
  /-- A weak pointer does not keep its target alive. -/
  weak : Bool := false
  /-- A reference refuses to become null. -/
  reference : Bool := false
  deriving DecidableEq, Repr, Inhabited

namespace Pointer

/-- Whether the pointer refers to nothing. -/
def isNull (p : Pointer) : Bool := p.target = .null

/-- An ordinary pointer to nothing. -/
def null (tag : String) : Pointer := { target := .null, tag }

/-- A reference to `target`; there is none to null. -/
def reference? (target : Target) (tag : String) : Option Pointer :=
  if target = .null then none else some { target, tag, reference := true }

/-- Points at a new target. A reference refuses to become null. -/
def rebind? (p : Pointer) (target : Target) : Option Pointer :=
  if p.reference && target = .null then none else some { p with target }

end Pointer

/-- A dynamically typed value. The pairs of a dictionary stand in increasing key order. -/
inductive Value
  /-- A 32-bit integer. -/
  | int (n : Int32)
  /-- A 64-bit integer. -/
  | long (n : Int64)
  /-- A floating-point number. -/
  | double (x : Double)
  /-- A truth value. -/
  | bool (b : Bool)
  /-- A text. -/
  | str (s : String)
  /-- The null value. -/
  | null
  /-- A pointer. -/
  | pointer (p : Pointer)
  /-- A list. -/
  | list (items : List Value)
  /-- A dictionary. -/
  | dict (entries : List (String × Value))
  deriving Repr, Inhabited

namespace Value

/-- Whether the value is a 32-bit or a 64-bit integer. -/
def isInteger : Value → Bool
  | int _ => true
  | long _ => true
  | _ => false

/-- Whether the value is a 32-bit integer. -/
def isInt : Value → Bool
  | int _ => true
  | _ => false

/-- Whether the value is a floating-point number. -/
def isDouble : Value → Bool
  | double _ => true
  | _ => false

/-- Whether the value is the null value. -/
def isNull : Value → Bool
  | null => true
  | _ => false

/-- The integer that an integer value holds. -/
def integer? : Value → Option Int64
  | int n => some n.toInt64
  | long n => some n
  | _ => none

/-- The text that a text value holds. -/
def text? : Value → Option String
  | str s => some s
  | _ => none

/-- The pointer that a pointer value holds. -/
def pointer? : Value → Option Pointer
  | pointer p => some p
  | _ => none

/-- Whether a condition accepts the value. -/
def isTruthy : Value → Bool
  | int n => n ≠ 0
  | long n => n ≠ 0
  | double x => !x.equal (Double.zero false)
  | bool b => b
  | str s => !s.isEmpty
  | null => false
  | pointer p => !p.isNull
  | list items => !items.isEmpty
  | dict entries => !entries.isEmpty

/-- The value as a number where the other operand is a double. -/
def toDouble : Value → Double
  | double x => x
  | int n => Double.ofInt n.toInt
  | long n => Double.ofInt n.toInt
  | bool b => Double.ofInt (if b then 1 else 0)
  | list items => Double.ofInt items.length
  | dict entries => Double.ofInt entries.length
  | str _ => Double.zero false
  | null => Double.zero false
  | pointer _ => Double.zero false

/-- The value as a size or an address. -/
def toInt64 : Value → Int64
  | int n => n.toInt64
  | long n => n
  | bool b => if b then 1 else 0
  | pointer p => p.target.identity
  | list items => Int64.ofNat items.length
  | dict entries => Int64.ofNat entries.length
  | double _ => 0
  | str _ => 0
  | null => 0

/-- The name of the value's type; a pointer answers with its tag. -/
def typeName : Value → String
  | int _ => "int"
  | long _ => "long"
  | double _ => "float"
  | bool _ => "bool"
  | str _ => "string"
  | null => "null"
  | pointer p => p.tag
  | list _ => "list"
  | dict _ => "dict"

end Value

end StackMachine
