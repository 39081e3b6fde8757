import StackMachine.Collection.Entries
import StackMachine.Number.Decimal
import StackMachine.Number.SipHash
import StackMachine.Value.Text

/-!
# Built-in functions on values

The names of the built-in functions, and what those compute that depend on nothing but their
arguments. They never fail on bad arguments: each has a value for what it cannot use.
-/

namespace StackMachine

/-- The built-in functions. -/
inductive Builtin
  /-- Prints a value. -/
  | print
  /-- Reads a line. -/
  | input
  /-- Converts to an integer. -/
  | int
  /-- Converts to a double. -/
  | float
  /-- Converts to a text. -/
  | string
  /-- Converts to a truth value. -/
  | bool
  /-- Creates a managed object. -/
  | new
  /-- The name of a type. -/
  | type
  /-- A hash. -/
  | hash
  /-- The integer of an integer value. -/
  | bs
  /-- Runs a program in a machine of its own. -/
  | run
  /-- Opens a file. -/
  | openFile
  /-- Closes a file. -/
  | close
  /-- Writes to a file. -/
  | write
  /-- Reads a file to its end. -/
  | read
  /-- Fails. -/
  | raise
  /-- The absolute value. -/
  | abs
  /-- A power. -/
  | pow
  /-- The number of characters, items or entries. -/
  | len
  /-- A part of a text. -/
  | substr
  /-- A list with one more item. -/
  | append
  /-- A dictionary with one more entry. -/
  | dictAppend
  /-- Frees what a pointer refers to. -/
  | del
  /-- A list of the arguments. -/
  | list
  /-- Says whether a pointer refers to something. -/
  | deref
  /-- A dictionary of the arguments. -/
  | dict
  deriving DecidableEq, Repr

namespace Builtin

/-- Every built-in function. -/
def all : List Builtin :=
  [print, input, int, float, string, bool, new, type, hash, bs, run, openFile, close, write, read,
    raise, abs, pow, len, substr, append, dictAppend, del, list, deref, dict]

/-- The name of a built-in function. -/
def name : Builtin → String
  | print => "print"
  | input => "input"
  | int => "int"
  | float => "float"
  | string => "string"
  | bool => "bool"
  | new => "new"
  | type => "type"
  | hash => "hash"
  | bs => "bs"
  | run => "run"
  | openFile => "open"
  | close => "close"
  | write => "write"
  | read => "read"
  | raise => "throw"
  | abs => "abs"
  | pow => "pow"
  | len => "len"
  | substr => "substr"
  | append => "append"
  | dictAppend => "dict_append"
  | del => "del"
  | list => "list"
  | deref => "deref"
  | dict => "dict"

/-- The built-in function with a given name. -/
def ofName? (text : String) : Option Builtin := all.find? fun builtin => builtin.name == text

end Builtin

namespace Value

/-- The integer at the start of a text, after blanks: a sign and digits. No digits, and a number
of more than 32 bits, count as zero. -/
def leadingInteger (text : String) : Int32 :=
  let cs := Text.trimFront text.toList
  let (sign, rest) := match cs with
    | '+' :: rest => (['+'], rest)
    | '-' :: rest => (['-'], rest)
    | _ => ([], cs)
  (Text.readInt32? (sign ++ rest.takeWhile Char.isDigit)).getD 0

/-- Conversion to an integer: doubles are cut and kept in range, long integers wrap. -/
def toInt : Option Value → Value
  | some (str s) => int (leadingInteger s)
  | some (double x) => int (Int32.ofInt (x.truncate Int32.minValue.toInt Int32.maxValue.toInt))
  | some (long n) => int n.toInt32
  | some (bool b) => int (if b then 1 else 0)
  | some (int n) => int n
  | _ => int 0

/-- Conversion to a double: of a text, the longest part at its start that is a number. -/
def toFloat : Option Value → Value
  | some (str s) =>
    double ((Double.readLongest? (Text.trimFront s.toList)).getD (Double.zero false))
  | some (int n) => double (Double.ofInt n.toInt)
  | some (long n) => double (Double.ofInt n.toInt)
  | some (bool b) => double (Double.ofInt (if b then 1 else 0))
  | some (double x) => double x
  | _ => double (Double.zero false)

/-- A double with six places. -/
def sixPlaces (x : Double) : String :=
  if x.isNaN then "NaN"
  else if x.isInfinite then if x.isNegative then "-inf" else "inf"
  else String.ofList (x.fixed 6)

/-- Conversion to a text: doubles have six places; pointers, lists and dictionaries are left out. -/
def toText : Option Value → Value
  | some (int n) => str (Text.writeInteger n.toInt)
  | some (long n) => str (Text.writeInteger n.toInt)
  | some (double x) => str (sixPlaces x)
  | some (bool b) => str (truthText b)
  | some (str s) => str s
  | some null => str "null"
  | _ => str ""

/-- Conversion to a truth value: a text is false if it is empty, `0`, or `false` in any case. -/
def toTruth : Option Value → Value
  | some (int n) => bool (n ≠ 0)
  | some (long n) => bool (n ≠ 0)
  | some (double x) => bool (!x.equal (Double.zero false))
  | some (str s) => bool (s.toLower ∉ ["false", "0", ""])
  | some (bool b) => bool b
  | _ => bool false

/-- The bytes of a text as they are hashed: its UTF-8 form and a byte that ends it. -/
def hashedText (s : String) : List UInt8 := s.toUTF8.toList ++ [0xFF]

/-- The bytes of a value as they are hashed; of most values only the name of the type is. -/
def hashedBytes : Value → List UInt8
  | str s => hashedText s
  | int n => (List.range 4).map fun i => UInt8.ofNat (n.toUInt32.toNat / Nat.pow 256 i)
  | double x => (List.range 8).map fun i => UInt8.ofNat (x.bits.toNat / Nat.pow 256 i)
  | other => hashedText other.typeName

/-- The hash of a value. -/
def toHash : Option Value → Value
  | some value => long (SipHash.hash 0 0 value.hashedBytes).toInt64
  | none => long 0

/-- The absolute value; the least integer is its own. -/
def absolute : Option Value → Value
  | some (int n) => int (if n < 0 then -n else n)
  | some (long n) => long (if n < 0 then -n else n)
  | some (double x) => double x.abs
  | _ => int 0

/-- A number as a double, and anything else as zero. -/
def numeric : Value → Double
  | int n => Double.ofInt n.toInt
  | long n => Double.ofInt n.toInt
  | double x => x
  | _ => Double.zero false

/-- A power of two numbers; one unless there are two. -/
def power : List Value → Value
  | base :: exponent :: _ => double (base.numeric.pow exponent.numeric)
  | _ => double (Double.ofInt 1)

/-- The number of characters, items or entries. -/
def length : Option Value → Value
  | some (str s) => int (Int32.ofNat s.length)
  | some (list items) => int (Int32.ofNat items.length)
  | some (dict entries) => int (Int32.ofNat entries.length)
  | _ => int 0

/-- The characters from a position on, at most so many if a count is given. What is not an integer
counts as no position or no count. -/
def subtext : List Value → Value
  | str s :: start :: rest =>
    let cs := s.toList
    let first := (start.integer?.getD 0).toInt.toNat
    let count := match rest.head?.bind integer? with
      | some count => count.toInt.toNat
      | none => cs.length
    str (String.ofList ((cs.drop first).take count))
  | _ => str ""

/-- A list with one more item; anything else is left as it is. -/
def appended : List Value → Value
  | list items :: item :: _ => list (items ++ [item])
  | first :: _ => first
  | [] => int 0

/-- A dictionary with one more entry; anything else is left as it is. -/
def extended : List Value → Value
  | dict entries :: key :: value :: _ => dict (Entries.insert key.text value entries)
  | first :: _ => first
  | [] => int 0

/-- The pairs of neighbouring values, keyed by text. An odd value at the end is left out. -/
def pairs : List Value → List (String × Value)
  | key :: value :: rest => (key.text, value) :: pairs rest
  | _ => []

end Value

end StackMachine
