import StackMachine.Number.Decimal
import StackMachine.Value.Basic

/-!
# Literals

The values that can be written in a program without quotes: the two truth values, null and
numbers. A number with a point is a double; any other is an integer, of 32 bits if it fits.
-/

namespace StackMachine.Value

/-- Reads a number. -/
def readNumber? (text : String) : Option Value :=
  let cs := text.toList
  if '.' ∈ cs then (Double.read? cs).map double
  else
    match Text.readInt32? cs with
    | some n => some (int n)
    | none => (Text.readInt64? cs).map long

/-- Reads a truth value, null or a number. -/
def readLiteral? (text : String) : Option Value :=
  if text = "true" then some (bool true)
  else if text = "false" then some (bool false)
  else if text = "null" then some null
  else readNumber? text

end StackMachine.Value
