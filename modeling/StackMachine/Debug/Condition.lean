import StackMachine.Code.Literal
import StackMachine.Collection.Entries
import StackMachine.Operator
import StackMachine.Text.Blank

/-!
# Conditions of breakpoints

A condition is the name of a variable, or a name, a comparison and a literal. What cannot be
evaluated counts as true.
-/

namespace StackMachine

/-- The variables of a program by name. -/
abbrev Variables := Entries String Value

namespace Condition

/-- The comparisons of a condition, in the order in which they are looked for. -/
def comparisons : List String := ["==", "!=", "<=", ">=", "<", ">"]

/-- Cuts a condition at the first comparison that occurs in it. -/
def split? (cs : List Char) : Option (List Char × String × List Char) :=
  comparisons.findSome? fun comparison =>
    (Text.cutAt comparison.toList cs).map fun (left, right) => (left, comparison, right)

/-- The value that the right side of a comparison denotes: a literal, or else a text, which may
stand between quotes. -/
def literal (cs : List Char) : Value :=
  (Value.readLiteral? (String.ofList cs)).getD (.str (String.ofList (Text.trimChar '"' cs)))

/-- Whether a condition holds. -/
def holds (condition : String) (bindings : Variables) : Bool :=
  let cs := Text.trim condition.toList
  match split? cs with
  | none =>
    match Entries.find? (String.ofList cs) bindings with
    | some value => value.isTruthy
    | none => true
  | some (left, comparison, right) =>
    match Entries.find? (String.ofList (Text.trim left)) bindings with
    | none => true
    | some value =>
      match value.binary (literal (Text.trim right)) comparison 0 with
      | .ok result => result.isTruthy
      | .error _ => true

end Condition

end StackMachine
