import StackMachine.Number.Significant
import StackMachine.Text.Blank
import StackMachine.Text.Numeral
import StackMachine.Value.Basic

/-!
# The text of a value

What printing a value writes. Doubles have six significant digits in the general form; texts
are written as they are; a pointer shows its tag only.
-/

namespace StackMachine

/-- Printed doubles have six significant digits, are positional from `1e-4` up to a million, and
have exponents of at least two digits. -/
def Double.printed : Double.GeneralFormat := ⟨6, -4, 2⟩

/-- The printed text of a double. -/
def Double.text (x : Double) : String :=
  if x.isNaN then "nan"
  else if x.isInfinite then if x.isNegative then "-inf" else "inf"
  else if x.isZero then if x.isNegative then "-0" else "0"
  else String.ofList (x.general Double.printed)

/-- The text of a truth value. -/
def truthText (b : Bool) : String := if b then "true" else "false"

namespace Value

mutual

/-- The printed text of a value. -/
def text : Value → String
  | int n => Text.writeInteger n.toInt
  | long n => Text.writeInteger n.toInt
  | double x => x.text
  | bool b => truthText b
  | str s => s
  | null => "null"
  | pointer p => if p.isNull then "null_ptr" else "ptr(" ++ p.tag ++ ")"
  | list items => "[" ++ Text.join ", " (itemTexts items) ++ "]"
  | dict entries => "\x7b" ++ Text.join ", " (entryTexts entries) ++ "\x7d"

/-- The texts of the items of a list. -/
def itemTexts : List Value → List String
  | [] => []
  | item :: items => text item :: itemTexts items

/-- The texts of the pairs of a dictionary. -/
def entryTexts : List (String × Value) → List String
  | [] => []
  | (key, value) :: entries => (key ++ ": " ++ text value) :: entryTexts entries

end

end Value

end StackMachine
