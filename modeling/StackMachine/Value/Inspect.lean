import StackMachine.Number.Shortest
import StackMachine.Text.Quoted
import StackMachine.Value.Text

/-!
# Inspecting a value

A text that shows the kind of a value as well as its contents, for diagnosis. Doubles are
written exactly and texts are quoted.
-/

namespace StackMachine

/-- A target with its kind. -/
def Target.inspect : Target → String
  | .null => "Null"
  | .object id => "Object(" ++ Text.writeInteger id ++ ")"
  | .collected handle => "Gc(GcHandle(" ++ toString handle ++ "))"
  | .file id => "File(" ++ Text.writeInteger id ++ ")"
  | .address location => "Address(" ++ Text.writeInteger location ++ ")"

namespace Value

mutual

/-- A value with its kind. -/
def inspect : Value → String
  | int n => "Int(" ++ Text.writeInteger n.toInt ++ ")"
  | long n => "Long(" ++ Text.writeInteger n.toInt ++ ")"
  | double x => "Double(" ++ x.exactText ++ ")"
  | bool b => "Bool(" ++ truthText b ++ ")"
  | str s => "Str(" ++ Text.quoted s ++ ")"
  | null => "Null"
  | pointer p => "Pointer(" ++ p.target.inspect ++ ", " ++ p.tag ++ ")"
  | list items => "[" ++ Text.join ", " (inspectItems items) ++ "]"
  | dict entries => "\x7b" ++ Text.join ", " (inspectEntries entries) ++ "\x7d"

/-- The items of a list with their kinds. -/
def inspectItems : List Value → List String
  | [] => []
  | item :: items => inspect item :: inspectItems items

/-- The pairs of a dictionary with the kinds of their values. -/
def inspectEntries : List (String × Value) → List String
  | [] => []
  | (key, value) :: entries => (Text.quoted key ++ ": " ++ inspect value) :: inspectEntries entries

end

end Value

end StackMachine
