import StackMachine.Debug.Console
import StackMachine.Text.Width

/-!
# The debugger's screen

The console as rows of characters: five boxes, of which the second row holds two. Whatever does
not fit into a box is cut.
-/

namespace StackMachine.Screen

/-- The characters of a line that take up a cell. -/
def visible (line : List Char) : List Char :=
  line.filter fun c => !(c.toNat < 0x20 || (0x7F ≤ c.toNat && c.toNat < 0xA0))

/-- The lines of several texts, each of which may hold more than one. -/
def linesOf (texts : List String) : List (List Char) :=
  (Text.lines (Text.join "\n" texts).toList).map visible

/-- A box with a title around lines. -/
def box (title : String) (width height : Nat) (content : List (List Char)) : List (List Char) :=
  let inner := width - 2
  let rows := (List.range (height - 2)).map fun row =>
    '│' :: Text.fitCells ' ' inner ((content[row]?).getD []) ++ ['│']
  ('┌' :: Text.fitCells '─' inner title.toList ++ ['┐']) ::
    rows ++ ['└' :: List.replicate inner '─' ++ ['┘']]

/-- Two boxes side by side. -/
def beside (left right : List (List Char)) : List (List Char) := List.zipWith (· ++ ·) left right

/-- A source line with its marks: the breakpoint, the pause and the line number. -/
def sourceLine (console : Console) (number : Nat) (text : String) : List Char :=
  let mark := match console.machine.overlay.breakpoints.find? fun bp => bp.line = number with
    | some bp => if bp.enabled then '●' else '○'
    | none => ' '
  let marker := if console.pausedLine = some number then '▶' else ' '
  mark :: marker :: Text.padLeft ' ' 4 (toString number).toList ++ " │ ".toList ++
    visible text.toList

/-- The source lines with their numbers, from one. -/
def sourceLines (console : Console) : List (List Char) :=
  console.source.mapIdx fun index text => sourceLine console (index + 1) text

/-- The last items of a list, at most `count`. -/
def lastOf {α : Type} (count : Nat) (items : List α) : List α :=
  items.drop (items.length - count)

/-- The rows of the screen, without trailing blanks. -/
def rows (columns height : Nat) (console : Console) : List String :=
  let output := (Text.lines console.machine.output.accepted.toList).map String.ofList
  let all :=
    box "Source" columns (height - 19) (sourceLines console) ++
    beside
      (box "Variables" (columns / 2) 8 (linesOf (console.variableTexts " = ")))
      (box "Stack" (columns / 2) 8 (linesOf ((console.machine.stack.take 6).map Value.text))) ++
    box "Output" columns 5 (linesOf (lastOf 3 output)) ++
    box "Status" columns 3 (linesOf [console.status]) ++
    box "Command" columns 3 (linesOf ["(debug) " ++ console.typed])
  all.map fun row => String.ofList (Text.dropBack (· == ' ') row)

/-- A screen on which nothing was drawn. -/
def blank (height : Nat) : List String := List.replicate height ""

end StackMachine.Screen
