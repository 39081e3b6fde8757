import StackMachine.Machine.Run

/-!
# The debugger's console

The console drives one machine by command lines and answers each with a status line. Only the
five commands that run the program change the machine; the others look at it or edit breakpoints.
-/

namespace StackMachine

/-- Why a console cannot be opened. -/
inductive ConsoleError
  /-- The file cannot be read. -/
  | unreadable (error : FileError)
  /-- The program cannot be loaded. -/
  | unloadable (error : LoadError)
  deriving DecidableEq, Repr

/-- The wording of a console error. -/
def ConsoleError.message : ConsoleError → String
  | unreadable error => "failed to read file: " ++ error.message
  | unloadable error => error.message

/-- The state of a console. -/
structure Console where
  /-- The machine being debugged. -/
  machine : Machine
  /-- The source lines. -/
  source : List String
  /-- The line of the next instruction, while the program is paused. -/
  pausedLine : Option Nat := none
  /-- Whether the console still takes commands. -/
  attending : Bool := true
  /-- Whether the program has ended. -/
  finished : Bool := false
  /-- The text typed since the last command. -/
  typed : String := ""
  /-- The status line. -/
  status : String := "Ready. Type 'h' for help."
  deriving Inhabited

namespace Console

/-- The text that lists the commands. -/
def help : String :=
  "Commands: s(tep) n(ext) i(nto) o(ut) c(ontinue) b <line> [cond] d <line> " ++
    "en <line> dis <line> bl p <var> vars stack bt q(uit)"

/-- Opens a console on a source text. -/
def ofSource (machine : Machine) (text : String) : Except ConsoleError Console :=
  match machine.load text with
  | (.ok _, machine) => .ok { machine, source := (Text.lines text.toList).map String.ofList }
  | (.error error, _) => .error (.unloadable error)

/-- Opens a console on a file. -/
def ofFile (machine : Machine) (path : String) : Except ConsoleError Console :=
  match machine.folder.readText path with
  | .ok text => ofSource machine text
  | .error error => .error (.unreadable error)

/-- Shows a status line. -/
def say (console : Console) (status : String) : Console := { console with status }

/-- Sets a breakpoint on a line. -/
def setBreakpoint (console : Console) (line : Nat) (condition : Option String) : Console :=
  let set := { console with machine := console.machine.addBreakpoint line condition }
  match condition with
  | some condition =>
    set.say ("Breakpoint set at line " ++ toString line ++ " if " ++ condition)
  | none => set.say ("Breakpoint set at line " ++ toString line)

/-- Runs the program to the next pause or its end. There is no result if the number of steps does
not suffice. -/
def resume (steps : Nat) (console : Console) : Option Console :=
  if console.finished then some (console.say "Program has ended.")
  else
    match console.machine.executeDebug steps with
    | (.done (.paused pc line), machine) =>
      some { console with
        machine
        pausedLine := some line
        status := "Paused at line " ++ toString line ++ " (pc " ++ toString pc ++ ")" }
    | (.done .halted, machine) =>
      some { console with
        machine, pausedLine := none, finished := true, status := "Program finished." }
    | (.failed fault, machine) =>
      some { console with machine, pausedLine := none, finished := true, status := fault.text }
    | (.unfinished, _) => none

/-- Gives the overlay a command and runs the program. -/
def command (steps : Nat) (console : Console) (order : Overlay → Overlay) : Option Console :=
  resume steps { console with
    machine := { console.machine with overlay := order console.machine.overlay } }

/-- Edits the breakpoints on the line that the second word names. -/
def onLine (console : Console) (words : List String) (usage : String)
    (edit : Console → Nat → Console) : Console :=
  match words[1]?.map fun word => Text.readSize word.toList with
  | some (.ok line) => edit console line
  | _ => console.say ("Usage: " ++ usage)

/-- Edits the breakpoints on a line and says so. -/
def editOverlay (edit : Overlay → Nat → Overlay) (what : String) (console : Console)
    (line : Nat) : Console :=
  { console with
    machine := { console.machine with overlay := edit console.machine.overlay line }
    status := "Breakpoint " ++ what ++ " at line " ++ toString line }

/-- Texts in increasing order. -/
def sorted (texts : List String) : List String := texts.mergeSort fun a b => !(b < a)

/-- The variables, each as name, separator and value, in the order of these texts. -/
def variableTexts (console : Console) (separator : String) : List String :=
  sorted (console.machine.bindings.map fun entry => entry.1 ++ separator ++ entry.2.text)

/-- The text of a breakpoint in the list of breakpoints. -/
def breakpointText (breakpoint : Breakpoint) : String :=
  toString breakpoint.line ++ (if breakpoint.enabled then "" else " (disabled)") ++
    match breakpoint.condition with
    | some condition => " if " ++ condition
    | none => ""

/-- Carries out the command that words spell. -/
def obey (steps : Nat) (console : Console) (words : List String) : Option Console :=
  match words.head? with
  | none => some console
  | some head =>
    if head ∈ ["s", "step"] then console.command steps Overlay.step
    else if head ∈ ["n", "next"] then console.command steps Overlay.stepOver
    else if head ∈ ["i", "into"] then console.command steps Overlay.stepInto
    else if head ∈ ["o", "out"] then console.command steps Overlay.stepOut
    else if head ∈ ["c", "continue"] then console.command steps Overlay.resume
    else some <|
      if head = "b" then
        console.onLine words "b <line> [condition]" fun console line =>
          let condition := Text.join " " (words.drop 2)
          console.setBreakpoint line (if condition.isEmpty then none else some condition)
      else if head = "d" then
        console.onLine words "d <line>" (editOverlay Overlay.removeLine "deleted")
      else if head = "en" then
        console.onLine words "en <line>"
          (editOverlay (fun overlay line => overlay.setEnabled line true) "enabled")
      else if head = "dis" then
        console.onLine words "dis <line>"
          (editOverlay (fun overlay line => overlay.setEnabled line false) "disabled")
      else if head = "bl" then
        console.say ("Breakpoints: " ++
          Text.join ", " (console.machine.overlay.breakpoints.map breakpointText))
      else if head = "p" then
        match words[1]? with
        | none => console.say "Usage: p <var>"
        | some name =>
          match Entries.find? name console.machine.bindings with
          | some value => console.say (name ++ " = " ++ value.text)
          | none => console.say ("Undefined variable: " ++ name)
      else if head = "vars" then
        console.say ("Variables: " ++ Text.join " " (console.variableTexts "="))
      else if head = "stack" then
        console.say ("Stack: [" ++
          Text.join ", " (console.machine.stack.reverse.map Value.text) ++ "]")
      else if head ∈ ["bt", "backtrace"] then
        console.say ("Calls: " ++
          Text.join " -> " ("__main__" :: console.machine.overlay.calls.reverse))
      else if head ∈ ["q", "quit"] then { console with attending := false }
      else if head ∈ ["h", "help"] then console.say help
      else console.say ("Unknown command: " ++ head)

/-- Carries out one command line. There is no result if the number of steps does not suffice. -/
def process (steps : Nat) (console : Console) (line : String) : Option Console :=
  console.obey steps ((Text.words line.toList).map String.ofList)

/-- What can be typed. -/
inductive Key
  /-- Ends a command line. -/
  | enter
  /-- Removes the last character. -/
  | backspace
  /-- Leaves the console. -/
  | escape
  /-- Adds a character. -/
  | char (c : Char)
  /-- Does nothing. -/
  | other
  deriving DecidableEq, Repr

/-- Takes one key. -/
def press (steps : Nat) (console : Console) : Key → Option Console
  | .enter => { console with typed := "" }.process steps console.typed
  | .char c => some { console with typed := console.typed.push c }
  | .backspace =>
    some { console with typed := String.ofList console.typed.toList.dropLast }
  | .escape => some { console with attending := false }
  | .other => some console

/-- Takes keys until the console is left, and gives the console as it was before the last key it
took and as it is after it. -/
def pressAll (steps : Nat) (console : Console) : List Key → Option (Console × Console)
  | [] => some (console, console)
  | key :: rest =>
    match console.press steps key with
    | none => none
    | some after =>
      if after.attending then pressAll steps after rest else some (console, after)

end Console

end StackMachine
