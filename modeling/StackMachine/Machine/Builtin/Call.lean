import StackMachine.Machine.Effect
import StackMachine.Machine.Builtin.Basic

/-!
# Calling built-in functions

What the built-in functions do to a machine. They do not fail on bad arguments: they leave a line
in the diagnostics and return a value that says so. Only `throw` and refused output fail, both
without a line.

A program that is run from another one gets a machine of its own, with the same settings and files,
that reads the standard input. Its output is written to the outer machine once it has ended, in one
piece, also if it failed.
-/

namespace StackMachine

/-- How a run can end: with a result, by a fault, or not in the number of steps allowed. -/
inductive Outcome (α : Type)
  /-- It ended with a result. -/
  | done (result : α)
  /-- It failed. -/
  | failed (fault : Fault)
  /-- It did not end in time. -/
  | unfinished
  deriving DecidableEq, Repr

/-- Runs the program of a machine to its end. -/
abbrev Runner := Machine → Outcome Unit × Machine

namespace Machine

/-- The number of machines that may start each other. -/
def maxDepth : Nat := 16

/-- A machine that is started from this one. -/
def child (m : Machine) : Machine :=
  { create m.settings with
    host := m.host
    platform := m.platform
    depth := m.depth + 1
    standardInput := m.standardInput
    folder := m.folder
    log := m.log }

/-- Takes over what a started machine has changed outside itself. -/
def adopt (m inner : Machine) : Machine :=
  { m with
    standardInput := inner.standardInput
    folder := inner.folder
    log := inner.log }

/-- Runs the program in a file in a machine that is started from this one. Gives how it ended and
what it wrote, with this machine after it has taken over the rest. -/
def runNested (runner : Runner) (m : Machine) (path : String) :
    Except LoadError (Outcome Unit × String) × Machine :=
  match m.child.loadFile path with
  | (.error error, inner) => (.error error, m.adopt inner)
  | (.ok _, inner) =>
    let (outcome, ended) := runner inner
    (.ok (outcome, ended.output.accepted), m.adopt ended)

end Machine

namespace Builtin

open Effect

/-- The number of the file that a value points at. -/
def fileNumber? (value : Option Value) : Option Int :=
  match value.bind Value.pointer? with
  | some { target := .file id, .. } => some id
  | _ => none

/-- Runs the program in a file and returns zero, or minus one if that fails. -/
def runFile (runner : Runner) (path : String) : Effect Value := do
  let m ← get
  if Machine.maxDepth ≤ m.depth then
    log ("Error: run nested too deeply: " ++ path)
    return .int (-1)
  match m.runNested runner path with
  | (.error error, after) =>
    set (after.logLine ("Error: " ++ error.message))
    return .int (-1)
  | (.ok (outcome, written), after) =>
    set after
    match outcome with
    | .unfinished => throw .unfinished
    | .done () =>
      output fun sink => sink.put written
      return .int 0
    | .failed _ =>
      output fun sink => sink.put written
      return .int (-1)

/-- Creates a managed object with the tag that a text spells or a value's type names. A refused
request gives a null pointer. -/
def newObject (argument : Value) : Effect Value := do
  let tag := argument.text?.getD argument.typeName
  let size := ManagedObject.sizeFor tag
  if !(← get).fitsHeapLimit size then
    log ("Error: heap limit exceeded allocating " ++ tag)
    return .pointer (.null tag)
  match ← createObject tag size with
  | some id => return .pointer { target := .object id, tag }
  | none => return .pointer (.null tag)

/-- Opens a file. A failure gives a null pointer. -/
def openPath (path mode : String) : Effect Value := do
  let m ← get
  match m.files.openAt m.folder path (OpenMode.ofText mode) with
  | .ok (id, files, folder) =>
    set { m with files, folder }
    return .pointer { target := .file id, tag := "file" }
  | .error _ =>
    log ("Error: Could not open file: " ++ path)
    return .pointer (.null "file")

/-- Closes a file. -/
def closeFile (handle : Option Int) : Effect Value := do
  match handle with
  | none =>
    log "Error: Cannot close null file handle"
    return .int (-1)
  | some id =>
    let m ← get
    let (wasOpen, files) := m.files.close id
    set { m with files }
    if wasOpen then return .int 0
    log "Error: Invalid file handle"
    return .int (-1)

/-- Writes the text of a value to a file and returns its number of characters. -/
def writeFile (handle : Option Int) (content : Option Value) : Effect Value := do
  let m ← get
  let written := do
    let id ← handle
    let value ← content
    m.files.write m.folder id value.text
  match written with
  | some (.ok count, files, folder) =>
    set { m with files, folder }
    return .int (Int32.ofNat count)
  | some (.error _, files, folder) =>
    set { m with files, folder }
    log "Error: File not open for writing"
    return .int (-1)
  | none =>
    log "Error: Invalid file handle for write"
    return .int (-1)

/-- Reads a file to its end. -/
def readFile (handle : Option Int) : Effect Value := do
  let m ← get
  match handle.bind fun id => m.files.read m.folder id with
  | some (.ok text, files) =>
    set { m with files }
    return .str text
  | some (.error _, files) =>
    set { m with files }
    log "Error: File not open for reading"
    return .str ""
  | none =>
    log "Error: Invalid file handle for read"
    return .str ""

/-- Calls a built-in function. -/
def call (runner : Runner) (builtin : Builtin) (arguments : List Value) : Effect Value := do
  let first := arguments.head?
  match builtin with
  | .print =>
    writeLine ((first.map Value.text).getD "")
    return .null
  | .input => return .str (← readLine)
  | .int => return Value.toInt first
  | .float => return Value.toFloat first
  | .string => return Value.toText first
  | .bool => return Value.toTruth first
  | .new =>
    match first with
    | some argument => newObject argument
    | none => return .pointer (.null "object")
  | .type => return .str ((first.map Value.typeName).getD "unknown")
  | .hash => return Value.toHash first
  | .bs =>
    match first.bind Value.integer? with
    | some n => return .long n
    | none => return .str "0"
  | .run =>
    match first.bind Value.text? with
    | some path => runFile runner path
    | none =>
      log "Error: run expects a file path"
      return .int (-1)
  | .openFile =>
    match first.bind Value.text? with
    | some path => openPath path ((arguments[1]?.bind Value.text?).getD "r")
    | none => return .pointer (.null "file")
  | .close => closeFile (fileNumber? first)
  | .write => writeFile (fileNumber? first) arguments[1]?
  | .read => readFile (fileNumber? first)
  | .raise => fail (.onLine (.raised .runtime ((first.map Value.text).getD "Exception thrown")) 0)
  | .abs => return Value.absolute first
  | .pow => return Value.power arguments
  | .len => return Value.length first
  | .substr => return Value.subtext arguments
  | .append => return Value.appended arguments
  | .dictAppend => return Value.extended arguments
  | .del =>
    match first with
    | none => return .int (-1)
    | some value =>
      if let some pointer := value.pointer? then release pointer.target
      return .int 0
  | .list => return .list arguments
  | .deref =>
    match first.bind Value.pointer? with
    | some pointer =>
      if (← get).isLive pointer.target then
        return .str ("[ptr_data:" ++ pointer.tag ++ "]")
      return .str "null"
    | none => return .str "null"
  | .dict => return .dict (Entries.ofList (Value.pairs arguments))

end Builtin

end StackMachine
