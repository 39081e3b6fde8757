import StackMachine.Machine.State

/-!
# Effects

An effect changes a machine and may be interrupted by a fault. What it changed before the
interruption stays changed. An effect can also be left unfinished, when it started another
machine that did not end in the number of steps allowed.
-/

namespace StackMachine

/-- Why an effect does not give a result. -/
inductive Interruption
  /-- It failed. -/
  | fault (fault : Fault)
  /-- It did not end in time. -/
  | unfinished
  deriving DecidableEq, Repr

/-- Names the line of a fault that was raised without one. -/
def Interruption.withLine (line : Nat) : Interruption → Interruption
  | .fault raised => .fault (raised.withLine line)
  | .unfinished => .unfinished

/-- A change of a machine with a result. -/
abbrev Effect (α : Type) := ExceptT Interruption (StateM Machine) α

namespace Effect

/-- Fails. -/
def fail {α : Type} (fault : Fault) : Effect α := throw (.fault fault)

/-- Fails unless there is a value. -/
def orFail {α : Type} (value : Option α) (fault : Fault) : Effect α :=
  match value with
  | some a => pure a
  | none => fail fault

/-- Names the line of the fault that an effect raises without one. -/
def withLine {α : Type} (line : Nat) (x : Effect α) : Effect α := x.adapt (·.withLine line)

/-- Adds a line to the diagnostics. -/
def log (text : String) : Effect Unit := modify fun m => m.logLine text

/-- Pushes a value. -/
def push (value : Value) : Effect Unit := modify fun m => { m with stack := value :: m.stack }

/-- Pops a value, if there is one. -/
def pop? : Effect (Option Value) := do
  let m ← get
  match m.stack with
  | [] => return none
  | value :: stack =>
    set { m with stack }
    return some value

/-- Pops a value, or fails. -/
def popOr (fault : Fault) : Effect Value := do orFail (← pop?) fault

/-- Writes to the output stream. A refusal is a fault without a line. -/
def output (write : Sink → Except String Unit × Sink) : Effect Unit := do
  let m ← get
  let (result, sink) := write m.output
  set { m with output := sink }
  match result with
  | .ok () => return ()
  | .error reason => fail (.onLine (.outputRefused reason) 0)

/-- Writes a line to the output stream. -/
def writeLine (text : String) : Effect Unit := output fun sink => sink.putLine text

/-- Reads a line from the input. -/
def readLine : Effect String := do
  let m ← get
  let (line, input, standardInput) := m.input.readLine m.standardInput
  set { m with input, standardInput }
  return line

/-- Fails on a line if so many more bytes exceed the heap limit. -/
def checkHeapLimit (extra line : Nat) : Effect Unit := do
  let m ← get
  if !m.fitsHeapLimit extra then
    fail (.onLine (.heapLimit m.heapBytes extra (m.settings.heapLimit.getD 0)) line)

/-- Creates a managed object, if there is memory. -/
def createObject (tag : String) (size : Nat) : Effect (Option Int) := do
  let m ← get
  let (number, objects, allocator) := m.objects.create m.host m.allocator tag size
  set { m with objects, allocator }
  return number

/-- Creates an object of the collector, if there is memory. -/
def createCollected (size : Nat) : Effect (Option Nat) := do
  let m ← get
  let (handle, collector, allocator) := m.collector.allocate m.host m.allocator size
  set { m with collector, allocator }
  return handle

/-- Creates a raw block, if there is memory. -/
def createBlock (size : Nat) : Effect (Option Int) := do
  let m ← get
  let (address, blocks, allocator) := m.blocks.create m.host m.allocator size
  set { m with blocks, allocator }
  return address

/-- Frees what a target refers to. Files stay open. -/
def release (target : Target) : Effect Unit := modify fun m =>
  match target with
  | .object id =>
    let (_, objects, allocator) := m.objects.free m.allocator id
    { m with objects, allocator }
  | .collected handle =>
    let (collector, allocator) := m.collector.deallocate m.allocator handle
    { m with collector, allocator }
  | .address location =>
    let (_, blocks, allocator) := m.blocks.free m.allocator location
    { m with blocks, allocator }
  | .file _ | .null => m

end Effect

end StackMachine
