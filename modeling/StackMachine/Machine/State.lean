import StackMachine.Code.Block
import StackMachine.Code.Source
import StackMachine.Debug.Overlay
import StackMachine.Memory.Collector
import StackMachine.Native.Compiled
import StackMachine.Settings.Basic
import StackMachine.Storage.OpenFile
import StackMachine.Stream.Sink
import StackMachine.Stream.Source

/-!
# The machine

The state of one machine: a program with its position, an operand stack, variables, functions and
loops, the memory and files it holds, the debug overlay, and its side of the outside world. That
side is data: an output stream, an input, the files it can reach, and a log of diagnostics.
-/

namespace StackMachine

/-- Where a machine is in its life. -/
inductive Status
  /-- Ready to run. -/
  | idle
  /-- Running or paused. -/
  | running
  /-- Ended, normally or by a fault. -/
  | halted
  deriving DecidableEq, Repr, Inhabited

/-- Why a program is not loaded. -/
inductive LoadError
  /-- The text holds no instruction. -/
  | emptyProgram
  /-- The file cannot be read. -/
  | unreadable (path : String) (error : FileError)
  deriving DecidableEq, Repr

/-- The wording of a load error. -/
def LoadError.message : LoadError → String
  | emptyProgram => "program contains no instructions"
  | unreadable path error => "cannot read " ++ path ++ ": " ++ error.message

/-- The state of a machine. -/
structure Machine where
  /-- What was chosen about its runs. -/
  settings : Settings := {}
  /-- Whether the host grants memory. -/
  host : Host := Host.ample
  /-- What native code finds. -/
  platform : Native.Platform := {}
  /-- How many machines started each other above this one. -/
  depth : Nat := 0
  /-- The program. -/
  program : Program := []
  /-- The position of the next instruction. -/
  pc : Nat := 0
  /-- Where it is in its life. -/
  status : Status := .idle
  /-- Whether the next instruction is to be executed. -/
  running : Bool := false
  /-- The result of the last native run. -/
  lastResult : Int64 := 0
  /-- The operand stack, top first. -/
  stack : List Value := []
  /-- The variables, one name space for all calls. -/
  bindings : Variables := []
  /-- The number of open scopes. -/
  scopes : Nat := 1
  /-- The positions of the functions that were defined. -/
  functions : Entries String Nat := []
  /-- The positions of the loops being executed, innermost first. -/
  loops : List Nat := []
  /-- Where blocks come from. -/
  allocator : Allocator := .pooled (Pool.fresh Pool.defaultBlocks)
  /-- The objects of the collector. -/
  collector : Collector := {}
  /-- The managed objects. -/
  objects : ObjectTable := {}
  /-- The raw blocks. -/
  blocks : BlockTable := {}
  /-- The open files. -/
  files : FileTable := FileTable.empty
  /-- The debug overlay. -/
  overlay : Overlay := {}
  /-- The position of the last pause, where the next check is skipped once. -/
  resumePc : Option Nat := none
  /-- The output stream. -/
  output : Sink := { policy := SinkPolicy.accepting }
  /-- The input. -/
  input : Source := .standard []
  /-- The bytes of the standard input that no machine has taken. -/
  standardInput : List UInt8 := []
  /-- The files it can reach. -/
  folder : Folder := {}
  /-- The diagnostics so far. -/
  log : String := ""
  deriving Inhabited

namespace Machine

/-- A machine with a pool of its own, as large as the settings say. -/
def create (settings : Settings) : Machine :=
  { settings, allocator := .pooled (Pool.fresh settings.blocksPerClass) }

/-- Adds a line to the diagnostics. -/
def logLine (m : Machine) (text : String) : Machine := { m with log := m.log ++ text ++ "\n" }

/-- The bytes held by objects of the collector, raw blocks and managed objects. -/
def heapBytes (m : Machine) : Nat :=
  m.collector.heapBytes + m.blocks.bytesInUse + m.objects.bytesInUse

/-- Whether so many more bytes stay within the heap limit. -/
def fitsHeapLimit (m : Machine) (extra : Nat) : Bool :=
  match m.settings.heapLimit with
  | some limit => m.heapBytes + extra ≤ limit
  | none => true

/-- Whether a target still exists. -/
def isLive (m : Machine) : Target → Bool
  | .null => false
  | .object id => m.objects.has id
  | .collected handle => m.collector.contains handle
  | .file id => m.files.has id
  | .address location => m.blocks.has location

/-- Gives up everything a run has left behind and keeps the program. -/
def reset (m : Machine) : Machine :=
  let (objects, allocator) := m.objects.release m.allocator
  let (blocks, allocator) := m.blocks.release allocator
  let (collector, allocator) := m.collector.clear allocator
  { m with
    pc := 0
    status := .idle
    running := false
    lastResult := 0
    stack := []
    bindings := []
    scopes := 1
    functions := []
    loops := []
    allocator, collector, objects, blocks
    files := Numbered.clear m.files
    overlay := m.overlay.forgetCalls
    resumePc := none }

/-- Makes the program in a text the current one and returns the number of its instructions. -/
def load (m : Machine) (source : String) : Except LoadError Nat × Machine :=
  let program := Program.ofSource source
  if program.isEmpty then (.error .emptyProgram, m)
  else (.ok program.length, { m with program }.reset)

/-- Makes the program in a file the current one. -/
def loadFile (m : Machine) (path : String) : Except LoadError Nat × Machine :=
  match m.folder.readText path with
  | .ok source => m.load source
  | .error error => (.error (.unreadable path error), m)

/-- The position that stands for a line without instruction. -/
def nowhere : Nat := 0xFFFFFFFFFFFFFFFF

/-- Adds a breakpoint on a source line. -/
def addBreakpoint (m : Machine) (line : Nat) (condition : Option String) : Machine :=
  let pc := (Program.onLine? m.program line).getD nowhere
  { m with overlay := m.overlay.add { line, pc, condition } }

end Machine

end StackMachine
