import StackMachine.Native.Compiler
import StackMachine.Native.Processor
import StackMachine.Stream.Sink
import StackMachine.Value.Text

/-!
# Compiled programs

A compiled program is machine code in executable memory. Running it writes the printed values to
an output stream, and gives the value left on the stack, else the last value printed, else zero.
The first refused write is the outcome of the run, and nothing is written after it.
-/

namespace StackMachine.Native

/-- What native code finds when it is entered. -/
structure Platform where
  /-- The address of the function that prints. -/
  printAddress : Int64 := 0
  /-- The processor on entry, with the context pointer in `rdi`. -/
  entry : Processor :=
    { registers := fun r => if r = .rsp then 0x7FFFFFFFE008 else 0, memory := fun _ => 0 }
  /-- What each call leaves behind, by the number of calls before it. -/
  residues : Nat → Processor.Residue := fun _ => {}
  /-- How the host maps pages. -/
  paging : Paging := {}

instance : Inhabited Platform := ⟨{}⟩

/-- A program ready to run. -/
structure Compiled where
  /-- The executable memory. -/
  region : Region
  /-- The code in it. -/
  code : List UInt8
  /-- Whether the result is the value left on the stack. -/
  hasResult : Bool
  deriving Repr, Inhabited

/-- Compiles a program into executable memory. -/
def compile (platform : Platform) (program : Program) : Except CompileError Compiled := do
  let (operations, hasResult) ← assemble platform.printAddress program
  let code := Operation.encodeAll operations
  match (({} : CodeBuffer).emit code).finalize platform.paging with
  | .ok region => return { region, code, hasResult }
  | .error error => throw (.region error)

/-- What the function that prints works on. -/
structure PrintContext where
  /-- The output stream. -/
  sink : Sink
  /-- The last value that was accepted. -/
  lastPrinted : Option Int64 := none
  /-- The reason of the first refusal. -/
  refused : Option String := none
  /-- The number of calls so far. -/
  calls : Nat := 0
  deriving Inhabited

/-- The texts in which a value is printed, as a truth value if the kind is one. The sign of a
negative number is written by itself. -/
def printedTexts (value kind : Int64) : List String :=
  if kind = 1 then [truthText (value ≠ 0)]
  else if value < 0 then ["-", Text.writeInteger (-value.toInt)]
  else [Text.writeInteger value.toInt]

/-- Prints a value. Nothing is tried after a refusal. -/
def PrintContext.print (context : PrintContext) (value kind : Int64) : PrintContext :=
  if context.refused.isSome then context
  else
    match context.sink.putEach (printedTexts value kind ++ ["\n"]) with
    | (.ok (), sink) => { context with sink, lastPrinted := some value }
    | (.error reason, sink) => { context with sink, refused := some reason }

/-- Answers the calls of compiled code: they go to the function that prints, with the context
pointer, a value and its kind. -/
def Platform.handler (platform : Platform) : CallHandler PrintContext :=
  fun cpu target context =>
    if target = platform.printAddress.toUInt64 ∧
        cpu.registers .rdi = platform.entry.registers .rdi then
      let printed := context.print (cpu.registers .rsi).toInt64 (cpu.registers .rdx).toInt64
      some ({ printed with calls := context.calls + 1 }, platform.residues context.calls)
    else none

/-- Why a native run has no result. -/
inductive NativeError
  /-- The output stream refused a write. -/
  | output (reason : String)
  /-- The region is not executable. -/
  | notExecutable
  /-- The code went astray. -/
  | astray
  deriving DecidableEq, Repr

/-- The wording of a native error. -/
def NativeError.message : NativeError → String
  | output reason => "output error: " ++ reason
  | notExecutable => "memory is not executable on this platform"
  | astray => "unsafe to run natively: code went astray"

/-- Runs a compiled program on an output stream. Each operation takes at least one byte and none
jumps, so the number of bytes bounds the number of steps. -/
def Compiled.run (platform : Platform) (compiled : Compiled) (sink : Sink) :
    Except NativeError Int64 × Sink :=
  if !compiled.region.givesFunction 8 then (.error .notExecutable, sink)
  else
    match runCode compiled.region.bytes platform.handler compiled.code.length 0 platform.entry
        { sink } with
    | .stuck => (.error .astray, sink)
    | .returned cpu context =>
      match context.refused with
      | some reason => (.error (.output reason), context.sink)
      | none =>
        (.ok (if compiled.hasResult then (cpu.registers .rax).toInt64
          else context.lastPrinted.getD 0), context.sink)

end StackMachine.Native
