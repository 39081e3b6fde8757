import StackMachine.Machine.Step

/-!
# Runs

Running a program to its end, natively if that is asked for and possible, and running it under
the debug overlay from one pause to the next. A run is given a number of steps; running out of
them is an outcome of its own, so a larger number never changes a run that ended.
-/

namespace StackMachine

/-- What ends a run under the overlay. -/
inductive DebugEvent
  /-- It pauses before the instruction at a position and line. -/
  | paused (pc line : Nat)
  /-- The program has ended. -/
  | halted
  deriving DecidableEq, Repr

namespace Machine

/-- The source line of the next instruction; zero if there is none. -/
def currentLine (m : Machine) : Nat := ((m.program[m.pc]?).map (·.line)).getD 0

/-- Whether there is an instruction to execute. -/
def canStep (m : Machine) : Bool := m.running && m.pc < m.program.length

/-- Starts at the first instruction. The stack and the variables stay as they are. -/
def start (m : Machine) : Machine := { m with pc := 0, running := true, status := .running }

/-- Puts a fault into the diagnostics. -/
def report (m : Machine) (fault : Fault) : Machine :=
  let m := m.logLine ("VM Exception, PC " ++ toString m.pc ++ ": " ++ fault.text)
  match fault.line? with
  | some line => m.logLine ("  At line " ++ toString line)
  | none => m

/-- Ends a run and flushes the output; a refused flush is a fault. -/
def finish (m : Machine) : Option Fault × Machine :=
  let (result, output) := m.output.flush
  let m := { m with running := false, status := .halted, output }
  match result with
  | .ok () => (none, m)
  | .error reason => (some (.onLine (.outputRefused reason) 0), m)

/-- Ends a run that went well. -/
def complete (m : Machine) : Outcome Unit × Machine :=
  match m.finish with
  | (none, m) => (.done (), m)
  | (some fault, m) => (.failed fault, m.report fault)

/-- Ends a run that failed. A refused flush is only reported. -/
def fail (m : Machine) (fault : Fault) : Machine :=
  match (m.report fault).finish with
  | (none, m) => m
  | (some second, m) => m.report second

/-- Runs the program natively, if that is asked for and possible. -/
def runNative (m : Machine) : Option (Outcome Unit) × Machine :=
  let refuse (m : Machine) (reason : String) : Option (Outcome Unit) × Machine :=
    (none, m.logLine ("JIT compilation failed: " ++ reason ++ ", falling back to interpreter"))
  let trace (m : Machine) (text : String) : Machine :=
    if m.settings.traceNative then m.logLine ("[JIT] " ++ text) else m
  if !m.settings.nativeMode.attempts || !Native.isStraightLine m.program then (none, m)
  else
    match Native.compile m.platform m.program with
    | .error error => refuse m error.message
    | .ok compiled =>
      let m := trace m ("Compiled program (" ++ toString compiled.code.length ++ " bytes)")
      match compiled.run m.platform m.output with
      | (.ok result, output) =>
        let m := trace { m with output } ("Execution result: " ++ Text.writeInteger result.toInt)
        let (outcome, m) := { m with lastResult := result }.complete
        (some outcome, m)
      | (.error error, output) => refuse { m with output } error.message

/-- Executes instructions to the end of the program. -/
def runSteps (runner : Runner) (steps : Nat) (m : Machine) : Outcome Unit × Machine :=
  if m.canStep then
    match steps with
    | 0 => (.unfinished, m)
    | steps + 1 =>
      match (step runner).run m with
      | (.ok (), m) => runSteps runner steps m
      | (.error .unfinished, m) => (.unfinished, m)
      | (.error (.fault fault), m) => (.failed fault, m.fail fault)
  else m.complete

/-- Runs the loaded program to its end. -/
def executeWith (runner : Runner) (steps : Nat) : Runner := fun m =>
  if m.program.isEmpty then
    (.failed (.onLine .noProgram 0), m.logLine "Internal Error: No program loaded")
  else
    match m.runNative with
    | (some outcome, m) => (outcome, m)
    | (none, m) => runSteps runner steps m.start

/-- Runs machines below which `levels` more may be started. -/
def runnerFor (steps : Nat) : (levels : Nat) → Runner
  | 0 => executeWith (fun m => (.unfinished, m)) steps
  | levels + 1 => executeWith (runnerFor steps levels) steps

/-- Runs the machines that a machine starts. -/
def innerRunner (steps : Nat) (m : Machine) : Runner := runnerFor steps (maxDepth - (m.depth + 1))

/-- Runs the loaded program to its end. Faults are reported and returned. -/
def execute (steps : Nat) (m : Machine) : Outcome Unit × Machine :=
  executeWith (m.innerRunner steps) steps m

/-- Executes instructions to the next pause or the end of the program. The check is skipped once
where the last pause was. -/
def debugSteps (runner : Runner) (steps : Nat) (m : Machine) : Outcome DebugEvent × Machine :=
  if m.canStep then
    let line := m.currentLine
    let (pauses, overlay) :=
      if m.resumePc = some m.pc then (false, m.overlay)
      else m.overlay.checkPause m.pc line m.bindings
    let m := { m with overlay }
    if pauses then
      match (Effect.writeLine ("DEBUGGER PAUSED at PC: " ++ toString m.pc)).run m with
      | (.ok (), m) =>
        (.done (.paused m.pc line),
          { m with overlay := m.overlay.clearPending, resumePc := some m.pc })
      | (.error .unfinished, m) => (.unfinished, m)
      | (.error (.fault fault), m) => (.failed fault, m)
    else
      match steps with
      | 0 => (.unfinished, m)
      | steps + 1 =>
        match (step runner).run { m with resumePc := none } with
        | (.ok (), m) => debugSteps runner steps m
        | (.error .unfinished, m) => (.unfinished, m)
        | (.error (.fault fault), m) => (.failed fault, m.fail fault)
  else
    match m.complete with
    | (.done (), m) => (.done .halted, m)
    | (.failed fault, m) => (.failed fault, m)
    | (.unfinished, m) => (.unfinished, m)

/-- Runs to the next pause or the end of the program, from the last pause if there is one. A
machine that is not being debugged runs as usual. -/
def executeDebug (steps : Nat) (m : Machine) : Outcome DebugEvent × Machine :=
  let debug (m : Machine) : Outcome DebugEvent × Machine :=
    debugSteps (m.innerRunner steps) steps
      { m with overlay := { m.overlay with debugging := true } }
  match m.status with
  | .halted => (.done .halted, m)
  | .running => debug m
  | .idle =>
    if m.overlay.isActive then debug m.start
    else
      match m.execute steps with
      | (.done (), m) => (.done .halted, m)
      | (.failed fault, m) => (.failed fault, m)
      | (.unfinished, m) => (.unfinished, m)

/-- Calls a built-in function with any number of arguments. -/
def callBuiltin (steps : Nat) (m : Machine) (name : String) (arguments : List Value) :
    Outcome Value × Machine :=
  match Builtin.ofName? name with
  | none => (.failed (.onLine (.undefinedFunction name) 0), m)
  | some builtin =>
    match (builtin.call (m.innerRunner steps) arguments).run m with
    | (.ok value, m) => (.done value, m)
    | (.error .unfinished, m) => (.unfinished, m)
    | (.error (.fault fault), m) => (.failed fault, m)

end Machine

end StackMachine
