import StackMachine.Debug.Condition

/-!
# Breakpoints and steps

The overlay decides before each instruction whether a run pauses. It knows the breakpoints, the
command that is pending and the calls in progress, and nothing else of the machine.
-/

namespace StackMachine

/-- A place where a run pauses. -/
structure Breakpoint where
  /-- Its source line. -/
  line : Nat
  /-- Its position in the program. -/
  pc : Nat
  /-- Whether it is heeded. -/
  enabled : Bool := true
  /-- What must hold for it to pause. -/
  condition : Option String := none
  /-- Whether it goes away once it has paused. -/
  temporary : Bool := false
  deriving DecidableEq, Repr, Inhabited

/-- Whether a breakpoint pauses at a position and line. -/
def Breakpoint.hits (breakpoint : Breakpoint) (pc line : Nat) (bindings : Variables) : Bool :=
  breakpoint.enabled && (breakpoint.pc = pc || breakpoint.line = line) &&
    match breakpoint.condition with
    | some condition => Condition.holds condition bindings
    | none => true

/-- The commands that can be pending. -/
inductive DebugCommand
  /-- No command. -/
  | none
  /-- Pause at the next instruction. -/
  | step
  /-- Pause once no more calls are in progress than now. -/
  | stepOver
  /-- Pause at the next instruction. -/
  | stepInto
  /-- Pause once fewer calls are in progress than now. -/
  | stepOut
  /-- Run on. -/
  | resume
  /-- Pause as soon as possible. -/
  | interrupt
  deriving DecidableEq, Repr, Inhabited

/-- The state of the overlay. -/
structure Overlay where
  /-- Whether a run under the overlay has begun. -/
  debugging : Bool := false
  /-- The pending command. -/
  pending : DebugCommand := .none
  /-- The breakpoints in the order in which they were added. -/
  breakpoints : List Breakpoint := []
  /-- The names of the functions being executed, innermost first. -/
  calls : List String := []
  /-- The number of calls in progress when stepping over or out was asked for. -/
  stepDepth : Nat := 0
  /-- Whether a step is under way. -/
  stepping : Bool := false
  /-- The number of calls in progress. -/
  callDepth : Nat := 0
  deriving DecidableEq, Repr, Inhabited

namespace Overlay

/-- Adds a breakpoint after the others. -/
def add (overlay : Overlay) (breakpoint : Breakpoint) : Overlay :=
  { overlay with breakpoints := overlay.breakpoints ++ [breakpoint] }

/-- Removes the lasting breakpoints on a line. -/
def removeLine (overlay : Overlay) (line : Nat) : Overlay :=
  { overlay with
    breakpoints := overlay.breakpoints.filter fun bp => bp.line ≠ line || bp.temporary }

/-- Removes the lasting breakpoints at a position. -/
def removePosition (overlay : Overlay) (pc : Nat) : Overlay :=
  { overlay with
    breakpoints := overlay.breakpoints.filter fun bp => bp.pc ≠ pc || bp.temporary }

/-- Enables or disables the breakpoints on a line. -/
def setEnabled (overlay : Overlay) (line : Nat) (enabled : Bool) : Overlay :=
  { overlay with
    breakpoints := overlay.breakpoints.map fun bp =>
      if bp.line = line then { bp with enabled } else bp }

/-- Pauses at the next instruction. -/
def step (overlay : Overlay) : Overlay := { overlay with pending := .step, stepping := true }

/-- Pauses at the next instruction outside further calls. -/
def stepOver (overlay : Overlay) : Overlay :=
  { overlay with pending := .stepOver, stepping := true, stepDepth := overlay.callDepth }

/-- Pauses at the next instruction. -/
def stepInto (overlay : Overlay) : Overlay :=
  { overlay with pending := .stepInto, stepping := true }

/-- Pauses after the current call. -/
def stepOut (overlay : Overlay) : Overlay :=
  { overlay with pending := .stepOut, stepping := true, stepDepth := overlay.callDepth }

/-- Runs on to the next breakpoint. -/
def resume (overlay : Overlay) : Overlay :=
  { overlay with pending := .resume, stepping := false }

/-- Asks for a pause as soon as possible. -/
def interrupt (overlay : Overlay) : Overlay := { overlay with pending := .interrupt }

/-- Whether a run has to check before every instruction. -/
def isActive (overlay : Overlay) : Bool :=
  !overlay.breakpoints.isEmpty || overlay.stepping || overlay.pending = .interrupt

/-- Notes a call. -/
def enterCall (overlay : Overlay) (name : String) : Overlay :=
  { overlay with calls := name :: overlay.calls, callDepth := overlay.callDepth + 1 }

/-- Notes a return. -/
def exitCall (overlay : Overlay) : Overlay :=
  { overlay with calls := overlay.calls.tail, callDepth := overlay.callDepth - 1 }

/-- Forgets the calls in progress. -/
def forgetCalls (overlay : Overlay) : Overlay := { overlay with calls := [], callDepth := 0 }

/-- Forgets the pending command once a pause has been reported. -/
def clearPending (overlay : Overlay) : Overlay :=
  { overlay with pending := .none, stepping := false }

/-- Whether the pending command asks for a pause. -/
def commandPauses (overlay : Overlay) : Bool :=
  match overlay.pending with
  | .step | .stepInto | .interrupt => true
  | .stepOver => overlay.callDepth ≤ overlay.stepDepth
  | .stepOut => overlay.callDepth < overlay.stepDepth
  | .none | .resume => false

/-- Decides whether to pause before the instruction at `pc`. The first breakpoint that hits
decides; if it is temporary it goes away. -/
def checkPause (overlay : Overlay) (pc line : Nat) (bindings : Variables) : Bool × Overlay :=
  match overlay.breakpoints.findIdx? fun bp => bp.hits pc line bindings with
  | some index =>
    let fired := overlay.breakpoints[index]?.any fun bp => bp.temporary
    (true,
      if fired then { overlay with breakpoints := overlay.breakpoints.eraseIdx index }
      else overlay)
  | none => (overlay.commandPauses, overlay)

end Overlay

end StackMachine
