import StackMachine.Proofs.Machine.Evolution

/-!
# Sessions

A session is any sequence of what the user of a machine can do to it: load programs, run them to
their end or under the overlay, reset, collect garbage, call built-in functions, and change what
surrounds the machine. A run may be cut off after any number of steps and resumed later, so the
machine between two instructions of a run is one that a session leads to.

## Main definitions

* `Operation`: one thing that the user of a machine can do.
* `Machine.after`: the machine after a sequence of operations.
* `Machine.IsNew`: the machine has not held anything yet.
* `Machine.Reachable`: the machines that sessions lead to from a new one.

## Main results

* `Machine.evolves_after`: a session changes memory and files only in the ways that
  `Resources.Change` lists.
* `Machine.Reachable.wellFormed`: the resources of a reachable machine are well-formed.
-/

namespace StackMachine

/-- What can be asked of the overlay. -/
inductive Overlay.Request
  /-- A breakpoint is added. -/
  | add (breakpoint : Breakpoint)
  /-- The lasting breakpoints on a line go away. -/
  | removeLine (line : Nat)
  /-- The lasting breakpoints at a position go away. -/
  | removePosition (pc : Nat)
  /-- The breakpoints on a line are heeded or not. -/
  | setEnabled (line : Nat) (enabled : Bool)
  /-- The next run pauses at the next instruction. -/
  | step
  /-- The next run pauses at the next instruction outside further calls. -/
  | stepOver
  /-- The next run pauses at the next instruction. -/
  | stepInto
  /-- The next run pauses after the current call. -/
  | stepOut
  /-- The next run goes on to the next breakpoint. -/
  | resume
  /-- The next run pauses as soon as possible. -/
  | interrupt

/-- Does what is asked of the overlay. -/
def Overlay.serve (overlay : Overlay) : Overlay.Request → Overlay
  | .add breakpoint => overlay.add breakpoint
  | .removeLine line => overlay.removeLine line
  | .removePosition pc => overlay.removePosition pc
  | .setEnabled line enabled => overlay.setEnabled line enabled
  | .step => overlay.step
  | .stepOver => overlay.stepOver
  | .stepInto => overlay.stepInto
  | .stepOut => overlay.stepOut
  | .resume => overlay.resume
  | .interrupt => overlay.interrupt

/-- What the user of a machine can do to it. -/
inductive Operation
  /-- Load a program from a text. -/
  | load (source : String)
  /-- Load a program from a file. -/
  | loadFile (path : String)
  /-- Run the program, for so many steps at most. -/
  | execute (steps : Nat)
  /-- Go on with a run that was cut off; the machines it starts may take `inner` steps. -/
  | resume (inner steps : Nat)
  /-- Run to the next pause, for so many steps at most. -/
  | executeDebug (steps : Nat)
  /-- Give up everything but the program. -/
  | reset
  /-- Collect garbage. -/
  | collectGarbage
  /-- Call a built-in function. -/
  | callBuiltin (steps : Nat) (name : String) (arguments : List Value)
  /-- Ask something of the overlay. -/
  | request (request : Overlay.Request)
  /-- Put the machine into other surroundings. -/
  | surround (host : Host) (output : Sink) (input : Source) (standardInput : List UInt8)
      (folder : Folder)

namespace Machine

/-- The machine after an operation. -/
def perform (m : Machine) : Operation → Machine
  | .load source => (m.load source).2
  | .loadFile path => (m.loadFile path).2
  | .execute steps => (m.execute steps).2
  | .resume inner steps =>
    if m.running then (runSteps (m.innerRunner inner) steps m).2 else m
  | .executeDebug steps => (m.executeDebug steps).2
  | .reset => m.reset
  | .collectGarbage => m.collectGarbage.2
  | .callBuiltin steps name arguments => (m.callBuiltin steps name arguments).2
  | .request request => { m with overlay := m.overlay.serve request }
  | .surround host output input standardInput folder =>
    { m with host, output, input, standardInput, folder }

/-- The machine after a sequence of operations. -/
def after (m : Machine) (operations : List Operation) : Machine := operations.foldl perform m

/-- Operations are performed one after the other. -/
theorem after_append (m : Machine) (operations more : List Operation) :
    m.after (operations ++ more) = (m.after operations).after more := List.foldl_append

/-- What one operation does to memory and files. -/
theorem evolves_perform (m : Machine) (operation : Operation) :
    m.Evolves (m.perform operation) := by
  cases operation with
  | load source => exact m.evolves_load source
  | loadFile path => exact m.evolves_loadFile path
  | execute steps => exact m.evolves_execute steps
  | resume inner steps =>
    simp only [perform]
    split
    · exact m.evolves_runSteps _ steps
    · exact .refl m
  | executeDebug steps => exact m.evolves_executeDebug steps
  | reset => exact m.evolves_reset
  | collectGarbage => exact m.evolves_collectGarbage
  | callBuiltin steps name arguments => exact m.evolves_callBuiltin steps name arguments
  | request request => exact .of_same rfl rfl
  | surround host output input standardInput folder => exact .of_same rfl rfl

/-- A session changes memory and files only in the ways listed. -/
theorem evolves_after (m : Machine) (operations : List Operation) :
    m.Evolves (m.after operations) := by
  induction operations generalizing m with
  | nil => exact .refl m
  | cons operation operations ih => exact (m.evolves_perform operation).trans (ih _)

/-- The machine has not held any memory or file yet. -/
def IsNew (m : Machine) : Prop := m.resources = Resources.unused m.allocator

/-- The machines that sessions lead to from a new one. -/
def Reachable (m : Machine) : Prop :=
  ∃ (start : Machine) (operations : List Operation), start.IsNew ∧ m = start.after operations

/-- The resources of a machine in a session are well-formed. -/
theorem IsNew.wellFormed_after {start : Machine} (h : start.IsNew)
    (operations : List Operation) : (start.after operations).resources.WellFormed := by
  -- Well-formedness holds of what was never used and is kept by every change.
  refine (start.evolves_after operations).changes.wellFormed ?_
  rw [h]
  exact Resources.wellFormed_unused _

/-- Whatever a session does, the resources stay well-formed. -/
theorem Reachable.wellFormed {m : Machine} (h : m.Reachable) : m.resources.WellFormed := by
  obtain ⟨start, operations, hnew, rfl⟩ := h
  exact hnew.wellFormed_after operations

end Machine

end StackMachine
