import StackMachine.Proofs.Code.Positions
import StackMachine.Proofs.Machine.FaultLine

/-!
# Programs that only go forward

A program without loops, labels and functions of its own can skip parts of itself, but never comes
back: without a loop being executed, the end of a block and the instruction that leaves a loop go on
to the next instruction. Every step moves the position forward, so a run takes at most as many steps
as there are instructions.

## Main definitions

* `Instruction.isPlain`: the instruction is allowed in such programs.
* `Machine.GoesForward`: the program of the machine only goes forward.

## Main results

* `Machine.GoesForward.step`: a step moves the position forward, and only goes forward from there.
* `Machine.GoesForward.steps`: a run moves the position by at least one for each step.
-/

namespace StackMachine

namespace Instruction

open Effect

variable {runner : Runner} {instruction : Instruction} {pc : Nat} {m after : Machine} {flow : Flow}

/-- Whether the instruction neither begins a loop nor jumps to a label, and neither defines a
function nor returns from one. -/
def isPlain (instruction : Instruction) : Bool :=
  instruction.opcode ∉ [.whileBegin, .goto, .func, .ret]

/-- How the run goes on after an instruction at position `pc` of a program that goes forward. -/
def GoesOn (program : Program) (pc : Nat) (flow : Flow) : Prop :=
  flow = .next ∨ ∃ target, flow = .jump target ∧ pc < target ∧ target ≤ program.length

theorem of_run_jumpBehind {position : Option Nat} {fault : Fault}
    (h : (jumpBehind position fault).run m = (.ok flow, after)) :
    after = m ∧ ∃ target, position = some target ∧ flow = .jump (target + 1) := by
  cases position with
  | none => cases h
  | some target =>
    cases h
    exact ⟨rfl, target, rfl, rfl⟩

/-- A condition that does not hold skips to behind the branch. -/
theorem goesOn_if (hop : instruction.opcode = .ifBegin)
    (hrun : (instruction.execute runner pc).run m = (.ok flow, after)) :
    after.control = m.control ∧ GoesOn m.program pc flow := by
  cases hstack : m.stack with
  | nil =>
    rw [run_execute_if_nil hop hstack] at hrun
    cases hrun
  | cons value stack =>
    cases hvalue : value.isTruthy with
    | true =>
      rw [run_execute_if_true hop hstack hvalue] at hrun
      cases hrun
      exact ⟨rfl, .inl rfl⟩
    | false =>
      simp only [execute, hop] at hrun
      rw [run_bind_of_ok (run_popOr_cons _ hstack), if_neg (by simp [hvalue]), run_get_bind] at hrun
      obtain ⟨rfl, target, htarget, rfl⟩ := of_run_jumpBehind hrun
      have hbounds := Program.elseOrEndAfter?_bounds htarget
      exact ⟨rfl, .inr ⟨target + 1, rfl, by omega, hbounds.2⟩⟩

/-- The end of the first branch skips the second one. -/
theorem goesOn_else (hop : instruction.opcode = .elseBegin)
    (hrun : (instruction.execute runner pc).run m = (.ok flow, after)) :
    after.control = m.control ∧ GoesOn m.program pc flow := by
  simp only [execute, hop] at hrun
  rw [run_get_bind] at hrun
  obtain ⟨rfl, target, htarget, rfl⟩ := of_run_jumpBehind hrun
  have hbounds := Program.endAfter?_bounds htarget
  exact ⟨rfl, .inr ⟨target + 1, rfl, by omega, hbounds.2⟩⟩

/-- A function that was not defined cannot be called. -/
theorem not_ok_of_callsDefined (h : instruction.callsDefined = true)
    (hfunctions : m.functions = []) :
    (instruction.execute runner pc).run m ≠ (.ok flow, after) := by
  obtain ⟨hop, hname⟩ := Bool.and_eq_true_iff.mp h
  intro hrun
  simp only [execute, of_decide_eq_true hop, call] at hrun
  cases hoperand : instruction.operand? with
  | none =>
    rw [hoperand] at hrun
    cases hrun
  | some operand =>
    rw [hoperand] at hname hrun
    have hnone : Builtin.ofName? (Text.before (· == '(') operand) = none :=
      Option.isNone_iff_eq_none.mp hname
    rw [run_bind_of_ok (run_orFail_some ..)] at hrun
    simp only [hnone] at hrun
    rw [run_get_bind, hfunctions] at hrun
    cases hrun

/-- Without loops being executed and functions defined, a plain instruction leaves the control state
as it is, and the run goes on behind it. -/
theorem goesOn_execute (hplain : instruction.isPlain = true) (hloops : m.loops = [])
    (hfunctions : m.functions = [])
    (hrun : (instruction.execute runner pc).run m = (.ok flow, after)) :
    after.control = m.control ∧ GoesOn m.program pc flow := by
  by_cases hsimple : instruction.isSimple = true
  · have hlocal := local_execute runner pc hsimple
    have hcontrol := hlocal.control_eq m
    have hflow := (hlocal m m.control).2 flow
    rw [hrun] at hcontrol hflow
    exact ⟨hcontrol, .inl (hflow rfl)⟩
  · by_cases hcalls : instruction.callsDefined = true
    · exact absurd hrun (not_ok_of_callsDefined hcalls hfunctions)
    · -- What is left are the instructions that begin, divide, leave and end blocks.
      cases hop : instruction.opcode
      case ifBegin => exact goesOn_if hop hrun
      case elseBegin => exact goesOn_else hop hrun
      case endBlock =>
        rw [run_execute_end hop, hloops] at hrun
        cases hrun
        exact ⟨rfl, .inl rfl⟩
      case breakLoop =>
        rw [run_execute_break_nil hop hloops] at hrun
        cases hrun
        exact ⟨rfl, .inl rfl⟩
      case whileBegin | goto | func | ret => simp [isPlain, hop] at hplain
      all_goals exact absurd (by simp [isSimple, hop, hcalls]) hsimple

end Instruction

namespace Machine

variable {runner : Runner} {m next last : Machine}

/-- The program of the machine only goes forward from where it is. -/
structure GoesForward (m : Machine) : Prop where
  /-- Every instruction is plain. -/
  plain : ∀ instruction ∈ m.program, instruction.isPlain = true
  /-- No loop is being executed. -/
  loops : m.loops = []
  /-- No function is defined. -/
  functions : m.functions = []
  /-- The position is in the program or right behind it. -/
  pc_le : m.pc ≤ m.program.length

/-- A step moves the position forward. -/
theorem GoesForward.step (h : m.GoesForward) (hcan : m.canStep = true)
    (hstep : (Machine.step runner).run m = (.ok (), next)) :
    next.GoesForward ∧ next.program = m.program ∧ m.pc < next.pc := by
  obtain ⟨instruction, hat⟩ := exists_instruction_of_canStep hcan
  have hpc := (canStep_iff.mp hcan).2
  have hplain := h.plain instruction (List.mem_of_getElem? hat)
  rw [run_step hat] at hstep
  cases hrun : (instruction.execute runner m.pc).run m with
  | mk result after =>
    rw [hrun] at hstep
    cases result with
    | error e => cases hstep
    | ok flow =>
      obtain ⟨hcontrol, hflow⟩ := Instruction.goesOn_execute hplain h.loops h.functions hrun
      have hprogram : after.program = m.program := congrArg Control.program hcontrol
      have hloops : after.loops = [] := (congrArg Control.loops hcontrol).trans h.loops
      have hfunctions : after.functions = [] :=
        (congrArg Control.functions hcontrol).trans h.functions
      have hplain' : ∀ instruction ∈ after.program, instruction.isPlain = true :=
        hprogram ▸ h.plain
      obtain rfl | ⟨target, rfl, hlt, hle⟩ := hflow
      · cases hstep
        exact ⟨⟨hplain', hloops, hfunctions, hprogram ▸ hpc⟩, hprogram, Nat.lt_succ_self _⟩
      · cases hstep
        exact ⟨⟨hplain', hloops, hfunctions, hprogram ▸ hle⟩, hprogram, hlt⟩

/-- A run moves the position by at least one for each step. -/
theorem GoesForward.steps {positions : List Nat} (hsteps : Steps runner m positions last)
    (h : m.GoesForward) : last.GoesForward ∧ positions.length + m.pc ≤ last.pc := by
  induction hsteps with
  | refl m => exact ⟨h, by simp⟩
  | step hcan hstep _ ih =>
    obtain ⟨hnext, -, hlt⟩ := h.step hcan hstep
    obtain ⟨hlast, hle⟩ := ih hnext
    refine ⟨hlast, ?_⟩
    rw [List.length_cons]
    omega

/-- A run from the first instruction takes at most as many steps as there are instructions, with one
that may fail at its end. -/
theorem GoesForward.length_le {positions : List Nat} (hsteps : Steps runner m positions last)
    (h : m.GoesForward) :
    positions.length ≤ m.program.length ∧
      (last.canStep = true → positions.length < m.program.length) := by
  obtain ⟨hlast, hle⟩ := h.steps hsteps
  have hend := hlast.pc_le
  rw [hsteps.program_eq] at hend
  refine ⟨by omega, fun hcan => ?_⟩
  have hlt := (canStep_iff.mp hcan).2
  rw [hsteps.program_eq] at hlt
  omega

end Machine

end StackMachine
