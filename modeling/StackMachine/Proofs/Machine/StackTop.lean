import Mathlib.Data.Nat.Basic
import StackMachine.Proofs.Machine.Step

/-!
# Instructions touch the top of the stack

An instruction takes at most two values from the operand stack and does not look at those below.
So it does the same whatever lies below the values that it takes, and leaves what lies there as it
is. Only a collection is different: it looks for pointers in the whole stack.

## Main definitions

* `Machine.over`: the machine with more values below its own.
* `Coupling.stacked`: the second machine is the first one with more values below its own.
* `Machine.HasOwn`: the next instruction takes no more values than the machine has.

## Main results

* `Coupling.suits_stacked`: an instruction does the same over more values than it takes.
* `Machine.Trace.over`: so does a run that never takes more values than it has of its own.
* `Machine.step_touches_top`: one step with two values of its own.
-/

namespace StackMachine

/-- The machine with more values below its own. -/
def Machine.over (m : Machine) (base : List Value) : Machine :=
  { m with stack := m.stack ++ base }

theorem Machine.stack_over_cons {m : Machine} {value : Value} {stack : List Value}
    (h : m.stack = value :: stack) (base : List Value) :
    (m.over base).stack = value :: (stack ++ base) := by
  rw [Machine.over, h]
  rfl

namespace Coupling

/-- The second machine is the first one with more values below its own, of which there are at least
as many as may be taken. -/
def stacked (base : List Value) : Coupling where
  rel own m n := n = m.over base ∧ own ≤ m.stack.length
  allowed _ := True
  pointer _ := True
  lax := False

/-- No basic change looks below the values that may be taken. A machine that is started has a stack
of its own. -/
theorem laws_stacked (base : List Value) (runner : Runner) (line : Nat) :
    (stacked base).Laws runner runner line where
  weaken hless h := ⟨h.1, hless.trans h.2⟩
  pointers := Pointer.closed_true
  fault _ := trivial
  unlocated _ := trivial
  push := by
    rintro _ m _ value ⟨rfl, hown⟩ _
    exact ⟨rfl, Nat.succ_le_succ hown⟩
  pop := by
    rintro own m _ ⟨rfl, hown⟩
    -- The value popped is one of the machine's own.
    obtain ⟨value, stack, hstack⟩ := List.exists_cons_of_length_pos (Nat.zero_lt_of_lt hown)
    refine .inr ⟨value, stack, stack ++ base, hstack, m.stack_over_cons hstack base,
      value.all_true, rfl, ?_⟩
    rw [hstack, List.length_cons] at hown
    exact Nat.le_of_succ_le_succ hown
  height := by
    rintro m _ ⟨rfl, hown⟩
    rw [Machine.over, List.length_append]
    omega
  bindings := by
    rintro _ m _ ⟨rfl, -⟩
    exact ⟨rfl, fun entry _ => entry.2.all_true⟩
  store := by rintro _ m _ name value ⟨rfl, hown⟩ _; exact ⟨rfl, hown⟩
  log := by rintro _ m _ text ⟨rfl, hown⟩; exact ⟨rfl, hown⟩
  write texts := by rintro ⟨rfl, hown⟩; exact ⟨rfl, rfl, hown⟩
  input := by rintro _ m _ ⟨rfl, hown⟩; exact ⟨rfl, rfl, fun _ _ => ⟨rfl, hown⟩⟩
  release := by rintro _ m _ target ⟨rfl, hown⟩; cases target <;> exact ⟨rfl, hown⟩
  isLive := by rintro _ m _ target ⟨rfl, -⟩; rfl
  dereference := by rintro _ m _ p ⟨rfl, -⟩; rfl
  close id := by rintro ⟨rfl, hown⟩; exact ⟨rfl, rfl, hown⟩
  read {_ m _} id := by
    rintro ⟨rfl, hown⟩
    rw [show (m.over base).files = m.files from rfl, show (m.over base).folder = m.folder from rfl]
    cases m.files.read m.folder id with
    | none => exact .none
    | some result => exact .some ⟨rfl, rfl, hown⟩
  depth := by rintro _ m _ ⟨rfl, -⟩; rfl
  nested path := by
    rintro ⟨rfl, hown⟩ -
    refine sameNested_of_child_eq ?_ (fun inner => ?_) trivial path
    · rfl
    · exact ⟨rfl, hown⟩

/-- Neither do requests. -/
theorem acquisitionLaws_stacked (base : List Value) : (stacked base).AcquisitionLaws where
  heap := by rintro _ m _ ⟨rfl, -⟩; exact ⟨rfl, rfl⟩
  object tag size := by rintro _ m _ ⟨rfl, hown⟩ _; exact .ok trivial ⟨rfl, hown⟩
  collected size := by rintro _ m _ ⟨rfl, hown⟩ _; exact .ok trivial ⟨rfl, hown⟩
  block size := by rintro _ m _ ⟨rfl, hown⟩ _; exact .ok trivial ⟨rfl, hown⟩
  file := by rintro _ m _ path ⟨rfl, hown⟩; exact ⟨rfl, rfl, fun _ _ _ _ => ⟨rfl, hown⟩⟩

/-- Neither do blocks, jumps and functions. -/
theorem positionLaws_stacked (base : List Value) : (stacked base).PositionLaws where
  program := by rintro _ m _ ⟨rfl, -⟩; rfl
  loops := by rintro _ m _ ⟨rfl, -⟩; rfl
  functions := by rintro _ m _ ⟨rfl, -⟩; rfl
  setLoops := by rintro _ m _ loops ⟨rfl, hown⟩; exact ⟨rfl, hown⟩
  define := by rintro _ m _ name pc ⟨rfl, hown⟩; exact ⟨rfl, hown⟩
  enter := by rintro _ m _ name ⟨rfl, hown⟩; exact ⟨rfl, hown⟩
  leave := by rintro _ m _ ⟨rfl, hown⟩; exact ⟨rfl, hown⟩
  position := by rintro m _ ⟨rfl, -⟩; rfl
  move := by rintro m _ pc ⟨rfl, hown⟩; exact ⟨rfl, hown⟩
  halt := by rintro m _ ⟨rfl, hown⟩; exact ⟨rfl, hown⟩
  line _ := trivial

/-- An instruction other than a collection does the same over more values than it takes. -/
theorem suits_stacked (base : List Value) (runner : Runner) {instruction : Instruction}
    (h : instruction.opcode ≠ .gcRun) : (stacked base).Suits runner runner instruction where
  laws := laws_stacked base runner _
  literal value _ := value.all_true
  control _ := (positionLaws_stacked base).toControlLaws
  acquisition _ := acquisitionLaws_stacked base
  collection hop := absurd hop h

end Coupling

namespace Machine

variable {runner : Runner} {m : Machine}

/-- The next instruction takes no more values than the machine has, and is no collection. -/
def HasOwn (m : Machine) : Prop :=
  ∀ instruction, m.program[m.pc]? = some instruction →
    instruction.opcode ≠ .gcRun ∧ instruction.reach ≤ m.stack.length

/-- A step does the same over more values. -/
theorem HasOwn.step_over (h : m.HasOwn) (runner : Runner) (base : List Value) :
    (step runner).run (m.over base) =
      (((step runner).run m).1, ((step runner).run m).2.over base) := by
  have hrel : (Coupling.stacked base).rel m.stack.length m (m.over base) := ⟨rfl, le_rfl⟩
  have hends := (Coupling.positionLaws_stacked base).ends_step hrel
    (fun hrel => ⟨hrel.1, Nat.zero_le _⟩) fun instruction hat =>
      ⟨Coupling.suits_stacked base runner (h instruction hat).1, (h instruction hat).2⟩
  exact Prod.ext (hends.result_eq id).symm (hends.rel id).1

/-- A run that never takes more values than it has of its own makes the same steps over more
values: what is computed by a part of a program does not depend on what was on the stack before. -/
theorem Trace.over {last : Machine} {states : List Machine} (h : Trace runner m states last)
    (hown : ∀ state ∈ states, state.HasOwn) (base : List Value) :
    Trace runner (m.over base) (states.map fun state => state.over base) (last.over base) := by
  induction h with
  | refl m => exact .refl _
  | @step m next last states hcan hstep _ ih =>
    rw [List.forall_mem_cons] at hown
    have hover : (Machine.step runner).run (m.over base) = (.ok (), next.over base) := by
      rw [hown.1.step_over, hstep]
    exact .step hcan hover (ih hown.2)

/-- One step of an instruction other than a collection, from a stack whose top has two values at
least. Over any values it has the same result, and the same machine comes out, with these values
below what the step leaves of the top. So the position, the output, the variables, the functions,
the scopes, the loops, the overlay and all that is held are the same, also if the step fails. -/
theorem step_touches_top (runner : Runner) {m : Machine} {instruction : Instruction}
    (hat : m.program[m.pc]? = some instruction) (hop : instruction.opcode ≠ .gcRun)
    {top : List Value} (htop : 2 ≤ top.length) (base : List Value) :
    let alone := (step runner).run { m with stack := top }
    (step runner).run { m with stack := top ++ base } =
      (alone.1, { alone.2 with stack := alone.2.stack ++ base }) := by
  intro alone
  have hown : ({ m with stack := top } : Machine).HasOwn := by
    intro other hother
    obtain rfl : instruction = other := Option.some.inj (hat.symm.trans hother)
    exact ⟨hop, instruction.reach_le_two.trans htop⟩
  exact hown.step_over runner base

/-- A machine that is about to divide. -/
def dividing : Machine :=
  { program := [{ opcode := .binaryOp, operands := ["/"], line := 1 }], running := true }

/-- A division by zero takes its operands and leaves what is below them. -/
theorem step_touches_top_dividing :
    dividing.program[dividing.pc]? =
        some { opcode := .binaryOp, operands := ["/"], line := 1 } ∧
      (step (dividing.innerRunner 1)).run
          { dividing with stack := [.int 0, .int 7] ++ [.str "kept"] } =
        (.error (.fault (.onLine .divisionByZero 1)),
          { dividing with stack := [.str "kept"] }) := by
  have hat : dividing.program[dividing.pc]? =
      some { opcode := .binaryOp, operands := ["/"], line := 1 } := rfl
  have halone : (step (dividing.innerRunner 1)).run
      { dividing with stack := [.int 0, .int 7] } =
      (.error (.fault (.onLine .divisionByZero 1)), { dividing with stack := [] }) := rfl
  refine ⟨hat, ?_⟩
  rw [step_touches_top (dividing.innerRunner 1) hat (by decide) (by decide) [.str "kept"], halone]
  rfl

end Machine

end StackMachine
