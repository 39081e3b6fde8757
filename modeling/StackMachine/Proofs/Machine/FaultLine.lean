import StackMachine.Proofs.Machine.Invariant

/-!
# Faults name the instruction that failed

Instructions and operators raise faults on the line of the instruction. Built-in functions and the
output stream raise them without a line, and a step then names the line. An instruction that fails
does not move the position, so the line in the fault is that of the instruction at which the machine
stands when it has halted. The one fault without a line is that of the last flush.

## Main definitions

* `Fault.RaisedOn`: the fault was raised on a line, or without one.
* `Machine.FlushRefused`: the program has ended, and only the flush behind it was refused.
* `Machine.FailsIn`: the run comes to an instruction that fails.

## Main results

* `Instruction.raisedOn_of_execute`: an instruction raises no fault on the line of another one.
* `Machine.Steps.program_eq`: a run does not change its program.
* `Machine.fault_located`: a run that fails either failed in the last flush or names the line of the
  instruction at which it halted.
-/

namespace StackMachine

/-! ### Lines of faults -/

namespace Fault

variable {cause : Cause} {line : Nat}

theorem line?_onLine (h : 1 ≤ line) : (onLine cause line).line? = some line := by
  have hne : line ≠ 0 := by omega
  simp [line?, onLine, locate, hne]

/-- The fault was raised on the line, or without a line. -/
def RaisedOn (fault : Fault) (line : Nat) : Prop :=
  ∃ raised, (raised = 0 ∨ raised = line) ∧ fault = onLine fault.cause raised

/-- Once the line is named, the fault is on it. -/
theorem RaisedOn.withLine_eq {fault : Fault} (h : fault.RaisedOn line) :
    fault.withLine line = onLine fault.cause line := by
  obtain ⟨raised, hraised, heq⟩ := h
  rw [heq]
  exact withLine_onLine hraised

end Fault

/-- There is nothing to keep. -/
theorem Machine.invariant_true : Invariant (fun _ => True) fun _ => True where
  pointers := Pointer.closed_true
  frame _ _ _ _ _ _ _ := trivial
  change _ _ := trivial
  push _ _ := trivial
  pop _ _ := ⟨Value.all_true _, trivial⟩
  bindings _ _ _ := Value.all_true _
  store _ _ _ := trivial
  literals _ _ _ _ _ := Value.all_true _

/-- An instruction raises its faults on its line. Only built-in functions and the output stream
raise them without a line, and no fault of a machine that was started comes through. -/
theorem Instruction.raisedOn_of_execute {instruction : Instruction} {runner : Runner} {pc : Nat}
    {m after : Machine} {fault : Fault}
    (h : (instruction.execute runner pc).run m = (.error (.fault fault), after)) :
    fault.RaisedOn instruction.line := by
  have hsuits : (Coupling.keeping (fun _ => True) (fun _ => True) fun e =>
      ∀ fault, e = .fault fault → fault.RaisedOn instruction.line).Suits runner runner
        instruction := by
    refine Machine.invariant_true.suits ?_ ?_ ?_ (fun value _ => value.all_true) runner
    · rintro cause _ ⟨⟩
      exact ⟨_, .inr rfl, rfl⟩
    · rintro cause _ ⟨⟩
      exact ⟨_, .inl rfl, rfl⟩
    · rintro _ ⟨⟩
  have hends := hsuits.coupled_execute pc m m ⟨rfl, trivial⟩
  rw [h] at hends
  exact hends.allowed_of_error id rfl fault rfl

namespace Machine

variable {runner : Runner} {m last after : Machine} {steps : Nat} {fault : Fault}

/-! ### How a run fails -/

/-- The program ran to its end, natively or not, and only the flush behind it was refused. -/
def FlushRefused (steps : Nat) (m : Machine) (fault : Fault) (after : Machine) : Prop :=
  ∃ last : Machine, last.complete = (.failed fault, after) ∧
    (m.runNative = (some last.complete.1, last.complete.2) ∨
      last.canStep = false ∧
        ∃ positions, Steps (m.innerRunner steps) m.runNative.2.start positions last)

/-- The run comes to `last`, where the next instruction raises a fault. -/
structure FailsIn (runner : Runner) (first last : Machine) (instruction : Instruction)
    (raised : Fault) : Prop where
  /-- The instructions before it are executed. -/
  steps : ∃ positions, Steps runner first positions last
  /-- There is more to do. -/
  canStep : last.canStep = true
  /-- The next instruction is this one. -/
  next : last.program[last.pc]? = some instruction
  /-- It fails. -/
  fails : ∃ broken, (instruction.execute runner last.pc).run last = (.error (.fault raised), broken)

/-- A run does not change its program. -/
theorem Steps.program_eq {positions : List Nat} (h : Steps runner m positions last) :
    last.program = m.program := by
  induction h with
  | refl => rfl
  | @step m next last positions hcan hstep _ ih =>
    obtain ⟨hprogram, -⟩ := frame_step runner hcan
    rw [hstep] at hprogram
    exact ih.trans hprogram

/-- A step fails with what the instruction has raised, once its line is named. -/
theorem exists_raised_of_step {instruction : Instruction} {broken : Machine}
    (hat : m.program[m.pc]? = some instruction)
    (h : (step runner).run m = (.error (.fault fault), broken)) :
    ∃ raised, (instruction.execute runner m.pc).run m = (.error (.fault raised), broken) ∧
      fault = raised.withLine instruction.line := by
  rw [run_step hat] at h
  rcases hrun : (instruction.execute runner m.pc).run m with ⟨(raised | _) | flow, left⟩
  · rw [hrun] at h
    cases h
    exact ⟨raised, rfl, rfl⟩
  · rw [hrun] at h
    cases h
  · rw [hrun] at h
    cases flow <;> cases h

/-- Only a refused flush makes a run fail that came to its end, and then without a line. -/
theorem line?_of_complete (h : m.complete = (.failed fault, after)) : fault.line? = none := by
  rw [complete] at h
  rcases hended : m.finish with ⟨_ | refused, ended⟩
  · rw [hended] at h
    cases h
  · rw [hended] at h
    cases h
    -- The fault is the one that `finish` makes of the refusal.
    rw [finish] at hended
    rcases hflush : m.output.flush with ⟨reason | _, output⟩
    · simp only [hflush] at hended
      cases hended
      rfl
    · simp only [hflush] at hended
      cases hended

/-- A program that is executed and fails has come to its end and was refused the last flush, or it
has come to an instruction that failed, which fixes the fault and the machine. -/
theorem fails_cases (hloaded : m.program ≠ []) (hrun : m.execute steps = (.failed fault, after)) :
    FlushRefused steps m fault after ∨
      ∃ last broken, (∃ positions,
          Steps (m.innerRunner steps) m.runNative.2.start positions last) ∧
        last.canStep = true ∧ last.program = m.program ∧
        (step (m.innerRunner steps)).run last = (.error (.fault fault), broken) ∧
        after = broken.fail fault := by
  have hprogram : m.program.isEmpty = false := by simpa using hloaded
  rw [execute, executeWith, hprogram] at hrun
  simp only [Bool.false_eq_true, if_false] at hrun
  rcases m.runNative_cases with ⟨left, hnative, hsame⟩ | ⟨ran, result, -, hnative⟩
  · -- There was no native run, or it failed, and the program is interpreted.
    rw [hnative] at hrun ⊢
    dsimp only at hrun ⊢
    have hfinished : (runSteps (m.innerRunner steps) steps left.start).1 ≠ .unfinished := by
      simp [hrun]
    obtain ⟨positions, last, hsteps, hstops⟩ := exists_steps_of_runSteps hfinished
    have hleft : last.program = m.program :=
      hsteps.program_eq.trans (congrArg Control.program hsame)
    generalize runSteps (m.innerRunner steps) steps left.start = ended at hrun hstops
    cases hstops with
    | complete hcan =>
      refine .inl ⟨last, hrun, .inr ⟨hcan, positions, ?_⟩⟩
      rw [hnative]
      exact hsteps
    | @fault raised broken hcan hstep =>
      cases hrun
      exact .inr ⟨last, broken, ⟨positions, hsteps⟩, hcan, hleft, hstep, rfl⟩
  · -- A native run that went through can only fail in the flush.
    rw [hnative] at hrun
    exact .inl ⟨ran, hrun, .inl hnative⟩

/-- A run of a program from a source text that fails either failed in the last flush, without a
line, or in an instruction. In that case the machine has halted at this instruction, which has
raised the fault on its line, or without a line as built-in functions and the output do, and the
fault names the line. -/
theorem fault_located {source : String} (hprogram : m.program = Program.ofSource source)
    (hloaded : m.program ≠ []) (hrun : m.execute steps = (.failed fault, after)) :
    FlushRefused steps m fault after ∧ fault.line? = none ∨
    ∃ last instruction raised,
      FailsIn (m.innerRunner steps) m.runNative.2.start last instruction raised ∧
      (raised.line? = none ∨ raised.line? = some instruction.line) ∧
      fault = raised.withLine instruction.line ∧
      fault.cause = raised.cause ∧ fault.line? = some instruction.line ∧ 1 ≤ instruction.line ∧
      after.program = m.program ∧ after.pc = last.pc ∧
      m.program[after.pc]? = some instruction ∧
      after.status = .halted ∧ after.running = false := by
  rcases fails_cases hloaded hrun with hflush | ⟨last, broken, hsteps, hcan, hlast, hstep, rfl⟩
  · refine .inl ⟨hflush, ?_⟩
    obtain ⟨ended, hended, -⟩ := hflush
    exact line?_of_complete hended
  · obtain ⟨instruction, hat⟩ := exists_instruction_of_canStep hcan
    obtain ⟨raised, hraises, hfault⟩ := exists_raised_of_step hat hstep
    have hline := Instruction.raisedOn_of_execute hraises
    obtain ⟨hbroken, hpc, -⟩ := frame_step_error hcan hstep
    have hcontrol := control_fail broken fault
    have hafter : (broken.fail fault).pc = last.pc := (congrArg Control.pc hcontrol).trans hpc
    have hmem : instruction ∈ Program.ofSource source := by
      rw [← hprogram, ← hlast]
      exact List.mem_of_getElem? hat
    have hpositive := Program.one_le_line hmem
    refine .inr ⟨last, instruction, raised, ⟨hsteps, hcan, hat, broken, hraises⟩, ?_, hfault, ?_,
      ?_, hpositive, ?_, hafter, ?_, congrArg Control.status hcontrol,
      congrArg Control.running hcontrol⟩
    · obtain ⟨named, rfl | rfl, heq⟩ := hline
      · rw [heq]
        exact .inl rfl
      · rw [heq]
        exact .inr (Fault.line?_onLine hpositive)
    · rw [hfault]
      rfl
    · rw [hfault, hline.withLine_eq, Fault.line?_onLine hpositive]
    · exact (congrArg Control.program hcontrol).trans (hbroken.trans hlast)
    · rw [hafter, ← hlast, hat]

/-- The source text of a program that fails in a built-in function. -/
def throwingSource : String := "; raises a fault\nLABEL a\n\nCALL throw ; here"

/-- A machine with this program. -/
def throwing : Machine := { program := Program.ofSource throwingSource }

theorem fault_located_throwing :
    (throwing.execute 2).1 = .failed (.onLine (.raised .runtime "Exception thrown") 4) ∧
    ∃ instruction, throwing.program[(throwing.execute 2).2.pc]? = some instruction ∧
      instruction.line = 4 ∧ (throwing.execute 2).2.status = .halted := by
  have houtcome : (throwing.execute 2).1 =
      .failed (.onLine (.raised .runtime "Exception thrown") 4) := rfl
  have hloaded : throwing.program ≠ [] := List.ne_nil_of_length_pos (by decide +kernel)
  refine ⟨houtcome, ?_⟩
  rcases fault_located (m := throwing) rfl hloaded (Prod.ext houtcome rfl) with ⟨-, hline⟩ |
    ⟨_, instruction, _, -, -, -, -, hline, -, -, -, hat, hstatus, -⟩
  · cases hline
  · exact ⟨instruction, hat, (Option.some.inj hline).symm, hstatus⟩

end Machine

end StackMachine
