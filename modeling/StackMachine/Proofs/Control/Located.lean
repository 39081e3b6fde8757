import StackMachine.Proofs.Control.Structured

/-!
# Structured code in place

What the machine does at the beginning, the middle and the end of a block whose code lies somewhere
in its program. The data of the machine and its place in the program are kept apart: `Machine.moved`
puts a machine at a position with given loops, and a simple instruction does the same wherever the
machine was put.

## Main definitions

* `Machine.moved`: the machine at another position and with other loops.
* `Structured.At`: a machine is about to execute a structured program at a position, with the loops
  given around it.

## Main results

* `Machine.run_moved_of_local`: a local effect does not notice that the machine was moved.
* `Program.endAfter?_of_isPrefix`: a block in place ends behind its code.
-/

namespace StackMachine

/-- The machine at another position and with other loops. -/
def Machine.moved (m : Machine) (pc : Nat) (loops : List Nat) : Machine := { m with pc, loops }

namespace Machine

@[simp]
theorem moved_pc (m : Machine) (pc : Nat) (loops : List Nat) : (m.moved pc loops).pc = pc := rfl

@[simp]
theorem moved_loops (m : Machine) (pc : Nat) (loops : List Nat) :
    (m.moved pc loops).loops = loops := rfl

@[simp]
theorem moved_program (m : Machine) (pc : Nat) (loops : List Nat) :
    (m.moved pc loops).program = m.program := rfl

/-- A local effect does not notice that the machine was moved. -/
theorem run_moved_of_local {α : Type} {x : Effect α} {post : α → Prop} (h : x.Local post)
    (m : Machine) (pc : Nat) (loops : List Nat) :
    x.run (m.moved pc loops) = ((x.run m).1, (x.run m).2.moved pc loops) := by
  have hcontrol := h.control_eq m
  have hmoved : m.moved pc loops = m.withControl { m.control with pc, loops } := rfl
  rw [hmoved, (h m _).1, ← hcontrol]
  rfl

theorem program_of_control {m after : Machine} (h : after.control = m.control) :
    after.program = m.program := congrArg Control.program h

theorem running_of_control {m after : Machine} (h : after.control = m.control) :
    after.running = m.running := congrArg Control.running h

theorem condition?_control {m after : Machine} {holds : Bool}
    (h : m.condition? = some (holds, after)) : after.control = m.control := by
  unfold condition? at h
  split at h
  · cases h
  · cases h
    rfl

/-- There is no condition only if the stack is empty. -/
theorem condition?_eq_none {m : Machine} (h : m.condition? = none) : m.stack = [] := by
  unfold condition? at h
  split at h
  · assumption
  · cases h

/-- A condition is the top of the stack, which is taken. -/
theorem condition?_eq_some {m after : Machine} {holds : Bool}
    (h : m.condition? = some (holds, after)) :
    ∃ value stack, m.stack = value :: stack ∧ value.isTruthy = holds ∧
      after = { m with stack } := by
  unfold condition? at h
  split at h
  · cases h
  next value stack hstack =>
    cases h
    exact ⟨value, stack, hstack, rfl, rfl⟩

end Machine

/-! ### Code in place -/

namespace Program

/-- The first instruction of code in place is at its position. -/
theorem getElem?_of_isPrefix_drop {program code : Program} {instruction : Instruction} {pc : Nat}
    (h : (instruction :: code) <+: program.drop pc) : program[pc]? = some instruction := by
  obtain ⟨rest, hrest⟩ := h
  have hhead : (program.drop pc)[0]? = some instruction := by rw [← hrest]; rfl
  rwa [List.getElem?_drop, Nat.add_zero] at hhead

/-- The rest of it is in place behind that. -/
theorem isPrefix_drop_succ {program code : Program} {instruction : Instruction} {pc : Nat}
    (h : (instruction :: code) <+: program.drop pc) : code <+: program.drop (pc + 1) := by
  obtain ⟨rest, hrest⟩ := h
  refine ⟨rest, ?_⟩
  rw [← List.drop_drop, ← hrest]
  rfl

/-- Of two pieces of code in place, the second is behind the first. -/
theorem isPrefix_drop_add {program first second : Program} {pc : Nat}
    (h : (first ++ second) <+: program.drop pc) :
    second <+: program.drop (pc + first.length) := by
  obtain ⟨rest, hrest⟩ := h
  refine ⟨rest, ?_⟩
  rw [← List.drop_drop, ← hrest, List.append_assoc, List.drop_left]

/-- Behind the code of a block stands its end. -/
theorem getElem?_end_of_isPrefix {program : Program} {pc : Nat} {body : Structured}
    {closing : Mark}
    (h : (body.flatten ++ [closing.instruction .endBlock]) <+: program.drop pc) :
    program[pc + body.size]? = some (closing.instruction .endBlock) := by
  have hend := isPrefix_drop_add h
  rw [Structured.length_flatten] at hend
  exact getElem?_of_isPrefix_drop hend

/-- Behind the opening of a block or an `ELSE`, the end is found after the code of the block. -/
theorem endAfter?_of_isPrefix {program : Program} {pc : Nat} {body : Structured} {closing : Mark}
    (h : (body.flatten ++ [closing.instruction .endBlock]) <+: program.drop (pc + 1)) :
    endAfter? program pc = some (pc + 1 + body.size) := by
  obtain ⟨rest, hrest⟩ := h
  rw [endAfter?, ← hrest, List.append_assoc, Structured.scan_flatten]
  rfl

/-- Of an `IF` without `ELSE` the next mark is its `END`. -/
theorem elseOrEndAfter?_of_end {program : Program} {pc : Nat} {body : Structured} {closing : Mark}
    (h : (body.flatten ++ [closing.instruction .endBlock]) <+: program.drop (pc + 1)) :
    elseOrEndAfter? program pc = some (pc + 1 + body.size) := by
  obtain ⟨rest, hrest⟩ := h
  rw [elseOrEndAfter?, ← hrest, List.append_assoc, Structured.scan_flatten]
  rfl

/-- Of an `IF` with `ELSE` it is the `ELSE`. -/
theorem elseOrEndAfter?_of_else {program code : Program} {pc : Nat} {body : Structured}
    {middle : Mark}
    (h : (body.flatten ++ middle.instruction .elseBegin :: code) <+: program.drop (pc + 1)) :
    elseOrEndAfter? program pc = some (pc + 1 + body.size) := by
  obtain ⟨rest, hrest⟩ := h
  rw [elseOrEndAfter?, ← hrest, List.append_assoc, Structured.scan_flatten]
  rfl

end Program

/-! ### Single steps from a moved machine -/

namespace Machine

section Steps

variable {runner : Runner} {m after : Machine} {instruction : Instruction} {pc target : Nat}
  {loops : List Nat}

/-- A machine that is running can be moved to any instruction and go on. -/
theorem canStep_moved (hrunning : m.running = true) (hat : m.program[pc]? = some instruction) :
    (m.moved pc loops).canStep = true := by
  obtain ⟨hlt, -⟩ := List.getElem?_eq_some_iff.mp hat
  exact canStep_iff.mpr ⟨hrunning, hlt⟩

/-- A simple instruction does what it does elsewhere, and goes on to the next. -/
theorem step_moved_simple (hat : m.program[pc]? = some instruction)
    (hsimple : instruction.isSimple = true) {other : Nat}
    (hrun : (instruction.execute runner other).run m = (.ok .next, after)) :
    (step runner).run (m.moved pc loops) = (.ok (), after.moved (pc + 1) loops) := by
  rw [Instruction.execute_eq_of_simple runner other pc hsimple] at hrun
  have hmoved := run_moved_of_local (Instruction.local_execute runner pc hsimple) m pc loops
  rw [hrun] at hmoved
  exact step_next (m := m.moved pc loops) hat hmoved

/-- If it fails, it fails in the same way elsewhere. -/
theorem step_moved_simple_error (hat : m.program[pc]? = some instruction)
    (hsimple : instruction.isSimple = true) {other : Nat} {e : Interruption}
    (hrun : (instruction.execute runner other).run m = (.error e, after)) :
    (step runner).run (m.moved pc loops) =
      (.error (e.withLine instruction.line), after.moved pc loops) := by
  rw [Instruction.execute_eq_of_simple runner other pc hsimple] at hrun
  have hmoved := run_moved_of_local (Instruction.local_execute runner pc hsimple) m pc loops
  rw [hrun] at hmoved
  exact step_error (m := m.moved pc loops) hat hmoved

theorem step_moved_if_nil {mark : Mark} (hat : m.program[pc]? = some (mark.instruction .ifBegin))
    (hcondition : m.condition? = none) :
    (step runner).run (m.moved pc loops) =
      (.error (.fault (.onLine (.noCondition "IF") mark.line)), m.moved pc loops) := by
  have hstack := condition?_eq_none hcondition
  exact step_fault (m := m.moved pc loops) hat (Instruction.run_execute_if_nil rfl hstack)

/-- `IF` with a true condition goes into its first branch. -/
theorem step_moved_if_true {mark : Mark} (hat : m.program[pc]? = some (mark.instruction .ifBegin))
    (hcondition : m.condition? = some (true, after)) :
    (step runner).run (m.moved pc loops) = (.ok (), after.moved (pc + 1) loops) := by
  obtain ⟨value, stack, hstack, hvalue, rfl⟩ := condition?_eq_some hcondition
  exact step_next (m := m.moved pc loops) hat
    (Instruction.run_execute_if_true (m := m.moved pc loops) rfl hstack hvalue)

/-- `IF` with a false condition goes behind the mark that ends its first branch. -/
theorem step_moved_if_false {mark : Mark} (hat : m.program[pc]? = some (mark.instruction .ifBegin))
    (hcondition : m.condition? = some (false, after))
    (htarget : Program.elseOrEndAfter? m.program pc = some target) :
    (step runner).run (m.moved pc loops) = (.ok (), after.moved (target + 1) loops) := by
  obtain ⟨value, stack, hstack, hvalue, rfl⟩ := condition?_eq_some hcondition
  exact step_jump (m := m.moved pc loops) hat
    (Instruction.run_execute_if_false (m := m.moved pc loops) rfl hstack hvalue htarget)

theorem step_moved_else {mark : Mark} (hat : m.program[pc]? = some (mark.instruction .elseBegin))
    (htarget : Program.endAfter? m.program pc = some target) :
    (step runner).run (m.moved pc loops) = (.ok (), m.moved (target + 1) loops) :=
  step_jump (m := m.moved pc loops) hat (Instruction.run_execute_else rfl htarget)

theorem step_moved_while_nil {mark : Mark}
    (hat : m.program[pc]? = some (mark.instruction .whileBegin))
    (hcondition : m.condition? = none) :
    (step runner).run (m.moved pc loops) =
      (.error (.fault (.onLine (.noCondition "WHILE") mark.line)), m.moved pc loops) := by
  have hstack := condition?_eq_none hcondition
  exact step_fault (m := m.moved pc loops) hat (Instruction.run_execute_while_nil rfl hstack)

/-- The beginning of a loop is entered with the loops around it, or with itself on top of them. -/
theorem step_moved_while_true {mark : Mark} {entry : List Nat}
    (hat : m.program[pc]? = some (mark.instruction .whileBegin))
    (hcondition : m.condition? = some (true, after)) (hfresh : loops.head? ≠ some pc)
    (hentry : entry = loops ∨ entry = pc :: loops) :
    (step runner).run (m.moved pc entry) = (.ok (), after.moved (pc + 1) (pc :: loops)) := by
  obtain ⟨value, stack, hstack, hvalue, rfl⟩ := condition?_eq_some hcondition
  rw [step_next (m := m.moved pc entry) hat
    (Instruction.run_execute_while_true (m := m.moved pc entry) rfl hstack hvalue)]
  rcases hentry with rfl | rfl
  · rw [moved_loops, moved_pc, if_neg hfresh]
    rfl
  · rw [moved_loops, moved_pc, if_pos (List.head?_cons ..)]
    rfl

/-- A loop whose condition is false is left, and nothing of it stays on the loop stack, whether this
is its first round or a later one. -/
theorem step_moved_while_false {mark : Mark} {entry : List Nat}
    (hat : m.program[pc]? = some (mark.instruction .whileBegin))
    (hcondition : m.condition? = some (false, after)) (hfresh : loops.head? ≠ some pc)
    (hentry : entry = loops ∨ entry = pc :: loops)
    (htarget : Program.endAfter? m.program pc = some target) :
    (step runner).run (m.moved pc entry) = (.ok (), after.moved (target + 1) loops) := by
  obtain ⟨value, stack, hstack, hvalue, rfl⟩ := condition?_eq_some hcondition
  rw [step_jump (m := m.moved pc entry) hat
    (Instruction.run_execute_while_false (m := m.moved pc entry) rfl hstack hvalue htarget)]
  rcases hentry with rfl | rfl
  · rw [moved_loops, moved_pc, if_neg hfresh]
    rfl
  · rw [moved_loops, moved_pc, if_pos (List.head?_cons ..)]
    rfl

/-- The `END` of the innermost loop goes back to its `WHILE`. -/
theorem step_moved_end_loop {mark : Mark} {head : Nat}
    (hat : m.program[pc]? = some (mark.instruction .endBlock))
    (htarget : Program.endAfter? m.program head = some pc) :
    (step runner).run (m.moved pc (head :: loops)) = (.ok (), m.moved head (head :: loops)) := by
  have hrun : ((mark.instruction .endBlock).execute runner pc).run (m.moved pc (head :: loops)) =
      (.ok (.jump head), m.moved pc (head :: loops)) := by
    rw [Instruction.run_execute_end rfl]
    simp only [moved_loops, moved_program, htarget, if_true]
  exact step_jump (m := m.moved pc (head :: loops)) hat hrun

/-- An end that is not the one of the innermost loop goes on. -/
theorem step_moved_end_other {mark : Mark}
    (hat : m.program[pc]? = some (mark.instruction .endBlock))
    (hother : ∀ head ∈ loops.head?, Program.endAfter? m.program head ≠ some pc) :
    (step runner).run (m.moved pc loops) = (.ok (), m.moved (pc + 1) loops) := by
  have hrun : ((mark.instruction .endBlock).execute runner pc).run (m.moved pc loops) =
      (.ok .next, m.moved pc loops) := by
    rw [Instruction.run_execute_end rfl]
    cases loops with
    | nil => rfl
    | cons head rest => simp only [moved_loops, moved_program, hother head rfl, if_false]
  exact step_next (m := m.moved pc loops) hat hrun

/-- `BREAK` outside of loops goes on to the next instruction. -/
theorem step_moved_break_nil {mark : Mark}
    (hat : m.program[pc]? = some (mark.instruction .breakLoop)) :
    (step runner).run (m.moved pc []) = (.ok (), m.moved (pc + 1) []) :=
  step_next (m := m.moved pc []) hat (Instruction.run_execute_break_nil rfl rfl)

/-- `BREAK` leaves the innermost loop. -/
theorem step_moved_break_cons {mark : Mark} {head : Nat}
    (hat : m.program[pc]? = some (mark.instruction .breakLoop))
    (htarget : Program.endAfter? m.program head = some target) :
    (step runner).run (m.moved pc (head :: loops)) = (.ok (), m.moved (target + 1) loops) :=
  step_jump (m := m.moved pc (head :: loops)) hat
    (Instruction.run_execute_break_cons rfl rfl htarget)

end Steps

end Machine

/-! ### Being about to execute -/

namespace Structured

/-- The machine is about to execute a structured program at a position: the code is there, the
machine runs, and the innermost loop around it began before and ends behind it. -/
structure At (s : Structured) (start : Nat) (loops : List Nat) (m : Machine) : Prop where
  code : s.flatten <+: m.program.drop start
  running : m.running = true
  around : ∀ head ∈ loops.head?, head < start ∧
    ∃ target, start + s.size ≤ target ∧ Program.endAfter? m.program head = some target

namespace At

variable {s inner : Structured} {start : Nat} {loops : List Nat} {m after : Machine}

/-- What is executed changes neither the program nor that the machine runs. -/
theorem of_control (h : s.At start loops m) (hcontrol : after.control = m.control) :
    s.At start loops after := by
  have hprogram := Machine.program_of_control hcontrol
  have hrunning := Machine.running_of_control hcontrol
  refine ⟨?_, ?_, ?_⟩
  · rw [hprogram]
    exact h.code
  · rw [hrunning]
    exact h.running
  · rw [hprogram]
    exact h.around

/-- A part of a program is inside the same loop. -/
theorem part (h : s.At start loops m) {first : Nat} (hcode : inner.flatten <+: m.program.drop first)
    (hlow : start ≤ first) (hhigh : first + inner.size ≤ start + s.size) :
    inner.At first loops m := by
  refine ⟨hcode, h.running, fun head hhead => ?_⟩
  obtain ⟨hlt, target, hle, htarget⟩ := h.around head hhead
  exact ⟨Nat.lt_of_lt_of_le hlt hlow, target, Nat.le_trans hhigh hle, htarget⟩

/-- The innermost loop around a program does not begin where the program does. -/
theorem head?_ne (h : s.At start loops m) : loops.head? ≠ some start :=
  fun hhead => absurd (h.around start hhead).1 (Nat.lt_irrefl start)

/-- An `END` inside a program does not close the loop around it, so the machine goes on. -/
theorem step_end {runner : Runner} (h : s.At start loops m) {pc : Nat} {mark : Mark}
    (hat : m.program[pc]? = some (mark.instruction .endBlock)) (hpc : pc < start + s.size) :
    (Machine.step runner).run (m.moved pc loops) = (.ok (), m.moved (pc + 1) loops) := by
  refine Machine.step_moved_end_other hat fun head hhead => ?_
  obtain ⟨-, target, hle, htarget⟩ := h.around head hhead
  rw [htarget]
  intro heq
  cases heq
  exact absurd hpc (Nat.not_lt.mpr hle)

variable {first second yes no body : Structured} {opening middle closing : Mark}

/-- The first part of a sequence is where the sequence is. -/
theorem seq_first (h : (seq first second).At start loops m) : first.At start loops m :=
  h.part ((List.prefix_append ..).trans h.code) (Nat.le_refl _) (by simp only [size]; omega)

theorem seq_second (h : (seq first second).At start loops m) :
    second.At (start + first.size) loops m := by
  have hcode := Program.isPrefix_drop_add h.code
  rw [length_flatten] at hcode
  exact h.part hcode (Nat.le_add_right ..) (by simp only [size]; omega)

/-- The body of a conditional, and the place of its end. -/
theorem ifEnd_body (h : (ifEnd opening body closing).At start loops m) :
    body.At (start + 1) loops m := by
  have hcode := Program.isPrefix_drop_succ h.code
  exact h.part ((List.prefix_append ..).trans hcode) (Nat.le_succ _) (by simp only [size]; omega)

/-- The first branch is behind the `IF`. -/
theorem ifElse_yes (h : (ifElse opening yes middle no closing).At start loops m) :
    yes.At (start + 1) loops m := by
  have hcode := Program.isPrefix_drop_succ h.code
  exact h.part ((List.prefix_append ..).trans hcode) (Nat.le_succ _) (by simp only [size]; omega)

/-- The code of a conditional behind its first branch. -/
theorem ifElse_middle (h : (ifElse opening yes middle no closing).At start loops m) :
    (middle.instruction .elseBegin :: (no.flatten ++ [closing.instruction .endBlock])) <+:
      m.program.drop (start + 1 + yes.size) := by
  have hcode := Program.isPrefix_drop_add (Program.isPrefix_drop_succ h.code)
  rwa [length_flatten] at hcode

/-- The second branch is behind the `ELSE`. -/
theorem ifElse_no (h : (ifElse opening yes middle no closing).At start loops m) :
    no.At (start + 1 + yes.size + 1) loops m := by
  have hcode := Program.isPrefix_drop_succ h.ifElse_middle
  exact h.part ((List.prefix_append ..).trans hcode) (by omega) (by simp only [size]; omega)

/-- The body of a loop is inside that loop. -/
theorem loop_body (hcode : (loop opening body closing).flatten <+: m.program.drop start)
    (hrunning : m.running = true) : body.At (start + 1) (start :: loops) m := by
  have hbody := Program.isPrefix_drop_succ hcode
  refine ⟨(List.prefix_append ..).trans hbody, hrunning, fun head hhead => ?_⟩
  cases hhead
  exact ⟨Nat.lt_succ_self _, _, Nat.le_refl _, Program.endAfter?_of_isPrefix hbody⟩

end At

end Structured

end StackMachine
