import StackMachine.Proofs.Code.Positions
import StackMachine.Proofs.Collection.Entries
import StackMachine.Proofs.Machine.Step

/-!
# Where instructions lead

What an instruction can do to the control state is listed once, for all instructions and all ways
in which they end. Whatever holds along every run follows from the list, without a further look at
the instructions.

## Main definitions

* `Control.Moves`: what an instruction can do to the control state, and how the run goes on.
* `Control.WellFormed`: the positions that the control state holds are positions of the program,
  and its counters agree.

## Main results

* `Instruction.moves_execute`: every instruction does one of the things listed.
* `Control.WellFormed.advance`: each of them keeps the control state well-formed.
* `Machine.wellFormed_trace`: so does a run, up to and including an instruction that fails.
-/

namespace StackMachine

/-! ### What an instruction does -/

/-- What the instruction at position `pc` can do to the control state, and how the run goes on. What
is not mentioned stays as it is. -/
inductive Control.Moves (instruction : Instruction) (pc : Nat) (k : Control) :
    Except Interruption Flow → Control → Prop
  /-- It goes on to the next instruction. -/
  | next : Moves instruction pc k (.ok .next) k
  /-- It is interrupted. -/
  | interrupted (e : Interruption) : Moves instruction pc k (.error e) k
  /-- It halts the machine. -/
  | halt : Moves instruction pc k (.ok .halt) k
  /-- It goes on behind a position of the program. -/
  | behind {target : Nat} (h : target < k.program.length) :
      Moves instruction pc k (.ok (.jump (target + 1))) k
  /-- It goes back to the beginning of a loop. -/
  | again {head : Nat} (h : head ∈ k.loops) : Moves instruction pc k (.ok (.jump head)) k
  /-- It enters the loop that it begins. -/
  | enter (hop : instruction.opcode = .whileBegin) :
      Moves instruction pc k (.ok .next) { k with loops := pc :: k.loops }
  /-- It leaves the innermost loop and goes on behind a position of the program. -/
  | leave {target : Nat} (h : target < k.program.length) :
      Moves instruction pc k (.ok (.jump (target + 1))) { k with loops := k.loops.tail }
  /-- It leaves the innermost loop and is interrupted, since the loop has no end. -/
  | leaveUnclosed (e : Interruption) :
      Moves instruction pc k (.error e) { k with loops := k.loops.tail }
  /-- It defines a function. -/
  | define {operand : String} (hop : instruction.opcode = .func)
      (hoperand : instruction.operand? = some operand) :
      Moves instruction pc k (.ok .next)
        { k with
          functions := Entries.insert (Text.before (· == '(') operand) pc k.functions
          scopes := k.scopes + 1 }
  /-- It calls a function that was defined. -/
  | call {name : String} {entry : Nat} (h : Entries.find? name k.functions = some entry) :
      Moves instruction pc k (.ok (.jump (entry + 1)))
        { k with scopes := k.scopes + 1, overlay := k.overlay.enterCall name }
  /-- It returns behind a position of the program. -/
  | ret {target : Nat} (h : target < k.program.length) :
      Moves instruction pc k (.ok (.jump (target + 1)))
        { k with
          scopes := if 1 < k.scopes then k.scopes - 1 else k.scopes
          overlay := k.overlay.exitCall }

/-- No instruction changes the program, the position or the state of the run by itself: moving the
position and halting are left to the step. -/
theorem Control.Moves.frame {instruction : Instruction} {pc : Nat} {k after : Control}
    {result : Except Interruption Flow} (h : Moves instruction pc k result after) :
    after.program = k.program ∧ after.pc = k.pc ∧ after.status = k.status ∧
      after.running = k.running := by
  cases h <;> exact ⟨rfl, rfl, rfl, rfl⟩

namespace Instruction

open Effect

variable {runner : Runner} {instruction : Instruction} {m : Machine} {pc : Nat}

/-- What `x` does to the control state of a machine is among what an instruction can do. -/
def MovesFrom (instruction : Instruction) (pc : Nat) (x : Effect Flow) (m : Machine) : Prop :=
  Control.Moves instruction pc m.control (x.run m).1 (x.run m).2.control

/-- An effect that neither reads nor changes the control state goes on to the next instruction,
unless it is interrupted. -/
theorem movesFrom_of_local {x : Effect Flow} (h : x.Local (· = .next)) :
    MovesFrom instruction pc x m := by
  rw [MovesFrom, h.control_eq m]
  cases hresult : (x.run m).1 with
  | error e => exact .interrupted e
  | ok flow =>
    obtain rfl := (h m m.control).2 flow hresult
    exact .next

theorem movesFrom_jumpBehind {position : Option Nat} {fault : Fault}
    (h : ∀ target, position = some target → target < m.program.length) :
    MovesFrom instruction pc (jumpBehind position fault) m := by
  cases position with
  | none => exact .interrupted _
  | some target => exact .behind (h target rfl)

/-- Leaving the innermost loop, with the end of the loop looked up. -/
theorem movesFrom_leave {loops : List Nat} {stack : List Value} {head : Nat} {fault : Fault}
    (hloops : m.loops.tail = loops) :
    MovesFrom instruction pc (do
      set { m with stack, loops }
      jumpBehind (Program.endAfter? m.program head) fault) m := by
  subst hloops
  cases hend : Program.endAfter? m.program head with
  | none => exact .leaveUnclosed _
  | some target => exact .leave (Program.endAfter?_bounds hend).2

/-- `IF` goes on, or behind a mark of the program. -/
theorem movesFrom_if (hop : instruction.opcode = .ifBegin) :
    MovesFrom instruction pc (instruction.execute runner pc) m := by
  rw [MovesFrom]
  cases hstack : m.stack with
  | nil =>
    rw [run_execute_if_nil hop hstack]
    exact .interrupted _
  | cons value stack =>
    simp only [execute, hop]
    rw [run_bind_of_ok (run_popOr_cons _ hstack)]
    split
    · exact .next
    · -- The condition does not hold, and the block is skipped.
      exact movesFrom_jumpBehind (m := { m with stack }) fun _ helse =>
        (Program.elseOrEndAfter?_bounds helse).2

/-- `WHILE` enters its loop, stays in it or leaves it. -/
theorem movesFrom_loop (hop : instruction.opcode = .whileBegin) :
    MovesFrom instruction pc (instruction.loop pc) m := by
  rw [MovesFrom]
  cases hstack : m.stack with
  | nil =>
    rw [loop, run_bind_of_error (run_popOr_nil _ hstack)]
    exact .interrupted _
  | cons value stack =>
    rw [loop, run_bind_of_ok (run_popOr_cons _ hstack), run_get_bind]
    dsimp only
    split
    · split
      · exact .enter hop
      · exact .next
    · split
      · exact movesFrom_leave (m := { m with stack }) rfl
      · exact movesFrom_jumpBehind (m := { m with stack }) fun _ hend =>
          (Program.endAfter?_bounds hend).2

theorem movesFrom_leaveLoop : MovesFrom instruction pc instruction.leaveLoop m := by
  rw [MovesFrom, leaveLoop, run_get_bind]
  cases hloops : m.loops with
  | nil => exact .next
  | cons head loops =>
    have hleave : MovesFrom instruction pc (do
        set { m with loops }
        jumpBehind (Program.endAfter? m.program head) (instruction.fault .unclosedWhile)) m :=
      movesFrom_leave (by rw [hloops, List.tail_cons])
    exact hleave

/-- `END` goes back to the `WHILE` of the innermost loop, if it is its `END`. -/
theorem movesFrom_end (hop : instruction.opcode = .endBlock) :
    MovesFrom instruction pc (instruction.execute runner pc) m := by
  rw [MovesFrom, run_execute_end hop]
  cases hloops : m.loops with
  | nil => exact .next
  | cons head loops =>
    dsimp only
    split
    · refine .again ?_
      change head ∈ m.loops
      simp [hloops]
    · exact .next

/-- A return goes to where the call came from. -/
theorem movesFrom_returnFrom : MovesFrom instruction pc returnFrom m := by
  rw [MovesFrom, returnFrom, run_get_bind]
  split
  · split
    next address _ _ h =>
      have hpositive : 0 ≤ address.toInt := Int32.le_iff_toInt_le.mp h.1
      refine .ret ?_
      change address.toInt.toNat < m.program.length
      omega
    next => exact .halt
  · exact .halt

/-- A call goes to the function and notes where it came from. -/
theorem movesFrom_call (h : instruction.callsDefined = true) :
    MovesFrom instruction pc (instruction.call runner pc) m := by
  obtain ⟨-, hname⟩ := Bool.and_eq_true_iff.mp h
  rw [MovesFrom, call]
  cases hoperand : instruction.operand? with
  | none => exact .interrupted _
  | some operand =>
    rw [hoperand] at hname
    have hnone : Builtin.ofName? (Text.before (· == '(') operand) = none :=
      Option.isNone_iff_eq_none.mp hname
    rw [run_bind_of_ok (run_orFail_some ..)]
    simp only [hnone]
    rw [run_get_bind]
    cases hentry : Entries.find? (Text.before (· == '(') operand) m.functions with
    | none => exact .interrupted _
    | some entry => exact .call hentry

/-- Every instruction does one of the things listed. -/
theorem moves_execute (runner : Runner) (instruction : Instruction) (pc : Nat) (m : Machine) :
    Control.Moves instruction pc m.control ((instruction.execute runner pc).run m).1
      ((instruction.execute runner pc).run m).2.control := by
  -- Simple instructions have nothing to do with the control state.
  by_cases hsimple : instruction.isSimple = true
  · exact movesFrom_of_local (local_execute runner pc hsimple)
  by_cases hcall : instruction.callsDefined = true
  · have hop : instruction.opcode = .call := by
      simpa using (Bool.and_eq_true_iff.mp hcall).1
    simp only [execute, hop]
    exact movesFrom_call hcall
  cases hop : instruction.opcode <;> simp [isSimple, hop, hcall] at hsimple
  case ifBegin => exact movesFrom_if hop
  case endBlock => exact movesFrom_end hop
  all_goals simp only [execute, hop]
  case elseBegin => exact movesFrom_jumpBehind fun _ hend => (Program.endAfter?_bounds hend).2
  case whileBegin => exact movesFrom_loop hop
  case breakLoop => exact movesFrom_leaveLoop
  case ret => exact movesFrom_returnFrom
  case goto =>
    cases instruction.operand? with
    | none => exact .interrupted _
    | some label => exact movesFrom_jumpBehind fun _ => Program.labelled?_lt
  case func =>
    cases hoperand : instruction.operand? with
    | none => exact .next
    | some operand => exact .define hop hoperand

end Instruction

/-! ### Well-formed control states -/

namespace Control

/-- The control state after an instruction that ended in a certain way. -/
def advance (k : Control) : Except Interruption Flow → Control
  | .ok .next => { k with pc := k.pc + 1 }
  | .ok (.jump target) => { k with pc := target }
  | .ok .halt => { k with running := false }
  | .error _ => k

/-- The positions that the control state holds are positions of the program, and its counters
agree. -/
structure WellFormed (k : Control) : Prop where
  /-- The next instruction is one of the program, unless the program has ended. -/
  pc_le : k.pc ≤ k.program.length
  /-- Every loop being executed begins with a `WHILE`. -/
  loops : ∀ pc ∈ k.loops, ∃ instruction,
    k.program[pc]? = some instruction ∧ instruction.opcode = .whileBegin
  /-- Every function that was defined begins with a `FUNC` of its name. -/
  functions : ∀ name pc, (name, pc) ∈ k.functions → ∃ instruction operand,
    k.program[pc]? = some instruction ∧ instruction.opcode = .func ∧
      instruction.operand? = some operand ∧ Text.before (· == '(') operand = name
  /-- There is always an open scope. -/
  scopes : 1 ≤ k.scopes
  /-- The calls in progress are counted. -/
  calls : k.overlay.callDepth = k.overlay.calls.length

variable {instruction : Instruction} {k after : Control} {result : Except Interruption Flow}

/-- Whatever the next instruction does, the control state stays well-formed. -/
theorem WellFormed.advance (h : k.WellFormed) (hat : k.program[k.pc]? = some instruction)
    (hmoves : Moves instruction k.pc k result after) : (after.advance result).WellFormed := by
  obtain ⟨hpc, -⟩ := List.getElem?_eq_some_iff.mp hat
  cases hmoves with
  | next => exact { h with pc_le := hpc }
  | interrupted | halt => exact { h with }
  | behind htarget => exact { h with pc_le := htarget }
  -- The position comes from the stack of loops, which holds positions of the program.
  | again hhead =>
    obtain ⟨_, hloop, -⟩ := h.loops _ hhead
    obtain ⟨hlt, -⟩ := List.getElem?_eq_some_iff.mp hloop
    exact { h with pc_le := Nat.le_of_lt hlt }
  | enter hop =>
    refine { h with pc_le := hpc, loops := ?_ }
    rintro pc (_ | ⟨_, hmem⟩)
    · exact ⟨instruction, hat, hop⟩
    · exact h.loops pc hmem
  | leave htarget =>
    refine { h with pc_le := htarget, loops := ?_ }
    exact fun pc hmem => h.loops pc (List.mem_of_mem_tail hmem)
  | leaveUnclosed =>
    exact { h with loops := fun pc hmem => h.loops pc (List.mem_of_mem_tail hmem) }
  | define hop hoperand =>
    refine { h with pc_le := hpc, functions := ?_, scopes := Nat.le_add_left .. }
    intro name pc hmem
    rcases Entries.mem_insert hmem with ⟨rfl, rfl⟩ | hmem
    · exact ⟨instruction, _, hat, hop, hoperand, rfl⟩
    · exact h.functions name pc hmem
  | call hentry =>
    obtain ⟨_, _, hfunc, -⟩ := h.functions _ _ (Entries.mem_of_find? hentry)
    obtain ⟨hlt, -⟩ := List.getElem?_eq_some_iff.mp hfunc
    refine { h with pc_le := hlt, scopes := Nat.le_add_left .., calls := ?_ }
    exact congrArg (· + 1) h.calls
  -- The outermost scope stays even where more is returned than was called.
  | ret htarget =>
    refine { h with pc_le := htarget, scopes := ?_, calls := ?_ }
    · have := h.scopes
      change 1 ≤ if 1 < k.scopes then k.scopes - 1 else k.scopes
      split <;> omega
    · change k.overlay.callDepth - 1 = k.overlay.calls.tail.length
      rw [h.calls, List.length_tail]

end Control

/-! ### Steps and runs -/

namespace Machine

variable {runner : Runner} {m last : Machine} {states : List Machine}

/-- A step does to the control state what its instruction does, and moves the position. -/
theorem exists_moves_step (runner : Runner) {instruction : Instruction}
    (hat : m.program[m.pc]? = some instruction) :
    ∃ result after, Control.Moves instruction m.pc m.control result after ∧
      ((step runner).run m).1 =
        (result.map fun _ => ()).mapError (·.withLine instruction.line) ∧
      ((step runner).run m).2.control = after.advance result := by
  have hmoves := Instruction.moves_execute runner instruction m.pc m
  obtain ⟨-, hpc, -⟩ := hmoves.frame
  refine ⟨_, _, hmoves, ?_⟩
  rw [run_step hat]
  generalize (instruction.execute runner m.pc).run m = executed at hpc ⊢
  obtain ⟨e | flow, after⟩ := executed
  · exact ⟨rfl, rfl⟩
  · cases flow with
    | next =>
      have hnext : after.pc = m.pc := hpc
      refine ⟨rfl, ?_⟩
      simp only [Control.advance, control, hnext]
    | jump target => exact ⟨rfl, rfl⟩
    | halt => exact ⟨rfl, rfl⟩

/-- There is an instruction as long as there is more to do. -/
theorem exists_instruction_of_canStep (hcan : m.canStep = true) :
    ∃ instruction, m.program[m.pc]? = some instruction :=
  ⟨_, List.getElem?_eq_getElem (canStep_iff.mp hcan).2⟩

/-- A step keeps the program and the state of the machine's life. -/
theorem frame_step (runner : Runner) (hcan : m.canStep = true) :
    ((step runner).run m).2.program = m.program ∧ ((step runner).run m).2.status = m.status := by
  obtain ⟨instruction, hat⟩ := exists_instruction_of_canStep hcan
  obtain ⟨result, after, hmoves, -, hcontrol⟩ := exists_moves_step runner hat
  obtain ⟨hprogram, -, hstatus, -⟩ := hmoves.frame
  -- Neither moving the position nor halting touches these two.
  have hadvance : (after.advance result).program = after.program ∧
      (after.advance result).status = after.status := by
    obtain e | (_ | _ | _) := result <;> exact ⟨rfl, rfl⟩
  rw [← hcontrol] at hadvance
  exact ⟨hadvance.1.trans hprogram, hadvance.2.trans hstatus⟩

/-- An instruction that fails does not move the position, and the machine has not halted yet. -/
theorem frame_step_error {e : Interruption} {after : Machine} (hcan : m.canStep = true)
    (hstep : (step runner).run m = (.error e, after)) :
    after.program = m.program ∧ after.pc = m.pc ∧ after.status = m.status ∧
      after.running = m.running := by
  obtain ⟨instruction, hat⟩ := exists_instruction_of_canStep hcan
  obtain ⟨result, k, hmoves, hresult, hcontrol⟩ := exists_moves_step runner hat
  rw [hstep] at hresult hcontrol
  obtain ⟨raised, rfl⟩ : ∃ raised, result = .error raised := by
    cases result with
    | ok flow => cases hresult
    | error raised => exact ⟨raised, rfl⟩
  have hafter : after.control = k := hcontrol
  obtain ⟨hprogram, hpc, hstatus, hrunning⟩ := hmoves.frame
  rw [← hafter] at hprogram hpc hstatus hrunning
  exact ⟨hprogram, hpc, hstatus, hrunning⟩

/-- A step keeps the control state well-formed, also if its instruction fails. -/
theorem wellFormed_step (runner : Runner) (hcan : m.canStep = true) (h : m.control.WellFormed) :
    ((step runner).run m).2.control.WellFormed := by
  obtain ⟨instruction, hat⟩ := exists_instruction_of_canStep hcan
  obtain ⟨result, after, hmoves, -, hcontrol⟩ := exists_moves_step runner hat
  rw [hcontrol]
  exact h.advance hat hmoves

/-- The machines that a run passes through all have an instruction to execute. -/
theorem Trace.canStep_of_mem (htrace : Trace runner m states last) {state : Machine}
    (hmem : state ∈ states) : state.canStep = true := by
  induction htrace with
  | refl => cases hmem
  | step hcan _ _ ih =>
    rcases List.mem_cons.mp hmem with rfl | hmem
    · exact hcan
    · exact ih hmem

/-- A run keeps the control state well-formed. -/
theorem wellFormed_trace (htrace : Trace runner m states last) (h : m.control.WellFormed) :
    (∀ state ∈ states, state.control.WellFormed) ∧ last.control.WellFormed := by
  induction htrace with
  | refl => exact ⟨by simp, h⟩
  | @step m next last states hcan hstep _ ih =>
    have hnext : next.control.WellFormed := by
      have := wellFormed_step runner hcan h
      rwa [hstep] at this
    obtain ⟨hstates, hlast⟩ := ih hnext
    exact ⟨List.forall_mem_cons.mpr ⟨h, hstates⟩, hlast⟩

/-! ### Ends of runs -/

/-- The last flush only ends the run and changes the output. -/
theorem finish_frame (m : Machine) :
    ∃ output, m.finish.2 = { m with running := false, status := .halted, output } := by
  rw [finish]
  rcases m.output.flush with ⟨reason | _, output⟩ <;> exact ⟨output, rfl⟩

/-- The end of a run that went well halts the machine, flushes the output and may add to the
diagnostics. -/
theorem complete_frame (m : Machine) :
    ∃ output log, m.complete.2 =
      { m with running := false, status := .halted, output, log } := by
  obtain ⟨output, hfinish⟩ := m.finish_frame
  rw [complete]
  generalize m.finish = finished at hfinish ⊢
  obtain ⟨_ | fault, ended⟩ := finished
  · exact ⟨output, m.log, hfinish⟩
  · obtain ⟨log, hreport⟩ := ended.report_frame fault
    refine ⟨output, log, hreport.trans ?_⟩
    rw [show ended = _ from hfinish]

/-- So does the end of a run that failed. -/
theorem fail_frame (m : Machine) (fault : Fault) :
    ∃ output log, m.fail fault = { m with running := false, status := .halted, output, log } := by
  obtain ⟨log, hreport⟩ := m.report_frame fault
  obtain ⟨output, hfinish⟩ := (m.report fault).finish_frame
  rw [fail]
  rw [hreport] at hfinish ⊢
  generalize ({ m with log } : Machine).finish = finished at hfinish ⊢
  obtain ⟨_ | second, ended⟩ := finished
  · exact ⟨output, log, hfinish⟩
  · obtain ⟨more, hagain⟩ := ended.report_frame second
    refine ⟨output, more, hagain.trans ?_⟩
    rw [show ended = _ from hfinish]

/-- A run that went well leaves the position where it is and halts the machine. -/
theorem control_complete (m : Machine) :
    m.complete.2.control = { m.control with running := false, status := .halted } := by
  obtain ⟨output, log, hcomplete⟩ := m.complete_frame
  rw [hcomplete]
  rfl

/-- So does a run that failed. -/
theorem control_fail (m : Machine) (fault : Fault) :
    (m.fail fault).control = { m.control with running := false, status := .halted } := by
  obtain ⟨output, log, hfail⟩ := m.fail_frame fault
  rw [hfail]
  rfl

/-- A native run that is not possible, or fails, changes nothing but the output and the
diagnostics. One that succeeds also sets its result, and completes. -/
theorem runNative_frame (m : Machine) :
    ∃ output log, m.runNative = (none, { m with output, log }) ∨
      ∃ result, m.runNative =
        (some { m with output, log, lastResult := result }.complete.1,
          { m with output, log, lastResult := result }.complete.2) := by
  unfold runNative
  dsimp only
  split
  · exact ⟨m.output, m.log, .inl rfl⟩
  · split
    · exact ⟨m.output, _, .inl rfl⟩
    next compiled _ =>
      -- Tracing only adds to the diagnostics.
      have htrace : ∀ (before : Machine) (text : String), ∃ log,
          (if before.settings.traceNative = true then before.logLine ("[JIT] " ++ text)
            else before) = { before with log } := by
        intro before text
        split
        · exact ⟨_, rfl⟩
        · exact ⟨before.log, rfl⟩
      obtain ⟨log, hcompiled⟩ := htrace m
        ("Compiled program (" ++ toString compiled.code.length ++ " bytes)")
      rw [hcompiled]
      split
      next result output _ =>
        obtain ⟨more, hran⟩ := htrace { m with log, output }
          ("Execution result: " ++ Text.writeInteger result.toInt)
        simp only at hran
        rw [hran]
        exact ⟨output, more, .inr ⟨result, rfl⟩⟩
      next output _ => exact ⟨output, _, .inl rfl⟩

/-- What a native run does to the control state. -/
theorem runNative_cases (m : Machine) :
    (∃ after, m.runNative = (none, after) ∧ after.control = m.control) ∨
      ∃ (ran : Machine) (result : Int64), ran.control = { m.control with lastResult := result } ∧
        m.runNative = (some ran.complete.1, ran.complete.2) := by
  obtain ⟨output, log, hrun | ⟨result, hrun⟩⟩ := m.runNative_frame
  · exact .inl ⟨_, hrun, rfl⟩
  · exact .inr ⟨_, result, rfl, hrun⟩

end Machine

end StackMachine
