import StackMachine.Proofs.Machine.Execution

/-!
# Steps and runs

Where a machine is in its program, what one instruction does to that, and runs as sequences of
steps. Most of what a machine does has nothing to do with where it is in its program. Such effects
are called local: they commute with replacing the control state of the machine, so they neither
read it nor change it.

## Main definitions

* `Control`: the program, the position in it, the loops and calls in progress, and the rest of
  what decides which instruction comes next.
* `Effect.Local`: an effect that neither reads nor changes the control state, with a condition on
  its results.
* `Machine.Steps`: a run from one machine to another, with the positions it executed.
* `Machine.Trace`: a run with the machines it passes through.

## Main results

* `Builtin.local_call`: every built-in function is local.
* `Instruction.local_execute`: a simple instruction goes on to the next one and leaves the rest of
  the control state as it is.
* `Machine.runSteps_of_steps`: a run made of steps is a part of every longer run.
-/

namespace StackMachine

/-- Where a machine is in its program. -/
structure Control where
  /-- The program. -/
  program : Program
  /-- The position of the next instruction. -/
  pc : Nat
  /-- Where the machine is in its life. -/
  status : Status
  /-- Whether the next instruction is to be executed. -/
  running : Bool
  /-- The result of the last native run. -/
  lastResult : Int64
  /-- The number of open scopes. -/
  scopes : Nat
  /-- The positions of the functions that were defined. -/
  functions : Entries String Nat
  /-- The positions of the loops being executed, innermost first. -/
  loops : List Nat
  /-- The debug overlay. -/
  overlay : Overlay
  /-- The position of the last pause. -/
  resumePc : Option Nat

namespace Machine

/-- The control state of a machine. -/
def control (m : Machine) : Control where
  program := m.program
  pc := m.pc
  status := m.status
  running := m.running
  lastResult := m.lastResult
  scopes := m.scopes
  functions := m.functions
  loops := m.loops
  overlay := m.overlay
  resumePc := m.resumePc

/-- The machine with another control state. -/
def withControl (m : Machine) (k : Control) : Machine :=
  { m with
    program := k.program
    pc := k.pc
    status := k.status
    running := k.running
    lastResult := k.lastResult
    scopes := k.scopes
    functions := k.functions
    loops := k.loops
    overlay := k.overlay
    resumePc := k.resumePc }

/-- The control that a machine was given is the one that it has. -/
@[simp]
theorem control_withControl (m : Machine) (k : Control) : (m.withControl k).control = k := rfl

/-- A machine that is given its own control stays as it is. -/
@[simp]
theorem withControl_control (m : Machine) : m.withControl m.control = m := rfl

/-- A collection has nothing to do with the control state. -/
theorem collectGarbage_withControl (m : Machine) (k : Control) :
    (m.withControl k).collectGarbage =
      (m.collectGarbage.1, m.collectGarbage.2.withControl k) := by
  simp only [collectGarbage]
  rw [show (m.withControl k).settings = m.settings from rfl]
  split
  · rfl
  · dsimp only
    split <;> rfl

end Machine

/-! ### Local effects -/

namespace Coupling

/-- The second machine is the first one with another control state. -/
def relocated (k : Control) : Coupling where
  rel _ m n := n = m.withControl k
  allowed _ := True
  pointer _ := True
  lax := False

variable {k : Control}

/-- No basic change has to do with the control state. -/
theorem laws_relocated (k : Control) (runner : Runner) (line : Nat) :
    (relocated k).Laws runner runner line where
  weaken _ h := h
  pointers := Pointer.closed_true
  fault _ := trivial
  unlocated _ := trivial
  push := by rintro _ m _ value rfl _; rfl
  pop := by
    rintro _ m _ rfl
    cases hstack : m.stack with
    | nil => exact .inl ⟨rfl, hstack⟩
    | cons value stack => exact .inr ⟨value, stack, stack, rfl, hstack, value.all_true, rfl⟩
  height := by rintro m _ rfl; rfl
  bindings := by
    rintro _ m _ rfl
    exact ⟨rfl, fun entry _ => entry.2.all_true⟩
  store := by rintro _ m _ name value rfl _; rfl
  log := by rintro _ m _ text rfl; rfl
  write texts := by rintro rfl; exact ⟨rfl, rfl⟩
  input := by rintro _ m _ rfl; exact ⟨rfl, rfl, fun _ _ => rfl⟩
  release := by rintro _ m _ target rfl; cases target <;> rfl
  isLive := by rintro _ m _ target rfl; rfl
  dereference := by rintro _ m _ p rfl; rfl
  close id := by rintro rfl; exact ⟨rfl, rfl⟩
  read {_ m _} id := by
    rintro rfl
    rw [show (m.withControl k).files = m.files from rfl,
      show (m.withControl k).folder = m.folder from rfl]
    cases m.files.read m.folder id with
    | none => exact .none
    | some result => exact .some ⟨rfl, rfl⟩
  depth := by rintro _ m _ rfl; rfl
  nested path := by
    rintro rfl -
    refine sameNested_of_child_eq ?_ (fun inner => ?_) trivial path <;> rfl

/-- Nor has a request. -/
theorem acquisitionLaws_relocated (k : Control) : (relocated k).AcquisitionLaws where
  heap := by rintro _ m _ rfl; exact ⟨rfl, rfl⟩
  object tag size := by rintro _ m _ rfl _; exact .ok trivial rfl
  collected size := by rintro _ m _ rfl _; exact .ok trivial rfl
  block size := by rintro _ m _ rfl _; exact .ok trivial rfl
  file := by rintro _ m _ path rfl; exact ⟨rfl, rfl, fun _ _ _ _ => rfl⟩

/-- A simple instruction asks for nothing else. -/
theorem suits_relocated (k : Control) (runner : Runner) {instruction : Instruction}
    (h : instruction.isSimple = true) : (relocated k).Suits runner runner instruction where
  laws := laws_relocated k runner _
  literal value _ := value.all_true
  control hother := by simp [h] at hother
  acquisition _ := acquisitionLaws_relocated k
  collection _ := by
    rintro _ m _ rfl
    rw [m.collectGarbage_withControl k]
    exact ⟨rfl, rfl⟩

end Coupling

namespace Effect

variable {α : Type}

/-- The effect neither reads nor changes the control state, and its results satisfy `post`. -/
def Local (x : Effect α) (post : α → Prop) : Prop :=
  ∀ (m : Machine) (k : Control),
    x.run (m.withControl k) = ((x.run m).1, (x.run m).2.withControl k) ∧
      ∀ a, (x.run m).1 = .ok a → post a

/-- A local effect leaves the control state as it is. -/
theorem Local.control_eq {x : Effect α} {post : α → Prop} (h : x.Local post) (m : Machine) :
    (x.run m).2.control = m.control := by
  have hrun := (h m m.control).1
  rw [Machine.withControl_control] at hrun
  have hmachine : (x.run m).2 = (x.run m).2.withControl m.control := congrArg Prod.snd hrun
  rw [hmachine, Machine.control_withControl]

/-- An effect is local if it keeps machines together that differ in their control states. -/
theorem local_of_coupled {x : Effect α} {post : α → Prop} (before : Nat)
    (h : ∀ k, (Coupling.relocated k).Coupled before x x 0 post) : x.Local post := by
  intro m k
  have hends := h k m (m.withControl k) rfl
  refine ⟨Prod.ext (hends.result_eq id).symm (hends.rel id), fun a ha => ?_⟩
  exact hends.post_of_ok id ha

theorem local_writeLine (text : String) : (writeLine text).Local fun _ => True :=
  local_of_coupled 0 fun k =>
    (Coupling.laws_relocated k (fun m => (.unfinished, m)) 0).coupled_writeLine text

end Effect

/-- No built-in function reads or changes where the machine is in its program. -/
theorem Builtin.local_call (runner : Runner) (builtin : Builtin) (arguments : List Value) :
    (builtin.call runner arguments).Local fun _ => True := by
  refine Effect.local_of_coupled 0 fun k m n hrel => ?_
  have hadmits : (Coupling.relocated k).Admits builtin arguments := by
    refine ⟨fun _ => Coupling.acquisitionLaws_relocated k, fun _ => ?_, fun _ _ => ?_⟩
    · rintro _ m _ path rfl
      exact ⟨rfl, rfl, fun _ _ _ _ => rfl⟩
    · rintro _ m _ id text rfl
      exact ⟨rfl, rfl, fun _ _ _ _ => rfl⟩
  exact ((Coupling.laws_relocated k runner 0).coupled_call hadmits
    (fun argument _ => argument.all_true) m n hrel).imp fun _ _ => trivial

/-! ### Lines of faults -/

/-- A fault that is raised without a line, or on a line, is on the line once it was named. -/
theorem Fault.withLine_onLine {cause : Cause} {line raised : Nat} (h : raised = 0 ∨ raised = line) :
    (onLine cause raised).withLine line = onLine cause line := by
  rcases h with rfl | rfl
  · simp [withLine, onLine, locate]
  · by_cases hzero : raised = 0 <;> simp [withLine, onLine, locate, hzero]

namespace Instruction

open Effect

/-- The faults of an instruction are on its line already. -/
theorem withLine_fault (instruction : Instruction) (cause : Cause) :
    (Interruption.fault (instruction.fault cause)).withLine instruction.line =
      .fault (instruction.fault cause) :=
  congrArg Interruption.fault (Fault.withLine_onLine (.inr rfl))

/-! ### Simple instructions -/

/-- A simple instruction goes on to the next one. Nothing else of the control state matters to it
or is changed by it. -/
theorem local_execute (runner : Runner) {instruction : Instruction} (pc : Nat)
    (h : instruction.isSimple = true) : (instruction.execute runner pc).Local (· = .next) := by
  refine local_of_coupled instruction.reach fun k m n hrel => ?_
  exact ((Coupling.suits_relocated k runner h).coupled_execute pc m n hrel).imp
    fun _ hflow => hflow h

/-- The position of a simple instruction does not matter to it. -/
theorem execute_eq_of_simple (runner : Runner) {instruction : Instruction} (pc other : Nat)
    (h : instruction.isSimple = true) :
    instruction.execute runner pc = instruction.execute runner other := by
  obtain ⟨hop, hcall⟩ := Bool.and_eq_true_iff.mp h
  cases hopcode : instruction.opcode <;> simp only [execute, hopcode]
  case whileBegin | endBlock | func | ifBegin | elseBegin => simp [hopcode] at hop
  case call =>
    rw [Bool.not_eq_true', callsDefined, hopcode] at hcall
    cases hoperand : instruction.operand? with
    | none => simp only [call, hoperand, orFail, fail_bind]
    | some operand =>
      simp only [hoperand, decide_true, Bool.true_and, Option.isNone_eq_false_iff] at hcall
      obtain ⟨builtin, hbuiltin⟩ := Option.isSome_iff_exists.mp hcall
      simp only [call, hoperand, orFail, pure_bind, hbuiltin]

/-! ### Instructions on the stack and the variables -/

section Values

variable {runner : Runner} {instruction : Instruction} {pc : Nat} {m : Machine}
  {value left right : Value} {stack : List Value} {name operator : String}

/-- `LOAD` pushes its literal or a variable. -/
theorem run_execute_load (hop : instruction.opcode = .load)
    (hvalue : instruction.loaded? m.bindings = some value) :
    (instruction.execute runner pc).run m = (.ok .next, { m with stack := value :: m.stack }) := by
  simp only [execute, hop]
  rw [run_get_bind]
  simp only [hvalue]
  rfl

/-- `PUSH` pushes its literal or its operand as a text. -/
theorem run_execute_push (hop : instruction.opcode = .push)
    (hvalue : instruction.pushed? = some value) :
    (instruction.execute runner pc).run m = (.ok .next, { m with stack := value :: m.stack }) := by
  simp only [execute, hop, hvalue]
  rfl

/-- A value that is no pointer is stored as it is. -/
theorem run_storeIn (hvalue : value.pointer? = none) (line : Nat) :
    (storeIn name value line).run m =
      (.ok (), { m with bindings := Entries.insert name value m.bindings }) := by
  rw [storeIn, run_get_bind]
  dsimp only
  split
  next => cases hvalue
  next => rfl

/-- `STORE` takes a value that is no pointer into a variable. -/
theorem run_execute_store (hop : instruction.opcode = .store)
    (hname : instruction.operand? = some name) (hstack : m.stack = value :: stack)
    (hvalue : value.pointer? = none) :
    (instruction.execute runner pc).run m =
      (.ok .next, { m with stack, bindings := Entries.insert name value m.bindings }) := by
  simp only [execute, hop, hname]
  rw [run_bind_of_ok (run_popOr_cons _ hstack), run_bind_of_ok (run_orFail_some ..),
    run_bind_of_ok (run_storeIn hvalue _)]
  rfl

/-- `DEF_VAR` makes the variable zero. What stands behind a colon is not part of its name. -/
theorem run_execute_defVar (hop : instruction.opcode = .defVar)
    (hname : instruction.operand? = some name) :
    (instruction.execute runner pc).run m = (.ok .next, { m with
      bindings := Entries.insert (Text.before (· == ':') name) (.int 0) m.bindings }) := by
  simp only [execute, hop, hname]
  rfl

theorem run_execute_pop (hop : instruction.opcode = .pop) (hstack : m.stack = value :: stack) :
    (instruction.execute runner pc).run m = (.ok .next, { m with stack }) := by
  simp only [execute, hop]
  exact run_bind_of_ok (run_popOr_cons _ hstack)

/-- A binary operator takes its operands from the stack, whether it then fails or not. -/
theorem run_execute_binaryOp (hop : instruction.opcode = .binaryOp)
    (hoperator : instruction.operand? = some operator)
    (hstack : m.stack = right :: left :: stack) :
    (instruction.execute runner pc).run m =
      match Value.binary left right operator instruction.line with
      | .ok value => (.ok .next, { m with stack := value :: stack })
      | .error fault => (.error (.fault fault), { m with stack }) := by
  have hlength : ¬ m.stack.length < 2 := by
    rw [hstack, List.length_cons, List.length_cons]
    omega
  simp only [execute, hop, applyBinary, hoperator]
  rw [run_get_bind, if_neg hlength, run_bind_of_ok (run_orFail_some ..),
    run_bind_of_ok (run_popOr_cons _ hstack), run_bind_of_ok (run_popOr_cons _ rfl)]
  cases Value.binary left right operator instruction.line <;> rfl

/-- A binary operator replaces two operands by its result. The right one is on top. -/
theorem run_execute_binary (hop : instruction.opcode = .binaryOp)
    (hoperator : instruction.operand? = some operator) (hstack : m.stack = right :: left :: stack)
    (hvalue : Value.binary left right operator instruction.line = .ok value) :
    (instruction.execute runner pc).run m = (.ok .next, { m with stack := value :: stack }) := by
  rw [run_execute_binaryOp hop hoperator hstack, hvalue]

/-- A binary operator that fails has taken its operands. -/
theorem run_execute_binary_error {fault : Fault} (hop : instruction.opcode = .binaryOp)
    (hoperator : instruction.operand? = some operator) (hstack : m.stack = right :: left :: stack)
    (hvalue : Value.binary left right operator instruction.line = .error fault) :
    (instruction.execute runner pc).run m = (.error (.fault fault), { m with stack }) := by
  rw [run_execute_binaryOp hop hoperator hstack, hvalue]

/-- A unary operator replaces its operand by its result. -/
theorem run_execute_unary (hop : instruction.opcode = .unaryOp)
    (hoperator : instruction.operand? = some operator) (hstack : m.stack = left :: stack)
    (hvalue : Value.unary left operator instruction.line = .ok value) :
    (instruction.execute runner pc).run m = (.ok .next, { m with stack := value :: stack }) := by
  simp only [execute, hop, hoperator]
  rw [run_bind_of_ok (run_orFail_some ..), run_bind_of_ok (run_popOr_cons _ hstack), hvalue]
  rfl

/-- Without a value there is nothing to print. -/
theorem run_execute_print_nil (hop : instruction.opcode = .print) (hstack : m.stack = []) :
    (instruction.execute runner pc).run m = (.ok .next, m) := by
  simp only [execute, hop]
  rw [run_bind_of_ok (run_pop?_nil hstack)]
  rfl

/-- `PRINT` takes the top of the stack and writes it on a line of its own. -/
theorem run_execute_print (hop : instruction.opcode = .print) (hstack : m.stack = value :: stack)
    (hwrite : (m.output.putLine value.text).1 = .ok ()) :
    (instruction.execute runner pc).run m =
      (.ok .next, { m with stack, output := (m.output.putLine value.text).2 }) := by
  have hline : (writeLine value.text).run { m with stack } =
      (.ok (), { m with stack, output := (m.output.putLine value.text).2 }) :=
    run_output (Prod.ext hwrite rfl)
  simp only [execute, hop]
  rw [run_bind_of_ok (run_pop?_cons hstack)]
  exact run_bind_of_ok hline

/-- A line that is refused makes `PRINT` fail, without a line number. The value is gone. -/
theorem run_execute_print_refused {reason : String} {sink : Sink}
    (hop : instruction.opcode = .print) (hstack : m.stack = value :: stack)
    (hwrite : m.output.putLine value.text = (.error reason, sink)) :
    (instruction.execute runner pc).run m =
      (.error (.fault (.onLine (.outputRefused reason) 0)), { m with stack, output := sink }) := by
  have hline : (writeLine value.text).run { m with stack } =
      (.error (.fault (.onLine (.outputRefused reason) 0)), { m with stack, output := sink }) :=
    run_output_refused hwrite
  simp only [execute, hop]
  rw [run_bind_of_ok (run_pop?_cons hstack)]
  exact run_bind_of_error hline

end Values

/-! ### Instructions of blocks and loops -/

section Blocks

variable {runner : Runner} {instruction : Instruction} {pc target : Nat} {m : Machine}
  {value : Value} {stack : List Value}

theorem run_execute_if_nil (hop : instruction.opcode = .ifBegin) (hstack : m.stack = []) :
    (instruction.execute runner pc).run m =
      (.error (.fault (instruction.fault (.noCondition "IF"))), m) := by
  simp only [execute, hop]
  exact run_bind_of_error (run_popOr_nil _ hstack)

/-- `IF` goes on behind itself if the condition is true. -/
theorem run_execute_if_true (hop : instruction.opcode = .ifBegin)
    (hstack : m.stack = value :: stack) (hvalue : value.isTruthy = true) :
    (instruction.execute runner pc).run m = (.ok .next, { m with stack }) := by
  simp only [execute, hop]
  rw [run_bind_of_ok (run_popOr_cons _ hstack), if_pos hvalue]
  rfl

/-- Otherwise it goes on behind the `ELSE` or `END` that belongs to it. -/
theorem run_execute_if_false (hop : instruction.opcode = .ifBegin)
    (hstack : m.stack = value :: stack) (hvalue : value.isTruthy = false)
    (htarget : Program.elseOrEndAfter? m.program pc = some target) :
    (instruction.execute runner pc).run m = (.ok (.jump (target + 1)), { m with stack }) := by
  simp only [execute, hop]
  rw [run_bind_of_ok (run_popOr_cons _ hstack), if_neg (by simp [hvalue]), run_get_bind]
  simp only [jumpBehind, htarget]
  rfl

/-- Whoever comes to an `ELSE` has done the first branch and goes on behind the `END`. -/
theorem run_execute_else (hop : instruction.opcode = .elseBegin)
    (htarget : Program.endAfter? m.program pc = some target) :
    (instruction.execute runner pc).run m = (.ok (.jump (target + 1)), m) := by
  simp only [execute, hop]
  rw [run_get_bind]
  simp only [jumpBehind, htarget]
  rfl

theorem run_execute_while_nil (hop : instruction.opcode = .whileBegin) (hstack : m.stack = []) :
    (instruction.execute runner pc).run m =
      (.error (.fault (instruction.fault (.noCondition "WHILE"))), m) := by
  simp only [execute, hop]
  exact run_bind_of_error (run_popOr_nil _ hstack)

/-- A condition that holds makes the loop the innermost one, unless it is already. -/
theorem run_execute_while_true (hop : instruction.opcode = .whileBegin)
    (hstack : m.stack = value :: stack) (hvalue : value.isTruthy = true) :
    (instruction.execute runner pc).run m =
      (.ok .next,
        { m with stack, loops := if m.loops.head? = some pc then m.loops else pc :: m.loops }) := by
  simp only [execute, hop, loop]
  rw [run_bind_of_ok (run_popOr_cons _ hstack), run_get_bind, if_pos hvalue]
  by_cases hhead : m.loops.head? = some pc
  · simp only [hhead, decide_true, Bool.not_true]
    rfl
  · simp only [hhead, decide_false, Bool.not_false]
    rfl

/-- A condition that does not hold ends the loop. -/
theorem run_execute_while_false (hop : instruction.opcode = .whileBegin)
    (hstack : m.stack = value :: stack) (hvalue : value.isTruthy = false)
    (htarget : Program.endAfter? m.program pc = some target) :
    (instruction.execute runner pc).run m =
      (.ok (.jump (target + 1)),
        { m with stack, loops := if m.loops.head? = some pc then m.loops.tail else m.loops }) := by
  simp only [execute, hop, loop]
  rw [run_bind_of_ok (run_popOr_cons _ hstack), run_get_bind, if_neg (by simp [hvalue])]
  by_cases hhead : m.loops.head? = some pc
  · simp only [hhead, if_true, jumpBehind, htarget]
    rfl
  · simp only [hhead, jumpBehind, htarget]
    rfl

/-- A loop that has no end cannot be left. -/
theorem run_execute_while_unclosed (hop : instruction.opcode = .whileBegin)
    (hstack : m.stack = value :: stack) (hvalue : value.isTruthy = false)
    (htarget : Program.endAfter? m.program pc = none) :
    ∃ after, (instruction.execute runner pc).run m =
      (.error (.fault (instruction.fault .unclosedWhile)), after) := by
  simp only [execute, hop, loop]
  rw [run_bind_of_ok (run_popOr_cons _ hstack), run_get_bind, if_neg (by simp [hvalue])]
  simp only [jumpBehind, htarget]
  by_cases hhead : m.loops.head? = some pc
  · simp only [hhead, if_true]
    exact ⟨_, rfl⟩
  · simp only [hhead, if_false]
    exact ⟨_, rfl⟩

/-- The end of the innermost loop goes back to its beginning, and every other end goes on. -/
theorem run_execute_end (hop : instruction.opcode = .endBlock) :
    (instruction.execute runner pc).run m =
      (.ok (match m.loops with
        | [] => .next
        | head :: _ =>
          if Program.endAfter? m.program head = some pc then .jump head else .next), m) := by
  simp only [execute, hop]
  rw [run_get_bind]
  cases m.loops with
  | nil => rfl
  | cons head loops =>
    by_cases hend : Program.endAfter? m.program head = some pc
    · simp only [hend, if_true]
      rfl
    · simp only [hend, if_false]
      rfl

/-- `BREAK` outside of loops does nothing. -/
theorem run_execute_break_nil (hop : instruction.opcode = .breakLoop) (hloops : m.loops = []) :
    (instruction.execute runner pc).run m = (.ok .next, m) := by
  simp only [execute, hop, leaveLoop]
  rw [run_get_bind]
  simp only [hloops]
  rfl

/-- `BREAK` leaves the innermost loop and goes on behind its `END`. -/
theorem run_execute_break_cons {head : Nat} {loops : List Nat}
    (hop : instruction.opcode = .breakLoop) (hloops : m.loops = head :: loops)
    (htarget : Program.endAfter? m.program head = some target) :
    (instruction.execute runner pc).run m = (.ok (.jump (target + 1)), { m with loops }) := by
  simp only [execute, hop, leaveLoop]
  rw [run_get_bind]
  simp only [hloops, jumpBehind, htarget]
  rfl

/-- `BREAK` fails if the innermost loop has no `END`, and has left the loop nevertheless. -/
theorem run_execute_break_unclosed {head : Nat} {loops : List Nat}
    (hop : instruction.opcode = .breakLoop) (hloops : m.loops = head :: loops)
    (htarget : Program.endAfter? m.program head = none) :
    (instruction.execute runner pc).run m =
      (.error (.fault (instruction.fault .unclosedWhile)), { m with loops }) := by
  simp only [execute, hop, leaveLoop]
  rw [run_get_bind]
  simp only [hloops, jumpBehind, htarget]
  rfl

end Blocks

end Instruction

namespace Machine

variable {runner : Runner}

/-! ### One step -/

/-- A step executes the instruction at the current position and moves the position. A fault gets the
line of the instruction if it has none. -/
theorem run_step {m : Machine} {instruction : Instruction}
    (h : m.program[m.pc]? = some instruction) :
    (step runner).run m = match (instruction.execute runner m.pc).run m with
      | (.ok .next, after) => (.ok (), { after with pc := m.pc + 1 })
      | (.ok (.jump target), after) => (.ok (), { after with pc := target })
      | (.ok .halt, after) => (.ok (), { after with running := false })
      | (.error e, after) => (.error (e.withLine instruction.line), after) := by
  rw [step, Effect.run_get_bind]
  simp only [h]
  rw [Effect.run_bind, Effect.run_withLine]
  generalize (instruction.execute runner m.pc).run m = result
  obtain ⟨e | flow, after⟩ := result
  · rfl
  · cases flow <;> rfl

/-- An instruction that goes on to the next one moves the position by one. -/
theorem step_next {m after : Machine} {instruction : Instruction}
    (h : m.program[m.pc]? = some instruction)
    (hrun : (instruction.execute runner m.pc).run m = (.ok .next, after)) :
    (step runner).run m = (.ok (), { after with pc := m.pc + 1 }) := by
  rw [run_step h, hrun]

/-- An instruction that jumps moves the position to its target. -/
theorem step_jump {m after : Machine} {instruction : Instruction} {target : Nat}
    (h : m.program[m.pc]? = some instruction)
    (hrun : (instruction.execute runner m.pc).run m = (.ok (.jump target), after)) :
    (step runner).run m = (.ok (), { after with pc := target }) := by
  rw [run_step h, hrun]

/-- A step fails if its instruction does, and names the line where the fault has none. -/
theorem step_error {m after : Machine} {instruction : Instruction} {e : Interruption}
    (h : m.program[m.pc]? = some instruction)
    (hrun : (instruction.execute runner m.pc).run m = (.error e, after)) :
    (step runner).run m = (.error (e.withLine instruction.line), after) := by
  rw [run_step h, hrun]

/-- A fault that an instruction raises itself is on its line already. -/
theorem step_fault {m after : Machine} {instruction : Instruction} {cause : Cause}
    (h : m.program[m.pc]? = some instruction)
    (hrun : (instruction.execute runner m.pc).run m =
      (.error (.fault (instruction.fault cause)), after)) :
    (step runner).run m = (.error (.fault (instruction.fault cause)), after) := by
  rw [step_error h hrun, instruction.withLine_fault]

/-- There is more to do as long as the machine is running and stands at an instruction. -/
theorem canStep_iff {m : Machine} :
    m.canStep = true ↔ m.running = true ∧ m.pc < m.program.length := by
  simp [canStep]

/-- A report only adds to the diagnostics. -/
theorem report_frame (m : Machine) (fault : Fault) : ∃ log, m.report fault = { m with log } := by
  rw [report]
  split <;> exact ⟨_, rfl⟩

theorem output_report (m : Machine) (fault : Fault) : (m.report fault).output = m.output := by
  obtain ⟨log, hreport⟩ := m.report_frame fault
  rw [hreport]

/-! ### Runs -/

/-- A run in steps, with the positions of the instructions executed. -/
inductive Steps (runner : Runner) : Machine → List Nat → Machine → Prop
  | refl (m : Machine) : Steps runner m [] m
  | step {m next last : Machine} {positions : List Nat} :
      m.canStep = true → (Machine.step runner).run m = (.ok (), next) →
      Steps runner next positions last → Steps runner m (m.pc :: positions) last

/-- How a run stops: nothing is left to execute, or the next instruction fails. -/
inductive Stops (runner : Runner) (m : Machine) : Outcome Unit × Machine → Prop
  | complete : m.canStep = false → Stops runner m m.complete
  | fault {fault : Fault} {after : Machine} :
      m.canStep = true → (Machine.step runner).run m = (.error (.fault fault), after) →
      Stops runner m (.failed fault, after.fail fault)

/-- A run in steps, with the machines in which an instruction is executed. -/
inductive Trace (runner : Runner) : Machine → List Machine → Machine → Prop
  | refl (m : Machine) : Trace runner m [] m
  | step {m next last : Machine} {states : List Machine} :
      m.canStep = true → (Machine.step runner).run m = (.ok (), next) →
      Trace runner next states last → Trace runner m (m :: states) last

/-- The positions of a run are those of the machines that it comes through. -/
theorem Trace.steps {m last : Machine} {states : List Machine} (h : Trace runner m states last) :
    Steps runner m (states.map (·.pc)) last := by
  induction h with
  | refl => exact .refl _
  | step hcan hstep _ ih => exact .step hcan hstep ih

theorem Steps.single {m next : Machine} (hcan : m.canStep = true)
    (hstep : (Machine.step runner).run m = (.ok (), next)) : Steps runner m [m.pc] next :=
  .step hcan hstep (.refl next)

/-- Two runs make one, if the second begins where the first ends. -/
theorem Steps.trans {first middle last : Machine} {before after : List Nat}
    (hbefore : Steps runner first before middle) (hafter : Steps runner middle after last) :
    Steps runner first (before ++ after) last := by
  induction hbefore with
  | refl => exact hafter
  | step hcan hstep _ ih => exact .step hcan hstep (ih hafter)

/-- A machine that has nothing left to execute makes no step. -/
theorem Steps.eq_of_not_canStep {m last : Machine} {positions : List Nat}
    (h : Steps runner m positions last) (hcan : m.canStep = false) :
    positions = [] ∧ last = m := by
  cases h with
  | refl => exact ⟨rfl, rfl⟩
  | step hcan' => simp [hcan] at hcan'

/-- A run made of steps is a part of every longer run. -/
theorem runSteps_of_steps {m last : Machine} {positions : List Nat}
    (h : Steps runner m positions last) (more : Nat) :
    runSteps runner (positions.length + more) m = runSteps runner more last := by
  induction h with
  | refl => simp
  | step hcan hstep _ ih =>
    rw [List.length_cons, Nat.add_right_comm, runSteps, if_pos hcan]
    simp only [hstep]
    exact ih

/-- A run that has come to its end is complete, however many steps are left. -/
theorem runSteps_of_trace {m final : Machine} {states : List Machine}
    {steps : Nat} (h : Trace runner m states final) (hstop : final.canStep = false)
    (hsteps : states.length ≤ steps) : runSteps runner steps m = final.complete := by
  have hrun := runSteps_of_steps h.steps (steps - states.length)
  rw [List.length_map, Nat.add_sub_cancel' hsteps] at hrun
  rw [hrun, runSteps.eq_def, hstop]
  rfl

/-- A run that ends does so where its steps come to an end. -/
theorem runSteps_of_finished {m final : Machine} {states : List Machine} {steps : Nat}
    (h : Trace runner m states final) (hstop : final.canStep = false)
    (hfinished : (runSteps runner steps m).1 ≠ .unfinished) :
    runSteps runner steps m = final.complete := by
  induction h generalizing steps with
  | refl m =>
    rw [runSteps.eq_def, hstop]
    rfl
  | step hcan hstep _ ih =>
    cases steps with
    | zero =>
      rw [runSteps, if_pos hcan] at hfinished
      exact absurd rfl hfinished
    | succ steps =>
      rw [runSteps, if_pos hcan, hstep] at hfinished ⊢
      exact ih hstop hfinished

/-- A machine that stops does so within one step. -/
theorem runSteps_of_stops {m : Machine} {ended : Outcome Unit × Machine}
    (h : Stops runner m ended) : runSteps runner 1 m = ended := by
  cases h with
  | complete hcan => rw [runSteps, if_neg (by simp [hcan])]
  | fault hcan hstep =>
    rw [runSteps, if_pos hcan]
    simp only [hstep]

/-- A run that ends is made of steps and a stop. -/
theorem exists_steps_of_runSteps {steps : Nat} {m : Machine}
    (h : (runSteps runner steps m).1 ≠ .unfinished) :
    ∃ positions last, Steps runner m positions last ∧
      Stops runner last (runSteps runner steps m) := by
  fun_induction runSteps runner steps m with
  | case1 => simp at h
  | case2 m hcan steps next hstep ih =>
    obtain ⟨positions, last, hsteps, hstops⟩ := ih h
    exact ⟨_, last, .step hcan hstep hsteps, hstops⟩
  | case3 => simp at h
  | case4 m hcan steps fault after hstep =>
    exact ⟨[], m, .refl m, .fault hcan hstep⟩
  | case5 steps m hcan => exact ⟨[], m, .refl m, .complete (by simpa using hcan)⟩

end Machine

end StackMachine
