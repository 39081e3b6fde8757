import StackMachine.Proofs.Code.Positions
import StackMachine.Proofs.Machine.Step

/-!
# The stack of loops across calls

There is one stack of loops for all calls. Only `WHILE` and `BREAK` change it; a `RETURN` leaves it
as it is, wherever in the called function it stands. So the loops after a `RETURN` are those that
the function has opened and not left, on top of those of the caller that it has not left.

## Main definitions

* `LoopEvent`: what an instruction does to the stack of loops.
* `LoopBalance`: the loops opened and the loops of the caller left since a call.

## Main results

* `Machine.loops_step`: every instruction changes the stack of loops by its event only.
* `Machine.loops_after_return`: a call gives the caller its loops back exactly if the function
  leaves all the loops it opens and none of the caller's.
-/

namespace StackMachine

/-- What an instruction does to the stack of loops. -/
inductive LoopEvent
  /-- Nothing. -/
  | keep
  /-- It enters the loop at a position. -/
  | enter (pc : Nat)
  /-- It leaves the innermost loop. -/
  | leave
  deriving DecidableEq, Repr

namespace LoopEvent

/-- The stack of loops after an event. -/
def apply : LoopEvent → List Nat → List Nat
  | keep, loops => loops
  | enter pc, loops => pc :: loops
  | leave, loops => loops.tail

end LoopEvent

/-- What the next instruction does to the stack of loops: a `WHILE` enters its loop if the condition
holds, unless it is already the innermost one, and leaves it if the condition does not hold; a
`BREAK` leaves the innermost loop. -/
def Machine.loopEvent (m : Machine) : LoopEvent :=
  match (m.program[m.pc]?).map Instruction.opcode with
  | some .whileBegin =>
    match m.stack.head?.map Value.isTruthy with
    | some true => if m.loops.head? = some m.pc then .keep else .enter m.pc
    | some false => if m.loops.head? = some m.pc then .leave else .keep
    | none => .keep
  | some .breakLoop => if m.loops = [] then .keep else .leave
  | _ => .keep

/-- The loops opened since some moment and not left again, innermost first, and the number of
loops left of those that were being executed at that moment. -/
structure LoopBalance where
  /-- The loops opened. -/
  opened : List Nat := []
  /-- The number of older loops left. -/
  left : Nat := 0
  deriving DecidableEq, Repr

namespace LoopBalance

/-- The balance after one more event. A loop that is left is the last one opened, if there is
any. -/
def add (balance : LoopBalance) : LoopEvent → LoopBalance
  | .keep => balance
  | .enter pc => { balance with opened := pc :: balance.opened }
  | .leave =>
    match balance.opened with
    | [] => { balance with left := balance.left + 1 }
    | _ :: opened => { balance with opened }

/-- The stack of loops with this balance, over the loops at the beginning. -/
def above (balance : LoopBalance) (loops : List Nat) : List Nat :=
  balance.opened ++ loops.drop balance.left

/-- Adding an event to the balance is applying it to the loops. -/
theorem above_add (balance : LoopBalance) (event : LoopEvent) (loops : List Nat) :
    (balance.add event).above loops = event.apply (balance.above loops) := by
  cases event with
  | keep | enter => rfl
  | leave =>
    obtain ⟨opened, left⟩ := balance
    cases opened with
    | nil => simp [add, above, LoopEvent.apply]
    | cons => rfl

/-- The loops are the old ones exactly if those opened stand in for those left. -/
theorem above_eq_iff (balance : LoopBalance) (loops : List Nat) :
    balance.above loops = loops ↔ balance.opened = loops.take balance.left := by
  constructor
  · intro h
    have happend : balance.opened ++ loops.drop balance.left =
        loops.take balance.left ++ loops.drop balance.left := by
      rw [List.take_append_drop]
      exact h
    exact List.append_cancel_right happend
  · intro h
    rw [above, h, List.take_append_drop]

/-- The balance of a run through the given machines. -/
def ofRun (states : List Machine) : LoopBalance :=
  states.foldl (fun balance m => balance.add m.loopEvent) {}

end LoopBalance

/-! ### Instructions that leave the loops alone -/

namespace Instruction

open Effect

variable {runner : Runner} {instruction : Instruction} {m : Machine} {pc : Nat}

/-- Looking for the place to jump to changes nothing. -/
theorem run_jumpBehind (position : Option Nat) (fault : Fault) :
    ((jumpBehind position fault).run m).2 = m := by
  cases position <;> rfl

theorem loops_returnFrom : (returnFrom.run m).2.loops = m.loops := by
  rw [returnFrom, run_get_bind]
  split
  · split <;> rfl
  · rfl

/-- So does a call of a function. -/
theorem loops_call_of_defined (h : instruction.callsDefined = true) :
    ((instruction.call runner pc).run m).2.loops = m.loops := by
  obtain ⟨-, hname⟩ := Bool.and_eq_true_iff.mp h
  rw [call]
  cases hoperand : instruction.operand? with
  | none => rfl
  | some operand =>
    rw [hoperand] at hname
    have hnone : Builtin.ofName? (Text.before (· == '(') operand) = none :=
      Option.isNone_iff_eq_none.mp hname
    rw [run_bind_of_ok (run_orFail_some ..)]
    simp only [hnone]
    rw [run_get_bind]
    cases Entries.find? (Text.before (· == '(') operand) m.functions <;> rfl

/-- Only `WHILE` and `BREAK` change the stack of loops. -/
theorem loops_execute (hwhile : instruction.opcode ≠ .whileBegin)
    (hbreak : instruction.opcode ≠ .breakLoop) :
    ((instruction.execute runner pc).run m).2.loops = m.loops := by
  -- Simple instructions keep the control state as a whole; the others are gone through one by one.
  by_cases hsimple : instruction.isSimple = true
  · exact congrArg Control.loops ((local_execute runner pc hsimple).control_eq m)
  by_cases hcall : instruction.callsDefined = true
  · have hop : instruction.opcode = .call := by
      have := (Bool.and_eq_true_iff.mp hcall).1
      simpa using this
    simp only [execute, hop]
    exact loops_call_of_defined hcall
  cases hop : instruction.opcode <;> simp [isSimple, hop, hcall] at hsimple hwhile hbreak
  case ifBegin =>
    simp only [execute, hop]
    cases hstack : m.stack with
    | nil => rw [run_bind_of_error (run_popOr_nil _ hstack)]
    | cons value stack =>
      rw [run_bind_of_ok (run_popOr_cons _ hstack)]
      split
      · rfl
      · rw [run_get_bind, run_jumpBehind]
  case elseBegin =>
    simp only [execute, hop]
    rw [run_get_bind, run_jumpBehind]
  case endBlock => rw [run_execute_end hop]
  case goto =>
    simp only [execute, hop]
    cases instruction.operand? with
    | none => rfl
    | some label => rw [run_bind_of_ok (run_orFail_some ..), run_get_bind, run_jumpBehind]
  case func =>
    simp only [execute, hop]
    cases instruction.operand? <;> rfl
  case ret =>
    simp only [execute, hop]
    exact loops_returnFrom

/-- `WHILE` enters its loop if the condition holds, unless the loop is the innermost one already,
and leaves it if the condition does not hold. -/
theorem loops_while (hop : instruction.opcode = .whileBegin) {flow : Flow} {after : Machine}
    (hrun : (instruction.execute runner pc).run m = (.ok flow, after)) :
    after.loops = (match m.stack.head?.map Value.isTruthy with
      | some true => if m.loops.head? = some pc then LoopEvent.keep else .enter pc
      | some false => if m.loops.head? = some pc then .leave else .keep
      | none => .keep).apply m.loops := by
  cases hstack : m.stack with
  | nil =>
    rw [run_execute_while_nil hop hstack] at hrun
    cases hrun
  | cons value stack =>
    simp only [List.head?_cons, Option.map_some]
    cases hvalue : value.isTruthy with
    | true =>
      rw [run_execute_while_true hop hstack hvalue] at hrun
      cases hrun
      dsimp only
      split <;> rfl
    | false =>
      cases htarget : Program.endAfter? m.program pc with
      | none =>
        obtain ⟨failed, hfailed⟩ : ∃ failed, (instruction.execute runner pc).run m =
            (.error (.fault (instruction.fault .unclosedWhile)), failed) :=
          run_execute_while_unclosed hop hstack hvalue htarget
        rw [hfailed] at hrun
        cases hrun
      | some target =>
        rw [run_execute_while_false hop hstack hvalue htarget] at hrun
        cases hrun
        dsimp only
        split <;> rfl

theorem loops_break (hop : instruction.opcode = .breakLoop) {flow : Flow} {after : Machine}
    (hrun : (instruction.execute runner pc).run m = (.ok flow, after)) :
    after.loops = m.loops.tail := by
  cases hloops : m.loops with
  | nil =>
    rw [run_execute_break_nil hop hloops] at hrun
    cases hrun
    rw [hloops]
    rfl
  | cons head loops =>
    cases htarget : Program.endAfter? m.program head with
    | none =>
      rw [run_execute_break_unclosed hop hloops htarget] at hrun
      cases hrun
    | some target =>
      rw [run_execute_break_cons hop hloops htarget] at hrun
      cases hrun
      rfl

end Instruction

/-! ### Runs -/

namespace Machine

variable {runner : Runner}

/-- No other instruction enters or leaves a loop. -/
theorem loopEvent_eq_keep {m : Machine} {instruction : Instruction}
    (hat : m.program[m.pc]? = some instruction) (hwhile : instruction.opcode ≠ .whileBegin)
    (hbreak : instruction.opcode ≠ .breakLoop) : m.loopEvent = .keep := by
  simp only [loopEvent, hat, Option.map_some]
  split
  next h => exact absurd (Option.some.inj h) hwhile
  next h => exact absurd (Option.some.inj h) hbreak
  next => rfl

/-- A step changes the stack of loops by the event of its instruction only. -/
theorem loops_step {m next : Machine} (hstep : (step runner).run m = (.ok (), next)) :
    next.loops = m.loopEvent.apply m.loops := by
  cases hat : m.program[m.pc]? with
  | none =>
    rw [step, Effect.run_get_bind] at hstep
    simp only [hat] at hstep
    cases hstep
    simp only [loopEvent, hat]
    rfl
  | some instruction =>
    obtain ⟨flow, after, hrun, hloops⟩ : ∃ flow after,
        (instruction.execute runner m.pc).run m = (.ok flow, after) ∧ next.loops = after.loops := by
      rw [run_step hat] at hstep
      generalize (instruction.execute runner m.pc).run m = executed at hstep
      obtain ⟨e | flow, after⟩ := executed
      · cases hstep
      · cases flow <;> cases hstep <;> exact ⟨_, after, rfl, rfl⟩
    rw [hloops]
    -- Only these two instructions have an event of their own.
    by_cases hwhile : instruction.opcode = .whileBegin
    · rw [Instruction.loops_while hwhile hrun]
      simp only [loopEvent, hat, Option.map_some, hwhile]
    by_cases hbreak : instruction.opcode = .breakLoop
    · rw [Instruction.loops_break hbreak hrun]
      simp only [loopEvent, hat, Option.map_some, hbreak]
      split
      next hempty => rw [hempty]; rfl
      next => rfl
    · have hkeep : m.loopEvent = .keep := loopEvent_eq_keep hat hwhile hbreak
      have hsame : ((instruction.execute runner m.pc).run m).2.loops = m.loops :=
        Instruction.loops_execute hwhile hbreak
      rw [hrun] at hsame
      rw [hkeep]
      exact hsame

/-- Along a run the loops are those of the balance over the loops at the beginning. -/
theorem loops_trace {m last : Machine} {states : List Machine} (h : Trace runner m states last)
    {balance : LoopBalance} {loops : List Nat} (hbalance : m.loops = balance.above loops) :
    last.loops =
      (states.foldl (fun balance m => balance.add m.loopEvent) balance).above loops := by
  -- The balance is generalized, since every step adds its event to it.
  induction h generalizing balance with
  | refl => exact hbalance
  | step _ hstep _ ih =>
    rw [List.foldl_cons]
    apply ih
    rw [loops_step hstep, LoopBalance.above_add, hbalance]

end Machine

/-! ### Calls -/

namespace Machine

variable {runner : Runner}

/-- The end of a loop goes back to the beginning of the loop exactly if that is the innermost one
on the stack. -/
theorem step_end_iff {m : Machine} {instruction : Instruction} {head : Nat}
    (hat : m.program[m.pc]? = some instruction) (hop : instruction.opcode = .endBlock)
    (hend : Program.endAfter? m.program head = some m.pc) :
    ∃ next, (step runner).run m = (.ok (), next) ∧
      (next.pc = head ↔ m.loops.head? = some head) := by
  obtain ⟨hlt, -⟩ := Program.endAfter?_bounds hend
  have hrun : (instruction.execute runner m.pc).run m = _ := Instruction.run_execute_end hop
  cases hloops : m.loops with
  | nil =>
    rw [hloops] at hrun
    refine ⟨_, step_next hat hrun, ?_⟩
    simp
    omega
  | cons innermost rest =>
    rw [hloops] at hrun
    dsimp only at hrun
    by_cases hclose : Program.endAfter? m.program innermost = some m.pc
    · rw [if_pos hclose] at hrun
      refine ⟨_, step_jump hat hrun, ?_⟩
      simp
    · rw [if_neg hclose] at hrun
      refine ⟨_, step_next hat hrun, ?_⟩
      have hne : innermost ≠ head := fun h => hclose (h ▸ hend)
      simp [hne]
      omega

/-- What a call leaves of the loops of its caller. Whatever the function does up to the `RETURN`,
the loops behind it are those that the function has opened and not left, on top of the loops of the
caller that it has not left. They are the loops of the caller exactly if the ones stand in for the
others, and then a `BREAK` of the caller leaves its own loop; the end of the innermost loop of the
caller goes back to its beginning exactly if that is on top again. -/
theorem loops_after_return {m entered last back : Machine} {states : List Machine}
    {calling returning : Instruction} (hcall : m.program[m.pc]? = some calling)
    (hdefined : calling.callsDefined = true) (henter : (step runner).run m = (.ok (), entered))
    (hrun : Trace runner entered states last)
    (hreturn : last.program[last.pc]? = some returning) (hop : returning.opcode = .ret)
    (hback : (step runner).run last = (.ok (), back)) :
    back.loops = (LoopBalance.ofRun states).above m.loops ∧
    (back.loops = m.loops ↔
      (LoopBalance.ofRun states).opened = m.loops.take (LoopBalance.ofRun states).left) ∧
    (∀ (later : Machine) instruction head, later.loops = back.loops →
      later.program[later.pc]? = some instruction → instruction.opcode = .endBlock →
      m.loops.head? = some head → Program.endAfter? later.program head = some later.pc →
      ∃ next, (step runner).run later = (.ok (), next) ∧
        (next.pc = head ↔ ((LoopBalance.ofRun states).above m.loops).head? = some head)) ∧
    (∀ (later : Machine) instruction head outer target, back.loops = m.loops →
      later.loops = back.loops → later.program[later.pc]? = some instruction →
      instruction.opcode = .breakLoop → m.loops = head :: outer →
      Program.endAfter? later.program head = some target →
      (step runner).run later = (.ok (), { later with pc := target + 1, loops := outer })) := by
  have hcallOp : calling.opcode = .call := by
    simpa using (Bool.and_eq_true_iff.mp hdefined).1
  have hentered : entered.loops = m.loops := by
    rw [loops_step henter, loopEvent_eq_keep hcall (by simp [hcallOp]) (by simp [hcallOp])]
    rfl
  -- The call and the return leave the loops alone; between them the balance is kept step by step.
  have hstart : entered.loops = ({} : LoopBalance).above m.loops := hentered
  have hlast : last.loops = (LoopBalance.ofRun states).above m.loops := loops_trace hrun hstart
  have hloops : back.loops = (LoopBalance.ofRun states).above m.loops := by
    rw [loops_step hback, loopEvent_eq_keep hreturn (by simp [hop]) (by simp [hop])]
    exact hlast
  refine ⟨hloops, ?_, ?_, ?_⟩
  · rw [hloops]
    exact LoopBalance.above_eq_iff _ _
  · intro later instruction head hlater hat hend _ htarget
    rw [← hloops, ← hlater]
    exact step_end_iff hat hend htarget
  · intro later instruction head outer target hsame hlater hat hbreak hm htarget
    rw [hsame, hm] at hlater
    exact step_jump hat (Instruction.run_execute_break_cons hbreak hlater htarget)

/-- A machine before a call of a function that returns from inside a loop. -/
def beforeCall : Machine where
  program :=
    [{ opcode := .func, operands := ["f"], line := 1 },
      { opcode := .load, operands := [], literal := some (.int 1), line := 2 },
      { opcode := .whileBegin, operands := [], line := 3 },
      { opcode := .ret, operands := [], line := 4 },
      { opcode := .endBlock, operands := [], line := 5 },
      { opcode := .call, operands := ["f"], line := 6 }]
  pc := 5
  running := true
  functions := [("f", 0)]

/-- The machine after so many steps. -/
def stepped (m : Machine) : Nat → Machine
  | 0 => m
  | count + 1 => ((step fun m => (.unfinished, m)).run (m.stepped count)).2

theorem loops_after_return_beforeCall :
    (beforeCall.stepped 4).pc = 6 ∧ (beforeCall.stepped 4).loops = [2] ∧ beforeCall.loops = [] := by
  have hok : ∀ count < 4,
      (step fun m => (.unfinished, m)).run (beforeCall.stepped count) =
        (.ok (), beforeCall.stepped (count + 1)) := by
    intro count hcount
    refine Prod.ext ?_ rfl
    match count, hcount with
    | 0, _ | 1, _ | 2, _ | 3, _ => rfl
  have htrace : Trace (fun m => (.unfinished, m)) (beforeCall.stepped 1)
      [beforeCall.stepped 1, beforeCall.stepped 2] (beforeCall.stepped 3) :=
    .step rfl (hok 1 (by decide)) (.step rfl (hok 2 (by decide)) (.refl _))
  obtain ⟨hloops, -⟩ := loops_after_return (m := beforeCall) rfl rfl (hok 0 (by decide)) htrace
    rfl rfl (hok 3 (by decide))
  refine ⟨rfl, ?_, rfl⟩
  rw [hloops]
  rfl

end Machine

end StackMachine
