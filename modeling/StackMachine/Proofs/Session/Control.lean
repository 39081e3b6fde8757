import StackMachine.Proofs.Machine.Control
import StackMachine.Proofs.Session.Basic

/-!
# Control in a session

Whatever programs are loaded in a session, balanced or not, and however their runs end, are paused
or are cut off, the control state of the machine stays well-formed. Between two operations the
machine is ready to execute exactly if a run is under way.

## Main definitions

* `Machine.Untouched`: no program was loaded and nothing was executed yet.
* `Machine.InOrder`: what holds between two operations.

## Main results

* `Machine.inOrder_runSteps` and `Machine.inOrder_debugSteps`: what a step keeps, a run keeps.
* `Machine.InOrder.perform`: every operation of a session leaves the machine in order.
* `Machine.control_wellFormed_after`: the machine is in order throughout a session, and no run
  executes anything outside its program.
-/

namespace StackMachine

namespace Machine

/-- No program was loaded and nothing was executed yet. -/
def Untouched (m : Machine) : Prop := m.control = ({} : Machine).control

/-- What holds between two operations. -/
structure InOrder (m : Machine) : Prop where
  /-- The control state is well-formed. -/
  control : m.control.WellFormed
  /-- The next instruction is to be executed exactly if a run is under way. -/
  running_iff : m.running = true ↔ m.status = .running

variable {runner : Runner} {m later : Machine}

/-- Only the control state matters. -/
theorem InOrder.of_control_eq (h : m.InOrder) (hsame : later.control = m.control) :
    later.InOrder where
  control := hsame ▸ h.control
  running_iff := by
    have hrunning : later.running = m.running := congrArg Control.running hsame
    have hstatus : later.status = m.status := congrArg Control.status hsame
    rw [hrunning, hstatus]
    exact h.running_iff

/-- A run that has ended has halted. -/
theorem InOrder.of_halted {k : Control} (h : k.WellFormed)
    (hended : later.control = { k with running := false, status := .halted }) : later.InOrder where
  control := by
    rw [hended]
    exact { h with }
  running_iff := by
    have hrunning : later.running = false := congrArg Control.running hended
    have hstatus : later.status = .halted := congrArg Control.status hended
    simp [hrunning, hstatus]

/-- A run that is cut off is still under way. -/
theorem InOrder.of_running (h : m.control.WellFormed) (hrunning : m.running = true)
    (hstatus : m.status = .running) : m.InOrder :=
  ⟨h, by simp [hrunning, hstatus]⟩

/-- Starting at the first instruction keeps the control state well-formed. -/
theorem wellFormed_start (h : m.control.WellFormed) : m.start.control.WellFormed :=
  { h with pc_le := Nat.zero_le _ }

/-! ### Steps in a run -/

/-- After a step the run is still under way. -/
theorem underWay_of_step {next : Machine} (hstep : (step runner).run m = (.ok (), next))
    (hcan : m.canStep = true) (h : m.control.WellFormed) (hstatus : m.status = .running) :
    next.control.WellFormed ∧ next.status = .running := by
  have hcontrol := wellFormed_step runner hcan h
  obtain ⟨-, hsame⟩ := frame_step runner hcan
  rw [hstep] at hcontrol hsame
  exact ⟨hcontrol, hsame.trans hstatus⟩

/-- An instruction that is interrupted leaves the run under way. -/
theorem inOrder_of_step_error {e : Interruption} {next : Machine}
    (hstep : (step runner).run m = (.error e, next)) (hcan : m.canStep = true)
    (h : m.control.WellFormed) (hstatus : m.status = .running) : next.InOrder := by
  have hcontrol := wellFormed_step runner hcan h
  obtain ⟨-, -, hsame, hrunning⟩ := frame_step_error hcan hstep
  rw [hstep] at hcontrol
  exact .of_running hcontrol (hrunning.trans (canStep_iff.mp hcan).1) (hsame.trans hstatus)

/-! ### Runs -/

/-- What a step keeps, a run keeps. -/
theorem inOrder_runSteps (runner : Runner) (steps : Nat) (h : m.control.WellFormed)
    (hstatus : m.status = .running) : (runSteps runner steps m).2.InOrder := by
  fun_induction runSteps runner steps m with
  | case1 m hcan => exact .of_running h (canStep_iff.mp hcan).1 hstatus
  | case2 m hcan steps next hstep ih =>
    obtain ⟨hnext, hstatus'⟩ := underWay_of_step hstep hcan h hstatus
    exact ih hnext hstatus'
  | case3 m hcan steps next hstep => exact inOrder_of_step_error hstep hcan h hstatus
  | case4 m hcan steps fault next hstep =>
    have hnext := inOrder_of_step_error hstep hcan h hstatus
    exact .of_halted hnext.control (control_fail next fault)
  | case5 steps m _ => exact .of_halted h (control_complete m)

/-- Only the calls in progress matter of the overlay. -/
theorem wellFormed_overlay {overlay : Overlay} {resumePc : Option Nat} (h : m.control.WellFormed)
    (hcalls : overlay.calls = m.overlay.calls) (hdepth : overlay.callDepth = m.overlay.callDepth) :
    ({ m with overlay, resumePc } : Machine).control.WellFormed where
  pc_le := h.pc_le
  loops := h.loops
  functions := h.functions
  scopes := h.scopes
  calls := by
    have hcounted : m.overlay.callDepth = m.overlay.calls.length := h.calls
    change overlay.callDepth = overlay.calls.length
    rw [hdepth, hcalls, hcounted]

/-- Looking whether to pause does not change the calls in progress. -/
theorem wellFormed_look {pauses : Bool} {overlay : Overlay} (h : m.control.WellFormed)
    (hlook : (if m.resumePc = some m.pc then (false, m.overlay)
      else m.overlay.checkPause m.pc m.currentLine m.bindings) = (pauses, overlay))
    (resumePc : Option Nat) : ({ m with overlay, resumePc } : Machine).control.WellFormed := by
  split at hlook
  · cases hlook
    exact wellFormed_overlay h rfl rfl
  · rw [Overlay.checkPause] at hlook
    split at hlook
    · dsimp only at hlook
      split at hlook <;> cases hlook <;> exact wellFormed_overlay h rfl rfl
    · cases hlook
      exact wellFormed_overlay h rfl rfl

/-- Announcing a pause has nothing to do with the control state. -/
theorem InOrder.of_writeLine {text : String} {result : Except Interruption Unit} (h : m.InOrder)
    (hline : (Effect.writeLine text).run m = (result, later)) : later.InOrder := by
  have hsame := (Effect.local_writeLine text).control_eq m
  rw [hline] at hsame
  exact h.of_control_eq hsame

/-- What a step keeps, a run under the overlay keeps. -/
theorem inOrder_debugSteps (runner : Runner) (steps : Nat) (h : m.control.WellFormed)
    (hstatus : m.status = .running) : (debugSteps runner steps m).2.InOrder := by
  fun_induction debugSteps runner steps m with
  -- A pause is announced, or the announcement is refused; the run stays under way either way.
  | case1 steps m hcan line overlay checked paused hline hlook =>
    have hchecked : checked.InOrder :=
      .of_running (wellFormed_look h hlook m.resumePc) (canStep_iff.mp hcan).1 hstatus
    have hpaused := hchecked.of_writeLine hline
    exact ⟨wellFormed_overlay hpaused.control rfl rfl, hpaused.running_iff⟩
  | case2 steps m hcan line overlay checked paused hline hlook =>
    have hchecked : checked.InOrder :=
      .of_running (wellFormed_look h hlook m.resumePc) (canStep_iff.mp hcan).1 hstatus
    exact hchecked.of_writeLine hline
  | case3 steps m hcan line overlay checked cause paused hline hlook =>
    have hchecked : checked.InOrder :=
      .of_running (wellFormed_look h hlook m.resumePc) (canStep_iff.mp hcan).1 hstatus
    exact hchecked.of_writeLine hline
  -- No pause: the run is cut off here, or goes on with a step.
  | case4 m hcan line pauses overlay hlook checked =>
    exact .of_running (wellFormed_look h hlook m.resumePc) (canStep_iff.mp hcan).1 hstatus
  | case5 m hcan line pauses overlay hlook checked _ steps next hstep ih =>
    have hchecked := wellFormed_look h hlook none
    obtain ⟨hnext, hstatus'⟩ := underWay_of_step hstep hcan hchecked hstatus
    exact ih hnext hstatus'
  | case6 m hcan line pauses overlay hlook checked _ steps next hstep =>
    exact inOrder_of_step_error hstep hcan (wellFormed_look h hlook none) hstatus
  | case7 m hcan line pauses overlay hlook checked _ steps fault next hstep =>
    have hnext := inOrder_of_step_error hstep hcan (wellFormed_look h hlook none) hstatus
    exact .of_halted hnext.control (control_fail next fault)
  -- The end of the program.
  | case8 steps m _ ended hended =>
    exact .of_halted h (by rw [← control_complete, hended])
  | case9 steps m _ fault ended hended =>
    exact .of_halted h (by rw [← control_complete, hended])
  | case10 steps m _ ended hended =>
    exact .of_halted h (by rw [← control_complete, hended])

/-- A run keeps the control in order, natively or not. -/
theorem InOrder.execute (h : m.InOrder) (steps : Nat) : (m.execute steps).2.InOrder := by
  unfold Machine.execute executeWith
  split
  · exact h.of_control_eq rfl
  · -- A native run completes; otherwise the program is interpreted from its start.
    rcases m.runNative_cases with ⟨left, hnative, hsame⟩ | ⟨ran, result, hran, hnative⟩
    · rw [hnative]
      exact inOrder_runSteps _ steps (wellFormed_start (hsame ▸ h.control)) rfl
    · rw [hnative]
      have hcontrol : ran.control.WellFormed := by
        rw [hran]
        exact { h.control with }
      exact .of_halted hcontrol (control_complete ran)

theorem InOrder.executeDebug (h : m.InOrder) (steps : Nat) :
    (m.executeDebug steps).2.InOrder := by
  unfold Machine.executeDebug
  dsimp only
  split
  · exact h
  next hstatus =>
    exact inOrder_debugSteps _ steps (wellFormed_overlay h.control rfl rfl) hstatus
  · split
    · exact inOrder_debugSteps _ steps
        (wellFormed_overlay (m := m.start) (wellFormed_start h.control) rfl rfl) rfl
    · -- Nothing is asked of the overlay, so the program runs as usual.
      have hran := h.execute steps
      split <;> (next hended => rwa [hended] at hran)

/-! ### Operations -/

/-- A reset gives the control state of a machine that has only loaded its program. -/
theorem inOrder_reset (m : Machine) : m.reset.InOrder where
  control :=
    { pc_le := Nat.zero_le _
      loops := by simp [reset, control]
      functions := by simp [reset, control]
      scopes := Nat.le_refl 1
      calls := rfl }
  running_iff := by simp [reset]

theorem InOrder.load (h : m.InOrder) (source : String) : (m.load source).2.InOrder := by
  unfold Machine.load
  dsimp only
  split
  · exact h
  · exact inOrder_reset _

theorem InOrder.callBuiltin (h : m.InOrder) (steps : Nat) (name : String)
    (arguments : List Value) : (m.callBuiltin steps name arguments).2.InOrder := by
  unfold Machine.callBuiltin
  split
  · exact h
  next builtin _ =>
    have hsame := (Builtin.local_call (m.innerRunner steps) builtin arguments).control_eq m
    have hcalled := h.of_control_eq hsame
    split <;> (next hended => rwa [hended] at hcalled)

/-- Every operation of a session leaves the machine in order. -/
theorem InOrder.perform (h : m.InOrder) (operation : Operation) :
    (m.perform operation).InOrder := by
  cases operation with
  | load source => exact h.load source
  | loadFile path =>
    simp only [Machine.perform, Machine.loadFile]
    split
    · exact h.load _
    · exact h
  | execute steps => exact h.execute steps
  | resume inner steps =>
    simp only [Machine.perform]
    split
    next hrunning =>
      exact inOrder_runSteps _ steps h.control (h.running_iff.mp hrunning)
    next => exact h
  | executeDebug steps => exact h.executeDebug steps
  | reset => exact inOrder_reset m
  | collectGarbage =>
    -- A collection has nothing to do with the position of the machine.
    refine h.of_control_eq ?_
    simp only [Machine.perform, Machine.collectGarbage]
    split
    · rfl
    · dsimp only
      split <;> rfl
  | callBuiltin steps name arguments => exact h.callBuiltin steps name arguments
  | request request =>
    refine ⟨wellFormed_overlay h.control ?_ ?_, h.running_iff⟩ <;> cases request <;> rfl
  | surround host output input standardInput folder => exact h.of_control_eq rfl

/-! ### Sessions -/

theorem Untouched.inOrder (h : m.Untouched) : m.InOrder := by
  have hnew : ({} : Machine).InOrder :=
    { control :=
        { pc_le := Nat.le_refl 0
          loops := by simp [Machine.control]
          functions := by simp [Machine.control]
          scopes := Nat.le_refl 1
          calls := rfl }
      running_iff := by simp }
  exact hnew.of_control_eq h

/-- A session leaves the machine in order. -/
theorem InOrder.after (h : m.InOrder) (operations : List Operation) :
    (m.after operations).InOrder := by
  induction operations generalizing m with
  | nil => exact h
  | cons operation operations ih => exact ih (h.perform operation)

/-- The control state throughout a session. After any operations on a machine that was untouched,
the position is at most the length of the program, every loop begins with a `WHILE` and every
function with a `FUNC` of its name, a scope is open and the calls are counted; and the machine is
ready to execute exactly if a run is under way. The same holds of the machines that a run from here
or from the start of the program passes through, also after an instruction that fails. So every
instruction that is executed is one of the program. -/
theorem control_wellFormed_after {start : Machine} (h : start.Untouched)
    (operations : List Operation) :
    let m := start.after operations
    m.control.WellFormed ∧ (m.running = true ↔ m.status = .running) ∧
    ∀ (runner : Runner) (first last : Machine) (states : List Machine),
      first = m ∨ first = m.start → Trace runner first states last →
      (∀ state ∈ states, state.control.WellFormed ∧
        ∃ instruction, state.program[state.pc]? = some instruction) ∧
      last.control.WellFormed ∧
      (last.canStep = true → ((step runner).run last).2.control.WellFormed) := by
  intro m
  obtain ⟨hcontrol, hrunning⟩ := h.inOrder.after operations
  refine ⟨hcontrol, hrunning, fun runner first last states hfirst htrace => ?_⟩
  have hstart : first.control.WellFormed := by
    rcases hfirst with rfl | rfl
    · exact hcontrol
    · exact wellFormed_start hcontrol
  obtain ⟨hstates, hlast⟩ := wellFormed_trace htrace hstart
  refine ⟨fun state hmem => ⟨hstates state hmem, ?_⟩, hlast, fun hcan => ?_⟩
  · exact exists_instruction_of_canStep (htrace.canStep_of_mem hmem)
  · exact wellFormed_step runner hcan hlast

/-- Cuts a program off in a loop that has no end and in a call that never returns. -/
def cutOff : List Operation := [.load "FUNC f(x)\nPUSH true\nWHILE\nCALL f", .execute 4]

/-- A run that is cut off inside a loop of a function. -/
theorem control_wellFormed_after_cutOff :
    ({} : Machine).Untouched ∧
      (({} : Machine).after cutOff).loops = [2] ∧
      (({} : Machine).after cutOff).functions = [("f", 0)] ∧
      (({} : Machine).after cutOff).overlay.calls = ["f"] ∧
      (({} : Machine).after cutOff).control.WellFormed ∧
      (({} : Machine).after cutOff).status = .running := by
  have huntouched : ({} : Machine).Untouched := rfl
  have hrunning : (({} : Machine).after cutOff).running = true := by decide +kernel
  obtain ⟨hcontrol, hiff, -⟩ := control_wellFormed_after huntouched cutOff
  refine ⟨huntouched, ?_, ?_, ?_, hcontrol, hiff.mp hrunning⟩
  · decide +kernel
  · decide +kernel
  · decide +kernel

end Machine

end StackMachine
