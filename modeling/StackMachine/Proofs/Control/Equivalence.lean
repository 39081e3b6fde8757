import StackMachine.Proofs.Control.Progress

/-!
# The flat machine implements structured control flow

For a machine that starts at the beginning of a structured program with no loop on its stack, the
structured meaning and the run in steps have the same endings. The stack of loops holds the active
loops at every point of the run, whether the run ends or not.

## Main definitions

* `Ending`: what can be seen of a run that has ended.

## Main results

* `Structured.flat_iff_structured`: the equivalence, the stack of loops at every point and at the
  end, and the number of times that a loop executes its beginning and its end.
-/

namespace StackMachine

open Machine (Steps)

variable {runner : Runner}

/-- What can be seen of a run that has ended: its result, its output, its stack and its
variables. -/
structure Ending where
  /-- Why it failed, if it did. -/
  fault : Option Fault
  /-- The output stream. -/
  output : Sink
  /-- The operand stack. -/
  stack : List Value
  /-- The variables. -/
  bindings : Variables

/-- The ending of a run in steps. -/
def Ending.of? : Outcome Unit × Machine → Option Ending
  | (.done (), m) => some ⟨none, m.output, m.stack, m.bindings⟩
  | (.failed fault, m) => some ⟨some fault, m.output, m.stack, m.bindings⟩
  | (.unfinished, _) => none

/-- A run that has an ending is finished. -/
theorem Ending.ne_unfinished {ended : Outcome Unit × Machine} {ending : Ending}
    (h : Ending.of? ended = some ending) : ended.1 ≠ .unfinished := by
  obtain ⟨outcome, m⟩ := ended
  rintro rfl
  cases h

/-- The ending of a structured run. Outside all loops no break leaves a program. -/
def Exit.ending? : Exit → Machine → Option Ending
  | .done, m => Ending.of? m.complete
  | .left, _ => none
  | .failed fault, m => Ending.of? (.failed fault, m.fail fault)

/-- Where a machine comes to its end does not show in the ending. -/
theorem Ending.of?_complete_moved (m : Machine) (pc : Nat) (loops : List Nat) :
    Ending.of? (m.moved pc loops).complete = Ending.of? m.complete := by
  have houtput : (m.moved pc loops).output = m.output := rfl
  simp only [Machine.complete, Machine.finish, houtput]
  cases m.output.flush with
  | mk result output => cases result <;> rfl

/-- A run that fails shows the fault, and what the stack and the variables were. -/
theorem Ending.of?_fail (m : Machine) (fault : Fault) :
    Ending.of? (.failed fault, m.fail fault) =
      some ⟨some fault, m.output.flush.2, m.stack, m.bindings⟩ := by
  obtain ⟨log, hreport⟩ := m.report_frame fault
  simp only [Machine.fail, hreport, Machine.finish]
  cases m.output.flush with
  | mk result output => cases result <;> rfl

namespace Structured

/-- Outside all loops the machine is about to execute the whole program. -/
theorem at_start {s : Structured} {m : Machine} (hprogram : m.program = s.flatten)
    (hrunning : m.running = true) : s.At 0 [] m := by
  refine ⟨?_, hrunning, by simp⟩
  rw [hprogram]
  exact List.prefix_rfl

/-- Behind the whole program nothing is left to execute. -/
theorem canStep_behind {s : Structured} {m after : Machine} (hprogram : m.program = s.flatten)
    (hcontrol : after.control = m.control) : (after.moved (0 + s.size) []).canStep = false := by
  rw [Bool.eq_false_iff]
  intro hcan
  have hlt := (Machine.canStep_iff.mp hcan).2
  rw [Machine.moved_program, Machine.program_of_control hcontrol, hprogram, length_flatten,
    Machine.moved_pc, Nat.zero_add] at hlt
  exact absurd hlt (Nat.lt_irrefl _)

theorem complete_loops {m : Machine} (h : m.complete.1 = .done ()) :
    m.complete.2.loops = m.loops := by
  have hloops : m.finish.2.loops = m.loops := by
    simp only [Machine.finish]
    split <;> rfl
  rw [Machine.complete] at h ⊢
  split at h
  next hfinish => rw [← hloops, hfinish]
  next => cases h

/-- A run of a whole program is in it, with the active loops on the stack, or behind it. If it
stops, the program has the same ending. -/
theorem progress_whole {s : Structured} {m last : Machine} {positions : List Nat}
    (hprogram : m.program = s.flatten) (hrunning : m.running = true)
    (hsteps : Steps runner (m.moved 0 []) positions last) :
    last.loops = s.active 0 positions.getLast? last.pc ∧
      ∀ ended, Machine.Stops runner last ended →
        (ended.1 = .done () → ended.2.loops = []) ∧
        ∃ exit after, Runs runner false s m exit after ∧ exit.ending? after = Ending.of? ended := by
  have houtside : ∀ p ∈ (none : Option Nat), p < 0 ∨ 0 + s.size ≤ p := by simp
  cases progress s (at_start hprogram hrunning) houtside hsteps with
  | within low high canStep stack failing =>
    rw [Option.or_none, List.append_nil] at stack
    refine ⟨stack, fun ended hstops => ?_⟩
    cases hstops with
    | complete hcan =>
      rw [canStep] at hcan
      cases hcan
    | fault _ hstep =>
      obtain ⟨final, rfl, hfailed⟩ := failing _ _ hstep
      refine ⟨by simp, _, final, hfailed, ?_⟩
      rw [Exit.ending?, Ending.of?_fail, Ending.of?_fail]
      rfl
  | @done inside more after _ runs range steps =>
    -- Behind the whole program no step is possible, so the run is there and nowhere later.
    have hcan := canStep_behind hprogram runs.control_eq
    obtain ⟨rfl, rfl⟩ := steps.eq_of_not_canStep hcan
    refine ⟨(active_eq_nil _ (.inr (Nat.le_refl _))).symm, fun ended hstops => ?_⟩
    cases hstops with
    | complete =>
      exact ⟨complete_loops, .done, after, runs, (Ending.of?_complete_moved ..).symm⟩
    | fault hcan' =>
      rw [hcan] at hcan'
      cases hcan'
  -- Outside all loops no break can leave the program.
  | left _ around => cases around

/-- A structured run of a whole program is a run that stops with the same ending. -/
theorem stops_of_runs {s : Structured} {m after : Machine} {exit : Exit} {ending : Ending}
    (hprogram : m.program = s.flatten) (hrunning : m.running = true)
    (h : Runs runner false s m exit after) (hending : exit.ending? after = some ending) :
    ∃ positions last ended, Steps runner (m.moved 0 []) positions last ∧
      Machine.Stops runner last ended ∧ Ending.of? ended = some ending := by
  have hreached := h.reached rfl (at_start hprogram hrunning) (.inl rfl)
  cases exit with
  | done =>
    obtain ⟨positions, hsteps, -⟩ := hreached
    refine ⟨positions, _, _, hsteps, .complete (canStep_behind hprogram h.control_eq), ?_⟩
    rw [Ending.of?_complete_moved]
    exact hending
  | left =>
    obtain ⟨_, _, _, _, hloops, -⟩ := hreached
    cases hloops
  | failed fault =>
    obtain ⟨positions, last, hsteps, hcan, hstep⟩ := hreached
    refine ⟨positions, last, _, hsteps, .fault hcan hstep, ?_⟩
    rw [← hending, Exit.ending?, Ending.of?_fail, Ending.of?_fail]
    rfl

/-- On the flat form of a structured program the machine does what the structured meaning says.
Their endings are the same; at every point of the run, whether it ends or not, the stack of loops
holds exactly the active loops, and it is empty when the run ends well; and a loop of the program
that makes so many rounds without a break executes its `WHILE` once more than that and its `END` as
often. -/
theorem flat_iff_structured (runner : Runner) (s : Structured) (m : Machine)
    (hprogram : m.program = s.flatten) (hpc : m.pc = 0) (hloops : m.loops = [])
    (hrunning : m.running = true) :
    (∀ ending, (∃ steps, Ending.of? (m.runSteps runner steps) = some ending) ↔
      ∃ exit after, Runs runner false s m exit after ∧ exit.ending? after = some ending) ∧
    (∀ positions last, Steps runner m positions last →
      last.loops = s.active 0 positions.getLast? last.pc) ∧
    (∀ steps, (m.runSteps runner steps).1 = .done () → (m.runSteps runner steps).2.loops = []) ∧
    (∀ opening body closing rounds start (here after : Machine),
      (loop opening body closing).flatten <+: s.flatten.drop start → here.program = m.program →
      here.running = true → here.pc = start → here.loops.head? ≠ some start →
      Iterates runner body rounds here after →
      ∃ positions, Steps runner here positions
          (after.moved (start + (loop opening body closing).size) here.loops) ∧
        positions.count start = rounds + 1 ∧
        positions.count (start + 1 + body.size) = rounds) := by
  have hmoved : m.moved 0 [] = m := by
    rw [← hpc, ← hloops]
    rfl
  refine ⟨fun ending => ⟨?_, ?_⟩, ?_, ?_, ?_⟩
  -- A run of the machine that ends follows the structure to its end.
  · rintro ⟨steps, hending⟩
    have hne : (m.runSteps runner steps).1 ≠ .unfinished := Ending.ne_unfinished hending
    obtain ⟨positions, last, hsteps, hstops⟩ := Machine.exists_steps_of_runSteps hne
    rw [← hmoved] at hsteps
    obtain ⟨-, exit, after, hruns, hexit⟩ :=
      (progress_whole hprogram hrunning hsteps).2 _ hstops
    exact ⟨exit, after, hruns, hexit.trans hending⟩
  -- A structured run is executed step by step, with one step more for the end.
  · rintro ⟨exit, after, hruns, hending⟩
    obtain ⟨positions, last, ended, hsteps, hstops, hended⟩ :=
      stops_of_runs hprogram hrunning hruns hending
    rw [hmoved] at hsteps
    refine ⟨positions.length + 1, ?_⟩
    rw [Machine.runSteps_of_steps hsteps, Machine.runSteps_of_stops hstops]
    exact hended
  · intro positions last hsteps
    rw [← hmoved] at hsteps
    exact (progress_whole hprogram hrunning hsteps).1
  · intro steps hdone
    have hne : (m.runSteps runner steps).1 ≠ .unfinished := by
      rw [hdone]
      simp
    obtain ⟨positions, last, hsteps, hstops⟩ := Machine.exists_steps_of_runSteps hne
    rw [← hmoved] at hsteps
    exact ((progress_whole hprogram hrunning hsteps).2 _ hstops).1 hdone
  · intro opening body closing rounds start here after hcode hsame hhere hat hfresh hrounds
    subst hat
    rw [← hprogram, ← hsame] at hcode
    exact hrounds.steps hcode hhere hfresh (.inl rfl)

/-- A loop that makes one round, with a conditional in its body that breaks out of nothing. -/
def turnsOnce : Structured :=
  .seq (.simple { opcode := .push, operands := [], literal := some (.int 1), line := 1 } rfl)
    (.loop { line := 2 }
      (.seq (.simple { opcode := .push, operands := [], literal := some (.int 0), line := 3 } rfl)
        (.seq (.ifEnd { line := 4 } (.leave { line := 5 }) { line := 6 })
          (.simple { opcode := .push, operands := [], literal := some (.int 0), line := 7 } rfl)))
      { line := 8 })

/-- The machine at the beginning of the loop that makes one round. -/
def turning : Machine := { program := turnsOnce.flatten, running := true }

theorem flat_iff_structured_turning :
    (turning.runSteps (fun m => (.unfinished, m)) 10).1 = .done () ∧
      (turning.runSteps (fun m => (.unfinished, m)) 10).2.loops = [] := by
  have hdone : (turning.runSteps (fun m => (.unfinished, m)) 10).1 = .done () := by
    decide +kernel
  obtain ⟨-, -, hempty, -⟩ :=
    flat_iff_structured (fun m => (.unfinished, m)) turnsOnce turning rfl rfl rfl rfl
  exact ⟨hdone, hempty 10 hdone⟩

end Structured

end StackMachine
