import StackMachine.Proofs.Debug.Session
import StackMachine.Proofs.Native.Correctness

/-!
# Debugging is transparent

However a program is debugged, it does what it does without the overlay. If a run without the
overlay ends, then so do the calls that run to the next pause, after finitely many pauses. They end
with the same result and in the same machine, apart from what the overlay was asked for and from
one line on the output for each pause.

## Main results

* `Machine.execute_asked`: a run that ignores the overlay, whatever the overlay was asked for.
* `Machine.debugCall_eq_execute`: the calls to run to the next pause against one run without them.
-/

namespace StackMachine.Machine

/-- Without native mode, what the overlay was asked for does not matter to a run to the end. -/
theorem execute_asked {m : Machine} (hprogram : m.program ≠ [])
    (hmode : m.settings.nativeMode.attempts = false) (haccepts : m.output.Accepts) {steps : Nat}
    (hended : (m.execute steps).1 ≠ .unfinished) (requests : List Overlay.Request) :
    ∃ w : View, (m.asked requests).execute steps =
        ((m.execute steps).1, (m.execute steps).2.under w) ∧
      w.Follows [] (m.execute steps).2 := by
  rw [execute_eq_runSteps hprogram hmode] at hended ⊢
  have hserved : (requests.foldl Overlay.serve m.overlay).during m.start =
      requests.foldl Overlay.serve m.overlay := Overlay.during_foldl_serve rfl requests
  have hasked : (m.asked requests).execute steps = runSteps (m.innerRunner steps) steps
      (m.start.under ⟨requests.foldl Overlay.serve m.overlay, m.resumePc, m.output⟩) := by
    rw [under_of_during hserved]
    exact execute_eq_runSteps (m := m.asked requests) hprogram hmode steps
  rw [hasked]
  exact runSteps_under (View.Follows.of_accepts (m := m.start) haccepts _ _) hended

/-- A program that is loaded and run to its end, against the same program debugged: whatever the
breakpoints are and whatever the overlay is asked for before each call, some calls pause, each at
another instruction of the run, and the next one ends as the run does. -/
theorem debugCall_eq_execute (m : Machine) {program : Program} (hprogram : program ≠ [])
    (hmode : m.settings.nativeMode.attempts = false) (haccepts : m.output.Accepts) {steps : Nat}
    (hended : ({ m with program }.reset.execute steps).1 ≠ .unfinished)
    (requests : Nat → List Overlay.Request) :
    let loaded := { m with program }.reset
    let plain := loaded.execute steps
    ∃ (paused : List Machine) (view : View),
      paused.Sublist (visited (loaded.innerRunner steps) steps loaded.start) ∧
      PausesAt steps requests loaded paused ∧
      debugCall steps requests paused.length loaded = (plain.1.ended, plain.2.under view) ∧
      view.output.accepted = announced paused plain.2.output.accepted := by
  intro loaded plain
  by_cases hactive : (loaded.asked (requests 0)).overlay.isActive = true
  · -- The overlay looks at every instruction.
    have hplain : plain = runSteps (loaded.innerRunner steps) steps loaded.start :=
      execute_eq_runSteps (m := loaded) hprogram hmode steps
    have hcalls : PausesThenEnds steps (fun i => requests (i + 1))
        ((loaded.asked (requests 0)).executeDebug steps) []
        ((loaded.overlay.called (requests 0)).pausesAmong (fun i => requests (i + 1))
          (visited (loaded.innerRunner steps) steps loaded.start)) plain :=
      hplain ▸ pausesThenEnds_executeDebug (m := loaded) rfl rfl haccepts rfl requests hactive steps
    obtain ⟨w, hend, hfollows⟩ := hcalls.debugCall_ends requests hended
    exact ⟨_, w, Overlay.pausesAmong_sublist _ _ _, hcalls.pausesAt, hend, hfollows.accepted⟩
  · -- The overlay has nothing to do, and the first call is a run to the end.
    obtain ⟨w, hexecute, hfollows⟩ := execute_asked (m := loaded) hprogram hmode haccepts hended
      (requests 0)
    refine ⟨[], w, List.nil_sublist _, ?_, ?_, hfollows.accepted⟩
    · intro k hk
      simp at hk
    · rw [List.length_nil, debugCall, executeDebug_of_inactive hactive rfl, hexecute]

/-- Prints a text and then fails. -/
def printsThenFails : Program :=
  [{ opcode := .push, operands := [], literal := some (.str "a"), line := 1 },
    { opcode := .print, operands := [], line := 2 },
    { opcode := .pop, operands := [], line := 3 }]

/-- A machine with a breakpoint that goes away and one that is not heeded. -/
def watched : Machine :=
  { overlay := { breakpoints :=
      [{ line := 2, pc := 1, temporary := true }, { line := 3, pc := 2, enabled := false }] } }

/-- A program that prints and then fails does so with a pause in between. -/
theorem debugCall_eq_execute_printsThenFails :
    ({ watched with program := printsThenFails }.reset.execute 3).1 =
      .failed (.onLine (.underflow "POP") 3) ∧
    ∃ (paused : List Machine) (view : View),
      debugCall 3 (fun _ => [.stepOver]) paused.length
          { watched with program := printsThenFails }.reset =
        (.failed (.onLine (.underflow "POP") 3),
          ({ watched with program := printsThenFails }.reset.execute 3).2.under view) ∧
      view.output.accepted = announced paused "a\n" := by
  have hprogram : printsThenFails ≠ [] := List.cons_ne_nil _ _
  have houtcome : ({ watched with program := printsThenFails }.reset.execute 3).1 =
      .failed (.onLine (.underflow "POP") 3) := rfl
  have houtput : ({ watched with program := printsThenFails }.reset.execute 3).2.output.accepted =
      "a\n" := by decide +kernel
  have hended : ({ watched with program := printsThenFails }.reset.execute 3).1 ≠ .unfinished := by
    simp [houtcome]
  obtain ⟨paused, view, -, -, hend, haccepted⟩ :=
    debugCall_eq_execute watched hprogram rfl (fun _ _ _ => rfl) hended fun _ => [.stepOver]
  rw [houtcome] at hend
  rw [houtput] at haccepted
  exact ⟨houtcome, paused, view, hend, haccepted⟩

end StackMachine.Machine
