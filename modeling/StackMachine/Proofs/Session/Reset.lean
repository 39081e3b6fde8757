import StackMachine.Proofs.Machine.Control
import StackMachine.Proofs.Machine.Past

/-!
# A reset erases history

After a reset a machine holds nothing, and of what it has been through only its past remains, which
no program sees that acquires nothing. So such a program runs after a reset as it does on a new
machine that has just loaded it.

## Main definitions

* `Machine.Blind`: a way to end a run that neither reads nor changes the past.
* `Machine.renewed`: a new machine in the place of another one.

## Main results

* `Machine.alike_runSteps`: runs from machines that are alike end alike.
* `Machine.alike_execute`: so do whole runs, native ones included.
* `Machine.execute_reset_eq_renewed`: a run after a reset is a run of a new machine.
-/

namespace StackMachine

namespace Machine

variable {ρ : Type} {m n : Machine}

/-! ### Ends of runs -/

/-- The function neither reads nor changes the past of a machine or what it holds. -/
def Blind (f : Machine → ρ × Machine) : Prop :=
  ∀ m : Machine, f m.withoutPast = ((f m).1, (f m).2.withoutPast) ∧
    (f m).2.resources = m.resources

/-- What neither reads nor changes the past keeps machines alike. -/
theorem Blind.alike {f : Machine → ρ × Machine} (hf : Blind f) (h : Alike ((), m) ((), n)) :
    Alike (f m) (f n) := by
  refine h.of_withoutPast fun machine _ hempty => ?_
  obtain ⟨hpast, hresources⟩ := hf machine
  rw [hpast]
  exact Alike.withoutPast (f machine).1 (hresources ▸ hempty)

/-- Reporting a fault does neither. -/
theorem blind_report (fault : Fault) : Blind fun m => ((), m.report fault) := by
  intro m
  simp only [report]
  split <;> exact ⟨rfl, rfl⟩

/-- The last flush does neither. -/
theorem blind_finish : Blind finish := by
  intro m
  rw [finish, finish]
  rw [show m.withoutPast.output = m.output from rfl]
  obtain ⟨reason | _, output⟩ := m.output.flush <;> exact ⟨rfl, rfl⟩

theorem blind_complete : Blind complete := by
  intro m
  obtain ⟨hpast, hresources⟩ := blind_finish m
  rw [complete, complete, hpast]
  generalize m.finish = finished at hresources ⊢
  obtain ⟨_ | fault, ended⟩ := finished
  · exact ⟨rfl, hresources⟩
  · obtain ⟨hreported, hresources'⟩ := blind_report fault ended
    exact ⟨congrArg _ (congrArg Prod.snd hreported), hresources'.trans hresources⟩

/-- Nor does the end by a fault. -/
theorem blind_fail (fault : Fault) : Blind fun m => ((), m.fail fault) := by
  intro m
  obtain ⟨hreported, hresources⟩ := blind_report fault m
  obtain ⟨hpast, hresources'⟩ := blind_finish (m.report fault)
  have hreport : m.withoutPast.report fault = (m.report fault).withoutPast :=
    congrArg Prod.snd hreported
  simp only [fail, hreport, hpast]
  rw [← show (m.report fault).resources = m.resources from hresources]
  generalize (m.report fault).finish = finished at hresources' ⊢
  obtain ⟨_ | second, ended⟩ := finished
  · exact ⟨rfl, hresources'⟩
  · obtain ⟨hagain, hresources''⟩ := blind_report second ended
    exact ⟨hagain, hresources''.trans hresources'⟩

/-- A line that is only written if a setting asks for it. -/
theorem trace_withoutPast (m : Machine) (text : String) :
    (if m.withoutPast.settings.traceNative then m.withoutPast.logLine ("[JIT] " ++ text)
        else m.withoutPast) =
      (if m.settings.traceNative then m.logLine ("[JIT] " ++ text) else m).withoutPast ∧
    (if m.settings.traceNative then m.logLine ("[JIT] " ++ text) else m).resources =
      m.resources := by
  rw [show m.withoutPast.settings = m.settings from rfl]
  split <;> exact ⟨rfl, rfl⟩

/-- Native code has no access to the past. -/
theorem blind_runNative : Blind runNative := by
  intro m
  unfold runNative
  dsimp only
  rw [show m.withoutPast.program = m.program from rfl,
    show m.withoutPast.platform = m.platform from rfl,
    show m.withoutPast.settings.nativeMode = m.settings.nativeMode from rfl]
  split
  · exact ⟨rfl, rfl⟩
  · split
    · exact ⟨rfl, rfl⟩
    next compiled _ =>
      obtain ⟨hpast, hresources⟩ := m.trace_withoutPast
        ("Compiled program (" ++ toString compiled.code.length ++ " bytes)")
      rw [hpast]
      generalize (if m.settings.traceNative = true then m.logLine _ else m) = traced
        at hresources ⊢
      rw [show traced.withoutPast.platform = traced.platform from rfl,
        show traced.withoutPast.output = traced.output from rfl]
      -- The code finds the same stream, so it gives the same result and writes the same.
      split
      next result output _ =>
        have hended : ∀ ran : Machine, ran.resources = m.resources →
            (some ran.withoutPast.complete.1, ran.withoutPast.complete.2) =
                (some ran.complete.1, ran.complete.2.withoutPast) ∧
              ran.complete.2.resources = m.resources := by
          intro ran hran
          obtain ⟨hcomplete, hcompleted⟩ := blind_complete ran
          rw [hcomplete]
          exact ⟨rfl, hcompleted.trans hran⟩
        rw [show traced.withoutPast.settings = traced.settings from rfl]
        -- Whether the result is noted depends on the settings alone.
        cases traced.settings.traceNative with
        | true =>
          exact hended
            { traced.logLine ("[JIT] " ++ ("Execution result: " ++ Text.writeInteger result.toInt))
              with output, lastResult := result } hresources
        | false => exact hended { traced with output, lastResult := result } hresources
      next => exact ⟨rfl, hresources⟩

/-! ### Whole runs -/

/-- A step keeps the program, so what holds of its instructions goes on to hold. -/
theorem AcquiresNothing.step {runner : Runner} {result : Except Interruption Unit} {after : Machine}
    (h : m.AcquiresNothing) (hcan : m.canStep = true)
    (hstep : (step runner).run m = (result, after)) : after.AcquiresNothing := by
  have hprogram := (frame_step runner hcan).1
  rw [hstep] at hprogram
  intro instruction hmem
  exact h instruction (hprogram ▸ hmem)

/-- A run of a program that acquires nothing ends alike whatever the past is. -/
theorem alike_runSteps (runner : Runner) (steps : Nat) (hprogram : m.AcquiresNothing)
    (h : Alike ((), m) ((), n)) : Alike (runSteps runner steps m) (runSteps runner steps n) := by
  induction steps generalizing m n with
  | zero =>
    have hcan : m.canStep = n.canStep := h.observe canStep fun _ => rfl
    rw [runSteps, runSteps, ← hcan]
    split
    · exact h.map _
    · exact blind_complete.alike h
  | succ steps ih =>
    have hcan : m.canStep = n.canStep := h.observe canStep fun _ => rfl
    rw [runSteps, runSteps, ← hcan]
    split
    next hgoes =>
      -- One step leads to machines that are alike; the rest of the run starts there.
      have hstep := alike_step runner hprogram h
      cases hfirst : (step runner).run m with
      | mk result after =>
        have hprogram' := hprogram.step hgoes hfirst
        rw [hfirst] at hstep
        generalize (step runner).run n = second at hstep ⊢
        obtain ⟨result', after'⟩ := second
        obtain rfl : result = result' := hstep.result
        have hafter : Alike ((), after) ((), after') := hstep.map ()
        obtain (fault | _) | _ := result
        · exact ((blind_fail fault).alike hafter).map _
        · exact hafter.map _
        · exact ih hprogram' hafter
    · exact blind_complete.alike h

/-- So does a whole run, also if it is native. -/
theorem alike_execute (steps : Nat) (hprogram : m.AcquiresNothing) (h : Alike ((), m) ((), n)) :
    Alike (m.execute steps) (n.execute steps) := by
  have hprograms : m.program = n.program := h.observe program fun _ => rfl
  have hdepth : m.depth = n.depth := h.observe depth fun _ => rfl
  have hnative := blind_runNative.alike h
  unfold execute executeWith innerRunner
  rw [← hprograms, ← hdepth]
  split
  · have hlogged : Blind fun m => ((), m.logLine "Internal Error: No program loaded") :=
      fun _ => ⟨rfl, rfl⟩
    exact (hlogged.alike h).map _
  · -- Where native code has not run the program, its instructions are executed.
    rcases runNative_cases m with ⟨after, hrun, hcontrol⟩ | ⟨ran, result, -, hrun⟩
    · rw [hrun] at hnative ⊢
      generalize n.runNative = second at hnative ⊢
      obtain ⟨outcome, after'⟩ := second
      obtain rfl : none = outcome := hnative.result
      have hstart : Blind fun m => ((), m.start) := fun _ => ⟨rfl, rfl⟩
      refine alike_runSteps _ steps ?_ (hstart.alike (hnative.map ()))
      rw [AcquiresNothing, show after.start.program = after.control.program from rfl, hcontrol]
      exact hprogram
    · rw [hrun] at hnative ⊢
      generalize n.runNative = second at hnative ⊢
      obtain ⟨outcome, after'⟩ := second
      obtain rfl : some ran.complete.1 = outcome := hnative.result
      exact hnative.map _

/-! ### New machines -/

theorem isEmpty_reset (m : Machine) : m.reset.resources.IsEmpty :=
  Resources.isEmpty_clear m.resources

/-- A new machine in the place of another one: it has the same settings and surroundings, is as
deep, and has its own allocator. -/
def renewed (m : Machine) (allocator : Allocator) : Machine :=
  { create m.settings with
    host := m.host
    platform := m.platform
    depth := m.depth
    allocator
    output := m.output
    input := m.input
    standardInput := m.standardInput
    folder := m.folder
    log := m.log }

/-- Two runs ended with the same result and left the same behind. -/
structure SameEnd (first second : Outcome Unit × Machine) : Prop where
  /-- They ended in the same way. -/
  outcome : first.1 = second.1
  /-- The same was written, accepted and refused. -/
  output : first.2.output = second.2.output
  /-- They ended at the same position. -/
  pc : first.2.pc = second.2.pc
  /-- The same values are on the stack. -/
  stack : first.2.stack = second.2.stack
  /-- The variables have the same values. -/
  bindings : first.2.bindings = second.2.bindings
  /-- The same functions are defined. -/
  functions : first.2.functions = second.2.functions
  /-- As many scopes are open. -/
  scopes : first.2.scopes = second.2.scopes
  /-- The same loops are being executed. -/
  loops : first.2.loops = second.2.loops
  /-- The same calls are in progress. -/
  calls : first.2.overlay.calls = second.2.overlay.calls
  /-- Native code gave the same result. -/
  lastResult : first.2.lastResult = second.2.lastResult
  /-- The machines are at the same point of their life. -/
  status : first.2.status = second.2.status
  /-- The same input is left. -/
  input : first.2.input = second.2.input
  /-- So is the standard input. -/
  standardInput : first.2.standardInput = second.2.standardInput
  /-- The files are the same. -/
  folder : first.2.folder = second.2.folder
  /-- So are the diagnostics. -/
  log : first.2.log = second.2.log

/-- What ends alike ends the same. -/
theorem sameEnd_of_alike {first second : Outcome Unit × Machine} (h : Alike first second) :
    SameEnd first second where
  outcome := h.result
  output := h.observe Machine.output fun _ => rfl
  pc := h.observe Machine.pc fun _ => rfl
  stack := h.observe Machine.stack fun _ => rfl
  bindings := h.observe Machine.bindings fun _ => rfl
  functions := h.observe Machine.functions fun _ => rfl
  scopes := h.observe Machine.scopes fun _ => rfl
  loops := h.observe Machine.loops fun _ => rfl
  calls := h.observe (fun machine => machine.overlay.calls) fun _ => rfl
  lastResult := h.observe Machine.lastResult fun _ => rfl
  status := h.observe Machine.status fun _ => rfl
  input := h.observe Machine.input fun _ => rfl
  standardInput := h.observe Machine.standardInput fun _ => rfl
  folder := h.observe Machine.folder fun _ => rfl
  log := h.observe Machine.log fun _ => rfl

/-- After a reset, whatever has happened before, a program that acquires nothing runs as it does on
a new machine that has just loaded it. -/
theorem execute_reset_eq_renewed {source : String} (allocator : Allocator) (steps : Nat)
    (hprogram : m.program = Program.ofSource source) (hloaded : m.program ≠ [])
    (hacquires : ∀ instruction ∈ m.program, instruction.acquires = false) :
    ∃ loaded, (m.renewed allocator).load source = (.ok m.program.length, loaded) ∧
      SameEnd (m.reset.execute steps) (loaded.execute steps) := by
  have hload : (m.renewed allocator).load source =
      (.ok m.program.length, { m.renewed allocator with program := m.program }.reset) := by
    rw [load, ← hprogram, if_neg (by simpa using hloaded)]
  refine ⟨_, hload, sameEnd_of_alike (alike_execute steps hacquires ?_)⟩
  -- Both machines were reset, with the same program and in the same surroundings.
  exact ⟨rfl, rfl, isEmpty_reset _, isEmpty_reset _⟩

/-- A program that calls its own function in a loop without end, and collects garbage there. -/
def turningSource : String :=
  "FUNC f\nPUSH go\nWHILE\nGC_gc\nPRINT\nPUSH go\nCALL f\nEND"

/-- A machine that was paused in the loop with two calls in progress. It holds a file, and its
tables have handed out numbers before. -/
def turned : Machine :=
  { create {} with
    program := Program.ofSource turningSource
    pc := 5
    status := .running
    running := true
    lastResult := 7
    stack := [.int 6, .int 6]
    bindings := [("x", .bool true)]
    scopes := 4
    functions := [("f", 0)]
    loops := [2]
    collector := { nextHandle := 5, counts := { collections := 3, collected := 4 } }
    objects := { next := 3 }
    files := { entries := [(1000, { place := .folder, mode := .ofText "r" })], next := 1001 }
    overlay := { debugging := true, breakpoints := [{ line := 6, pc := 5 }], calls := ["f", "f"],
                 callDepth := 2 }
    resumePc := some 5 }

/-- A program that was run once does the same after a reset as on a new machine. -/
theorem execute_reset_eq_renewed_turned :
    (turned.program = Program.ofSource turningSource ∧ turned.program ≠ [] ∧
        ∀ instruction ∈ turned.program, instruction.acquires = false) ∧
      ∃ loaded, (turned.renewed turned.allocator).load turningSource =
          (.ok turned.program.length, loaded) ∧
        SameEnd (turned.reset.execute 40) (loaded.execute 40) :=
  have hloaded : turned.program ≠ [] := by decide +kernel
  have hacquires : ∀ instruction ∈ turned.program, instruction.acquires = false := by
    decide +kernel
  ⟨⟨rfl, hloaded, hacquires⟩,
    execute_reset_eq_renewed turned.allocator 40 rfl hloaded hacquires⟩

end Machine

end StackMachine
