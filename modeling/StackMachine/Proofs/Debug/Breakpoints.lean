import StackMachine.Proofs.Debug.Session

/-!
# Where a run pauses

Stepping pauses at every instruction that is executed, the one that fails included. Breakpoints on
source lines pause at every instruction executed on one of these lines, each time it is executed,
and at no other. A breakpoint also holds the position of the first instruction on its line, or one
that no instruction has; neither adds a pause elsewhere.

## Main definitions

* `Breakpoint.onLine`: the breakpoint that is added for a source line.
* `Machine.marked`: the overlay with breakpoints on lines.

## Main results

* `Overlay.pausesAmong_eq_filter`: where the calls pause if the same is asked before each of them.
* `Machine.hits_onLine`: a breakpoint on a line is hit exactly on that line.
* `Machine.debugCall_pauses_exactly`: the pauses of stepping and of breakpoints on lines.
-/

namespace StackMachine

/-! ### The same request before each call -/

namespace Overlay

/-- With breakpoints that do not go away, a look changes nothing. -/
theorem checkPause_of_lasting (overlay : Overlay)
    (h : ∀ breakpoint ∈ overlay.breakpoints, breakpoint.temporary = false) (pc line : Nat)
    (bindings : Variables) :
    overlay.checkPause pc line bindings =
      (overlay.breakpoints.any (fun breakpoint => breakpoint.hits pc line bindings) ||
        overlay.commandPauses, overlay) := by
  unfold checkPause
  split
  next index hindex =>
    obtain ⟨hlength, hhits, -⟩ := List.findIdx?_eq_some_iff_getElem.mp hindex
    have hmem : overlay.breakpoints[index] ∈ overlay.breakpoints := List.getElem_mem hlength
    have hany : overlay.breakpoints.any (fun breakpoint => breakpoint.hits pc line bindings) =
        true := List.any_eq_true.mpr ⟨_, hmem, hhits⟩
    have hkept : overlay.breakpoints[index]?.any (fun breakpoint => breakpoint.temporary) =
        false := by
      rw [List.getElem?_eq_getElem hlength]
      exact h _ hmem
    rw [hany, hkept]
    rfl
  next hindex =>
    have hany : overlay.breakpoints.any (fun breakpoint => breakpoint.hits pc line bindings) =
        false := by
      rw [List.any_eq_false]
      simpa using hindex
    rw [hany, Bool.false_or]

/-- The request leaves the breakpoints alone, and says whether to pause at every instruction or
only at breakpoints. -/
structure Request.IsCommand (request : Request) (pauses : Bool) : Prop where
  /-- The breakpoints stay. -/
  breakpoints : ∀ overlay : Overlay, (overlay.serve request).breakpoints = overlay.breakpoints
  /-- The command is the same at every instruction of the next call. -/
  pauses_eq : ∀ (overlay : Overlay) (m : Machine),
    ((overlay.called [request]).during m).commandPauses = pauses

theorem isCommand_step : Request.step.IsCommand true := ⟨fun _ => rfl, fun _ _ => rfl⟩

theorem isCommand_resume : Request.resume.IsCommand false := ⟨fun _ => rfl, fun _ _ => rfl⟩

/-- Where the calls pause if the breakpoints do not go away and the same command is given before
each call. -/
theorem pausesAmong_eq_filter {request : Request} {pauses : Bool} {breakpoints : List Breakpoint}
    {overlay : Overlay} (hcommand : request.IsCommand pauses)
    (hlasting : ∀ breakpoint ∈ breakpoints, breakpoint.temporary = false)
    (hbreakpoints : overlay.breakpoints = breakpoints) (machines : List Machine) :
    (overlay.called [request]).pausesAmong (fun _ => [request]) machines =
      machines.filter fun m =>
        breakpoints.any (fun breakpoint => breakpoint.hits m.pc m.currentLine m.bindings) ||
          pauses := by
  induction machines generalizing overlay with
  | nil => rfl
  | cons m later ih =>
    -- The look sees the breakpoints and the command, and leaves the overlay as it is.
    have hcalled : ((overlay.called [request]).during m).breakpoints = breakpoints :=
      (hcommand.breakpoints overlay).trans hbreakpoints
    have hlook := checkPause_of_lasting ((overlay.called [request]).during m)
      (by rw [hcalled]; exact hlasting) m.pc m.currentLine m.bindings
    rw [hcalled, hcommand.pauses_eq] at hlook
    rw [pausesAmong, hlook, List.filter_cons]
    cases hstops : (breakpoints.any fun breakpoint =>
        breakpoint.hits m.pc m.currentLine m.bindings) || pauses with
    | false =>
      simp only [Bool.false_eq_true, if_false]
      exact ih hbreakpoints
    | true =>
      simp only [if_true]
      exact congrArg (m :: ·) (ih (by rw [← hcalled]; rfl))

end Overlay

/-! ### Breakpoints on lines -/

/-- The breakpoint that is added for a source line of a program. -/
def Breakpoint.onLine (program : Program) (line : Nat) : Breakpoint :=
  { line, pc := (program.onLine? line).getD Machine.nowhere }

namespace Machine

variable {runner : Runner} {m : Machine}

/-- The overlay with breakpoints on lines added. -/
def marked (m : Machine) (lines : List Nat) : Overlay :=
  { m.overlay with
    breakpoints := m.overlay.breakpoints ++ lines.map (Breakpoint.onLine m.program) }

/-- Breakpoints are added one after the other, and nothing else changes. -/
theorem foldl_addBreakpoint (m : Machine) (lines : List Nat) :
    lines.foldl (fun m line => m.addBreakpoint line none) m =
      { m with overlay := m.marked lines } := by
  induction lines generalizing m with
  | nil => simp [marked]
  | cons line lines ih =>
    rw [List.foldl_cons, ih]
    simp only [addBreakpoint, marked, Overlay.add, List.append_assoc, List.map_cons]
    rfl

/-- The current line is that of the next instruction. -/
theorem currentLine_of_getElem? {instruction : Instruction}
    (h : m.program[m.pc]? = some instruction) : m.currentLine = instruction.line := by
  rw [currentLine, h]
  rfl

/-- A breakpoint on a line is hit on that line only: the position it holds has the same line, or
none. -/
theorem hits_onLine (hcan : m.canStep = true) (hlength : m.program.length ≤ nowhere) (line : Nat) :
    (Breakpoint.onLine m.program line).hits m.pc m.currentLine m.bindings =
      decide (m.currentLine = line) := by
  obtain ⟨-, hpc⟩ := canStep_iff.mp hcan
  -- The breakpoint is also hit at its position, which is why that position matters.
  have hposition : (Breakpoint.onLine m.program line).pc = m.pc → m.currentLine = line := by
    intro heq
    rw [Breakpoint.onLine] at heq
    dsimp only at heq
    cases hfound : m.program.onLine? line with
    | none =>
      -- No instruction is that far into the program.
      rw [hfound, Option.getD_none] at heq
      omega
    | some position =>
      rw [hfound, Option.getD_some] at heq
      obtain ⟨hbound, hline, -⟩ := List.findIdx?_eq_some_iff_getElem.mp hfound
      subst heq
      rw [currentLine_of_getElem? (List.getElem?_eq_getElem hbound)]
      simpa using hline
  by_cases hline : m.currentLine = line
  · simp [Breakpoint.hits, Breakpoint.onLine, hline]
  · have hpc' : (Breakpoint.onLine m.program line).pc ≠ m.pc := mt hposition hline
    have hline' : (Breakpoint.onLine m.program line).line ≠ m.currentLine := Ne.symm hline
    simp [Breakpoint.hits, hpc', hline, hline']

/-- One of the breakpoints is hit if the current line is one of theirs. -/
theorem any_hits_onLine (hcan : m.canStep = true) (hlength : m.program.length ≤ nowhere)
    (lines : List Nat) :
    (lines.map (Breakpoint.onLine m.program)).any
        (fun breakpoint => breakpoint.hits m.pc m.currentLine m.bindings) =
      decide (m.currentLine ∈ lines) := by
  induction lines with
  | nil => simp
  | cons line lines ih =>
    rw [List.map_cons, List.any_cons, hits_onLine hcan hlength, ih]
    simp

/-- The machines in which a run executes an instruction all hold the program. -/
theorem program_of_mem_visited (haccepts : m.output.Accepts) {steps : Nat} {visit : Machine}
    (h : visit ∈ visited runner steps m) : visit.canStep = true ∧ visit.program = m.program := by
  induction steps generalizing m with
  | zero => cases h
  | succ steps ih =>
    by_cases hcan : m.canStep = true
    swap
    · rw [visited_of_not_canStep (by simpa using hcan)] at h
      cases h
    obtain ⟨w, -, -, -, hfollows, hframe⟩ :=
      step_under runner (View.Follows.of_accepts haccepts m.overlay m.resumePc)
    rcases hstep : (step runner).run m with ⟨e | _, next⟩
    · rw [visited_of_error hcan hstep, List.mem_singleton] at h
      subst h
      exact ⟨hcan, rfl⟩
    · rw [hstep] at hfollows hframe
      rw [visited_of_ok hcan hstep, List.mem_cons] at h
      rcases h with rfl | h
      · exact ⟨hcan, rfl⟩
      · obtain ⟨hcan', hprogram⟩ := ih hfollows.accepts_plain h
        exact ⟨hcan', hprogram.trans (congrArg Prod.fst hframe)⟩

/-! ### Pauses of a whole run -/

/-- The pauses by the positions and lines that they report. -/
theorem PausesAt.at_position {steps : Nat} {requests : Nat → List Overlay.Request}
    {paused : List Machine} {positions : List (Nat × Nat)} (h : PausesAt steps requests m paused)
    (hpositions : paused.map (fun visit => (visit.pc, visit.currentLine)) = positions) {k : Nat}
    (hk : k < positions.length) :
    (debugCall steps requests k m).1 = .done (.paused positions[k].1 positions[k].2) := by
  subst hpositions
  rw [h k (by simpa using hk), List.getElem_map]

/-- A call that ends the run does not pause. -/
theorem ended_ne_paused (outcome : Outcome Unit) (pc line : Nat) :
    outcome.ended ≠ .done (.paused pc line) := by
  cases outcome <;> simp [Outcome.ended]

/-- A program that is loaded comes with a reset and changes nothing else. -/
theorem load_eq_ok {loaded : Machine} {source : String} {count : Nat}
    (h : m.load source = (.ok count, loaded)) :
    loaded = { m with program := Program.ofSource source }.reset ∧
      loaded.program.length = count := by
  unfold load at h
  dsimp only at h
  split at h
  · cases h
  · cases h
    exact ⟨rfl, rfl⟩

/-- The calls of a program that is debugged with the same command before each call. -/
theorem pausesAt_of_command {overlay : Overlay} {request : Overlay.Request} {pauses : Bool}
    {hit : List Machine} {steps : Nat} (hcommand : request.IsCommand pauses)
    (hlasting : ∀ breakpoint ∈ overlay.breakpoints, breakpoint.temporary = false)
    (hstatus : m.status = .idle) (hresume : m.resumePc = none) (haccepts : m.output.Accepts)
    (hduring : overlay.during m = overlay)
    (hactive : ({ m with overlay }.asked [request]).overlay.isActive = true)
    (hhit : (visited (m.innerRunner steps) steps m.start).filter (fun visit =>
      overlay.breakpoints.any
          (fun breakpoint => breakpoint.hits visit.pc visit.currentLine visit.bindings) ||
        pauses) = hit) :
    PausesAt steps (fun _ => [request]) { m with overlay } hit ∧
      ((runSteps (m.innerRunner steps) steps m.start).1 ≠ .unfinished →
        (debugCall steps (fun _ => [request]) hit.length { m with overlay }).1 =
          (runSteps (m.innerRunner steps) steps m.start).1.ended) := by
  have hcalls := pausesThenEnds_executeDebug hstatus hresume haccepts hduring (fun _ => [request])
    hactive steps
  rw [Overlay.pausesAmong_eq_filter hcommand hlasting rfl, hhit] at hcalls
  refine ⟨hcalls.pausesAt, fun hended => ?_⟩
  obtain ⟨w, hend, -⟩ := hcalls.debugCall_ends (fun _ => [request]) hended
  rw [hend]

section Fresh

variable (hstatus : m.status = .idle) (hresume : m.resumePc = none) (haccepts : m.output.Accepts)
  (hclear : m.overlay.breakpoints = [])

include hstatus hresume haccepts hclear

/-- Stepping pauses at every instruction that is executed, and then ends as the run does. -/
theorem pausesAt_step (steps : Nat) :
    PausesAt steps (fun _ => [.step]) m (visited (m.innerRunner steps) steps m.start) ∧
      ((runSteps (m.innerRunner steps) steps m.start).1 ≠ .unfinished →
        (debugCall steps (fun _ => [.step])
          (visited (m.innerRunner steps) steps m.start).length m).1 =
            (runSteps (m.innerRunner steps) steps m.start).1.ended) := by
  have hactive : ({ m with overlay := m.overlay }.asked [.step]).overlay.isActive = true := by
    simp [asked, Overlay.serve, Overlay.step, Overlay.isActive]
  exact pausesAt_of_command (m := m) Overlay.isCommand_step (by simp [hclear]) hstatus hresume
    haccepts rfl hactive (by simp)

/-- Breakpoints on lines pause where an instruction on one of them is executed, and nowhere else. -/
theorem pausesAt_resume (hlength : m.program.length ≤ nowhere) (lines : List Nat) (steps : Nat) :
    PausesAt steps (fun _ => [.resume]) { m with overlay := m.marked lines }
        ((visited (m.innerRunner steps) steps m.start).filter fun visit =>
          visit.currentLine ∈ lines) ∧
      ((runSteps (m.innerRunner steps) steps m.start).1 ≠ .unfinished → ∀ pc line,
        (debugCall steps (fun _ => [.resume])
          ((visited (m.innerRunner steps) steps m.start).filter fun visit =>
            visit.currentLine ∈ lines).length { m with overlay := m.marked lines }).1 ≠
              .done (.paused pc line)) := by
  by_cases hactive : ({ m with overlay := m.marked lines }.asked [.resume]).overlay.isActive = true
  · have hmarked : (m.marked lines).breakpoints = lines.map (Breakpoint.onLine m.program) := by
      rw [marked, hclear, List.nil_append]
    have hlasting : ∀ breakpoint ∈ (m.marked lines).breakpoints, breakpoint.temporary = false := by
      simp [hmarked, Breakpoint.onLine]
    -- The breakpoints of the lines are hit exactly on the lines.
    have hhit : (visited (m.innerRunner steps) steps m.start).filter (fun visit =>
        (m.marked lines).breakpoints.any
            (fun breakpoint => breakpoint.hits visit.pc visit.currentLine visit.bindings) ||
          false) =
        (visited (m.innerRunner steps) steps m.start).filter fun visit =>
          visit.currentLine ∈ lines := by
      refine List.filter_congr fun visit hmem => ?_
      obtain ⟨hcan, hprogram⟩ := program_of_mem_visited (m := m.start) haccepts hmem
      have hprogram' : visit.program = m.program := hprogram
      rw [Bool.or_false, hmarked, ← hprogram']
      exact any_hits_onLine hcan (hprogram' ▸ hlength) lines
    obtain ⟨hpauses, hends⟩ := pausesAt_of_command Overlay.isCommand_resume hlasting hstatus
      hresume haccepts rfl hactive hhit
    refine ⟨hpauses, fun hended pc line => ?_⟩
    rw [hends hended]
    exact ended_ne_paused _ pc line
  · -- Without breakpoints the overlay has nothing to do, and the first call runs to the end.
    have hlines : lines = [] := by
      by_contra hlines
      exact hactive (by
        simp [asked, marked, Overlay.serve, Overlay.resume, Overlay.isActive, hlines])
    subst hlines
    refine ⟨fun k hk => by simp at hk, fun _ pc line => ?_⟩
    simp only [List.not_mem_nil, decide_false, List.filter_false, List.length_nil]
    rw [debugCall, executeDebug_of_inactive hactive hstatus]
    exact ended_ne_paused _ pc line

end Fresh

/-- The pauses of a program loaded from a text, for any number of steps: those of stepping, and
those of breakpoints on lines. No pause is on a line without instruction. -/
theorem debugCall_pauses_exactly {loaded : Machine} {source : String} {count : Nat}
    (hload : m.load source = (.ok count, loaded)) (hcount : count ≤ nowhere)
    (haccepts : m.output.Accepts) (hclear : m.overlay.breakpoints = []) (lines : List Nat)
    (steps : Nat) :
    let executed := visited (loaded.innerRunner steps) steps loaded.start
    let ended := runSteps (loaded.innerRunner steps) steps loaded.start
    let marked := lines.foldl (fun m line => m.addBreakpoint line none) loaded
    let hit := executed.filter fun visit => visit.currentLine ∈ lines
    (PausesAt steps (fun _ => [.step]) loaded executed ∧
      (ended.1 ≠ .unfinished →
        (debugCall steps (fun _ => [.step]) executed.length loaded).1 = ended.1.ended)) ∧
    (PausesAt steps (fun _ => [.resume]) marked hit ∧
      (ended.1 ≠ .unfinished → ∀ pc line,
        (debugCall steps (fun _ => [.resume]) hit.length marked).1 ≠ .done (.paused pc line))) ∧
    ∀ visit ∈ hit, ∃ instruction ∈ loaded.program, instruction.line = visit.currentLine := by
  intro executed ended marked hit
  obtain ⟨hloaded, hlength⟩ := load_eq_ok hload
  have hstatus : loaded.status = .idle := by rw [hloaded]; rfl
  have hresume : loaded.resumePc = none := by rw [hloaded]; rfl
  have houtput : loaded.output.Accepts := by rw [hloaded]; exact haccepts
  have hclear' : loaded.overlay.breakpoints = [] := by rw [hloaded]; exact hclear
  refine ⟨pausesAt_step hstatus hresume houtput hclear' steps, ?_, ?_⟩
  · rw [show marked = _ from foldl_addBreakpoint loaded lines]
    exact pausesAt_resume hstatus hresume houtput hclear' (hlength ▸ hcount) lines steps
  · intro visit hmem
    obtain ⟨hcan, hprogram⟩ := program_of_mem_visited (m := loaded.start) houtput
      (List.mem_of_mem_filter hmem)
    obtain ⟨-, hpc⟩ := canStep_iff.mp hcan
    refine ⟨visit.program[visit.pc], ?_, ?_⟩
    · exact hprogram ▸ List.getElem_mem hpc
    · exact (currentLine_of_getElem? (List.getElem?_eq_getElem hpc)).symm

/-- A program that jumps from its second line to the same line. -/
def selfJump : Machine := (({} : Machine).load "LABEL a\nGOTO a").2

/-- The line to which the program comes back is paused at every time. -/
theorem debugCall_pauses_exactly_selfJump :
    ({} : Machine).load "LABEL a\nGOTO a" = (.ok 2, selfJump) ∧
    ∀ k < 3, (debugCall 4 (fun _ => [.resume]) k
      ([2, 7].foldl (fun m line => m.addBreakpoint line none) selfJump)).1 =
        .done (.paused 1 2) := by
  have hload : ({} : Machine).load "LABEL a\nGOTO a" = (.ok 2, selfJump) := Prod.ext rfl rfl
  obtain ⟨-, ⟨hpauses, -⟩, -⟩ :=
    debugCall_pauses_exactly hload (by decide) (fun _ _ _ => rfl) rfl [2, 7] 4
  have hpositions : ((visited (selfJump.innerRunner 4) 4 selfJump.start).filter
      fun visit => visit.currentLine ∈ [2, 7]).map (fun visit => (visit.pc, visit.currentLine)) =
        List.replicate 3 (1, 2) := by decide +kernel
  refine ⟨hload, fun k hk => ?_⟩
  have hpause := hpauses.at_position hpositions (by simpa using hk)
  rwa [List.getElem_replicate] at hpause

end Machine

end StackMachine
