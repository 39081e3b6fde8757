import StackMachine.Debug.Console
import StackMachine.Proofs.Debug.Breakpoints
import StackMachine.Proofs.Debug.Endings

/-!
# The console and the machine it drives

The console keeps two notes about its machine: whether the program has ended, and the line at which
it is paused. After any commands both notes are true. Five commands run the program; all others
leave the machine alone except for its breakpoints, and once the program has ended so do all.

The console's output is kept in memory, so the stream of the machine accepts everything. On a
stream that refuses the announcement of a pause the console would take the program for ended while
the machine is still running.

## Main definitions

* `Console.processAll`: carries out command lines one after the other.
* `Console.runWords`: the words of the commands that run the program.
* `Console.Consistent`: what the console notes agrees with the machine.
* `Console.Inspects`: what a command does that runs nothing.
* `Machine.SameRun`: only what the overlay was asked for differs.

## Main results

* `Machine.pauses_or_halts`: a call that ends has paused before an instruction, or the machine has
  halted.
* `Console.Consistent.process`: a command keeps the console consistent.
* `Console.inspects_process`: a command that runs nothing changes only breakpoints.
* `Console.consistent_after_commands`: the console is consistent after any commands.
-/

namespace StackMachine

/-! ### Calls on a stream that accepts everything -/

namespace Machine

variable {runner : Runner} {m last after : Machine} {steps : Nat} {outcome : Outcome DebugEvent}

/-- A text without instructions is not loaded. -/
theorem program_ne_nil_of_load {source : String} {count : Nat}
    (h : m.load source = (.ok count, after)) : after.program ≠ [] := by
  unfold load at h
  dsimp only at h
  split at h
  next => cases h
  next hsome =>
    cases h
    exact fun hempty => hsome (List.isEmpty_iff.mpr hempty)

theorem program_entered (m : Machine) : m.entered.program = m.program := by
  rw [entered]
  split <;> rfl

theorem output_entered (m : Machine) : m.entered.output = m.output := by
  rw [entered]
  split <;> rfl

/-- No instruction closes the stream. -/
theorem Passes.accepts (h : Passes runner m last) (haccepts : m.output.Accepts) :
    last.output.Accepts := by
  induction h with
  | refl m => exact haccepts
  | @step m next last _ _ hstep _ ih =>
    -- A machine follows its own view, so the rule for steps under the overlay applies to it.
    obtain ⟨w, -, -, -, hfollows, -⟩ := step_under runner
      (View.Follows.of_accepts (m := { m with resumePc := none }) haccepts m.overlay none)
    rw [hstep] at hfollows
    exact ih hfollows.accepts_plain

/-- The machine is paused before an instruction of its program. -/
structure PausedBefore (m : Machine) (instruction : Instruction) : Prop where
  /-- The instruction is the next one. -/
  at_pc : m.program[m.pc]? = some instruction
  /-- The run has not ended. -/
  running : m.status = .running

/-- A call that ends pauses before an instruction and names its line, or it halts the machine. -/
theorem pauses_or_halts (hloaded : m.program ≠ []) (haccepts : m.output.Accepts)
    (hcall : m.executeDebug steps = (outcome, after)) (hended : outcome ≠ .unfinished) :
    (∃ instruction, after.PausedBefore instruction ∧
      outcome = .done (.paused after.pc instruction.line) ∧
      after.program = m.program ∧ after.output.Accepts) ∨
    (after.status = .halted ∧ ∀ pc line, outcome ≠ .done (.paused pc line)) := by
  rcases m.executeDebug_cases steps with ⟨hhalted, hrun⟩ | ⟨-, hrun⟩ | ⟨hentered, hrun⟩
  · cases hcall.symm.trans hrun
    exact .inr ⟨hhalted, by simp⟩
  · -- The overlay has nothing to do, and the program runs to its end.
    cases hcall.symm.trans hrun
    have hexecute : (m.execute steps).1 ≠ .unfinished := fun hunfinished =>
      hended (by rw [hunfinished]; rfl)
    exact .inr ⟨(hasHalted_execute hloaded hexecute).1, ended_ne_paused _⟩
  · rw [hrun] at hcall
    have hfinished : (debugSteps (m.innerRunner steps) steps m.entered).1 ≠ .unfinished := by
      rwa [hcall]
    obtain ⟨last, hpasses, hends⟩ := exists_endsAt_of_debugSteps hfinished
    rw [hcall] at hends
    have hopen : last.output.Accepts := hpasses.accepts (m.output_entered ▸ haccepts)
    obtain ⟨hprogram, hstatus⟩ := hpasses.frame
    generalize hresult : (outcome, after) = result at hends
    cases hends with
    | paused hcan _ hput =>
      cases hresult
      obtain ⟨instruction, hat⟩ := exists_instruction_of_canStep hcan
      refine .inl ⟨instruction, ⟨hat, hstatus.trans hentered⟩, ?_, ?_, ?_⟩
      · rw [currentLine_of_getElem? hat]
      · exact hprogram.trans m.program_entered
      · rw [hopen.putLine_eq] at hput
        cases hput
        exact hopen.putAll _
    | refused _ _ hput =>
      -- A stream that accepts everything accepts the announcement.
      rw [hopen.putLine_eq] at hput
      cases hput
    | fault =>
      cases hresult
      exact .inr ⟨(hasHalted_fail _ _).1, by simp⟩
    | complete =>
      cases hresult
      exact .inr ⟨(hasHalted_complete last).1, ended_ne_paused _⟩

/-- Two machines differ in nothing but what their overlays were asked for. -/
def SameRun (m after : Machine) : Prop :=
  ∃ pending breakpoints stepDepth stepping, after =
    { m with overlay := { m.overlay with pending, breakpoints, stepDepth, stepping } }

theorem SameRun.trans {middle : Machine} (h : m.SameRun middle) (h' : middle.SameRun after) :
    m.SameRun after := by
  obtain ⟨_, _, _, _, rfl⟩ := h
  obtain ⟨pending, breakpoints, stepDepth, stepping, rfl⟩ := h'
  exact ⟨pending, breakpoints, stepDepth, stepping, rfl⟩

end Machine

namespace Console

variable {console after opened : Console} {machine : Machine} {steps : Nat} {words : List String}
  {line text : String}

/-! ### Commands -/

/-- Carries out command lines, each with its number of steps. There is no result if one of the
numbers does not suffice. -/
def processAll (console : Console) (commands : List (Nat × String)) : Option Console :=
  commands.foldlM (fun console command => console.process command.1 command.2) console

/-- The words of the commands that run the program. -/
def runWords : List String := ["s", "step", "n", "next", "i", "into", "o", "out", "c", "continue"]

/-- The word that says which command a line gives. -/
def commandWord (line : String) : Option String :=
  ((Text.words line.toList).map String.ofList).head?

/-- The console after a command that runs nothing: it may have other breakpoints, stop attending,
and show another text. -/
def Inspects (console after : Console) : Prop :=
  ∃ breakpoints attending status, after =
    { console with
      machine := { console.machine with
        overlay := { console.machine.overlay with breakpoints } }
      attending
      status }

theorem inspects_refl (console : Console) : console.Inspects console := ⟨_, _, _, rfl⟩

/-- Showing another text runs nothing. -/
theorem inspects_say (console : Console) (status : String) :
    console.Inspects (console.say status) := ⟨_, _, _, rfl⟩

/-- Whichever of two commands is carried out. -/
theorem inspects_ite {p : Prop} [Decidable p] {other : Console} (h : console.Inspects after)
    (hother : console.Inspects other) : console.Inspects (if p then after else other) := by
  split
  · exact h
  · exact hother

/-- Setting a breakpoint runs nothing, with a condition or without. -/
theorem inspects_setBreakpoint (console : Console) (line : Nat) (condition : Option String) :
    console.Inspects (console.setBreakpoint line condition) := by
  cases condition <;> exact ⟨_, _, _, rfl⟩

/-- A command on a line runs nothing if it does not on any line. Without a line it says how it is
used. -/
theorem inspects_onLine {edit : Console → Nat → Console}
    (h : ∀ line, console.Inspects (edit console line)) (words : List String) (usage : String) :
    console.Inspects (console.onLine words usage edit) := by
  rw [onLine]
  split
  · exact h _
  · exact inspects_say console _

/-- A command that does not run the program. -/
theorem inspects_obey (console : Console) (steps : Nat)
    (h : ∀ head, words.head? = some head → head ∉ runWords) :
    ∃ after, console.obey steps words = some after ∧ console.Inspects after := by
  rw [obey]
  cases hhead : words.head? with
  | none => exact ⟨console, rfl, inspects_refl console⟩
  | some head =>
    have hnot := h head hhead
    simp only [runWords, List.mem_cons, List.not_mem_nil, or_false, not_or] at hnot
    dsimp only
    -- None of the five commands that run the program is meant.
    iterate 5 rw [if_neg (by simp [hnot])]
    refine ⟨_, rfl, ?_⟩
    -- The four commands that edit breakpoints come first; the others only show something.
    refine inspects_ite (inspects_onLine (fun line => inspects_setBreakpoint _ line _) words _) ?_
    refine inspects_ite (inspects_onLine (fun line => ⟨_, _, _, rfl⟩) words _) ?_
    refine inspects_ite (inspects_onLine (fun line => ⟨_, _, _, rfl⟩) words _) ?_
    refine inspects_ite (inspects_onLine (fun line => ⟨_, _, _, rfl⟩) words _) ?_
    refine inspects_ite (inspects_say console _) (inspects_ite ?_ ?_)
    · cases words[1]? with
      | none => exact inspects_say console _
      | some name =>
        dsimp only
        cases Entries.find? name console.machine.bindings <;> exact inspects_say console _
    refine inspects_ite (inspects_say console _) (inspects_ite (inspects_say console _) ?_)
    refine inspects_ite (inspects_say console _) (inspects_ite ⟨_, _, _, rfl⟩ ?_)
    exact inspects_ite (inspects_say console _) (inspects_say console _)

/-- A command that runs the program first asks the overlay for a kind of pause, which leaves the
breakpoints and the calls in progress alone. -/
theorem obey_of_mem_runWords (console : Console) (steps : Nat) {head : String}
    (hhead : words.head? = some head) (h : head ∈ runWords) :
    ∃ order : Overlay → Overlay,
      (∀ overlay, ∃ pending stepDepth stepping,
        order overlay = { overlay with pending, stepDepth, stepping }) ∧
      console.obey steps words = console.command steps order := by
  rw [obey, hhead]
  dsimp only
  by_cases hstep : head ∈ ["s", "step"]
  · exact ⟨Overlay.step, fun _ => ⟨_, _, _, rfl⟩, if_pos hstep⟩
  rw [if_neg hstep]
  by_cases hover : head ∈ ["n", "next"]
  · exact ⟨Overlay.stepOver, fun _ => ⟨_, _, _, rfl⟩, if_pos hover⟩
  rw [if_neg hover]
  by_cases hinto : head ∈ ["i", "into"]
  · exact ⟨Overlay.stepInto, fun _ => ⟨_, _, _, rfl⟩, if_pos hinto⟩
  rw [if_neg hinto]
  by_cases hout : head ∈ ["o", "out"]
  · exact ⟨Overlay.stepOut, fun _ => ⟨_, _, _, rfl⟩, if_pos hout⟩
  rw [if_neg hout]
  have hresume : head ∈ ["c", "continue"] := by
    simp_all [runWords]
  exact ⟨Overlay.resume, fun _ => ⟨_, _, _, rfl⟩, if_pos hresume⟩

/-! ### Consistency -/

/-- What the console notes about the program agrees with the machine. -/
structure Consistent (console : Console) : Prop where
  /-- The program has ended exactly if the machine has halted. -/
  finished_iff : console.finished = true ↔ console.machine.status = .halted
  /-- The program is paused exactly if the machine is running. -/
  paused_iff : console.pausedLine.isSome = true ↔ console.machine.status = .running
  /-- The line of the pause is that of the next instruction. -/
  line_at_pc : ∀ line, console.pausedLine = some line → ∃ instruction,
    console.machine.program[console.machine.pc]? = some instruction ∧ instruction.line = line
  /-- Until the end there is a program, and its output is accepted. -/
  ready : console.finished = false →
    console.machine.program ≠ [] ∧ console.machine.output.Accepts

/-- A console is consistent when a program was loaded into it. -/
theorem consistent_ofSource (hopen : ofSource machine text = .ok opened)
    (haccepts : machine.output.Accepts) : opened.Consistent := by
  rw [ofSource] at hopen
  split at hopen
  next count loaded hload =>
    cases hopen
    obtain ⟨hloaded, -⟩ := Machine.load_eq_ok hload
    have hstatus : loaded.status = .idle := by
      rw [hloaded]
      rfl
    constructor
    · simp [hstatus]
    · simp [hstatus]
    · simp
    · refine fun _ => ⟨Machine.program_ne_nil_of_load hload, ?_⟩
      rw [hloaded]
      exact haccepts
  next => cases hopen

/-- Asking the overlay for something leaves the console consistent. -/
theorem Consistent.asked (h : console.Consistent) (overlay : Overlay) :
    Consistent { console with machine := { console.machine with overlay } } :=
  ⟨h.finished_iff, h.paused_iff, h.line_at_pc, h.ready⟩

/-- An inspection keeps a console consistent. -/
theorem Consistent.inspects (h : console.Consistent) (hinspects : console.Inspects after) :
    after.Consistent := by
  obtain ⟨breakpoints, attending, status, rfl⟩ := hinspects
  exact ⟨h.finished_iff, h.paused_iff, h.line_at_pc, h.ready⟩

/-- So does a run to the next pause or to the end. -/
theorem Consistent.resume (h : console.Consistent) (hresume : console.resume steps = some after) :
    after.Consistent := by
  rw [Console.resume] at hresume
  split at hresume
  next =>
    cases hresume
    exact h.inspects (inspects_say console _)
  next hgoing =>
    have hfinished : console.finished = false := by simpa using hgoing
    obtain ⟨hloaded, haccepts⟩ := h.ready hfinished
    generalize hcall : console.machine.executeDebug steps = result at hresume
    obtain ⟨outcome, ran⟩ := result
    have hended : outcome ≠ .unfinished := by
      rintro rfl
      cases hresume
    rcases Machine.pauses_or_halts hloaded haccepts hcall hended with
      ⟨instruction, hpaused, rfl, hprogram, hopen⟩ | ⟨hhalted, hnot⟩
    · -- The console notes the line that the pause names, which is that of the instruction.
      cases hresume
      constructor
      · simp [hfinished, hpaused.running]
      · simp [hpaused.running]
      · intro line hline
        cases hline
        exact ⟨instruction, hpaused.at_pc, rfl⟩
      · exact fun _ => ⟨hprogram ▸ hloaded, hopen⟩
    · -- Whether the program ended well or failed, the console notes its end.
      have hnotes : after.machine = ran ∧ after.pausedLine = none ∧ after.finished = true := by
        split at hresume
        next heq => exact absurd (Prod.mk.inj heq).1 (hnot _ _)
        next heq => cases heq; cases hresume; exact ⟨rfl, rfl, rfl⟩
        next heq => cases heq; cases hresume; exact ⟨rfl, rfl, rfl⟩
        next => cases hresume
      obtain ⟨rfl, hline, hend⟩ := hnotes
      constructor
      · simp [hend, hhalted]
      · simp [hline, hhalted]
      · simp [hline]
      · simp [hend]

/-- So does a command. -/
theorem Consistent.process (h : console.Consistent)
    (hprocess : console.process steps line = some after) : after.Consistent := by
  rw [Console.process] at hprocess
  by_cases hruns : ∃ word ∈ runWords, commandWord line = some word
  · obtain ⟨word, hword, hhead⟩ := hruns
    obtain ⟨order, -, hobey⟩ := obey_of_mem_runWords console steps hhead hword
    rw [hobey, command] at hprocess
    exact (h.asked _).resume hprocess
  · obtain ⟨other, hobey, hinspects⟩ := inspects_obey console steps
      fun word hhead hword => hruns ⟨word, hword, hhead⟩
    cases hprocess.symm.trans hobey
    exact h.inspects hinspects

/-- And so do any number of commands. -/
theorem Consistent.processAll (h : console.Consistent) {commands : List (Nat × String)}
    (hprocess : console.processAll commands = some after) : after.Consistent := by
  induction commands generalizing console with
  | nil =>
    cases hprocess
    exact h
  | cons command commands ih =>
    obtain ⟨next, hnext, hrest⟩ := Option.bind_eq_some_iff.mp hprocess
    exact ih (h.process hnext) hrest

/-! ### After the end -/

/-- Once the program has ended, a command leaves the machine alone. -/
theorem process_of_finished (h : console.finished = true) (steps : Nat) (line : String) :
    ∃ after, console.process steps line = some after ∧ after.finished = true ∧
      console.machine.SameRun after.machine := by
  by_cases hruns : ∃ word ∈ runWords, commandWord line = some word
  · obtain ⟨word, hword, hhead⟩ := hruns
    obtain ⟨order, horder, hobey⟩ := obey_of_mem_runWords console steps hhead hword
    obtain ⟨pending, stepDepth, stepping, hserved⟩ := horder console.machine.overlay
    -- The overlay has got its order, but the machine is not called any more.
    have hended : console.process steps line = some ({ console with
        machine := { console.machine with overlay := order console.machine.overlay } }.say
          "Program has ended.") := by
      rw [Console.process, hobey, command, Console.resume, if_pos h]
    rw [hserved] at hended
    exact ⟨_, hended, h, _, _, _, _, rfl⟩
  · obtain ⟨other, hobey, hinspects⟩ := inspects_obey console steps
      fun word hhead hword => hruns ⟨word, hword, hhead⟩
    obtain ⟨breakpoints, attending, status, rfl⟩ := hinspects
    exact ⟨_, hobey, h, _, _, _, _, rfl⟩

/-- After the end, commands have a result and the run stays where it ended. -/
theorem processAll_of_finished (h : console.finished = true) (commands : List (Nat × String)) :
    ∃ after, console.processAll commands = some after ∧ after.finished = true ∧
      console.machine.SameRun after.machine := by
  induction commands generalizing console with
  | nil => exact ⟨console, rfl, h, _, _, _, _, rfl⟩
  | cons command commands ih =>
    obtain ⟨next, hnext, hfinished, hsame⟩ := process_of_finished h command.1 command.2
    obtain ⟨after, hafter, hend, hrest⟩ := ih hfinished
    exact ⟨after, Option.bind_eq_some_iff.mpr ⟨next, hnext, hafter⟩, hend, hsame.trans hrest⟩

/-! ### Consoles in use -/

/-- The console after breakpoints were set, in this order. -/
def setBreakpoints (console : Console) (breakpoints : List (Nat × Option String)) : Console :=
  breakpoints.foldl (fun console breakpoint => console.setBreakpoint breakpoint.1 breakpoint.2)
    console

theorem Consistent.setBreakpoints (h : console.Consistent)
    (breakpoints : List (Nat × Option String)) :
    (console.setBreakpoints breakpoints).Consistent := by
  induction breakpoints generalizing console with
  | nil => exact h
  | cons breakpoint breakpoints ih => exact ih (h.inspects (inspects_setBreakpoint console _ _))

/-- A console on any program, with any breakpoints set and after any commands whose runs end. The
console has noted the end exactly if the machine has halted, and a paused line exactly if the
machine is running; that line is the line of the next instruction. A command that does not run the
program has a result and changes nothing of the machine but its breakpoints. Once the program has
ended all commands have a result, the program stays ended, and nothing of the machine changes but
what the overlay is asked for. -/
theorem consistent_after_commands (hopen : ofSource machine text = .ok opened)
    (haccepts : machine.output.Accepts) (breakpoints : List (Nat × Option String))
    (commands : List (Nat × String))
    (hprocess : (opened.setBreakpoints breakpoints).processAll commands = some console) :
    (console.finished = true ↔ console.machine.status = .halted) ∧
    (console.pausedLine.isSome = true ↔ console.machine.status = .running) ∧
    (∀ line, console.pausedLine = some line → ∃ instruction,
      console.machine.program[console.machine.pc]? = some instruction ∧
        instruction.line = line) ∧
    (∀ steps line, (∀ word, commandWord line = some word → word ∉ runWords) →
      ∃ after, console.process steps line = some after ∧ ∃ edited,
        after.machine = { console.machine with
          overlay := { console.machine.overlay with breakpoints := edited } }) ∧
    (console.finished = true → ∀ more, ∃ after, console.processAll more = some after ∧
      after.finished = true ∧ console.machine.SameRun after.machine) := by
  have hconsistent : console.Consistent :=
    ((consistent_ofSource hopen haccepts).setBreakpoints breakpoints).processAll hprocess
  refine ⟨hconsistent.finished_iff, hconsistent.paused_iff, hconsistent.line_at_pc, ?_, ?_⟩
  · intro steps line hword
    obtain ⟨after, hobey, edited, attending, status, rfl⟩ := inspects_obey console steps hword
    exact ⟨_, hobey, edited, rfl⟩
  · exact fun hfinished more => processAll_of_finished hfinished more

/-- A console on a program that prints one number. -/
def printing : Console where
  machine := (({} : Machine).load "PUSH 1\nPRINT").2
  source := ["PUSH 1", "PRINT"]

/-- A program with a breakpoint is continued to it, inspected, and stepped to its end. -/
theorem consistent_after_commands_printing :
    ofSource {} "PUSH 1\nPRINT" = .ok printing ∧
    (∃ console, (printing.setBreakpoints [(2, none)]).processAll [(4, "c")] = some console ∧
      console.pausedLine = some 2 ∧ console.machine.status = .running) ∧
    ∃ console, (printing.setBreakpoints [(2, none)]).processAll
        [(4, "c"), (0, "p x"), (4, "s")] = some console ∧
      console.machine.status = .halted ∧
      ∃ after, console.processAll [(0, "c"), (0, "d 2")] = some after ∧
        console.machine.SameRun after.machine := by
  have hopen : ofSource {} "PUSH 1\nPRINT" = .ok printing := rfl
  have haccepts : ({} : Machine).output.Accepts := fun _ _ _ => rfl
  refine ⟨hopen, ?_, ?_⟩
  · have hline : ((printing.setBreakpoints [(2, none)]).processAll [(4, "c")]).map
        Console.pausedLine = some (some 2) := by decide +kernel
    obtain ⟨console, hprocess, hpaused⟩ := Option.map_eq_some_iff.mp hline
    obtain ⟨-, hiff, -⟩ := consistent_after_commands hopen haccepts [(2, none)] _ hprocess
    exact ⟨console, hprocess, hpaused, hiff.mp (by rw [hpaused]; rfl)⟩
  · have hend : ((printing.setBreakpoints [(2, none)]).processAll
        [(4, "c"), (0, "p x"), (4, "s")]).map Console.finished = some true := by decide +kernel
    obtain ⟨console, hprocess, hfinished⟩ := Option.map_eq_some_iff.mp hend
    obtain ⟨hiff, -, -, -, hafter⟩ :=
      consistent_after_commands hopen haccepts [(2, none)] _ hprocess
    obtain ⟨after, hmore, -, hsame⟩ := hafter hfinished [(0, "c"), (0, "d 2")]
    exact ⟨console, hprocess, hiff.mp hfinished, after, hmore, hsame⟩

end Console

end StackMachine
