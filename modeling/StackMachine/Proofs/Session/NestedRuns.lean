import StackMachine.Proofs.Control.Forward
import StackMachine.Proofs.Machine.Nesting

/-!
# Nested runs end

Files may run each other and themselves. Each machine that is started is one deeper than the one
that starts it, and a machine at the greatest depth starts none. If the programs in the files only
go forward, every run comes to its end: the depth bounds how far runs are nested, and the length of
a program bounds how many steps each of them takes.

## Main definitions

* `Folder.instructions`: the number of instructions in all files.
* `Folder.IsPlain`: the programs in the files have no loops, labels and functions.
* `Machine.MayStart`: from some state of its run, a machine could start another one.
* `Machine.Ends`: the run of a machine is bounded in depth and in steps, and ends.

## Main results

* `Machine.runSteps_enough`: a run that goes forward ends within as many steps as are left of its
  program, and more steps change nothing.
* `Machine.serves_runnerFor`: so do the machines that are started, at every depth.
* `Machine.nested_runs_end`: running a file ends, whatever files run each other.
-/

namespace StackMachine

/-! ### The programs in a folder -/

namespace Folder

variable {folder : Folder} {path source : String}

/-- The program in a file; there is none if the file is not a text. -/
def programIn (contents : ByteArray) : Program :=
  ((String.fromUTF8? contents).map Program.ofSource).getD []

/-- The number of instructions in all files. -/
def instructions (folder : Folder) : Nat :=
  Entries.total (fun contents => (programIn contents).length) folder.files

/-- The programs in the files have no loops, labels and functions. -/
def IsPlain (folder : Folder) : Prop :=
  ∀ entry ∈ folder.files, ∀ instruction ∈ programIn entry.2, instruction.isPlain = true

instance (folder : Folder) : Decidable folder.IsPlain :=
  inferInstanceAs (Decidable (∀ entry ∈ folder.files, ∀ instruction ∈ programIn entry.2,
    instruction.isPlain = true))

/-- What is read from a folder is the text of one of its files. -/
theorem exists_mem_of_readText (h : folder.readText path = .ok source) :
    ∃ entry ∈ folder.files, programIn entry.2 = Program.ofSource source := by
  rw [readText, read] at h
  split at h
  · cases h
  next contents hread =>
    split at hread
    · cases hread
    · cases hread
    next name _ =>
      cases hfound : folder.contents? name with
      | none => simp [hfound] at hread
      | some found =>
        simp only [hfound] at hread
        cases hread
        refine ⟨(name, contents), Entries.mem_of_find? hfound, ?_⟩
        split at h
        next text htext =>
          cases h
          simp only [programIn, htext, Option.map_some, Option.getD_some]
        · cases h

/-- No file has more instructions than all files together. -/
theorem length_programIn_le {entry : String × ByteArray} (h : entry ∈ folder.files) :
    (programIn entry.2).length ≤ folder.instructions := by
  rw [instructions]
  generalize folder.files = files at h
  induction files with
  | nil => cases h
  | cons first files ih =>
    have hcons : ∀ measure : ByteArray → Nat, Entries.total measure (first :: files) =
        measure first.2 + Entries.total measure files := fun _ => rfl
    rw [hcons]
    rcases List.mem_cons.mp h with rfl | hmem
    · omega
    · have hrest := ih hmem
      omega

end Folder

namespace Machine

variable {station : Nat × Folder} {runner other : Runner} {m loaded inner last : Machine}
  {path : String} {count steps more : Nat}

/-- A program that was loaded from such a folder goes forward. -/
theorem goesForward_of_loadFile (hplain : m.folder.IsPlain)
    (hload : m.loadFile path = (.ok count, loaded)) :
    loaded.GoesForward ∧ loaded.station = m.station ∧
      loaded.program.length ≤ m.folder.instructions := by
  obtain ⟨_, herror⟩ | ⟨source, hread, -, hok⟩ := m.loadFile_cases path
  · cases herror.symm.trans hload
  · cases hok.symm.trans hload
    obtain ⟨entry, hmem, hprogram⟩ := Folder.exists_mem_of_readText hread
    have hinstructions := hplain entry hmem
    have hlength := Folder.length_programIn_le hmem
    rw [hprogram] at hinstructions hlength
    exact ⟨⟨hinstructions, rfl, rfl, Nat.zero_le _⟩, rfl, hlength⟩

/-! ### Enough steps -/

theorem failed_ne_unfinished (fault : Fault) : (.failed fault : Outcome Unit) ≠ .unfinished := by
  intro h
  cases h

theorem complete_ne_unfinished (m : Machine) : m.complete.1 ≠ .unfinished := by
  rw [complete]
  rcases m.finish with ⟨_ | fault, ended⟩ <;>
  · intro h
    cases h

/-- A run that goes forward ends within as many steps as are left of its program. More steps change
nothing, and nor does another runner that does the same with the machines started. -/
theorem runSteps_enough (hserves : runner.Serves other station) (h : m.GoesForward)
    (hstation : m.station = station) (hsteps : m.program.length ≤ steps + m.pc)
    (hmore : m.program.length ≤ more + m.pc) :
    (runSteps runner steps m).1 ≠ .unfinished ∧
      (runSteps runner steps m).2.station = station ∧
      runSteps other more m = runSteps runner steps m := by
  induction steps generalizing m more with
  -- Nothing is left of the program.
  | zero =>
    have hcan : ¬m.canStep = true := fun hcan => by
      have := (canStep_iff.mp hcan).2
      omega
    obtain ⟨output, log, hcomplete⟩ := m.complete_frame
    rw [runSteps.eq_def, if_neg hcan, runSteps.eq_def, if_neg hcan]
    exact ⟨m.complete_ne_unfinished, hcomplete ▸ hstation, rfl⟩
  | succ steps ih =>
    by_cases hcan : m.canStep = true
    · have hlt := (canStep_iff.mp hcan).2
      -- There is an instruction left, so the other run has a step to make, too.
      obtain ⟨more, rfl⟩ : ∃ fewer, more = fewer + 1 := ⟨more - 1, by omega⟩
      have hsettled := settled_step hserves hstation
      rw [runSteps, if_pos hcan, runSteps, if_pos hcan,
        ← run_step_congr (hserves m hstation).1]
      cases hstep : (step runner).run m with
      | mk result next =>
        rw [hstep] at hsettled
        obtain ⟨hfinished, hnext⟩ := hsettled
        obtain (fault | _) | _ := result
        · obtain ⟨output, log, hfail⟩ := next.fail_frame fault
          refine ⟨failed_ne_unfinished _, ?_, rfl⟩
          dsimp only
          rw [hfail]
          exact hnext
        · exact absurd rfl hfinished
        · -- The step was one forward, so one step less is enough for the rest.
          obtain ⟨hforward, hprogram, hpc⟩ := h.step hcan hstep
          rw [← hprogram] at hsteps hmore
          exact ih hforward hnext (by omega) (by omega)
    · obtain ⟨output, log, hcomplete⟩ := m.complete_frame
      rw [runSteps.eq_def, if_neg hcan, runSteps.eq_def, if_neg hcan]
      exact ⟨m.complete_ne_unfinished, hcomplete ▸ hstation, rfl⟩

/-- The same of a whole run, which starts at the first instruction. -/
theorem executeWith_enough (hserves : runner.Serves other m.station) (h : m.GoesForward)
    (hsteps : m.program.length ≤ steps) (hmore : m.program.length ≤ more) :
    (executeWith runner steps m).1 ≠ .unfinished ∧
      (executeWith runner steps m).2.station = m.station ∧
      executeWith other more m = executeWith runner steps m := by
  rw [executeWith, executeWith]
  split
  · exact ⟨failed_ne_unfinished _, rfl, rfl⟩
  · obtain ⟨output, log, hrun | ⟨result, hrun⟩⟩ := m.runNative_frame
    · rw [hrun]
      dsimp only
      have hstart : ({ m with output, log } : Machine).start.GoesForward :=
        ⟨h.plain, h.loops, h.functions, Nat.zero_le _⟩
      exact runSteps_enough hserves hstart rfl hsteps hmore
    · rw [hrun]
      dsimp only
      obtain ⟨output', log', hcomplete⟩ :=
        ({ m with output, log, lastResult := result } : Machine).complete_frame
      exact ⟨complete_ne_unfinished _, by rw [hcomplete]; rfl, rfl⟩

/-- A machine that is started ends, if those end that it starts itself. -/
theorem serves_executeWith {folder : Folder} {depth : Nat} (hplain : folder.IsPlain)
    (hsteps : folder.instructions ≤ steps) (hmore : folder.instructions ≤ more)
    (hserves : runner.Serves other (depth + 1, folder)) :
    Runner.Serves (executeWith runner steps) (executeWith other more) (depth, folder) := by
  intro m hstation
  obtain ⟨rfl, rfl⟩ := Prod.mk.inj hstation
  have hinner : ∀ path count inner, m.child.loadFile path = (.ok count, inner) →
      (executeWith runner steps inner).1 ≠ .unfinished ∧
        (executeWith runner steps inner).2.station = (m.depth + 1, m.folder) ∧
        executeWith other more inner = executeWith runner steps inner := by
    intro path count inner hload
    obtain ⟨hforward, hstation', hlength⟩ := goesForward_of_loadFile (m := m.child) hplain hload
    have hchild : inner.station = (m.depth + 1, m.folder) := hstation'
    rw [← hchild] at hserves ⊢
    exact executeWith_enough hserves hforward (hlength.trans hsteps) (hlength.trans hmore)
  constructor
  · intro path count inner _ hload
    exact (hinner path count inner hload).2.2
  · intro path count inner _ hload
    obtain ⟨hfinished, hleft, -⟩ := hinner path count inner hload
    exact ⟨hfinished, congrArg Prod.snd hleft⟩

/-- At the greatest depth no machine is started, so any runner will do. -/
theorem serves_of_deep {folder : Folder} {depth : Nat} (hdeep : maxDepth ≤ depth) :
    runner.Serves other (depth, folder) := by
  intro m hstation
  have hdepth : m.depth = depth := congrArg Prod.fst hstation
  constructor
  · intro path count inner hless
    omega
  · intro path count inner hless
    omega

/-- The machines that are started end, whatever their depth. -/
theorem serves_runnerFor {folder : Folder} (hplain : folder.IsPlain)
    (hsteps : folder.instructions ≤ steps) (hmore : folder.instructions ≤ more) {levels depth : Nat}
    (hlevels : maxDepth ≤ depth + 1 + levels) :
    Runner.Serves (runnerFor steps levels) (runnerFor more levels) (depth, folder) := by
  -- The induction goes from the greatest depth upwards, as `runnerFor` does.
  induction levels generalizing depth with
  | zero =>
    exact serves_executeWith hplain hsteps hmore (serves_of_deep (by omega))
  | succ levels ih =>
    refine serves_executeWith hplain hsteps hmore (ih ?_)
    omega

/-- More steps than the folder has instructions make no difference for the programs that are
started. -/
theorem serves_innerRunner (hplain : m.folder.IsPlain) (hsteps : m.folder.instructions ≤ steps)
    (hmore : m.folder.instructions ≤ more) :
    Runner.Serves (m.innerRunner steps) (m.innerRunner more) m.station :=
  serves_runnerFor hplain hsteps hmore (by omega)

/-! ### The machines that take part -/

/-- From some state of its run, the machine could start another one by running a file. -/
def MayStart (steps : Nat) (m started : Machine) : Prop :=
  ∃ positions last path count, Steps (m.innerRunner steps) m.runNative.2.start positions last ∧
    last.depth < maxDepth ∧ last.child.loadFile path = (.ok count, started)

/-- The run of the machine is bounded in depth and in steps, and ends. So many instructions are in
the files. -/
structure Ends (instructions steps : Nat) (m : Machine) : Prop where
  /-- The machine is not deeper than allowed. -/
  depth_le : m.depth ≤ maxDepth
  /-- Its run ends. -/
  finished : (m.execute steps).1 ≠ .unfinished
  /-- More steps change nothing. -/
  stable : ∀ more, instructions ≤ more → m.execute more = m.execute steps
  /-- It takes at most as many steps as it has instructions, also if the last one fails. -/
  length_le : ∀ positions last, Steps (m.innerRunner steps) m.runNative.2.start positions last →
    positions.length ≤ m.program.length ∧
      (last.canStep = true → positions.length < m.program.length)
  /-- No other machines are run than those that it may start. -/
  runs_only : ∀ positions last, Steps (m.innerRunner steps) m.runNative.2.start positions last →
    ∀ other : Runner, (∀ started, m.MayStart steps started →
      other started = m.innerRunner steps started) →
    (step other).run last = (step (m.innerRunner steps)).run last
  /-- These are run as any machine is. -/
  runs : ∀ started, m.MayStart steps started → m.innerRunner steps started = started.execute steps

/-- The machine takes part in runs among the files of a folder: its program is in one of them. -/
structure TakesPart (folder : Folder) (m : Machine) : Prop where
  /-- It can reach the files. -/
  folder_eq : m.folder = folder
  /-- It is not deeper than allowed. -/
  depth_le : m.depth ≤ maxDepth
  /-- Its program goes forward. -/
  forward : m.GoesForward
  /-- The instructions of its program are in the files. -/
  length_le : m.program.length ≤ folder.instructions

variable {folder : Folder}

/-- A program that is loaded from the folder takes part. -/
theorem takesPart_of_loadFile (hplain : m.folder.IsPlain) (hdepth : m.depth ≤ maxDepth)
    (hload : m.loadFile path = (.ok count, loaded)) : loaded.TakesPart m.folder := by
  obtain ⟨hforward, hstation, hlength⟩ := goesForward_of_loadFile hplain hload
  obtain ⟨hdepths, hfolders⟩ := Prod.mk.inj hstation
  exact ⟨hfolders, hdepths ▸ hdepth, hforward, hlength⟩

namespace TakesPart

/-- The run starts from the first instruction, whether native code was tried before or not. -/
theorem start (h : m.TakesPart folder) :
    m.runNative.2.start.GoesForward ∧ m.runNative.2.start.station = m.station ∧
      m.runNative.2.start.program = m.program := by
  obtain ⟨output, log, hrun | ⟨result, hrun⟩⟩ := m.runNative_frame
  · rw [hrun]
    exact ⟨⟨h.forward.plain, h.forward.loops, h.forward.functions, Nat.zero_le _⟩, rfl, rfl⟩
  · obtain ⟨output', log', hcomplete⟩ :=
      ({ m with output, log, lastResult := result } : Machine).complete_frame
    rw [hrun]
    dsimp only
    rw [hcomplete]
    exact ⟨⟨h.forward.plain, h.forward.loops, h.forward.functions, Nat.zero_le _⟩, rfl, rfl⟩

theorem serves (h : m.TakesPart folder) (hplain : folder.IsPlain)
    (hsteps : folder.instructions ≤ steps) (hmore : folder.instructions ≤ more) :
    Runner.Serves (m.innerRunner steps) (m.innerRunner more) m.station := by
  obtain rfl := h.folder_eq
  exact serves_innerRunner hplain hsteps hmore

/-- The states of a run are all at its station. -/
theorem station_eq (h : m.TakesPart folder) (hplain : folder.IsPlain)
    (hsteps : folder.instructions ≤ steps) {positions : List Nat}
    (hrun : Steps (m.innerRunner steps) m.runNative.2.start positions last) :
    last.station = m.station := by
  have hserves := h.serves hplain hsteps hsteps
  have hstart := h.start.2.1
  generalize m.runNative.2.start = first at hrun hstart
  induction hrun with
  | refl => exact hstart
  | step _ hstep _ ih =>
    have hsettled := (settled_step hserves hstart).2
    rw [hstep] at hsettled
    exact ih hsettled

/-- What it starts takes part as well. -/
theorem of_mayStart (h : m.TakesPart folder) (hplain : folder.IsPlain)
    (hsteps : folder.instructions ≤ steps) (hstarts : m.MayStart steps inner) :
    inner.TakesPart folder ∧ inner.depth = m.depth + 1 := by
  obtain ⟨positions, last, path, count, hrun, hdepth, hload⟩ := hstarts
  obtain ⟨hdepths, hfolders⟩ := Prod.mk.inj (h.station_eq hplain hsteps hrun)
  have hfolder : last.child.folder = folder := hfolders.trans h.folder_eq
  have hinner := takesPart_of_loadFile (m := last.child) (hfolder ▸ hplain) hdepth hload
  rw [hfolder] at hinner
  refine ⟨hinner, ?_⟩
  obtain ⟨-, hstation, -⟩ := goesForward_of_loadFile (m := last.child) (hfolder ▸ hplain) hload
  exact (congrArg Prod.fst hstation).trans (congrArg (· + 1) hdepths)

/-- What it starts is executed. At the greatest depth the runners differ, but are never asked. -/
theorem innerRunner_eq_execute (h : m.TakesPart folder) (hplain : folder.IsPlain)
    (hsteps : folder.instructions ≤ steps) (hstarts : m.MayStart steps inner) :
    m.innerRunner steps inner = inner.execute steps := by
  obtain ⟨hinner, hdepth⟩ := h.of_mayStart hplain hsteps hstarts
  have hle := hinner.depth_le
  rw [execute, innerRunner, innerRunner, hdepth]
  cases hlevels : maxDepth - (m.depth + 1) with
  | zero =>
    have hnone : maxDepth - (m.depth + 1 + 1) = 0 := by omega
    rw [hnone]
    have hserves : Runner.Serves (runnerFor steps 0) (fun m => (.unfinished, m)) inner.station :=
      serves_of_deep (by omega)
    have hlength := hinner.length_le.trans hsteps
    exact (executeWith_enough hserves hinner.forward hlength hlength).2.2
  | succ levels =>
    have hfewer : maxDepth - (m.depth + 1 + 1) = levels := by omega
    rw [hfewer]
    rfl

/-- The runs that take part end. -/
theorem ends (h : m.TakesPart folder) (hplain : folder.IsPlain)
    (hsteps : folder.instructions ≤ steps) : m.Ends folder.instructions steps := by
  have hlength := h.length_le.trans hsteps
  have hexecute := executeWith_enough (h.serves hplain hsteps hsteps) h.forward hlength hlength
  refine ⟨h.depth_le, hexecute.1, ?_, ?_, ?_, ?_⟩
  · intro more hmore
    exact (executeWith_enough (h.serves hplain hsteps hmore) h.forward hlength
      (h.length_le.trans hmore)).2.2
  · intro positions last hrun
    obtain ⟨hstart, -, hprogram⟩ := h.start
    rw [← hprogram]
    exact hstart.length_le hrun
  · intro positions last hrun other hother
    have hsame : (m.innerRunner steps).SameFrom other last := by
      intro path count started hdepth hload
      exact hother started ⟨positions, last, path, count, hrun, hdepth, hload⟩
    exact (run_step_congr hsame).symm
  · exact fun started hstarts => h.innerRunner_eq_execute hplain hsteps hstarts

end TakesPart

/-- Running a file whose folder has no loops, labels and functions in its programs ends, whatever
files run each other. No machine that takes part is deeper than allowed, and each takes at most as
many steps as its program has instructions. At the greatest depth a file is not even loaded. -/
theorem nested_runs_end (hplain : m.folder.IsPlain) (hdepth : m.depth ≤ maxDepth)
    (hload : m.loadFile path = (.ok count, loaded)) (hsteps : m.folder.instructions ≤ steps) :
    (∀ inner, Relation.ReflTransGen (MayStart steps) loaded inner →
        inner.Ends m.folder.instructions steps) ∧
      ∀ (runner : Runner) (file : String) (deep : Machine), deep.depth = maxDepth →
        (Builtin.run.call runner [.str file]).run deep =
          (.ok (.int (-1)), deep.logLine ("Error: run nested too deeply: " ++ file)) := by
  constructor
  · intro inner hreached
    -- Taking part is handed on from the machine that starts to the one that is started.
    have hpart : inner.TakesPart m.folder := by
      induction hreached with
      | refl => exact takesPart_of_loadFile hplain hdepth hload
      | tail _ hstarts ih => exact (ih.of_mayStart hplain hsteps hstarts).1
    exact hpart.ends hplain hsteps
  · intro runner file deep hdeep
    rw [show Builtin.run.call runner [.str file] = Builtin.runFile runner file from rfl,
      Builtin.runFile, Effect.run_get_bind, if_pos (le_of_eq hdeep.symm)]
    rfl

/-- A machine with two files, each of which runs the other; one of them runs itself as well. -/
def circular : Machine :=
  { create {} with
    folder :=
      { files := [("a", "PUSH b\nCALL run\nPUSH a\nCALL run".toUTF8),
          ("b", "PUSH a\nCALL run".toUTF8)] } }

/-- Two programs that start each other end, as the nesting is limited. -/
theorem nested_runs_end_circular :
    (circular.folder.IsPlain ∧ circular.depth ≤ maxDepth ∧
        circular.loadFile "a" = (.ok 4, (circular.loadFile "a").2) ∧
        circular.folder.instructions ≤ 6) ∧
      (∀ inner, Relation.ReflTransGen (MayStart 6) (circular.loadFile "a").2 inner →
        inner.Ends circular.folder.instructions 6) ∧
      ∀ (runner : Runner) (file : String) (deep : Machine), deep.depth = maxDepth →
        (Builtin.run.call runner [.str file]).run deep =
          (.ok (.int (-1)), deep.logLine ("Error: run nested too deeply: " ++ file)) :=
  have hplain : circular.folder.IsPlain := by decide +kernel
  have hload : circular.loadFile "a" = (.ok 4, (circular.loadFile "a").2) := by
    have hcount : (circular.loadFile "a").1 = .ok 4 := by decide +kernel
    exact Prod.ext hcount rfl
  have hsteps : circular.folder.instructions ≤ 6 := by decide +kernel
  ⟨⟨hplain, by decide, hload, hsteps⟩, nested_runs_end hplain (by decide) hload hsteps⟩

end Machine

end StackMachine
