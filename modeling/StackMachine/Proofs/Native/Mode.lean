import StackMachine.Proofs.Machine.Nesting
import StackMachine.Proofs.Native.Correctness
import StackMachine.Proofs.Native.Discipline

/-!
# Interpreted programs do not see native mode

A program that cannot be compiled is interpreted, with native mode and without it. The mode could
still show in the programs that it runs from files, as some of these are compiled. But they write to
streams that accept everything. There compiled code leaves the text that the interpreter leaves, and
neither of them takes input or touches a file. So the mode shows in the diagnostics only.

## Main definitions

* `Native.Platform.HasRoom`: the stack has room for every program that can be compiled.
* `Machine.interpreting`: a machine without native mode.
* `Machine.handedOver`: what a machine takes over from one that it has run.
* `Runner.Blind`: with and without native mode, a runner hands over the same.
* `Coupling.interpreting`: the second machine is the first one without native mode.

## Main results

* `Native.Platform.HasRoom.hasStack`: how much stack a program needs is bounded by its code.
* `Machine.blind_runnerFor`: programs that are run from files hand over the same.
* `Machine.execute_interpreting`: a program that cannot be compiled runs in the same way.
-/

namespace StackMachine

/-! ### Room on the stack -/

namespace Native

/-- The stack on entry lies in the lower half of the address space, and has a word for each byte
that the host maps at once. -/
structure Platform.HasRoom (platform : Platform) : Prop where
  pageSize_pos : 0 < platform.paging.pageSize
  entry_lt : (platform.entry.registers .rsp).toNat < 0x800000000000
  room : ∀ size, platform.paging.maps size = true →
    8 * size ≤ (platform.entry.registers .rsp).toNat

/-- The default platform maps less than four gibibytes. -/
theorem Platform.hasRoom_default : ({} : Platform).HasRoom where
  pageSize_pos := by decide
  entry_lt := by decide
  room size h := by
    have hsize : size < 0x100000000 := of_decide_eq_true h
    have hentry : (({} : Platform).entry.registers .rsp).toNat = 0x7FFFFFFFE008 := by decide
    omega

/-- Each value on the stack was pushed by an operation. -/
theorem Draft.height_le_code {slots : List String} {address : Int64} {draft last : Draft}
    {rest : Program} {pc : Nat} {code : List Operation}
    (h : draft.instructions slots address rest pc = .ok (code, last)) :
    draft.height slots address rest pc ≤ draft.stack.length + code.length := by
  induction rest generalizing draft pc code with
  | nil => exact Nat.le_add_right _ _
  | cons instruction rest ih =>
    rw [instructions] at h
    obtain ⟨⟨operations, next⟩, hfirst, h⟩ := exists_of_bind_eq_ok h
    obtain ⟨⟨more, last⟩, hmore, h⟩ := exists_of_bind_eq_ok h
    cases h
    have hbalanced : Balanced slots.length (max draft.stack.length next.stack.length) operations
        draft.stack.length next.stack.length :=
      balanced_instruction hfirst (Nat.le_max_left _ _) (Nat.le_max_right _ _)
    have hnext := hbalanced.last_le
    have hrest := ih hmore
    simp only [height, hfirst]
    rw [List.length_append]
    omega

/-- The prologue clears every variable. -/
theorem length_le_prologue (slotCount : Nat) :
    slotCount + 9 ≤ (prologue slotCount (List.range slotCount)).length := by
  have hsaved : savedRegisters.length = 5 := rfl
  simp only [prologue, List.length_append, List.length_cons, List.length_nil, List.length_map,
    hsaved]
  split
  · omega
  · simp only [List.length_cons, List.length_map, List.length_range]
    omega

/-- The code of a program has an operation for each word that it needs on the stack, and fits into
what the host maps. -/
theorem Platform.HasRoom.hasStack {platform : Platform} {program : Program} {compiled : Compiled}
    (h : platform.HasRoom) (hcompile : compile platform program = .ok compiled) :
    platform.HasStack program where
  entry_lt := h.entry_lt
  room := by
    rw [compile] at hcompile
    obtain ⟨⟨operations, hasResult⟩, hassemble, hcompile⟩ := exists_of_bind_eq_ok hcompile
    obtain ⟨-, code, last, hcode, hoperations, -⟩ := assembleIn_ok hassemble
    dsimp only at hcompile
    split at hcompile
    next region hregion =>
      obtain ⟨-, -, -, hmaps, -⟩ := (CodeBuffer.finalize_eq_ok_iff h.pageSize_pos).mp hregion
      have hbytes : (Operation.encodeAll operations).length ≤
          platform.paging.roundUp (Operation.encodeAll operations).length :=
        Paging.le_roundUp h.pageSize_pos _
      have hsize := h.room _ hmaps
      have hcount := Operation.length_le_encodeAll operations
      have hheight := Draft.height_le_code hcode
      have hprologue := length_le_prologue (slotNames program).length
      have hlength := congrArg List.length hoperations
      rw [List.length_append, List.length_append] at hlength
      rw [stackNeed]
      change 8 * platform.paging.roundUp (Operation.encodeAll operations).length ≤ _ at hsize
      change _ ≤ 0 + code.length at hheight
      omega
    next => cases hcompile

/-- Only programs without calls, branches and jumps are compiled. -/
theorem isStraightLine_of_compile {platform : Platform} {program : Program} {compiled : Compiled}
    (h : compile platform program = .ok compiled) : isStraightLine program = true := by
  rw [compile] at h
  obtain ⟨assembled, hassemble, -⟩ := exists_of_bind_eq_ok h
  rw [assemble, assembleIn] at hassemble
  by_contra hbranches
  rw [Bool.not_eq_true] at hbranches
  rw [hbranches] at hassemble
  cases hassemble

end Native

/-! ### Machines without native mode -/

namespace Machine

open Native (compile)

variable {m n : Machine} {compiled : Native.Compiled} {steps : Nat} {runner : Runner}

/-- The machine without native mode, with other diagnostics. -/
def interpreting (m : Machine) (log : String) : Machine :=
  { m with settings := { m.settings with nativeMode := .off }, log }

/-- What a machine takes over from one that it has run. -/
def handedOver (run : Outcome Unit × Machine) : Outcome Unit × String × List UInt8 × Folder :=
  (run.1, run.2.output.accepted, run.2.standardInput, run.2.folder)

/-- A program that cannot be compiled leaves a line in the diagnostics at most. -/
theorem exists_runNative_of_error {error : Native.CompileError}
    (h : compile m.platform m.program = .error error) :
    ∃ log, m.runNative = (none, { m with log }) := by
  unfold runNative
  dsimp only
  split
  · exact ⟨m.log, rfl⟩
  · rw [h]
    exact ⟨_, rfl⟩

/-- A native run that goes well is the whole run. One that is refused changes the stream and the
diagnostics, and leaves the run to the interpreter. -/
theorem exists_runNative_eq (hmode : m.settings.nativeMode.attempts = true)
    (hcompile : compile m.platform m.program = .ok compiled) :
    ∃ log, m.runNative = match compiled.run m.platform m.output with
      | (.ok result, left) =>
        (some { m with output := left, log, lastResult := result }.complete.1,
          { m with output := left, log, lastResult := result }.complete.2)
      | (.error _, left) => (none, { m with output := left, log }) := by
  have hstraight := Native.isStraightLine_of_compile hcompile
  simp only [runNative, hmode, hstraight, hcompile, Bool.not_true, Bool.or_false]
  -- Tracing only adds to the diagnostics.
  rcases hrun : compiled.run m.platform m.output with ⟨error | result, left⟩
  · by_cases htrace : m.settings.traceNative = true
    · simp only [htrace, if_true, logLine, hrun]
      exact ⟨_, rfl⟩
    · simp only [htrace, Bool.false_eq_true, if_false, logLine, hrun]
      exact ⟨_, rfl⟩
  · by_cases htrace : m.settings.traceNative = true
    · simp only [htrace, if_true, logLine, hrun]
      exact ⟨_, rfl⟩
    · simp only [htrace, Bool.false_eq_true, if_false, logLine, hrun]
      exact ⟨_, rfl⟩

/-- Diagnostics do not depend on the mode. -/
theorem report_interpreting (m : Machine) (log : String) (fault : Fault) :
    ∃ log', (m.interpreting log).report fault = (m.report fault).interpreting log' := by
  unfold report
  dsimp only
  split <;> exact ⟨_, rfl⟩

theorem complete_interpreting (m : Machine) (log : String) :
    ∃ log', (m.interpreting log).complete = (m.complete.1, m.complete.2.interpreting log') := by
  rw [complete, complete, finish, finish, show (m.interpreting log).output = m.output from rfl]
  rcases m.output.flush with ⟨reason | _, output⟩
  · obtain ⟨log', hreport⟩ := report_interpreting
      { m with running := false, status := .halted, output } log (.onLine (.outputRefused reason) 0)
    exact ⟨log', Prod.ext rfl hreport⟩
  · exact ⟨log, rfl⟩

theorem fail_interpreting (m : Machine) (log : String) (fault : Fault) :
    ∃ log', (m.interpreting log).fail fault = (m.fail fault).interpreting log' := by
  obtain ⟨reported, hreport⟩ := report_interpreting m log fault
  rw [fail, fail, hreport, finish, finish,
    show ((m.report fault).interpreting reported).output = (m.report fault).output from rfl]
  rcases (m.report fault).output.flush with ⟨reason | _, output⟩
  · exact report_interpreting { m.report fault with running := false, status := .halted, output }
      reported (.onLine (.outputRefused reason) 0)
  · exact ⟨reported, rfl⟩

/-- Nor do collections, apart from the diagnostics. -/
theorem collectGarbage_interpreting (m : Machine) (log : String) :
    ∃ log', (m.interpreting log).collectGarbage =
      (m.collectGarbage.1, m.collectGarbage.2.interpreting log') := by
  unfold collectGarbage
  rw [show (m.interpreting log).settings.collects = m.settings.collects from rfl]
  split
  · exact ⟨log, rfl⟩
  · dsimp only
    rw [show (m.interpreting log).settings.reportCollections = m.settings.reportCollections
      from rfl]
    split <;> exact ⟨_, rfl⟩

/-- Nor does loading a program. -/
theorem loadFile_interpreting (m : Machine) (log path : String) :
    (m.interpreting log).loadFile path =
      ((m.loadFile path).1, (m.loadFile path).2.interpreting log) := by
  rw [loadFile, loadFile, show (m.interpreting log).folder = m.folder from rfl]
  split
  · rw [load, load]
    split <;> rfl
  · rfl

/-- Runs that end on the same text hand over the same. -/
theorem handedOver_complete (houtput : m.output.SameText n.output)
    (hinput : m.standardInput = n.standardInput) (hfolder : m.folder = n.folder) :
    handedOver m.complete = handedOver n.complete := by
  obtain ⟨hflush, hleft⟩ := houtput.flush
  rcases hm : m.output.flush with ⟨result, left⟩
  rcases hn : n.output.flush with ⟨other, right⟩
  rw [hm, hn] at hflush hleft
  obtain rfl : result = other := hflush
  have haccepted : left.accepted = right.accepted := hleft.accepted
  cases result with
  | ok =>
    simp only [handedOver, complete, finish, hm, hn]
    exact Prod.ext rfl (Prod.ext haccepted (Prod.ext hinput hfolder))
  | error reason =>
    simp only [handedOver, complete, finish, hm, hn]
    exact Prod.ext rfl (Prod.ext haccepted (Prod.ext hinput hfolder))

end Machine

/-- With and without native mode, the runner hands over the same from a program that was just
loaded, on a stream that accepts everything. -/
def Runner.Blind (runner : Runner) : Prop :=
  ∀ (m : Machine) (program : Program) (log : String), m.platform.HasRoom → m.output.Accepts →
    program ≠ [] → (runner ({ m with program }.reset.interpreting log)).1 ≠ .unfinished →
    Machine.handedOver (runner { m with program }.reset) =
      Machine.handedOver (runner ({ m with program }.reset.interpreting log))

/-! ### Running with native mode and without it -/

namespace Coupling

/-- The second machine is the first one without native mode. It may be left unfinished, as native
code takes no steps. -/
def interpreting : Coupling where
  rel _ m n := m.platform.HasRoom ∧ ∃ log, n = m.interpreting log
  allowed _ := True
  pointer _ := True
  lax := True

variable {runner : Runner}

/-- A file that is run hands over the same. -/
theorem sameNested_interpreting (hblind : runner.Blind) {m : Machine}
    (hroom : m.platform.HasRoom) (log : String) (own : Nat) (path : String) :
    interpreting.SameNested own (m.runNested runner path)
      ((m.interpreting log).runNested runner path) := by
  have hchild : (m.interpreting log).child = m.child.interpreting log := rfl
  rw [Machine.runNested, Machine.runNested, hchild, Machine.loadFile_interpreting]
  obtain ⟨error, hload⟩ | ⟨source, -, hprogram, hload⟩ := m.child.loadFile_cases path
  · rw [hload]
    exact .same ⟨hroom, log, rfl⟩ fun _ _ => trivial
  · rw [hload]
    dsimp only
    generalize Program.ofSource source = program at hprogram
    by_cases hfinished :
        (runner ({ m.child with program }.reset.interpreting log)).1 = .unfinished
    · rw [hfinished]
      exact .unfinished trivial
    · have hsame := hblind m.child program log hroom (fun _ _ _ => rfl) hprogram hfinished
      generalize runner { m.child with program }.reset = first at hsame
      generalize runner ({ m.child with program }.reset.interpreting log) = second at hsame
      obtain ⟨outcome, ended⟩ := first
      obtain ⟨outcome', ended'⟩ := second
      obtain ⟨rfl, haccepted, hinput, hfolder⟩ : outcome = outcome' ∧
          ended.output.accepted = ended'.output.accepted ∧
          ended.standardInput = ended'.standardInput ∧ ended.folder = ended'.folder := by
        simpa [Machine.handedOver] using hsame
      rw [haccepted]
      refine .same ⟨hroom, ended'.log, ?_⟩ fun _ _ => trivial
      simp only [Machine.adopt, Machine.interpreting, hinput, hfolder]

/-- The basic changes do not depend on the mode, apart from running a file. -/
theorem laws_interpreting (hblind : runner.Blind) (line : Nat) :
    interpreting.Laws runner runner line where
  weaken _ h := h
  pointers := Pointer.closed_true
  fault _ := trivial
  unlocated _ := trivial
  push := by rintro _ m _ value ⟨hroom, log, rfl⟩ _; exact ⟨hroom, log, rfl⟩
  pop := by
    rintro _ m _ ⟨hroom, log, rfl⟩
    cases hstack : m.stack with
    | nil => exact .inl ⟨rfl, hstack⟩
    | cons value stack =>
      exact .inr ⟨value, stack, stack, rfl, hstack, value.all_true, hroom, log, rfl⟩
  height := by rintro m _ ⟨-, log, rfl⟩; rfl
  bindings := by
    rintro _ m _ ⟨-, log, rfl⟩
    exact ⟨rfl, fun entry _ => entry.2.all_true⟩
  store := by rintro _ m _ name value ⟨hroom, log, rfl⟩ _; exact ⟨hroom, log, rfl⟩
  log := by rintro _ m _ text ⟨hroom, log, rfl⟩; exact ⟨hroom, _, rfl⟩
  write texts := by rintro ⟨hroom, log, rfl⟩; exact ⟨rfl, hroom, log, rfl⟩
  input := by
    rintro _ m _ ⟨hroom, log, rfl⟩
    exact ⟨rfl, rfl, fun _ _ => ⟨hroom, log, rfl⟩⟩
  release := by
    rintro _ m _ target ⟨hroom, log, rfl⟩
    cases target <;> exact ⟨hroom, log, rfl⟩
  isLive := by rintro _ m _ target ⟨-, log, rfl⟩; rfl
  dereference := by rintro _ m _ p ⟨-, log, rfl⟩; rfl
  close id := by rintro ⟨hroom, log, rfl⟩; exact ⟨rfl, hroom, log, rfl⟩
  read {_ m _} id := by
    rintro ⟨hroom, log, rfl⟩
    rw [show (m.interpreting log).files = m.files from rfl,
      show (m.interpreting log).folder = m.folder from rfl]
    cases m.files.read m.folder id with
    | none => exact .none
    | some result => exact .some ⟨rfl, hroom, log, rfl⟩
  depth := by rintro _ m _ ⟨-, log, rfl⟩; rfl
  -- A file is run natively on one side only; the runner hands over the same from both.
  nested path := by
    rintro ⟨hroom, log, rfl⟩ -
    exact sameNested_interpreting hblind hroom log _ path

/-- Nor do requests for memory and files. -/
theorem acquisitionLaws_interpreting : interpreting.AcquisitionLaws where
  heap := by
    rintro _ m _ ⟨-, log, rfl⟩
    exact ⟨rfl, rfl⟩
  object tag size := by
    rintro _ m _ ⟨hroom, log, rfl⟩ _
    exact .ok trivial ⟨hroom, log, rfl⟩
  collected size := by
    rintro _ m _ ⟨hroom, log, rfl⟩ _
    exact .ok trivial ⟨hroom, log, rfl⟩
  block size := by
    rintro _ m _ ⟨hroom, log, rfl⟩ _
    exact .ok trivial ⟨hroom, log, rfl⟩
  file := by
    rintro _ m _ path ⟨hroom, log, rfl⟩
    exact ⟨rfl, rfl, fun _ _ _ _ => ⟨hroom, log, rfl⟩⟩

/-- Nor do blocks, jumps and functions. -/
theorem positionLaws_interpreting : interpreting.PositionLaws where
  program := by rintro _ m _ ⟨-, log, rfl⟩; rfl
  loops := by rintro _ m _ ⟨-, log, rfl⟩; rfl
  functions := by rintro _ m _ ⟨-, log, rfl⟩; rfl
  setLoops := by rintro _ m _ loops ⟨hroom, log, rfl⟩; exact ⟨hroom, log, rfl⟩
  define := by rintro _ m _ name pc ⟨hroom, log, rfl⟩; exact ⟨hroom, log, rfl⟩
  enter := by rintro _ m _ name ⟨hroom, log, rfl⟩; exact ⟨hroom, log, rfl⟩
  leave := by rintro _ m _ ⟨hroom, log, rfl⟩; exact ⟨hroom, log, rfl⟩
  position := by rintro m _ ⟨-, log, rfl⟩; rfl
  move := by rintro m _ pc ⟨hroom, log, rfl⟩; exact ⟨hroom, log, rfl⟩
  halt := by rintro m _ ⟨hroom, log, rfl⟩; exact ⟨hroom, log, rfl⟩
  line _ := trivial

/-- No instruction sees the mode. -/
theorem suits_interpreting (hblind : runner.Blind) (instruction : Instruction) :
    interpreting.Suits runner runner instruction where
  laws := laws_interpreting hblind _
  literal value _ := value.all_true
  control _ := positionLaws_interpreting.toControlLaws
  acquisition _ := acquisitionLaws_interpreting
  collection _ := by
    rintro _ m _ ⟨hroom, log, rfl⟩
    obtain ⟨left, hcollect⟩ := m.collectGarbage_interpreting log
    obtain ⟨collector, allocator, traced, hframe⟩ := m.collectGarbage_frame
    rw [hcollect]
    refine ⟨rfl, ?_, left, rfl⟩
    rw [hframe]
    exact hroom

end Coupling

namespace Machine

open Native (compile)

variable {m : Machine} {steps : Nat} {runner : Runner}

/-- A run that is interpreted goes on and ends in the same way without native mode, if it ends
there. -/
theorem runSteps_interpreting (hblind : runner.Blind) (hroom : m.platform.HasRoom) (log : String)
    (hfinished : (runSteps runner steps (m.interpreting log)).1 ≠ .unfinished) :
    ∃ log', runSteps runner steps (m.interpreting log) =
      ((runSteps runner steps m).1, (runSteps runner steps m).2.interpreting log') := by
  induction steps generalizing m log with
  -- With no steps left, only a run that has ended is finished.
  | zero =>
    by_cases hcan : m.canStep = true
    · rw [runSteps, if_pos (show (m.interpreting log).canStep = true from hcan)] at hfinished
      exact absurd rfl hfinished
    · rw [runSteps, runSteps, if_neg (show ¬(m.interpreting log).canStep = true from hcan),
        if_neg hcan]
      exact complete_interpreting m log
  | succ steps ih =>
    by_cases hcan : m.canStep = true
    · rw [runSteps, if_pos (show (m.interpreting log).canStep = true from hcan)] at hfinished ⊢
      rw [runSteps, if_pos hcan]
      -- A step does the same on both sides, or is not finished without native mode.
      have hrel : Coupling.interpreting.rel 2 m (m.interpreting log) := ⟨hroom, log, rfl⟩
      have hends := Coupling.positionLaws_interpreting.ends_step hrel id fun instruction _ =>
        ⟨Coupling.suits_interpreting hblind instruction, instruction.reach_le_two⟩
      generalize (step runner).run m = first at hends ⊢
      generalize (step runner).run (m.interpreting log) = second at hends hfinished ⊢
      cases hends with
      | ok _ hrel =>
        obtain ⟨hroom', log', rfl⟩ := hrel
        exact ih hroom' log' hfinished
      | @error e _ _ _ hrel =>
        obtain ⟨-, log', rfl⟩ := hrel
        cases e with
        | fault fault =>
          obtain ⟨left, hfail⟩ := fail_interpreting _ log' fault
          exact ⟨left, Prod.ext rfl hfail⟩
        | unfinished => exact absurd rfl hfinished
      | unfinished => exact absurd rfl hfinished
    · rw [runSteps, runSteps, if_neg (show ¬(m.interpreting log).canStep = true from hcan),
        if_neg hcan]
      exact complete_interpreting m log

theorem handedOver_runSteps (hblind : runner.Blind) (hroom : m.platform.HasRoom) (log : String)
    (hfinished : (runSteps runner steps (m.interpreting log)).1 ≠ .unfinished) :
    handedOver (runSteps runner steps m) =
      handedOver (runSteps runner steps (m.interpreting log)) := by
  obtain ⟨left, hrun⟩ := runSteps_interpreting hblind hroom log hfinished
  rw [hrun]
  rfl

/-- On a stream that accepts everything, a program that is compiled hands over what the interpreter
hands over. -/
theorem handedOver_runNative {program : Program} {compiled : Native.Compiled} {log : String}
    (hroom : m.platform.HasRoom) (haccepts : m.output.Accepts)
    (hmode : m.settings.nativeMode.attempts = true)
    (hcompile : compile m.platform program = .ok compiled)
    (hfinished : (runSteps runner steps ({ m with program }.reset.interpreting log).start).1 ≠
      .unfinished) :
    ∃ outcome after, { m with program }.reset.runNative = (some outcome, after) ∧
      handedOver (outcome, after) =
        handedOver (runSteps runner steps ({ m with program }.reset.interpreting log).start) := by
  have hstack := hroom.hasStack hcompile
  obtain ⟨traced, hnative⟩ := exists_runNative_eq (m := { m with program }.reset) hmode hcompile
  rw [compile] at hcompile
  obtain ⟨⟨operations, hasResult⟩, hassemble, hcompile⟩ := Native.exists_of_bind_eq_ok hcompile
  dsimp only at hcompile
  split at hcompile
  next region hregion =>
    cases hcompile
    -- The interpreter comes to the end of the program, and the code to the same text.
    obtain ⟨states, final, left, htrace, -, hstop, hfinal, hrun, hsame⟩ :=
      Native.Compiled.exists_run (m := m.interpreting log) (fun _ => List.Perm.refl _) hassemble
        hregion hstack haccepts
    have hoff : runSteps runner steps ({ m with program }.reset.interpreting log).start =
        final.complete := runSteps_of_finished (htrace runner) hstop hfinished
    have hnativeRun : Native.Compiled.run { m with program }.reset.platform
        ⟨region, Native.Operation.encodeAll operations, hasResult⟩ { m with program }.reset.output =
          (.ok (resultOf states final), left) := hrun
    rw [hnativeRun] at hnative
    refine ⟨_, _, hnative, ?_⟩
    rw [hoff]
    refine handedOver_complete hsame ?_ ?_
    · rw [hfinal]
      rfl
    · rw [hfinal]
      rfl
  next => cases hcompile

/-- Running a program hands over the same with native mode as without it, if running the programs
that it starts does. -/
theorem blind_executeWith (hblind : runner.Blind) (steps : Nat) :
    Runner.Blind (executeWith runner steps) := by
  intro m program log hroom haccepts hprogram hfinished
  have hoff : executeWith runner steps ({ m with program }.reset.interpreting log) =
      runSteps runner steps ({ m with program }.reset.interpreting log).start :=
    executeWith_of_none hprogram (runNative_of_off rfl)
  rw [hoff] at hfinished ⊢
  cases hmode : m.settings.nativeMode.attempts with
  | false =>
    have hnative : { m with program }.reset.runNative = (none, { m with program }.reset) :=
      runNative_of_off hmode
    rw [executeWith_of_none hprogram hnative]
    exact handedOver_runSteps hblind (m := { m with program }.reset.start) hroom log hfinished
  | true =>
    cases hcompile : compile m.platform program with
    | error error =>
      obtain ⟨traced, hnative⟩ := exists_runNative_of_error (m := { m with program }.reset) hcompile
      rw [executeWith_of_none hprogram hnative]
      exact handedOver_runSteps hblind (m := { { m with program }.reset with log := traced }.start)
        hroom log hfinished
    | ok compiled =>
      obtain ⟨outcome, after, hnative, hsame⟩ :=
        handedOver_runNative hroom haccepts hmode hcompile hfinished
      rw [executeWith_of_some hprogram hnative]
      exact hsame

/-- Programs that are run from files hand over the same, however many levels there are. -/
theorem blind_runnerFor (steps levels : Nat) : Runner.Blind (runnerFor steps levels) := by
  induction levels with
  | zero =>
    refine blind_executeWith (fun m program log _ _ _ hfinished => ?_) steps
    exact absurd rfl hfinished
  | succ levels ih => exact blind_executeWith ih steps

/-- A program that cannot be compiled runs with native mode as it does without it, if it ends
there: the outcomes are the same, and the machines differ in the mode and in the diagnostics. -/
theorem execute_interpreting {error : Native.CompileError} (hroom : m.platform.HasRoom)
    (hprogram : m.program ≠ []) (hcompile : compile m.platform m.program = .error error)
    (log : String) (hfinished : ((m.interpreting log).execute steps).1 ≠ .unfinished) :
    ∃ left, (m.interpreting log).execute steps =
      ((m.execute steps).1, (m.execute steps).2.interpreting left) := by
  obtain ⟨traced, hnative⟩ := exists_runNative_of_error hcompile
  have hoff : (m.interpreting log).execute steps =
      runSteps (m.innerRunner steps) steps (m.start.interpreting log) :=
    execute_eq_runSteps (m := m.interpreting log) hprogram rfl steps
  have hon : m.execute steps =
      runSteps (m.innerRunner steps) steps { m with log := traced }.start :=
    executeWith_of_none hprogram hnative
  rw [hoff] at hfinished ⊢
  rw [hon]
  have hblind : (m.innerRunner steps).Blind := blind_runnerFor steps _
  exact runSteps_interpreting (m := { m with log := traced }.start) hblind hroom log hfinished

end Machine

end StackMachine
