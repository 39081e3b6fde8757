import StackMachine.Proofs.Machine.Execution

/-!
# Machines that start each other

A program reaches other machines only through the built-in function that runs a file. An
instruction calls a built-in function with one argument at most, so files are opened for reading
only and nothing is written to them. Hence no instruction changes how deep its machine is or which
files it can reach, and an instruction is unfinished only if a machine that it started is.

## Main definitions

* `Machine.station`: how deep a machine is, and the files it can reach.
* `Runner.SameFrom`: two runners do the same with the machines that can be started from a machine.
* `Runner.Serves`: from a station, a runner finishes what can be started, leaves it its files, and
  does the same as another runner.
* `Coupling.stationed`: a machine at a station, as a coupling with itself.

## Main results

* `Machine.settled_step`: a step finishes and keeps the station, if the machines that it starts are
  finished.
* `Machine.run_step_congr`: what a runner does with other machines does not matter.
-/

namespace StackMachine

/-- What loading a file does: nothing, or it makes the program in the file the current one and
resets the machine. -/
theorem Machine.loadFile_cases (m : Machine) (path : String) :
    (∃ error, m.loadFile path = (.error error, m)) ∨
      ∃ source, m.folder.readText path = .ok source ∧ Program.ofSource source ≠ [] ∧
        m.loadFile path = (.ok (Program.ofSource source).length,
          { m with program := Program.ofSource source }.reset) := by
  rw [loadFile]
  cases hread : m.folder.readText path with
  | error error => exact .inl ⟨_, rfl⟩
  | ok source =>
    by_cases hempty : Program.ofSource source = []
    · refine .inl ⟨.emptyProgram, ?_⟩
      simp only [load, hempty, List.isEmpty_nil, if_true]
    · refine .inr ⟨source, rfl, hempty, ?_⟩
      have hsome : ¬(Program.ofSource source).isEmpty = true := by simpa using hempty
      simp only [load, if_neg hsome]

/-- How deep a machine is, and the files it can reach. -/
def Machine.station (m : Machine) : Nat × Folder := (m.depth, m.folder)

namespace Runner

/-- Two runners do the same with every machine that can be started from a machine. -/
def SameFrom (runner other : Runner) (m : Machine) : Prop :=
  ∀ path count inner, m.depth < Machine.maxDepth → m.child.loadFile path = (.ok count, inner) →
    other inner = runner inner

/-- From every machine at a station, the first runner finishes what can be started and leaves it its
files, and the second runner does the same. -/
def Serves (runner other : Runner) (station : Nat × Folder) : Prop :=
  ∀ m : Machine, m.station = station → runner.SameFrom other m ∧
    ∀ path count inner, m.depth < Machine.maxDepth →
      m.child.loadFile path = (.ok count, inner) →
      (runner inner).1 ≠ .unfinished ∧ (runner inner).2.folder = m.folder

end Runner

/-! ### Staying at a station -/

/-- A file that is opened for reading only is there before, and stays as it is. -/
theorem FileTable.folder_openAt {table files : FileTable} {folder after : Folder} {path : String}
    {id : Int} (h : table.openAt folder path (.ofText "r") = .ok (id, files, after)) :
    after = folder := by
  have hmode : OpenMode.ofText "r" = ⟨true, false, false, false, false⟩ := by decide
  rw [hmode, openAt] at h
  split at h
  · cases h
  · cases h
    rfl
  next name _ =>
    cases hname : folder.has name with
    | false => simp [hname] at h
    | true =>
      simp only [hname, Bool.not_true, Bool.false_and, Bool.or_self, Bool.false_eq_true,
        if_false] at h
      cases h
      rfl

/-- Collections have nothing to do with other machines. -/
theorem Machine.station_collectGarbage (m : Machine) : m.collectGarbage.2.station = m.station := by
  obtain ⟨collector, allocator, log, hframe⟩ := m.collectGarbage_frame
  rw [hframe]
  rfl

namespace Coupling

/-- A machine at a station, which is not left unfinished. -/
def stationed (station : Nat × Folder) : Coupling where
  rel _ m n := m = n ∧ m.station = station
  allowed e := e ≠ .unfinished
  pointer _ := True
  lax := False

variable {station : Nat × Folder} {runner other : Runner}

/-- A file that is run is finished if the runner finishes it. -/
theorem sameNested_stationed {m : Machine} (hserves : runner.Serves other station)
    (hstation : m.station = station) (hdepth : m.depth < Machine.maxDepth) (own : Nat)
    (path : String) :
    (stationed station).SameNested own (m.runNested runner path) (m.runNested runner path) := by
  have hadopt : ∀ inner : Machine, inner.folder = m.folder →
      (stationed station).rel own (m.adopt inner) (m.adopt inner) := fun inner hinner =>
    ⟨rfl, (congrArg (Prod.mk m.depth) hinner).trans hstation⟩
  rw [Machine.runNested]
  rcases hloaded : m.child.loadFile path with ⟨error | count, inner⟩
  · obtain ⟨_, herror⟩ | ⟨_, -, -, hok⟩ := m.child.loadFile_cases path
    · cases herror.symm.trans hloaded
      exact .same (hadopt _ rfl) fun _ h => by cases h
    · cases hok.symm.trans hloaded
  · obtain ⟨hfinished, hleft⟩ := (hserves m hstation).2 path count inner hdepth hloaded
    refine .same (hadopt _ hleft) fun text h => ?_
    exact absurd (congrArg Prod.fst (Except.ok.inj h)) hfinished

/-- No basic change has to do with other machines, apart from starting one. -/
theorem laws_stationed (hserves : runner.Serves other station) (line : Nat) :
    (stationed station).Laws runner runner line where
  weaken _ h := h
  pointers := Pointer.closed_true
  fault _ h := by cases h
  unlocated _ h := by cases h
  push := by rintro _ m _ value ⟨rfl, h⟩ _; exact ⟨rfl, h⟩
  pop := by
    rintro _ m _ ⟨rfl, h⟩
    cases hstack : m.stack with
    | nil => exact .inl ⟨rfl, rfl⟩
    | cons value stack => exact .inr ⟨value, stack, stack, rfl, rfl, value.all_true, rfl, h⟩
  height := by rintro m _ ⟨rfl, -⟩; rfl
  bindings := by
    rintro _ m _ ⟨rfl, -⟩
    exact ⟨rfl, fun entry _ => entry.2.all_true⟩
  store := by rintro _ m _ name value ⟨rfl, h⟩ _; exact ⟨rfl, h⟩
  log := by rintro _ m _ text ⟨rfl, h⟩; exact ⟨rfl, h⟩
  write texts := by rintro ⟨rfl, h⟩; exact ⟨rfl, rfl, h⟩
  input := by rintro _ m _ ⟨rfl, h⟩; exact ⟨rfl, rfl, fun _ _ => ⟨rfl, h⟩⟩
  release := by rintro _ m _ target ⟨rfl, h⟩; cases target <;> exact ⟨rfl, h⟩
  isLive := by rintro _ m _ target ⟨rfl, -⟩; rfl
  dereference := by rintro _ m _ p ⟨rfl, -⟩; rfl
  close id := by rintro ⟨rfl, h⟩; exact ⟨rfl, rfl, h⟩
  read {_ m _} id := by
    rintro ⟨rfl, h⟩
    cases m.files.read m.folder id with
    | none => exact .none
    | some result => exact .some ⟨rfl, rfl, h⟩
  depth := by rintro _ m _ ⟨rfl, -⟩; rfl
  nested path := by
    rintro ⟨rfl, h⟩ hdepth
    exact sameNested_stationed hserves h hdepth _ path

/-- Nor has a request, since files are opened for reading only. -/
theorem acquisitionLaws_stationed (station : Nat × Folder) :
    (stationed station).AcquisitionLaws where
  heap := by rintro _ m _ ⟨rfl, -⟩; exact ⟨rfl, rfl⟩
  object tag size := by rintro _ m _ ⟨rfl, h⟩ _; exact .ok trivial ⟨rfl, h⟩
  collected size := by rintro _ m _ ⟨rfl, h⟩ _; exact .ok trivial ⟨rfl, h⟩
  block size := by rintro _ m _ ⟨rfl, h⟩ _; exact .ok trivial ⟨rfl, h⟩
  file := by
    rintro _ m _ path ⟨rfl, h⟩
    refine ⟨rfl, rfl, fun id files folder hopened => ⟨rfl, ?_⟩⟩
    obtain rfl := FileTable.folder_openAt hopened
    exact h

/-- Nor have blocks, jumps and functions. -/
theorem positionLaws_stationed (station : Nat × Folder) : (stationed station).PositionLaws where
  program := by rintro _ m _ ⟨rfl, -⟩; rfl
  loops := by rintro _ m _ ⟨rfl, -⟩; rfl
  functions := by rintro _ m _ ⟨rfl, -⟩; rfl
  setLoops := by rintro _ m _ loops ⟨rfl, h⟩; exact ⟨rfl, h⟩
  define := by rintro _ m _ name pc ⟨rfl, h⟩; exact ⟨rfl, h⟩
  enter := by rintro _ m _ name ⟨rfl, h⟩; exact ⟨rfl, h⟩
  leave := by rintro _ m _ ⟨rfl, h⟩; exact ⟨rfl, h⟩
  position := by rintro m _ ⟨rfl, -⟩; rfl
  move := by rintro m _ pc ⟨rfl, h⟩; exact ⟨rfl, h⟩
  halt := by rintro m _ ⟨rfl, h⟩; exact ⟨rfl, h⟩
  line {e _} h hunfinished := by
    cases e with
    | fault => cases hunfinished
    | unfinished => exact h rfl

/-- An instruction finishes if the machine that it may start is finished, and it keeps the
station. -/
theorem suits_stationed (hserves : runner.Serves other station) (instruction : Instruction) :
    (stationed station).Suits runner runner instruction where
  laws := laws_stationed hserves _
  literal value _ := value.all_true
  control _ := (positionLaws_stationed station).toControlLaws
  acquisition _ := acquisitionLaws_stationed station
  collection _ := by
    rintro _ m _ ⟨rfl, h⟩
    exact ⟨rfl, rfl, m.station_collectGarbage.trans h⟩

end Coupling

/-! ### Other runners -/

namespace Builtin

open Effect

variable {runner other : Runner} {m : Machine}

/-- Runners that do the same with the machines started from here make no difference. -/
theorem run_runFile_congr (hsame : runner.SameFrom other m) (path : String) :
    (runFile runner path).run m = (runFile other path).run m := by
  rw [runFile, runFile, run_get_bind, run_get_bind]
  split
  · rfl
  next hdepth =>
    have hnested : m.runNested other path = m.runNested runner path := by
      rw [Machine.runNested, Machine.runNested]
      rcases hloaded : m.child.loadFile path with ⟨error | count, inner⟩
      · rfl
      · simp only [hsame path count inner (by omega) hloaded]
    rw [hnested]

theorem run_call_congr (hsame : runner.SameFrom other m) (builtin : Builtin)
    (arguments : List Value) :
    (builtin.call runner arguments).run m = (builtin.call other arguments).run m := by
  cases builtin with
  | run =>
    simp only [call]
    split
    · exact run_runFile_congr hsame _
    · rfl
  | _ => rfl

end Builtin

/-- Only the machines that are started from here depend on the runner. -/
theorem Instruction.run_execute_congr {runner other : Runner} {m : Machine}
    (hsame : runner.SameFrom other m) (instruction : Instruction) (pc : Nat) :
    (instruction.execute runner pc).run m = (instruction.execute other pc).run m := by
  cases hopcode : instruction.opcode <;> simp only [execute, hopcode]
  case call =>
    rw [call, call, Effect.run_bind, Effect.run_bind]
    cases instruction.operand? with
    | none => rfl
    | some operand =>
      rw [Effect.run_orFail_some]
      dsimp only
      split
      next builtin _ =>
        -- The argument is taken off the stack first, which does not change what can be started.
        have hpopped : runner.SameFrom other { m with stack := m.stack.tail } := hsame
        rw [Effect.run_bind_of_ok (Effect.run_pop? m), Effect.run_bind_of_ok (Effect.run_pop? m),
          Effect.run_bind, Effect.run_bind, Builtin.run_call_congr hpopped]
      next => rfl

namespace Machine

variable {station : Nat × Folder} {runner other : Runner} {m : Machine}

/-- From a station, a step is not left unfinished, and the machine is there still. -/
theorem settled_step (hserves : runner.Serves other station) (h : m.station = station) :
    ((step runner).run m).1 ≠ .error .unfinished ∧ ((step runner).run m).2.station = station := by
  have hrel : (Coupling.stationed station).rel 2 m m := ⟨rfl, h⟩
  have hends := (Coupling.positionLaws_stationed station).ends_step hrel id fun instruction _ =>
    ⟨Coupling.suits_stationed hserves instruction, instruction.reach_le_two⟩
  exact ⟨fun herror => hends.allowed_of_error id herror rfl, (hends.rel id).2⟩

/-- Runners that do the same with the machines started from here make no difference to a step. -/
theorem run_step_congr (hsame : runner.SameFrom other m) :
    (step runner).run m = (step other).run m := by
  rw [step, step, Effect.run_get_bind, Effect.run_get_bind]
  split
  · rfl
  next instruction _ =>
    rw [Effect.run_bind, Effect.run_bind, Effect.run_withLine, Effect.run_withLine,
      Instruction.run_execute_congr hsame]

end Machine

end StackMachine
