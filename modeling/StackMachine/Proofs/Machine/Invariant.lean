import StackMachine.Proofs.Machine.Control
import StackMachine.Proofs.Memory.Resources

/-!
# Invariants of machines

What a machine keeps, whatever it does, follows from a look at a few kinds of changes. A machine
moves in its program and uses its streams and its folder. It changes memory and files in the ways
that `Resources.Change` lists. It puts values on its stack and into its variables. An invariant that
survives these changes survives every step, every run, however it ends, and every call.

## Main definitions

* `Machine.Invariant`: a property of machines that survives these changes, with a property of all
  pointers that come up.
* `Coupling.keeping`: the invariant as a coupling of a machine with itself.

## Main results

* `Machine.Invariant.suits`: every instruction keeps an invariant.
* `Machine.Invariant.runSteps`, `Machine.Invariant.execute`, `Machine.Invariant.debugSteps` and
  `Machine.Invariant.executeDebug`: so does every run.
* `Machine.Invariant.callBuiltin`: so does a built-in function that is called from outside.
-/

namespace StackMachine

/-! ### Resources of machines -/

/-- The machine knows whether a request fits. -/
theorem Machine.fits_of_fitsHeapLimit {m : Machine} {size : Nat}
    (h : m.fitsHeapLimit size = true) : m.resources.Fits m.settings.heapLimit size := by
  intro most hlimit
  simp only [fitsHeapLimit, hlimit, decide_eq_true_eq] at h
  exact h

/-- Freeing changes only the resources. -/
theorem Effect.run_release (m : Machine) (target : Target) :
    (release target).run m = (.ok (), m.withResources (m.resources.free target)) := by
  cases target <;> rfl

namespace FileTable

variable {table files : FileTable} {folder after : Folder} {number : Int}

/-- In whatever mode a file is opened, it is added under the next number. -/
theorem exists_add_of_openAt {path : String} {mode : OpenMode}
    (h : table.openAt folder path mode = .ok (number, files, after)) :
    ∃ file, files = (Numbered.add table file).2 := by
  unfold openAt at h
  split at h
  · cases h
  · split at h
    · cases h
    · cases h
      exact ⟨_, rfl⟩
  · split at h
    · cases h
    · cases h
      exact ⟨_, rfl⟩

/-- Writing changes at most the file that is written. -/
theorem eq_or_set_of_write {text : String} {result : Except FileError Nat}
    (h : table.write folder number text = some (result, files, after)) :
    files = table ∨ table.has number = true ∧ ∃ file, files = Numbered.set table number file := by
  unfold write at h
  split at h
  · cases h
  next file hget =>
    have hopen : table.has number = true := Numbered.has_of_get? hget
    split at h
    · cases h
      exact .inl rfl
    · split at h
      · cases h
        exact .inr ⟨hopen, _, rfl⟩
      · cases h
        exact .inl rfl

/-- Reading changes at most the file that is read. -/
theorem eq_or_set_of_read {result : Except FileError String}
    (h : table.read folder number = some (result, files)) :
    files = table ∨ table.has number = true ∧ ∃ file, files = Numbered.set table number file := by
  unfold read at h
  split at h
  · cases h
  next file hget =>
    have hopen : table.has number = true := Numbered.has_of_get? hget
    split at h
    · cases h
      exact .inl rfl
    · cases h
      exact .inl rfl
    · dsimp only at h
      split at h
      · cases h
        exact .inr ⟨hopen, _, rfl⟩
      · cases h
        exact .inr ⟨hopen, _, rfl⟩

end FileTable

/-! ### Invariants -/

/-- A property of machines that survives everything machines do, if all pointers that come up have
the other property. -/
structure Machine.Invariant (holds : Machine → Prop) (P : Pointer → Prop) : Prop where
  /-- Every pointer that is made has the property. -/
  pointers : Pointer.Closed P
  /-- The control state apart from the program, the streams, the folder and the diagnostics. -/
  frame {m : Machine} {k : Control} (output : Sink) (input : Source) (standardInput : List UInt8)
    (folder : Folder) (log : String) : holds m → k.program = m.program →
      holds { m.withControl k with output, input, standardInput, folder, log }
  /-- Memory and open files. -/
  change {m : Machine} {r : Resources} : holds m →
    Resources.Change m.settings.heapLimit m.resources r → holds (m.withResources r)
  /-- Pushing a value. -/
  push {m : Machine} {value : Value} : holds m → value.All P →
    holds { m with stack := value :: m.stack }
  /-- Popping a value. -/
  pop {m : Machine} {value : Value} {stack : List Value} : holds m → m.stack = value :: stack →
    value.All P ∧ holds { m with stack }
  /-- The values of the variables. -/
  bindings {m : Machine} : holds m → ∀ entry ∈ m.bindings, entry.2.All P
  /-- Storing a value. -/
  store {m : Machine} {value : Value} (name : String) : holds m → value.All P →
    holds { m with bindings := Entries.insert name value m.bindings }
  /-- The literals of the program. -/
  literals {m : Machine} : holds m → ∀ instruction ∈ m.program, ∀ value,
    instruction.literal = some value → value.All P

/-- The invariant as a coupling of a machine with itself. -/
def Coupling.keeping (holds : Machine → Prop) (P : Pointer → Prop)
    (allowed : Interruption → Prop) : Coupling where
  rel _ m n := m = n ∧ holds m
  allowed := allowed
  pointer := P
  lax := False

namespace Machine.Invariant

variable {holds : Machine → Prop} {P : Pointer → Prop} {allowed : Interruption → Prop}
  {m : Machine} {line : Nat} (h : Invariant holds P)

include h

/-- The control state apart from the program. -/
theorem move (hm : holds m) (k : Control) (hprogram : k.program = m.program) :
    holds (m.withControl k) :=
  h.frame m.output m.input m.standardInput m.folder m.log hm hprogram

/-- The diagnostics. -/
theorem report (hm : holds m) (log : String) : holds { m with log } :=
  h.frame m.output m.input m.standardInput m.folder log hm (k := m.control) rfl

/-- Files are used in the ways listed. -/
theorem useFile {files : FileTable} {number : Int} (folder : Folder) (hm : holds m)
    (hfiles : files = m.files ∨
      m.files.has number = true ∧ ∃ file, files = Numbered.set m.files number file) :
    holds { m with files, folder } := by
  have hfolder : ∀ m : Machine, holds m → holds { m with folder } := fun m hm =>
    h.frame m.output m.input m.standardInput folder m.log hm (k := m.control) rfl
  rcases hfiles with rfl | ⟨hopen, file, rfl⟩
  · exact hfolder m hm
  · exact hfolder _ (h.change hm (.useFile hopen file))

/-- Files are opened in the ways listed. -/
theorem opensAs (mode : OpenMode) : (Coupling.keeping holds P allowed).OpensAs mode := by
  rintro _ m _ path ⟨rfl, hm⟩
  refine ⟨rfl, rfl, fun id files folder hopened => ⟨rfl, ?_⟩⟩
  obtain ⟨file, rfl⟩ := FileTable.exists_add_of_openAt hopened
  exact h.frame m.output m.input m.standardInput folder m.log (h.change hm (.openFile file))
    (k := m.control) rfl

/-- Files are written in the ways listed. -/
theorem writesFiles : (Coupling.keeping holds P allowed).WritesFiles := by
  rintro _ m _ id text ⟨rfl, hm⟩
  exact ⟨rfl, rfl, fun result files folder hwritten =>
    ⟨rfl, h.useFile folder hm (FileTable.eq_or_set_of_write hwritten)⟩⟩

/-- The basic changes keep an invariant. -/
theorem laws (hfault : ∀ cause, allowed (.fault (.onLine cause line)))
    (hunlocated : ∀ cause, allowed (.fault (.onLine cause 0)))
    (hunfinished : allowed .unfinished) (runner : Runner) :
    (Coupling.keeping holds P allowed).Laws runner runner line where
  weaken _ hrel := hrel
  pointers := h.pointers
  fault := hfault
  unlocated := hunlocated
  push := by
    rintro _ m _ value ⟨rfl, hm⟩ hvalue
    exact ⟨rfl, h.push hm hvalue⟩
  pop := by
    rintro _ m _ ⟨rfl, hm⟩
    cases hstack : m.stack with
    | nil => exact .inl ⟨rfl, rfl⟩
    | cons value stack =>
      obtain ⟨hvalue, hafter⟩ := h.pop hm hstack
      exact .inr ⟨value, stack, stack, rfl, rfl, hvalue, rfl, hafter⟩
  height := by
    rintro m _ ⟨rfl, -⟩
    rfl
  bindings := by
    rintro _ m _ ⟨rfl, hm⟩
    exact ⟨rfl, h.bindings hm⟩
  store := by
    rintro _ m _ name value ⟨rfl, hm⟩ hvalue
    exact ⟨rfl, h.store name hm hvalue⟩
  -- These change only what the invariant does not look at.
  log := by
    rintro _ m _ text ⟨rfl, hm⟩
    exact ⟨rfl, h.frame m.output m.input m.standardInput m.folder _ hm (k := m.control) rfl⟩
  write texts := by
    rintro ⟨rfl, hm⟩
    exact ⟨rfl, rfl, h.frame _ _ _ _ _ hm (k := Machine.control _) rfl⟩
  input := by
    rintro _ m _ ⟨rfl, hm⟩
    exact ⟨rfl, rfl, fun input standardInput =>
      ⟨rfl, h.frame m.output input standardInput m.folder m.log hm (k := m.control) rfl⟩⟩
  -- These change the resources in one of the ways listed.
  release := by
    rintro _ m _ target ⟨rfl, hm⟩
    rw [Effect.run_release]
    exact ⟨rfl, h.change hm (.free target)⟩
  isLive := by
    rintro _ m _ target ⟨rfl, -⟩
    rfl
  dereference := by
    rintro _ m _ p ⟨rfl, -⟩
    rfl
  close id := by
    rintro ⟨rfl, hm⟩
    exact ⟨rfl, rfl, h.change hm (.closeFile id)⟩
  read {_ m _} id := by
    rintro ⟨rfl, hm⟩
    cases hread : m.files.read m.folder id with
    | none => exact .none
    | some result =>
      exact .some ⟨rfl, rfl, h.useFile m.folder hm (FileTable.eq_or_set_of_read hread)⟩
  depth := by
    rintro _ m _ ⟨rfl, -⟩
    rfl
  -- The machine that is started is another one. Only its output comes back.
  nested path := by
    rintro ⟨rfl, hm⟩ -
    refine Coupling.sameNested_of_child_eq rfl (fun inner => ?_) hunfinished path
    exact ⟨rfl, h.frame _ _ _ _ _ hm (k := Machine.control _) rfl⟩

/-- So do requests, since they look at the heap limit first. -/
theorem acquisitionLaws : (Coupling.keeping holds P allowed).AcquisitionLaws where
  heap := by
    rintro _ m _ ⟨rfl, -⟩
    exact ⟨rfl, rfl⟩
  object tag size := by
    rintro _ m _ ⟨rfl, hm⟩ hfits
    exact .ok trivial ⟨rfl, h.change hm (.createObject m.host tag (fits_of_fitsHeapLimit hfits))⟩
  collected size := by
    rintro _ m _ ⟨rfl, hm⟩ hfits
    exact .ok trivial ⟨rfl, h.change hm (.createCollected m.host (fits_of_fitsHeapLimit hfits))⟩
  block size := by
    rintro _ m _ ⟨rfl, hm⟩ hfits
    exact .ok trivial ⟨rfl, h.change hm (.createBlock m.host (fits_of_fitsHeapLimit hfits))⟩
  file := h.opensAs _

/-- Blocks, loops and functions keep an invariant. -/
theorem controlLaws : (Coupling.keeping holds P allowed).ControlLaws where
  program := by
    rintro _ m _ ⟨rfl, -⟩
    rfl
  loops := by
    rintro _ m _ ⟨rfl, -⟩
    rfl
  functions := by
    rintro _ m _ ⟨rfl, -⟩
    rfl
  setLoops := by
    rintro _ m _ loops ⟨rfl, hm⟩
    exact ⟨rfl, h.move hm { m.control with loops } rfl⟩
  define := by
    rintro _ m _ name pc ⟨rfl, hm⟩
    exact ⟨rfl, h.move hm { m.control with
      functions := Entries.insert name pc m.functions, scopes := m.scopes + 1 } rfl⟩
  enter := by
    rintro _ m _ name ⟨rfl, hm⟩
    exact ⟨rfl, h.move hm { m.control with
      scopes := m.scopes + 1, overlay := m.overlay.enterCall name } rfl⟩
  leave := by
    rintro _ m _ ⟨rfl, hm⟩
    exact ⟨rfl, h.move hm { m.control with
      scopes := if 1 < m.scopes then m.scopes - 1 else m.scopes
      overlay := m.overlay.exitCall } rfl⟩

/-- So does moving in the program. -/
theorem positionLaws (hline : ∀ e line, allowed e → allowed (e.withLine line)) :
    (Coupling.keeping holds P allowed).PositionLaws where
  toControlLaws := h.controlLaws
  position := by
    rintro m _ ⟨rfl, -⟩
    rfl
  move := by
    rintro m _ pc ⟨rfl, hm⟩
    exact ⟨rfl, h.move hm { m.control with pc } rfl⟩
  halt := by
    rintro m _ ⟨rfl, hm⟩
    exact ⟨rfl, h.move hm { m.control with running := false } rfl⟩
  line := hline _ _

/-- A collection frees what it does not reach, and may report that. -/
theorem collectGarbage (hm : holds m) : holds m.collectGarbage.2 := by
  have hcollected := h.change hm (.collect m.rootHandles)
  unfold Machine.collectGarbage
  split
  · exact hm
  · dsimp only
    split
    · exact h.report hcollected _
    · exact hcollected

/-- Every instruction keeps an invariant. -/
theorem suits {instruction : Instruction}
    (hfault : ∀ cause, allowed (.fault (.onLine cause instruction.line)))
    (hunlocated : ∀ cause, allowed (.fault (.onLine cause 0)))
    (hunfinished : allowed .unfinished)
    (hliteral : ∀ value, instruction.literal = some value → value.All P) (runner : Runner) :
    (Coupling.keeping holds P allowed).Suits runner runner instruction where
  laws := h.laws hfault hunlocated hunfinished runner
  literal := hliteral
  control _ := h.controlLaws
  acquisition _ := h.acquisitionLaws
  collection _ := by
    rintro _ m _ ⟨rfl, hm⟩
    exact ⟨rfl, rfl, h.collectGarbage hm⟩

/-! ### Runs -/

/-- A step keeps an invariant, however it ends. -/
theorem step (hm : holds m) (runner : Runner) : holds ((Machine.step runner).run m).2 := by
  have hlaws : (Coupling.keeping holds P fun _ => True).PositionLaws :=
    h.positionLaws fun _ _ _ => trivial
  have hrel : (Coupling.keeping holds P fun _ => True).rel 2 m m := ⟨rfl, hm⟩
  have hends := hlaws.ends_step hrel id fun instruction hat =>
    ⟨h.suits (fun _ => trivial) (fun _ => trivial) trivial
      (h.literals hm instruction (List.mem_of_getElem? hat)) runner, instruction.reach_le_two⟩
  exact (hends.rel id).2

/-- What one step has led to. -/
theorem of_step (hm : holds m) {runner : Runner} {result : Except Interruption Unit}
    {after : Machine} (hstep : (Machine.step runner).run m = (result, after)) : holds after := by
  have hafter := h.step hm runner
  rwa [hstep] at hafter

/-- A line that is written keeps an invariant, also if it is refused. -/
theorem of_writeLine (hm : holds m) {text : String} {result : Except Interruption Unit}
    {after : Machine} (hwritten : (Effect.writeLine text).run m = (result, after)) :
    holds after := by
  have hlaws : (Coupling.keeping holds P fun _ => True).Laws _ _ 0 :=
    h.laws (fun _ => trivial) (fun _ => trivial) trivial fun m => (.unfinished, m)
  have hrel : (Coupling.keeping holds P fun _ => True).rel 0 m m := ⟨rfl, hm⟩
  have hafter := ((hlaws.coupled_writeLine text m m hrel).rel id).2
  rwa [hwritten] at hafter

theorem complete (hm : holds m) : holds m.complete.2 := by
  obtain ⟨output, log, hframe⟩ := m.complete_frame
  rw [hframe]
  exact h.frame output m.input m.standardInput m.folder log hm
    (k := { m.control with running := false, status := .halted }) rfl

theorem of_complete (hm : holds m) {outcome : Outcome Unit} {after : Machine}
    (hended : m.complete = (outcome, after)) : holds after := by
  have hafter := h.complete hm
  rwa [hended] at hafter

theorem fail (hm : holds m) (fault : Fault) : holds (m.fail fault) := by
  obtain ⟨output, log, hframe⟩ := m.fail_frame fault
  rw [hframe]
  exact h.frame output m.input m.standardInput m.folder log hm
    (k := { m.control with running := false, status := .halted }) rfl

/-- Native code has no access to anything but the output and the diagnostics. -/
theorem runNative (hm : holds m) : holds m.runNative.2 := by
  obtain ⟨output, log, hframe | ⟨result, hframe⟩⟩ := m.runNative_frame
  · rw [hframe]
    exact h.frame output m.input m.standardInput m.folder log hm (k := m.control) rfl
  · rw [hframe]
    exact h.complete (h.frame output m.input m.standardInput m.folder log hm
      (k := { m.control with lastResult := result }) rfl)

/-- What one step keeps, a run keeps. -/
theorem runSteps (hm : holds m) (runner : Runner) (steps : Nat) :
    holds (Machine.runSteps runner steps m).2 := by
  -- One case for each way the loop goes on or ends.
  fun_induction Machine.runSteps runner steps m with
  | case1 m _ => exact hm
  | case2 m _ steps next hnext ih => exact ih (h.of_step hm hnext)
  | case3 m _ steps next hnext => exact h.of_step hm hnext
  | case4 m _ steps fault next hnext => exact h.fail (h.of_step hm hnext) fault
  | case5 steps m _ => exact h.complete hm

theorem execute (hm : holds m) (steps : Nat) : holds (m.execute steps).2 := by
  have hnative := h.runNative hm
  unfold Machine.execute executeWith
  split
  · exact h.report hm _
  · split
    next hran =>
      rw [hran] at hnative
      exact hnative
    next after hran =>
      rw [hran] at hnative
      exact h.runSteps (h.move hnative after.start.control rfl) _ steps

/-- What one step keeps, a run under the overlay keeps. -/
theorem debugSteps (hm : holds m) (runner : Runner) (steps : Nat) :
    holds (Machine.debugSteps runner steps m).2 := by
  have hlooked : ∀ (m : Machine) (overlay : Overlay) (resumePc : Option Nat), holds m →
      holds { m with overlay, resumePc } := fun m overlay resumePc hm =>
    h.move hm { m.control with overlay, resumePc } rfl
  fun_induction Machine.debugSteps runner steps m with
  -- Pauses, which only announce themselves.
  | case1 steps m _ line overlay checked paused hpause =>
    exact hlooked _ _ _ (h.of_writeLine (hlooked m overlay m.resumePc hm) hpause)
  | case2 steps m _ line overlay checked paused hpause =>
    exact h.of_writeLine (hlooked m overlay m.resumePc hm) hpause
  | case3 steps m _ line overlay checked cause paused hpause =>
    exact h.of_writeLine (hlooked m overlay m.resumePc hm) hpause
  -- Steps, after the overlay has looked at the position.
  | case4 m _ line pauses overlay _ checked _ => exact hlooked m overlay m.resumePc hm
  | case5 m _ line pauses overlay _ checked _ steps next hnext ih =>
    exact ih (h.of_step (hlooked m overlay none hm) hnext)
  | case6 m _ line pauses overlay _ checked _ steps next hnext =>
    exact h.of_step (hlooked m overlay none hm) hnext
  | case7 m _ line pauses overlay _ checked _ steps fault next hnext =>
    exact h.fail (h.of_step (hlooked m overlay none hm) hnext) fault
  -- The end of the program.
  | case8 steps m _ after hended => exact h.of_complete hm hended
  | case9 steps m _ fault after hended => exact h.of_complete hm hended
  | case10 steps m _ after hended => exact h.of_complete hm hended

theorem executeDebug (hm : holds m) (steps : Nat) : holds (m.executeDebug steps).2 := by
  unfold Machine.executeDebug
  dsimp only
  split
  · exact hm
  · exact h.debugSteps (h.move hm
      { m.control with overlay := { m.overlay with debugging := true } } rfl) _ steps
  · split
    · exact h.debugSteps (h.move hm { m.start.control with
        overlay := { m.start.overlay with debugging := true } } rfl) _ steps
    · have hran := h.execute hm steps
      split
      next hended => rwa [hended] at hran
      next hended => rwa [hended] at hran
      next hended => rwa [hended] at hran

/-- A built-in function that is called from outside keeps an invariant, and what it returns has
pointers with the property if its arguments do. -/
theorem callBuiltin (hm : holds m) (steps : Nat) (name : String) {arguments : List Value}
    (harguments : ∀ argument ∈ arguments, argument.All P) :
    holds (m.callBuiltin steps name arguments).2 ∧
      ∀ value, (m.callBuiltin steps name arguments).1 = .done value → value.All P := by
  unfold Machine.callBuiltin
  split
  next => exact ⟨hm, fun value hvalue => by cases hvalue⟩
  next builtin _ =>
    have hlaws : (Coupling.keeping holds P fun _ => True).Laws _ _ 0 :=
      h.laws (fun _ => trivial) (fun _ => trivial) trivial (m.innerRunner steps)
    have hadmits : (Coupling.keeping holds P fun _ => True).Admits builtin arguments :=
      ⟨fun _ => h.acquisitionLaws, fun _ => h.opensAs _, fun _ _ => h.writesFiles⟩
    have hrel : (Coupling.keeping holds P fun _ => True).rel 0 m m := ⟨rfl, hm⟩
    have hends := hlaws.coupled_call hadmits harguments m m hrel
    have hafter := (hends.rel id).2
    have hresult := fun value => hends.post_of_ok (a := value) id
    split
    next value after hended =>
      rw [hended] at hafter hresult
      refine ⟨hafter, fun other hother => ?_⟩
      cases hother
      exact hresult value rfl
    next after hended =>
      rw [hended] at hafter
      exact ⟨hafter, fun value hvalue => by cases hvalue⟩
    next fault after hended =>
      rw [hended] at hafter
      exact ⟨hafter, fun value hvalue => by cases hvalue⟩

end Machine.Invariant

end StackMachine
