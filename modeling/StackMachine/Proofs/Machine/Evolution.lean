import StackMachine.Proofs.Machine.Invariant

/-!
# What runs do to memory and files

Whatever a machine does, from one instruction to a whole run, it leaves its settings as they are and
changes memory and files only in the ways that `Resources.Change` lists. In particular, no block is
asked for without a look at the heap limit.

## Main definitions

* `Machine.Evolves`: how a machine and a later state of it are related.

## Main results

* `Machine.evolution`: to have evolved from a machine is an invariant.
* `Machine.evolves_runSteps`, `Machine.evolves_execute` and `Machine.evolves_executeDebug`: runs
  only lead to states that the machine evolves into.
* `Machine.evolves_callBuiltin`: so do built-in functions.
-/

namespace StackMachine

namespace Machine

/-- The settings are the same, and changes lead from the one's resources to the other's. -/
structure Evolves (m after : Machine) : Prop where
  /-- The settings never change. -/
  settings : after.settings = m.settings
  /-- Memory and files change only in the ways listed. -/
  changes : Resources.Changes m.settings.heapLimit m.resources after.resources

/-- What has neither changed its settings nor its resources. -/
theorem Evolves.of_same {m after : Machine} (hsettings : after.settings = m.settings)
    (hresources : after.resources = m.resources) : m.Evolves after :=
  ⟨hsettings, by rw [hresources]⟩

theorem Evolves.refl (m : Machine) : m.Evolves m := .of_same rfl rfl

/-- So are two ways one after the other. -/
theorem Evolves.trans {m middle after : Machine} (hbefore : m.Evolves middle)
    (hafter : middle.Evolves after) : m.Evolves after where
  settings := hafter.settings.trans hbefore.settings
  changes := hbefore.changes.trans (by
    have hchanges := hafter.changes
    rwa [hbefore.settings] at hchanges)

/-- A single change. -/
theorem Evolves.of_change {m after : Machine} (hsettings : after.settings = m.settings)
    (hchange : Resources.Change m.settings.heapLimit m.resources after.resources) :
    m.Evolves after :=
  ⟨hsettings, .single hchange⟩

/-- What a machine has evolved into goes on evolving. -/
theorem evolution (start : Machine) : Invariant start.Evolves fun _ => True where
  pointers := Pointer.closed_true
  frame _ _ _ _ _ h _ := h.trans (.of_same rfl rfl)
  change h hchange := h.trans (.of_change rfl hchange)
  push h _ := h.trans (.of_same rfl rfl)
  pop h _ := ⟨Value.all_true _, h.trans (.of_same rfl rfl)⟩
  bindings _ _ _ := Value.all_true _
  store _ h _ := h.trans (.of_same rfl rfl)
  literals _ _ _ _ _ := Value.all_true _

variable (m : Machine)

/-- A reset gives everything back. -/
theorem evolves_reset : m.Evolves m.reset := .of_change rfl .clear

/-- A program that is refused changes nothing, another one comes with a reset. -/
theorem evolves_load (source : String) : m.Evolves (m.load source).2 := by
  unfold load
  dsimp only
  split
  · exact .refl m
  · exact .of_change rfl .clear

/-- A file is loaded as its text is, and one that cannot be read changes nothing. -/
theorem evolves_loadFile (path : String) : m.Evolves (m.loadFile path).2 := by
  unfold loadFile
  split
  · exact m.evolves_load _
  · exact .refl m

/-- A collection frees objects of the collector and their blocks. -/
theorem evolves_collectGarbage : m.Evolves m.collectGarbage.2 :=
  m.evolution.collectGarbage (.refl m)

/-! ### Runs -/

/-- However a run ends, the machine has evolved. -/
theorem evolves_runSteps (runner : Runner) (steps : Nat) :
    m.Evolves (runSteps runner steps m).2 := m.evolution.runSteps (.refl m) runner steps

/-- Running a program evolves the resources. -/
theorem evolves_execute (steps : Nat) : m.Evolves (m.execute steps).2 :=
  m.evolution.execute (.refl m) steps

theorem evolves_executeDebug (steps : Nat) : m.Evolves (m.executeDebug steps).2 :=
  m.evolution.executeDebug (.refl m) steps

/-- A built-in function that is called from outside may also ask for memory and files. -/
theorem evolves_callBuiltin (steps : Nat) (name : String) (arguments : List Value) :
    m.Evolves (m.callBuiltin steps name arguments).2 :=
  (m.evolution.callBuiltin (.refl m) steps name fun _ _ => Value.all_true _).1

end Machine

end StackMachine
