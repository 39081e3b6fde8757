import StackMachine.Proofs.Machine.Invariant

/-!
# Where pointers go

Instructions and built-in functions put pointers on the operand stack and into variables. Each of
these pointers arises in one of the ways that `Pointer.Arises` lists, or is a copy of one that was
there before. So all pointers of a machine arise, however its runs end, are paused or are cut off.
What holds of all pointers that arise holds of all pointers of a machine.

## Main definitions

* `Machine.Arising`: all pointers in the operand stack, in the variables and in the literals of the
  program arise.

## Main results

* `Machine.arising_invariant`: no step, no run and no call puts a pointer anywhere that does not
  arise, and what built-in functions return arises if their arguments do.
* `Machine.Arising.load`: nor does a program that is loaded.
-/

namespace StackMachine

namespace Machine

variable {m : Machine}

/-- All pointers in the operand stack, in the variables and in the literals of the program arise. -/
structure Arising (m : Machine) : Prop where
  /-- The pointers in the operand stack. -/
  stack : ∀ value ∈ m.stack, value.Arises
  /-- The pointers in the variables. -/
  bindings : ∀ entry ∈ m.bindings, entry.2.Arises
  /-- The pointers in the literals of the program. -/
  literals : ∀ instruction ∈ m.program, ∀ value, instruction.literal = some value → value.Arises

/-- What else of a machine changes does not matter. -/
theorem Arising.of_same (h : m.Arising) {after : Machine} (hstack : after.stack = m.stack)
    (hbindings : after.bindings = m.bindings) (hprogram : after.program = m.program) :
    after.Arising where
  stack := hstack ▸ h.stack
  bindings := hbindings ▸ h.bindings
  literals := hprogram ▸ h.literals

/-- What is put on the stack has to arise. -/
theorem Arising.push (h : m.Arising) {value : Value} (hvalue : value.Arises) :
    Arising { m with stack := value :: m.stack } where
  stack := List.forall_mem_cons.mpr ⟨hvalue, h.stack⟩
  bindings := h.bindings
  literals := h.literals

/-- What is taken from the stack arises. -/
theorem Arising.pop (h : m.Arising) {value : Value} {stack : List Value}
    (hstack : m.stack = value :: stack) : value.Arises ∧ Arising { m with stack } := by
  obtain ⟨hvalue, hrest⟩ := List.forall_mem_cons.mp (hstack ▸ h.stack)
  exact ⟨hvalue, ⟨hrest, h.bindings, h.literals⟩⟩

/-- What is stored in a variable has to arise. -/
theorem Arising.insert (h : m.Arising) (name : String) {value : Value} (hvalue : value.Arises) :
    Arising { m with bindings := Entries.insert name value m.bindings } where
  stack := h.stack
  bindings entry hentry := by
    rcases Entries.mem_insert hentry with rfl | hentry
    · exact hvalue
    · exact h.bindings entry hentry
  literals := h.literals

/-- Whatever a machine does, all its pointers arise. -/
theorem arising_invariant : Invariant Arising Pointer.Arises where
  pointers := Pointer.closed_arises
  frame _ _ _ _ _ h hprogram := h.of_same rfl rfl hprogram
  change h _ := h.of_same rfl rfl rfl
  push h := h.push
  pop h := h.pop
  bindings := Arising.bindings
  store name h := h.insert name
  literals := Arising.literals

/-- Nothing is left on the stack and in the variables after a reset. -/
theorem arising_reset (h : ∀ instruction ∈ m.program, ∀ value,
    instruction.literal = some value → value.Arises) : m.reset.Arising where
  stack _ hvalue := absurd hvalue List.not_mem_nil
  bindings _ hentry := absurd hentry List.not_mem_nil
  literals := h

/-- The literals of a program that is loaded are plain. -/
theorem Arising.load (h : m.Arising) (source : String) : (m.load source).2.Arising := by
  unfold Machine.load
  dsimp only
  split
  · exact h
  · exact arising_reset fun instruction hmem value hliteral =>
      .of_isPlain (Program.isPlain_literal hmem hliteral)

theorem Arising.loadFile (h : m.Arising) (path : String) : (m.loadFile path).2.Arising := by
  unfold Machine.loadFile
  split
  · exact h.load _
  · exact h

end Machine

end StackMachine
