import StackMachine.Proofs.Machine.PointerFlow
import StackMachine.Proofs.Session.Collection

/-!
# References are never null

A reference is a pointer that refuses to become null. The user of a machine sees values of it: on
the operand stack and in variables whenever the machine is at rest, and as results of built-in
functions. These values may be passed to built-in functions again, as they are or as parts of other
values, at any later time, also when they have long left the machine.

However such a dialogue goes, no reference in the operand stack or in a variable is null, at
whatever depth inside lists and dictionaries it stands. A run may be cut off after any number of
steps, so this holds between any two instructions.

## Main definitions

* `Machine.IsBlank`: the machine has no program and no values.
* `Dialogue`: a machine with the values of it that its user has seen.
* `Dialogue.Reachable`: the dialogues in which a user passes on only pointers that were seen.
* `Machine.StoresOver`: the next instruction stores a pointer over a reference.

## Main results

* `Dialogue.Reachable.sound`: all pointers in a dialogue arise.
* `Instruction.run_storeIn_rebound` and `Instruction.run_storeIn_refused`: what storing a pointer
  over a reference does.
* `Dialogue.references_never_null`: no reference is null, and how storing keeps it so.
-/

namespace StackMachine

/-- The machine has no program, and neither its operand stack nor a variable holds anything. -/
structure Machine.IsBlank (m : Machine) : Prop where
  /-- The operand stack is empty. -/
  stack : m.stack = []
  /-- There are no variables. -/
  bindings : m.bindings = []
  /-- No program is loaded. -/
  program : m.program = []

/-- A machine with the values of it that its user has seen. -/
structure Dialogue where
  /-- The machine. -/
  machine : Machine
  /-- The values seen so far. -/
  seen : List Value := []

/-- The value that an operation returns; only a built-in function that does not fail returns one. -/
def Machine.returned? (m : Machine) : Operation → Option Value
  | .callBuiltin steps name arguments =>
    match (m.callBuiltin steps name arguments).1 with
    | .done value => some value
    | _ => none
  | _ => none

namespace Dialogue

/-- The values that the user can see or has seen. -/
def known (d : Dialogue) : List Value :=
  d.machine.stack ++ d.machine.bindings.values ++ d.seen

/-- The user may call a built-in function with values whose pointers were all seen in values of the
machine. All else may be done at any time. -/
def Admits (d : Dialogue) : Operation → Prop
  | .callBuiltin _ _ arguments =>
    ∀ argument ∈ arguments, ∀ p, argument.Contains p → ∃ value ∈ d.known, value.Contains p
  | _ => True

/-- The dialogue after an operation. What could be seen before it and what it returns have been
seen. -/
def perform (d : Dialogue) (operation : Operation) : Dialogue where
  machine := d.machine.perform operation
  seen := (d.machine.returned? operation).toList ++ d.known

/-- The dialogues with a machine that was blank at first, in which the user passes on only pointers
that were seen. -/
inductive Reachable : Dialogue → Prop
  /-- A blank machine, of which nothing was seen. -/
  | start {m : Machine} : m.IsBlank → Reachable { machine := m }
  /-- One more operation. -/
  | perform {d : Dialogue} (operation : Operation) :
      Reachable d → d.Admits operation → Reachable (d.perform operation)

/-- All pointers in the machine and in the values seen arise. -/
structure Sound (d : Dialogue) : Prop where
  /-- The pointers of the machine. -/
  machine : d.machine.Arising
  /-- The pointers in the values seen. -/
  seen : ∀ value ∈ d.seen, value.Arises

end Dialogue

namespace Machine

variable {m : Machine}

/-- A new machine holds no pointers at all. -/
theorem IsBlank.arising (h : m.IsBlank) : m.Arising where
  stack value hvalue := by
    rw [h.stack] at hvalue
    cases hvalue
  bindings entry hentry := by
    rw [h.bindings] at hentry
    cases hentry
  literals instruction hmem := by
    rw [h.program] at hmem
    cases hmem

/-- What an operation keeps of the pointers, if the arguments that it passes on arise. -/
theorem Arising.perform (h : m.Arising) (operation : Operation)
    (harguments : ∀ steps name arguments, operation = .callBuiltin steps name arguments →
      ∀ argument ∈ arguments, argument.Arises) :
    (m.perform operation).Arising ∧ ∀ value ∈ m.returned? operation, value.Arises := by
  have hsilent : ∀ {after : Machine}, after.Arising →
      after.Arising ∧ ∀ value ∈ (none : Option Value), value.Arises :=
    fun hafter => ⟨hafter, fun value hvalue => by cases hvalue⟩
  cases operation with
  | load source => exact hsilent (h.load source)
  | loadFile path => exact hsilent (h.loadFile path)
  | execute steps => exact hsilent (arising_invariant.execute h steps)
  | resume inner steps =>
    refine hsilent ?_
    simp only [Machine.perform]
    split
    · exact arising_invariant.runSteps h _ steps
    · exact h
  | executeDebug steps => exact hsilent (arising_invariant.executeDebug h steps)
  | reset => exact hsilent (arising_reset h.literals)
  | collectGarbage => exact hsilent (arising_invariant.collectGarbage h)
  | callBuiltin steps name arguments =>
    obtain ⟨hafter, hresult⟩ :=
      arising_invariant.callBuiltin h steps name (harguments steps name arguments rfl)
    refine ⟨hafter, fun value hvalue => hresult value ?_⟩
    -- A value is returned exactly if the call is done.
    simp only [returned?] at hvalue
    split at hvalue
    next result hdone =>
      rw [hdone, Option.some.inj hvalue]
    next => cases hvalue
  | request request => exact hsilent (h.of_same rfl rfl rfl)
  | surround host output input standardInput folder => exact hsilent (h.of_same rfl rfl rfl)

end Machine

namespace Dialogue

variable {d : Dialogue}

/-- The values that the user knows hold only pointers of the machine. -/
theorem Sound.known (h : d.Sound) : ∀ value ∈ d.known, value.Arises := by
  intro value hvalue
  rcases List.mem_append.mp hvalue with hvalue | hvalue
  · rcases List.mem_append.mp hvalue with hvalue | hvalue
    · exact h.machine.stack value hvalue
    · obtain ⟨entry, hentry, rfl⟩ := List.mem_map.mp hvalue
      exact h.machine.bindings entry hentry
  · exact h.seen value hvalue

/-- One operation keeps it so: a pointer that is passed on was seen, so it arises. -/
theorem Sound.perform (h : d.Sound) {operation : Operation} (hadmits : d.Admits operation) :
    (d.perform operation).Sound := by
  have harguments : ∀ steps name arguments, operation = .callBuiltin steps name arguments →
      ∀ argument ∈ arguments, argument.Arises := by
    rintro steps name arguments rfl argument hargument p hcontains
    obtain ⟨value, hvalue, hseen⟩ := hadmits argument hargument p hcontains
    exact h.known value hvalue p hseen
  obtain ⟨hmachine, hreturned⟩ := h.machine.perform operation harguments
  refine ⟨hmachine, fun value hvalue => ?_⟩
  rcases List.mem_append.mp hvalue with hvalue | hvalue
  · exact hreturned value (Option.mem_toList.mp hvalue)
  · exact h.known value hvalue

/-- However a dialogue goes, all pointers in it arise. -/
theorem Reachable.sound (h : d.Reachable) : d.Sound := by
  induction h with
  | start hblank => exact ⟨hblank.arising, fun value hvalue => by cases hvalue⟩
  | perform operation _ hadmits ih => exact ih.perform hadmits

end Dialogue

/-! ### Storing over a reference -/

/-- The next instruction stores a pointer in a variable that holds a reference. -/
structure Machine.StoresOver (m : Machine) (name : String) (stored held : Pointer) : Prop where
  /-- The instruction is a store in this variable. -/
  instruction : ∃ instruction, m.program[m.pc]? = some instruction ∧
    instruction.opcode = .store ∧ instruction.operand? = some name
  /-- The pointer is on top of the stack. -/
  top : m.stack.head? = some (.pointer stored)
  /-- The variable holds this pointer. -/
  binding : Entries.find? name m.bindings = some (.pointer held)
  /-- It is a reference. -/
  reference : held.reference = true

namespace Instruction

open Effect

variable {m : Machine} {name : String} {stored held : Pointer}

/-- A reference takes over the target of a pointer that is stored over it, and nothing else. -/
theorem run_storeIn_rebound (hheld : Entries.find? name m.bindings = some (.pointer held))
    (href : held.reference = true) (hne : stored.target ≠ .null) (line : Nat) :
    (storeIn name (.pointer stored) line).run m =
      (.ok (), { m with
        bindings :=
          Entries.insert name (.pointer { held with target := stored.target }) m.bindings }) := by
  have hrebound : held.rebind? stored.target = some { held with target := stored.target } :=
    Pointer.rebind?_eq_some_iff.mpr ⟨fun hnull => hne hnull.2, rfl⟩
  rw [storeIn, run_get_bind]
  simp only [hheld, href, hrebound, if_true]
  rfl

/-- A null pointer is not stored over a reference. -/
theorem run_storeIn_refused (hheld : Entries.find? name m.bindings = some (.pointer held))
    (href : held.reference = true) (hnull : stored.target = .null) (line : Nat) :
    (storeIn name (.pointer stored) line).run m =
      (.error (.fault (.onLine (.nullReference name) line)), m) := by
  have hrefused : held.rebind? stored.target = none := by
    simp [Pointer.rebind?, href, hnull]
  rw [storeIn, run_get_bind]
  simp only [hheld, href, hrefused, if_true]
  rfl

end Instruction

namespace Machine

open Effect

variable {m : Machine} {name : String} {stored held : Pointer}

/-- The instruction takes the pointer from the stack and stores it. -/
theorem StoresOver.run_execute (h : m.StoresOver name stored held) (runner : Runner) :
    ∃ instruction, m.program[m.pc]? = some instruction ∧
      (instruction.execute runner m.pc).run m =
        (Instruction.storeIn name (.pointer stored) instruction.line >>= fun _ =>
          pure .next : Effect Flow).run { m with stack := m.stack.tail } := by
  obtain ⟨instruction, hat, hopcode, hname⟩ := h.instruction
  obtain ⟨rest, hstack⟩ := List.head?_eq_some_iff.mp h.top
  refine ⟨instruction, hat, ?_⟩
  simp only [Instruction.execute, hopcode, hname]
  rw [run_bind_of_ok (run_popOr_cons _ hstack), run_bind_of_ok (run_orFail_some ..), hstack]
  rfl

/-- A store over a reference changes where the reference points. -/
theorem StoresOver.step_rebound (h : m.StoresOver name stored held) (hne : stored.target ≠ .null)
    (runner : Runner) :
    (step runner).run m =
      (.ok (), { m with
        stack := m.stack.tail
        bindings := Entries.insert name (.pointer { held with target := stored.target }) m.bindings
        pc := m.pc + 1 }) := by
  obtain ⟨instruction, hat, hrun⟩ := h.run_execute runner
  have hstored := Instruction.run_storeIn_rebound (m := { m with stack := m.stack.tail }) h.binding
    h.reference hne instruction.line
  exact step_next hat (hrun.trans (run_bind_of_ok hstored))

/-- A null pointer is refused, on the line of the instruction. -/
theorem StoresOver.step_refused (h : m.StoresOver name stored held) (hnull : stored.target = .null)
    (runner : Runner) :
    ∃ instruction, m.program[m.pc]? = some instruction ∧ (step runner).run m =
      (.error (.fault (instruction.fault (.nullReference name))),
        { m with stack := m.stack.tail }) := by
  obtain ⟨instruction, hat, hrun⟩ := h.run_execute runner
  have hrefused := Instruction.run_storeIn_refused (m := { m with stack := m.stack.tail }) h.binding
    h.reference hnull instruction.line
  exact ⟨instruction, hat, step_fault hat (hrun.trans (run_bind_of_error hrefused))⟩

end Machine

namespace Dialogue

/-- **References are never null.** In every dialogue in which only pointers of the machine are
passed to its built-in functions, no reference in the operand stack or in a variable is null, at any
depth inside lists and dictionaries. From whatever state, a store of a pointer over a reference
changes nothing of the reference but its target, and none of the other variables; if the pointer is
null, it fails for lack of access and no variable changes. -/
theorem references_never_null :
    (∀ d : Dialogue, d.Reachable →
      ∀ p, d.machine.Holds p → p.reference = true → p.target ≠ .null) ∧
    ∀ (m : Machine) (name : String) (stored held : Pointer), m.StoresOver name stored held →
      ∀ runner : Runner,
        (stored.target ≠ .null →
          ∃ after, (Machine.step runner).run m = (.ok (), after) ∧
            Entries.find? name after.bindings = some (.pointer
              { target := stored.target, tag := held.tag, weak := held.weak, reference := true }) ∧
            ∀ other, other ≠ name →
              Entries.find? other after.bindings = Entries.find? other m.bindings) ∧
        (stored.target = .null →
          ∃ fault after, (Machine.step runner).run m = (.error (.fault fault), after) ∧
            fault.cause.kind = .access ∧ after.bindings = m.bindings) := by
  refine ⟨fun d hd p hholds href => ?_, fun m name stored held h runner => ⟨fun hne => ?_,
    fun hnull => ?_⟩⟩
  -- A pointer that is held arises, and a reference that arises is not null.
  · have hmachine := hd.sound.machine
    rcases hholds with ⟨value, hvalue, hcontains⟩ | ⟨entry, hentry, hcontains⟩
    · exact (hmachine.stack value hvalue p hcontains).target_ne_null href
    · exact (hmachine.bindings entry hentry p hcontains).target_ne_null href
  · refine ⟨_, h.step_rebound hne runner, ?_, fun other hother => ?_⟩
    · rw [Entries.find?_insert, if_pos rfl, h.reference]
    · rw [Entries.find?_insert, if_neg hother.symm]
  · obtain ⟨instruction, -, hstep⟩ := h.step_refused hnull runner
    exact ⟨_, _, hstep, rfl, rfl⟩

/-- The reference to the first object. -/
def firstReference : Pointer := { target := .object 1, tag := "object", reference := true }

/-- A machine that has put a reference on the stack and into a variable. -/
def referring : Dialogue :=
  (({ machine := {} } : Dialogue).perform (.load "PTR_new ref\nSTORE kept\nLOAD kept")).perform
    (.execute 9)

/-- Its next instruction would store a null pointer over a reference. -/
def overwriting : Machine where
  program := [{ opcode := .store, operands := ["kept"], line := 1 }]
  stack := [.pointer (.null "object")]
  bindings := [("kept", .pointer firstReference)]

/-- A pointer on top of the stack is contained in a value of the stack. -/
theorem contains_of_top {stack : List Value} {p : Pointer}
    (h : stack.head?.bind Value.pointer? = some p) : ∃ value ∈ stack, value.Contains p := by
  obtain ⟨value, hvalue, hpointer⟩ := Option.bind_eq_some_iff.mp h
  refine ⟨value, List.mem_of_mem_head? hvalue, ?_⟩
  cases value with
  | pointer q =>
    obtain rfl := Option.some.inj hpointer
    exact .pointer
  | _ => cases hpointer

/-- A reference is passed out of the machine and into it again, and refuses null. -/
theorem references_never_null_referring :
    (referring.perform (.callBuiltin 0 "list" [.pointer firstReference])).Reachable ∧
      (referring.perform (.callBuiltin 0 "list" [.pointer firstReference])).machine.Holds
        firstReference ∧
      firstReference.reference = true ∧ firstReference.target ≠ .null ∧
      overwriting.StoresOver "kept" (.null "object") firstReference ∧
      ∃ fault after,
        (Machine.step fun m => (.unfinished, m)).run overwriting = (.error (.fault fault), after) ∧
          fault.cause.kind = .access ∧ after.bindings = overwriting.bindings := by
  obtain ⟨hnever, hstore⟩ := references_never_null
  have hstart : Reachable { machine := {} } := .start ⟨rfl, rfl, rfl⟩
  -- The only pointer that is passed on is on top of the stack.
  have hadmits : referring.Admits (.callBuiltin 0 "list" [.pointer firstReference]) := by
    intro argument hargument p hcontains
    obtain rfl := List.mem_singleton.mp hargument
    cases hcontains
    have htop : referring.machine.stack.head?.bind Value.pointer? = some firstReference := by
      decide +kernel
    obtain ⟨value, hvalue, hcontains⟩ := contains_of_top htop
    exact ⟨value, List.mem_append_left _ (List.mem_append_left _ hvalue), hcontains⟩
  have hreachable :
      (referring.perform (.callBuiltin 0 "list" [.pointer firstReference])).Reachable :=
    .perform _ (.perform _ (.perform _ hstart trivial) trivial) hadmits
  have hholds : (referring.perform (.callBuiltin 0 "list" [.pointer firstReference])).machine.Holds
      firstReference := .inl (contains_of_top (by decide +kernel))
  have hover : overwriting.StoresOver "kept" (.null "object") firstReference :=
    ⟨⟨_, rfl, rfl, rfl⟩, rfl, rfl, rfl⟩
  exact ⟨hreachable, hholds, rfl, hnever _ hreachable _ hholds rfl, hover,
    (hstore _ _ _ _ hover _).2 rfl⟩

end Dialogue

end StackMachine
