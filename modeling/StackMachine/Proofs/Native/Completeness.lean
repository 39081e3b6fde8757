import Mathlib.Algebra.Group.Nat.Defs
import Mathlib.Data.List.Forall2
import StackMachine.Proofs.Machine.Control
import StackMachine.Proofs.Native.Correctness
import StackMachine.Proofs.Native.Refusal

/-!
# The compiler is complete

A program without control flow is compiled whenever the interpreter gets through it on integers and
truth values whose results fit. The compiler follows the interpreter: what it knows at an
instruction are the values and variables that the interpreter has there, so it never lacks the
divisor that it has to know.

## Main definitions

* `Native.Known.Stands`, `Native.Draft.Knows`: the constants that are known are the values.
* `Native.Draft.RefusesAfter`: the instruction at which the compiler gives up.
* `Machine.Fits`: the values on the stack have a native form, and the next result fits.

## Main results

* `Native.Draft.Tracks.after_execute`: what is known after an instruction that the interpreter
  executes.
* `Native.Draft.exists_instructions_of_trace`: the instructions that a run executes are compiled.
* `Native.Draft.exists_division_of_error`: a division is only refused for its operands.
* `Native.assembleIn_of_interpreted`: the programs that are compiled.
-/

namespace StackMachine

namespace Machine

variable {runner : Runner} {m : Machine}

/-- The operands of the next instruction, if it divides integers or takes a remainder. -/
def dividing? (m : Machine) : Option (Int64 × Int64) :=
  m.program[m.pc]?.bind fun instruction => instruction.dividing? m.stack

/-- Every value on the stack has a native form, and the next instruction does not overflow. -/
def Fits (m : Machine) : Prop :=
  (∀ value ∈ m.stack, value.hasNativeForm = true) ∧
    ∀ instruction ∈ m.program[m.pc]?, ¬ instruction.Overflows m.stack

instance (m : Machine) : Decidable m.Fits := inferInstanceAs (Decidable (_ ∧ _))

/-! ### Runs that come to an end -/

/-- A run that is known by its positions comes through machines. -/
theorem Steps.exists_trace {last : Machine} {positions : List Nat}
    (h : Steps runner m positions last) : ∃ states, Trace runner m states last := by
  induction h with
  | refl m => exact ⟨[], .refl m⟩
  | step hcan hstep _ ih =>
    obtain ⟨states, htrace⟩ := ih
    exact ⟨_, .step hcan hstep htrace⟩

/-- A run that succeeds passes through its states to one where nothing is left to execute. -/
theorem exists_trace_of_done {steps : Nat} (h : (runSteps runner steps m).1 = .done ()) :
    ∃ states last, Trace runner m states last ∧ last.canStep = false := by
  have hfinished : (runSteps runner steps m).1 ≠ .unfinished := by
    rw [h]
    exact nofun
  obtain ⟨positions, last, hsteps, hstops⟩ := exists_steps_of_runSteps hfinished
  obtain ⟨states, htrace⟩ := hsteps.exists_trace
  refine ⟨states, last, htrace, ?_⟩
  generalize hended : runSteps runner steps m = ended at h hstops
  cases hstops with
  | complete hcan => exact hcan
  | fault => cases h

/-- A step that succeeds is the execution of an instruction. -/
theorem exists_execute_of_step {instruction : Instruction} {following : Machine}
    (hat : m.program[m.pc]? = some instruction)
    (hstep : (step runner).run m = (.ok (), following)) :
    ∃ flow after, (instruction.execute runner m.pc).run m = (.ok flow, after) ∧
      following.stack = after.stack ∧
      (flow = .next → following = { after with pc := m.pc + 1 }) := by
  rw [run_step hat] at hstep
  generalize (instruction.execute runner m.pc).run m = result at hstep ⊢
  obtain ⟨e | flow, after⟩ := result
  · cases hstep
  · refine ⟨flow, after, rfl, ?_⟩
    cases flow <;> cases hstep
    · exact ⟨rfl, fun _ => rfl⟩
    · exact ⟨rfl, nofun⟩
    · exact ⟨rfl, nofun⟩

/-- A run stays where it is, or goes on from where the first step leads. -/
theorem Trace.eq_or_next {last : Machine} {states : List Machine}
    (h : Trace runner m states last) :
    last = m ∨ m.canStep = true ∧
      ∃ rest, Trace runner ((Machine.step runner).run m).2 rest last := by
  cases h with
  | refl => exact Or.inl rfl
  | step hcan hstep hrest =>
    rw [hstep]
    exact Or.inr ⟨hcan, _, hrest⟩

end Machine

namespace Native

variable {slots : List String} {address : Int64} {order : Nat → List Nat} {program : Program}
  {instruction : Instruction} {m : Machine} {pc : Nat} {runner : Runner} {error : CompileError}

/-- The constant is known and is the value. -/
def Known.Stands (known : Known) (value : Value) : Prop :=
  known.constant = some value.toInt64 ∧ known.value? = some value

theorem Known.stands_of_ofValue? {known : Known} {value : Value}
    (h : ofValue? value = some known) : known.Stands value := by
  refine ⟨?_, value?_of_ofValue? h⟩
  rw [constant_of_ofValue? h, toInt64_of_ofValue? h]

namespace Draft

variable {draft next last : Draft} {code : List Operation}

/-- The constants on the stack and in the variables are known, and are the values of the machine. A
variable that was never set is zero on both sides. -/
structure Knows (draft : Draft) (m : Machine) : Prop where
  stack : List.Forall₂ Known.Stands draft.stack m.stack
  bindings : ∀ name, Known.Stands ((Entries.find? name draft.bindings).getD .zero)
    ((Entries.find? name m.bindings).getD (.int 0))

theorem Tracks.knows (h : draft.Tracks m) : draft.Knows m where
  stack := by
    have hstack : List.Forall₂ (fun known value => some known = Known.ofValue? value)
        draft.stack m.stack := by
      rw [← List.forall₂_map_right_iff, ← List.forall₂_map_left_iff, List.forall₂_eq_eq_eq]
      exact h.stack.symm
    exact hstack.imp fun known value hknown => Known.stands_of_ofValue? hknown.symm
  bindings name := Known.stands_of_ofValue? (h.bound name)

/-! ### One instruction -/

/-- What is known after an instruction that the interpreter executes is right again. -/
theorem Tracks.after_execute {after : Machine} {position : Nat} {flow : Flow} (hnodup : slots.Nodup)
    (h : draft.instruction slots address instruction pc = .ok (code, next))
    (htracks : draft.Tracks m)
    (hrun : (instruction.execute runner position).run m = (.ok flow, after)) :
    flow = .next ∧ next.Tracks after ∧ after.program = m.program ∧ after.running = m.running := by
  -- The stream took what was printed, or else the interpreter would have failed.
  have hput : ∀ value, instruction.printed? m.stack = some value →
      (m.output.putLine value.text).1 = .ok () := by
    intro value hvalue
    rw [Instruction.printed?] at hvalue
    split at hvalue
    next hop =>
      obtain ⟨values, hstack⟩ := List.head?_eq_some_iff.mp hvalue
      cases hwrite : m.output.putLine value.text with
      | mk result sink =>
        cases result with
        | ok _ => rfl
        | error reason =>
          rw [Instruction.run_execute_print_refused hop hstack hwrite] at hrun
          cases hrun
    next => cases hvalue
  obtain ⟨platform, rfl⟩ : ∃ platform : Platform, platform.printAddress = address :=
    ⟨{ printAddress := address }, rfl⟩
  obtain ⟨_, hexecute, hnext, hafter, -⟩ := agrees_instruction hnodup hput h htracks
  rw [hexecute] at hrun
  cases hrun
  rw [hafter]
  exact ⟨rfl, hafter ▸ hnext, rfl, rfl⟩

/-- An instruction that the interpreter executes, and after which all values have a native form, is
compiled unless it overflows. -/
theorem exists_code_of_execute {after : Machine} {position : Nat} {flow : Flow} (address : Int64)
    (pc : Nat) (hkind : instruction.hasNativeForm = true)
    (hslots : ∀ name, slotName? instruction = some name → name ∈ slots)
    (hfits : ¬ instruction.Overflows m.stack) (htracks : draft.Tracks m)
    (hrun : (instruction.execute runner position).run m = (.ok flow, after))
    (hvalues : ∀ value ∈ after.stack, value.hasNativeForm = true) :
    ∃ code next, draft.instruction slots address instruction pc = .ok (code, next) := by
  have hfine : ¬ instruction.Fails m := by
    rintro ⟨cause, failed, hfails⟩
    rw [hfails] at hrun
    cases hrun
  cases hcode : draft.instruction slots address instruction pc with
  | ok emitted => exact ⟨_, _, rfl⟩
  | error error =>
    cases refused_instruction hkind hslots hcode htracks with
    | fault hfails => exact absurd hfails hfine
    | value hexecute hmem hform =>
      rw [hexecute] at hrun
      cases hrun
      rw [hvalues _ hmem] at hform
      cases hform
    | zeroDivisor hzero => exact absurd (Instruction.fails_of_dividing_zero hzero) hfine
    | quotient hleast => exact absurd (Or.inl hleast) hfits
    | negation hleast => exact absurd (Or.inr hleast) hfits

/-! ### Runs -/

/-- One more instruction in front of those that are compiled. -/
theorem instructions_cons {first : Instruction} {more : List Operation}
    (hfirst : draft.instruction slots address first pc = .ok (code, next))
    (hmore : next.instructions slots address program (pc + 1) = .ok (more, last)) :
    draft.instructions slots address (first :: program) pc = .ok (code ++ more, last) := by
  rw [instructions, hfirst]
  exact congrArg (· >>= fun emitted => .ok (code ++ emitted.1, emitted.2)) hmore

/-- The instructions that a run executes are compiled, and what is known after them is right. -/
theorem exists_instructions_of_trace {states : List Machine} {final : Machine} (address : Int64)
    (pc : Nat) (hnodup : slots.Nodup)
    (hkinds : ∀ instruction ∈ m.program, instruction.hasNativeForm = true)
    (hslots : ∀ instruction ∈ m.program, ∀ name, slotName? instruction = some name → name ∈ slots)
    (hfits : ∀ states state, Machine.Trace runner m states state → state.Fits)
    (htracks : draft.Tracks m) (htrace : Machine.Trace runner m states final) :
    ∃ code last, draft.instructions slots address ((m.program.drop m.pc).take states.length) pc =
        .ok (code, last) ∧ last.Tracks final ∧
      final.program = m.program ∧ final.pc = m.pc + states.length ∧
      final.running = m.running := by
  -- The compiler takes one step for each of the interpreter's.
  induction htrace generalizing draft pc with
  | refl m => exact ⟨[], draft, rfl, htracks, rfl, rfl, rfl⟩
  | @step m following final states hcan hstep _ ih =>
    obtain ⟨instruction, hat⟩ := Machine.exists_instruction_of_canStep hcan
    have hmem : instruction ∈ m.program := List.mem_of_getElem? hat
    have hfollowing : following.Fits := hfits [m] _ (.step hcan hstep (.refl following))
    obtain ⟨flow, after, hexecute, hstack, hnext⟩ := Machine.exists_execute_of_step hat hstep
    obtain ⟨operations, drafted, hfirst⟩ := exists_code_of_execute address pc
      (hkinds _ hmem) (hslots _ hmem) ((hfits [] m (.refl m)).2 _ hat) htracks hexecute
      (hstack ▸ hfollowing.1)
    obtain ⟨rfl, htracks', hprogram, hrunning⟩ := htracks.after_execute hnodup hfirst hexecute
    obtain rfl := hnext rfl
    obtain ⟨more, last, hmore, hlast, hsame, hpc, halive⟩ := ih (pc + 1) (hprogram ▸ hkinds)
      (hprogram ▸ hslots) (fun _ _ h => hfits _ _ (.step hcan hstep h))
      ⟨htracks'.stack, htracks'.bound, htracks'.loops⟩
    refine ⟨operations ++ more, last, ?_, hlast, hsame.trans hprogram, ?_, halive.trans hrunning⟩
    · have hdrop : m.program.drop m.pc = instruction :: m.program.drop (m.pc + 1) := by
        obtain ⟨hlt, rfl⟩ := List.getElem?_eq_some_iff.mp hat
        exact List.drop_eq_getElem_cons hlt
      dsimp only at hmore
      rw [hprogram] at hmore
      rw [hdrop, List.length_cons, List.take_succ_cons]
      exact instructions_cons hfirst hmore
    · rw [hpc, List.length_cons, Nat.add_comm states.length, ← Nat.add_assoc]

/-- Instructions that are refused are refused at one of them, and those before it are compiled. -/
theorem exists_refused_of_error
    (h : draft.instructions slots address program pc = .error error) :
    ∃ before instruction rest code last, program = before ++ instruction :: rest ∧
      draft.instructions slots address before pc = .ok (code, last) ∧
      last.instruction slots address instruction (pc + before.length) = .error error := by
  induction program generalizing draft pc with
  | nil => cases h
  | cons first program ih =>
    rw [instructions] at h
    rcases error_or_of_bind_eq_error h with hfirst | ⟨⟨operations, next⟩, hfirst, h⟩
    · exact ⟨[], first, program, [], draft, rfl, rfl, hfirst⟩
    · rcases error_or_of_bind_eq_error h with hmore | ⟨_, -, h⟩
      · obtain ⟨before, instruction, rest, code, last, rfl, hbefore, hrefused⟩ := ih hmore
        refine ⟨first :: before, instruction, rest, operations ++ code, last, rfl,
          instructions_cons hfirst hbefore, ?_⟩
        rw [List.length_cons, Nat.add_comm before.length, ← Nat.add_assoc]
        exact hrefused
      · cases h

/-- The compiler gets through so many instructions of a program and refuses the next one. -/
def RefusesAfter (address : Int64) (program : Program) (count : Nat) (error : CompileError) :
    Prop :=
  ∃ code draft instruction, program[count]? = some instruction ∧
    Draft.instructions {} (slotNames program) address (program.take count) 0 = .ok (code, draft) ∧
    draft.instruction (slotNames program) address instruction count = .error error

/-- A division is only refused if the interpreter comes to it with a zero divisor, or with the
least integer to be divided by minus one. -/
theorem exists_division_of_error
    (hkinds : ∀ instruction ∈ program, instruction.hasNativeForm = true)
    (haccepts : m.output.Accepts) (hdivision : error.isDivision = true)
    (h : Draft.instructions {} (slotNames program) address program 0 = .error error) :
    ∃ states state left right,
      (∀ runner, Machine.Trace runner ({ m with program }.reset).start states state) ∧
      RefusesAfter address program states.length error ∧ state.dividing? = some (left, right) ∧
      ((∃ operator, error = .unknownDivisor operator) ∧ right = 0 ∨
        error = .divisionOverflow ∧ left = Int64.minValue ∧ right = -1) := by
  obtain ⟨before, instruction, rest, code, last, hprogram, hbefore, hrefused⟩ :=
    exists_refused_of_error h
  have hmem : instruction ∈ program := by simp [hprogram]
  -- The interpreter executes what was compiled and comes to the instruction that was refused.
  obtain ⟨platform, rfl⟩ : ∃ platform : Platform, platform.printAddress = address :=
    ⟨{ printAddress := address }, rfl⟩
  obtain ⟨states, state, haccompanies, hlength⟩ := accompanies_next (nodup_slotNames program)
    hbefore (Nat.le_refl _) (tracks_start m program) haccepts rfl
    ⟨instruction :: rest, hprogram.symm⟩
  have hnext : program[states.length]? = some instruction := by
    rw [hlength, hprogram]
    simp
  have hat : state.program[state.pc]? = some instruction := by
    have hpc : state.pc = 0 + states.length := congrArg Machine.pc haccompanies.same
    have hsame : state.program = program := congrArg Machine.program haccompanies.same
    rw [hpc, hsame, Nat.zero_add, hnext]
  have hposition : RefusesAfter platform.printAddress program states.length error := by
    rw [Nat.zero_add] at hrefused
    refine ⟨code, last, instruction, hnext, ?_, ?_⟩
    · rw [hlength]
      nth_rewrite 2 [hprogram]
      rwa [List.take_left]
    · rwa [hlength]
  have hdividing : state.dividing? = instruction.dividing? state.stack := by
    rw [Machine.dividing?, hat]
    rfl
  have hreason := refused_instruction (hkinds _ hmem) (fun name => mem_slotNames hmem) hrefused
    haccompanies.tracks
  cases hreason with
  | fault _ hother | value _ _ _ hother =>
    rw [hother] at hdivision
    cases hdivision
  | zeroDivisor hzero =>
    exact ⟨states, state, _, _, haccompanies.trace, hposition, hdividing.trans hzero,
      Or.inl ⟨⟨_, rfl⟩, rfl⟩⟩
  | quotient hleast =>
    exact ⟨states, state, _, _, haccompanies.trace, hposition, hdividing.trans hleast,
      Or.inr ⟨rfl, rfl, rfl⟩⟩
  | negation => cases hdivision

end Draft

/-! ### Whole programs -/

theorem isStraightLine_of_hasNativeForm
    (hkinds : ∀ instruction ∈ program, instruction.hasNativeForm = true) :
    isStraightLine program = true := by
  rw [isStraightLine, List.all_eq_true]
  intro instruction hmem
  have hkind := hkinds instruction hmem
  cases hop : instruction.opcode <;> simp [Instruction.hasNativeForm, hop] at hkind ⊢

/-- So many variables fit into a frame that the code can address. -/
theorem frameSize_lt {count : Nat} (h : count < 2 ^ 27) : frameSize count < 0x80000000 := by
  have hsize := (Layout.frameSize_le count).2.1
  omega

/-- The places of few variables do not overflow. -/
theorem any_isNone_slotPlace? {count : Nat} (h : count < 2 ^ 27) :
    ((List.range count).any fun index => (slotPlace? index).isNone) = false := by
  rw [List.any_eq_false]
  intro index hmem
  have hindex := List.mem_range.mp hmem
  rw [slotPlace?_eq (by omega)]
  exact Bool.false_ne_true

/-- Nothing but an instruction stands in the way of a program without control flow and with few
variables. -/
theorem assembleIn_eq (order : Nat → List Nat) (address : Int64)
    (hkinds : ∀ instruction ∈ program, instruction.hasNativeForm = true)
    (hcount : (slotNames program).length < 2 ^ 27) :
    assembleIn order address program =
      (Draft.instructions {} (slotNames program) address program 0).map fun emitted =>
        (prologue (slotNames program).length (order (slotNames program).length) ++ emitted.1 ++
          epilogue (!emitted.2.stack.isEmpty), !emitted.2.stack.isEmpty) := by
  have hframe : ¬ 0x80000000 ≤ frameSize (slotNames program).length :=
    Nat.not_le.mpr (frameSize_lt hcount)
  simp only [assembleIn, isStraightLine_of_hasNativeForm hkinds, Bool.not_true, hframe,
    any_isNone_slotPlace? hcount]
  cases Draft.instructions {} (slotNames program) address program 0 <;> rfl

/-- What is executed from the state after loading is compiled, and all of the program is if the
interpreter comes to its end. -/
theorem exists_compiled_of_trace {states : List Machine} {state : Machine} (address : Int64)
    (hkinds : ∀ instruction ∈ program, instruction.hasNativeForm = true)
    (hfits : ∀ states state, Machine.Trace runner ({ m with program }.reset).start states state →
      state.Fits)
    (htrace : Machine.Trace runner ({ m with program }.reset).start states state) :
    ∃ code draft, Draft.instructions {} (slotNames program) address (program.take states.length) 0 =
        .ok (code, draft) ∧ draft.Tracks state ∧
      (state.canStep = false → program.take states.length = program) := by
  obtain ⟨code, draft, hcode, htracks, hprogram, hpc, hrunning⟩ :=
    Draft.exists_instructions_of_trace address 0 (nodup_slotNames program) hkinds
      (fun _ hmem _ => mem_slotNames hmem) hfits (Draft.tracks_start m program) htrace
  refine ⟨code, draft, hcode, htracks, ?_⟩
  intro hstop
  -- The interpreter runs until it stands behind the last instruction.
  have hend : ¬ state.pc < state.program.length := by
    intro hlt
    rw [Machine.canStep_iff.mpr ⟨hrunning, hlt⟩] at hstop
    cases hstop
  have hstart : state.pc = 0 + states.length := hpc
  have hlength : state.program.length = program.length := congrArg List.length hprogram
  apply List.take_of_length_le
  omega

/-- The instruction that is refused is the reason why a program is. -/
theorem instructions_error_of_assembleIn
    (hkinds : ∀ instruction ∈ program, instruction.hasNativeForm = true)
    (hcount : (slotNames program).length < 2 ^ 27)
    (h : assembleIn order address program = .error error) :
    Draft.instructions {} (slotNames program) address program 0 = .error error := by
  rw [assembleIn_eq order address hkinds hcount] at h
  cases hcode : Draft.instructions {} (slotNames program) address program 0 with
  | ok emitted =>
    rw [hcode] at h
    cases h
  | error reason =>
    rw [hcode] at h
    cases h
    rfl

/-- Programs without control flow are compiled for all that the interpreter makes of them. Take a
program of such instructions with fewer than `2 ^ 27` variables.

If all values of its interpretation from the state after loading have a native form and no result
overflows, then the instructions that the interpreter executes are compiled, with the constants in
all entries of the stack and in all variables known and equal to the values at every point, and the
whole program is compiled if the interpretation succeeds.

In any case a division is only refused if its divisor really is zero, or if it really overflows,
when the interpreter comes to the instruction that is refused. -/
theorem assembleIn_of_interpreted
    (hkinds : ∀ instruction ∈ program, instruction.hasNativeForm = true)
    (hcount : (slotNames program).length < 2 ^ 27) :
    ((∀ states state, Machine.Trace runner ({ m with program }.reset).start states state →
        state.Fits) →
      (∀ steps, (Machine.runSteps runner steps ({ m with program }.reset).start).1 = .done () →
        ∃ operations hasResult,
          assembleIn order address program = .ok (operations, hasResult)) ∧
      ∀ states state, Machine.Trace runner ({ m with program }.reset).start states state →
        ∃ code draft, Draft.instructions {} (slotNames program) address
          (program.take states.length) 0 = .ok (code, draft) ∧ draft.Knows state) ∧
    (m.output.Accepts →
      (∀ operator, assembleIn order address program = .error (.unknownDivisor operator) →
        ∃ states state left,
          Machine.Trace runner ({ m with program }.reset).start states state ∧
          Draft.RefusesAfter address program states.length (.unknownDivisor operator) ∧
          state.dividing? = some (left, 0)) ∧
      (assembleIn order address program = .error .divisionOverflow →
        ∃ states state, Machine.Trace runner ({ m with program }.reset).start states state ∧
          Draft.RefusesAfter address program states.length .divisionOverflow ∧
          state.dividing? = some (Int64.minValue, -1))) := by
  refine ⟨fun hfits => ⟨?_, ?_⟩, fun haccepts => ⟨?_, ?_⟩⟩
  -- A run that is done has executed all instructions, and all of them are compiled.
  · intro steps hdone
    obtain ⟨states, final, htrace, hstop⟩ := Machine.exists_trace_of_done hdone
    obtain ⟨code, draft, hcode, -, hall⟩ := exists_compiled_of_trace address hkinds hfits htrace
    rw [hall hstop] at hcode
    rw [assembleIn_eq order address hkinds hcount, hcode]
    exact ⟨_, _, rfl⟩
  · intro states state htrace
    obtain ⟨code, draft, hcode, htracks, -⟩ :=
      exists_compiled_of_trace address hkinds hfits htrace
    exact ⟨code, draft, hcode, htracks.knows⟩
  -- The compiler stops where the interpreter is about to divide, so both see the same divisor.
  · intro operator h
    obtain ⟨states, state, left, right, htrace, hposition, hdividing, ⟨-, rfl⟩ | ⟨herror, -⟩⟩ :=
      Draft.exists_division_of_error hkinds haccepts rfl
        (instructions_error_of_assembleIn hkinds hcount h)
    · exact ⟨states, state, left, htrace runner, hposition, hdividing⟩
    · cases herror
  · intro h
    obtain ⟨states, state, left, right, htrace, hposition, hdividing,
        ⟨⟨_, herror⟩, -⟩ | ⟨-, rfl, rfl⟩⟩ :=
      Draft.exists_division_of_error hkinds haccepts rfl
        (instructions_error_of_assembleIn hkinds hcount h)
    · cases herror
    · exact ⟨states, state, htrace runner, hposition, hdividing⟩

/-- Divides by a number that goes through a variable, negates the quotient and prints it. -/
def divided (divisor : Int32) : Program :=
  [{ opcode := .push, operands := [], literal := some (.int 84), line := 1 },
    { opcode := .push, operands := [], literal := some (.int divisor), line := 2 },
    { opcode := .store, operands := ["d"], line := 3 },
    { opcode := .load, operands := ["d"], line := 4 },
    { opcode := .binaryOp, operands := ["/"], line := 5 },
    { opcode := .unaryOp, operands := ["-"], line := 6 },
    { opcode := .print, operands := [], line := 7 }]

/-- A division by two is compiled, and one by zero refused because the interpreter comes to it. -/
theorem assembleIn_of_interpreted_divided :
    (∃ operations hasResult, assembleIn List.range 0 (divided 2) = .ok (operations, hasResult)) ∧
    assembleIn List.range 0 (divided 0) = .error (.unknownDivisor "/") ∧
    ∃ states state left,
      Machine.Trace (Machine.innerRunner 7 {})
        ({ ({} : Machine) with program := divided 0 }.reset).start states state ∧
      Draft.RefusesAfter 0 (divided 0) states.length (.unknownDivisor "/") ∧
      state.dividing? = some (left, 0) := by
  have hkinds : ∀ divisor, ∀ instruction ∈ divided divisor, instruction.hasNativeForm = true := by
    intro divisor
    simp [divided, Instruction.hasNativeForm]
  have hcount : ∀ divisor, (slotNames (divided divisor)).length < 2 ^ 27 := by
    intro divisor
    exact Nat.lt_of_le_of_lt (length_slotNames_le _) (show 7 < 2 ^ 27 by decide)
  have hfits : ∀ states state, Machine.Trace (Machine.innerRunner 7 {})
      ({ ({} : Machine) with program := divided 2 }.reset).start states state → state.Fits := by
    intro states state h
    iterate 7
      rcases h.eq_or_next with rfl | ⟨-, rest, h⟩
      · decide +kernel
    rcases h.eq_or_next with rfl | ⟨hcan, -⟩
    · decide +kernel
    · exact absurd hcan (by decide +kernel)
  have hrefused : assembleIn List.range 0 (divided 0) = .error (.unknownDivisor "/") := rfl
  refine ⟨?_, hrefused, ?_⟩
  · exact ((assembleIn_of_interpreted (hkinds 2) (hcount 2)).1 hfits).1 7 (by decide +kernel)
  · exact ((assembleIn_of_interpreted (hkinds 0) (hcount 0)).2 fun _ _ _ => rfl).1 "/" hrefused

end Native

end StackMachine
