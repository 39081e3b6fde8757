import StackMachine.Machine.Run
import StackMachine.Proofs.Machine.Step
import StackMachine.Proofs.Native.Instruction

/-!
# Compiled code agrees with the interpreter

A program that is compiled has no calls, branches and jumps, and what the compiler knows about the
values and variables is right at every instruction. So the interpreter gets to the end of the
program, and the compiled code writes what the interpreter writes.

## Main definitions

* `Native.Draft.Tracks`: what the compiler knows about a machine.
* `Native.Draft.Agrees`: an instruction and its code.

## Main results

* `Native.Draft.agrees_instruction`: every instruction agrees with its code.
-/

namespace StackMachine

namespace Sink

/-- The stream after a value is printed on it, or none. -/
def afterPrint (sink : Sink) : Option Value → Sink
  | none => sink
  | some value => (sink.putLine value.text).2

variable {sink : Sink}

theorem Accepts.putLine_fst (h : sink.Accepts) (text : String) :
    (sink.putLine text).1 = .ok () := by rw [h.putLine_eq]

/-- Such a stream stays so after a line. -/
theorem Accepts.afterPrint (h : sink.Accepts) (printed : Option Value) :
    (sink.afterPrint printed).Accepts := by
  cases printed with
  | none => exact h
  | some value =>
    rw [Sink.afterPrint, h.putLine_eq]
    exact h.putAll _

end Sink

/-- The value that an instruction prints, if it prints one. -/
def Instruction.printed? (instruction : Instruction) (stack : List Value) : Option Value :=
  if instruction.opcode = .print then stack.head? else none

/-- The value that the next instruction prints, if it prints one. -/
def Machine.printing? (m : Machine) : Option Value :=
  m.program[m.pc]?.bind fun instruction => instruction.printed? m.stack

namespace Native.Draft

/-! ### What the compiler knows -/

/-- What is known about the values and the variables is right, and no loop is open. -/
structure Tracks (draft : Draft) (m : Machine) : Prop where
  stack : m.stack.map Known.ofValue? = draft.stack.map some
  bound : ∀ name, Known.ofValue? ((Entries.find? name m.bindings).getD (.int 0)) =
    some ((Entries.find? name draft.bindings).getD .zero)
  loops : m.loops = []

variable {platform : Platform} {slots : List String} {draft next : Draft} {code : List Operation}
  {instruction : Instruction} {m : Machine} {pc : Nat}

/-- The value on top of the stack is the one that is known. -/
theorem Tracks.top {known : Known} {rest : List Known} (h : draft.Tracks m)
    (hstack : draft.stack = known :: rest) :
    ∃ value values, m.stack = value :: values ∧ Known.ofValue? value = some known ∧
      values.map Known.ofValue? = rest.map some := by
  have hmap := h.stack
  rw [hstack] at hmap
  exact List.map_eq_cons_iff.mp hmap

/-- The compiler knows how many values are on the stack. -/
theorem Tracks.length_eq (h : draft.Tracks m) : m.stack.length = draft.stack.length := by
  have hlength := congrArg List.length h.stack
  rwa [List.length_map, List.length_map] at hlength

theorem Tracks.stack_nil (h : draft.Tracks m) (hstack : draft.stack = []) : m.stack = [] := by
  apply List.length_eq_zero_iff.mp
  rw [h.length_eq, hstack]
  rfl

theorem Tracks.stack_cons {known : Known} {value : Value} {rest : List Known} {values : List Value}
    (hvalue : Known.ofValue? value = some known)
    (hrest : values.map Known.ofValue? = rest.map some) :
    (value :: values).map Known.ofValue? = (known :: rest).map some := by
  rw [List.map_cons, List.map_cons, hvalue, hrest]

/-- What is known about a variable after a store. -/
theorem Tracks.bound_insert {known : Known} {value : Value} {name : String} (h : draft.Tracks m)
    (hvalue : Known.ofValue? value = some known) (other : String) :
    Known.ofValue? ((Entries.find? other (Entries.insert name value m.bindings)).getD (.int 0)) =
      some ((Entries.find? other (Entries.insert name known draft.bindings)).getD .zero) := by
  rw [Entries.find?_insert, Entries.find?_insert]
  by_cases heq : name = other
  · rw [if_pos heq, if_pos heq]
    exact hvalue
  · rw [if_neg heq, if_neg heq]
    exact h.bound other

/-! ### One instruction -/

/-- The interpreter executes the instruction and goes on with the next one, what is known after it
is right, and the code does to the frame and to the host what the instruction does. -/
def Agrees (platform : Platform) (slots : List String) (instruction : Instruction) (m : Machine)
    (draft next : Draft) (code : List Operation) : Prop :=
  ∃ after : Machine, (∀ runner pc, (instruction.execute runner pc).run m = (.ok .next, after)) ∧
    next.Tracks after ∧
    after = { m with
      stack := after.stack
      bindings := after.bindings
      output := m.output.afterPrint (instruction.printed? m.stack) } ∧
    Carries platform slots ((instruction.printed? m.stack).bind Known.ofValue?) code draft next ∧
    next.stack.length ≤ draft.stack.length + 1

/-- An instruction that does not print. -/
theorem agrees_silent {stack : List Value} {bindings : Variables}
    (hop : instruction.opcode ≠ .print)
    (hrun : ∀ runner pc, (instruction.execute runner pc).run m =
      (.ok .next, { m with stack, bindings }))
    (htracks : next.Tracks { m with stack, bindings })
    (hcarries : Carries platform slots none code draft next)
    (hlength : next.stack.length ≤ draft.stack.length + 1) :
    Agrees platform slots instruction m draft next code := by
  have hprinted : instruction.printed? m.stack = none := if_neg hop
  refine ⟨_, hrun, htracks, ?_, ?_, hlength⟩
  · rw [hprinted]
    rfl
  · rw [hprinted]
    exact hcarries

/-- The code of a literal agrees with an instruction that pushes it. -/
theorem agrees_pushLiteral {value : Value} (hop : instruction.opcode ≠ .print)
    (h : draft.pushLiteral value = .ok (code, next)) (htracks : draft.Tracks m)
    (hrun : ∀ runner pc, (instruction.execute runner pc).run m =
      (.ok .next, { m with stack := value :: m.stack })) :
    Agrees platform slots instruction m draft next code := by
  obtain ⟨hcarries, known, hknown, hnext⟩ := carries_pushLiteral h
  refine agrees_silent hop hrun ?_ hcarries ?_
  · rw [hnext]
    exact ⟨Tracks.stack_cons hknown htracks.stack, htracks.bound, htracks.loops⟩
  · rw [hnext]
    exact Nat.le_refl _

/-- `LOAD`: a literal, or else the variable. -/
theorem agrees_load (hop : instruction.opcode = .load)
    (h : draft.instruction slots platform.printAddress instruction pc = .ok (code, next))
    (htracks : draft.Tracks m) : Agrees platform slots instruction m draft next code := by
  have hsilent : instruction.opcode ≠ .print := by simp [hop]
  have hrun : ∀ value, instruction.loaded? m.bindings = some value → ∀ runner pc,
      (instruction.execute runner pc).run m = (.ok .next, { m with stack := value :: m.stack }) :=
    fun value hvalue runner pc => Instruction.run_execute_load hop hvalue
  rw [Draft.instruction, hop] at h
  dsimp only at h
  split at h
  next _ _ value hliteral =>
    refine agrees_pushLiteral hsilent h htracks (hrun value ?_)
    rw [Instruction.loaded?, hliteral]
    rfl
  next text hliteral hoperand =>
    split at h
    next value hread =>
      refine agrees_pushLiteral hsilent h htracks (hrun value ?_)
      rw [Instruction.loaded?, hliteral, hoperand, Option.map_some, hread]
      rfl
    -- A name that was never bound has the slot that the prologue set to zero.
    next hread =>
      obtain ⟨hcarries, hnext⟩ := carries_pushVariable h
      refine agrees_silent hsilent
        (hrun ((Entries.find? text m.bindings).getD (.int 0)) ?_) ?_ hcarries ?_
      · rw [Instruction.loaded?, hliteral, hoperand, Option.map_some, hread]
        rfl
      · rw [hnext]
        exact ⟨Tracks.stack_cons (htracks.bound text) htracks.stack, htracks.bound, htracks.loops⟩
      · rw [hnext]
        exact Nat.le_refl _
  next => cases h

/-- `PUSH`: a literal. -/
theorem agrees_push (hop : instruction.opcode = .push)
    (h : draft.instruction slots platform.printAddress instruction pc = .ok (code, next))
    (htracks : draft.Tracks m) : Agrees platform slots instruction m draft next code := by
  have hsilent : instruction.opcode ≠ .print := by simp [hop]
  have hrun : ∀ value, instruction.pushed? = some value → ∀ runner pc,
      (instruction.execute runner pc).run m = (.ok .next, { m with stack := value :: m.stack }) :=
    fun value hvalue runner pc => Instruction.run_execute_push hop hvalue
  rw [Draft.instruction, hop] at h
  dsimp only at h
  split at h
  next _ _ value hliteral =>
    refine agrees_pushLiteral hsilent h htracks (hrun value ?_)
    rw [Instruction.pushed?, hliteral]
    rfl
  next text hliteral hoperand =>
    split at h
    next value hread =>
      refine agrees_pushLiteral hsilent h htracks (hrun value ?_)
      rw [Instruction.pushed?, hliteral, hoperand, Option.map_some, hread]
      rfl
    next => cases h
  next => cases h

/-- `STORE`: no known value is a pointer. -/
theorem agrees_store (hnodup : slots.Nodup) (hop : instruction.opcode = .store)
    (h : draft.instruction slots platform.printAddress instruction pc = .ok (code, next))
    (htracks : draft.Tracks m) : Agrees platform slots instruction m draft next code := by
  have hsilent : instruction.opcode ≠ .print := by simp [hop]
  rw [Draft.instruction, hop] at h
  dsimp only at h
  split at h
  next name hname =>
    obtain ⟨hcarries, known, rest, hstack, hnext⟩ := carries_storeVariable hnodup h
    obtain ⟨value, values, hvalues, hknown, hrest⟩ := htracks.top hstack
    -- A pointer could rebind the reference that the variable holds, which may fail.
    have hpointer : value.pointer? = none := by
      rcases Known.ofValue?_cases hknown with ⟨n, rfl, -⟩ | ⟨n, rfl, -⟩ | ⟨b, rfl, -⟩ <;> rfl
    refine agrees_silent hsilent
      (fun runner pc => Instruction.run_execute_store hop hname hvalues hpointer) ?_ hcarries ?_
    · rw [hnext]
      exact ⟨hrest, htracks.bound_insert hknown, htracks.loops⟩
    · rw [hnext, hstack]
      exact Nat.le_add_right _ 2
  next => cases h

/-- `DEFVAR`: without a name it does nothing. -/
theorem agrees_defVar (hnodup : slots.Nodup) (hop : instruction.opcode = .defVar)
    (h : draft.instruction slots platform.printAddress instruction pc = .ok (code, next))
    (htracks : draft.Tracks m) : Agrees platform slots instruction m draft next code := by
  have hsilent : instruction.opcode ≠ .print := by simp [hop]
  rw [Draft.instruction, hop] at h
  dsimp only at h
  split at h
  next text htext =>
    obtain ⟨hcarries, hnext⟩ := carries_declare hnodup h
    refine agrees_silent hsilent
      (fun runner pc => Instruction.run_execute_defVar hop htext) ?_ hcarries ?_
    · rw [hnext]
      exact ⟨htracks.stack, htracks.bound_insert rfl, htracks.loops⟩
    · rw [hnext]
      exact Nat.le_succ _
  next htext =>
    cases h
    refine agrees_silent hsilent ?_ htracks carries_nil (Nat.le_succ _)
    intro runner pc
    simp only [Instruction.execute, hop, htext]
    rfl

/-- The code of `POP` agrees with it. -/
theorem agrees_pop (hop : instruction.opcode = .pop)
    (h : draft.instruction slots platform.printAddress instruction pc = .ok (code, next))
    (htracks : draft.Tracks m) : Agrees platform slots instruction m draft next code := by
  have hsilent : instruction.opcode ≠ .print := by simp [hop]
  rw [Draft.instruction, hop] at h
  dsimp only at h
  obtain ⟨⟨r, known, operations, after⟩, hpop, h⟩ := exists_of_bind_eq_ok h
  cases h
  obtain ⟨hcarries, hstack, hnext⟩ := carries_popValue hpop
  obtain ⟨value, values, hvalues, -, hrest⟩ := htracks.top hstack
  refine agrees_silent hsilent
    (fun runner pc => Instruction.run_execute_pop hop hvalues) ?_ hcarries ?_
  · rw [hnext]
    exact ⟨hrest, htracks.bound, htracks.loops⟩
  · rw [hstack]
    exact Nat.le_add_right _ 2

/-- So does the code of a binary operator. The compiler refuses the divisions for which it would
not. -/
theorem agrees_binary (hop : instruction.opcode = .binaryOp)
    (h : draft.instruction slots platform.printAddress instruction pc = .ok (code, next))
    (htracks : draft.Tracks m) : Agrees platform slots instruction m draft next code := by
  have hsilent : instruction.opcode ≠ .print := by simp [hop]
  rw [Draft.instruction, hop] at h
  dsimp only at h
  split at h
  next operator hoperator =>
    cases hstack : draft.stack with
    | nil =>
      rw [binary, hstack] at h
      cases h
    | cons right below =>
      cases below with
      | nil =>
        rw [binary, hstack] at h
        cases h
      | cons left rest =>
        obtain ⟨r, values, hvalues, hright, hbelow⟩ := htracks.top hstack
        obtain ⟨l, values, rfl, hleft, hrest⟩ := List.map_eq_cons_iff.mp hbelow
        obtain ⟨value, known, hvalue, hknown, hcomputes, hnext⟩ :=
          binary_computes h hstack hleft hright
        refine agrees_silent hsilent
          (fun runner pc => Instruction.run_execute_binary hop hoperator hvalues (hvalue _)) ?_
          (carries_of_computes [right, left] hcomputes hstack hnext) ?_
        · rw [hnext]
          exact ⟨Tracks.stack_cons hknown hrest, htracks.bound, htracks.loops⟩
        · rw [hnext, hstack]
          exact Nat.le_add_right _ 2
  next => cases h

/-- So does the code of a unary operator. -/
theorem agrees_unary (hop : instruction.opcode = .unaryOp)
    (h : draft.instruction slots platform.printAddress instruction pc = .ok (code, next))
    (htracks : draft.Tracks m) : Agrees platform slots instruction m draft next code := by
  have hsilent : instruction.opcode ≠ .print := by simp [hop]
  rw [Draft.instruction, hop] at h
  dsimp only at h
  split at h
  next operator hoperator =>
    cases hstack : draft.stack with
    | nil =>
      rw [unary, hstack] at h
      cases h
    | cons operand rest =>
      obtain ⟨v, values, hvalues, hoperand, hrest⟩ := htracks.top hstack
      obtain ⟨value, known, hvalue, hknown, hcomputes, hnext⟩ := unary_computes h hstack hoperand
      refine agrees_silent hsilent
        (fun runner pc => Instruction.run_execute_unary hop hoperator hvalues (hvalue _)) ?_
        (carries_of_computes [operand] hcomputes hstack hnext) ?_
      · rw [hnext]
        exact ⟨Tracks.stack_cons hknown hrest, htracks.bound, htracks.loops⟩
      · rw [hnext, hstack]
        exact Nat.le_succ _
  next => cases h

/-- `PRINT`: an empty stack prints nothing. -/
theorem agrees_print (hop : instruction.opcode = .print)
    (hput : ∀ value, instruction.printed? m.stack = some value →
      (m.output.putLine value.text).1 = .ok ())
    (h : draft.instruction slots platform.printAddress instruction pc = .ok (code, next))
    (htracks : draft.Tracks m) : Agrees platform slots instruction m draft next code := by
  have hprinted : instruction.printed? m.stack = m.stack.head? := if_pos hop
  rw [Draft.instruction, hop] at h
  dsimp only at h
  have hprint : Carries platform slots draft.stack.head? code draft next ∧
      next = { draft with ring := next.ring, stack := draft.stack.tail } := carries_print h
  obtain ⟨hcarries, hnext⟩ := hprint
  have hlength : next.stack.length ≤ draft.stack.length + 1 := by
    rw [hnext, List.length_tail]
    omega
  -- The compiler emits no call for an empty stack, and the interpreter prints nothing then.
  cases hstack : draft.stack with
  | nil =>
    have hvalues : m.stack = [] := htracks.stack_nil hstack
    have hnone : instruction.printed? m.stack = none := by
      rw [hprinted, hvalues]
      rfl
    rw [hstack] at hcarries hnext
    refine ⟨m, fun runner pc => Instruction.run_execute_print_nil hop hvalues, ?_, ?_, ?_, hlength⟩
    · rw [hnext]
      exact ⟨congrArg _ hvalues, htracks.bound, htracks.loops⟩
    · rw [hnone]
      rfl
    · rw [hnone]
      exact hcarries
  | cons known rest =>
    obtain ⟨value, values, hvalues, hknown, hrest⟩ := htracks.top hstack
    rw [hstack] at hcarries hnext
    rw [hvalues] at hprinted
    have hwrite : (m.output.putLine value.text).1 = .ok () := by
      apply hput
      rw [hvalues, hprinted]
      rfl
    refine ⟨_, fun runner pc => Instruction.run_execute_print hop hvalues hwrite, ?_, ?_, ?_,
      hlength⟩
    · rw [hnext]
      exact ⟨hrest, htracks.bound, htracks.loops⟩
    · rw [hvalues, hprinted]
      rfl
    · rw [hvalues, hprinted]
      change Carries platform slots (Known.ofValue? value) code draft next
      rw [hknown]
      exact hcarries

/-- An instruction that does nothing and has no code. -/
theorem agrees_idle (hop : instruction.opcode ≠ .print)
    (hidle : draft.instruction slots platform.printAddress instruction pc = .ok ([], draft))
    (h : draft.instruction slots platform.printAddress instruction pc = .ok (code, next))
    (hrun : ∀ runner pc, (instruction.execute runner pc).run m = (.ok .next, m))
    (htracks : draft.Tracks m) : Agrees platform slots instruction m draft next code := by
  rw [hidle] at h
  cases h
  exact agrees_silent hop hrun htracks carries_nil (Nat.le_succ _)

/-- Every instruction that has code agrees with it, unless the stream refuses what it prints. -/
theorem agrees_instruction (hnodup : slots.Nodup)
    (hput : ∀ value, instruction.printed? m.stack = some value →
      (m.output.putLine value.text).1 = .ok ())
    (h : draft.instruction slots platform.printAddress instruction pc = .ok (code, next))
    (htracks : draft.Tracks m) : Agrees platform slots instruction m draft next code := by
  cases hop : instruction.opcode
  case load => exact agrees_load hop h htracks
  case push => exact agrees_push hop h htracks
  case store => exact agrees_store hnodup hop h htracks
  case defVar => exact agrees_defVar hnodup hop h htracks
  case pop => exact agrees_pop hop h htracks
  case binaryOp => exact agrees_binary hop h htracks
  case unaryOp => exact agrees_unary hop h htracks
  case print => exact agrees_print hop hput h htracks
  -- A `BREAK` or an `END` does nothing as long as no loop is open.
  case breakLoop =>
    refine agrees_idle (by simp [hop]) (by rw [Draft.instruction, hop]) h ?_ htracks
    exact fun runner pc => Instruction.run_execute_break_nil hop htracks.loops
  case endBlock =>
    refine agrees_idle (by simp [hop]) (by rw [Draft.instruction, hop]) h ?_ htracks
    intro runner pc
    rw [Instruction.run_execute_end hop, htracks.loops]
  case label | nop | pass | package | tryBegin | catchBegin | doBegin | continueLoop =>
    refine agrees_idle (by simp [hop]) (by rw [Draft.instruction, hop]) h ?_ htracks
    intro runner pc
    simp only [Instruction.execute, hop]
    rfl
  -- The others have no code.
  all_goals
    rw [Draft.instruction, hop] at h
    cases h

end Native.Draft

/-! ### The host that prints -/

namespace Native

/-- The sign of a negative number stands in front of its digits. -/
theorem writeInteger_of_neg {n : Int} (h : n < 0) :
    "-" ++ Text.writeInteger (-n) = Text.writeInteger n := by
  obtain ⟨k, rfl⟩ := Int.eq_negSucc_of_lt_zero h
  rfl

/-- A known value is printed as the value itself. -/
theorem Known.join_printedTexts {known : Known} {value : Value} (h : ofValue? value = some known) :
    String.join (printedTexts known.word known.printKind) = value.text := by
  -- Taken together, the sign and the digits are the text of the number.
  have hnumber : ∀ n : Int64, String.join (printedTexts n 0) = Text.writeInteger n.toInt := by
    intro n
    rw [printedTexts, if_neg (by decide)]
    split
    next hneg => simp [String.join, writeInteger_of_neg (Int64.lt_iff_toInt_lt.mp hneg)]
    next => simp [String.join]
  rcases ofValue?_cases h with ⟨n, rfl, rfl⟩ | ⟨n, rfl, rfl⟩ | ⟨b, rfl, rfl⟩
  · rw [Value.text, ← Int32.toInt_toInt64]
    exact hnumber n.toInt64
  · exact hnumber n
  · cases b <;> rfl

/-- The word of a value is its value as a 64-bit integer. -/
theorem Known.toInt64_of_ofValue? {known : Known} {value : Value}
    (h : ofValue? value = some known) : value.toInt64 = known.word := by
  rcases ofValue?_cases h with ⟨n, rfl, rfl⟩ | ⟨n, rfl, rfl⟩ | ⟨b, rfl, rfl⟩
  · rfl
  · rfl
  · cases b <;> rfl

/-- The host prints on its stream the text that the interpreter prints, if no write is refused. -/
theorem PrintContext.afterPrint_spec {host : PrintContext} {sink : Sink} {printed : Option Value}
    (hrefused : host.refused = none) (hsame : host.sink.SameText sink) (haccepts : sink.Accepts)
    (hknown : ∀ value, printed = some value → ∃ known, Known.ofValue? value = some known) :
    (host.afterPrint (printed.bind Known.ofValue?)).sink.SameText (sink.afterPrint printed) ∧
      (host.afterPrint (printed.bind Known.ofValue?)).refused = none ∧
      (host.afterPrint (printed.bind Known.ofValue?)).lastPrinted =
        (printed.map Value.toInt64).or host.lastPrinted := by
  cases printed with
  | none => exact ⟨hsame, hrefused, rfl⟩
  | some value =>
    obtain ⟨known, hvalue⟩ := hknown value rfl
    have hput := (haccepts.of_policy hsame.policy).putEach_eq
      (printedTexts known.word known.printKind ++ ["\n"])
    have hprint : host.print known.word known.printKind =
        { host with
          sink := host.sink.putAll (printedTexts known.word known.printKind ++ ["\n"])
          lastPrinted := some known.word } := by
      rw [PrintContext.print, hrefused]
      simp only [Option.isSome_none, Bool.false_eq_true, if_false]
      rw [hput]
    rw [Option.bind_some, hvalue, PrintContext.afterPrint, hprint, Sink.afterPrint,
      haccepts.putLine_eq]
    refine ⟨hsame.putAll haccepts ?_, hrefused, ?_⟩
    · rw [String.join_append, Known.join_printedTexts hvalue]
      simp [String.join]
    · rw [Option.map_some, Known.toInt64_of_ofValue? hvalue]
      rfl

end Native

end StackMachine
