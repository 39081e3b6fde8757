import StackMachine.Proofs.Native.Guard
import StackMachine.Proofs.Native.Instruction

/-!
# The stack discipline of compiled code

Between its prologue and its epilogue compiled code moves the stack pointer by one word at a time
and never moves the frame pointer. How many words lie on the stack before each operation can
therefore be read off the code, whatever the registers hold.

## Main definitions

* `Native.Processor.stores?`: the word that an operation stores, and where.
* `Native.Operation.Moves`: what an operation does to the number of words on the stack.
* `Native.Balanced`: code that leads from one number of words to another.

## Main results

* `Native.Processor.memory_of_execute`: an operation changes memory by what it stores, only.
* `Native.Draft.balanced_instruction`: the code of an instruction leads from the values that are
  known on the stack before it to those after it.
-/

namespace StackMachine.Native

open Layout (IsFree)

namespace Processor

/-- The word that an operation stores, and where. -/
def stores? (cpu : Processor) : Operation → Option (Word × Word)
  | .push src => some (cpu.registers .rsp - 8, cpu.registers src)
  | .store base disp src => some (cpu.address base disp, cpu.registers src)
  | _ => none

variable {cpu next : Processor} {operation : Operation}

/-- An operation changes memory by what it stores, only. -/
theorem memory_of_execute (h : cpu.execute operation = .go next) :
    next.memory = match cpu.stores? operation with
      | some (address, value) => cpu.memory.write address value
      | none => cpu.memory := by
  -- Division and conditional jumps have another outcome, with which the run does not go on here.
  cases operation
  case arith kind dst src =>
    cases h
    cases kind <;> rfl
  case idiv src =>
    simp only [execute, divide?] at h
    split at h
    next hdivide =>
      split at hdivide
      · cases hdivide
      · cases hdivide
        cases h
        rfl
    next => cases h
  case jcc condition distance =>
    simp only [execute] at h
    split at h
    · cases h
    · cases h
      rfl
  case call | ret | jmp => cases h
  all_goals
    cases h
    rfl

end Processor

namespace Operation

/-- The registers that an operation may change before the run goes on. -/
def changes : Operation → List Register
  | mov dst _ | movImm32 dst _ | movImm64 dst _ | load dst _ _ | arith _ dst _ | imul dst _
  | addImm dst _ | subImm dst _ | neg dst | setcc _ dst | movzx dst _ => [dst]
  | idiv _ => [.rax, .rdx]
  | cqo => [.rdx]
  | push _ => [.rsp]
  | pop dst => [.rsp, dst]
  | store _ _ _ | call _ | ret | jmp _ | jcc _ _ => []

/-- An operation leaves the registers alone that it is not listed to change. -/
theorem registers_of_execute {cpu next : Processor} {operation : Operation} {r : Register}
    (h : cpu.execute operation = .go next) (hr : r ∉ operation.changes) :
    next.registers r = cpu.registers r := by
  cases operation
  case arith kind dst src =>
    cases h
    have hne : r ≠ dst := List.ne_of_not_mem_cons hr
    cases kind <;> simp [Processor.setFlags, Processor.set, hne]
  -- A division changes two registers, and goes on only if it does not trap.
  case idiv src =>
    obtain ⟨hrax, hrdx⟩ : r ≠ .rax ∧ r ≠ .rdx := by simpa [changes] using hr
    simp only [Processor.execute, Processor.divide?] at h
    split at h
    next hdivide =>
      split at hdivide
      · cases hdivide
      · cases hdivide
        cases h
        exact (if_neg hrdx).trans (if_neg hrax)
    next => cases h
  case pop dst =>
    obtain ⟨hrsp, hdst⟩ : r ≠ .rsp ∧ r ≠ dst := by simpa [changes] using hr
    cases h
    exact (if_neg hdst).trans (if_neg hrsp)
  case jcc condition distance =>
    simp only [Processor.execute] at h
    split at h
    · cases h
    · cases h
      rfl
  case store =>
    cases h
    rfl
  case call | ret | jmp => cases h
  -- What is left sets one register.
  all_goals
    cases h
    exact if_neg (List.ne_of_not_mem_cons hr)

/-- An operation that only computes, between registers that the frame does not depend on. -/
def IsQuiet : Operation → Prop
  | push _ | pop _ | store _ _ _ | call _ | ret | jmp _ | jcc _ _ => False
  | operation => ∀ r ∈ operation.changes, IsFree r

section Quiet

variable {operation : Operation} {cpu next : Processor}

/-- A quiet operation writes nothing to memory. -/
theorem IsQuiet.stores?_eq_none (h : operation.IsQuiet) (cpu : Processor) :
    cpu.stores? operation = none := by
  cases operation
  case push | store => cases h
  all_goals rfl

/-- It changes only registers that are free to change. -/
theorem IsQuiet.isFree (h : operation.IsQuiet) : ∀ r ∈ operation.changes, IsFree r := by
  cases operation
  case push | pop | store | call | ret | jmp | jcc => cases h
  all_goals exact h

/-- It leaves the frame where it is. -/
theorem IsQuiet.registers_eq (h : operation.IsQuiet) (hgo : cpu.execute operation = .go next) :
    next.registers .rbp = cpu.registers .rbp ∧ next.registers .rsp = cpu.registers .rsp :=
  ⟨registers_of_execute hgo fun hmem => (h.isFree _ hmem).2 rfl,
    registers_of_execute hgo fun hmem => (h.isFree _ hmem).1 rfl⟩

end Quiet

/-- Whether an operation neither stores nor calls. -/
def leavesMemory : Operation → Bool
  | push _ | store _ _ _ | call _ => false
  | _ => true

theorem stores?_of_leavesMemory {operation : Operation} (h : operation.leavesMemory = true)
    (cpu : Processor) : cpu.stores? operation = none := by
  cases operation
  case push | store => cases h
  all_goals rfl

/-- The operations that call. -/
theorem eq_call_of_execute {cpu next : Processor} {operation : Operation} {target : Word}
    (h : cpu.execute operation = .call next target) :
    ∃ r, operation = .call r ∧ next = cpu := by
  cases operation
  case call r =>
    cases h
    exact ⟨r, rfl, rfl⟩
  case idiv src =>
    rw [Processor.execute] at h
    split at h <;> cases h
  case jcc condition distance =>
    rw [Processor.execute] at h
    split at h <;> cases h
  all_goals cases h

/-- What an operation does to the number of words on the stack of a frame with a number of variables
and room for a number of words. -/
inductive Moves (slotCount limit : Nat) : Operation → Nat → Nat → Prop
  | quiet {operation : Operation} {words : Nat} :
      operation.IsQuiet → Moves slotCount limit operation words words
  | push {r : Register} {words : Nat} :
      words < limit → Moves slotCount limit (.push r) words (words + 1)
  | pop {r : Register} {words : Nat} :
      IsFree r → Moves slotCount limit (.pop r) (words + 1) words
  | store {r : Register} {index words : Nat} :
      index < slotCount → Moves slotCount limit (.store .rbp (slotPlace index) r) words words
  | lower {words : Nat} :
      words < limit → Moves slotCount limit (.subImm .rsp 8) words (words + 1)
  | raise {words : Nat} : Moves slotCount limit (.addImm .rsp 8) (words + 1) words
  | call {r : Register} {words : Nat} :
      words % 2 = 0 → Moves slotCount limit (.call r) words words

end Operation

/-- Code that leads from one number of words on the stack to another. -/
inductive Balanced (slotCount limit : Nat) : List Operation → Nat → Nat → Prop
  | nil {words : Nat} : Balanced slotCount limit [] words words
  | cons {operation : Operation} {operations : List Operation} {words middle last : Nat} :
      operation.Moves slotCount limit words middle →
      Balanced slotCount limit operations middle last →
      Balanced slotCount limit (operation :: operations) words last

namespace Balanced

open Operation (Moves)

variable {slotCount limit words middle last : Nat} {operations more : List Operation}

/-- Pieces of code follow each other if the second begins with the words that the first leaves. -/
theorem append (h : Balanced slotCount limit operations words middle)
    (hmore : Balanced slotCount limit more middle last) :
    Balanced slotCount limit (operations ++ more) words last := by
  induction h with
  | nil => exact hmore
  | cons hmoves _ ih => exact .cons hmoves (ih hmore)

/-- Code that only computes leaves the stack alone. -/
theorem quiet (h : ∀ operation ∈ operations, operation.IsQuiet) :
    Balanced slotCount limit operations words words := by
  induction operations with
  | nil => exact .nil
  | cons operation operations ih =>
    obtain ⟨hfirst, hrest⟩ := List.forall_mem_cons.mp h
    exact .cons (.quiet hfirst) (ih hrest)

/-- Each operation adds at most one word. -/
theorem last_le (h : Balanced slotCount limit operations words last) :
    last ≤ words + operations.length := by
  induction h with
  | nil => exact Nat.le_refl _
  | cons hmoves _ ih =>
    rw [List.length_cons]
    cases hmoves <;> omega

end Balanced

/-! ### The code of instructions -/

namespace Draft

variable {draft next : Draft} {slots : List String} {code : List Operation} {name operator : String}
  {limit pc : Nat} {r : Register}

theorem isQuiet_movImm (hr : IsFree r) (value : Int64) : (Operation.movImm r value).IsQuiet := by
  rw [Operation.movImm]
  split <;> exact List.forall_mem_singleton.mpr hr

theorem isQuiet_truthOf (hr : IsFree r) (condition : Condition) :
    ∀ operation ∈ truthOf condition r, operation.IsQuiet := by
  simpa [truthOf, Operation.IsQuiet, Operation.changes] using hr

/-- A literal is one word more. -/
theorem balanced_pushLiteral {value : Value} (h : draft.pushLiteral value = .ok (code, next))
    (hroom : next.stack.length ≤ limit) :
    Balanced slots.length limit code draft.stack.length next.stack.length := by
  rw [pushLiteral] at h
  split at h
  next => cases h
  next known hknown =>
    cases h
    exact .cons (.quiet (isQuiet_movImm draft.isFree_register _)) (.cons (.push hroom) .nil)

/-- So is the value of a variable. -/
theorem balanced_pushVariable (h : draft.pushVariable slots name = .ok (code, next))
    (hroom : next.stack.length ≤ limit) :
    Balanced slots.length limit code draft.stack.length next.stack.length := by
  rw [pushVariable] at h
  obtain ⟨place, -, h⟩ := exists_of_bind_eq_ok h
  cases h
  exact .cons (.quiet (List.forall_mem_singleton.mpr draft.isFree_register))
    (.cons (.push hroom) .nil)

/-- Taking a value is one word less. -/
theorem balanced_popValue {known : Known} (h : draft.popValue pc = .ok (r, known, code, next)) :
    Balanced slots.length limit code draft.stack.length next.stack.length := by
  rw [popValue] at h
  split at h
  next => cases h
  next known rest hstack =>
    cases h
    rw [hstack]
    exact .cons (.pop draft.isFree_register) .nil

theorem balanced_storeVariable (h : draft.storeVariable slots name pc = .ok (code, next)) :
    Balanced slots.length limit code draft.stack.length next.stack.length := by
  rw [storeVariable] at h
  obtain ⟨place, hplace, h⟩ := exists_of_bind_eq_ok h
  obtain ⟨index, hindex, -, rfl⟩ := exists_slot_of_placeOf hplace
  obtain ⟨⟨r, known, pops, after⟩, hpop, h⟩ := exists_of_bind_eq_ok h
  cases h
  exact (balanced_popValue hpop).append (.cons (.store hindex) .nil)

theorem balanced_declare (h : draft.declare slots name = .ok (code, next)) :
    Balanced slots.length limit code draft.stack.length next.stack.length := by
  rw [declare] at h
  obtain ⟨place, hplace, h⟩ := exists_of_bind_eq_ok h
  obtain ⟨index, hindex, -, rfl⟩ := exists_slot_of_placeOf hplace
  cases h
  exact .cons (.quiet (List.forall_mem_singleton.mpr draft.isFree_register))
    (.cons (.store hindex) .nil)

/-- Two operands are popped and one result is pushed. -/
theorem balanced_onOperands {work : (left right : Register) → List Operation} {words : Nat}
    (h : draft.onOperands work = (code, next))
    (hwork : ∀ l r, IsFree l → IsFree r → ∀ operation ∈ work l r, operation.IsQuiet)
    (hroom : words + 1 ≤ limit) : Balanced slots.length limit code (words + 2) (words + 1) := by
  have hr := draft.ring.isFree_allocate
  have hl := draft.ring.allocate.2.isFree_allocate
  cases h
  exact .append (.cons (.pop hr) (.cons (.pop hl) (.quiet (hwork _ _ hl hr))))
    (.cons (.push hroom) .nil)

/-- A division makes one word of two. -/
theorem balanced_divideBy {result : Register} {left right : Known} {words : Nat}
    (h : draft.divideBy operator result left right = .ok (code, next))
    (hroom : words + 1 ≤ limit) : Balanced slots.length limit code (words + 2) (words + 1) := by
  rw [divideBy] at h
  split at h
  next => cases h
  next =>
    split at h
    next => cases h
    next =>
      split at h
      next => cases h
      next =>
        cases h
        -- The division works in two registers that the frame does not depend on.
        have hdivide : Operation.IsQuiet (.idiv (draft.ring.allocateExcept [.rax, .rdx]).1) :=
          show ∀ r ∈ [Register.rax, .rdx], IsFree r by decide
        refine .cons (.pop (RegisterRing.isFree_allocate _)) (.cons (.pop (by decide)) ?_)
        exact .cons (.quiet (List.forall_mem_singleton.mpr (by decide)))
          (.cons (.quiet hdivide) (.cons (.push hroom) .nil))

/-- So does every other binary operator. -/
theorem balanced_binaryCode {left right : Known} {words : Nat}
    (h : draft.binaryCode operator left right = .ok (code, next)) (hroom : words + 1 ≤ limit) :
    Balanced slots.length limit code (words + 2) (words + 1) := by
  have hwork : ∀ kind l r, IsFree l → IsFree r → ∀ operation ∈
      truthOf .ne l ++ truthOf .ne r ++ [.arith kind l r], operation.IsQuiet := by
    intro kind l r hl hr
    simp only [List.forall_mem_append, List.forall_mem_singleton]
    exact ⟨⟨isQuiet_truthOf hl _, isQuiet_truthOf hr _⟩, List.forall_mem_singleton.mpr hl⟩
  rw [binaryCode] at h
  -- One case for each group of operators, in the order of the compiler.
  split at h
  case h_4 => exact balanced_divideBy h hroom
  case h_5 => exact balanced_divideBy h hroom
  case h_8 =>
    split at h
    next =>
      refine balanced_onOperands (Except.ok.inj h) (fun l r hl _ => ?_) hroom
      simpa [Operation.IsQuiet, Operation.changes] using hl
    next => cases h
  case h_6 => exact balanced_onOperands (Except.ok.inj h) (hwork .and) hroom
  case h_7 => exact balanced_onOperands (Except.ok.inj h) (hwork .or) hroom
  -- A sum, a difference or a product is one operation.
  all_goals
    refine balanced_onOperands (Except.ok.inj h) (fun l r hl _ => ?_) hroom
    simpa [Operation.IsQuiet, Operation.changes] using hl

/-- The words of an operator are those that the compiler counts. -/
theorem balanced_binary (h : draft.binary operator pc = .ok (code, next))
    (hroom : next.stack.length ≤ limit) :
    Balanced slots.length limit code draft.stack.length next.stack.length := by
  rw [binary] at h
  split at h
  next right left rest hstack =>
    split at h
    next => cases h
    next =>
      obtain ⟨⟨operations, after⟩, hcode, h⟩ := exists_of_bind_eq_ok h
      cases h
      rw [hstack]
      exact balanced_binaryCode hcode hroom
  next => cases h

/-- A unary operator leaves as many words as there were. -/
theorem balanced_unary (h : draft.unary operator pc = .ok (code, next))
    (hroom : next.stack.length ≤ limit) :
    Balanced slots.length limit code draft.stack.length next.stack.length := by
  have hr : IsFree draft.register.1 := draft.isFree_register
  rw [unary] at h
  split at h
  next => cases h
  next operand rest hstack =>
    dsimp only at h
    rw [hstack]
    split at h
    next =>
      split at h
      next => cases h
      next =>
        cases h
        exact .cons (.pop hr) (.cons (.quiet (List.forall_mem_singleton.mpr hr))
          (.cons (.push hroom) .nil))
    next =>
      split at h
      next =>
        cases h
        exact .append (.cons (.pop hr) (.quiet (isQuiet_truthOf hr _))) (.cons (.push hroom) .nil)
      next => cases h

/-- The call finds an even number of words on the stack. -/
theorem balanced_print {address : Int64} (h : draft.print address pc = .ok (code, next))
    (hroom : draft.stack.length ≤ limit) :
    Balanced slots.length limit code draft.stack.length next.stack.length := by
  rw [print] at h
  cases hstack : draft.stack with
  | nil =>
    rw [hstack] at h
    cases h
    rw [hstack]
    exact .nil
  | cons known rest =>
    simp only [hstack, popValue] at h
    cases h
    rw [hstack, List.length_cons] at hroom
    have hquiet : ∀ operation ∈ [Operation.mov .rsi draft.register.1,
        .load .rdi .rbp contextPlace, .movImm .rdx known.printKind, .movImm64 .rax address],
        operation.IsQuiet := by
      have hfree : ∀ {r : Register}, IsFree r → ∀ other ∈ [r], IsFree other :=
        fun hr => List.forall_mem_singleton.mpr hr
      simp only [List.forall_mem_cons]
      exact ⟨hfree (by decide), hfree (by decide), isQuiet_movImm (by decide) _,
        hfree (by decide), List.forall_mem_nil _⟩
    rw [List.append_assoc, List.append_assoc]
    refine .append (.append (.cons (.pop draft.isFree_register) .nil) (.quiet hquiet)) ?_
    -- The value has been popped, so the parity of the rest decides about the padding.
    by_cases hodd : rest.length % 2 = 1
    · rw [if_pos hodd, if_pos hodd]
      exact .cons (.lower hroom) (.cons (.call (by omega)) (.cons .raise .nil))
    · rw [if_neg hodd, if_neg hodd]
      exact .cons (.call (by omega)) .nil

/-- The code of an instruction leads from the values that are known before it to those after it. -/
theorem balanced_instruction {instruction : Instruction} {address : Int64}
    (h : draft.instruction slots address instruction pc = .ok (code, next))
    (hbefore : draft.stack.length ≤ limit) (hafter : next.stack.length ≤ limit) :
    Balanced slots.length limit code draft.stack.length next.stack.length := by
  cases hop : instruction.opcode <;> rw [Draft.instruction, hop] at h <;> dsimp only at h
  case load =>
    split at h
    next => exact balanced_pushLiteral h hafter
    next =>
      split at h
      next => exact balanced_pushLiteral h hafter
      next => exact balanced_pushVariable h hafter
    next => cases h
  case push =>
    split at h
    next => exact balanced_pushLiteral h hafter
    next =>
      split at h
      next => exact balanced_pushLiteral h hafter
      next => cases h
    next => cases h
  case store =>
    split at h
    next => exact balanced_storeVariable h
    next => cases h
  case defVar =>
    split at h
    next => exact balanced_declare h
    next =>
      cases h
      exact .nil
  case pop =>
    obtain ⟨⟨r, known, pops, after⟩, hpop, h⟩ := exists_of_bind_eq_ok h
    cases h
    exact balanced_popValue hpop
  case binaryOp =>
    split at h
    next => exact balanced_binary h hafter
    next => cases h
  case unaryOp =>
    split at h
    next => exact balanced_unary h hafter
    next => cases h
  case print => exact balanced_print h hbefore
  case label | nop | pass | package | tryBegin | catchBegin | doBegin | continueLoop | breakLoop |
      endBlock =>
    cases h
    exact .nil
  -- The others have no code.
  all_goals cases h

end Draft

end StackMachine.Native
