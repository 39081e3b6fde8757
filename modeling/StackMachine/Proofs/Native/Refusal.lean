import StackMachine.Proofs.Native.Agreement

/-!
# Why the compiler refuses an instruction

What the compiler knows about the values and variables is right, so it refuses an instruction for
want of nothing: the interpreter fails on the instruction too, or the instruction pushes a value
that has no native form, or its result does not fit into the integers of its kind.

## Main definitions

* `Instruction.hasNativeForm`: the kinds of instructions that can be compiled.
* `Instruction.dividing?`, `Instruction.negating?`: the operands of a division and of a negation.
* `Instruction.Fails`: executing the instruction is a fault.
* `Instruction.Refused`: why an instruction is refused, with the error that it is refused with.

## Main results

* `Native.Draft.refused_instruction`: an instruction is only refused for such a reason.
-/

namespace StackMachine

namespace Operator

/-- The texts that spell an operator. -/
def spellings : Operator → List String
  | add => ["+"]
  | sub => ["-"]
  | mul => ["*"]
  | div => ["/"]
  | rem => ["%"]
  | eq => ["=="]
  | ne => ["!="]
  | lt => ["<"]
  | gt => [">"]
  | le => ["<="]
  | ge => [">="]
  | and => ["and", "&&"]
  | or => ["or", "||"]
  | assign => ["="]

/-- An operator is read from one of its spellings. -/
theorem mem_spellings {text : String} {operator : Operator} (h : ofText? text = some operator) :
    text ∈ operator.spellings := by
  unfold ofText? at h
  -- The texts are tried one after the other.
  iterate 14
    rcases ite_eq_iff.mp h with ⟨htext, hoperator⟩ | ⟨-, h⟩
    · cases hoperator
      simpa only [spellings, List.mem_cons, List.not_mem_nil, or_false] using htext
  cases h

end Operator

namespace Value

/-- Whether the value has a native form: it is an integer or a truth value. -/
def hasNativeForm : Value → Bool
  | int _ | long _ | bool _ => true
  | _ => false

end Value

/-- Whether the error is about the operands of a division. -/
def Native.CompileError.isDivision : CompileError → Bool
  | unknownDivisor _ | divisionOverflow => true
  | _ => false

namespace Instruction

open Effect

/-- Whether the instruction is of a kind that can be compiled. -/
def hasNativeForm (instruction : Instruction) : Bool :=
  instruction.opcode ∈
    [.load, .push, .store, .defVar, .pop, .binaryOp, .unaryOp, .print, .label, .nop, .pass,
      .package, .tryBegin, .catchBegin, .doBegin, .continueLoop, .breakLoop, .endBlock]

/-- The operands of an instruction that divides integers or takes a remainder. -/
def dividing? (instruction : Instruction) (stack : List Value) : Option (Int64 × Int64) :=
  match stack with
  | right :: left :: _ =>
    if instruction.opcode = .binaryOp ∧
        (instruction.operand? = some "/" ∨ instruction.operand? = some "%") then do
      return (← left.integer?, ← right.integer?)
    else none
  | _ => none

/-- The number of 32 bits that an instruction negates. -/
def negating? (instruction : Instruction) (stack : List Value) : Option Int32 :=
  match stack with
  | .int n :: _ =>
    if instruction.opcode = .unaryOp ∧ instruction.operand? = some "-" then some n else none
  | _ => none

/-- The result of the instruction does not fit: it divides the least integer by minus one, or
negates the least integer of 32 bits. -/
def Overflows (instruction : Instruction) (stack : List Value) : Prop :=
  instruction.dividing? stack = some (Int64.minValue, -1) ∨
    instruction.negating? stack = some Int32.minValue

instance (instruction : Instruction) (stack : List Value) :
    Decidable (instruction.Overflows stack) :=
  inferInstanceAs (Decidable (_ ∨ _))

/-- Executing the instruction is a fault. -/
def Fails (instruction : Instruction) (m : Machine) : Prop :=
  ∃ fault after, ∀ runner pc,
    (instruction.execute runner pc).run m = (.error (.fault fault), after)

/-! ### Instructions that fail -/

section Faults

variable {instruction : Instruction} {m : Machine} {left right : Value} {stack : List Value}
  {operator : String} {fault : Fault}

/-- `LOAD` fails if it has neither a literal nor a name. -/
theorem fails_load (hop : instruction.opcode = .load)
    (hvalue : instruction.loaded? m.bindings = none) : instruction.Fails m := by
  refine ⟨instruction.fault (.missing "LOAD" "operand"), m, ?_⟩
  intro runner pc
  simp only [execute, hop]
  rw [run_get_bind]
  simp only [hvalue]
  rfl

theorem fails_push (hop : instruction.opcode = .push) (hvalue : instruction.pushed? = none) :
    instruction.Fails m := by
  refine ⟨instruction.fault (.missing "PUSH" "operand"), m, ?_⟩
  intro runner pc
  simp only [execute, hop, hvalue]
  rfl

/-- `STORE` takes the value off the stack before it looks for the name. -/
theorem fails_store (hop : instruction.opcode = .store)
    (h : m.stack = [] ∨ instruction.operand? = none) : instruction.Fails m := by
  cases hstack : m.stack with
  | nil =>
    refine ⟨instruction.fault (.underflow "STORE"), m, ?_⟩
    intro runner pc
    simp only [execute, hop]
    exact run_bind_of_error (run_popOr_nil _ hstack)
  | cons value stack =>
    have hname : instruction.operand? = none := by
      apply h.resolve_left
      rw [hstack]
      exact List.cons_ne_nil _ _
    refine ⟨instruction.fault (.missing "STORE" "variable name"), { m with stack }, ?_⟩
    intro runner pc
    simp only [execute, hop, hname]
    rw [run_bind_of_ok (run_popOr_cons _ hstack)]
    rfl

theorem fails_pop (hop : instruction.opcode = .pop) (hstack : m.stack = []) :
    instruction.Fails m := by
  refine ⟨instruction.fault (.underflow "POP"), m, ?_⟩
  intro runner pc
  simp only [execute, hop]
  exact run_bind_of_error (run_popOr_nil _ hstack)

/-- A binary operator fails without two operands. -/
theorem fails_binary_of_underflow (hop : instruction.opcode = .binaryOp)
    (hlength : m.stack.length < 2) : instruction.Fails m := by
  refine ⟨instruction.fault (.underflow "BINARY_OP"), m, ?_⟩
  intro runner pc
  simp only [execute, hop, applyBinary]
  rw [run_get_bind, if_pos hlength]
  rfl

/-- It fails without an operator. -/
theorem fails_binary_of_missing (hop : instruction.opcode = .binaryOp)
    (hoperator : instruction.operand? = none) : instruction.Fails m := by
  by_cases hlength : m.stack.length < 2
  · exact fails_binary_of_underflow hop hlength
  · refine ⟨instruction.fault (.missing "BINARY_OP" "operator"), m, ?_⟩
    intro runner pc
    simp only [execute, hop, applyBinary, hoperator]
    rw [run_get_bind, if_neg hlength]
    rfl

/-- It fails if the operator cannot be applied to the operands. -/
theorem fails_binary (hop : instruction.opcode = .binaryOp)
    (hoperator : instruction.operand? = some operator) (hstack : m.stack = right :: left :: stack)
    (hvalue : Value.binary left right operator instruction.line = .error fault) :
    instruction.Fails m :=
  ⟨fault, { m with stack }, fun _ _ => run_execute_binary_error hop hoperator hstack hvalue⟩

/-- `UNARY_OP` looks for the operator before it takes the value off the stack. -/
theorem fails_unary_of_missing (hop : instruction.opcode = .unaryOp)
    (h : instruction.operand? = none ∨ m.stack = []) : instruction.Fails m := by
  cases hoperator : instruction.operand? with
  | none =>
    refine ⟨instruction.fault (.missing "UNARY_OP" "operator"), m, ?_⟩
    intro runner pc
    simp only [execute, hop, hoperator]
    rfl
  | some operator =>
    have hstack : m.stack = [] := by
      apply h.resolve_left
      rw [hoperator]
      exact Option.some_ne_none _
    refine ⟨instruction.fault (.underflow "UNARY_OP"), m, ?_⟩
    intro runner pc
    simp only [execute, hop, hoperator]
    rw [run_bind_of_ok (run_orFail_some ..)]
    exact run_bind_of_error (run_popOr_nil _ hstack)

theorem fails_unary (hop : instruction.opcode = .unaryOp)
    (hoperator : instruction.operand? = some operator) (hstack : m.stack = left :: stack)
    (hvalue : Value.unary left operator instruction.line = .error fault) :
    instruction.Fails m := by
  refine ⟨fault, { m with stack }, ?_⟩
  intro runner pc
  simp only [execute, hop, hoperator]
  rw [run_bind_of_ok (run_orFail_some ..), run_bind_of_ok (run_popOr_cons _ hstack), hvalue]
  rfl

end Faults

/-! ### Divisions -/

section Divisions

variable {instruction : Instruction} {m : Machine} {stack : List Value} {a b : Int64}

/-- An instruction divides integers if it is a division or a remainder and has two integers to
take. -/
theorem dividing?_eq_some_iff :
    instruction.dividing? stack = some (a, b) ↔ instruction.opcode = .binaryOp ∧
      (instruction.operand? = some "/" ∨ instruction.operand? = some "%") ∧
      ∃ right left rest, stack = right :: left :: rest ∧ left.integer? = some a ∧
        right.integer? = some b := by
  unfold dividing?
  split
  next right left rest =>
    split
    next hdivides =>
      simp [hdivides, Option.bind_eq_some_iff]
    next hdivides =>
      simp only [reduceCtorEq, false_iff]
      rintro ⟨hop, hoperator, -⟩
      exact hdivides ⟨hop, hoperator⟩
  next hstack =>
    simp only [reduceCtorEq, false_iff]
    rintro ⟨-, -, right, left, rest, rfl, -⟩
    exact hstack right left rest rfl

/-- A division by zero is a fault. -/
theorem fails_of_dividing_zero (h : instruction.dividing? m.stack = some (a, 0)) :
    instruction.Fails m := by
  obtain ⟨hop, hoperator, right, left, rest, hstack, hleft, hright⟩ := dividing?_eq_some_iff.mp h
  rcases hoperator with hoperator | hoperator
  · exact fails_binary hop hoperator hstack (Value.binary_of_integers "/" _ hleft hright)
  · exact fails_binary hop hoperator hstack (Value.binary_of_integers "%" _ hleft hright)

end Divisions

/-- Why the compiler refuses an instruction that a machine is about to execute. Only the divisor
and the dividend are to blame for the errors of divisions. -/
inductive Refused (instruction : Instruction) (m : Machine) : Native.CompileError → Prop
  | fault {error : Native.CompileError} : instruction.Fails m → error.isDivision = false →
      Refused instruction m error
  | value {error : Native.CompileError} {after : Machine} {value : Value} :
      (∀ runner pc, (instruction.execute runner pc).run m = (.ok .next, after)) →
      value ∈ after.stack → value.hasNativeForm = false → error.isDivision = false →
      Refused instruction m error
  | zeroDivisor {operator : String} {dividend : Int64} :
      instruction.dividing? m.stack = some (dividend, 0) →
      Refused instruction m (.unknownDivisor operator)
  | quotient : instruction.dividing? m.stack = some (Int64.minValue, -1) →
      Refused instruction m .divisionOverflow
  | negation : instruction.negating? m.stack = some Int32.minValue →
      Refused instruction m .negation

end Instruction

namespace Native

variable {slots : List String} {address : Int64} {draft : Draft} {instruction : Instruction}
  {m : Machine} {pc : Nat} {error : CompileError}

/-- A value without a native form is one that the compiler knows nothing about. -/
theorem Known.hasNativeForm_eq (value : Value) :
    value.hasNativeForm = (Known.ofValue? value).isSome := by
  cases value <;> rfl

/-- The comparisons are the operators that ask for a condition. -/
theorem Condition.exists_of_comparison {operator : String} {comparison : Operator}
    (h : Operator.ofText? operator = some comparison)
    (hmem : comparison ∈ [Operator.eq, .ne, .lt, .gt, .le, .ge]) :
    ∃ condition, Condition.ofComparison? operator = some condition := by
  have htext := Operator.mem_spellings h
  simp only [List.mem_cons, List.not_mem_nil, or_false] at hmem
  rcases hmem with rfl | rfl | rfl | rfl | rfl | rfl <;>
  · obtain rfl := List.mem_singleton.mp htext
    exact ⟨_, rfl⟩

namespace Draft

/-! ### Literals and variables -/

/-- A value that is refused has no native form. -/
theorem refused_pushLiteral {value : Value} (h : draft.pushLiteral value = .error error)
    (hrun : ∀ runner pc, (instruction.execute runner pc).run m =
      (.ok .next, { m with stack := value :: m.stack })) : instruction.Refused m error := by
  rw [pushLiteral] at h
  split at h
  next hvalue =>
    cases h
    refine .value hrun List.mem_cons_self ?_ rfl
    rw [Known.hasNativeForm_eq, hvalue]
    rfl
  next => cases h

/-- `LOAD` is refused if it fails or its value has no native form. -/
theorem refused_load (hop : instruction.opcode = .load)
    (hslots : ∀ name, slotName? instruction = some name → name ∈ slots)
    (h : draft.instruction slots address instruction pc = .error error) :
    instruction.Refused m error := by
  have hrun : ∀ value, instruction.loaded? m.bindings = some value → ∀ runner pc,
      (instruction.execute runner pc).run m = (.ok .next, { m with stack := value :: m.stack }) :=
    fun value hvalue runner pc => Instruction.run_execute_load hop hvalue
  rw [Draft.instruction, hop] at h
  dsimp only at h
  split at h
  next _ _ value hliteral =>
    refine refused_pushLiteral h (hrun value ?_)
    rw [Instruction.loaded?, hliteral]
    rfl
  next text hliteral hoperand =>
    split at h
    next value hread =>
      refine refused_pushLiteral h (hrun value ?_)
      rw [Instruction.loaded?, hliteral, hoperand, Option.map_some, hread]
      rfl
    next hread =>
      -- Every variable has a slot, so loading one is never refused.
      have hname : slotName? instruction = some text := by
        rw [slotName?, hop, hoperand]
        simp [hliteral, hread]
      obtain ⟨place, hplace⟩ := exists_placeOf_of_mem (hslots text hname)
      rw [pushVariable, hplace] at h
      cases h
  next hliteral hoperand =>
    cases h
    refine .fault (Instruction.fails_load hop ?_) rfl
    rw [Instruction.loaded?, hliteral, hoperand]
    rfl

/-- `PUSH` of a text that is no literal pushes the text. -/
theorem refused_push (hop : instruction.opcode = .push)
    (h : draft.instruction slots address instruction pc = .error error) :
    instruction.Refused m error := by
  have hrun : ∀ value, instruction.pushed? = some value → ∀ runner pc,
      (instruction.execute runner pc).run m = (.ok .next, { m with stack := value :: m.stack }) :=
    fun value hvalue runner pc => Instruction.run_execute_push hop hvalue
  rw [Draft.instruction, hop] at h
  dsimp only at h
  split at h
  next _ _ value hliteral =>
    refine refused_pushLiteral h (hrun value ?_)
    rw [Instruction.pushed?, hliteral]
    rfl
  next text hliteral hoperand =>
    split at h
    next value hread =>
      refine refused_pushLiteral h (hrun value ?_)
      rw [Instruction.pushed?, hliteral, hoperand, Option.map_some, hread]
      rfl
    next hread =>
      cases h
      refine .value (hrun (.str text) ?_) List.mem_cons_self rfl rfl
      rw [Instruction.pushed?, hliteral, hoperand, Option.map_some, hread]
      rfl
  next hliteral hoperand =>
    cases h
    refine .fault (Instruction.fails_push hop ?_) rfl
    rw [Instruction.pushed?, hliteral, hoperand]
    rfl

/-- `STORE` is refused if it fails. -/
theorem refused_store (hop : instruction.opcode = .store)
    (hslots : ∀ name, slotName? instruction = some name → name ∈ slots)
    (h : draft.instruction slots address instruction pc = .error error)
    (htracks : draft.Tracks m) : instruction.Refused m error := by
  rw [Draft.instruction, hop] at h
  dsimp only at h
  split at h
  next name hoperand =>
    have hname : slotName? instruction = some name := by rw [slotName?, hop, hoperand]
    obtain ⟨place, hplace⟩ := exists_placeOf_of_mem (hslots name hname)
    rw [storeVariable, hplace] at h
    cases hstack : draft.stack with
    | nil =>
      simp only [popValue, hstack] at h
      cases h
      exact .fault (Instruction.fails_store hop (Or.inl (htracks.stack_nil hstack))) rfl
    | cons known rest =>
      simp only [popValue, hstack] at h
      cases h
  next hoperand =>
    cases h
    exact .fault (Instruction.fails_store hop (Or.inr hoperand)) rfl

theorem refused_pop (hop : instruction.opcode = .pop)
    (h : draft.instruction slots address instruction pc = .error error)
    (htracks : draft.Tracks m) : instruction.Refused m error := by
  rw [Draft.instruction, hop] at h
  dsimp only at h
  cases hstack : draft.stack with
  | nil =>
    simp only [popValue, hstack] at h
    cases h
    exact .fault (Instruction.fails_pop hop (htracks.stack_nil hstack)) rfl
  | cons known rest =>
    simp only [popValue, hstack] at h
    cases h

/-! ### Operators -/

section Operators

variable {operator : String} {left right : Known} {a b : Int64}

/-- Division by known operands is refused only for these two pairs. -/
theorem divideBy_error {result : Register} (hleft : left.constant = some a)
    (hright : right.constant = some b)
    (h : draft.divideBy operator result left right = .error error) :
    b = 0 ∧ error = .unknownDivisor operator ∨
      (a, b) = (Int64.minValue, -1) ∧ error = .divisionOverflow := by
  simp only [divideBy, hleft, hright, reduceCtorEq, Option.some.injEq, false_or] at h
  split at h
  next hzero =>
    cases h
    exact Or.inl ⟨hzero, rfl⟩
  next =>
    split at h
    next hleast =>
      cases h
      exact Or.inr ⟨Prod.ext hleast.2 hleast.1, rfl⟩
    next => cases h

/-- The code of an operator on integers is only missing if the operator has no meaning for them, or
for a division by zero or one that overflows. -/
theorem binaryCode_error (hleft : left.constant = some a) (hright : right.constant = some b)
    (h : draft.binaryCode operator left right = .error error) :
    (operator = "/" ∨ operator = "%") ∧ (b = 0 ∧ error = .unknownDivisor operator ∨
        (a, b) = (Int64.minValue, -1) ∧ error = .divisionOverflow) ∨
      error = .binaryOperator operator ∧
        ∀ line, ∃ fault, Value.integerOp a b operator line = .error fault := by
  have hcomparison : ∀ {comparison}, Operator.ofText? operator = some comparison →
      comparison ∈ [Operator.eq, .ne, .lt, .gt, .le, .ge] →
      Condition.ofComparison? operator ≠ none := by
    intro comparison hoperator hmem
    obtain ⟨condition, hcondition⟩ := Condition.exists_of_comparison hoperator hmem
    rw [hcondition]
    exact Option.some_ne_none condition
  rw [binaryCode] at h
  split at h
  next => cases h
  next => cases h
  next => cases h
  next hoperator =>
    exact Or.inl ⟨Or.inl (List.mem_singleton.mp (Operator.mem_spellings hoperator)),
      divideBy_error hleft hright h⟩
  next hoperator =>
    exact Or.inl ⟨Or.inr (List.mem_singleton.mp (Operator.mem_spellings hoperator)),
      divideBy_error hleft hright h⟩
  next => cases h
  next => cases h
  next =>
    split at h
    next => cases h
    next hnone =>
      cases h
      refine Or.inr ⟨rfl, fun line => ⟨.onLine (.unsupportedOperator .integer operator) line, ?_⟩⟩
      rw [Value.integerOp]
      cases hoperator : Operator.ofText? operator with
      | none => rfl
      | some symbol =>
        cases symbol
        case assign => rfl
        case eq | ne | lt | gt | le | ge =>
          exact absurd hnone (hcomparison hoperator (by simp))
        -- The others have been dealt with.
        all_goals contradiction

/-- Truth values have no arithmetic, nor are they compared. -/
theorem binary_of_bool {l r : Value} (hleft : Known.ofValue? l = some left)
    (hright : Known.ofValue? r = some right) (hkind : left.kind = .bool ∨ right.kind = .bool)
    (line : Nat) : Value.binary l r operator line = .error (.onLine .operandMismatch line) := by
  rcases Known.ofValue?_cases hleft with ⟨n, rfl, rfl⟩ | ⟨n, rfl, rfl⟩ | ⟨n, rfl, rfl⟩ <;>
    rcases Known.ofValue?_cases hright with ⟨k, rfl, rfl⟩ | ⟨k, rfl, rfl⟩ | ⟨k, rfl, rfl⟩ <;>
    first | rfl | simp at hkind

/-- The compiler refuses an operator for which it knows fewer than two operands. -/
theorem binary_of_short (hshort : draft.stack.length < 2) :
    draft.binary operator pc = .error (.underflow pc) := by
  rw [binary]
  split
  next hstack =>
    rw [hstack, List.length_cons, List.length_cons] at hshort
    omega
  next => rfl

/-- An operator on integers that are known. -/
theorem refused_binary_of_integers {r l : Value} {values : List Value}
    (hop : instruction.opcode = .binaryOp) (hoperator : instruction.operand? = some operator)
    (hvalues : m.stack = r :: l :: values) (hleft : l.integer? = some left.word)
    (hright : r.integer? = some right.word) (hleftKnown : left.constant = some left.word)
    (hrightKnown : right.constant = some right.word)
    (h : draft.binaryCode operator left right = .error error) : instruction.Refused m error := by
  have hdividing : operator = "/" ∨ operator = "%" →
      instruction.dividing? m.stack = some (left.word, right.word) := by
    intro hdivides
    refine Instruction.dividing?_eq_some_iff.mpr ⟨hop, ?_, r, l, values, hvalues, hleft, hright⟩
    rw [hoperator, Option.some.injEq, Option.some.injEq]
    exact hdivides
  rcases binaryCode_error hleftKnown hrightKnown h with
    ⟨hdivides, ⟨hzero, rfl⟩ | ⟨hleast, rfl⟩⟩ | ⟨rfl, hfails⟩
  · exact .zeroDivisor (hzero ▸ hdividing hdivides)
  · exact .quotient (hleast ▸ hdividing hdivides)
  · obtain ⟨fault, hfault⟩ := hfails instruction.line
    have hbinary := (Value.binary_of_integers operator _ hleft hright).trans hfault
    exact .fault (Instruction.fails_binary hop hoperator hvalues hbinary) rfl

/-- A binary operator is refused if it fails, or for its divisor or quotient. -/
theorem refused_binary (hop : instruction.opcode = .binaryOp)
    (h : draft.instruction slots address instruction pc = .error error)
    (htracks : draft.Tracks m) : instruction.Refused m error := by
  rw [Draft.instruction, hop] at h
  dsimp only at h
  split at h
  next operator hoperator =>
    by_cases hshort : draft.stack.length < 2
    · rw [binary_of_short hshort] at h
      cases h
      rw [← htracks.length_eq] at hshort
      exact .fault (Instruction.fails_binary_of_underflow hop hshort) rfl
    · obtain ⟨right, below, hstack⟩ := List.exists_cons_of_length_pos (l := draft.stack) (by omega)
      rw [hstack, List.length_cons] at hshort
      obtain ⟨left, rest, rfl⟩ := List.exists_cons_of_length_pos (l := below) (by omega)
      obtain ⟨r, values, hvalues, hright, hbelow⟩ := htracks.top hstack
      obtain ⟨l, values, rfl, hleft, -⟩ := List.map_eq_cons_iff.mp hbelow
      rw [binary, hstack] at h
      dsimp only at h
      split at h
      -- Truth values have no arithmetic on either side.
      next hkind =>
        cases h
        exact .fault (Instruction.fails_binary hop hoperator hvalues
          (binary_of_bool hleft hright hkind _)) rfl
      -- Both operands are integers, and what is known of them is their value.
      next hkind =>
        rcases error_or_of_bind_eq_error h with hcode | ⟨_, -, h⟩
        · exact refused_binary_of_integers hop hoperator hvalues
            (Known.integer?_of_ofValue? hleft fun hk => hkind (Or.inl hk))
            (Known.integer?_of_ofValue? hright fun hk => hkind (Or.inr hk))
            (Known.constant_of_ofValue? hleft) (Known.constant_of_ofValue? hright) hcode
        · cases h
  next hoperator =>
    cases h
    exact .fault (Instruction.fails_binary_of_missing hop hoperator) rfl

/-- Negation is refused for truth values, which the interpreter does not negate either, and for the
least number of 32 bits. -/
theorem refused_negation {v : Value} {values : List Value} {operand : Known}
    (hop : instruction.opcode = .unaryOp) (hoperator : instruction.operand? = some "-")
    (hvalues : m.stack = v :: values) (hoperand : Known.ofValue? v = some operand)
    (hkind : operand.kind = .bool ∨ operand.kind = .int ∧
      (operand.constant = none ∨ operand.constant = some Int32.minValue.toInt64)) :
    instruction.Refused m .negation := by
  rcases Known.ofValue?_cases hoperand with ⟨n, rfl, rfl⟩ | ⟨n, rfl, rfl⟩ | ⟨b, rfl, rfl⟩
  · have hleast : n = Int32.minValue := by
      have hword : n.toInt64 = Int32.minValue.toInt64 := by simpa using hkind
      rw [← Int32.toInt_inj, ← Int32.toInt_toInt64, hword, Int32.toInt_toInt64]
    refine .negation ?_
    rw [hvalues, hleast]
    exact if_pos ⟨hop, hoperator⟩
  · simp at hkind
  · exact .fault (Instruction.fails_unary hop hoperator hvalues rfl) rfl

/-- A unary operator is refused if it fails, and negation for the least number of 32 bits. -/
theorem refused_unary (hop : instruction.opcode = .unaryOp)
    (h : draft.instruction slots address instruction pc = .error error)
    (htracks : draft.Tracks m) : instruction.Refused m error := by
  rw [Draft.instruction, hop] at h
  dsimp only at h
  split at h
  next operator hoperator =>
    cases hstack : draft.stack with
    | nil =>
      rw [unary, hstack] at h
      cases h
      exact .fault (Instruction.fails_unary_of_missing hop (Or.inr (htracks.stack_nil hstack))) rfl
    | cons operand rest =>
      -- What the compiler knows about the operand is the value on the stack of the machine.
      obtain ⟨v, values, hvalues, hoperand, -⟩ := htracks.top hstack
      rw [unary, hstack] at h
      dsimp only at h
      split at h
      next hminus =>
        subst hminus
        split at h
        next hkind =>
          cases h
          exact refused_negation hop hoperator hvalues hoperand hkind
        next => cases h
      next hminus =>
        split at h
        next => cases h
        next hnot =>
          cases h
          have hunknown : Value.unary v operator instruction.line =
              .error (.onLine (.unknownUnary operator) instruction.line) :=
            (if_neg hminus).trans (if_neg hnot)
          exact .fault (Instruction.fails_unary hop hoperator hvalues hunknown) rfl
  next hoperator =>
    cases h
    exact .fault (Instruction.fails_unary_of_missing hop (Or.inl hoperator)) rfl

end Operators

/-! ### All instructions -/

/-- Printing is never refused. -/
theorem print_ne_error : draft.print address pc ≠ .error error := by
  rw [print]
  cases hstack : draft.stack with
  | nil =>
    intro h
    cases h
  | cons known rest =>
    simp only [popValue, hstack]
    intro h
    cases h

/-- An instruction of a kind that can be compiled is only refused if the interpreter fails on it,
if it pushes a value without a native form, or if its result does not fit. -/
theorem refused_instruction (hkind : instruction.hasNativeForm = true)
    (hslots : ∀ name, slotName? instruction = some name → name ∈ slots)
    (h : draft.instruction slots address instruction pc = .error error)
    (htracks : draft.Tracks m) : instruction.Refused m error := by
  cases hop : instruction.opcode
  case load => exact refused_load hop hslots h
  case push => exact refused_push hop h
  case store => exact refused_store hop hslots h htracks
  case pop => exact refused_pop hop h htracks
  case binaryOp => exact refused_binary hop h htracks
  case unaryOp => exact refused_unary hop h htracks
  case print =>
    rw [Draft.instruction, hop] at h
    exact absurd h print_ne_error
  case defVar =>
    rw [Draft.instruction, hop] at h
    dsimp only at h
    split at h
    next text hoperand =>
      have hname : slotName? instruction = some (Text.before (· == ':') text) := by
        rw [slotName?, hop, hoperand]
      obtain ⟨place, hplace⟩ := exists_placeOf_of_mem (hslots _ hname)
      rw [declare, hplace] at h
      cases h
    next => cases h
  case label | nop | pass | package | tryBegin | catchBegin | doBegin | continueLoop | breakLoop |
      endBlock =>
    rw [Draft.instruction, hop] at h
    cases h
  all_goals simp [Instruction.hasNativeForm, hop] at hkind

end Draft

end Native

end StackMachine
