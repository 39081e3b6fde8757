import StackMachine.Code.Instruction
import StackMachine.Code.Literal
import StackMachine.Native.Region
import StackMachine.Native.RegisterRing
import StackMachine.Operator
import StackMachine.Text.Blank

/-!
# Compiling straight-line programs

A program without calls, branches and jumps becomes one native function. Between instructions
every value lives on the machine stack. The compiler keeps what it knows about each of them, kind
and constant, so that it refuses whatever the interpreter would reject.

The frame below `rbp` holds the five saved registers, then the context pointer at `rbp - 48`,
then a slot of eight bytes for each variable.
-/

namespace StackMachine.Native

/-- Why a program is not compiled. -/
inductive CompileError
  /-- It has calls, branches or jumps. -/
  | controlFlow
  /-- The place of a variable overflows. -/
  | placeOverflow
  /-- The variables do not fit in a frame. -/
  | frameTooLarge
  /-- An instruction lacks its operand. -/
  | missing (instruction what : String)
  /-- A variable has no slot. -/
  | unknownVariable (name : String)
  /-- A literal of this type has no native form. -/
  | literalType (typeName : String)
  /-- A text has no native form. -/
  | textOperand (text : String)
  /-- A truth value has no arithmetic. -/
  | boolOperand (operator : String)
  /-- The divisor is zero or not known. -/
  | unknownDivisor (operator : String)
  /-- The quotient may not fit. -/
  | divisionOverflow
  /-- The binary operator has no native form. -/
  | binaryOperator (operator : String)
  /-- The value cannot be negated, or its negation may not fit. -/
  | negation
  /-- The unary operator has no native form. -/
  | unaryOperator (operator : String)
  /-- The instruction has no native form. -/
  | noNativeForm (mnemonic : String)
  /-- The instruction at this position finds too few values. -/
  | underflow (pc : Nat)
  /-- There is no executable memory. -/
  | region (error : RegionError)
  deriving DecidableEq, Repr

/-- The wording of a compile error. -/
def CompileError.message : CompileError → String
  | controlFlow => "unsupported: program contains control flow"
  | placeOverflow => "attempt to subtract with overflow"
  | frameTooLarge => "unsupported: frame too large"
  | missing instruction what => "unsupported: " ++ instruction ++ " without " ++ what
  | unknownVariable name => "unsupported: unknown variable " ++ name
  | literalType typeName => "unsupported: " ++ typeName ++ " literal"
  | textOperand text => "unsupported: string operand " ++ text
  | boolOperand operator => "unsupported: BINARY_OP " ++ operator ++ " on bool"
  | unknownDivisor operator =>
    "unsupported: BINARY_OP " ++ operator ++ " without a known non-zero divisor"
  | divisionOverflow => "unsupported: division may overflow"
  | binaryOperator operator => "unsupported: BINARY_OP " ++ operator
  | negation => "unsupported: UNARY_OP - operand"
  | unaryOperator operator => "unsupported: UNARY_OP " ++ operator
  | noNativeForm mnemonic => "unsupported: " ++ mnemonic
  | underflow pc => "stack underflow at pc " ++ Text.writeInteger pc
  | region error => error.message

/-- Whether a program has no calls, branches or jumps. -/
def isStraightLine (program : Program) : Bool :=
  program.all fun instruction =>
    instruction.opcode ∉ [.func, .ifBegin, .whileBegin, .call, .goto]

/-- The kinds of values that have a native form. -/
inductive Kind
  /-- A 32-bit integer. -/
  | int
  /-- A 64-bit integer. -/
  | long
  /-- A truth value. -/
  | bool
  deriving DecidableEq, Repr, Inhabited

/-- What is known about a value at compile time. -/
structure Known where
  /-- Its kind. -/
  kind : Kind
  /-- Its word, if that is known. -/
  constant : Option Int64
  deriving DecidableEq, Repr, Inhabited

namespace Known

/-- The value of a variable before its first store. -/
def zero : Known := ⟨.int, some 0⟩

/-- What is known about a literal value. -/
def ofValue? : Value → Option Known
  | .int n => some ⟨.int, some n.toInt64⟩
  | .long n => some ⟨.long, some n⟩
  | .bool b => some ⟨.bool, some (if b then 1 else 0)⟩
  | _ => none

/-- The value, if it is known. -/
def value? (known : Known) : Option Value :=
  known.constant.map fun n =>
    match known.kind with
    | .int => .int n.toInt32
    | .long => .long n
    | .bool => .bool (n ≠ 0)

/-- How printing is told the kind: one for a truth value, zero for a number. -/
def printKind (known : Known) : Int64 := if known.kind = .bool then 1 else 0

end Known

/-- The registers that compiled code saves, in the order in which it pushes them. -/
def savedRegisters : List Register := [.rbx, .r12, .r13, .r14, .r15]

/-- The place of the context pointer, from `rbp`. -/
def contextPlace : Int32 := -48

/-- The variable that an instruction needs a slot for. -/
def slotName? (instruction : Instruction) : Option String :=
  match instruction.opcode, instruction.operand? with
  | .load, some text =>
    if instruction.literal.isNone && (Value.readLiteral? text).isNone then some text else none
  | .store, some text => some text
  | .defVar, some text => some (Text.before (· == ':') text)
  | _, _ => none

/-- The variables of a program, each once, in the order of their first appearance. -/
def slotNames (program : Program) : List String :=
  (program.filterMap slotName?).foldl
    (fun names name => if name ∈ names then names else names ++ [name]) []

/-- The place of a slot, from `rbp`. -/
def slotPlace (index : Nat) : Int32 := contextPlace - 8 * (Int32.ofNat index + 1)

/-- The place of a slot, computed with every step checked; there is none if a step overflows. -/
def slotPlace? (index : Nat) : Option Int32 :=
  let next := Int32.ofNat index + 1
  if (Int32.ofNat index).toBitVec.saddOverflow 1 then none
  else if (8 : Int32).toBitVec.smulOverflow next.toBitVec then none
  else if contextPlace.toBitVec.ssubOverflow (8 * next).toBitVec then none
  else some (contextPlace - 8 * next)

/-- The place of a variable, from `rbp`. -/
def placeOf (slots : List String) (name : String) : Except CompileError Int32 :=
  match slots.idxOf? name with
  | some index => .ok (slotPlace index)
  | none => .error (.unknownVariable name)

/-- The bytes of a frame below the saved registers: the context, the slots, and padding that keeps
the stack aligned to sixteen bytes. -/
def frameSize (slotCount : Nat) : Nat :=
  let size := 8 * (slotCount + 1)
  if (40 + size) % 16 = 0 then size else size + 8

/-- The operations that enter a frame and clear the slots in a given order. -/
def prologue (slotCount : Nat) (order : List Nat) : List Operation :=
  [.push .rbp, .mov .rbp .rsp] ++ savedRegisters.map .push ++
    [.subImm .rsp (Int32.ofNat (frameSize slotCount)), .store .rbp contextPlace .rdi] ++
    (if slotCount = 0 then []
      else .arith .xor .rax .rax :: order.map fun index => .store .rbp (slotPlace index) .rax)

/-- The operations that leave a frame, with the top of the stack as result if there is one. -/
def epilogue (hasResult : Bool) : List Operation :=
  [if hasResult then .pop .rax else .arith .xor .rax .rax, .mov .rsp .rbp, .subImm .rsp 40] ++
    savedRegisters.reverse.map .pop ++ [.pop .rbp, .ret]

/-- What the compiler knows between two instructions. -/
structure Draft where
  /-- The registers in turn. -/
  ring : RegisterRing := {}
  /-- The values on the stack, top first. -/
  stack : List Known := []
  /-- The variables that were stored or declared. -/
  bindings : Entries String Known := []
  deriving Repr, Inhabited

namespace Draft

/-- Operations with what is known after them. -/
abbrev Emitted := Except CompileError (List Operation × Draft)

/-- The next register. -/
def register (draft : Draft) : Register × Draft :=
  let (r, ring) := draft.ring.allocate
  (r, { draft with ring })

/-- Pushes a literal. -/
def pushLiteral (draft : Draft) (value : Value) : Emitted :=
  match Known.ofValue? value with
  | none => .error (.literalType value.typeName)
  | some known =>
    let (r, draft) := draft.register
    .ok ([.movImm r (known.constant.getD 0), .push r],
      { draft with stack := known :: draft.stack })

/-- Pushes a variable. -/
def pushVariable (draft : Draft) (slots : List String) (name : String) : Emitted := do
  let place ← placeOf slots name
  let (r, draft) := draft.register
  let known := (Entries.find? name draft.bindings).getD .zero
  return ([.load r .rbp place, .push r], { draft with stack := known :: draft.stack })

/-- Pops the top of the stack into a register. -/
def popValue (draft : Draft) (pc : Nat) :
    Except CompileError (Register × Known × List Operation × Draft) :=
  match draft.stack with
  | [] => .error (.underflow pc)
  | known :: stack =>
    let (r, draft) := draft.register
    .ok (r, known, [.pop r], { draft with stack })

/-- Stores the top of the stack into a variable. -/
def storeVariable (draft : Draft) (slots : List String) (name : String) (pc : Nat) : Emitted := do
  let place ← placeOf slots name
  let (r, known, code, draft) ← draft.popValue pc
  return (code ++ [.store .rbp place r],
    { draft with bindings := Entries.insert name known draft.bindings })

/-- Declares a variable: it becomes zero. -/
def declare (draft : Draft) (slots : List String) (name : String) : Emitted := do
  let place ← placeOf slots name
  let (r, draft) := draft.register
  return ([.arith .xor r r, .store .rbp place r],
    { draft with bindings := Entries.insert name .zero draft.bindings })

/-- Pops two operands, the right one first, works on them and pushes the left register. -/
def onOperands (draft : Draft) (work : (left right : Register) → List Operation) :
    List Operation × Draft :=
  let (r, draft) := draft.register
  let (l, draft) := draft.register
  ([.pop r, .pop l] ++ work l r ++ [.push l], draft)

/-- Makes a register one if it is not zero, and zero otherwise, or the other way round. -/
def truthOf (condition : Condition) (r : Register) : List Operation :=
  [.arith .test r r, .setcc condition r, .movzx r r]

/-- Divides by a known divisor. -/
def divideBy (draft : Draft) (operator : String) (result : Register) (left right : Known) :
    Emitted :=
  match right.constant with
  | none => .error (.unknownDivisor operator)
  | some divisor =>
    if divisor = 0 then .error (.unknownDivisor operator)
    else if divisor = -1 ∧ (left.constant = none ∨ left.constant = some Int64.minValue) then
      .error .divisionOverflow
    else
      let (d, ring) := draft.ring.allocateExcept [.rax, .rdx]
      .ok ([.pop d, .pop .rax, .cqo, .idiv d, .push result], { draft with ring })

/-- The code of a binary operator on two values that are known so far. -/
def binaryCode (draft : Draft) (operator : String) (left right : Known) : Emitted :=
  match Operator.ofText? operator with
  | some .add => .ok (draft.onOperands fun l r => [.arith .add l r])
  | some .sub => .ok (draft.onOperands fun l r => [.arith .sub l r])
  | some .mul => .ok (draft.onOperands fun l r => [.imul l r])
  | some .div => draft.divideBy operator .rax left right
  | some .rem => draft.divideBy operator .rdx left right
  | some .and =>
    .ok (draft.onOperands fun l r => truthOf .ne l ++ truthOf .ne r ++ [.arith .and l r])
  | some .or =>
    .ok (draft.onOperands fun l r => truthOf .ne l ++ truthOf .ne r ++ [.arith .or l r])
  | _ =>
    match Condition.ofComparison? operator with
    | some condition =>
      .ok (draft.onOperands fun l r => [.arith .cmp l r, .setcc condition l, .movzx l l])
    | none => .error (.binaryOperator operator)

/-- The kind of the result of a binary operator. -/
def resultKind (operator : String) : Kind :=
  match Operator.ofText? operator with
  | some .add | some .sub | some .mul | some .div | some .rem => .long
  | _ => .bool

/-- Applies a binary operator to the two values on top of the stack. -/
def binary (draft : Draft) (operator : String) (pc : Nat) : Emitted :=
  match draft.stack with
  | right :: left :: stack => do
    if left.kind = .bool ∨ right.kind = .bool then throw (.boolOperand operator)
    let (code, draft) ← draft.binaryCode operator left right
    let folded := do
      let l ← left.value?
      let r ← right.value?
      let v ← (Value.binary l r operator 0).toOption
      Known.ofValue? v
    return (code, { draft with stack := folded.getD ⟨resultKind operator, none⟩ :: stack })
  | _ => .error (.underflow pc)

/-- Applies a unary operator to the top of the stack. -/
def unary (draft : Draft) (operator : String) (pc : Nat) : Emitted :=
  match draft.stack with
  | [] => .error (.underflow pc)
  | operand :: stack => do
    let folded := do
      let v ← operand.value?
      let w ← (Value.unary v operator 0).toOption
      Known.ofValue? w
    let (r, after) := draft.register
    if operator = "-" then
      let mayWrap := operand.kind = .int ∧
        (operand.constant = none ∨ operand.constant = some Int32.minValue.toInt64)
      if operand.kind = .bool ∨ mayWrap then throw .negation
      return ([.pop r, .neg r, .push r],
        { after with stack := folded.getD ⟨operand.kind, none⟩ :: stack })
    else if operator = "!" ∨ operator = "not" then
      return ([.pop r] ++ truthOf .e r ++ [.push r],
        { after with stack := folded.getD ⟨.bool, none⟩ :: stack })
    else throw (.unaryOperator operator)

/-- Prints the top of the stack; an empty stack prints nothing. The stack pointer is moved around
the call if an odd number of values is left below. -/
def print (draft : Draft) (printAddress : Int64) (pc : Nat) : Emitted := do
  if draft.stack.isEmpty then return ([], draft)
  let (r, known, code, draft) ← draft.popValue pc
  let odd := draft.stack.length % 2 = 1
  return (code ++
    [.mov .rsi r, .load .rdi .rbp contextPlace, .movImm .rdx known.printKind,
      .movImm64 .rax printAddress] ++
    (if odd then [.subImm .rsp 8] else []) ++ [.call .rax] ++
    (if odd then [.addImm .rsp 8] else []), draft)

/-- Compiles one instruction. -/
def instruction (draft : Draft) (slots : List String) (printAddress : Int64)
    (instruction : Instruction) (pc : Nat) : Emitted :=
  match instruction.opcode with
  | .load =>
    match instruction.literal, instruction.operand? with
    | some value, _ => draft.pushLiteral value
    | none, some text =>
      match Value.readLiteral? text with
      | some value => draft.pushLiteral value
      | none => draft.pushVariable slots text
    | none, none => .error (.missing "LOAD" "operand")
  | .push =>
    match instruction.literal, instruction.operand? with
    | some value, _ => draft.pushLiteral value
    | none, some text =>
      match Value.readLiteral? text with
      | some value => draft.pushLiteral value
      | none => .error (.textOperand text)
    | none, none => .error (.missing "PUSH" "operand")
  | .store =>
    match instruction.operand? with
    | some name => draft.storeVariable slots name pc
    | none => .error (.missing "STORE" "name")
  | .defVar =>
    match instruction.operand? with
    | some text => draft.declare slots (Text.before (· == ':') text)
    | none => .ok ([], draft)
  | .pop => do
    let (_, _, code, draft) ← draft.popValue pc
    return (code, draft)
  | .binaryOp =>
    match instruction.operand? with
    | some operator => draft.binary operator pc
    | none => .error (.missing "BINARY_OP" "operator")
  | .unaryOp =>
    match instruction.operand? with
    | some operator => draft.unary operator pc
    | none => .error (.missing "UNARY_OP" "operator")
  | .print => draft.print printAddress pc
  | .label | .nop | .pass | .package | .tryBegin | .catchBegin | .doBegin | .continueLoop
  | .breakLoop | .endBlock => .ok ([], draft)
  | other => .error (.noNativeForm other.mnemonic)

/-- Compiles instructions from a position on. -/
def instructions (draft : Draft) (slots : List String) (printAddress : Int64) :
    Program → (pc : Nat) → Emitted
  | [], _ => .ok ([], draft)
  | first :: rest, pc => do
    let (code, draft) ← draft.instruction slots printAddress first pc
    let (more, draft) ← draft.instructions slots printAddress rest (pc + 1)
    return (code ++ more, draft)

end Draft

/-- The operations of a whole program, with the slots cleared in the order given for their number,
and whether the result is the value left on the stack. -/
def assembleIn (order : Nat → List Nat) (printAddress : Int64) (program : Program) :
    Except CompileError (List Operation × Bool) := do
  if !isStraightLine program then throw .controlFlow
  let slots := slotNames program
  if (List.range slots.length).any fun index => (slotPlace? index).isNone then throw .placeOverflow
  if 0x80000000 ≤ frameSize slots.length then throw .frameTooLarge
  let (code, draft) ← Draft.instructions {} slots printAddress program 0
  let hasResult := !draft.stack.isEmpty
  return (prologue slots.length (order slots.length) ++ code ++ epilogue hasResult, hasResult)

/-- The operations of a whole program, with the slots cleared in their own order. -/
def assemble (printAddress : Int64) (program : Program) :
    Except CompileError (List Operation × Bool) :=
  assembleIn List.range printAddress program

end StackMachine.Native
