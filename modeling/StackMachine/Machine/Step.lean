import StackMachine.Code.Literal
import StackMachine.Machine.Builtin.Call
import StackMachine.Machine.Collection
import StackMachine.Operator

/-!
# One instruction

What each instruction does. An instruction either goes on to the next one, jumps, halts the
machine, or fails; a failed instruction does not move the position. Instructions and operators fail
on the line of the instruction, built-in functions and the output stream without a line.
-/

namespace StackMachine

/-- How a run goes on after an instruction. -/
inductive Flow
  /-- With the next instruction. -/
  | next
  /-- At a position. -/
  | jump (target : Nat)
  /-- Not at all. -/
  | halt
  deriving DecidableEq, Repr

namespace Instruction

open Effect

/-- The value that a `LOAD` pushes: a literal, or else a variable, which is zero until stored. -/
def loaded? (instruction : Instruction) (bindings : Variables) : Option Value :=
  instruction.literal <|> instruction.operand?.map fun text =>
    (Value.readLiteral? text).getD ((Entries.find? text bindings).getD (.int 0))

/-- The value that a `PUSH` pushes: a literal, or else the text itself. -/
def pushed? (instruction : Instruction) : Option Value :=
  instruction.literal <|> instruction.operand?.map fun text =>
    (Value.readLiteral? text).getD (.str text)

/-- A fault on the line of an instruction. -/
def fault (instruction : Instruction) (cause : Cause) : Fault := .onLine cause instruction.line

/-- Stores a value in a variable. A pointer stored over a reference only changes where the
reference points, and a reference refuses null. -/
def storeIn (name : String) (value : Value) (line : Nat) : Effect Unit := do
  let m ← get
  let stored (value : Value) : Machine :=
    { m with bindings := Entries.insert name value m.bindings }
  match Entries.find? name m.bindings, value with
  | some (.pointer existing), .pointer new =>
    if existing.reference then
      match existing.rebind? new.target with
      | some rebound => set (stored (.pointer rebound))
      | none => fail (.onLine (.nullReference name) line)
    else set (stored value)
  | _, _ => set (stored value)

/-- The pointer that an allocation gives: weak or a reference if the operand says so. -/
def allocated (instruction : Instruction) (target : Target) (tag : String) : Value :=
  if instruction.operand? = some "weak" then .pointer { target, tag, weak := true }
  else if instruction.operand? = some "ref" then
    .pointer ((Pointer.reference? target tag).getD { target, tag })
  else .pointer { target, tag }

/-- The size that an allocation asks for: at least one, and a default without a value. -/
def requestedSize (value : Option Value) (default : Nat) : Nat :=
  match value with
  | some value => (max value.toInt64.toInt 1).toNat
  | none => default

/-- Asks for memory within the heap limit, and pushes what is made of what it got. -/
def request {α : Type} (instruction : Instruction) (create : Effect (Option α)) (size : Nat)
    (refused : Cause) (result : α → Value) : Effect Flow := do
  checkHeapLimit size instruction.line
  let granted ← orFail (← create) (instruction.fault refused)
  push (result granted)
  return .next

/-- The value that a pointer refers to. Only managed objects hold one; others count as zero. -/
def dereference (m : Machine) (pointer : Pointer) (line : Nat) : Except Fault Value :=
  if pointer.isNull then .error (.onLine .nullDereference line)
  else if !m.isLive pointer.target then .error (.onLine .danglingDereference line)
  else
    match pointer.target with
    | .object id => .ok (((m.objects.get? id).map ManagedObject.load).getD (.int 0))
    | _ => .ok (.int 0)

/-- Continues behind a position, or fails if there is none. -/
def jumpBehind (position : Option Nat) (fault : Fault) : Effect Flow := do
  let target ← orFail position fault
  return .jump (target + 1)

/-- Takes the result of a computation, or fails. -/
def ofResult (result : Except Fault Value) : Effect Value :=
  match result with
  | .ok value => pure value
  | .error fault => fail fault

/-- Calls a function: a built-in one with the top of the stack as argument, or else one that was
defined, with the position to return to on the stack. -/
def call (runner : Runner) (instruction : Instruction) (pc : Nat) : Effect Flow := do
  let operand ← orFail instruction.operand? (instruction.fault (.missing "CALL" "function name"))
  let name := Text.before (· == '(') operand
  match Builtin.ofName? name with
  | some builtin =>
    let arguments := (← pop?).toList
    push (← builtin.call runner arguments)
    return .next
  | none =>
    let entry ← orFail (Entries.find? name (← get).functions)
      (instruction.fault (.undefinedFunction name))
    push (.int (Int32.ofNat pc))
    modify fun m => { m with scopes := m.scopes + 1, overlay := m.overlay.enterCall name }
    return .jump (entry + 1)

/-- Returns behind the position on top of the stack; halts if there is no such position. -/
def returnFrom : Effect Flow := do
  let m ← get
  match m.stack with
  | .int address :: stack =>
    if 0 ≤ address ∧ address.toInt < m.program.length then
      set { m with
        stack
        scopes := if 1 < m.scopes then m.scopes - 1 else m.scopes
        overlay := m.overlay.exitCall }
      return .jump (address.toInt.toNat + 1)
    else return .halt
  | _ => return .halt

/-- Enters a loop whose condition holds, and leaves one whose condition does not. -/
def loop (instruction : Instruction) (pc : Nat) : Effect Flow := do
  let condition ← popOr (instruction.fault (.noCondition "WHILE"))
  let m ← get
  let entered := m.loops.head? = some pc
  if condition.isTruthy then
    if !entered then set { m with loops := pc :: m.loops }
    return .next
  else
    if entered then set { m with loops := m.loops.tail }
    jumpBehind (Program.endAfter? m.program pc) (instruction.fault .unclosedWhile)

/-- Leaves the innermost loop, if there is one. -/
def leaveLoop (instruction : Instruction) : Effect Flow := do
  let m ← get
  match m.loops with
  | [] => return .next
  | head :: loops =>
    set { m with loops }
    jumpBehind (Program.endAfter? m.program head) (instruction.fault .unclosedWhile)

/-- Applies a binary operator to the two values on top of the stack. -/
def applyBinary (instruction : Instruction) : Effect Flow := do
  if (← get).stack.length < 2 then fail (instruction.fault (.underflow "BINARY_OP"))
  let operator ← orFail instruction.operand? (instruction.fault (.missing "BINARY_OP" "operator"))
  let right ← popOr (instruction.fault (.underflow "BINARY_OP"))
  let left ← popOr (instruction.fault (.underflow "BINARY_OP"))
  push (← ofResult (Value.binary left right operator instruction.line))
  return .next

/-- Executes an instruction at a position. -/
def execute (runner : Runner) (instruction : Instruction) (pc : Nat) : Effect Flow := do
  match instruction.opcode with
  | .defVar =>
    if let some operand := instruction.operand? then
      let name := Text.before (· == ':') operand
      modify fun m => { m with bindings := Entries.insert name (.int 0) m.bindings }
    return .next
  | .load =>
    push (← orFail (instruction.loaded? (← get).bindings)
      (instruction.fault (.missing "LOAD" "operand")))
    return .next
  | .push =>
    push (← orFail instruction.pushed? (instruction.fault (.missing "PUSH" "operand")))
    return .next
  | .store =>
    let value ← popOr (instruction.fault (.underflow "STORE"))
    let name ← orFail instruction.operand? (instruction.fault (.missing "STORE" "variable name"))
    storeIn name value instruction.line
    return .next
  | .pop =>
    let _ ← popOr (instruction.fault (.underflow "POP"))
    return .next
  | .func =>
    if let some operand := instruction.operand? then
      let name := Text.before (· == '(') operand
      modify fun m =>
        { m with functions := Entries.insert name pc m.functions, scopes := m.scopes + 1 }
    return .next
  | .call => instruction.call runner pc
  | .ret => returnFrom
  | .ifBegin =>
    let condition ← popOr (instruction.fault (.noCondition "IF"))
    if condition.isTruthy then return .next
    jumpBehind (Program.elseOrEndAfter? (← get).program pc) (instruction.fault .unclosedIf)
  | .elseBegin =>
    jumpBehind (Program.endAfter? (← get).program pc) (instruction.fault .unclosedElse)
  | .whileBegin => instruction.loop pc
  | .endBlock =>
    let m ← get
    match m.loops with
    | head :: _ =>
      if Program.endAfter? m.program head = some pc then return .jump head
      return .next
    | [] => return .next
  | .breakLoop => instruction.leaveLoop
  | .goto =>
    let label ← orFail instruction.operand? (instruction.fault (.missing "GOTO" "label"))
    jumpBehind (Program.labelled? (← get).program label)
      (instruction.fault (.undefinedLabel label))
  | .print =>
    if let some value := ← pop? then writeLine value.text
    return .next
  | .input =>
    push (.str (← readLine))
    return .next
  | .importModule =>
    if let some name := instruction.operand? then writeLine ("Importing module: " ++ name)
    return .next
  | .binaryOp => instruction.applyBinary
  | .unaryOp =>
    let operator ← orFail instruction.operand? (instruction.fault (.missing "UNARY_OP" "operator"))
    let operand ← popOr (instruction.fault (.underflow "UNARY_OP"))
    push (← ofResult (Value.unary operand operator instruction.line))
    return .next
  | .ptrNew =>
    let size := requestedSize (← pop?) 8
    instruction.request (createObject "object" size) size .objectRefused fun id =>
      instruction.allocated (.object id) "object"
  | .ptrDeref =>
    match ← popOr (instruction.fault (.underflow "PTR_DEREF")) with
    | .pointer pointer => push (← ofResult (dereference (← get) pointer instruction.line))
    | value => push value
    return .next
  | .throwFault =>
    match ← pop? with
    | some (.str text) => fail (instruction.fault (.raised .runtime text))
    | some _ => fail (instruction.fault (.raised .runtime "Unknown exception occurred"))
    | none => fail (instruction.fault (.raised .runtime "Exception thrown"))
  | .gcNew =>
    let size := requestedSize (← pop?) 1
    instruction.request (createCollected size) size .collectedRefused fun handle =>
      instruction.allocated (.collected handle) "gc"
  | .gcDelete =>
    if let some (.pointer { target := .collected handle, .. }) := ← pop? then
      release (.collected handle)
    return .next
  | .gcRun =>
    let (count, m) := (← get).collectGarbage
    set m
    push (.int (Int32.ofNat count))
    return .next
  | .memMalloc =>
    let size := (← popOr (instruction.fault (.underflow "MEM_malloc"))).toInt64
    if size ≤ 0 then fail (instruction.fault (.invalidSize size))
    instruction.request (createBlock size.toInt.toNat) size.toInt.toNat .blockRefused
      fun address => .long (Int64.ofInt address)
  | .memFree =>
    if let some value := ← pop? then release (.address value.toInt64.toInt)
    return .next
  | .continueLoop | .package | .tryBegin | .catchBegin | .pass | .doBegin | .label | .nop =>
    return .next

end Instruction

/-- Executes the instruction at the current position and moves the position. A fault that was
raised without a line is named that of the instruction. -/
def Machine.step (runner : Runner) : Effect Unit := do
  let m ← get
  match m.program[m.pc]? with
  | none => modify fun m => { m with running := false }
  | some instruction =>
    match ← (instruction.execute runner m.pc).withLine instruction.line with
    | .next => modify fun after => { after with pc := m.pc + 1 }
    | .jump target => modify fun after => { after with pc := target }
    | .halt => modify fun after => { after with running := false }

end StackMachine
