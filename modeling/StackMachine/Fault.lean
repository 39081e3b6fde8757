import StackMachine.Text.Numeral

/-!
# Faults

Why a run fails. A fault has a cause and, once known, the source line of the instruction that
raised it. The wording of every cause is in `Cause.message`, and nowhere else.
-/

namespace StackMachine

/-- The four kinds of faults. -/
inductive FaultKind
  /-- A failure of control flow or of the program's own logic. -/
  | runtime
  /-- Operands of the wrong kind. -/
  | type
  /-- A missing operand or a stack that is too short. -/
  | access
  /-- No memory, or no more allowed. -/
  | memory
  deriving DecidableEq, Repr, Inhabited

/-- The name of a kind of fault. -/
def FaultKind.name : FaultKind → String
  | runtime => "Runtime"
  | type => "Type"
  | access => "Access"
  | memory => "Memory"

/-- The operands for which an operator can be unsupported. -/
inductive OperandClass
  /-- At least one double. -/
  | double
  /-- Two integers. -/
  | integer
  /-- Two texts. -/
  | text
  /-- At least one pointer. -/
  | pointer
  deriving DecidableEq, Repr

/-- The name of a class of operands. -/
def OperandClass.name : OperandClass → String
  | double => "floating point"
  | integer => "integer"
  | text => "string"
  | pointer => "pointer"

/-- Why a run fails. -/
inductive Cause
  /-- A fault raised with a text of the raiser's own. -/
  | raised (kind : FaultKind) (text : String)
  /-- There is no program to run. -/
  | noProgram
  /-- A quotient by zero. -/
  | divisionByZero
  /-- A remainder by zero. -/
  | remainderByZero
  /-- A false condition has nowhere to go. -/
  | unclosedIf
  /-- An alternative is never closed. -/
  | unclosedElse
  /-- A loop is never closed. -/
  | unclosedWhile
  /-- A jump to a label that no instruction carries. -/
  | undefinedLabel (label : String)
  /-- A call of a function that is not known. -/
  | undefinedFunction (name : String)
  /-- A null pointer has nothing to load. -/
  | nullDereference
  /-- The target of a pointer is gone. -/
  | danglingDereference
  /-- The output stream refused. -/
  | outputRefused (reason : String)
  /-- An operator that the operands do not have. -/
  | unsupportedOperator (operands : OperandClass) (operator : String)
  /-- Two operands that no operator joins. -/
  | operandMismatch
  /-- A value that has no negative. -/
  | notNegatable
  /-- A prefix operator that is not known. -/
  | unknownUnary (operator : String)
  /-- An instruction finds too few values. -/
  | underflow (instruction : String)
  /-- A condition finds no value. -/
  | noCondition (instruction : String)
  /-- An instruction lacks what it needs to be written with. -/
  | missing (instruction what : String)
  /-- A reference would become null. -/
  | nullReference (name : String)
  /-- A repeated list would be too long. -/
  | repetitionTooLarge (length times : Nat)
  /-- No memory for a managed object. -/
  | objectRefused
  /-- No memory for an object of the collector. -/
  | collectedRefused
  /-- No memory for a raw block. -/
  | blockRefused
  /-- A raw block must have at least one byte. -/
  | invalidSize (size : Int64)
  /-- The request would exceed the heap limit. -/
  | heapLimit (used extra limit : Nat)
  deriving DecidableEq, Repr

namespace Cause

/-- The kind of fault that a cause raises. -/
def kind : Cause → FaultKind
  | raised kind _ => kind
  | noProgram | divisionByZero | remainderByZero | unclosedIf | unclosedElse | unclosedWhile
  | undefinedLabel _ | undefinedFunction _ | nullDereference | danglingDereference
  | outputRefused _ => .runtime
  | unsupportedOperator _ _ | operandMismatch | notNegatable | unknownUnary _ => .type
  | underflow _ | noCondition _ | missing _ _ | nullReference _ => .access
  | repetitionTooLarge _ _ | objectRefused | collectedRefused | blockRefused | invalidSize _
  | heapLimit _ _ _ => .memory

/-- The wording of a cause. -/
def message : Cause → String
  | raised _ text => text
  | noProgram => "No program loaded"
  | divisionByZero => "Division by zero error"
  | remainderByZero => "Modulo by zero error"
  | unclosedIf => "IF without matching ELSE or END"
  | unclosedElse => "ELSE without matching END"
  | unclosedWhile => "WHILE without matching END"
  | undefinedLabel label => "Undefined label: " ++ label
  | undefinedFunction name => "Undefined function: " ++ name
  | nullDereference => "Cannot dereference null pointer"
  | danglingDereference => "Dangling pointer dereference"
  | outputRefused reason => "Output error: " ++ reason
  | unsupportedOperator operands operator =>
    "Unsupported operator for " ++ operands.name ++ ": " ++ operator
  | operandMismatch => "Binary operation type mismatch"
  | notNegatable => "Invalid operand type for unary minus"
  | unknownUnary operator => "Unsupported unary operator: " ++ operator
  | underflow instruction => "Stack underflow during " ++ instruction ++ " operation"
  | noCondition instruction => "Stack is empty during " ++ instruction ++ " operation"
  | missing instruction what => instruction ++ " operation missing " ++ what
  | nullReference name => "Cannot bind reference " ++ name ++ " to null"
  | repetitionTooLarge length times =>
    "List repetition too large: " ++ toString length ++ " x " ++ toString times
  | objectRefused => "Failed to allocate object"
  | collectedRefused => "GC allocation failed"
  | blockRefused => "Memory allocation failed"
  | invalidSize size => "Invalid allocation size: " ++ Text.writeInteger size.toInt
  | heapLimit used extra limit =>
    "Heap limit exceeded: " ++ toString used ++ " + " ++ toString extra ++ " bytes > " ++
      toString limit ++ " bytes"

end Cause

/-- A place in a source text. -/
structure Location where
  /-- The line, counted from one. -/
  line : Nat
  /-- The column, if known. -/
  column : Option Nat := none
  deriving DecidableEq, Repr

/-- The text of a place: its line and, if known, its column. -/
def Location.text (location : Location) : String :=
  match location.column with
  | some column => toString location.line ++ ":" ++ toString column
  | none => toString location.line

/-- A failure with its cause and the place where it arose. -/
structure Fault where
  /-- Why the run failed. -/
  cause : Cause
  /-- Where it failed, once known. -/
  location : Option Location := none
  deriving DecidableEq, Repr

namespace Fault

/-- The place that a line number stands for; line `0` stands for none. -/
def locate (line : Nat) : Option Location := if line = 0 then none else some { line }

/-- A fault raised on a line. -/
def onLine (cause : Cause) (line : Nat) : Fault := ⟨cause, locate line⟩

/-- The source line of a fault. -/
def line? (fault : Fault) : Option Nat := fault.location.map (·.line)

/-- Names the line of a fault that was raised without one. -/
def withLine (fault : Fault) (line : Nat) : Fault :=
  { fault with location := fault.location <|> locate line }

/-- The full text of a fault: its kind and its wording. -/
def text (fault : Fault) : String :=
  fault.cause.kind.name ++ " Error: " ++ fault.cause.message

end Fault

end StackMachine
