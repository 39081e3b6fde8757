import StackMachine.Value.Basic

/-!
# Instructions

The instruction set and its mnemonics. An instruction carries the operands it was written with,
the literal of a quoted first operand, and its source line.
-/

namespace StackMachine

/-- The kinds of instructions. -/
inductive Opcode
  /-- Declare a variable. -/
  | defVar
  /-- Push a literal or a variable. -/
  | load
  /-- Pop into a variable. -/
  | store
  /-- Define a function. -/
  | func
  /-- Call a function. -/
  | call
  /-- Begin a conditional block. -/
  | ifBegin
  /-- Begin the alternative of a conditional block. -/
  | elseBegin
  /-- End a block. -/
  | endBlock
  /-- Begin a loop. -/
  | whileBegin
  /-- No effect. -/
  | doBegin
  /-- Return from a function. -/
  | ret
  /-- Announce a module. -/
  | importModule
  /-- Pop and print. -/
  | print
  /-- Read a line. -/
  | input
  /-- Apply a binary operator. -/
  | binaryOp
  /-- Apply a unary operator. -/
  | unaryOp
  /-- Push a literal or a text. -/
  | push
  /-- Discard the top value. -/
  | pop
  /-- Jump to a label. -/
  | goto
  /-- Carry a label. -/
  | label
  /-- No effect. -/
  | tryBegin
  /-- No effect. -/
  | catchBegin
  /-- Leave the innermost loop. -/
  | breakLoop
  /-- No effect. -/
  | continueLoop
  /-- No effect. -/
  | pass
  /-- No effect. -/
  | package
  /-- Create a managed object. -/
  | ptrNew
  /-- Load through a pointer. -/
  | ptrDeref
  /-- Raise a fault. -/
  | throwFault
  /-- Create an object of the collector. -/
  | gcNew
  /-- Free an object of the collector. -/
  | gcDelete
  /-- Collect garbage. -/
  | gcRun
  /-- Create a raw block. -/
  | memMalloc
  /-- Free a raw block. -/
  | memFree
  /-- No effect; stands for every unknown mnemonic. -/
  | nop
  deriving DecidableEq, Repr, Inhabited

namespace Opcode

/-- Every kind of instruction. -/
def all : List Opcode :=
  [defVar, load, store, func, call, ifBegin, elseBegin, endBlock, whileBegin, doBegin, ret,
    importModule, print, input, binaryOp, unaryOp, push, pop, goto, label, tryBegin, catchBegin,
    breakLoop, continueLoop, pass, package, ptrNew, ptrDeref, throwFault, gcNew, gcDelete, gcRun,
    memMalloc, memFree, nop]

/-- How a kind of instruction is written. -/
def mnemonic : Opcode → String
  | defVar => "DEFVAR"
  | load => "LOAD"
  | store => "STORE"
  | func => "FUNC"
  | call => "CALL"
  | ifBegin => "IF"
  | elseBegin => "ELSE"
  | endBlock => "END"
  | whileBegin => "WHILE"
  | doBegin => "DO"
  | ret => "RETURN"
  | importModule => "IMPORT"
  | print => "PRINT"
  | input => "INPUT"
  | binaryOp => "BINARY_OP"
  | unaryOp => "UNARY_OP"
  | push => "PUSH"
  | pop => "POP"
  | goto => "GOTO"
  | label => "LABEL"
  | tryBegin => "TRY"
  | catchBegin => "CATCH"
  | breakLoop => "BREAK"
  | continueLoop => "CONTINUE"
  | pass => "PASS"
  | package => "PACKAGE"
  | ptrNew => "PTR_new"
  | ptrDeref => "PTR_DEREF"
  | throwFault => "THROW"
  | gcNew => "GC_new"
  | gcDelete => "GC_delete"
  | gcRun => "GC_gc"
  | memMalloc => "MEM_malloc"
  | memFree => "MEM_free"
  | nop => "NOP"

/-- The kind that a mnemonic names; an unknown mnemonic is a `nop`. -/
def ofMnemonic (name : String) : Opcode :=
  (all.find? fun opcode => opcode.mnemonic == name).getD nop

/-- Whether the instruction opens a block that an `END` closes. -/
def opensBlock : Opcode → Bool
  | ifBegin => true
  | whileBegin => true
  | _ => false

end Opcode

/-- One instruction of a program. -/
structure Instruction where
  /-- What it does. -/
  opcode : Opcode
  /-- The texts it was written with. -/
  operands : List String
  /-- The value of a first operand that was quoted. -/
  literal : Option Value := none
  /-- Its source line, counted from one. -/
  line : Nat
  deriving Repr, Inhabited

/-- The first operand. -/
def Instruction.operand? (instruction : Instruction) : Option String :=
  instruction.operands.head?

/-- A program is a list of instructions; positions count from zero. -/
abbrev Program := List Instruction

end StackMachine
