import StackMachine.Code.Instruction

/-!
# Blocks

Blocks are opened by `IF` and `WHILE` and closed by `END`. The end of a block is found by
scanning forward and counting the blocks that open and close in between.
-/

namespace StackMachine.Program

/-- Scans code that starts at position `pc` with `depth` inner blocks open. It stops at the `END`
that closes the outer block and, if `atElse`, also at an `ELSE` of the outer block. -/
def scan (atElse : Bool) (depth pc : Nat) : List Instruction → Option Nat
  | [] => none
  | instruction :: rest =>
    match instruction.opcode with
    | .ifBegin | .whileBegin => scan atElse (depth + 1) (pc + 1) rest
    | .endBlock =>
      match depth with
      | 0 => some pc
      | depth + 1 => scan atElse depth (pc + 1) rest
    | .elseBegin =>
      if atElse && depth = 0 then some pc else scan atElse depth (pc + 1) rest
    | _ => scan atElse depth (pc + 1) rest

/-- The position of the `END` that closes the block around the code after `pc`. -/
def endAfter? (program : Program) (pc : Nat) : Option Nat :=
  scan false 0 (pc + 1) (program.drop (pc + 1))

/-- The position of the `ELSE` or `END` that ends the block opened at `pc`. -/
def elseOrEndAfter? (program : Program) (pc : Nat) : Option Nat :=
  scan true 0 (pc + 1) (program.drop (pc + 1))

/-- The position of the first instruction that carries a label. -/
def labelled? (program : Program) (label : String) : Option Nat :=
  program.findIdx? fun instruction =>
    instruction.opcode = .label && instruction.operand? = some label

/-- The position of the first instruction on a source line. -/
def onLine? (program : Program) (line : Nat) : Option Nat :=
  program.findIdx? fun instruction => instruction.line = line

end StackMachine.Program
