import StackMachine.Code.Instruction
import StackMachine.Text.Blank
import StackMachine.Text.Quoted

/-!
# Listings

A program written out as a list of records, one for each instruction, indented by two spaces a
level.
-/

namespace StackMachine

/-- Writes items between brackets, one a line, at an indentation; no items take no lines. -/
def listingItems (indent : String) (opening closing : String) (items : List String) : String :=
  if items.isEmpty then opening ++ closing
  else
    let inner := indent ++ "  "
    opening ++ "\n" ++ Text.join ",\n" (items.map (inner ++ ·)) ++ "\n" ++ indent ++ closing

/-- The record of one instruction at position `pc`. -/
def Instruction.listing (pc : Nat) (instruction : Instruction) : String :=
  listingItems "  " "\x7b" "\x7d" [
    "\"pc\": " ++ toString pc,
    "\"op\": " ++ Text.listed instruction.opcode.mnemonic,
    "\"operands\": " ++ listingItems "    " "[" "]" (instruction.operands.map Text.listed),
    "\"line\": " ++ toString instruction.line]

/-- A program written out as a list of records. -/
def Program.listing (program : Program) : String :=
  listingItems "" "[" "]" (program.zipIdx.map fun (instruction, pc) => instruction.listing pc)

end StackMachine
