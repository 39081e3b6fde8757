import StackMachine.Code.Instruction
import StackMachine.Code.Literal
import StackMachine.Text.Blank

/-!
# Source text

A program is written one instruction a line: a mnemonic and its operands, separated by blanks.
A semicolon outside quotes begins a comment, an operand may be quoted, and one comma directly
after an operand is ignored. Lines that hold a frame mark are skipped.
-/

namespace StackMachine

/-- A word of a source line. -/
structure Token where
  /-- The word itself, without its quotes. -/
  text : List Char
  /-- Whether it stood between quotes. -/
  quoted : Bool
  deriving DecidableEq, Repr

namespace Token

/-- Whether a character ends a word that is not quoted. -/
def endsBare (c : Char) : Bool := Text.isBlank c || c == ';'

/-- A word without quotes loses one comma at its end, unless it is nothing but that comma. -/
def bare (cs : List Char) : Token :=
  match cs.reverse with
  | ',' :: c :: rest => ⟨(c :: rest).reverse, false⟩
  | _ => ⟨cs, false⟩

/-- The first word of a line and the rest of the line; there is none on a blank line and before a
comment. A quote that is never closed is a part of its word, which then reaches to the end of
the line. -/
def next? (cs : List Char) : Option (Token × List Char) :=
  match cs.dropWhile Text.isBlank with
  | [] => none
  | ';' :: _ => none
  | '"' :: tail =>
    match tail.dropWhile (· ≠ '"') with
    | [] => some (⟨'"' :: tail, false⟩, [])
    | _ :: ',' :: rest => some (⟨tail.takeWhile (· ≠ '"'), true⟩, rest)
    | _ :: rest => some (⟨tail.takeWhile (· ≠ '"'), true⟩, rest)
  | c :: tail =>
    some (bare ((c :: tail).takeWhile fun d => !endsBare d),
      (c :: tail).dropWhile fun d => !endsBare d)

/-- The words of a line, at most `count` of them. -/
def takeAll : (count : Nat) → List Char → List Token
  | 0, _ => []
  | count + 1, cs =>
    match next? cs with
    | none => []
    | some (token, rest) => token :: takeAll count rest

/-- The words of a line. Every word takes at least one character of the line. -/
def ofLine (cs : List Char) : List Token := takeAll cs.length cs

end Token

namespace Instruction

/-- The instruction that the words of a line spell. A quoted first word names no mnemonic. -/
def ofTokens? (line : Nat) : List Token → Option Instruction
  | [] => none
  | head :: operands =>
    let literal := match operands with
      | [] => none
      | first :: _ =>
        let text := String.ofList first.text
        if first.quoted then some ((Value.readLiteral? text).getD (.str text)) else none
    some {
      opcode := if head.quoted then .nop else .ofMnemonic (String.ofList head.text)
      operands := operands.map fun token => String.ofList token.text
      literal
      line }

/-- Whether a line holds a mark that frames a program. -/
def isFrame (cs : List Char) : Bool :=
  Text.occurs "# IR BEGIN".toList cs || Text.occurs "IR END".toList cs

/-- The instruction on a line, if there is one. -/
def ofLine? (line : Nat) (cs : List Char) : Option Instruction :=
  let trimmed := Text.trim cs
  if isFrame trimmed then none else ofTokens? line (Token.ofLine trimmed)

end Instruction

/-- The program that a source text spells. -/
def Program.ofSource (source : String) : Program :=
  ((Text.lines source.toList).zipIdx 1).filterMap fun (cs, line) => Instruction.ofLine? line cs

end StackMachine
