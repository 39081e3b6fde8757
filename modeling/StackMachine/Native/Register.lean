/-!
# Registers and conditions

The sixteen general registers and sixteen condition codes of an x86-64 processor, with their
numbers in machine code.
-/

namespace StackMachine.Native

/-- The general registers. -/
inductive Register
  | rax | rcx | rdx | rbx | rsp | rbp | rsi | rdi
  | r8 | r9 | r10 | r11 | r12 | r13 | r14 | r15
  deriving DecidableEq, Repr, Inhabited

namespace Register

/-- The registers by number. -/
def all : List Register :=
  [rax, rcx, rdx, rbx, rsp, rbp, rsi, rdi, r8, r9, r10, r11, r12, r13, r14, r15]

/-- The number of a register. -/
def number : Register → Nat
  | rax => 0
  | rcx => 1
  | rdx => 2
  | rbx => 3
  | rsp => 4
  | rbp => 5
  | rsi => 6
  | rdi => 7
  | r8 => 8
  | r9 => 9
  | r10 => 10
  | r11 => 11
  | r12 => 12
  | r13 => 13
  | r14 => 14
  | r15 => 15

/-- The register with a given number below sixteen. -/
def ofNumber (n : Nat) : Register := (all[n]?).getD rax

/-- The low three bits of the number, which stand in the operand bytes. -/
def code (r : Register) : Nat := r.number % 8

/-- Whether the number needs a fourth bit, which stands in the REX byte. -/
def isExtended (r : Register) : Bool := 8 ≤ r.number

/-- The name of a register. -/
def name : Register → String
  | rax => "rax"
  | rcx => "rcx"
  | rdx => "rdx"
  | rbx => "rbx"
  | rsp => "rsp"
  | rbp => "rbp"
  | rsi => "rsi"
  | rdi => "rdi"
  | r8 => "r8"
  | r9 => "r9"
  | r10 => "r10"
  | r11 => "r11"
  | r12 => "r12"
  | r13 => "r13"
  | r14 => "r14"
  | r15 => "r15"

/-- The register with a given name. -/
def ofName? (text : String) : Option Register := all.find? fun r => r.name == text

end Register

/-- The condition codes. -/
inductive Condition
  /-- Overflow. -/
  | o
  /-- No overflow. -/
  | no
  /-- Below, unsigned. -/
  | b
  /-- Above or equal, unsigned. -/
  | ae
  /-- Equal. -/
  | e
  /-- Not equal. -/
  | ne
  /-- Below or equal, unsigned. -/
  | be
  /-- Above, unsigned. -/
  | a
  /-- Negative. -/
  | s
  /-- Not negative. -/
  | ns
  /-- Even parity. -/
  | p
  /-- Odd parity. -/
  | np
  /-- Less, signed. -/
  | l
  /-- Greater or equal, signed. -/
  | ge
  /-- Less or equal, signed. -/
  | le
  /-- Greater, signed. -/
  | g
  deriving DecidableEq, Repr, Inhabited

namespace Condition

/-- The conditions by number. -/
def all : List Condition := [o, no, b, ae, e, ne, be, a, s, ns, p, np, l, ge, le, g]

/-- The number of a condition. -/
def number : Condition → Nat
  | o => 0
  | no => 1
  | b => 2
  | ae => 3
  | e => 4
  | ne => 5
  | be => 6
  | a => 7
  | s => 8
  | ns => 9
  | p => 10
  | np => 11
  | l => 12
  | ge => 13
  | le => 14
  | g => 15

/-- The condition with a given number below sixteen. -/
def ofNumber (n : Nat) : Condition := (all[n]?).getD o

/-- The name of a condition. -/
def name : Condition → String
  | o => "o"
  | no => "no"
  | b => "b"
  | ae => "ae"
  | e => "e"
  | ne => "ne"
  | be => "be"
  | a => "a"
  | s => "s"
  | ns => "ns"
  | p => "p"
  | np => "np"
  | l => "l"
  | ge => "ge"
  | le => "le"
  | g => "g"

/-- The condition with a given name. -/
def ofName? (text : String) : Option Condition := all.find? fun c => c.name == text

/-- The signed condition that a comparison operator asks for. -/
def ofComparison? (operator : String) : Option Condition :=
  if operator = "==" then some e
  else if operator = "!=" then some ne
  else if operator = "<" then some l
  else if operator = ">" then some g
  else if operator = "<=" then some le
  else if operator = ">=" then some ge
  else none

end Condition

end StackMachine.Native
