import StackMachine.Native.Operation

/-!
# Decoding machine code

Reads one operation off the front of a byte string by the rules of x86-64: a REX byte, which
widens the operation and extends register numbers, an opcode, the operand bytes with their
displacement, and an immediate.
-/

namespace StackMachine.Native

/-- The number that bytes denote, least significant first. -/
def ofLittleEndian (bytes : List UInt8) : Nat :=
  bytes.foldr (fun byte rest => byte.toNat + 256 * rest) 0

/-- Takes `count` bytes as a number. -/
def takeNumber? (count : Nat) (bytes : List UInt8) : Option (Nat × List UInt8) :=
  if count ≤ bytes.length then some (ofLittleEndian (bytes.take count), bytes.drop count)
  else none

/-- Takes a signed byte. -/
def takeInt8? (bytes : List UInt8) : Option (Int32 × List UInt8) :=
  match bytes with
  | byte :: rest => some (byte.toInt8.toInt32, rest)
  | [] => none

/-- Takes a signed 32-bit number. -/
def takeInt32? (bytes : List UInt8) : Option (Int32 × List UInt8) :=
  (takeNumber? 4 bytes).map fun (n, rest) => (Int32.ofNat n, rest)

/-- Takes a signed 64-bit number. -/
def takeInt64? (bytes : List UInt8) : Option (Int64 × List UInt8) :=
  (takeNumber? 8 bytes).map fun (n, rest) => (Int64.ofNat n, rest)

/-- The extensions that a REX byte gives. -/
structure Rex where
  /-- The operation has 64 bits. -/
  wide : Bool := false
  /-- Extends the register field. -/
  reg : Bool := false
  /-- Extends the operand field or the register in an opcode. -/
  rm : Bool := false
  /-- Whether there was a REX byte at all. -/
  present : Bool := false
  deriving DecidableEq, Repr

/-- A register from its three low bits and its extension. -/
def Rex.register (extended : Bool) (code : Nat) : Register :=
  .ofNumber (code + if extended then 8 else 0)

/-- Splits a REX byte off. The index extension is never used. -/
def Rex.split? : List UInt8 → Option (Rex × List UInt8)
  | [] => none
  | byte :: rest =>
    let n := byte.toNat
    if 0x40 ≤ n ∧ n < 0x50 then
      if n / 2 % 2 = 1 then none
      else some (⟨8 ≤ n % 16, n / 4 % 2 = 1, n % 2 = 1, true⟩, rest)
    else some ({}, byte :: rest)

/-- What the operand bytes name besides a register. -/
inductive Operand
  /-- Another register. -/
  | register (r : Register)
  /-- A place in memory. -/
  | memory (base : Register) (disp : Int32)
  deriving DecidableEq, Repr

/-- The parts of the operand bytes: the register field and the operand. -/
structure Operands where
  /-- The register field without extension. -/
  field : Nat
  /-- The register field as a register. -/
  reg : Register
  /-- The other operand. -/
  operand : Operand
  deriving DecidableEq, Repr

/-- Takes the displacement that a mode asks for. -/
def takeDisp? (mode : Nat) (bytes : List UInt8) : Option (Int32 × List UInt8) :=
  if mode = 0 then some (0, bytes) else if mode = 1 then takeInt8? bytes else takeInt32? bytes

/-- Takes the operand bytes. -/
def takeOperands? (rex : Rex) : List UInt8 → Option (Operands × List UInt8)
  | [] => none
  | byte :: rest =>
    let mode := byte.toNat / 64
    let field := byte.toNat / 8 % 8
    let code := byte.toNat % 8
    let reg := Rex.register rex.reg field
    let base := Rex.register rex.rm code
    if mode = 3 then some (⟨field, reg, .register base⟩, rest)
    else if mode = 0 ∧ code = 5 then none
    else
      let afterSib := if code = 4 then
          match rest with
          | 0x24 :: tail => some tail
          | _ => none
        else some rest
      match afterSib with
      | none => none
      | some tail =>
        (takeDisp? mode tail).map fun (disp, tail) => (⟨field, reg, .memory base disp⟩, tail)

/-- The two-register operation with a given opcode. -/
def Arithmetic.ofOpcode? (opcode : Nat) : Option Arithmetic :=
  [add, sub, and, or, xor, cmp, test].find? fun kind => kind.opcode = opcode

namespace Operation

/-- Reads an operation of 64 bits after its REX byte and opcode. -/
def decodeWide? (rex : Rex) (opcode : Nat) (bytes : List UInt8) :
    Option (Operation × List UInt8) :=
  if opcode = 0x99 then some (cqo, bytes)
  else if 0xB8 ≤ opcode ∧ opcode < 0xC0 then
    (takeInt64? bytes).map fun (value, rest) =>
      (movImm64 (Rex.register rex.rm (opcode - 0xB8)) value, rest)
  else if opcode = 0x0F then
    match bytes with
    | [] => none
    | second :: bytes =>
      match takeOperands? rex bytes with
      | some (⟨_, dst, .register src⟩, rest) =>
        if second = 0xAF then some (imul dst src, rest)
        else if second = 0xB6 then some (movzx dst src, rest)
        else none
      | _ => none
  else
    match takeOperands? rex bytes with
    | none => none
    | some (⟨_, reg, .memory base disp⟩, rest) =>
      if opcode = 0x8B then some (load reg base disp, rest)
      else if opcode = 0x89 then some (store base disp reg, rest)
      else none
    | some (⟨field, reg, .register rm⟩, rest) =>
      if opcode = 0x89 then some (mov rm reg, rest)
      else if opcode = 0xC7 ∧ field = 0 then
        (takeInt32? rest).map fun (value, rest) => (movImm32 rm value, rest)
      else if opcode = 0x83 ∧ field = 0 then
        (takeInt8? rest).map fun (value, rest) => (addImm rm value, rest)
      else if opcode = 0x83 ∧ field = 5 then
        (takeInt8? rest).map fun (value, rest) => (subImm rm value, rest)
      else if opcode = 0x81 ∧ field = 0 then
        (takeInt32? rest).map fun (value, rest) => (addImm rm value, rest)
      else if opcode = 0x81 ∧ field = 5 then
        (takeInt32? rest).map fun (value, rest) => (subImm rm value, rest)
      else if opcode = 0xF7 ∧ field = 3 then some (neg rm, rest)
      else if opcode = 0xF7 ∧ field = 7 then some (idiv rm, rest)
      else (Arithmetic.ofOpcode? opcode).map fun kind => (arith kind rm reg, rest)

/-- Reads an operation that has no 64-bit form after its REX byte and opcode. -/
def decodeNarrow? (rex : Rex) (opcode : Nat) (bytes : List UInt8) :
    Option (Operation × List UInt8) :=
  if opcode = 0xC3 then some (ret, bytes)
  else if opcode = 0xE9 then (takeInt32? bytes).map fun (distance, rest) => (jmp distance, rest)
  else if 0x50 ≤ opcode ∧ opcode < 0x58 then
    some (push (Rex.register rex.rm (opcode - 0x50)), bytes)
  else if 0x58 ≤ opcode ∧ opcode < 0x60 then
    some (pop (Rex.register rex.rm (opcode - 0x58)), bytes)
  else if opcode = 0xFF then
    match takeOperands? rex bytes with
    | some (⟨2, _, .register target⟩, rest) => some (call target, rest)
    | _ => none
  else if opcode = 0x0F then
    match bytes with
    | [] => none
    | second :: bytes =>
      let n := second.toNat
      if 0x80 ≤ n ∧ n < 0x90 then
        (takeInt32? bytes).map fun (distance, rest) => (jcc (.ofNumber (n - 0x80)) distance, rest)
      else if 0x90 ≤ n ∧ n < 0xA0 then
        match takeOperands? rex bytes with
        | some (⟨_, _, .register dst⟩, rest) =>
          if rex.present || !needsRex dst then some (setcc (.ofNumber (n - 0x90)) dst, rest)
          else none
        | _ => none
      else none
  else none

/-- Reads one operation off the front of a byte string. -/
def decode? (bytes : List UInt8) : Option (Operation × List UInt8) :=
  match Rex.split? bytes with
  | some (rex, opcode :: rest) =>
    if rex.wide then decodeWide? rex opcode.toNat rest else decodeNarrow? rex opcode.toNat rest
  | _ => none

/-- Reads at most `count` operations, which must use up the byte string. -/
def decodeUpTo? : (count : Nat) → List UInt8 → Option (List Operation)
  | _, [] => some []
  | 0, _ => none
  | count + 1, bytes =>
    match decode? bytes with
    | none => none
    | some (operation, rest) => (decodeUpTo? count rest).map (operation :: ·)

/-- Reads a byte string as a sequence of operations. Every operation has at least one byte. -/
def decodeAll? (bytes : List UInt8) : Option (List Operation) := decodeUpTo? bytes.length bytes

end Operation

end StackMachine.Native
