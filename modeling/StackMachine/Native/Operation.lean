import StackMachine.Native.Register

/-!
# Machine operations and their encoding

The processor operations that compiled programs are made of, and the bytes that encode them:
an optional REX byte, an opcode, operand bytes, and a displacement or an immediate, least
significant byte first.
-/

namespace StackMachine.Native

/-- Two-register operations with a common encoding. -/
inductive Arithmetic
  /-- Sum. -/
  | add
  /-- Difference. -/
  | sub
  /-- Bitwise conjunction. -/
  | and
  /-- Bitwise disjunction. -/
  | or
  /-- Bitwise exclusive disjunction. -/
  | xor
  /-- Difference, for the flags only. -/
  | cmp
  /-- Bitwise conjunction, for the flags only. -/
  | test
  deriving DecidableEq, Repr, Inhabited

/-- The opcode of a two-register operation. -/
def Arithmetic.opcode : Arithmetic → Nat
  | add => 0x01
  | sub => 0x29
  | and => 0x21
  | or => 0x09
  | xor => 0x31
  | cmp => 0x39
  | test => 0x85

/-- The operations of the processor. The destination stands first. -/
inductive Operation
  /-- Copies a register. -/
  | mov (dst src : Register)
  /-- Loads a constant of 32 bits, extended with its sign. -/
  | movImm32 (dst : Register) (value : Int32)
  /-- Loads a constant of 64 bits. -/
  | movImm64 (dst : Register) (value : Int64)
  /-- Loads from memory at `base + disp`. -/
  | load (dst base : Register) (disp : Int32)
  /-- Stores to memory at `base + disp`. -/
  | store (base : Register) (disp : Int32) (src : Register)
  /-- Computes with two registers. -/
  | arith (kind : Arithmetic) (dst src : Register)
  /-- Multiplies, keeping the low 64 bits. -/
  | imul (dst src : Register)
  /-- Adds a constant. -/
  | addImm (dst : Register) (value : Int32)
  /-- Subtracts a constant. -/
  | subImm (dst : Register) (value : Int32)
  /-- Negates. -/
  | neg (dst : Register)
  /-- Divides `rdx:rax`; the quotient goes to `rax` and the remainder to `rdx`. -/
  | idiv (src : Register)
  /-- Extends the sign of `rax` into `rdx`. -/
  | cqo
  /-- Sets the low byte to whether a condition holds. -/
  | setcc (condition : Condition) (dst : Register)
  /-- Copies the low byte and clears the others. -/
  | movzx (dst src : Register)
  /-- Pushes onto the machine stack. -/
  | push (src : Register)
  /-- Pops from the machine stack. -/
  | pop (dst : Register)
  /-- Calls the code at an address. -/
  | call (target : Register)
  /-- Returns. -/
  | ret
  /-- Jumps by a distance from the next operation. -/
  | jmp (distance : Int32)
  /-- Jumps by a distance from the next operation if a condition holds. -/
  | jcc (condition : Condition) (distance : Int32)
  deriving DecidableEq, Repr, Inhabited

/-- The lowest `count` bytes of a number, least significant first. -/
def littleEndian : (count : Nat) → Nat → List UInt8
  | 0, _ => []
  | count + 1, n => UInt8.ofNat (n % 256) :: littleEndian count (n / 256)

/-- The four bytes of a 32-bit number. -/
def bytes32 (n : Int32) : List UInt8 := littleEndian 4 n.toUInt32.toNat

/-- The eight bytes of a 64-bit number. -/
def bytes64 (n : Int64) : List UInt8 := littleEndian 8 n.toUInt64.toNat

/-- Whether a 32-bit number fits in a signed byte. -/
def fitsByte (n : Int32) : Bool := -128 ≤ n && n ≤ 127

namespace Operation

/-- The REX byte of a 64-bit operation with the register and the operand given. -/
def rexWide (reg rm : Register) : UInt8 :=
  UInt8.ofNat (0x48 + (if reg.isExtended then 4 else 0) + (if rm.isExtended then 1 else 0))

/-- The REX byte that an operation without 64-bit form has only for an extended register. -/
def rexNarrow (rm : Register) : List UInt8 := if rm.isExtended then [0x41] else []

/-- The operand byte: mode, register field and operand field. -/
def modrm (mode reg rm : Nat) : UInt8 := UInt8.ofNat (64 * mode + 8 * reg + rm)

/-- The operand bytes of a register and a place in memory. The bases `rsp` and `r12` need a SIB
byte; the bases `rbp` and `r13` always need a displacement. -/
def memory (reg base : Register) (disp : Int32) : List UInt8 :=
  let sib : List UInt8 := if base.code = 4 then [0x24] else []
  if disp = 0 ∧ base.code ≠ 5 then modrm 0 reg.code base.code :: sib
  else if fitsByte disp then
    modrm 1 reg.code base.code :: sib ++ littleEndian 1 disp.toUInt32.toNat
  else modrm 2 reg.code base.code :: sib ++ bytes32 disp

/-- An operation of a group with a constant: one byte if the constant fits, else four. -/
def groupImm (extension : Nat) (dst : Register) (value : Int32) : List UInt8 :=
  if fitsByte value then
    [rexWide .rax dst, 0x83, modrm 3 extension dst.code] ++
      littleEndian 1 value.toUInt32.toNat
  else [rexWide .rax dst, 0x81, modrm 3 extension dst.code] ++ bytes32 value

/-- Whether the low byte of a register can only be named with a REX byte. -/
def needsRex (r : Register) : Bool := 4 ≤ r.number

/-- The bytes of an operation. -/
def encode : Operation → List UInt8
  | mov dst src => [rexWide src dst, 0x89, modrm 3 src.code dst.code]
  | movImm32 dst value => [rexWide .rax dst, 0xC7, modrm 3 0 dst.code] ++ bytes32 value
  | movImm64 dst value => [rexWide .rax dst, UInt8.ofNat (0xB8 + dst.code)] ++ bytes64 value
  | load dst base disp => [rexWide dst base, 0x8B] ++ memory dst base disp
  | store base disp src => [rexWide src base, 0x89] ++ memory src base disp
  | arith kind dst src =>
    [rexWide src dst, UInt8.ofNat kind.opcode, modrm 3 src.code dst.code]
  | imul dst src => [rexWide dst src, 0x0F, 0xAF, modrm 3 dst.code src.code]
  | addImm dst value => groupImm 0 dst value
  | subImm dst value => groupImm 5 dst value
  | neg dst => [rexWide .rax dst, 0xF7, modrm 3 3 dst.code]
  | idiv src => [rexWide .rax src, 0xF7, modrm 3 7 src.code]
  | cqo => [0x48, 0x99]
  | setcc condition dst =>
    (if needsRex dst then [if dst.isExtended then 0x41 else 0x40] else []) ++
      [0x0F, UInt8.ofNat (0x90 + condition.number), modrm 3 0 dst.code]
  | movzx dst src => [rexWide dst src, 0x0F, 0xB6, modrm 3 dst.code src.code]
  | push src => rexNarrow src ++ [UInt8.ofNat (0x50 + src.code)]
  | pop dst => rexNarrow dst ++ [UInt8.ofNat (0x58 + dst.code)]
  | call target => rexNarrow target ++ [0xFF, modrm 3 2 target.code]
  | ret => [0xC3]
  | jmp distance => 0xE9 :: bytes32 distance
  | jcc condition distance => [0x0F, UInt8.ofNat (0x80 + condition.number)] ++ bytes32 distance

/-- Loads a constant with the shorter of the two encodings that hold it. -/
def movImm (dst : Register) (value : Int64) : Operation :=
  if value.toInt32.toInt64 = value then movImm32 dst value.toInt32 else movImm64 dst value

/-- The bytes of a sequence of operations. -/
def encodeAll (operations : List Operation) : List UInt8 := operations.flatMap encode

end Operation

end StackMachine.Native
