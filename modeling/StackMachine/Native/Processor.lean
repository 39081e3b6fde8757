import StackMachine.Native.Decoder

/-!
# The processor

What the operations do: sixteen registers, flags, and a memory of bytes. A run fetches, decodes
and executes operations until the code returns. A call hands control to the host, which may
change every register that the calling convention lets it change and the memory below the stack
pointer; what it computes is up to a handler.
-/

namespace StackMachine.Native

/-- A machine word. -/
abbrev Word := UInt64

/-- A memory of bytes. -/
abbrev Memory := Word → UInt8

namespace Memory

/-- The word at an address, least significant byte first. -/
def read (memory : Memory) (address : Word) : Word :=
  UInt64.ofNat
    (ofLittleEndian ((List.range 8).map fun offset => memory (address + UInt64.ofNat offset)))

/-- Stores a word at an address. -/
def write (memory : Memory) (address value : Word) : Memory := fun place =>
  if place - address < 8 then (value >>> (8 * (place - address))).toUInt8 else memory place

end Memory

/-- The flags that conditions test. -/
structure Flags where
  /-- The result is zero. -/
  zero : Bool := false
  /-- The result is negative. -/
  sign : Bool := false
  /-- The unsigned result does not fit. -/
  carry : Bool := false
  /-- The signed result does not fit. -/
  overflow : Bool := false
  /-- The low byte of the result has an even number of ones. -/
  parity : Bool := false
  deriving DecidableEq, Repr, Inhabited

namespace Flags

/-- Whether a word is negative when read as a signed number. -/
def isNegative (w : Word) : Bool := 0x8000000000000000 ≤ w.toNat

/-- Whether the low byte of a word has an even number of ones. -/
def evenParity (w : Word) : Bool :=
  ((List.range 8).filter fun i => w.toNat / Nat.pow 2 i % 2 = 1).length % 2 = 0

/-- The flags that only depend on the result. -/
def ofResult (result : Word) (carry overflow : Bool) : Flags :=
  { zero := result = 0, sign := isNegative result, carry, overflow, parity := evenParity result }

/-- The flags of a sum. -/
def ofAdd (a b : Word) : Flags :=
  ofResult (a + b) (0x10000000000000000 ≤ a.toNat + b.toNat)
    (isNegative a = isNegative b ∧ isNegative (a + b) ≠ isNegative a)

/-- The flags of a difference. -/
def ofSub (a b : Word) : Flags :=
  ofResult (a - b) (a < b) (isNegative a ≠ isNegative b ∧ isNegative (a - b) ≠ isNegative a)

/-- Whether a condition holds. -/
def holds (flags : Flags) : Condition → Bool
  | .o => flags.overflow
  | .no => !flags.overflow
  | .b => flags.carry
  | .ae => !flags.carry
  | .e => flags.zero
  | .ne => !flags.zero
  | .be => flags.carry || flags.zero
  | .a => !flags.carry && !flags.zero
  | .s => flags.sign
  | .ns => !flags.sign
  | .p => flags.parity
  | .np => !flags.parity
  | .l => flags.sign != flags.overflow
  | .ge => flags.sign == flags.overflow
  | .le => flags.zero || flags.sign != flags.overflow
  | .g => !flags.zero && flags.sign == flags.overflow

end Flags

/-- The state of the processor. -/
structure Processor where
  /-- The registers. -/
  registers : Register → Word
  /-- The flags. -/
  flags : Flags := {}
  /-- The memory. -/
  memory : Memory

namespace Processor

/-- Sets a register. -/
def set (cpu : Processor) (r : Register) (value : Word) : Processor :=
  { cpu with registers := fun other => if other = r then value else cpu.registers other }

/-- Sets the flags. -/
def setFlags (cpu : Processor) (flags : Flags) : Processor := { cpu with flags }

/-- The address of a place in memory. -/
def address (cpu : Processor) (base : Register) (disp : Int32) : Word :=
  cpu.registers base + disp.toInt64.toUInt64

/-- Pushes a word onto the machine stack. -/
def pushWord (cpu : Processor) (value : Word) : Processor :=
  let top := cpu.registers .rsp - 8
  { cpu.set .rsp top with memory := cpu.memory.write top value }

/-- Pops a word from the machine stack. -/
def popWord (cpu : Processor) : Word × Processor :=
  let top := cpu.registers .rsp
  (cpu.memory.read top, cpu.set .rsp (top + 8))

/-- Computes with two words: what is stored, if anything, and the flags. -/
def compute (kind : Arithmetic) (a b : Word) : Option Word × Flags :=
  match kind with
  | .add => (some (a + b), .ofAdd a b)
  | .sub => (some (a - b), .ofSub a b)
  | .and => (some (a &&& b), .ofResult (a &&& b) false false)
  | .or => (some (a ||| b), .ofResult (a ||| b) false false)
  | .xor => (some (a ^^^ b), .ofResult (a ^^^ b) false false)
  | .cmp => (none, .ofSub a b)
  | .test => (none, .ofResult (a &&& b) false false)

/-- Divides the signed number in `rdx:rax`. There is no result for a zero divisor and for a
quotient of more than 64 bits. -/
def divide? (cpu : Processor) (divisor : Word) : Option Processor :=
  let dividend : Int :=
    (cpu.registers .rdx).toInt64.toInt * 0x10000000000000000 + (cpu.registers .rax).toNat
  let divisor := divisor.toInt64.toInt
  let quotient := dividend.tdiv divisor
  if divisor = 0 ∨ quotient < -0x8000000000000000 ∨ 0x8000000000000000 ≤ quotient then none
  else
    some ((cpu.set .rax (Int64.ofInt quotient).toUInt64).set .rdx
      (Int64.ofInt (dividend.tmod divisor)).toUInt64)

/-- How a run goes on after an operation. -/
inductive Next
  /-- With the next operation. -/
  | go (cpu : Processor)
  /-- At a distance from the next operation. -/
  | jump (cpu : Processor) (distance : Int32)
  /-- With a call of the host. -/
  | call (cpu : Processor) (target : Word)
  /-- Not at all: the code returns. -/
  | done (cpu : Processor)
  /-- Not at all: the processor cannot divide. -/
  | trap

/-- What an operation does. -/
def execute (cpu : Processor) : Operation → Next
  | .mov dst src => .go (cpu.set dst (cpu.registers src))
  | .movImm32 dst value => .go (cpu.set dst value.toInt64.toUInt64)
  | .movImm64 dst value => .go (cpu.set dst value.toUInt64)
  | .load dst base disp => .go (cpu.set dst (cpu.memory.read (cpu.address base disp)))
  | .store base disp src =>
    .go { cpu with memory := cpu.memory.write (cpu.address base disp) (cpu.registers src) }
  | .arith kind dst src =>
    let (result, flags) := compute kind (cpu.registers dst) (cpu.registers src)
    .go ((match result with
      | some value => cpu.set dst value
      | none => cpu).setFlags flags)
  | .imul dst src => .go (cpu.set dst (cpu.registers dst * cpu.registers src))
  | .addImm dst value =>
    let a := cpu.registers dst
    let b := value.toInt64.toUInt64
    .go ((cpu.set dst (a + b)).setFlags (.ofAdd a b))
  | .subImm dst value =>
    let a := cpu.registers dst
    let b := value.toInt64.toUInt64
    .go ((cpu.set dst (a - b)).setFlags (.ofSub a b))
  | .neg dst =>
    let a := cpu.registers dst
    .go ((cpu.set dst (0 - a)).setFlags (.ofSub 0 a))
  | .idiv src =>
    match cpu.divide? (cpu.registers src) with
    | some cpu => .go cpu
    | none => .trap
  | .cqo => .go (cpu.set .rdx (if Flags.isNegative (cpu.registers .rax) then -1 else 0))
  | .setcc condition dst =>
    let bit : Word := if cpu.flags.holds condition then 1 else 0
    .go (cpu.set dst ((cpu.registers dst &&& ~~~0xFF) ||| bit))
  | .movzx dst src => .go (cpu.set dst (cpu.registers src &&& 0xFF))
  | .push src => .go (cpu.pushWord (cpu.registers src))
  | .pop dst =>
    let (value, cpu) := cpu.popWord
    .go (cpu.set dst value)
  | .call target => .call cpu (cpu.registers target)
  | .ret => .done cpu.popWord.2
  | .jmp distance => .jump cpu distance
  | .jcc condition distance =>
    if cpu.flags.holds condition then .jump cpu distance else .go cpu

/-- The registers that a call must leave as they are. -/
def isPreserved (r : Register) : Bool :=
  r ∈ [.rsp, .rbp, .rbx, .r12, .r13, .r14, .r15]

/-- What a call leaves in the registers and in the memory that it may change. -/
structure Residue where
  /-- The other registers. -/
  registers : Register → Word := fun _ => 0
  /-- The memory below the stack pointer. -/
  memory : Memory := fun _ => 0
  /-- The flags. -/
  flags : Flags := {}

/-- The processor after a call that leaves a residue. -/
def afterCall (cpu : Processor) (residue : Residue) : Processor where
  registers r := if isPreserved r then cpu.registers r else residue.registers r
  flags := residue.flags
  memory place := if place < cpu.registers .rsp then residue.memory place else cpu.memory place

end Processor

/-- How a run of machine code ends. -/
inductive RunEnd (σ : Type)
  /-- It returns. -/
  | returned (cpu : Processor) (host : σ)
  /-- It leaves the code, divides badly, calls what is not there or does not end in time. -/
  | stuck

/-- The host that calls go to: it sees the processor and the target and leaves a residue. Not
every call has an answer. -/
abbrev CallHandler (σ : Type) := Processor → Word → σ → Option (σ × Processor.Residue)

/-- The position at a distance from `position`, if it is not before the code. -/
def offsetBy? (position : Nat) (distance : Int32) : Option Nat :=
  let target := (position : Int) + distance.toInt
  if target < 0 then none else some target.toNat

/-- Runs code from a position, at most `steps` operations. -/
def runCode {σ : Type} (code : List UInt8) (handler : CallHandler σ) :
    (steps : Nat) → (position : Nat) → Processor → σ → RunEnd σ
  | 0, _, _, _ => .stuck
  | steps + 1, position, cpu, host =>
    match Operation.decode? (code.drop position) with
    | none => .stuck
    | some (operation, rest) =>
      let next := code.length - rest.length
      match cpu.execute operation with
      | .go cpu => runCode code handler steps next cpu host
      | .jump cpu distance =>
        match offsetBy? next distance with
        | some target => runCode code handler steps target cpu host
        | none => .stuck
      | .call cpu target =>
        match handler cpu target host with
        | some (host, residue) => runCode code handler steps next (cpu.afterCall residue) host
        | none => .stuck
      | .done cpu => .returned cpu host
      | .trap => .stuck

end StackMachine.Native
