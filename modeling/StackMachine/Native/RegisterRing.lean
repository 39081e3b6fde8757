import StackMachine.Native.Register

/-!
# The register ring

Registers are handed out in turn, without the stack and frame pointers. A register is only
promised until the ring has gone round.
-/

namespace StackMachine.Native

/-- The position of the next register in the ring. -/
structure RegisterRing where
  /-- The position. -/
  next : Nat := 0
  deriving DecidableEq, Repr, Inhabited

namespace RegisterRing

/-- The registers of the ring. -/
def registers : List Register :=
  [.rax, .rcx, .rdx, .rbx, .rsi, .rdi, .r8, .r9, .r10, .r11, .r12, .r13, .r14, .r15]

/-- The register at a position, counted around the ring. -/
def nth (position : Nat) : Register := (registers[position % registers.length]?).getD .rax

/-- Hands out the next register. -/
def allocate (ring : RegisterRing) : Register × RegisterRing :=
  (nth ring.next, ⟨(ring.next + 1) % registers.length⟩)

/-- Hands out the next register that is not in `avoid`; the next of all if there is none. -/
def allocateExcept (ring : RegisterRing) (avoid : List Register) : Register × RegisterRing :=
  let skipped := ((List.range registers.length).find? fun k =>
    !avoid.contains (nth (ring.next + k))).getD 0
  RegisterRing.allocate ⟨ring.next + skipped⟩

end RegisterRing

end StackMachine.Native
