import StackMachine.Proofs.Machine.Step

/-!
# Structured programs

Programs built from simple instructions, sequencing, conditionals, loops and breaks, with their
flat form and a big-step meaning that knows nothing of positions and of the stack of loops.

## Main definitions

* `Structured`: the programs; `Structured.flatten`: their instructions in a row.
* `Structured.Runs`: the meaning. A conditional pops a condition and runs one branch; a loop pops a
  condition and, as long as it holds, runs its body and pops a fresh one; a break leaves the
  innermost loop around it and has no effect outside all loops.
* `Structured.Iterates`: a loop that ends after a number of rounds without a break.
* `Structured.spans`: where the loops of a program begin and end, and `Structured.active`: which of
  them are being executed at a position.

## Main results

* `Structured.scan_flatten`: scanning forward skips a structured program as a whole, so every block
  is closed by the end that was written for it.
-/

namespace StackMachine

/-- What an instruction is written with besides its mnemonic. -/
structure Mark where
  /-- The texts it was written with. -/
  operands : List String := []
  /-- The value of a first operand that was quoted. -/
  literal : Option Value := none
  /-- Its source line. -/
  line : Nat

/-- The instruction with a given mnemonic. -/
def Mark.instruction (mark : Mark) (opcode : Opcode) : Instruction where
  opcode := opcode
  operands := mark.operands
  literal := mark.literal
  line := mark.line

/-- Programs built from simple instructions by sequencing, conditionals, loops and breaks. -/
inductive Structured
  /-- Nothing. -/
  | skip
  /-- A simple instruction. -/
  | simple (instruction : Instruction) (h : instruction.isSimple = true)
  /-- One program and then another. -/
  | seq (first second : Structured)
  /-- `IF`, a program, `END`. -/
  | ifEnd (opening : Mark) (body : Structured) (closing : Mark)
  /-- `IF`, a program, `ELSE`, a program, `END`. -/
  | ifElse (opening : Mark) (yes : Structured) (middle : Mark) (no : Structured) (closing : Mark)
  /-- `WHILE`, a program, `END`. -/
  | loop (opening : Mark) (body : Structured) (closing : Mark)
  /-- `BREAK`. -/
  | leave (mark : Mark)

/-- How a structured program ends. -/
inductive Exit
  /-- Behind its last instruction. -/
  | done
  /-- By a break. -/
  | left
  /-- By a fault. -/
  | failed (fault : Fault)

/-- Pops a condition: whether it holds, and the machine without it. -/
def Machine.condition? (m : Machine) : Option (Bool × Machine) :=
  match m.stack with
  | [] => none
  | value :: stack => some (value.isTruthy, { m with stack })

namespace Structured

/-- The instructions of a structured program in a row. -/
def flatten : Structured → Program
  | skip => []
  | simple instruction _ => [instruction]
  | seq first second => first.flatten ++ second.flatten
  | ifEnd opening body closing =>
    opening.instruction .ifBegin :: (body.flatten ++ [closing.instruction .endBlock])
  | ifElse opening yes middle no closing =>
    opening.instruction .ifBegin ::
      (yes.flatten ++ middle.instruction .elseBegin ::
        (no.flatten ++ [closing.instruction .endBlock]))
  | loop opening body closing =>
    opening.instruction .whileBegin :: (body.flatten ++ [closing.instruction .endBlock])
  | leave mark => [mark.instruction .breakLoop]

/-- The number of instructions of a structured program. -/
def size : Structured → Nat
  | skip => 0
  | simple _ _ => 1
  | seq first second => first.size + second.size
  | ifEnd _ body _ => body.size + 2
  | ifElse _ yes _ no _ => yes.size + no.size + 3
  | loop _ body _ => body.size + 2
  | leave _ => 1

/-- The size of a structured program is the number of its instructions. -/
@[simp]
theorem length_flatten (s : Structured) : s.flatten.length = s.size := by
  induction s with
  | skip | simple | leave => rfl
  | seq first second ih₁ ih₂ => simp [flatten, size, ih₁, ih₂]
  | ifEnd _ body _ ih | loop _ body _ ih => simp [flatten, size, ih]
  | ifElse _ yes _ no _ ih₁ ih₂ =>
    simp only [flatten, size, List.length_cons, List.length_append, ih₁, ih₂, List.length_nil]
    omega

/-! ### The meaning -/

/-- The meaning of structured programs. The flag says whether there is a loop around the program.
Positions do not occur: a simple instruction may be executed at any. -/
inductive Runs (runner : Runner) : Bool → Structured → Machine → Exit → Machine → Prop
  | skip {inLoop m} : Runs runner inLoop skip m .done m
  | simple {inLoop m after instruction h pc} :
      (instruction.execute runner pc).run m = (.ok .next, after) →
      Runs runner inLoop (simple instruction h) m .done after
  | simpleFailed {inLoop m after instruction h pc raised} :
      (instruction.execute runner pc).run m = (.error (.fault raised), after) →
      Runs runner inLoop (simple instruction h) m (.failed (raised.withLine instruction.line)) after
  | seq {inLoop m middle after exit first second} :
      Runs runner inLoop first m .done middle → Runs runner inLoop second middle exit after →
      Runs runner inLoop (seq first second) m exit after
  | seqLeft {inLoop m after first second} :
      Runs runner inLoop first m .left after →
      Runs runner inLoop (seq first second) m .left after
  | seqFailed {inLoop m after fault first second} :
      Runs runner inLoop first m (.failed fault) after →
      Runs runner inLoop (seq first second) m (.failed fault) after
  | ifTrue {inLoop m middle after exit opening body closing} :
      m.condition? = some (true, middle) → Runs runner inLoop body middle exit after →
      Runs runner inLoop (ifEnd opening body closing) m exit after
  | ifFalse {inLoop m after opening body closing} :
      m.condition? = some (false, after) →
      Runs runner inLoop (ifEnd opening body closing) m .done after
  | ifFailed {inLoop m opening body closing} :
      m.condition? = none →
      Runs runner inLoop (ifEnd opening body closing) m
        (.failed (.onLine (.noCondition "IF") opening.line)) m
  | elseTrue {inLoop m middle after exit opening yes mark no closing} :
      m.condition? = some (true, middle) → Runs runner inLoop yes middle exit after →
      Runs runner inLoop (ifElse opening yes mark no closing) m exit after
  | elseFalse {inLoop m middle after exit opening yes mark no closing} :
      m.condition? = some (false, middle) → Runs runner inLoop no middle exit after →
      Runs runner inLoop (ifElse opening yes mark no closing) m exit after
  | elseFailed {inLoop m opening yes mark no closing} :
      m.condition? = none →
      Runs runner inLoop (ifElse opening yes mark no closing) m
        (.failed (.onLine (.noCondition "IF") opening.line)) m
  | loopTrue {inLoop m middle again after exit opening body closing} :
      m.condition? = some (true, middle) → Runs runner true body middle .done again →
      Runs runner inLoop (loop opening body closing) again exit after →
      Runs runner inLoop (loop opening body closing) m exit after
  | loopLeft {inLoop m middle after opening body closing} :
      m.condition? = some (true, middle) → Runs runner true body middle .left after →
      Runs runner inLoop (loop opening body closing) m .done after
  | loopBodyFailed {inLoop m middle after fault opening body closing} :
      m.condition? = some (true, middle) → Runs runner true body middle (.failed fault) after →
      Runs runner inLoop (loop opening body closing) m (.failed fault) after
  | loopFalse {inLoop m after opening body closing} :
      m.condition? = some (false, after) →
      Runs runner inLoop (loop opening body closing) m .done after
  | loopFailed {inLoop m opening body closing} :
      m.condition? = none →
      Runs runner inLoop (loop opening body closing) m
        (.failed (.onLine (.noCondition "WHILE") opening.line)) m
  | leave {m mark} : Runs runner true (leave mark) m .left m
  | leaveOutside {m mark} : Runs runner false (leave mark) m .done m

/-- A loop with the given body that makes so many rounds and then ends because its condition does
not hold. -/
inductive Iterates (runner : Runner) (body : Structured) : Nat → Machine → Machine → Prop
  | zero {m after} : m.condition? = some (false, after) → Iterates runner body 0 m after
  | succ {rounds m middle again after} :
      m.condition? = some (true, middle) → Runs runner true body middle .done again →
      Iterates runner body rounds again after → Iterates runner body (rounds + 1) m after

/-! ### Loops by position -/

/-- The positions of the `WHILE` and the `END` of each loop, for a program that starts at a given
position. -/
def spans : Structured → (start : Nat) → List (Nat × Nat)
  | skip, _ => []
  | simple _ _, _ => []
  | seq first second, start => first.spans start ++ second.spans (start + first.size)
  | ifEnd _ body _, start => body.spans (start + 1)
  | ifElse _ yes _ no _, start =>
    yes.spans (start + 1) ++ no.spans (start + 1 + yes.size + 1)
  | loop _ body _, start => (start, start + 1 + body.size) :: body.spans (start + 1)
  | leave _, _ => []

/-- The loops being executed at a position, innermost first: those that began before the position
and do not end before it, and the one that begins there if its end was the position executed
last. -/
def active (s : Structured) (start : Nat) (previous : Option Nat) (pc : Nat) : List Nat :=
  (((s.spans start).filter fun span =>
    (span.1 < pc && pc ≤ span.2) || (span.1 = pc && previous = some span.2)).map
      Prod.fst).reverse

/-- Every loop lies inside its program. -/
theorem mem_spans {s : Structured} {start : Nat} {span : Nat × Nat} (h : span ∈ s.spans start) :
    start ≤ span.1 ∧ span.1 < span.2 ∧ span.2 < start + s.size := by
  induction s generalizing start with
  | skip | simple | leave => simp [spans] at h
  | seq first second ih₁ ih₂ =>
    simp only [size]
    rcases List.mem_append.mp h with h | h
    · have := ih₁ h
      omega
    · have := ih₂ h
      omega
  | ifEnd _ body _ ih =>
    simp only [size]
    have := ih h
    omega
  | ifElse _ yes _ no _ ih₁ ih₂ =>
    simp only [size]
    rcases List.mem_append.mp h with h | h
    · have := ih₁ h
      omega
    · have := ih₂ h
      omega
  | loop _ body _ ih =>
    simp only [size]
    rcases List.mem_cons.mp h with rfl | h
    · dsimp only
      omega
    · have := ih h
      omega

/-- No loop is being executed at a position outside its program. -/
theorem active_eq_nil {s : Structured} {start pc : Nat} (previous : Option Nat)
    (h : pc < start ∨ start + s.size ≤ pc) : s.active start previous pc = [] := by
  rw [active, List.reverse_eq_nil_iff, List.map_eq_nil_iff, List.filter_eq_nil_iff]
  intro span hspan
  have hbounds := mem_spans hspan
  simp only [Bool.or_eq_true, Bool.and_eq_true, decide_eq_true_eq, not_or, not_and]
  omega

/-- At the beginning of a program that was not reached from its inside, no loop of it is being
executed. -/
theorem active_start {s : Structured} {start : Nat} {previous : Option Nat}
    (h : ∀ p ∈ previous, p < start ∨ start + s.size ≤ p) : s.active start previous start = [] := by
  rw [active, List.reverse_eq_nil_iff, List.map_eq_nil_iff, List.filter_eq_nil_iff]
  intro span hspan
  have hbounds := mem_spans hspan
  simp only [Bool.or_eq_true, Bool.and_eq_true, decide_eq_true_eq, not_or, not_and]
  refine ⟨by omega, fun _ hprevious => ?_⟩
  have := h span.2 hprevious
  omega

/-- Of a sequence, the loops of both parts. At most one of the two is not empty. -/
theorem active_seq (first second : Structured) (start pc : Nat) (previous : Option Nat) :
    (seq first second).active start previous pc =
      second.active (start + first.size) previous pc ++ first.active start previous pc := by
  simp [active, spans]

theorem active_ifEnd (opening closing : Mark) (body : Structured) (start pc : Nat)
    (previous : Option Nat) :
    (ifEnd opening body closing).active start previous pc =
      body.active (start + 1) previous pc := rfl

theorem active_ifElse (opening middle closing : Mark) (yes no : Structured) (start pc : Nat)
    (previous : Option Nat) :
    (ifElse opening yes middle no closing).active start previous pc =
      no.active (start + 1 + yes.size + 1) previous pc ++ yes.active (start + 1) previous pc := by
  simp [active, spans]

/-- A loop is being executed behind its `WHILE` up to its `END`, and at its `WHILE` if that was
reached from the `END`. -/
theorem active_loop (opening closing : Mark) (body : Structured) (start pc : Nat)
    (previous : Option Nat) :
    (loop opening body closing).active start previous pc =
      body.active (start + 1) previous pc ++
        if (start < pc ∧ pc ≤ start + 1 + body.size) ∨
          (start = pc ∧ previous = some (start + 1 + body.size)) then [start] else [] := by
  rw [active, spans, List.filter_cons, active]
  split
  next h => rw [if_pos (by simpa using h), List.map_cons, List.reverse_cons]
  next h => rw [if_neg (by simpa using h), List.append_nil]

/-- Inside of a loop it is the outermost of its own loops. -/
theorem active_loop_inside (opening closing : Mark) (body : Structured) {start pc : Nat}
    (previous : Option Nat) (hlow : start < pc) (hhigh : pc ≤ start + 1 + body.size) :
    (loop opening body closing).active start previous pc =
      body.active (start + 1) previous pc ++ [start] := by
  rw [active_loop, if_pos (.inl ⟨hlow, hhigh⟩)]

/-- Back at the `WHILE` only the loop itself is being executed. -/
theorem active_loop_again (opening closing : Mark) (body : Structured) (start : Nat) :
    (loop opening body closing).active start (some (start + 1 + body.size)) start = [start] := by
  rw [active_loop, if_pos (.inr ⟨rfl, rfl⟩), active_eq_nil _ (.inl (Nat.lt_succ_self start)),
    List.nil_append]

/-! ### Scanning -/

/-- A simple instruction neither opens nor closes a block. -/
theorem scan_of_simple {instruction : Instruction} (h : instruction.isSimple = true)
    (atElse : Bool) (depth pc : Nat) (rest : Program) :
    Program.scan atElse depth pc (instruction :: rest) =
      Program.scan atElse depth (pc + 1) rest := by
  obtain ⟨hop, -⟩ := Bool.and_eq_true_iff.mp h
  cases hopcode : instruction.opcode <;> simp [Program.scan, hopcode] at hop ⊢

/-- Scanning forward skips a structured program as a whole. -/
theorem scan_flatten (s : Structured) (atElse : Bool) (depth pc : Nat) (rest : Program) :
    Program.scan atElse depth pc (s.flatten ++ rest) =
      Program.scan atElse depth (pc + s.size) rest := by
  induction s generalizing depth pc rest with
  | skip => rfl
  | simple instruction h => exact scan_of_simple h atElse depth pc rest
  | leave mark => rfl
  | seq first second ih₁ ih₂ =>
    rw [flatten, List.append_assoc, ih₁, ih₂, size, Nat.add_assoc]
  | ifEnd opening body closing ih | loop opening body closing ih =>
    rw [flatten, List.cons_append, List.append_assoc]
    change Program.scan atElse (depth + 1) (pc + 1) (body.flatten ++ _) = _
    rw [ih]
    change Program.scan atElse depth (pc + 1 + body.size + 1) rest = _
    rw [size]
    congr 1
    omega
  | ifElse opening yes middle no closing ih₁ ih₂ =>
    rw [flatten, List.cons_append, List.append_assoc, List.cons_append, List.append_assoc]
    change Program.scan atElse (depth + 1) (pc + 1) (yes.flatten ++ _) = _
    rw [ih₁]
    -- The `ELSE` is inside the block that this `IF` opened, so no scan stops at it.
    have helse : ∀ code, Program.scan atElse (depth + 1) (pc + 1 + yes.size)
        (middle.instruction .elseBegin :: code) =
          Program.scan atElse (depth + 1) (pc + 1 + yes.size + 1) code := by
      intro code
      simp [Program.scan, Mark.instruction]
    rw [helse, ih₂]
    change Program.scan atElse depth (pc + 1 + yes.size + 1 + no.size + 1) rest = _
    rw [size]
    congr 1
    omega

end Structured

end StackMachine
