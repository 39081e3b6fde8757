import Mathlib.Data.Int.ModEq
import Mathlib.Tactic.NormNum
import Mathlib.Tactic.Positivity
import StackMachine.Proofs.Machine.FaultLine
import StackMachine.Proofs.Native.Arithmetic

/-!
# Integer arithmetic

Integers of 32 and of 64 bits are computed with alike, in 64 bits. Sum, difference and product are
the exact results up to a multiple of `2 ^ 64`. Quotient and remainder fit together for all signs:
the one quotient that does not fit in 64 bits is wrong by exactly `2 ^ 64`, which the product with
the divisor does not see.

## Main definitions

* `Value.Denotes`: the integer that an integer value of either width denotes.
* `Value.Computes`: an operator gives an exact result, up to what 64 bits can hold.
* `Value.Division`: what a quotient and a remainder have to do with dividend and divisor.
* `Machine.Applies`: a machine is about to apply an operator that is written on a line.

## Main results

* `Value.mul_div_add_mod`: quotient times divisor, plus remainder, in 64 bits.
* `Value.Denotes.binary_congr`: operators do not see the width of an integer.
* `Machine.runSteps_of_applies`: a run of an operator that fails gives its fault on its line.
* `Value.integer_arithmetic_exact`: what the operators do to integers of either width.
-/

namespace StackMachine

namespace Value

/-- The value is an integer of 32 or of 64 bits, and denotes `n`. -/
inductive Denotes : Value → ℤ → Prop
  /-- A 32-bit integer. -/
  | narrow (n : Int32) : Denotes (int n) n.toInt
  /-- A 64-bit integer. -/
  | wide (n : Int64) : Denotes (long n) n.toInt

variable {left right : Value} {a b : ℤ}

/-- An integer of either width has a value of 64 bits. -/
theorem Denotes.exists_integer? {v : Value} (h : v.Denotes a) :
    ∃ n : Int64, v.integer? = some n ∧ n.toInt = a := by
  cases h with
  | narrow n => exact ⟨n.toInt64, rfl, n.toInt_toInt64⟩
  | wide n => exact ⟨n, rfl, rfl⟩

/-- Integers of either width are computed with as 64-bit integers. -/
theorem Denotes.exists_binary (hleft : left.Denotes a) (hright : right.Denotes b) :
    ∃ m n : Int64, m.toInt = a ∧ n.toInt = b ∧
      ∀ operator line, binary left right operator line = integerOp m n operator line := by
  obtain ⟨m, hm, rfl⟩ := hleft.exists_integer?
  obtain ⟨n, hn, rfl⟩ := hright.exists_integer?
  exact ⟨m, n, rfl, rfl, fun operator line => binary_of_integers operator line hm hn⟩

/-- What an operator gives depends on the integers only, and not on their widths. -/
theorem Denotes.binary_congr {left' right' : Value} (hleft : left.Denotes a)
    (hright : right.Denotes b) (hleft' : left'.Denotes a) (hright' : right'.Denotes b)
    (operator : String) (line : ℕ) :
    binary left' right' operator line = binary left right operator line := by
  obtain ⟨m, n, hm, hn, h⟩ := hleft.exists_binary hright
  obtain ⟨m', n', hm', hn', h'⟩ := hleft'.exists_binary hright'
  rw [h, h', Int64.toInt_inj.mp (hm'.trans hm.symm), Int64.toInt_inj.mp (hn'.trans hn.symm)]

/-! ### Sum, difference and product -/

/-- The operator gives a 64-bit integer that is the exact result up to a multiple of `2 ^ 64`, and
the exact result itself for two 32-bit integers. -/
def Computes (left right : Value) (operator : String) (exact : ℤ) : Prop :=
  ∃ n : Int64, (∀ line, binary left right operator line = .ok (long n)) ∧
    n.toInt ≡ exact [ZMOD 2 ^ 64] ∧ (left.isInt = true → right.isInt = true → n.toInt = exact)

theorem bmod_modEq (n : ℤ) : n.bmod (2 ^ 64) ≡ n [ZMOD 2 ^ 64] := by
  rw [Int.ModEq]
  exact_mod_cast Int.bmod_emod

/-- Addition of 64-bit integers is exact up to multiples of the modulus. -/
theorem modEq_add (m n : Int64) : (m + n).toInt ≡ m.toInt + n.toInt [ZMOD 2 ^ 64] :=
  m.toInt_add n ▸ bmod_modEq _

theorem modEq_sub (m n : Int64) : (m - n).toInt ≡ m.toInt - n.toInt [ZMOD 2 ^ 64] :=
  m.toInt_sub n ▸ bmod_modEq _

theorem modEq_mul (m n : Int64) : (m * n).toInt ≡ m.toInt * n.toInt [ZMOD 2 ^ 64] :=
  m.toInt_mul n ▸ bmod_modEq _

/-- A 64-bit integer that is congruent to an integer in its range is that integer. -/
theorem toInt_eq_of_modEq {n : Int64} (h : n.toInt ≡ a [ZMOD 2 ^ 64]) (hlow : -2 ^ 63 ≤ a)
    (hhigh : a < 2 ^ 63) : n.toInt = a := by
  have hn := n.le_toInt
  have hn' := n.toInt_lt
  rw [Int.ModEq] at h
  omega

/-- A 32-bit integer is small. -/
theorem Denotes.abs_le_of_isInt {v : Value} (h : v.Denotes a) (hint : v.isInt = true) :
    |a| ≤ 2 ^ 31 := by
  cases h with
  | narrow n =>
    have hlow := n.le_toInt
    have hhigh := n.toInt_lt
    rw [abs_le]
    omega
  | wide n => cases hint

/-- Of integers of 32 bits every result that is less than `2 ^ 63` is exact. -/
theorem Denotes.computes {operator : String} {n : Int64} {exact : ℤ} (hleft : left.Denotes a)
    (hright : right.Denotes b) (hvalue : ∀ line, binary left right operator line = .ok (long n))
    (hmod : n.toInt ≡ exact [ZMOD 2 ^ 64])
    (hfits : |a| ≤ 2 ^ 31 → |b| ≤ 2 ^ 31 → |exact| < 2 ^ 63) :
    Computes left right operator exact := by
  refine ⟨n, hvalue, hmod, fun hint hint' => ?_⟩
  have hbound := abs_lt.mp (hfits (hleft.abs_le_of_isInt hint) (hright.abs_le_of_isInt hint'))
  exact toInt_eq_of_modEq hmod hbound.1.le hbound.2

/-- Addition computes the sum, wrapped where it does not fit. -/
theorem Denotes.computes_add (hleft : left.Denotes a) (hright : right.Denotes b) :
    Computes left right "+" (a + b) := by
  obtain ⟨m, n, rfl, rfl, h⟩ := hleft.exists_binary hright
  refine hleft.computes hright (h "+") (modEq_add m n) fun hm hn => ?_
  exact (abs_add_le _ _).trans_lt (by omega)

/-- Subtraction computes the difference in the same way. -/
theorem Denotes.computes_sub (hleft : left.Denotes a) (hright : right.Denotes b) :
    Computes left right "-" (a - b) := by
  obtain ⟨m, n, rfl, rfl, h⟩ := hleft.exists_binary hright
  refine hleft.computes hright (h "-") (modEq_sub m n) fun hm hn => ?_
  exact (abs_sub _ _).trans_lt (by omega)

/-- Multiplication computes the product in the same way. -/
theorem Denotes.computes_mul (hleft : left.Denotes a) (hright : right.Denotes b) :
    Computes left right "*" (a * b) := by
  obtain ⟨m, n, rfl, rfl, h⟩ := hleft.exists_binary hright
  refine hleft.computes hright (h "*") (modEq_mul m n) fun hm hn => ?_
  rw [abs_mul]
  exact (mul_le_mul hm hn (abs_nonneg _) (by positivity)).trans_lt (by norm_num)

/-! ### Quotient and remainder -/

/-- Quotient times divisor, plus remainder, is the dividend, whatever wraps around. -/
theorem mul_div_add_mod (m n : Int64) : m / n * n + m % n = m := by
  apply Int64.toInt_inj.mp
  refine toInt_eq_of_modEq ?_ m.le_toInt m.toInt_lt
  have hquotient : (m / n).toInt ≡ m.toInt.tdiv n.toInt [ZMOD 2 ^ 64] :=
    m.toInt_div n ▸ bmod_modEq _
  calc (m / n * n + m % n).toInt
      ≡ (m / n * n).toInt + (m % n).toInt [ZMOD 2 ^ 64] := modEq_add _ _
    _ ≡ m.toInt.tdiv n.toInt * n.toInt + m.toInt.tmod n.toInt [ZMOD 2 ^ 64] := by
        rw [Int64.toInt_mod]
        exact ((modEq_mul _ _).trans (hquotient.mul_right _)).add_right _
    _ = m.toInt := Int.tdiv_mul_add_tmod _ _

/-- The remainder is smaller than the divisor. -/
theorem abs_toInt_mod_lt (m : Int64) {n : Int64} (hn : n.toInt ≠ 0) :
    |(m % n).toInt| < |n.toInt| := by
  rw [Int64.toInt_mod, Int.abs_eq_natAbs, Int.abs_eq_natAbs, Int.natAbs_tmod]
  exact_mod_cast Nat.mod_lt _ (Int.natAbs_pos.mpr hn)

/-- The remainder has the sign of the dividend. -/
theorem sign_toInt_mod (m n : Int64) :
    (m % n).toInt = 0 ∨ (m % n).toInt.sign = m.toInt.sign := by
  rw [Int64.toInt_mod, Int.sign_tmod]
  split
  next hdvd => exact .inl (Int.tmod_eq_zero_of_dvd hdvd)
  next => exact .inr rfl

/-- Only the least integer divided by minus one leaves the range, and gives itself. -/
theorem toInt_div_cases (m n : Int64) :
    if m.toInt = -2 ^ 63 ∧ n.toInt = -1 then (m / n).toInt = -2 ^ 63 ∧ (m % n).toInt = 0
    else (m / n).toInt = m.toInt.tdiv n.toInt := by
  split
  next h =>
    have hm : m = Int64.minValue := Int64.toInt_inj.mp h.1
    have hn : n = -1 := Int64.toInt_inj.mp h.2
    rw [hm, hn]
    decide
  next h =>
    refine (Native.tdiv_eq_of_fits fun hleast => h ?_).symm
    rw [hleast.1, hleast.2]
    decide

/-- What division gives for a dividend that denotes `a` and a divisor that denotes `b`. -/
structure Division (left right : Value) (a b : ℤ) (q m : Int64) : Prop where
  /-- The quotient. -/
  quotient : ∀ line, binary left right "/" line = .ok (long q)
  /-- The remainder. -/
  remainder : ∀ line, binary left right "%" line = .ok (long m)
  /-- Quotient times divisor, plus remainder, is the dividend again. -/
  recomposed : ∃ product again, (∀ line, binary (long q) right "*" line = .ok product) ∧
    (∀ line, binary product (long m) "+" line = .ok again) ∧ again.Denotes a ∧
      ∀ line, binary again left "==" line = .ok (bool true)
  /-- The remainder is smaller than the divisor. -/
  remainder_lt : |m.toInt| < |b|
  /-- The remainder has the sign of the dividend. -/
  sign_remainder : m.toInt = 0 ∨ m.toInt.sign = a.sign
  /-- The quotient is rounded towards zero, unless it does not fit. -/
  quotient_eq : if a = -2 ^ 63 ∧ b = -1 then q.toInt = -2 ^ 63 ∧ m.toInt = 0
    else q.toInt = a.tdiv b

/-- Division by anything but zero has a quotient and a remainder, which belong together. -/
theorem Denotes.exists_division (hleft : left.Denotes a) (hright : right.Denotes b) (hb : b ≠ 0) :
    ∃ q m : Int64, Division left right a b q m := by
  obtain ⟨m, n, rfl, rfl, h⟩ := hleft.exists_binary hright
  have hn : n ≠ 0 := fun hzero => hb (hzero ▸ rfl)
  have hproduct : ∀ line, binary (long (m / n)) right "*" line = .ok (long (m / n * n)) :=
    binary_congr (.wide _) (.wide n) (.wide _) hright "*"
  have hagain : Denotes (long (m / n * n + m % n)) m.toInt := by
    rw [mul_div_add_mod]
    exact .wide m
  have hequal : ∀ line, binary (long (m / n * n + m % n)) left "==" line = .ok (bool true) := by
    intro line
    rw [binary_congr (.wide m) (.wide m) hagain hleft]
    exact congrArg (Except.ok <| bool ·) (decide_eq_true rfl)
  exact ⟨m / n, m % n, fun line => (h "/" line).trans (if_neg hn),
    fun line => (h "%" line).trans (if_neg hn), ⟨_, _, hproduct, fun _ => rfl, hagain, hequal⟩,
    abs_toInt_mod_lt m hb, sign_toInt_mod m n, toInt_div_cases m n⟩

/-! ### Failures -/

/-- An operator that divides fails exactly if the divisor is zero. -/
theorem Denotes.exists_error_iff (hleft : left.Denotes a) (hright : right.Denotes b)
    {operator : String} (hoperator : operator ∈ ["/", "%"]) (line : ℕ) :
    (∃ fault, binary left right operator line = .error fault) ↔ b = 0 := by
  obtain ⟨m, n, rfl, rfl, h⟩ := hleft.exists_binary hright
  have hzero : n.toInt = 0 ↔ n = 0 := Int64.toInt_inj (y := 0)
  rw [h, hzero]
  simp only [List.mem_cons, List.not_mem_nil, or_false] at hoperator
  rcases hoperator with rfl | rfl <;> by_cases hn : n = 0 <;>
    simp [integerOp, Operator.ofText?, hn]

/-- A division of integers that fails is a fault at run time. -/
theorem Denotes.kind_of_error (hleft : left.Denotes a) (hright : right.Denotes b)
    {operator : String} (hoperator : operator ∈ ["/", "%"]) {line : ℕ} {fault : Fault}
    (hfault : binary left right operator line = .error fault) :
    fault.cause.kind = .runtime := by
  obtain ⟨m, n, rfl, rfl, h⟩ := hleft.exists_binary hright
  rw [h] at hfault
  simp only [List.mem_cons, List.not_mem_nil, or_false] at hoperator
  rcases hoperator with rfl | rfl <;> by_cases hn : n = 0 <;>
    simp [integerOp, Operator.ofText?, hn] at hfault <;> rw [← hfault] <;> rfl

end Value

namespace Machine

/-- The machine is about to apply an operator, written on a line, to the two values on top of its
stack. -/
structure Applies (m : Machine) (line : ℕ) (left right : Value) (operator : String) : Prop where
  /-- There is an instruction to execute. -/
  canStep : m.canStep = true
  /-- It applies the operator. -/
  instruction : ∃ instruction, m.program[m.pc]? = some instruction ∧
    instruction.opcode = .binaryOp ∧ instruction.operand? = some operator ∧ instruction.line = line
  /-- The operands. -/
  operands : ∃ stack, m.stack = right :: left :: stack

/-- A run in which an operator fails ends with the fault of the operator on its line. -/
theorem runSteps_of_applies {runner : Runner} {m : Machine} {line : ℕ} {left right : Value}
    {operator : String} {fault : Fault} (h : m.Applies line left right operator) (steps : ℕ)
    (hfault : Value.binary left right operator line = .error fault) :
    (runSteps runner (steps + 1) m).1 = .failed fault := by
  obtain ⟨instruction, hinstruction, hop, hoperator, rfl⟩ := h.instruction
  obtain ⟨stack, hstack⟩ := h.operands
  obtain ⟨cause, rfl⟩ := Value.onLine_of_binary hfault
  have hstep :
      (step runner).run m = (.error (.fault (instruction.fault cause)), { m with stack }) :=
    step_fault hinstruction (Instruction.run_execute_binary_error hop hoperator hstack hfault)
  rw [runSteps, if_pos h.canStep, hstep]
  rfl

end Machine

namespace Value

variable {left right : Value} {a b : ℤ}

/-- Arithmetic on integers of 32 or 64 bits, in any mix. Sum, difference and product are exact
modulo `2 ^ 64`, and exact for two 32-bit integers. Quotient and remainder fail exactly if the
divisor is zero, with a runtime fault on the line of the operator, which is also how a run of the
operator ends; otherwise they fit together. Nothing depends on the widths of the operands. -/
theorem integer_arithmetic_exact (hleft : left.Denotes a) (hright : right.Denotes b) :
    Computes left right "+" (a + b) ∧ Computes left right "-" (a - b) ∧
    Computes left right "*" (a * b) ∧
    (∀ operator ∈ ["/", "%"], ∀ line : ℕ,
      ((∃ fault, binary left right operator line = .error fault) ↔ b = 0) ∧
      ∀ fault, binary left right operator line = .error fault →
        fault.cause.kind = .runtime ∧ fault.location = Fault.locate line ∧
        (1 ≤ line → fault.line? = some line) ∧
        ∀ (runner : Runner) (m : Machine) (steps : ℕ), m.Applies line left right operator →
          (Machine.runSteps runner (steps + 1) m).1 = .failed fault) ∧
    (b ≠ 0 → ∃ q m : Int64, Division left right a b q m) ∧
    ∀ left' right' : Value, left'.Denotes a → right'.Denotes b →
      ∀ operator line,
        binary left' right' operator line = binary left right operator line := by
  refine ⟨hleft.computes_add hright, hleft.computes_sub hright, hleft.computes_mul hright, ?_,
    hleft.exists_division hright, fun _ _ => hleft.binary_congr hright⟩
  intro operator hoperator line
  refine ⟨hleft.exists_error_iff hright hoperator line, fun fault hfault => ?_⟩
  obtain ⟨cause, rfl⟩ := onLine_of_binary hfault
  exact ⟨hleft.kind_of_error hright hoperator hfault, rfl, Fault.line?_onLine,
    fun _ _ steps happlies => Machine.runSteps_of_applies happlies steps hfault⟩

/-- A machine that is about to divide by zero on the third line of its source. -/
def dividing : Machine where
  program := [{ opcode := .binaryOp, operands := ["/"], line := 3 }]
  stack := [int 0, long 5]
  running := true

/-- The least integer divided by minus one, and a run that divides by zero. -/
theorem integer_arithmetic_exact_least :
    (∃ q m : Int64, Division (long Int64.minValue) (int (-1)) (-2 ^ 63) (-1) q m) ∧
    dividing.Applies 3 (long 5) (int 0) "/" ∧
    ∃ fault : Fault, fault.line? = some 3 ∧
      (Machine.runSteps (fun m => (.unfinished, m)) 1 dividing).1 = .failed fault := by
  have hleast : Denotes (long Int64.minValue) (-2 ^ 63) := .wide Int64.minValue
  have hminus : Denotes (int (-1)) (-1) := .narrow (-1)
  have hfive : Denotes (long 5) 5 := .wide 5
  have hzero : Denotes (int 0) 0 := .narrow 0
  have happlies : dividing.Applies 3 (long 5) (int 0) "/" :=
    ⟨rfl, ⟨_, rfl, rfl, rfl, rfl⟩, _, rfl⟩
  obtain ⟨-, -, -, -, hdivision, -⟩ := integer_arithmetic_exact hleast hminus
  obtain ⟨-, -, -, hfails, -, -⟩ := integer_arithmetic_exact hfive hzero
  obtain ⟨hiff, hfault⟩ := hfails "/" (by simp) 3
  obtain ⟨fault, hbinary⟩ := hiff.mpr rfl
  obtain ⟨-, -, hline, hruns⟩ := hfault fault hbinary
  exact ⟨hdivision (by decide), happlies, fault, hline (by decide), hruns _ dividing 0 happlies⟩

end Value

end StackMachine
