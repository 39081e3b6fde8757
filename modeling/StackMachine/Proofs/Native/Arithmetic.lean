import StackMachine.Native.Processor
import StackMachine.Operator

/-!
# The processor computes with signed numbers

What the processor does to words, read as signed numbers of 64 bits: its conditions compare, its
division truncates towards zero, and a flag set into the low byte of a register and extended is zero
or one.

## Main results

* `Value.binary_of_integers`: the operators on integers.
* `Native.Flags.integerOp_of_comparison`: the flags of a difference compare signed numbers.
* `Native.Processor.divide?_of_extended`: division of a number that was extended with its sign.
* `Native.extended_truthWord`: a condition as a word.
-/

namespace StackMachine.Value

/-- Integers are computed with in 64 bits. -/
theorem binary_of_integers {left right : Value} {a b : Int64} (operator : String) (line : Nat)
    (hleft : left.integer? = some a) (hright : right.integer? = some b) :
    binary left right operator line = integerOp a b operator line := by
  have hdouble : ∀ {v : Value} {n : Int64}, v.integer? = some n → v.isDouble = false := by
    intro v n h
    cases v <;> first | rfl | cases h
  rw [binary, hdouble hleft, hdouble hright, hleft, hright]
  rfl

end StackMachine.Value

namespace StackMachine.Native

/-- A word that is one if a condition holds and zero otherwise. -/
def truthWord (b : Bool) : Word := if b then 1 else 0

/-- The signed reading of a word. -/
theorem toInt_eq (n : Int64) :
    n.toInt = if n.toUInt64.toNat < 0x8000000000000000 then (n.toUInt64.toNat : Int)
      else n.toUInt64.toNat - 0x10000000000000000 := by
  have h : n.toInt = ((n.toUInt64.toNat : Nat) : Int).bmod 0x10000000000000000 :=
    BitVec.toInt_eq_toNat_bmod n.toBitVec
  have hlt := n.toUInt64.toNat_lt
  rw [h, Int.bmod_def]
  split <;> split <;> omega

namespace Flags

/-- The sign bit of a word is the sign of the integer. -/
theorem isNegative_eq (n : Int64) : isNegative n.toUInt64 = decide (n.toInt < 0) := by
  have hlt := n.toUInt64.toNat_lt
  have h := toInt_eq n
  rw [isNegative, decide_eq_decide]
  split at h <;> omega

/-- The sign of a difference and its overflow tell which number is less. -/
theorem holds_ofSub_l (a b : Int64) : (ofSub a.toUInt64 b.toUInt64).holds .l = decide (a < b) := by
  have hsub : (a - b).toInt = (a.toInt - b.toInt).bmod 0x10000000000000000 := Int64.toInt_sub ..
  have hlowa := a.le_toInt
  have hhigha := a.toInt_lt
  have hlowb := b.le_toInt
  have hhighb := b.toInt_lt
  simp only [holds, ofSub, ofResult, ← Int64.toUInt64_sub, isNegative_eq, Int64.lt_iff_toInt_lt]
  -- The difference leaves the range by at most one turn, which is what the overflow says.
  rw [Int.bmod_def] at hsub
  generalize (a - b).toInt = difference at hsub ⊢
  by_cases hnega : a.toInt < 0 <;> by_cases hnegb : b.toInt < 0 <;>
    by_cases hneg : difference < 0 <;> simp [hnega, hnegb, hneg] <;> omega

/-- The zero flag of a difference tells whether the numbers are equal. -/
theorem zero_ofSub (a b : Int64) : (ofSub a.toUInt64 b.toUInt64).zero = decide (a = b) := by
  simp only [ofSub, ofResult, decide_eq_decide, UInt64.sub_eq_iff_eq_add, UInt64.zero_add]
  exact ⟨congrArg UInt64.toInt64, congrArg Int64.toUInt64⟩

/-- The condition that a comparison asks for holds exactly if the comparison does. -/
theorem integerOp_of_comparison {operator : String} {condition : Condition} (a b : Int64)
    (h : Condition.ofComparison? operator = some condition) (line : Nat) :
    Value.integerOp a b operator line =
      .ok (.bool ((ofSub a.toUInt64 b.toUInt64).holds condition)) := by
  have hless : ((ofSub a.toUInt64 b.toUInt64).sign != (ofSub a.toUInt64 b.toUInt64).overflow) =
      decide (a < b) := holds_ofSub_l a b
  have hzero := zero_ofSub a b
  have hle : decide (a ≤ b) = (decide (a = b) || decide (a < b)) := by
    rw [← Bool.decide_or, decide_eq_decide, Int64.le_iff_lt_or_eq, or_comm]
  have hge : decide (b ≤ a) = !decide (a < b) := by
    rw [← decide_not, decide_eq_decide, Int64.not_lt]
  have hgt : decide (b < a) = (!decide (a = b) && !decide (a < b)) := by
    rw [← Bool.not_or, ← hle, ← decide_not, decide_eq_decide, Int64.not_le]
  rw [Condition.ofComparison?] at h
  repeat' split at h
  all_goals cases h
  all_goals
    subst operator
    simp [Value.integerOp, Operator.ofText?, holds, hzero, hle, hge, hgt, ← hless, bne]

/-- Whether a register that is tested against itself is zero. -/
theorem zero_ofResult_and_self (n : Int64) :
    (ofResult (n.toUInt64 &&& n.toUInt64) false false).zero = decide (n = 0) := by
  simp only [ofResult, UInt64.and_self, decide_eq_decide]
  exact ⟨congrArg UInt64.toInt64, congrArg Int64.toUInt64⟩

end Flags

/-! ### Truth values -/

/-- A truth value is the word of one or of zero. -/
theorem truthWord_eq (b : Bool) : truthWord b = (if b then 1 else 0 : Int64).toUInt64 := by
  cases b <;> rfl

/-- The low byte of a register that was set to a condition. -/
theorem extended_truthWord (w : Word) (b : Bool) :
    ((w &&& ~~~0xFF) ||| truthWord b) &&& 0xFF = truthWord b := by
  have hmask : (~~~0xFF : Word) &&& 0xFF = 0 := by decide
  have hbit : truthWord b &&& 0xFF = truthWord b := by cases b <;> decide
  have hsplit : ((w &&& ~~~0xFF) ||| truthWord b) &&& 0xFF =
      ((w &&& ~~~0xFF) &&& 0xFF) ||| (truthWord b &&& 0xFF) := by
    apply UInt64.toBitVec_inj.mp
    simp only [UInt64.toBitVec_and, UInt64.toBitVec_or]
    exact BitVec.and_or_distrib_right
  rw [hsplit, UInt64.and_assoc, hmask, hbit, UInt64.and_zero, UInt64.zero_or]

theorem truthWord_and (a b : Bool) : truthWord a &&& truthWord b = truthWord (a && b) := by
  cases a <;> cases b <;> decide

theorem truthWord_or (a b : Bool) : truthWord a ||| truthWord b = truthWord (a || b) := by
  cases a <;> cases b <;> decide

/-! ### Division -/

/-- The quotient is a word, unless the least number is divided by minus one. -/
theorem tdiv_eq_of_fits {a b : Int64} (h : ¬ (b = -1 ∧ a = Int64.minValue)) :
    a.toInt.tdiv b.toInt = (a / b).toInt := by
  by_cases hb : b = -1
  · exact (Int64.toInt_div_of_ne_left a b fun ha => h ⟨hb, ha⟩).symm
  · exact (Int64.toInt_div_of_ne_right a b hb).symm

/-- Dividing a number that was extended with its sign gives the quotient and the remainder. -/
theorem Processor.divide?_of_extended {cpu : Processor} {a b : Int64}
    (hrax : cpu.registers .rax = a.toUInt64)
    (hrdx : cpu.registers .rdx = if Flags.isNegative a.toUInt64 then -1 else 0)
    (hb : b ≠ 0) (h : ¬ (b = -1 ∧ a = Int64.minValue)) :
    cpu.divide? b.toUInt64 =
      some ((cpu.set .rax (a / b).toUInt64).set .rdx (a % b).toUInt64) := by
  have hdividend : (cpu.registers .rdx).toInt64.toInt * 0x10000000000000000 +
      (cpu.registers .rax).toNat = a.toInt := by
    rw [hrax, hrdx, Flags.isNegative_eq]
    have ha := toInt_eq a
    have hlt := a.toUInt64.toNat_lt
    -- The upper word is the sign, so the two words together are the number itself.
    by_cases hneg : a.toInt < 0
    · have hword : (-1 : UInt64).toInt64.toInt = -1 := by decide
      simp only [hneg, decide_true, if_true, hword]
      split at ha <;> omega
    · have hword : (0 : UInt64).toInt64.toInt = 0 := by decide
      simp only [hneg, decide_false, Bool.false_eq_true, if_false, hword]
      split at ha <;> omega
  have hdivisor : b.toInt ≠ 0 := fun hzero => hb (Int64.toInt_inj.mp hzero)
  have hquotient := tdiv_eq_of_fits h
  have hlow := (a / b).le_toInt
  have hhigh := (a / b).toInt_lt
  have hfits : ¬ (b.toInt = 0 ∨ (a / b).toInt < -0x8000000000000000 ∨
      0x8000000000000000 ≤ (a / b).toInt) := by omega
  rw [divide?, hdividend, Int64.toInt64_toUInt64]
  rw [hquotient, if_neg hfits, Int64.ofInt_toInt, ← Int64.toInt_mod, Int64.ofInt_toInt]

end StackMachine.Native
