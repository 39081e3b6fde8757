import Mathlib.Algebra.Order.Field.Rat
import Mathlib.Tactic.Linarith
import Mathlib.Tactic.Positivity
import Mathlib.Tactic.Ring
import StackMachine.Number.Rounding

/-!
# Rounding to the nearest integer

What it means for an integer to be a rational number rounded: it is at most one half away, and even
if it is exactly one half away. Such an integer is nearest to the number, and there is only one.

## Main definitions

* `Number.IsRounded`: an integer is a number rounded.

## Main results

* `Number.IsRounded.unique`: a number is rounded to one integer only.
* `Number.isRounded_roundScaled`: the rounding of the library rounds.
-/

namespace StackMachine.Number

/-- The integer `n` is nearest to `q`, and even if `q` is halfway between two integers. -/
structure IsRounded (q : ℚ) (n : ℤ) : Prop where
  near : |q - n| ≤ 1 / 2
  even : |q - n| = 1 / 2 → Even n

namespace IsRounded

variable {q : ℚ} {m n : ℤ}

/-- Two integers that are both at most one half away are neighbours, with `q` halfway. -/
theorem halfway_of_ne (hn : |q - n| ≤ 1 / 2) (hm : |q - m| ≤ 1 / 2) (hne : m ≠ n) :
    |q - n| = 1 / 2 ∧ (m = n + 1 ∨ m = n - 1) := by
  rw [abs_le] at hn hm
  rcases lt_or_gt_of_ne hne with hlt | hlt
  · have hstep : (m : ℚ) + 1 ≤ n := by exact_mod_cast hlt
    have hhalf : q - n = -(1 / 2) := by linarith
    have hnext : (m : ℚ) = (n - 1 : ℤ) := by push_cast; linarith
    exact ⟨by rw [hhalf, abs_neg, abs_of_pos (by norm_num)], .inr (by exact_mod_cast hnext)⟩
  · have hstep : (n : ℚ) + 1 ≤ m := by exact_mod_cast hlt
    have hhalf : q - n = 1 / 2 := by linarith
    have hnext : (m : ℚ) = (n + 1 : ℤ) := by push_cast; linarith
    exact ⟨by rw [hhalf, abs_of_pos (by norm_num)], .inl (by exact_mod_cast hnext)⟩

/-- No integer is nearer. -/
theorem abs_sub_le (h : IsRounded q n) (m : ℤ) : |q - n| ≤ |q - m| := by
  by_contra hlt
  rw [not_le] at hlt
  have hne : m ≠ n := fun heq => by simp [heq] at hlt
  have hhalf := (halfway_of_ne h.near (hlt.le.trans h.near) hne).1
  obtain ⟨hback, -⟩ := halfway_of_ne (hlt.le.trans h.near) h.near hne.symm
  linarith

/-- An integer that is as near is the same or an odd neighbour of an even one. -/
theorem eq_or_odd (h : IsRounded q n) (hm : |q - m| = |q - n|) : m = n ∨ Even n ∧ Odd m := by
  by_cases heq : m = n
  · exact .inl heq
  · obtain ⟨hhalf, hnext⟩ := halfway_of_ne h.near (hm.trans_le h.near) heq
    have heven := h.even hhalf
    refine .inr ⟨heven, ?_⟩
    rcases hnext with rfl | rfl
    · exact heven.add_one
    · exact heven.sub_odd odd_one

/-- A number is rounded to one integer only. -/
theorem unique (hm : IsRounded q m) (hn : IsRounded q n) : m = n := by
  have hsame : |q - m| = |q - n| := (hm.abs_sub_le n).antisymm (hn.abs_sub_le m)
  rcases hn.eq_or_odd hsame, hm.eq_or_odd hsame.symm with ⟨heq | ⟨-, hodd⟩, heq' | ⟨heven, -⟩⟩
  · exact heq
  · exact heq
  · exact heq'.symm
  · exact absurd heven (Int.not_even_iff_odd.mpr hodd)

/-- The opposite of a number is rounded to the opposite integer. -/
theorem neg (h : IsRounded q n) : IsRounded (-q) (-n) := by
  have hsub : |(-q) - ((-n : ℤ) : ℚ)| = |q - n| := by
    rw [← abs_neg, Int.cast_neg]
    ring_nf
  exact ⟨hsub.trans_le h.near, fun hhalf => (h.even (hsub.symm.trans hhalf)).neg⟩

/-- A sign may be rounded with the number or put in front afterwards. -/
theorem sign_mul (h : IsRounded q n) {sign : ℤ} (hsign : |sign| = 1) :
    IsRounded (sign * q) (sign * n) := by
  rcases (abs_eq zero_le_one).mp hsign with rfl | rfl
  · simpa using h
  · simpa using h.neg

/-- An integer that lies below the number lies below the rounded one. -/
theorem le_of_le (h : IsRounded q n) (hm : (m : ℚ) ≤ q) : m ≤ n := by
  have hnear := (abs_le.mp h.near).2
  have hlt : (m : ℚ) < (n + 1 : ℤ) := by push_cast; linarith
  exact Int.lt_add_one_iff.mp (by exact_mod_cast hlt)

/-- Rounding does not go beyond an integer. -/
theorem ge_of_ge (h : IsRounded q n) (hm : q ≤ m) : n ≤ m := by
  have hneg := h.neg.le_of_le (m := -m) (by push_cast; linarith)
  omega

end IsRounded

/-- Less than one half away is rounded, whatever the parity. -/
theorem isRounded_of_lt {q : ℚ} {n : ℤ} (h : |q - n| < 1 / 2) : IsRounded q n :=
  ⟨h.le, fun hhalf => absurd hhalf h.ne⟩

/-- One half above an integer, the even one of the two neighbours is rounded to. -/
theorem isRounded_of_half {whole : ℕ} {rest : ℚ} (hhalf : rest = 1 / 2) :
    IsRounded (whole + rest) (if whole % 2 = 0 then whole else whole + 1 : ℕ) := by
  subst hhalf
  split
  next heven =>
    refine ⟨abs_le.mpr ?_, fun _ => (Int.even_coe_nat _).mpr (Nat.even_iff.mpr heven)⟩
    constructor <;> push_cast <;> linarith
  next hodd =>
    have heven : Even (whole + 1) := Nat.even_add_one.mpr fun h => hodd (Nat.even_iff.mp h)
    refine ⟨abs_le.mpr ?_, fun _ => (Int.even_coe_nat _).mpr heven⟩
    constructor <;> push_cast <;> linarith

section Halves

variable (num : ℕ) {den : ℕ} (hden : 0 < den)

include hden

/-- A fraction is below one half if twice its numerator is below its denominator. -/
theorem div_lt_half_iff : (num : ℚ) / den < 1 / 2 ↔ 2 * num < den := by
  rw [div_lt_div_iff₀ (by positivity) two_pos, one_mul, mul_comm]
  norm_cast

/-- It is above one half if it is the other way round. -/
theorem half_lt_div_iff : 1 / 2 < (num : ℚ) / den ↔ den < 2 * num := by
  rw [div_lt_div_iff₀ two_pos (by positivity), one_mul, mul_comm]
  norm_cast

end Halves

/-- Rounding a quotient rounds it. -/
theorem isRounded_roundDiv (num : ℕ) {den : ℕ} (hden : 0 < den) :
    IsRounded ((num : ℚ) / den) (roundDiv num den) := by
  have hpos : (0 : ℚ) < den := by exact_mod_cast hden
  -- The quotient is its whole part and a rest, which is compared with one half.
  have hsplit : (num : ℚ) / den = (num / den : ℕ) + (num % den : ℕ) / den := by
    rw [div_eq_iff hpos.ne', add_mul, div_mul_cancel₀ _ hpos.ne', mul_comm]
    exact_mod_cast (Nat.div_add_mod num den).symm
  have hless := div_lt_half_iff (num % den) hden
  have hgreater := half_lt_div_iff (num % den) hden
  have hnonneg : (0 : ℚ) ≤ (num % den : ℕ) / den := by positivity
  have hbelow : ((num % den : ℕ) : ℚ) / den < 1 := by
    rw [div_lt_one hpos]
    exact_mod_cast Nat.mod_lt num hden
  rw [hsplit, roundDiv]
  generalize ((num % den : ℕ) : ℚ) / den = rest at hless hgreater hnonneg hbelow ⊢
  generalize num / den = whole
  rcases lt_trichotomy rest (1 / 2) with hrest | hrest | hrest
  · rw [if_pos (hless.mp hrest)]
    refine isRounded_of_lt (abs_lt.mpr ?_)
    constructor <;> push_cast <;> linarith
  · rw [if_neg (hless.not.mp hrest.not_lt), if_neg (hgreater.not.mp hrest.not_gt)]
    exact isRounded_of_half hrest
  · rw [if_neg (hless.not.mp hrest.not_gt), if_pos (hgreater.mp hrest)]
    refine isRounded_of_lt (abs_lt.mpr ?_)
    constructor <;> push_cast <;> linarith

/-- Rounding a quotient after scaling it rounds what it is scaled to. -/
theorem isRounded_roundScaled (num : ℕ) {den base : ℕ} (hden : 0 < den) (hbase : 0 < base)
    (power : ℤ) :
    IsRounded ((num : ℚ) / den * (base : ℚ) ^ power) (roundScaled num den base power) := by
  cases power with
  | ofNat k =>
    have hvalue : (num : ℚ) / den * (base : ℚ) ^ (Int.ofNat k) =
        ((num * base ^ k : ℕ) : ℚ) / den := by
      rw [Int.ofNat_eq_natCast, zpow_natCast]
      push_cast
      ring
    rw [hvalue]
    exact isRounded_roundDiv _ hden
  | negSucc k =>
    have hvalue : (num : ℚ) / den * (base : ℚ) ^ (Int.negSucc k) =
        (num : ℚ) / ((den * base ^ (k + 1) : ℕ) : ℚ) := by
      rw [zpow_negSucc]
      push_cast
      rw [div_mul_eq_div_div, div_eq_mul_inv (_ / _)]
    rw [hvalue]
    exact isRounded_roundDiv num (Nat.mul_pos hden (Nat.pow_pos hbase))

end StackMachine.Number
