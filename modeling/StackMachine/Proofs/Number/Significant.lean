import Mathlib.Tactic.Linarith
import Mathlib.Tactic.Positivity
import StackMachine.Number.Significant
import StackMachine.Proofs.Number.Rounding

/-!
# Decimals with a number of significant digits

Rounding to significant digits chooses the exponent first and rounds the digits then, which may
carry into a new power of ten. Whether it carries or not, the result is the nearest of all decimals
with so many digits, whatever their exponents, and of two that are equally near the one with even
digits.

## Main definitions

* `SignificantDecimal`: a decimal with a number of significant digits.
* `SignificantDecimal.IsNearest`: it is nearest to a number, ties to even digits.

## Main results

* `Decimal.exponentOf_spec`: the decimal exponent of a quotient.
* `SignificantDecimal.ext_value`: such a decimal is determined by its value.
* `Decimal.exists_isNearest`: rounding to significant digits gives the nearest decimal, and there is
  only one.
* `Decimal.roundScaled_exponent`: rounding once more with the resulting exponent gives the same
  digits.
-/

namespace StackMachine

/-- A decimal other than zero with `count` significant digits. -/
structure SignificantDecimal (count : ℕ) where
  /-- The digits as one integer, with the sign of the decimal. -/
  digits : ℤ
  /-- The power of ten that the first digit counts. -/
  exponent : ℤ
  /-- The first digit is not zero. -/
  lower : 10 ^ (count - 1) ≤ |digits|
  /-- There are no more digits. -/
  upper : |digits| < 10 ^ count

namespace SignificantDecimal

variable {count : ℕ} {d other : SignificantDecimal count} {q : ℚ}

/-- The number that a decimal denotes. -/
def value (d : SignificantDecimal count) : ℚ :=
  d.digits * 10 ^ (d.exponent - ((count : ℤ) - 1))

/-- No decimal with so many digits is nearer to `q`, and if another one is equally near the digits
are even. -/
def IsNearest (d : SignificantDecimal count) (q : ℚ) : Prop :=
  ∀ other : SignificantDecimal count, |q - d.value| ≤ |q - other.value| ∧
    (|q - other.value| = |q - d.value| → other = d ∨ Even d.digits)

/-! ### Values -/

/-- The weight of the last digit in a decimal with the exponent `e`. -/
def unit (count : ℕ) (e : ℤ) : ℚ := 10 ^ (e - ((count : ℤ) - 1))

theorem unit_pos (count : ℕ) (e : ℤ) : 0 < unit count e := zpow_pos (by norm_num) _

theorem pow_mul_unit (k : ℕ) (e : ℤ) :
    (10 : ℚ) ^ k * unit count e = 10 ^ (e + k - ((count : ℤ) - 1)) := by
  rw [unit, ← zpow_natCast, ← zpow_add₀ (by norm_num), add_comm (k : ℤ), sub_add_eq_add_sub]

/-- The least digits that a decimal can have. -/
theorem pow_pred_mul_unit (hcount : 0 < count) (e : ℤ) :
    (10 : ℚ) ^ (count - 1) * unit count e = 10 ^ e := by
  rw [pow_mul_unit, Nat.cast_pred hcount, add_sub_cancel_right]

/-- One more than the greatest digits that a decimal can have. -/
theorem pow_count_mul_unit (e : ℤ) : (10 : ℚ) ^ count * unit count e = 10 ^ (e + 1) := by
  rw [pow_mul_unit]
  congr 1
  ring

/-- The magnitude of a decimal is that of its digits, scaled. -/
theorem abs_value (d : SignificantDecimal count) :
    |d.value| = |d.digits| * 10 ^ (d.exponent - ((count : ℤ) - 1)) := by
  rw [value, abs_mul, abs_of_pos (zpow_pos (by norm_num : (0 : ℚ) < 10) _), Int.cast_abs]

/-- A decimal has at least one digit. -/
theorem count_pos (d : SignificantDecimal count) : 0 < count := by
  by_contra hzero
  obtain rfl : count = 0 := by omega
  have hlower := d.lower
  have hupper := d.upper
  simp only [Nat.zero_sub, pow_zero] at hlower hupper
  omega

/-- A decimal is at least the power of ten of its first digit. -/
theorem le_abs_value (d : SignificantDecimal count) : 10 ^ d.exponent ≤ |d.value| := by
  have hlower : (10 : ℚ) ^ (count - 1) ≤ (|d.digits| : ℤ) := by exact_mod_cast d.lower
  rw [abs_value, ← pow_pred_mul_unit d.count_pos]
  exact mul_le_mul_of_nonneg_right hlower (unit_pos count d.exponent).le

/-- It is below the next power. -/
theorem abs_value_lt (d : SignificantDecimal count) : |d.value| < 10 ^ (d.exponent + 1) := by
  have hupper : ((|d.digits| : ℤ) : ℚ) < 10 ^ count := by exact_mod_cast d.upper
  rw [abs_value, ← pow_count_mul_unit]
  exact mul_lt_mul_of_pos_right hupper (unit_pos count d.exponent)

/-- A decimal with so many digits is determined by its value. -/
theorem ext_value (h : d.value = other.value) : d = other := by
  have hlt {e f : ℤ} (h : (10 : ℚ) ^ e < 10 ^ (f + 1)) : e ≤ f :=
    Int.lt_add_one_iff.mp ((zpow_lt_zpow_iff_right₀ (by norm_num)).mp h)
  have hexponent : d.exponent = other.exponent := by
    apply le_antisymm
    · exact hlt (d.le_abs_value.trans_lt (h ▸ other.abs_value_lt))
    · exact hlt (other.le_abs_value.trans_lt (h ▸ d.abs_value_lt))
  have hdigits : d.digits = other.digits := by
    rw [value, value, hexponent] at h
    exact_mod_cast mul_right_cancel₀ (zpow_pos (by norm_num) _).ne' h
  cases d
  cases other
  simp_all

/-! ### The nearest decimal

The digits of a number of decimal exponent `e` are counted in units of `10 ^ (e - (count - 1))`.
Decimals with this or a greater exponent are whole multiples of the unit, and decimals with a
smaller one are farther away than `10 ^ e` is. -/

/-- A decimal with a greater exponent is a whole multiple of the unit, even if its digits are. -/
theorem exists_multiple {e : ℤ} (h : e ≤ d.exponent) :
    ∃ n : ℤ, d.value = n * unit count e ∧ (Even d.digits → Even n) := by
  obtain ⟨k, hk⟩ := Int.le.dest h
  refine ⟨d.digits * 10 ^ k, ?_, fun heven => heven.mul_right _⟩
  rw [value, unit, ← hk]
  push_cast
  rw [mul_assoc, ← zpow_natCast, ← zpow_add₀ (by norm_num)]
  congr 2
  omega

/-- Distances to multiples of a unit are measured in that unit. -/
theorem abs_sub_multiple {n : ℤ} {e : ℤ} :
    |q - n * unit count e| = |q / unit count e - n| * unit count e := by
  have hpos := unit_pos count e
  rw [← abs_of_pos hpos, ← abs_mul, sub_mul, abs_of_pos hpos, div_mul_cancel₀ _ hpos.ne']

/-- A decimal with a smaller exponent is farther away than the power of ten below the number. -/
theorem lt_abs_sub {e : ℤ} (h : d.exponent < e) : |q| - 10 ^ e < |q - d.value| := by
  have hvalue : |d.value| < 10 ^ e :=
    d.abs_value_lt.trans_le (zpow_le_zpow_right₀ (by norm_num) (by omega))
  linarith [abs_sub_abs_le_abs_sub q d.value]

/-- A multiple of the unit that the number is rounded to is nearer than all decimals with a smaller
exponent. -/
theorem abs_sub_lt_of_exponent_lt {e n : ℤ} (hcount : 0 < count) (he : 10 ^ e ≤ |q|)
    (hn : Number.IsRounded (q / unit count e) n) (h : d.exponent < e) :
    |q - n * unit count e| < |q - d.value| := by
  refine lt_of_le_of_lt ?_ (lt_abs_sub h)
  -- The power of ten below the number, with its sign, is a multiple of the unit.
  obtain ⟨power, hpower⟩ : ∃ power : ℤ, |q| - 10 ^ e = |q - power * unit count e| := by
    have hunit : ((10 ^ (count - 1) : ℤ) : ℚ) * unit count e = 10 ^ e := by
      exact_mod_cast pow_pred_mul_unit hcount e
    rcases le_or_gt 0 q with hq | hq
    · rw [abs_of_nonneg hq] at he ⊢
      exact ⟨10 ^ (count - 1), by rw [hunit, abs_of_nonneg (by linarith)]⟩
    · rw [abs_of_neg hq] at he ⊢
      refine ⟨-10 ^ (count - 1), ?_⟩
      rw [Int.cast_neg, neg_mul, hunit, abs_of_nonpos (by linarith)]
      ring
  rw [hpower, abs_sub_multiple, abs_sub_multiple]
  exact mul_le_mul_of_nonneg_right (hn.abs_sub_le power) (unit_pos count e).le

/-- The decimal with a sign, digits and an exponent. -/
def signed {sign : ℤ} (hsign : |sign| = 1) {n : ℕ} (hlow : 10 ^ (count - 1) ≤ n)
    (hhigh : n < 10 ^ count) (e : ℤ) : SignificantDecimal count where
  digits := sign * n
  exponent := e
  lower := by
    rw [abs_mul, hsign, one_mul, Nat.abs_cast]
    exact_mod_cast hlow
  upper := by
    rw [abs_mul, hsign, one_mul, Nat.abs_cast]
    exact_mod_cast hhigh

section Rounded

variable {e n : ℤ} (he : 10 ^ e ≤ |q|) (hn : Number.IsRounded (q / unit count e) n)
  (hd : d.value = n * unit count e)

include he hn hd

/-- A decimal that is equally near is the same, or the number was rounded to an even multiple of the
unit and the other one is an odd multiple. -/
theorem eq_or_odd_multiple (hsame : |q - other.value| = |q - d.value|) :
    other = d ∨ Even n ∧ ∃ m : ℤ, other.value = m * unit count e ∧ Odd m ∧
      (Even other.digits → Even m) := by
  rcases lt_or_ge other.exponent e with hless | hge
  · have hfar := abs_sub_lt_of_exponent_lt d.count_pos he hn hless
    rw [← hd, hsame] at hfar
    exact absurd hfar (lt_irrefl _)
  · obtain ⟨m, hm, heven⟩ := exists_multiple hge
    rw [hm, hd, abs_sub_multiple, abs_sub_multiple] at hsame
    rcases hn.eq_or_odd (mul_right_cancel₀ (unit_pos count e).ne' hsame) with rfl | ⟨hn, hodd⟩
    · exact .inl (ext_value (hm.trans hd.symm))
    · exact .inr ⟨hn, m, hm, hodd, heven⟩

/-- A decimal that the number is rounded to in units of its last digit is the nearest one. -/
theorem isNearest_of_isRounded (heven : Even n → Even d.digits) : d.IsNearest q := by
  intro other
  constructor
  · rcases lt_or_ge other.exponent e with hless | hge
    · rw [hd]
      exact (abs_sub_lt_of_exponent_lt d.count_pos he hn hless).le
    · obtain ⟨m, hm, -⟩ := exists_multiple hge
      rw [hm, hd, abs_sub_multiple, abs_sub_multiple]
      exact mul_le_mul_of_nonneg_right (hn.abs_sub_le m) (unit_pos count e).le
  · intro hsame
    exact (eq_or_odd_multiple he hn hd hsame).imp_right fun hmultiple => heven hmultiple.1

/-- No other decimal is nearest. -/
theorem eq_of_isNearest (heven : Even n → Even d.digits) (hother : other.IsNearest q) :
    other = d := by
  have hnearest := isNearest_of_isRounded he hn hd heven
  have hsame : |q - other.value| = |q - d.value| := (hother d).1.antisymm (hnearest other).1
  rcases eq_or_odd_multiple he hn hd hsame with heq | ⟨-, m, -, hodd, hdigits⟩
  · exact heq
  · rcases (hother d).2 hsame.symm with heq | hevenOther
    · exact heq.symm
    · exact absurd (hdigits hevenOther) (Int.not_even_iff_odd.mpr hodd)

end Rounded

end SignificantDecimal

namespace Decimal

variable {count num den : ℕ}

/-- A positive number lies between two powers of ten, which its digits tell. -/
theorem digitCount_spec {n : ℕ} (hn : 0 < n) :
    10 ^ (digitCount n - 1) ≤ n ∧ n < 10 ^ digitCount n ∧ 0 < digitCount n := by
  have hpos : 0 < digitCount n := Nat.length_toDigits_pos
  refine ⟨?_, (Nat.length_toDigits_le_iff (by decide) hpos).mp le_rfl, hpos⟩
  by_contra hlt
  rw [not_le] at hlt
  rcases Nat.eq_zero_or_pos (digitCount n - 1) with hzero | hmore
  · rw [hzero, pow_zero] at hlt
    omega
  · have hle : digitCount n ≤ digitCount n - 1 :=
      (Nat.length_toDigits_le_iff (by decide) hmore).mpr hlt
    omega

/-- The whole part of a quotient lies between the same powers of ten as the quotient. -/
theorem div_bounds (hden : 0 < den) (hle : den ≤ num) :
    (10 : ℚ) ^ ((digitCount (num / den) : ℤ) - 1) ≤ (num : ℚ) / den ∧
      (num : ℚ) / den < 10 ^ (digitCount (num / den) : ℤ) := by
  have hpos : (0 : ℚ) < den := by exact_mod_cast hden
  obtain ⟨hlow, hhigh, hcount⟩ := digitCount_spec (Nat.div_pos hle hden)
  rw [← Nat.cast_pred hcount, zpow_natCast, zpow_natCast, le_div_iff₀ hpos, div_lt_iff₀ hpos]
  constructor
  · exact_mod_cast (Nat.le_div_iff_mul_le hden).mp hlow
  · exact_mod_cast (Nat.div_lt_iff_lt_mul hden).mp hhigh

/-- The decimal exponent of a quotient. -/
theorem exponentOf_spec (hnum : 0 < num) (hden : 0 < den) :
    (10 : ℚ) ^ exponentOf num den ≤ (num : ℚ) / den ∧
      (num : ℚ) / den < 10 ^ (exponentOf num den + 1) := by
  rw [exponentOf]
  split
  next hle =>
    rw [sub_add_cancel]
    exact div_bounds hden hle
  next hless =>
    -- The reciprocal is at least one, and reciprocals of its bounds are bounds in reverse order.
    obtain ⟨hlow, hhigh⟩ := div_bounds hnum (Nat.le_of_not_le hless)
    have hpos : (0 : ℚ) < (den : ℚ) / num := by positivity
    have hten {e : ℤ} : (0 : ℚ) < 10 ^ e := zpow_pos (by norm_num) e
    rw [← inv_div (den : ℚ)]
    dsimp only
    split
    next hpower =>
      obtain ⟨-, -, hcount⟩ := digitCount_spec (Nat.div_pos (Nat.le_of_not_le hless) hnum)
      have hexact : (den : ℚ) / num = 10 ^ ((digitCount (den / num) : ℤ) - 1) := by
        rw [← Nat.cast_pred hcount, zpow_natCast, div_eq_iff (by positivity), mul_comm]
        exact_mod_cast hpower
      rw [hexact, ← zpow_neg, neg_sub]
      exact ⟨le_rfl, zpow_lt_zpow_right₀ (by norm_num) (by omega)⟩
    next hpower =>
      obtain ⟨-, -, hcount⟩ := digitCount_spec (Nat.div_pos (Nat.le_of_not_le hless) hnum)
      have hstrict : (10 : ℚ) ^ ((digitCount (den / num) : ℤ) - 1) < (den : ℚ) / num := by
        refine lt_of_le_of_ne hlow fun heq => hpower ?_
        rw [← Nat.cast_pred hcount, zpow_natCast, eq_div_iff (by positivity), mul_comm] at heq
        exact_mod_cast heq.symm
      rw [zpow_neg, neg_add_eq_sub, ← neg_sub, zpow_neg]
      exact ⟨inv_anti₀ hpos hhigh.le, inv_strictAnti₀ hten hstrict⟩

/-- The digits before a carry is taken into account. -/
theorem roundScaled_bounds (hcount : 0 < count) (hnum : 0 < num) (hden : 0 < den) :
    10 ^ (count - 1) ≤ Number.roundScaled num den 10 (count - 1 - exponentOf num den) ∧
      Number.roundScaled num den 10 (count - 1 - exponentOf num den) ≤ 10 ^ count := by
  obtain ⟨hlow, hhigh⟩ := exponentOf_spec hnum hden
  have hrounded := Number.isRounded_roundScaled num hden (by decide : 0 < 10)
    (count - 1 - exponentOf num den)
  have hten {e : ℤ} : (0 : ℚ) < 10 ^ e := zpow_pos (by norm_num) e
  generalize exponentOf num den = e at hlow hhigh hrounded ⊢
  constructor
  · have hle : ((10 ^ (count - 1) : ℕ) : ℤ) ≤ Number.roundScaled num den 10 (count - 1 - e) := by
      refine hrounded.le_of_le ?_
      calc (((10 ^ (count - 1) : ℕ) : ℤ) : ℚ) = 10 ^ e * 10 ^ ((count : ℤ) - 1 - e) := by
            rw [← zpow_add₀ (by norm_num), add_sub_cancel, ← Nat.cast_pred hcount, zpow_natCast]
            push_cast
            rfl
        _ ≤ _ := mul_le_mul_of_nonneg_right hlow hten.le
    exact_mod_cast hle
  · have hge : (Number.roundScaled num den 10 (count - 1 - e) : ℤ) ≤ ((10 ^ count : ℕ) : ℤ) := by
      refine hrounded.ge_of_ge ?_
      calc _ ≤ (10 : ℚ) ^ (e + 1) * 10 ^ ((count : ℤ) - 1 - e) :=
            mul_le_mul_of_nonneg_right hhigh.le hten.le
        _ = _ := by
            have hsum : e + 1 + ((count : ℤ) - 1 - e) = count := by ring
            rw [← zpow_add₀ (by norm_num), hsum, zpow_natCast]
            push_cast
            rfl
    exact_mod_cast hge

/-- Rounding to significant digits keeps the exponent, or carries into the next power of ten. -/
theorem significant_cases (hcount : 0 < count) (hnum : 0 < num) (hden : 0 < den) :
    let e := exponentOf num den
    let rounded := Number.roundScaled num den 10 (count - 1 - e)
    significant count num den = (rounded, e) ∧ 10 ^ (count - 1) ≤ rounded ∧ rounded < 10 ^ count ∨
      significant count num den = (10 ^ (count - 1), e + 1) ∧ rounded = 10 ^ count := by
  intro e rounded
  obtain ⟨hlow, hhigh⟩ := roundScaled_bounds hcount hnum hden
  by_cases hless : rounded < 10 ^ count
  · exact .inl ⟨if_pos hless, hlow, hless⟩
  · have hcarry : rounded = 10 ^ count := le_antisymm hhigh (not_lt.mp hless)
    refine .inr ⟨?_, hcarry⟩
    have hdigits : rounded / 10 = 10 ^ (count - 1) := by
      rw [hcarry, ← Nat.pow_div hcount (by decide), pow_one]
    rw [← hdigits]
    exact if_neg hless

section Nearest

open SignificantDecimal

variable {q : ℚ} {sign : ℤ} (hsign : |sign| = 1) (hq : q = sign * (num / den))

include hsign hq

theorem pow_exponentOf_le_abs (hnum : 0 < num) (hden : 0 < den) :
    (10 : ℚ) ^ exponentOf num den ≤ |q| := by
  have hcast : |(sign : ℚ)| = 1 := by exact_mod_cast hsign
  rw [hq, abs_mul, hcast, one_mul, abs_of_nonneg (by positivity)]
  exact (exponentOf_spec hnum hden).1

/-- In units of the last digit, a signed number is rounded as its quotient is. -/
theorem isRounded_div_unit (hden : 0 < den) (e : ℤ) :
    Number.IsRounded (q / unit count e) (sign * Number.roundScaled num den 10 (count - 1 - e)) := by
  have hscaled : q / unit count e =
      sign * ((num : ℚ) / den * ((10 : ℕ) : ℚ) ^ ((count : ℤ) - 1 - e)) := by
    rw [hq, unit, div_eq_mul_inv, ← zpow_neg, neg_sub, mul_assoc]
    rfl
  rw [hscaled]
  exact (Number.isRounded_roundScaled num hden (by decide) _).sign_mul hsign

/-- Rounding to significant digits gives the nearest decimal with so many digits, and there is only
one. -/
theorem exists_isNearest (hcount : 2 ≤ count) (hnum : 0 < num) (hden : 0 < den) :
    ∃ d : SignificantDecimal count, d.digits = sign * (significant count num den).1 ∧
      d.exponent = (significant count num den).2 ∧ d.IsNearest q ∧
      ∀ other : SignificantDecimal count, other.IsNearest q → other = d := by
  have habs := pow_exponentOf_le_abs hsign hq hnum hden
  have hrounded : Number.IsRounded (q / unit count (exponentOf num den)) _ :=
    isRounded_div_unit hsign hq hden (exponentOf num den)
  have hnearest {d : SignificantDecimal count}
      (hd : d.value = (sign * Number.roundScaled num den 10 (count - 1 - exponentOf num den) : ℤ) *
        unit count (exponentOf num den))
      (heven : Even (sign * Number.roundScaled num den 10 (count - 1 - exponentOf num den)) →
        Even d.digits) :
      d.IsNearest q ∧ ∀ other : SignificantDecimal count, other.IsNearest q → other = d :=
    ⟨isNearest_of_isRounded habs hrounded hd heven,
      fun _ hother => eq_of_isNearest habs hrounded hd heven hother⟩
  rcases significant_cases (by omega : 0 < count) hnum hden with
    ⟨heq, hlow, hhigh⟩ | ⟨heq, hcarry⟩
  · rw [heq]
    exact ⟨signed hsign hlow hhigh _, rfl, rfl, hnearest rfl id⟩
  · have hlt : 10 ^ (count - 1) < 10 ^ count := Nat.pow_lt_pow_right (by decide) (by omega)
    -- The digits after a carry are a one with zeros behind it.
    have heven : Even (sign * (10 ^ (count - 1) : ℕ)) := by
      have hten : Even (10 ^ (count - 1)) := Nat.even_pow.mpr ⟨by decide, by omega⟩
      exact ((Int.even_coe_nat _).mpr hten).mul_left sign
    rw [heq]
    refine ⟨signed hsign le_rfl hlt _, rfl, rfl, hnearest ?_ fun _ => heven⟩
    change ((sign * (10 ^ (count - 1) : ℕ) : ℤ) : ℚ) * unit count (exponentOf num den + 1) = _
    rw [hcarry]
    push_cast
    rw [mul_assoc, mul_assoc, pow_pred_mul_unit (by omega), pow_count_mul_unit]

end Nearest

/-- Rounding once more, with the exponent that rounding to significant digits gave, gives the same
digits: where it carried, the number is next to the power of ten in the larger units as well. -/
theorem roundScaled_exponent (hcount : 0 < count) (hnum : 0 < num) (hden : 0 < den) :
    Number.roundScaled num den 10 (count - 1 - (significant count num den).2) =
      (significant count num den).1 := by
  rcases significant_cases hcount hnum hden with ⟨heq, -, -⟩ | ⟨heq, hcarry⟩
  · rw [heq]
  · rw [heq]
    have hfine := Number.isRounded_roundScaled num hden (by decide : 0 < 10)
      (count - 1 - exponentOf num den)
    have hcoarse := Number.isRounded_roundScaled num hden (by decide : 0 < 10)
      (count - 1 - (exponentOf num den + 1))
    rw [hcarry] at hfine
    have hunits : (num : ℚ) / den * ((10 : ℕ) : ℚ) ^ ((count : ℤ) - 1 - (exponentOf num den + 1)) =
        (num : ℚ) / den * ((10 : ℕ) : ℚ) ^ ((count : ℤ) - 1 - exponentOf num den) / 10 := by
      rw [← sub_sub, zpow_sub_one₀ (by norm_num)]
      push_cast
      ring
    have hpower : Number.IsRounded
        ((num : ℚ) / den * ((10 : ℕ) : ℚ) ^ ((count : ℤ) - 1 - (exponentOf num den + 1)))
        ((10 ^ (count - 1) : ℕ) : ℤ) := by
      have hten : ((10 ^ count : ℕ) : ℚ) = 10 * (10 ^ (count - 1) : ℕ) := by
        exact_mod_cast (mul_pow_sub_one hcount.ne' 10).symm
      have hnear := abs_le.mp hfine.near
      rw [Int.cast_natCast, hten] at hnear
      refine Number.isRounded_of_lt (abs_lt.mpr ?_)
      rw [hunits, Int.cast_natCast]
      constructor <;> linarith
    exact_mod_cast hcoarse.unique hpower

end Decimal

end StackMachine
