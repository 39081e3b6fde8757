import Mathlib.Tactic.NormNum
import StackMachine.Proofs.Number.Positional
import StackMachine.Proofs.Number.Significant
import StackMachine.Value.Text

/-!
# Printed doubles

A double other than zero is printed with six significant digits. Its exact value is rounded twice:
to six digits, which decides between the two notations, and in positional notation once more, to as
many places as six digits leave. Both roundings give the same decimal, which is the nearest one with
six digits.

## Main definitions

* `Double.value`: the number that the bits of a finite double denote.
* `Double.Printed`: how a decimal with six significant digits is written.

## Main results

* `Double.value_eq_ratio`: the value as the ratio that is rounded.
* `Double.Printed.unique`: a decimal is written in one way only.
* `Double.text_nearest_decimal`: a finite double other than zero is printed as the nearest decimal
  with six significant digits.
-/

namespace StackMachine.Double

open Text Decimal

/-- The number that the bits of a finite double denote. -/
def value (x : Double) : ℚ :=
  (if x.isNegative then -1 else 1) * (x.significand * 2 ^ x.scale)

/-- How a decimal with six significant digits is written. -/
inductive Printed (d : SignificantDecimal 6) : List Char → Prop
  /-- Positionally, if the exponent is neither small nor large. -/
  | positional {cs : List Char} (hlow : -4 ≤ d.exponent) (hhigh : d.exponent < 6)
      (h : Positional cs |d.value|) : Printed d ((if d.digits < 0 then ['-'] else []) ++ cs)
  /-- Otherwise with one digit before the point, and the exponent with its sign and two digits at
  least. -/
  | scientific {cs es : List Char} (hrange : d.exponent < -4 ∨ 6 ≤ d.exponent)
      (hmantissa : Positional cs (|d.digits| / 10 ^ 5)) (hexponent : Digits es d.exponent.natAbs)
      (hpad : IsPadded 2 es) :
      Printed d ((if d.digits < 0 then ['-'] else []) ++ cs ++
        'e' :: (if d.exponent < 0 then '-' else '+') :: es)

/-- A decimal is written in one way only. -/
theorem Printed.unique {d : SignificantDecimal 6} {cs ds : List Char} (hcs : Printed d cs)
    (hds : Printed d ds) : cs = ds := by
  cases hcs with
  | positional hlow hhigh h =>
    cases hds with
    | positional _ _ h' => rw [h.unique h']
    | scientific hrange _ _ _ => omega
  | scientific hrange hmantissa hexponent hpad =>
    cases hds with
    | positional hlow hhigh _ => omega
    | scientific _ hmantissa' hexponent' hpad' =>
      rw [hmantissa.unique hmantissa', hexponent.ext_of_isPadded hexponent' hpad hpad']

/-! ### The exact value -/

variable {x : Double}

/-- Numerator and denominator are the value of a double without its sign. -/
theorem numerator_div_denominator (x : Double) :
    (x.numerator : ℚ) / x.denominator = x.significand * 2 ^ x.scale := by
  have hscale : x.scale = (x.scale.toNat : ℤ) - ((-x.scale).toNat : ℤ) := by omega
  have hnumerator : (x.numerator : ℚ) = x.significand * 2 ^ (x.scale.toNat : ℤ) := by
    rw [numerator, zpow_natCast]
    exact_mod_cast rfl
  have hdenominator : (x.denominator : ℚ) = 2 ^ ((-x.scale).toNat : ℤ) := by
    rw [denominator, zpow_natCast]
    exact_mod_cast rfl
  rw [hnumerator, hdenominator, mul_div_assoc, ← zpow_sub₀ (by norm_num), ← hscale]

/-- The value of a double as the ratio that is rounded, with its sign. -/
theorem value_eq_ratio (x : Double) :
    x.value = (if x.isNegative then -1 else 1 : ℤ) * ((x.numerator : ℚ) / x.denominator) := by
  rw [numerator_div_denominator, value]
  split <;> simp

/-- A double other than zero has a value other than zero. -/
theorem numerator_pos (h : x.isZero = false) : 0 < x.numerator := by
  have hmagnitude : x.magnitude ≠ 0 := by simpa [isZero] using h
  have hsignificand : 0 < x.significand := by
    simp only [significand]
    split
    next hfield =>
      -- With an empty exponent the magnitude is the fraction.
      have hsplit := Nat.div_add_mod x.magnitude exponentWeight
      rw [exponentField] at hfield
      rw [hfield] at hsplit
      omega
    next => exact Nat.lt_of_lt_of_le (by decide : 0 < exponentWeight) (Nat.le_add_left _ _)
  exact Nat.mul_pos hsignificand (Nat.pow_pos (by decide))

theorem denominator_pos (x : Double) : 0 < x.denominator := Nat.pow_pos (by decide)

/-! ### The text -/

/-- A sign holds no point. -/
theorem point_not_mem_signText (x : Double) : '.' ∉ x.signText := by
  rw [signText]
  split <;> decide

section General

variable {d : SignificantDecimal 6} {digits : ℕ}
  (hdigits : d.digits = (if x.isNegative then -1 else 1) * (digits : ℤ))

include hdigits

/-- The digits of the rounded value are those of the magnitude. -/
theorem abs_digits : |d.digits| = digits := by
  rw [hdigits, abs_mul, Nat.abs_cast]
  split <;> simp

/-- The sign of the rounded value is that of the double. -/
theorem signText_eq : x.signText = if d.digits < 0 then ['-'] else [] := by
  have hpos : 0 < (digits : ℤ) := by
    rw [← abs_digits hdigits]
    exact lt_of_lt_of_le (by norm_num) d.lower
  rw [signText, hdigits]
  split
  · rw [if_pos (by omega)]
  · rw [if_neg (by omega)]

/-- In the general form a double is written as the decimal that it is rounded to. -/
theorem printed_general
    (hsignificant : significant 6 x.numerator x.denominator = (digits, d.exponent))
    (hagain : Number.roundScaled x.numerator x.denominator 10 (5 - d.exponent) = digits) :
    Printed d (x.general printed) := by
  have hgeneral : x.general printed =
      if d.exponent < -4 ∨ 6 ≤ d.exponent then
        x.signText ++ trimFraction (pointed 5 digits) ++ 'e' ::
          (if d.exponent < 0 then '-' else '+') ::
            padLeft '0' 2 (Nat.toDigits 10 d.exponent.natAbs)
      else trimFraction (x.fixed (5 - d.exponent).toNat) := by
    rw [general]
    simp only [printed, hsignificant]
    rfl
  rw [hgeneral]
  split
  next hrange =>
    obtain ⟨cs, htext, hcs⟩ := exists_positional (List.not_mem_nil : '.' ∉ []) 5 digits
    rw [List.nil_append, List.nil_append] at htext
    rw [htext, signText_eq hdigits]
    refine .scientific hrange ?_ ((digits_toDigits _).padLeft 2)
      (isPadded_padLeft (by decide) _)
    rwa [← Int.cast_natCast, ← abs_digits hdigits] at hcs
  next hrange =>
    have hplaces : (((5 - d.exponent).toNat : ℕ) : ℤ) = 5 - d.exponent := by omega
    obtain ⟨cs, htext, hcs⟩ := exists_positional (point_not_mem_signText x)
      (5 - d.exponent).toNat digits
    rw [fixed, hplaces, hagain, htext, signText_eq hdigits]
    refine .positional (by omega) (by omega) ?_
    -- Dividing by the places is scaling by the exponent of the last digit.
    have hvalue : |d.value| = (digits : ℚ) / 10 ^ (5 - d.exponent).toNat := by
      rw [d.abs_value, abs_digits hdigits, Int.cast_natCast, ← zpow_natCast, hplaces,
        div_eq_mul_inv, ← zpow_neg, neg_sub]
      norm_num
    rwa [hvalue]

end General

/-- A finite double other than zero is printed as the decimal with six significant digits that is
nearest to its exact value, of two that are equally near the one with an even last digit. There is
only one such decimal, and only one way to write it: positionally if its exponent is from `-4` to
`5` and with an exponent of at least two digits otherwise, without zeros at the end of the fraction
and without a point that no digit follows. Both roundings, the one to six digits and the one to as
many places as these leave, give this decimal. -/
theorem text_nearest_decimal {x : Double} (hnan : x.isNaN = false)
    (hinfinite : x.isInfinite = false) (hzero : x.isZero = false) :
    ∃ d : SignificantDecimal 6,
      d.IsNearest x.value ∧ (∀ other : SignificantDecimal 6, other.IsNearest x.value → other = d) ∧
      (∀ text : String, Printed d text.toList ↔ text = x.text) ∧
      significant 6 x.numerator x.denominator = (d.digits.natAbs, d.exponent) ∧
      Number.roundScaled x.numerator x.denominator 10 (5 - d.exponent) = d.digits.natAbs := by
  have hsign : |(if x.isNegative then -1 else 1 : ℤ)| = 1 := by split <;> rfl
  obtain ⟨d, hdigits, hexponent, hnearest, hunique⟩ := exists_isNearest hsign x.value_eq_ratio
    (by decide : 2 ≤ 6) (numerator_pos hzero) x.denominator_pos
  -- The digits have the sign of the double, and what is rounded has none.
  have habs : d.digits.natAbs = (significant 6 x.numerator x.denominator).1 := by
    have hcast := abs_digits hdigits
    rw [Int.abs_eq_natAbs] at hcast
    exact_mod_cast hcast
  have hsignificant : significant 6 x.numerator x.denominator = (d.digits.natAbs, d.exponent) := by
    rw [habs, hexponent]
  have hagain : Number.roundScaled x.numerator x.denominator 10 (5 - d.exponent) =
      d.digits.natAbs := by
    rw [habs, hexponent]
    exact roundScaled_exponent (by decide : 0 < 6) (numerator_pos hzero) x.denominator_pos
  have hprinted : Printed d x.text.toList := by
    rw [text, hnan, hinfinite, hzero]
    simp only [Bool.false_eq_true, if_false, String.toList_ofList]
    rw [← habs] at hdigits
    exact printed_general hdigits hsignificant hagain
  refine ⟨d, hnearest, hunique, fun text => ⟨fun htext => ?_, ?_⟩, hsignificant, hagain⟩
  · exact String.toList_inj.mp (htext.unique hprinted)
  · rintro rfl
    exact hprinted

/-- The double halfway between `999999` and a million. -/
def belowMillion : Double := ⟨0x412E847F00000000⟩

/-- The largest double below a million is rounded up and changes its notation. -/
theorem text_nearest_decimal_belowMillion :
    belowMillion.isNaN = false ∧ belowMillion.isInfinite = false ∧ belowMillion.isZero = false ∧
      belowMillion.text = "1e+06" ∧
      ∃ d : SignificantDecimal 6, d.IsNearest belowMillion.value ∧ d.exponent = 6 ∧
        Printed d "1e+06".toList := by
  have hnan : belowMillion.isNaN = false := by decide +kernel
  have hinfinite : belowMillion.isInfinite = false := by decide +kernel
  have hzero : belowMillion.isZero = false := by decide +kernel
  have htext : belowMillion.text = "1e+06" := by decide +kernel
  have hsignificant : significant 6 belowMillion.numerator belowMillion.denominator =
      (100000, 6) := by decide +kernel
  obtain ⟨d, hnearest, -, hprinted, hsame, -⟩ := text_nearest_decimal hnan hinfinite hzero
  have hexponent : d.exponent = 6 := congrArg Prod.snd (hsame.symm.trans hsignificant)
  exact ⟨hnan, hinfinite, hzero, htext, d, hnearest, hexponent, (hprinted _).mpr htext.symm⟩

end StackMachine.Double
