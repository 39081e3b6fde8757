import Mathlib.Algebra.Order.Field.Rat
import Mathlib.Data.List.DropRight
import Mathlib.Tactic.Linarith
import Mathlib.Tactic.Positivity
import Mathlib.Tactic.Ring
import StackMachine.Number.Significant
import StackMachine.Proofs.Text.Blank
import StackMachine.Proofs.Text.Numeral

/-!
# Positional notation

The notation for a number with digits before and behind a point. There is no superfluous zero in
front of it and none at its end, and no point without digits behind it, so a number that has a
positional notation has only one.

## Main definitions

* `Text.IsPadded`: a run of digits with no more zeros in front than a width asks for.
* `Decimal.Positional`: a text is the positional notation of a number.

## Main results

* `Text.Digits.ext_of_isPadded`, `Decimal.Positional.unique`: both are determined by the number.
* `Decimal.exists_positional`: what is left of a decimal with a fixed number of places, when the
  zeros at its end are dropped.
-/

namespace StackMachine

namespace Text

variable {cs ds : List Char} {n width : ℕ}

/-! ### Digits that are padded -/

/-- There are `width` characters at least, and a zero in front only if there are no more. -/
structure IsPadded (width : ℕ) (cs : List Char) : Prop where
  width_le : width ≤ cs.length
  head_ne : width < cs.length → cs.head? ≠ some '0'

theorem digits_replicate_zero (k : ℕ) : Digits (List.replicate k '0') 0 where
  isDigit c hc := by rw [List.eq_of_mem_replicate hc]; decide
  value := by rw [Nat.ofDigitChars_replicate_zero, Nat.mul_zero]

/-- Zeros in front do not change the value. -/
theorem Digits.padLeft (h : Digits cs n) (width : ℕ) : Digits (padLeft '0' width cs) n := by
  have happend := (digits_replicate_zero (width - cs.length)).append h
  rwa [Nat.mul_zero, Nat.zero_add] at happend

theorem length_padLeft (c : Char) (width : ℕ) (cs : List Char) :
    (Text.padLeft c width cs).length = max width cs.length := by
  rw [Text.padLeft, List.length_append, List.length_replicate]
  omega

/-- A number other than zero is not written with a zero in front. -/
theorem head?_toDigits_ne (hn : 0 < n) : (Nat.toDigits 10 n).head? ≠ some '0' := by
  induction n using Nat.strong_induction_on with
  | _ n ih =>
    rw [Nat.toDigits_eq_if (by decide)]
    split
    next hless =>
      rw [List.head?_cons, ne_eq, Option.some.injEq, Nat.digitChar_eq_zero]
      omega
    next hmore =>
      rw [List.head?_append_of_ne_nil _ Nat.toDigits_ne_nil]
      exact ih (n / 10) (by omega) (by omega)

/-- Digits that are filled up to a width have only the zeros that the width asks for. -/
theorem isPadded_padLeft (hwidth : 1 ≤ width) (n : ℕ) :
    IsPadded width (Text.padLeft '0' width (Nat.toDigits 10 n)) where
  width_le := by rw [length_padLeft]; exact le_max_left _ _
  head_ne hlt := by
    rw [length_padLeft] at hlt
    have hlength : width < (Nat.toDigits 10 n).length := by omega
    -- With more digits than one, the number is not zero.
    have hn : 0 < n := by
      by_contra hzero
      obtain rfl : n = 0 := by omega
      rw [Nat.toDigits_zero, List.length_singleton] at hlength
      omega
    rw [Text.padLeft, Nat.sub_eq_zero_of_le hlength.le]
    exact head?_toDigits_ne hn

/-- The digits before the point have only the zeros that are left for them. -/
theorem IsPadded.take (h : IsPadded (n + width) cs) (hwidth : 1 ≤ width) :
    IsPadded width (cs.take (cs.length - n)) := by
  have hle := h.width_le
  constructor
  · rw [List.length_take]
    omega
  · intro hlt
    rw [List.length_take] at hlt
    rw [List.head?_take, if_neg (by omega)]
    exact h.head_ne (by omega)

/-- Digits without a zero in front denote at least the power of ten of the first one. -/
theorem Digits.pow_le (h : Digits cs n) (hne : cs ≠ []) (hhead : cs.head? ≠ some '0') :
    10 ^ (cs.length - 1) ≤ n := by
  obtain ⟨c, cs, rfl⟩ := List.exists_cons_of_ne_nil hne
  obtain ⟨high, low, hc, -, rfl⟩ := h.exists_of_cons
  have hhigh : 1 ≤ high := by
    by_contra hzero
    refine hhead (congrArg some (Char.toNat_inj.mp ?_))
    rw [hc.singleton.2, Nat.lt_one_iff.mp (not_le.mp hzero)]
    rfl
  rw [List.length_cons, Nat.add_sub_cancel]
  exact (Nat.le_mul_of_pos_right _ hhigh).trans (Nat.le_add_right _ _)

/-- A number has only one run of digits with no more zeros in front than a width asks for. -/
theorem Digits.ext_of_isPadded (hcs : Digits cs n) (hds : Digits ds n) (hpad : IsPadded width cs)
    (hpad' : IsPadded width ds) : cs = ds := by
  have hle {cs ds : List Char} (hcs : Digits cs n) (hds : Digits ds n) (hpad : IsPadded width cs)
      (hpad' : IsPadded width ds) : cs.length ≤ ds.length := by
    by_contra hlt
    have hwidth := hpad'.width_le
    have hlow := hcs.pow_le (List.ne_nil_of_length_pos (by omega)) (hpad.head_ne (by omega))
    have hhigh := hds.lt
    have hpower : 10 ^ ds.length ≤ 10 ^ (cs.length - 1) :=
      Nat.pow_le_pow_right (by decide) (by omega)
    omega
  exact hcs.ext hds (le_antisymm (hle hcs hds hpad hpad') (hle hds hcs hpad' hpad))

end Text

namespace Decimal

open Text

/-! ### The notation -/

/-- The positional notation of a number that is not negative. -/
inductive Positional : List Char → ℚ → Prop
  /-- A whole number has no point. -/
  | whole {cs : List Char} {n : ℕ} (h : Digits cs n) (hpad : IsPadded 1 cs) : Positional cs n
  /-- Any other number has digits behind the point, the last of which is not zero. -/
  | pointed {cs ds : List Char} {n k : ℕ} (h : Digits cs n) (hpad : IsPadded 1 cs)
      (hfraction : Digits ds k) (hne : ds ≠ []) (hlast : ds.getLast? ≠ some '0') :
      Positional (cs ++ '.' :: ds) (n + k / 10 ^ ds.length)

variable {cs ds front : List Char} {n k m : ℕ}

/-- The digits behind the point denote less than one. -/
theorem fraction_bounds (h : Digits ds k) :
    (0 : ℚ) ≤ (k : ℚ) / 10 ^ ds.length ∧ (k : ℚ) / 10 ^ ds.length < 1 := by
  refine ⟨by positivity, (div_lt_one (by positivity)).mpr ?_⟩
  exact_mod_cast h.lt

/-- Digits that do not end in zero are no multiple of ten. -/
theorem not_dvd_of_getLast (h : Digits ds k) (hne : ds ≠ []) (hlast : ds.getLast? ≠ some '0') :
    ¬ 10 ∣ k := by
  obtain ⟨init, c, rfl⟩ := (List.eq_nil_or_concat' ds).resolve_left hne
  obtain ⟨high, low, -, hc, rfl⟩ := h.exists_of_append
  obtain ⟨hlow, hchar⟩ := hc.singleton
  have hzero : low ≠ 0 := by
    rintro rfl
    obtain rfl : c = '0' := Char.toNat_inj.mp hchar
    exact hlast List.getLast?_concat
  rw [List.length_singleton, pow_one]
  omega

/-- A fraction without zeros at its end has only one run of digits. -/
theorem fraction_ext (hcs : Digits cs n) (hds : Digits ds k) (hn : ¬ 10 ∣ n) (hk : ¬ 10 ∣ k)
    (h : (n : ℚ) / 10 ^ cs.length = (k : ℚ) / 10 ^ ds.length) : cs = ds := by
  have hcross : n * 10 ^ ds.length = k * 10 ^ cs.length := by
    rw [div_eq_div_iff (by positivity) (by positivity)] at h
    exact_mod_cast h
  -- A longer run would denote a multiple of ten.
  have hle {n k a b : ℕ} (hn : ¬ 10 ∣ n) (hcross : n * 10 ^ b = k * 10 ^ a) : a ≤ b := by
    by_contra hlt
    obtain ⟨c, rfl⟩ := Nat.exists_eq_add_of_lt (not_le.mp hlt)
    refine hn ⟨k * 10 ^ c, Nat.eq_of_mul_eq_mul_right (Nat.pow_pos (by decide) : 0 < 10 ^ b) ?_⟩
    rw [hcross, pow_succ, pow_add]
    ring
  have hlength : cs.length = ds.length := le_antisymm (hle hn hcross) (hle hk hcross.symm)
  rw [hlength] at hcross
  obtain rfl := Nat.eq_of_mul_eq_mul_right (Nat.pow_pos (by decide)) hcross
  exact hcs.ext hds hlength

/-- Whole part and fraction of a number are determined. -/
theorem whole_eq {f g : ℚ} (hf : 0 ≤ f ∧ f < 1) (hg : 0 ≤ g ∧ g < 1) (h : (n : ℚ) + f = k + g) :
    n = k ∧ f = g := by
  have hle {n k : ℕ} {f g : ℚ} (hf : 0 ≤ f) (hg : g < 1) (h : (n : ℚ) + f = k + g) : n ≤ k := by
    have hlt : (n : ℚ) < (k + 1 : ℕ) := by push_cast; linarith
    exact Nat.lt_add_one_iff.mp (by exact_mod_cast hlt)
  obtain rfl := le_antisymm (hle hf.1 hg.2 h) (hle hg.1 hf.2 h.symm)
  exact ⟨rfl, add_left_cancel h⟩

/-- A number has only one positional notation. -/
theorem Positional.unique {q : ℚ} (hcs : Positional cs q) (hds : Positional ds q) : cs = ds := by
  have hnone : (0 : ℚ) ≤ 0 ∧ (0 : ℚ) < 1 := by norm_num
  have hmixed {n m k : ℕ} {es : List Char} (hes : Digits es k) (hne : es ≠ [])
      (hlast : es.getLast? ≠ some '0') (h : (n : ℚ) = m + k / 10 ^ es.length) : False := by
    have hzero := (whole_eq hnone (fraction_bounds hes) (by rwa [add_zero])).2
    rw [eq_comm, div_eq_zero_iff, or_iff_left (by positivity), Nat.cast_eq_zero] at hzero
    exact not_dvd_of_getLast hes hne hlast (hzero ▸ dvd_zero 10)
  generalize hq : q = r at hds
  cases hcs with
  | whole hcs hpad =>
    cases hds with
    | whole hds hpad' => exact hcs.ext_of_isPadded (Nat.cast_injective hq ▸ hds) hpad hpad'
    | pointed _ _ hfraction hne hlast => exact (hmixed hfraction hne hlast hq).elim
  | pointed hcs hpad hfraction hne hlast =>
    cases hds with
    | whole _ _ => exact (hmixed hfraction hne hlast hq.symm).elim
    | pointed hds hpad' hfraction' hne' hlast' =>
      obtain ⟨rfl, hsame⟩ := whole_eq (fraction_bounds hfraction) (fraction_bounds hfraction') hq
      rw [hcs.ext_of_isPadded hds hpad hpad', fraction_ext hfraction hfraction'
        (not_dvd_of_getLast hfraction hne hlast) (not_dvd_of_getLast hfraction' hne' hlast') hsame]

/-! ### Dropping zeros at the end -/

/-- Without a point there is nothing to drop. -/
theorem trimFraction_of_not_mem (h : '.' ∉ cs) : trimFraction cs = cs := if_neg h

/-- Behind a point the zeros at the end are dropped, and the point if nothing else is left. -/
theorem trimFraction_append (hds : Digits ds k) :
    trimFraction (front ++ '.' :: ds) =
      if dropBack (· == '0') ds = [] then front else front ++ '.' :: dropBack (· == '0') ds := by
  have hback : (front ++ '.' :: ds).reverse.dropWhile (· == '0') =
      (dropBack (· == '0') ds).reverse ++ '.' :: front.reverse := by
    rw [← List.reverse_reverse (List.dropWhile _ _)]
    change (dropBack (· == '0') (front ++ '.' :: ds)).reverse = _
    rw [dropBack_append_cons (by decide)]
    simp
  rw [trimFraction, if_pos (by simp), hback]
  obtain hnil | ⟨init, c, hinit⟩ := List.eq_nil_or_concat' (dropBack (· == '0') ds)
  · rw [hnil]
    simp
  · -- The last digit that is left is not the point.
    have hmem : c ∈ ds := by
      have hprefix := List.rdropWhile_prefix (· == '0') ds
      exact hprefix.subset (show c ∈ dropBack (· == '0') ds by simp [hinit])
    have hpoint : c ≠ '.' := fun hc => hds.not_mem (by decide) (hc ▸ hmem)
    rw [hinit]
    simp [hpoint]

/-- Dropping zeros at the end of a fraction does not change it. -/
theorem exists_dropBack (hds : Digits ds k) :
    ∃ j, Digits (dropBack (· == '0') ds) j ∧
      (k : ℚ) / 10 ^ ds.length = (j : ℚ) / 10 ^ (dropBack (· == '0') ds).length := by
  have hsplit : dropBack (· == '0') ds ++ ds.rtakeWhile (· == '0') = ds :=
    List.rdropWhile_append_rtakeWhile
  have hzeros : ds.rtakeWhile (· == '0') =
      List.replicate (ds.rtakeWhile (· == '0')).length '0' :=
    List.eq_replicate_of_mem fun c hc => by simpa using List.mem_rtakeWhile_imp hc
  obtain ⟨high, low, hhigh, hlow, rfl⟩ := Digits.exists_of_append (hsplit.symm ▸ hds)
  have hzero : low = 0 := by
    rw [← hlow.value, hzeros, (digits_replicate_zero _).value]
  have hlength : ds.length =
      (dropBack (· == '0') ds).length + (ds.rtakeWhile (· == '0')).length := by
    rw [← List.length_append, hsplit]
  refine ⟨high, hhigh, ?_⟩
  rw [hzero, hlength, pow_add, add_zero, Nat.cast_mul, Nat.cast_pow, Nat.cast_ofNat, mul_comm]
  exact mul_div_mul_right _ _ (by positivity)

theorem getLast?_dropBack_ne (ds : List Char) : (dropBack (· == '0') ds).getLast? ≠ some '0' := by
  intro hlast
  rw [dropBack_eq_rdropWhile] at hlast
  have hne : ds.rdropWhile (· == '0') ≠ [] := fun hnil => by simp [hnil] at hlast
  have hnot := List.rdropWhile_last_not (· == '0') ds hne
  rw [List.getLast_of_getLast?_eq_some hlast] at hnot
  simp at hnot

/-- The two parts of a number that is written with a fixed number of places. -/
theorem pointed_eq (places n : ℕ) :
    ∃ cs ds a b, pointed places n = (if places = 0 then cs else cs ++ '.' :: ds) ∧
      Digits cs a ∧ IsPadded 1 cs ∧ Digits ds b ∧ ds.length = places ∧ n = 10 ^ places * a + b := by
  have hdigits := (digits_toDigits n).padLeft (places + 1)
  have hpad := isPadded_padLeft (Nat.le_add_left 1 places) n
  simp only [pointed]
  generalize padLeft '0' (places + 1) (Nat.toDigits 10 n) = digits at hdigits hpad ⊢
  have hlength : (digits.drop (digits.length - places)).length = places := by
    have hwidth := hpad.width_le
    rw [List.length_drop]
    omega
  rw [← List.take_append_drop (digits.length - places) digits] at hdigits
  obtain ⟨a, b, ha, hb, hn⟩ := hdigits.exists_of_append
  exact ⟨_, _, a, b, rfl, ha, hpad.take le_rfl, hb, hlength, hlength ▸ hn⟩

/-- A number with a fixed number of places, without the zeros at its end, is in positional
notation. What stands in front of it, such as a sign, stays. -/
theorem exists_positional (hfront : '.' ∉ front) (places n : ℕ) :
    ∃ cs, trimFraction (front ++ pointed places n) = front ++ cs ∧
      Positional cs ((n : ℚ) / 10 ^ places) := by
  obtain ⟨cs, ds, a, b, htext, hcs, hpad, hds, rfl, rfl⟩ := pointed_eq places n
  have hvalue : ((10 ^ ds.length * a + b : ℕ) : ℚ) / 10 ^ ds.length = a + b / 10 ^ ds.length := by
    push_cast
    rw [add_div, mul_div_cancel_left₀ _ (by positivity)]
  rw [htext, hvalue]
  split
  next hnone =>
    have hpoint : '.' ∉ front ++ cs := by simp [hfront, hcs.not_mem]
    obtain rfl := List.length_eq_zero_iff.mp hnone
    have hzero : b = 0 := hds.value.symm
    refine ⟨cs, trimFraction_of_not_mem hpoint, ?_⟩
    simpa [hzero] using Positional.whole hcs hpad
  next hsome =>
    obtain ⟨j, hj, hsame⟩ := exists_dropBack hds
    rw [← List.append_assoc, trimFraction_append hds, hsame]
    split
    next hnil =>
      have hzero : j = 0 := by rw [← hj.value, hnil]; rfl
      refine ⟨cs, rfl, ?_⟩
      simpa [hzero] using Positional.whole hcs hpad
    next hne =>
      exact ⟨_, List.append_assoc _ _ _, .pointed hcs hpad hj hne (getLast?_dropBack_ne ds)⟩

end Decimal

end StackMachine
