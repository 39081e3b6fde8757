import Mathlib.Algebra.Group.Int.Defs
import StackMachine.Code.Literal
import StackMachine.Proofs.Text.Numeral
import StackMachine.Value.Equality
import StackMachine.Value.Text

/-!
# Integer literals

A number without a point is read as an integer: as one of 32 bits if it fits, otherwise as one of
64 bits if it fits in these. Since the text of an integer is a numeral, it is read back.

## Main results

* `Value.readNumber?_eq_some_iff`: the numbers without a point that are read, and what they are
  read as.
* `Value.integer_literals_exact`: this with its bounds, and that integers are read back from their
  text.
-/

namespace StackMachine.Value

/-- The integer does not fit in 32 bits. -/
def IsWide (n : Int) : Prop := n < -2 ^ 31 ∨ 2 ^ 31 ≤ n

theorem not_isWide_toInt (n : Int32) : ¬ IsWide n.toInt := by
  have hlow := n.le_toInt
  have hhigh := n.toInt_lt
  rw [IsWide]
  omega

/-- An integer that fits in 32 bits is that of a 32-bit integer. -/
theorem exists_toInt_of_not_isWide {n : Int} (h : ¬ IsWide n) : ∃ m : Int32, m.toInt = n := by
  rw [IsWide] at h
  exact ⟨Int32.ofInt n, Int32.toInt_ofInt_of_le (by omega) (by omega)⟩

/-- A number without a point is read if it is the numeral of an integer of 32 or of 64 bits, and as
one of 64 bits only if it does not fit in 32. -/
theorem readNumber?_eq_some_iff {text : String} (hpoint : '.' ∉ text.toList) {v : Value} :
    readNumber? text = some v ↔
      (∃ n : Int32, Text.Numeral text.toList n.toInt ∧ v = int n) ∨
      ∃ n : Int64, Text.Numeral text.toList n.toInt ∧ IsWide n.toInt ∧ v = long n := by
  simp only [readNumber?, if_neg hpoint]
  -- Integers of 32 bits are tried first, so the other rule is for what they leave.
  cases hread : Text.readInt32? text.toList with
  | some m =>
    rw [Text.readInt32?_eq_some_iff] at hread
    simp only [Option.some.injEq]
    constructor
    · rintro rfl
      exact .inl ⟨m, hread, rfl⟩
    · rintro (⟨n, hn, rfl⟩ | ⟨n, hn, hwide, -⟩)
      · rw [Int32.toInt_inj.mp (hread.unique hn)]
      · exact absurd (hread.unique hn ▸ hwide) (not_isWide_toInt m)
  | none =>
    have hnarrow : ∀ n : Int32, ¬ Text.Numeral text.toList n.toInt := fun n hn => by
      simp [Text.readInt32?_eq_some_iff.mpr hn] at hread
    simp only [Option.map_eq_some_iff, Text.readInt64?_eq_some_iff]
    constructor
    · rintro ⟨n, hn, rfl⟩
      refine .inr ⟨n, hn, ?_, rfl⟩
      by_contra hfits
      obtain ⟨m, hm⟩ := exists_toInt_of_not_isWide hfits
      exact hnarrow m (hm ▸ hn)
    · rintro (⟨n, hn, -⟩ | ⟨n, hn, -, rfl⟩)
      · exact absurd hn (hnarrow n)
      · exact ⟨n, hn, rfl⟩

/-! ### Reading back -/

/-- The text of an integer has no point, and is no truth value and not null. -/
theorem readLiteral?_writeInteger (n : Int) :
    '.' ∉ (Text.writeInteger n).toList ∧
      readLiteral? (Text.writeInteger n) = readNumber? (Text.writeInteger n) := by
  have hchars {c : Char} (hc : c ≠ '+' ∧ c ≠ '-' ∧ c.isDigit = false) :
      c ∉ (Text.writeInteger n).toList := fun hmem => by
    rcases (Text.numeral_writeInteger n).mem_cases hmem with h | h | h
    · exact hc.1 h
    · exact hc.2.1 h
    · simp [h] at hc
  have hword {word : String} {c : Char} (hmem : c ∈ word.toList)
      (hc : c ≠ '+' ∧ c ≠ '-' ∧ c.isDigit = false) : Text.writeInteger n ≠ word := by
    rintro rfl
    exact hchars hc hmem
  have htrue : Text.writeInteger n ≠ "true" := hword (c := 'e') (by decide) (by decide)
  have hfalse : Text.writeInteger n ≠ "false" := hword (c := 'e') (by decide) (by decide)
  have hnull : Text.writeInteger n ≠ "null" := hword (c := 'n') (by decide) (by decide)
  refine ⟨hchars (by decide), ?_⟩
  rw [readLiteral?, if_neg htrue, if_neg hfalse, if_neg hnull]

/-- The text of a 32-bit integer is read as that integer. -/
theorem readLiteral?_text_int (n : Int32) : readLiteral? (int n).text = some (int n) := by
  rw [text, (readLiteral?_writeInteger n.toInt).2]
  exact (readNumber?_eq_some_iff (readLiteral?_writeInteger n.toInt).1).mpr
    (.inl ⟨n, Text.numeral_writeInteger n.toInt, rfl⟩)

/-- The text of a 64-bit integer is read as a 32-bit integer where that suffices, and else as that
integer. -/
theorem readLiteral?_text_long (n : Int64) :
    (∃ m : Int32, m.toInt = n.toInt ∧ readLiteral? (long n).text = some (int m)) ∨
      IsWide n.toInt ∧ readLiteral? (long n).text = some (long n) := by
  have hnumeral := Text.numeral_writeInteger n.toInt
  obtain ⟨hpoint, hread⟩ := readLiteral?_writeInteger n.toInt
  rw [text, hread]
  by_cases hwide : IsWide n.toInt
  · exact .inr ⟨hwide, (readNumber?_eq_some_iff hpoint).mpr (.inr ⟨n, hnumeral, hwide, rfl⟩)⟩
  · obtain ⟨m, hm⟩ := exists_toInt_of_not_isWide hwide
    exact .inl ⟨m, hm, (readNumber?_eq_some_iff hpoint).mpr (.inl ⟨m, hm ▸ hnumeral, rfl⟩)⟩

/-- Integer literals are recognised exactly. A text without a point is a number if and only if it is
the numeral of an integer that fits in 64 bits, and it is read as an integer of 32 bits if it fits
in these and as one of 64 bits otherwise. So the text of an integer is a literal with the same
value, and of the same width unless it was wider than necessary. -/
theorem integer_literals_exact :
    (∀ (text : String) (v : Value), '.' ∉ text.toList →
      (readNumber? text = some v ↔
        ∃ n : Int, Text.Numeral text.toList n ∧ -2 ^ 63 ≤ n ∧ n < 2 ^ 63 ∧
          v = if -2 ^ 31 ≤ n ∧ n < 2 ^ 31 then int (Int32.ofInt n) else long (Int64.ofInt n))) ∧
    (∀ n : Int32, readLiteral? (int n).text = some (int n)) ∧
    ∀ n : Int64, ∃ v, readLiteral? (long n).text = some v ∧ equal v (long n) = true ∧
      (n.toInt < -2 ^ 31 ∨ 2 ^ 31 ≤ n.toInt → v = long n) := by
  refine ⟨fun text v hpoint => ?_, readLiteral?_text_int, fun n => ?_⟩
  · rw [readNumber?_eq_some_iff hpoint]
    constructor
    · rintro (⟨n, hn, rfl⟩ | ⟨n, hn, hwide, rfl⟩)
      · have hlow := n.le_toInt
        have hhigh := n.toInt_lt
        refine ⟨n.toInt, hn, by omega, by omega, ?_⟩
        rw [if_pos ⟨hlow, hhigh⟩, Int32.ofInt_toInt]
      · rw [IsWide] at hwide
        refine ⟨n.toInt, hn, n.le_toInt, n.toInt_lt, ?_⟩
        rw [if_neg (by omega), Int64.ofInt_toInt]
    · rintro ⟨n, hn, hlow, hhigh, rfl⟩
      split
      next hfits =>
        exact .inl ⟨Int32.ofInt n, by rwa [Int32.toInt_ofInt_of_le hfits.1 hfits.2], rfl⟩
      next hfits =>
        have hback := Int64.toInt_ofInt_of_le hlow hhigh
        refine .inr ⟨Int64.ofInt n, by rwa [hback], ?_, rfl⟩
        rw [hback, IsWide]
        omega
  · rcases readLiteral?_text_long n with ⟨m, hm, hread⟩ | ⟨-, hread⟩
    · refine ⟨int m, hread, ?_, fun hwide => absurd (hm ▸ hwide) (not_isWide_toInt m)⟩
      have hsame : m.toInt64 = n := Int64.toInt_inj.mp ((Int32.toInt_toInt64 m).trans hm)
      simp [equal, integer?, hsame]
    · exact ⟨long n, hread, by simp [equal, integer?], fun _ => rfl⟩

/-- A sign and leading zeros in front of an integer that needs 64 bits. -/
theorem integer_literals_exact_minus :
    '.' ∉ "-002147483649".toList ∧
      readNumber? "-002147483649" = some (long (-2147483649)) := by
  have hpoint : '.' ∉ "-002147483649".toList := by decide
  refine ⟨hpoint, (integer_literals_exact.1 _ _ hpoint).mpr
    ⟨-2147483649, ?_, by decide, by decide, rfl⟩⟩
  have hdigits : Text.Digits "002147483649".toList 2147483649 :=
    ⟨by simp, by decide⟩
  exact .minus hdigits (by decide)

end StackMachine.Value
