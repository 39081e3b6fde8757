import Mathlib.Algebra.Group.Nat.Defs
import Mathlib.Data.Nat.Basic
import Mathlib.Order.Basic
import StackMachine.Text.Numeral

/-!
# Numerals and what they denote

A numeral is an optional sign and one or more ASCII digits. The relation `Numeral` says which
integer it denotes, without a bound on its size and with any number of leading zeros. Reading an
integer of a machine word accepts exactly the numerals of the integers that fit in the word.

## Main definitions

* `Text.Digits`: a run of digits and the number that it denotes.
* `Text.Numeral`: a numeral and the integer that it denotes.

## Main results

* `Text.readInteger?_eq_some_iff`: reading accepts the numerals and nothing else.
* `Text.readInt32?_eq_some_iff`, `Text.readInt64?_eq_some_iff`: words are read from the numerals of
  integers that fit.
* `Text.numeral_writeInteger`: what is written for an integer is a numeral of it.
-/

namespace StackMachine.Text

/-- The characters are ASCII digits that denote `n`, the most significant first. No digits at all
denote zero. -/
structure Digits (cs : List Char) (n : Nat) : Prop where
  isDigit : ∀ c ∈ cs, c.isDigit = true
  value : Nat.ofDigitChars 10 cs 0 = n

/-- An optional sign with one or more digits behind it, and the integer that they denote. -/
inductive Numeral : List Char → Int → Prop
  /-- Digits without a sign. -/
  | unsigned {cs : List Char} {n : Nat} (h : Digits cs n) (hne : cs ≠ []) : Numeral cs n
  /-- Digits behind a plus sign. -/
  | plus {cs : List Char} {n : Nat} (h : Digits cs n) (hne : cs ≠ []) : Numeral ('+' :: cs) n
  /-- Digits behind a minus sign. -/
  | minus {cs : List Char} {n : Nat} (h : Digits cs n) (hne : cs ≠ []) : Numeral ('-' :: cs) (-n)

variable {cs ds : List Char} {k n : Nat}

/-! ### Digits -/

/-- The value of digits is what the library computes in base ten. -/
theorem digitsValue_eq_ofDigitChars (cs : List Char) :
    digitsValue cs = Nat.ofDigitChars 10 cs 0 :=
  Nat.ofDigitChars_eq_foldl.symm

theorem Digits.not_mem (h : Digits cs n) {c : Char} (hc : c.isDigit = false) : c ∉ cs :=
  fun hmem => by simp [h.isDigit c hmem] at hc

/-- Digits in front of others count with the weight of these. -/
theorem Digits.append (hcs : Digits cs n) (hds : Digits ds k) :
    Digits (cs ++ ds) (10 ^ ds.length * n + k) where
  isDigit c hc := (List.mem_append.mp hc).elim (hcs.isDigit c) (hds.isDigit c)
  value := by
    rw [Nat.ofDigitChars_append, Nat.ofDigitChars_eq_ofDigitChars_zero, hcs.value, hds.value]

/-- Digits fall into digits wherever they are cut. -/
theorem Digits.exists_of_append (h : Digits (cs ++ ds) n) :
    ∃ high low, Digits cs high ∧ Digits ds low ∧ n = 10 ^ ds.length * high + low := by
  have hcs : Digits cs (Nat.ofDigitChars 10 cs 0) :=
    ⟨fun c hc => h.isDigit c (List.mem_append_left ds hc), rfl⟩
  have hds : Digits ds (Nat.ofDigitChars 10 ds 0) :=
    ⟨fun c hc => h.isDigit c (List.mem_append_right cs hc), rfl⟩
  exact ⟨_, _, hcs, hds, h.value.symm.trans (hcs.append hds).value⟩

/-- The first digit of a run and those behind it. -/
theorem Digits.exists_of_cons {c : Char} (h : Digits (c :: cs) n) :
    ∃ high low, Digits [c] high ∧ Digits cs low ∧ n = 10 ^ cs.length * high + low :=
  have h' : Digits ([c] ++ cs) n := h
  h'.exists_of_append

/-- A single digit. -/
theorem Digits.singleton {c : Char} (h : Digits [c] n) : n < 10 ∧ c.toNat = 48 + n := by
  have hc := Char.isDigit_iff_toNat.mp (h.isDigit c (by simp))
  have hvalue := h.value
  rw [Nat.ofDigitChars_cons, Nat.ofDigitChars_nil] at hvalue
  have hzero : '0'.toNat = 48 := rfl
  have hnine : '9'.toNat = 57 := rfl
  omega

/-- A run of digits denotes less than the power of ten behind it. -/
theorem Digits.lt (h : Digits cs n) : n < 10 ^ cs.length := by
  induction cs generalizing n with
  | nil => simpa using h.value.symm.le
  | cons c cs ih =>
    obtain ⟨high, low, hc, hcs, rfl⟩ := h.exists_of_cons
    have hhigh : 10 ^ cs.length * (high + 1) ≤ 10 ^ cs.length * 10 :=
      Nat.mul_le_mul_left _ hc.singleton.1
    have hlow := ih hcs
    rw [Nat.mul_succ] at hhigh
    rw [List.length_cons, pow_succ]
    omega

/-- Two runs of digits of one length that denote the same number are the same. -/
theorem Digits.ext (hcs : Digits cs n) (hds : Digits ds n) (hlength : cs.length = ds.length) :
    cs = ds := by
  induction cs generalizing ds n with
  | nil => exact (List.length_eq_zero_iff.mp hlength.symm).symm
  | cons c cs ih =>
    obtain ⟨d, ds, rfl⟩ := List.exists_cons_of_length_eq_add_one hlength.symm
    obtain ⟨high, low, hc, hrest, hn⟩ := hcs.exists_of_cons
    obtain ⟨high', low', hd, hrest', hn'⟩ := hds.exists_of_cons
    replace hlength : cs.length = ds.length := by simpa using hlength
    have hpower : 0 < 10 ^ ds.length := Nat.pow_pos (by decide)
    have hlow : low < 10 ^ ds.length := hlength ▸ hrest.lt
    have hlow' := hrest'.lt
    have hsame : 10 ^ ds.length * high + low = 10 ^ ds.length * high' + low' := by
      rw [← hn', hn, hlength]
    have hhigh : high = high' := by
      have hquotient := congrArg (· / 10 ^ ds.length) hsame
      simpa [Nat.mul_add_div hpower, Nat.div_eq_of_lt hlow, Nat.div_eq_of_lt hlow'] using hquotient
    obtain rfl : low = low' := by
      rw [hhigh] at hsame
      exact Nat.add_left_cancel hsame
    have hchar : c = d := by
      rw [← Char.toNat_inj, hc.singleton.2, hd.singleton.2, hhigh]
    rw [hchar, ih hrest hrest' hlength]

/-- The digits that the library gives for a number have its value. -/
theorem digits_toDigits (n : Nat) : Digits (Nat.toDigits 10 n) n where
  isDigit _ hc := Nat.isDigit_of_mem_toDigits (by decide) (by decide) hc
  value := Nat.ofDigitChars_ten_toDigits

/-! ### Reading -/

theorem splitSign_of_digits (h : Digits cs n) : splitSign cs = (false, cs) := by
  fun_cases splitSign cs with
  | case1 rest => exact absurd List.mem_cons_self (h.not_mem (by decide))
  | case2 rest => exact absurd List.mem_cons_self (h.not_mem (by decide))
  | case3 _ _ => rfl

/-- What passes the check of the reader is digits. -/
theorem digits_of_all (h : ¬ (ds.isEmpty || !ds.all Char.isDigit) = true) :
    Digits ds (digitsValue ds) ∧ ds ≠ [] := by
  simp only [Bool.or_eq_true, List.isEmpty_iff, Bool.not_eq_true', not_or, Bool.not_eq_false,
    List.all_eq_true] at h
  exact ⟨⟨h.2, (digitsValue_eq_ofDigitChars ds).symm⟩, h.1⟩

/-- Digits pass the check of the reader. -/
theorem Digits.isEmpty_or_not_all (h : Digits ds n) (hne : ds ≠ []) :
    (ds.isEmpty || !ds.all Char.isDigit) = false := by
  simp only [Bool.or_eq_false_iff, List.isEmpty_eq_false_iff, Bool.not_eq_false',
    List.all_eq_true]
  exact ⟨hne, h.isDigit⟩

/-- A numeral is read as its integer. -/
theorem readInteger?_of_numeral {n : Int} (h : Numeral cs n) : readInteger? cs = some n := by
  cases h with
  | unsigned h hne =>
    simp [readInteger?, splitSign_of_digits h, h.isEmpty_or_not_all hne,
      digitsValue_eq_ofDigitChars, h.value]
  | plus h hne =>
    simp [readInteger?, splitSign, h.isEmpty_or_not_all hne, digitsValue_eq_ofDigitChars, h.value]
  | minus h hne =>
    simp [readInteger?, splitSign, h.isEmpty_or_not_all hne, digitsValue_eq_ofDigitChars, h.value]

/-- Only numerals are read. -/
theorem numeral_of_readInteger? {n : Int} (h : readInteger? cs = some n) : Numeral cs n := by
  rw [readInteger?] at h
  generalize hsplit : splitSign cs = parts at h
  obtain ⟨negative, ds⟩ := parts
  dsimp only at h
  split at h
  next => cases h
  next hall =>
    obtain ⟨hdigits, hne⟩ := digits_of_all hall
    cases h
    rw [splitSign.eq_def] at hsplit
    split at hsplit <;> cases hsplit
    · exact .minus hdigits hne
    · exact .plus hdigits hne
    · exact .unsigned hdigits hne

/-- Reading accepts the numerals and nothing else, and gives the integer that they denote. -/
theorem readInteger?_eq_some_iff {n : Int} : readInteger? cs = some n ↔ Numeral cs n :=
  ⟨numeral_of_readInteger?, readInteger?_of_numeral⟩

/-- A text is a numeral of at most one integer. -/
theorem Numeral.unique {m n : Int} (hm : Numeral cs m) (hn : Numeral cs n) : m = n := by
  rw [← readInteger?_eq_some_iff] at hm hn
  exact Option.some.inj (hm.symm.trans hn)

/-- An integer is read between two bounds if it is written there and within them. -/
theorem readBetween?_eq_some_iff {low high n : Int} :
    readBetween? low high cs = some n ↔ Numeral cs n ∧ low ≤ n ∧ n ≤ high := by
  rw [← readInteger?_eq_some_iff, readBetween?]
  cases readInteger? cs with
  | none => simp
  | some m =>
    simp only [Option.ite_none_right_eq_some, Option.some.injEq]
    constructor
    · rintro ⟨hbounds, rfl⟩
      exact ⟨rfl, hbounds⟩
    · rintro ⟨rfl, hbounds⟩
      exact ⟨hbounds, rfl⟩

/-- A signed 32-bit integer is read from its numerals. -/
theorem readInt32?_eq_some_iff {n : Int32} : readInt32? cs = some n ↔ Numeral cs n.toInt := by
  simp only [readInt32?, Option.map_eq_some_iff, readBetween?_eq_some_iff]
  constructor
  · rintro ⟨m, ⟨hm, hlow, hhigh⟩, rfl⟩
    rwa [Int32.toInt_ofInt_of_le (by omega) (by omega)]
  · intro h
    have hlow := n.le_toInt
    have hhigh := n.toInt_lt
    exact ⟨n.toInt, ⟨h, by omega, by omega⟩, n.ofInt_toInt⟩

/-- A signed 64-bit integer is read from its numerals. -/
theorem readInt64?_eq_some_iff {n : Int64} : readInt64? cs = some n ↔ Numeral cs n.toInt := by
  simp only [readInt64?, Option.map_eq_some_iff, readBetween?_eq_some_iff]
  constructor
  · rintro ⟨m, ⟨hm, hlow, hhigh⟩, rfl⟩
    rwa [Int64.toInt_ofInt_of_le (by omega) (by omega)]
  · intro h
    have hlow := n.le_toInt
    have hhigh := n.toInt_lt
    exact ⟨n.toInt, ⟨h, by omega, by omega⟩, n.ofInt_toInt⟩

/-! ### Writing -/

/-- What is written for an integer is a numeral of it. -/
theorem numeral_writeInteger (n : Int) : Numeral (writeInteger n).toList n := by
  cases n with
  | ofNat k =>
    rw [writeInteger, Nat.toString_eq_ofList_toDigits, String.toList_ofList]
    exact .unsigned (digits_toDigits k) Nat.toDigits_ne_nil
  | negSucc k =>
    have htext : (writeInteger (.negSucc k)).toList = '-' :: Nat.toDigits 10 (k + 1) := by
      simp [writeInteger]
    rw [htext, Int.negSucc_eq]
    exact .minus (digits_toDigits (k + 1)) Nat.toDigits_ne_nil

/-- Apart from its sign, a numeral has only digits. -/
theorem Numeral.mem_cases {n : Int} (h : Numeral cs n) {c : Char} (hc : c ∈ cs) :
    c = '+' ∨ c = '-' ∨ c.isDigit = true := by
  cases h with
  | unsigned h => exact .inr (.inr (h.isDigit c hc))
  | plus h => exact (List.mem_cons.mp hc).imp_right fun hc => .inr (h.isDigit c hc)
  | minus h => exact .inr ((List.mem_cons.mp hc).imp_right (h.isDigit c))

end StackMachine.Text
