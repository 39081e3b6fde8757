import Mathlib.Algebra.Group.Int.Defs
import Mathlib.Data.List.Basic
import Mathlib.Data.List.TakeWhile
import StackMachine.Proofs.Machine.Builtin
import StackMachine.Proofs.Text.Numeral

/-!
# The integer at the start of a text

A text is converted to an integer by the longest part behind its leading blanks that is an optional
sign and digits. All the digits of this part count: if there are none, or if they denote an integer
that does not fit in 32 bits, the result is zero. So what is written for an integer is converted
back to it, whatever blanks stand in front and whatever other than a digit stands behind.

## Main definitions

* `Text.SignedDigits`: an optional sign and any number of digits.
* `Text.IsLongestRun`: the longest part at the start of a text that has this form.
* `Text.Leading`: a text as blanks, the longest such part behind them, and the rest.

## Main results

* `Text.isLongestRun_of_head`: a part is the longest one if the next character cannot belong to it.
* `Text.isLongestRun_signedRun`, `Text.IsLongestRun.unique`: every text has exactly one.
* `Value.leadingInteger_of_leading`: the conversion reads this part and no other.
* `Value.int_reads_leading`: what the conversion of a text gives, and that it reads back integers.
-/

namespace StackMachine

namespace Text

/-- An optional sign and then ASCII digits, of which there may be none. -/
inductive SignedDigits : List Char → Prop
  /-- Digits without a sign. -/
  | unsigned {ds : List Char} (h : ∀ c ∈ ds, c.isDigit = true) : SignedDigits ds
  /-- Digits behind a sign. -/
  | signed {sign : Char} {ds : List Char} (hsign : sign = '+' ∨ sign = '-')
      (h : ∀ c ∈ ds, c.isDigit = true) : SignedDigits (sign :: ds)

/-- The longest part at the start of a text that is an optional sign and digits. -/
structure IsLongestRun (cs run : List Char) : Prop where
  /-- The text begins with it. -/
  isPrefix : run <+: cs
  /-- It is an optional sign and digits. -/
  signedDigits : SignedDigits run
  /-- No longer part at the start of the text is. -/
  length_le : ∀ other, other <+: cs → SignedDigits other → other.length ≤ run.length

/-- A text is blanks, the longest run of an optional sign and digits behind all of these, and the
rest. -/
structure Leading (cs blanks run rest : List Char) : Prop where
  /-- The parts make up the text. -/
  eq_append : cs = blanks ++ (run ++ rest)
  /-- It begins with blanks. -/
  forall_blank : ∀ c ∈ blanks, isBlank c = true
  /-- No other blank follows them. -/
  head_not_blank : ∀ c ∈ (run ++ rest).head?, isBlank c = false
  /-- The run is the longest one. -/
  isLongestRun : IsLongestRun (run ++ rest) run

variable {cs run other blanks rest : List Char} {c : Char} {n : ℤ}

/-! ### The longest run -/

/-- What follows a part of a run is a digit, or the sign in front of everything. -/
theorem SignedDigits.cases_of_append (h : SignedDigits (run ++ c :: rest)) :
    c.isDigit = true ∨ run = [] ∧ (c = '+' ∨ c = '-') := by
  generalize hcs : run ++ c :: rest = cs at h
  cases h with
  | unsigned h => exact .inl (h c (hcs ▸ by simp))
  | signed hsign h =>
    cases run with
    | nil =>
      obtain ⟨rfl, -⟩ := List.cons.inj hcs
      exact .inr ⟨rfl, hsign⟩
    | cons first run =>
      obtain ⟨-, rfl⟩ := List.cons.inj hcs
      exact .inl (h c (by simp))

/-- A run is the longest one if the next character cannot belong to it. -/
theorem isLongestRun_of_head (hrun : SignedDigits run)
    (hhead : ∀ c ∈ rest.head?, c.isDigit = false ∧ (run = [] → c ≠ '+' ∧ c ≠ '-')) :
    IsLongestRun (run ++ rest) run := by
  refine ⟨List.prefix_append run rest, hrun, fun other hother hsigned => ?_⟩
  by_contra hlonger
  -- A longer run would go on with the next character.
  obtain ⟨more, rfl⟩ := List.prefix_of_prefix_length_le (List.prefix_append run rest) hother
    (not_le.mp hlonger).le
  cases more with
  | nil => simp at hlonger
  | cons c more =>
    obtain ⟨behind, rfl⟩ := (List.prefix_append_right_inj run).mp hother
    obtain ⟨hdigit, hsign⟩ := hhead c rfl
    rcases hsigned.cases_of_append with hc | ⟨hnil, hc | hc⟩
    · simp [hc] at hdigit
    · exact (hsign hnil).1 hc
    · exact (hsign hnil).2 hc

/-- There is only one longest run. -/
theorem IsLongestRun.unique (hrun : IsLongestRun cs run) (hother : IsLongestRun cs other) :
    run = other := by
  have hle := hother.length_le run hrun.isPrefix hrun.signedDigits
  have hge := hrun.length_le other hother.isPrefix hother.signedDigits
  exact (List.prefix_of_prefix_length_le hrun.isPrefix hother.isPrefix hle).eq_of_length_le hge

/-- The sign and the digits that a text begins with. -/
def signedRun : List Char → List Char
  | '+' :: cs => '+' :: cs.takeWhile Char.isDigit
  | '-' :: cs => '-' :: cs.takeWhile Char.isDigit
  | cs => cs.takeWhile Char.isDigit

/-- What is left after dropping begins with a character that is not dropped. -/
theorem eq_false_of_mem_head?_dropWhile {p : Char → Bool} (h : c ∈ (cs.dropWhile p).head?) :
    p c = false := by
  have hnot := List.head?_dropWhile_not p cs
  rwa [Option.mem_def.mp h] at hnot

/-- The run that is read is the longest one. -/
theorem isLongestRun_signedRun (cs : List Char) : IsLongestRun cs (signedRun cs) := by
  have hdigits (cs : List Char) : ∀ c ∈ cs.takeWhile Char.isDigit, c.isDigit = true :=
    fun _ => List.mem_takeWhile_imp
  have hsigned {sign : Char} (hsign : sign = '+' ∨ sign = '-') (cs : List Char) :
      IsLongestRun (sign :: cs) (sign :: cs.takeWhile Char.isDigit) := by
    have h : IsLongestRun (sign :: cs.takeWhile Char.isDigit ++ cs.dropWhile Char.isDigit) _ :=
      isLongestRun_of_head (.signed hsign (hdigits cs)) fun _ hc =>
        ⟨eq_false_of_mem_head?_dropWhile hc, fun hnil => absurd hnil (List.cons_ne_nil _ _)⟩
    rwa [List.cons_append, List.takeWhile_append_dropWhile] at h
  fun_cases signedRun cs with
  | case1 cs => exact hsigned (.inl rfl) cs
  | case2 cs => exact hsigned (.inr rfl) cs
  | case3 _ hplus hminus =>
    have h : IsLongestRun (cs.takeWhile Char.isDigit ++ cs.dropWhile Char.isDigit)
        (cs.takeWhile Char.isDigit) := by
      refine isLongestRun_of_head (.unsigned (hdigits cs)) fun c hc =>
        ⟨eq_false_of_mem_head?_dropWhile hc, fun hnil => ?_⟩
      -- Without digits the text begins with this character, which is not a sign.
      have hcs : cs.dropWhile Char.isDigit = cs := by
        simpa [hnil] using List.takeWhile_append_dropWhile (p := Char.isDigit) (l := cs)
      obtain ⟨rest, hrest⟩ := List.head?_eq_some_iff.mp (hcs ▸ hc)
      exact ⟨fun h => hplus rest (h ▸ hrest), fun h => hminus rest (h ▸ hrest)⟩
    rwa [List.takeWhile_append_dropWhile] at h

/-- Every text has blanks, a longest run behind them, and a rest. -/
theorem exists_leading (cs : List Char) : ∃ blanks run rest, Leading cs blanks run rest := by
  have hrun := isLongestRun_signedRun (trimFront cs)
  obtain ⟨rest, hrest⟩ := hrun.isPrefix
  refine ⟨cs.takeWhile isBlank, signedRun (trimFront cs), rest, ?_, fun _ => List.mem_takeWhile_imp,
    fun c hc => ?_, ?_⟩
  · rw [hrest]
    exact List.takeWhile_append_dropWhile.symm
  · rw [hrest] at hc
    exact eq_false_of_mem_head?_dropWhile hc
  · rwa [hrest]

/-- Leading blanks are dropped, and no more. -/
theorem Leading.trimFront_eq (h : Leading cs blanks run rest) : trimFront cs = run ++ rest := by
  rw [trimFront, h.eq_append, List.dropWhile_append_of_pos h.forall_blank]
  cases hcs : run ++ rest with
  | nil => rfl
  | cons c cs =>
    have hc : isBlank c = false := h.head_not_blank c (by rw [hcs]; rfl)
    rw [List.dropWhile_cons_of_neg (by simp [hc])]

/-! ### What is written for an integer -/

/-- What is written for an integer consists of a sign and digits. -/
theorem Numeral.signedDigits (h : Numeral cs n) : SignedDigits cs := by
  cases h with
  | unsigned h => exact .unsigned h.isDigit
  | plus h => exact .signed (.inl rfl) h.isDigit
  | minus h => exact .signed (.inr rfl) h.isDigit

theorem Numeral.ne_nil (h : Numeral cs n) : cs ≠ [] := by
  cases h with
  | unsigned h hne => exact hne
  | plus h => exact List.cons_ne_nil _ _
  | minus h => exact List.cons_ne_nil _ _

/-- There are no blanks in it. -/
theorem Numeral.not_isBlank (h : Numeral cs n) (hc : c ∈ cs) : isBlank c = false := by
  rcases h.mem_cases hc with rfl | rfl | hdigit
  · decide
  · decide
  · have hrange := Char.isDigit_iff_toNat.mp hdigit
    have hzero : '0'.toNat = 48 := rfl
    have hnine : '9'.toNat = 57 := rfl
    simp only [isBlank, Bool.or_eq_false_iff, Bool.and_eq_false_iff, decide_eq_false_iff_not,
      beq_eq_false_iff_ne]
    omega

/-- A numeral behind blanks is read up to its end if no digit follows. -/
theorem Numeral.leading (h : Numeral run n) (hblanks : ∀ c ∈ blanks, isBlank c = true)
    (hrest : ∀ c ∈ rest.head?, c.isDigit = false) :
    Leading (blanks ++ (run ++ rest)) blanks run rest := by
  refine ⟨rfl, hblanks, fun c hc => ?_, isLongestRun_of_head h.signedDigits fun c hc =>
    ⟨hrest c hc, fun hnil => absurd hnil h.ne_nil⟩⟩
  rw [List.head?_append_of_ne_nil _ h.ne_nil] at hc
  exact h.not_isBlank (List.mem_of_mem_head? hc)

end Text

namespace Value

/-- The leading integer is read from the run of digits behind the blanks. -/
theorem leadingInteger_eq (text : String) :
    leadingInteger text =
      (Text.readInt32? (Text.signedRun (Text.trimFront text.toList))).getD 0 := by
  simp only [leadingInteger]
  generalize Text.trimFront text.toList = cs
  congr 2
  fun_cases Text.signedRun cs with
  | case1 cs => rfl
  | case2 cs => rfl
  | case3 _ hplus hminus =>
    split
    · exact (hplus _ rfl).elim
    · exact (hminus _ rfl).elim
    · rfl

/-- The conversion reads the longest run behind the blanks. -/
theorem leadingInteger_of_leading {text : String} {blanks run rest : List Char}
    (h : Text.Leading text.toList blanks run rest) :
    leadingInteger text = (Text.readInt32? run).getD 0 := by
  have hrun := Text.isLongestRun_signedRun (run ++ rest)
  rw [leadingInteger_eq, h.trimFront_eq, hrun.unique h.isLongestRun]

/-- If the run is a numeral of a 32-bit integer, that is the leading integer. -/
theorem leadingInteger_of_numeral {text : String} {blanks run rest : List Char} {n : Int32}
    (h : Text.Leading text.toList blanks run rest) (hrun : Text.Numeral run n.toInt) :
    leadingInteger text = n := by
  rw [leadingInteger_of_leading h, Text.readInt32?_eq_some_iff.mpr hrun, Option.getD_some]

/-- Otherwise it is zero. -/
theorem leadingInteger_of_not_numeral {text : String} {blanks run rest : List Char}
    (h : Text.Leading text.toList blanks run rest)
    (hrun : ∀ n : Int32, ¬ Text.Numeral run n.toInt) : leadingInteger text = 0 := by
  have hnone : Text.readInt32? run = none := by
    rw [Option.eq_none_iff_forall_ne_some]
    exact fun n hn => hrun n (Text.readInt32?_eq_some_iff.mp hn)
  rw [leadingInteger_of_leading h, hnone, Option.getD_none]

/-- The conversion of a text to an integer. Every text is blanks, the longest run of an optional
sign and digits behind them, and a rest. The result is what the run denotes if it has a digit and
fits in 32 bits, and otherwise zero. So the text of an integer is converted back to it, behind any
blanks and in front of anything that does not begin with a digit. -/
theorem int_reads_leading :
    (∀ text : String, ∃ blanks run rest, Text.Leading text.toList blanks run rest) ∧
    (∀ (text : String) (blanks run rest : List Char), Text.Leading text.toList blanks run rest →
      ∃ n : Int32, Builtin.int.Returns [str text] (int n) ∧
        (∀ k : ℤ, Text.Numeral run k → -2 ^ 31 ≤ k → k < 2 ^ 31 → n.toInt = k) ∧
        ((¬ ∃ k : ℤ, Text.Numeral run k ∧ -2 ^ 31 ≤ k ∧ k < 2 ^ 31) → n = 0)) ∧
    ∀ (n : Int32) (w t : String), (∀ c ∈ w.toList, Text.isBlank c = true) →
      (∀ c ∈ t.toList.head?, c.isDigit = false) →
        ∃ s, Builtin.string.Returns [int n] (str s) ∧
          Builtin.int.Returns [str (w ++ s ++ t)] (int n) := by
  refine ⟨fun text => Text.exists_leading text.toList, fun text blanks run rest h => ?_,
    fun n w t hw ht => ?_⟩
  · refine ⟨leadingInteger text, Builtin.returns_int rfl, fun k hk hlow hhigh => ?_,
      fun hnone => ?_⟩
    · have hback := Int32.toInt_ofInt_of_le hlow hhigh
      rw [leadingInteger_of_numeral h (hback.symm ▸ hk), hback]
    · exact leadingInteger_of_not_numeral h fun n hn => hnone ⟨n.toInt, hn, n.le_toInt, n.toInt_lt⟩
  · have hnumeral := Text.numeral_writeInteger n.toInt
    have hleading := hnumeral.leading hw ht
    rw [← List.append_assoc, ← String.toList_append, ← String.toList_append] at hleading
    exact ⟨_, Builtin.returns_string rfl,
      Builtin.returns_int (congrArg int (leadingInteger_of_numeral hleading hnumeral))⟩

/-- A number that is too large for 32 bits is not cut, and the least integer is read back from
between a wide blank and a letter. -/
theorem int_reads_leading_least :
    Builtin.int.Returns [str " 2147483648"] (int 0) ∧
    ∃ s, Builtin.string.Returns [int Int32.minValue] (str s) ∧
      Builtin.int.Returns [str ("\u3000" ++ s ++ "é")] (int Int32.minValue) := by
  obtain ⟨-, hreads, hback⟩ := int_reads_leading
  have hdigits : Text.Digits "2147483648".toList 2147483648 := ⟨by simp, by decide⟩
  have hnumeral : Text.Numeral "2147483648".toList 2147483648 := .unsigned hdigits (by decide)
  have hblank : ∀ c ∈ [' '], Text.isBlank c = true := by simp [Text.isBlank]
  have hend : ∀ c ∈ ([] : List Char).head?, c.isDigit = false := by simp
  have hleading : Text.Leading " 2147483648".toList _ _ _ := hnumeral.leading hblank hend
  obtain ⟨n, hn, -, hzero⟩ := hreads _ _ _ _ hleading
  have htooLarge : ¬ ∃ k : ℤ, Text.Numeral "2147483648".toList k ∧ -2 ^ 31 ≤ k ∧ k < 2 ^ 31 := by
    rintro ⟨k, hk, -, hhigh⟩
    rw [← hnumeral.unique hk] at hhigh
    omega
  rw [hzero htooLarge] at hn
  exact ⟨hn, hback Int32.minValue "\u3000" "é" (by simp [Text.isBlank]) (by simp)⟩

end Value

end StackMachine
