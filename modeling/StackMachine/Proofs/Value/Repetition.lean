import Mathlib.Data.Int.ModEq
import Mathlib.Tactic.Linarith
import StackMachine.Proofs.Value.Arithmetic

/-!
# Repeating a list

A list times an integer is the list one copy after the other. A count below zero counts as zero, and
the result has at most `2 ^ 26` items. Length and count are multiplied as words of 64 bits. Whether
the product fits is checked, so none that wraps around is ever taken for a short list.

## Main definitions

* `Value.IsRepetition`: a list is made of copies of another one, said item by item.

## Main results

* `Value.map_toNat_checkedProduct`: the product of two words is exact, if there is one.
* `Value.toList_repeatOnto`: what the loop over the copies puts together.
* `Value.isRepetition_flatten`: copies in a row are a repetition.
* `Value.Denotes.binary_mul_of_le`, `Value.Denotes.binary_mul_of_lt`: a list times an integer of
  either width, within the bound and above it.
* `Machine.step_of_applies`: a step that applies an operator pushes its result.
* `Value.list_repetition_exact`: lists are repeated exactly or not at all, and counts add up.
-/

namespace StackMachine

namespace Value

/-- The list `result` is made of so many copies of `items`, one after the other. -/
structure IsRepetition (items : List Value) (copies : ℕ) (result : List Value) : Prop where
  /-- It has as many items as the copies have together. -/
  length_eq : result.length = items.length * copies
  /-- Its items are those of the list, over and over. -/
  getElem?_eq : ∀ i < result.length, result[i]? = items[i % items.length]?

variable {items : List Value} {count left right : Value} {k a b : ℤ}

theorem isRepetition_flatten (items : List Value) (copies : ℕ) :
    IsRepetition items copies (List.replicate copies items).flatten := by
  induction copies with
  | zero => exact ⟨rfl, fun i hi => absurd hi (Nat.not_lt_zero i)⟩
  | succ copies ih =>
    rw [List.replicate_succ, List.flatten_cons]
    refine ⟨?_, fun i hi => ?_⟩
    · rw [List.length_append, ih.length_eq, Nat.mul_succ, Nat.add_comm]
    · rw [List.length_append] at hi
      by_cases hfirst : i < items.length
      · rw [List.getElem?_append_left hfirst, Nat.mod_eq_of_lt hfirst]
      · -- Behind the first copy the position counts from its end.
        rw [not_lt] at hfirst
        rw [List.getElem?_append_right hfirst, ih.getElem?_eq _ (by omega),
          ← Nat.mod_eq_sub_mod hfirst]

/-! ### The operator -/

/-- The product of two words is the exact one, or none if that does not fit. -/
theorem map_toNat_checkedProduct (m n : UInt64) :
    (checkedProduct m n).map UInt64.toNat =
      if m.toNat * n.toNat < 2 ^ 64 then some (m.toNat * n.toNat) else none := by
  rw [checkedProduct, BitVec.umulOverflow]
  simp only [UInt64.toNat_toBitVec, ge_iff_le, decide_eq_true_eq]
  split
  next hover => rw [if_neg (not_lt.mpr hover), Option.map_none]
  next hfits =>
    rw [not_le] at hfits
    rw [if_pos hfits, Option.map_some, UInt64.toNat_mul, Nat.mod_eq_of_lt hfits]

/-- The bound is decided on the exact product. -/
theorem isNone_filter_checkedProduct (m n : UInt64) :
    ((checkedProduct m n).filter (· ≤ maxRepeated)).isNone = true ↔ 2 ^ 26 < m.toNat * n.toNat := by
  have hexact := map_toNat_checkedProduct m n
  have hmost : maxRepeated.toNat = 2 ^ 26 := by decide
  cases hproduct : checkedProduct m n with
  | none =>
    rw [hproduct] at hexact
    split at hexact
    · cases hexact
    · simp only [Option.filter_none, Option.isNone_none, true_iff]
      omega
  | some product =>
    rw [hproduct] at hexact
    split at hexact
    · have htotal : product.toNat = m.toNat * n.toNat := Option.some.inj hexact
      rw [← htotal, ← hmost, ← not_le, ← UInt64.le_iff_toNat_le]
      simp [Option.filter]
    · cases hexact

/-- The count as a word; one below zero counts as zero. -/
theorem toNat_toUInt64_max (n : Int64) : (max n 0).toUInt64.toNat = n.toInt.toNat := by
  have hword : ∀ n : Int64, 0 ≤ n.toInt → n.toUInt64.toNat = n.toInt.toNat := by
    intro n hn
    have hlt := n.toUInt64.toNat_lt
    have hread := Native.toInt_eq n
    split at hread <;> omega
  have hzero : (0 : Int64).toInt = 0 := rfl
  rw [show max n 0 = if n ≤ 0 then 0 else n from rfl]
  split
  next hneg =>
    rw [Int64.le_iff_toInt_le] at hneg
    rw [hword 0 le_rfl]
    omega
  next hpos =>
    rw [Int64.le_iff_toInt_le] at hpos
    exact hword n (by omega)

/-- The loop puts one copy after the other behind what is there. -/
theorem toList_repeatOnto (items : List Value) (times : ℕ) (out : Array Value) :
    (repeatOnto items times out).toList =
      out.toList ++ (List.replicate times items).flatten := by
  induction times generalizing out with
  | zero => simp [repeatOnto]
  | succ times ih =>
    rw [repeatOnto, ih, List.replicate_succ, List.flatten_cons, ← List.append_assoc]
    congr 1
    exact Array.toList_appendList

/-- A list that is repeated, by the number of items of the result. -/
theorem repeatList_eq {n : Int64} (hword : items.length < 2 ^ 64) (line : ℕ) :
    repeatList items n line =
      if items.length * n.toInt.toNat ≤ 2 ^ 26 then
        .ok (list (List.replicate n.toInt.toNat items).flatten)
      else .error (.onLine (.repetitionTooLarge items.length n.toInt.toNat) line) := by
  have htimes := toNat_toUInt64_max n
  have hlength : (UInt64.ofNat items.length).toNat = items.length := UInt64.toNat_ofNat_of_lt hword
  have hbound := isNone_filter_checkedProduct (UInt64.ofNat items.length) (max n 0).toUInt64
  rw [hlength, htimes] at hbound
  have hzero : (max n 0).toUInt64 = 0 ↔ n.toInt.toNat = 0 := by
    rw [← htimes, ← UInt64.toNat_inj]
    rfl
  rw [repeatList]
  simp only [Bool.or_eq_true, List.isEmpty_iff, decide_eq_true_eq, htimes, hzero]
  split
  -- Without items or copies there is nothing to be bounded.
  next hnothing =>
    rcases hnothing with rfl | hnone
    · simp
    · simp [hnone]
  next =>
    split
    next htoo => rw [if_neg (not_le.mpr (hbound.mp (by rw [htoo]; rfl)))]
    next htotal =>
      rw [if_pos (not_lt.mp fun htoo => by simpa [htotal] using hbound.mpr htoo),
        toList_repeatOnto, List.nil_append]

/-- A list times an integer of either width repeats the list. -/
theorem Denotes.exists_repeatList (hcount : count.Denotes k) (items : List Value) :
    ∃ n : Int64, (∀ line, binary (list items) count "*" line = repeatList items n line) ∧
      n.toInt.toNat = (max k 0).toNat := by
  cases hcount with
  | narrow n => exact ⟨n.toInt64, fun _ => rfl, by rw [n.toInt_toInt64]; omega⟩
  | wide n => exact ⟨n, fun _ => rfl, by omega⟩

theorem length_mul_toNat (items : List Value) (k : ℤ) :
    ((items.length * (max k 0).toNat : ℕ) : ℤ) = items.length * max k 0 := by
  rw [Nat.cast_mul, Int.toNat_of_nonneg (le_max_right k 0)]

/-- A repetition within the limit is made. -/
theorem Denotes.binary_mul_of_le (hcount : count.Denotes k) (hword : items.length < 2 ^ 64)
    (h : items.length * max k 0 ≤ 2 ^ 26) (line : ℕ) :
    binary (list items) count "*" line =
      .ok (list (List.replicate (max k 0).toNat items).flatten) := by
  obtain ⟨n, hbinary, hn⟩ := hcount.exists_repeatList items
  rw [← length_mul_toNat] at h
  rw [hbinary, repeatList_eq hword, hn, if_pos (by exact_mod_cast h)]

/-- One beyond the limit is refused, with the length and the number of copies. -/
theorem Denotes.binary_mul_of_lt (hcount : count.Denotes k) (hword : items.length < 2 ^ 64)
    (h : 2 ^ 26 < items.length * max k 0) (line : ℕ) :
    binary (list items) count "*" line =
      .error (.onLine (.repetitionTooLarge items.length (max k 0).toNat) line) := by
  obtain ⟨n, hbinary, hn⟩ := hcount.exists_repeatList items
  rw [← length_mul_toNat] at h
  rw [hbinary, repeatList_eq hword, hn, if_neg (not_le.mpr (by exact_mod_cast h))]

/-! ### Counts that are added -/

/-- The sum of two counts that are not negative is exact, unless there are no items to repeat. -/
theorem Denotes.exists_sum (hleft : left.Denotes a) (hright : right.Denotes b) (ha : 0 ≤ a)
    (hb : 0 ≤ b) (hword : items.length < 2 ^ 64) (h : items.length * (a + b) ≤ 2 ^ 26) :
    ∃ sum, (∀ line, binary left right "+" line = .ok sum) ∧
      ∀ line, binary (list items) sum "*" line =
        .ok (list (List.replicate (a + b).toNat items).flatten) := by
  obtain ⟨n, hsum, hmod, -⟩ := hleft.computes_add hright
  refine ⟨long n, hsum, fun line => ?_⟩
  by_cases hempty : items = []
  · subst hempty
    rw [(Denotes.wide n).binary_mul_of_le hword (by simp)]
    simp
  · have hlength : (1 : ℤ) ≤ items.length := by
      exact_mod_cast List.length_pos_of_ne_nil hempty
    have hbound : a + b ≤ 2 ^ 26 := by nlinarith
    have hn : n.toInt = a + b := toInt_eq_of_modEq hmod (by omega) (by omega)
    have hmax : max n.toInt 0 = a + b := by omega
    rw [(Denotes.wide n).binary_mul_of_le hword (by rwa [hmax]), hmax]

/-- Copies for two counts, one after the other, are the copies for their sum. -/
theorem Denotes.exists_binary_add (hleft : left.Denotes a) (hright : right.Denotes b) (ha : 0 ≤ a)
    (hb : 0 ≤ b) (hword : items.length < 2 ^ 64) (h : items.length * (a + b) ≤ 2 ^ 26) :
    ∃ xs ys, (∀ line, binary (list items) left "*" line = .ok xs) ∧
      (∀ line, binary (list items) right "*" line = .ok ys) ∧
      ∀ line, binary xs ys "+" line =
        .ok (list (List.replicate (a + b).toNat items).flatten) := by
  have hlength : (0 : ℤ) ≤ items.length := Int.natCast_nonneg _
  rw [mul_add] at h
  have hleft' : items.length * max a 0 ≤ 2 ^ 26 := by
    rw [max_eq_left ha]
    exact (le_add_of_nonneg_right (mul_nonneg hlength hb)).trans h
  have hright' : items.length * max b 0 ≤ 2 ^ 26 := by
    rw [max_eq_left hb]
    exact (le_add_of_nonneg_left (mul_nonneg hlength ha)).trans h
  refine ⟨_, _, hleft.binary_mul_of_le hword hleft', hright.binary_mul_of_le hword hright',
    fun line => ?_⟩
  rw [max_eq_left ha, max_eq_left hb, Int.toNat_add ha hb, List.replicate_add, List.flatten_append]
  rfl

end Value

namespace Machine

/-- A step that applies an operator pushes its result in place of the operands. -/
theorem step_of_applies {runner : Runner} {m : Machine} {line : ℕ} {left right value : Value}
    {operator : String} (h : m.Applies line left right operator)
    (hvalue : Value.binary left right operator line = .ok value) :
    (step runner).run m =
      (.ok (), { m with stack := value :: m.stack.drop 2, pc := m.pc + 1 }) := by
  obtain ⟨instruction, hinstruction, hop, hoperator, rfl⟩ := h.instruction
  obtain ⟨stack, hstack⟩ := h.operands
  rw [step_next hinstruction (Instruction.run_execute_binary hop hoperator hstack hvalue), hstack]
  rfl

end Machine

namespace Value

/-- Repeating a list is bounded and exact. For a list that a word can count and an integer of either
width the result is the list repeated, if it has at most `2 ^ 26` items, and otherwise a memory
fault on the line of the operator; in both cases this is also what a machine does that applies the
operator. So the copies for a sum of two counts are those for the one and then those for the
other. -/
theorem list_repetition_exact :
    (∀ (items : List Value) (count : Value) (k : ℤ) (line : ℕ), items.length < 2 ^ 64 →
      count.Denotes k →
      (items.length * max k 0 ≤ 2 ^ 26 →
        ∃ repeated, IsRepetition items (max k 0).toNat repeated ∧
          binary (list items) count "*" line = .ok (list repeated) ∧
          ∀ (runner : Runner) (m : Machine), m.Applies line (list items) count "*" →
            (Machine.step runner).run m =
              (.ok (), { m with stack := list repeated :: m.stack.drop 2, pc := m.pc + 1 })) ∧
      (2 ^ 26 < items.length * max k 0 →
        ∃ fault, binary (list items) count "*" line = .error fault ∧
          fault.cause.kind = .memory ∧ fault.location = Fault.locate line ∧
          (1 ≤ line → fault.line? = some line) ∧
          ∀ (runner : Runner) (m : Machine) (steps : ℕ), m.Applies line (list items) count "*" →
            (Machine.runSteps runner (steps + 1) m).1 = .failed fault)) ∧
    ∀ (items : List Value) (left right : Value) (a b : ℤ) (line : ℕ), items.length < 2 ^ 64 →
      left.Denotes a → right.Denotes b → 0 ≤ a → 0 ≤ b → items.length * (a + b) ≤ 2 ^ 26 →
        ∃ sum xs ys zs, binary left right "+" line = .ok sum ∧
          binary (list items) left "*" line = .ok xs ∧
          binary (list items) right "*" line = .ok ys ∧
          binary xs ys "+" line = .ok zs ∧ binary (list items) sum "*" line = .ok zs ∧
          ∀ total : Value, total.Denotes (a + b) →
            binary (list items) total "*" line = .ok zs := by
  refine ⟨fun items count k line hword hcount => ⟨fun hle => ?_, fun hlt => ?_⟩, ?_⟩
  · have hvalue := hcount.binary_mul_of_le hword hle line
    exact ⟨_, isRepetition_flatten items _, hvalue,
      fun _ _ h => Machine.step_of_applies h hvalue⟩
  · have hfault := hcount.binary_mul_of_lt hword hlt line
    exact ⟨_, hfault, rfl, rfl, Fault.line?_onLine,
      fun _ _ steps h => Machine.runSteps_of_applies h steps hfault⟩
  · intro items left right a b line hword hleft hright ha hb h
    obtain ⟨sum, hsum, hrepeated⟩ := hleft.exists_sum hright ha hb hword h
    obtain ⟨xs, ys, hxs, hys, hzs⟩ := hleft.exists_binary_add hright ha hb hword h
    refine ⟨sum, xs, ys, _, hsum line, hxs line, hys line, hzs line, hrepeated line,
      fun total htotal => ?_⟩
    -- The count of the sum is not negative, so it is the number of copies.
    have hmax : max (a + b) 0 = a + b := max_eq_left (add_nonneg ha hb)
    rw [htotal.binary_mul_of_le hword (by rwa [hmax]), hmax]

/-- A machine that is about to repeat a list of four items, on the second line of its source, so
often that the product of length and count wraps around to zero. -/
def wrapping : Machine where
  program := [{ opcode := .binaryOp, operands := ["*"], line := 2 }]
  stack := [long 0x4000000000000000, list [null, null, null, null]]
  running := true

/-- Four items repeated so often that the product wraps to zero are refused all the same. -/
theorem list_repetition_exact_wrapping :
    4 * 2 ^ 62 % 2 ^ 64 = 0 ∧
    (∃ fault : Fault, fault.cause.kind = .memory ∧ fault.line? = some 2 ∧
      (Machine.runSteps (fun m => (.unfinished, m)) 1 wrapping).1 = .failed fault) ∧
    (∃ repeated, IsRepetition [int 1, null] 2 repeated ∧
      binary (list [int 1, null]) (int 2) "*" 1 = .ok (list repeated)) ∧
    ∃ sum xs ys zs, binary (int 2) (long 3) "+" 1 = .ok sum ∧
      binary (list [int 1]) (int 2) "*" 1 = .ok xs ∧
      binary (list [int 1]) (long 3) "*" 1 = .ok ys ∧
      binary xs ys "+" 1 = .ok zs ∧ binary (list [int 1]) sum "*" 1 = .ok zs := by
  have hmany : Denotes (long 0x4000000000000000) (2 ^ 62) := .wide 0x4000000000000000
  have htwo : Denotes (int 2) 2 := .narrow 2
  have hthree : Denotes (long 3) 3 := .wide 3
  have happlies : wrapping.Applies 2 (list [null, null, null, null]) (long 0x4000000000000000)
      "*" :=
    ⟨rfl, ⟨_, rfl, rfl, rfl, rfl⟩, _, rfl⟩
  obtain ⟨hrepeat, hadds⟩ := list_repetition_exact
  obtain ⟨fault, -, hkind, -, hline, hruns⟩ :=
    (hrepeat [null, null, null, null] _ (2 ^ 62) 2 (by simp) hmany).2 (by simp)
  obtain ⟨repeated, hrepeated, hvalue, -⟩ :=
    (hrepeat [int 1, null] _ 2 1 (by simp) htwo).1 (by simp)
  obtain ⟨sum, xs, ys, zs, hsum, hxs, hys, hzs, hsame, -⟩ :=
    hadds [int 1] _ _ 2 3 1 (by simp) htwo hthree (by simp) (by simp) (by simp)
  exact ⟨by decide, ⟨fault, hkind, hline (by decide), hruns _ wrapping 0 happlies⟩,
    ⟨repeated, hrepeated, hvalue⟩, sum, xs, ys, zs, hsum, hxs, hys, hzs, hsame⟩

end Value

end StackMachine
