import Mathlib.Data.Bool.Basic
import Mathlib.Data.Int.Order.Basic
import Mathlib.Order.Basic
import StackMachine.Proofs.Native.Arithmetic

/-!
# Comparisons

The six comparisons on pairs of values of any kind. Which rule applies depends on the kinds of both
operands, but not on their order, so a comparison in one order is the mirrored comparison in the
other. Comparisons fail where no rule applies, and then in both orders.

## Main definitions

* `Comparison`: the six comparisons, with their spelling and their mirror image.

## Main results

* `Value.equal_comm`: values are equal in both orders, lists and dictionaries included.
* `Value.binary_mirrored`: a comparison of two values is the mirrored comparison in reverse order.
* `Value.comparisons_coherent`: this for every comparison, with what relates the comparisons of one
  pair.
-/

namespace StackMachine

/-- The comparisons. -/
inductive Comparison
  /-- Equality. -/
  | eq
  /-- Inequality. -/
  | ne
  /-- Less. -/
  | lt
  /-- Greater. -/
  | gt
  /-- Less or equal. -/
  | le
  /-- Greater or equal. -/
  | ge

namespace Comparison

/-- How a comparison is spelled. -/
def spelling : Comparison → String
  | eq => "=="
  | ne => "!="
  | lt => "<"
  | gt => ">"
  | le => "<="
  | ge => ">="

/-- The operator that a comparison is. -/
def operator : Comparison → Operator
  | eq => .eq
  | ne => .ne
  | lt => .lt
  | gt => .gt
  | le => .le
  | ge => .ge

/-- The comparison that says the same of the operands in reverse order. -/
def mirrored : Comparison → Comparison
  | eq => eq
  | ne => ne
  | lt => gt
  | gt => lt
  | le => ge
  | ge => le

/-- A comparison is read from its spelling. -/
theorem ofText?_spelling (c : Comparison) : Operator.ofText? c.spelling = some c.operator := by
  cases c <;> rfl

end Comparison

theorem Double.equal_comm (x y : Double) : x.equal y = y.equal x := by
  rw [Double.equal, Double.equal, Bool.and_comm (!x.isNaN), decide_eq_decide.mpr eq_comm]

namespace Value

/-! ### Equality of values -/

mutual

/-- Values are equal in both orders. -/
theorem equal_comm (left right : Value) : equal left right = equal right left := by
  cases left with
  | list xs =>
    cases right with
    | list ys => simpa only [equal] using equalItems_comm xs ys
    | _ => simp [equal, isInteger, integer?]
  | dict xs =>
    cases right with
    | dict ys => simpa only [equal] using equalEntries_comm xs ys
    | _ => simp [equal, isInteger, integer?]
  | double x => cases right <;> simp [equal, Double.equal_comm x]
  | pointer p => cases right <;> simp [equal, isInteger, integer?, eq_comm]
  | _ => cases right <;> simp [equal, isInteger, integer?, Bool.beq_comm, Double.equal_comm]

/-- So may lists of values. -/
theorem equalItems_comm (xs ys : List Value) : equalItems xs ys = equalItems ys xs := by
  cases xs with
  | nil => cases ys <;> rfl
  | cons x xs =>
    cases ys with
    | nil => rfl
    | cons y ys => rw [equalItems, equalItems, equal_comm x y, equalItems_comm xs ys]

theorem equalEntries_comm (xs ys : List (String × Value)) :
    equalEntries xs ys = equalEntries ys xs := by
  cases xs with
  | nil => cases ys <;> rfl
  | cons x xs =>
    obtain ⟨j, x⟩ := x
    cases ys with
    | nil => rfl
    | cons y ys =>
      obtain ⟨k, y⟩ := y
      rw [equalEntries, equalEntries, Bool.beq_comm, equal_comm x y, equalEntries_comm xs ys]

end

/-! ### One rule at a time -/

variable (c : Comparison) (line : ℕ)

/-- Doubles compare from the other side with the mirrored operator. -/
theorem doubleOp_mirrored (x y : Double) :
    (doubleOp x y c.spelling line).toOption = (doubleOp y x c.mirrored.spelling line).toOption := by
  simp only [doubleOp, Comparison.ofText?_spelling]
  cases c <;> simp [Comparison.operator, Comparison.mirrored, Double.equal_comm x]

/-- So do integers. -/
theorem integerOp_mirrored (a b : Int64) :
    (integerOp a b c.spelling line).toOption =
      (integerOp b a c.mirrored.spelling line).toOption := by
  simp only [integerOp, Comparison.ofText?_spelling]
  cases c <;> simp [Comparison.operator, Comparison.mirrored, eq_comm (a := a)]

theorem textOp_mirrored (a b : String) :
    (textOp a b c.spelling line).toOption = (textOp b a c.mirrored.spelling line).toOption := by
  simp only [textOp, Comparison.ofText?_spelling]
  cases c <;> simp [Comparison.operator, Comparison.mirrored, Bool.beq_comm, bne, Except.toOption]

/-- So do pointers, which can only be equal or not. -/
theorem pointerOp_mirrored (left right : Value) :
    (pointerOp left right c.spelling line).toOption =
      (pointerOp right left c.mirrored.spelling line).toOption := by
  simp only [pointerOp, Comparison.ofText?_spelling]
  cases left.pointer? <;> cases right.pointer? <;> cases c <;>
    simp [Comparison.operator, Comparison.mirrored, Except.toOption, eq_comm, Bool.and_comm,
      bne_comm]

/-! ### Which rule applies -/

/-- The rule that decides a comparison of two values, in both orders and on a line. -/
inductive ComparedBy (left right : Value) (line : ℕ) : Prop
  /-- As doubles, if one of them is a double. -/
  | doubles (h : ∀ operator,
        binary left right operator line = doubleOp left.toDouble right.toDouble operator line)
      (hback : ∀ operator,
        binary right left operator line = doubleOp right.toDouble left.toDouble operator line)
  /-- As integers. -/
  | integers (a b : Int64)
      (h : ∀ operator, binary left right operator line = integerOp a b operator line)
      (hback : ∀ operator, binary right left operator line = integerOp b a operator line)
  /-- As texts. -/
  | texts (a b : String)
      (h : ∀ operator, binary left right operator line = textOp a b operator line)
      (hback : ∀ operator, binary right left operator line = textOp b a operator line)
  /-- As pointers, if one of them is a pointer. -/
  | pointers (h : ∀ operator, binary left right operator line = pointerOp left right operator line)
      (hback : ∀ operator, binary right left operator line = pointerOp right left operator line)
  /-- Entry by entry. -/
  | entries (xs ys : List (String × Value)) (hleft : left = dict xs) (hright : right = dict ys)
  /-- Not at all. -/
  | mismatch
      (h : ∀ c : Comparison,
        binary left right c.spelling line = .error (.onLine .operandMismatch line))
      (hback : ∀ c : Comparison,
        binary right left c.spelling line = .error (.onLine .operandMismatch line))

/-- For any two values one of the rules applies. -/
theorem comparedBy (left right : Value) : ComparedBy left right line := by
  -- A double on either side decides before the kinds are looked at.
  by_cases hdouble : (left.isDouble || right.isDouble) = true
  · exact .doubles (fun _ => if_pos hdouble) fun _ => if_pos (Bool.or_comm _ _ ▸ hdouble)
  cases left with
  | double x => simp [isDouble] at hdouble
  | pointer p =>
    cases right with
    | double y => simp [isDouble] at hdouble
    | _ => exact .pointers (fun _ => rfl) fun _ => rfl
  | int n | long n =>
    cases right with
    | double y => simp [isDouble] at hdouble
    | pointer p => exact .pointers (fun _ => rfl) fun _ => rfl
    | int m | long m => exact .integers _ _ (fun _ => rfl) fun _ => rfl
    | _ => refine .mismatch (fun c => ?_) fun c => ?_ <;> cases c <;> rfl
  | str a =>
    cases right with
    | double y => simp [isDouble] at hdouble
    | pointer p => exact .pointers (fun _ => rfl) fun _ => rfl
    | str b => exact .texts a b (fun _ => rfl) fun _ => rfl
    | _ => refine .mismatch (fun c => ?_) fun c => ?_ <;> cases c <;> rfl
  | dict xs =>
    cases right with
    | double y => simp [isDouble] at hdouble
    | pointer p => exact .pointers (fun _ => rfl) fun _ => rfl
    | dict ys => exact .entries xs ys rfl rfl
    | _ => refine .mismatch (fun c => ?_) fun c => ?_ <;> cases c <;> rfl
  | bool b | null | list items =>
    cases right with
    | double y => simp [isDouble] at hdouble
    | pointer p => exact .pointers (fun _ => rfl) fun _ => rfl
    | _ => refine .mismatch (fun c => ?_) fun c => ?_ <;> cases c <;> rfl

/-- Dictionaries have equality and no other comparison. -/
theorem binary_dict (xs ys : List (String × Value)) :
    binary (dict xs) (dict ys) c.spelling line =
      if c.operator = .eq then .ok (bool (equalEntries xs ys))
      else .error (.onLine .operandMismatch line) := by
  cases c <;> rfl

/-- A comparison of two values is the mirrored comparison in reverse order: both fail, or both give
the same answer. -/
theorem binary_mirrored (left right : Value) :
    (binary left right c.spelling line).toOption =
      (binary right left c.mirrored.spelling line).toOption := by
  cases comparedBy line left right with
  | doubles h hback => rw [h, hback, doubleOp_mirrored]
  | integers a b h hback => rw [h, hback, integerOp_mirrored]
  | texts a b h hback => rw [h, hback, textOp_mirrored]
  | pointers h hback => rw [h, hback, pointerOp_mirrored]
  | entries xs ys hleft hright =>
    rw [hleft, hright, binary_dict, binary_dict, equalEntries_comm]
    cases c <;> rfl
  | mismatch h hback => rw [h, hback]

/-! ### Equality and inequality -/

/-- Two answers that are opposite. -/
def Opposite (a b : Value) : Prop := ∃ t : Bool, a = bool t ∧ b = bool !t

/-- For pointers, unequal is the opposite of equal. -/
theorem opposite_pointerOp {line : ℕ} {left right a b : Value}
    (heq : pointerOp left right "==" line = .ok a)
    (hne : pointerOp left right "!=" line = .ok b) : Opposite a b := by
  have hnull {v : Value} (h : v.pointer? = none) : v.countsAsNull = true := by rw [countsAsNull, h]
  rw [pointerOp, show Operator.ofText? "==" = some .eq from rfl] at heq
  rw [pointerOp, show Operator.ofText? "!=" = some .ne from rfl] at hne
  -- Unless both are pointers, one counts as null and the other decides both answers.
  cases hleft : left.pointer? with
  | none =>
    rw [hleft, hnull hleft] at heq hne
    cases heq
    cases hne
    exact ⟨_, rfl, by simp⟩
  | some p =>
    cases hright : right.pointer? with
    | none =>
      rw [hleft, hright, hnull hright] at heq hne
      cases heq
      cases hne
      exact ⟨_, rfl, by simp⟩
    | some q =>
      rw [hleft, hright] at heq hne
      cases heq
      cases hne
      exact ⟨_, rfl, by simp⟩

/-- Where a pair has both equality and inequality, their answers are opposite. -/
theorem opposite_of_ok {line : ℕ} {left right a b : Value}
    (heq : binary left right "==" line = .ok a) (hne : binary left right "!=" line = .ok b) :
    Opposite a b := by
  cases comparedBy line left right with
  | doubles h _ =>
    rw [h] at heq hne
    cases heq
    cases hne
    exact ⟨_, rfl, rfl⟩
  | integers x y h _ =>
    rw [h] at heq hne
    cases heq
    cases hne
    exact ⟨_, rfl, by rw [← decide_not]⟩
  | texts x y h _ =>
    rw [h] at heq hne
    cases heq
    cases hne
    exact ⟨_, rfl, rfl⟩
  | pointers h _ =>
    rw [h] at heq hne
    exact opposite_pointerOp heq hne
  | entries xs ys hleft hright =>
    rw [hleft, hright] at hne
    cases hne
  | mismatch h _ => cases (h .eq).symm.trans heq

/-- An integer of either width can be compared as a 64-bit integer. -/
theorem exists_integer? {v : Value} (h : v.isInteger = true) : ∃ n, v.integer? = some n := by
  cases v with
  | int n | long n => exact ⟨_, rfl⟩
  | _ => cases h

/-- Two integers are less, equal or greater, and only one of these. -/
theorem integerOp_trichotomy (a b : Int64) :
    ∃ less same greater : Bool, integerOp a b "<" line = .ok (bool less) ∧
      integerOp a b "==" line = .ok (bool same) ∧ integerOp a b ">" line = .ok (bool greater) ∧
      less.toNat + same.toNat + greater.toNat = 1 := by
  refine ⟨decide (a < b), decide (a = b), decide (b < a), rfl, rfl, rfl, ?_⟩
  simp only [Int64.lt_iff_toInt_lt, ← Int64.toInt_inj]
  rcases lt_trichotomy a.toInt b.toInt with h | h | h
  · simp [h, h.ne, h.not_gt]
  · simp [h]
  · simp [h, h.ne', h.not_gt]

/-- A comparison succeeds in one order if and only if the mirrored one does in the other, with the
same answer. -/
theorem binary_eq_ok_iff (left right v : Value) :
    binary left right c.spelling line = .ok v ↔
      binary right left c.mirrored.spelling line = .ok v := by
  have hok {x : Except Fault Value} : x = .ok v ↔ x.toOption = some v := by
    cases x <;> simp [Except.toOption]
  rw [hok, hok, binary_mirrored]

/-- The comparisons of any two values are coherent. Equality and inequality do not depend on the
order of the operands, and have opposite answers where both succeed; less and greater, and less or
equal and greater or equal, are each other in reverse order; and of two integers exactly one of
less, equal and greater holds. -/
theorem comparisons_coherent (line : ℕ) :
    (∀ left right v : Value,
      binary left right "==" line = .ok v ↔ binary right left "==" line = .ok v) ∧
    (∀ left right v : Value,
      binary left right "!=" line = .ok v ↔ binary right left "!=" line = .ok v) ∧
    (∀ left right a b : Value, binary left right "==" line = .ok a →
      binary left right "!=" line = .ok b → ∃ t : Bool, a = bool t ∧ b = bool !t) ∧
    (∀ left right v : Value,
      binary left right "<" line = .ok v ↔ binary right left ">" line = .ok v) ∧
    (∀ left right v : Value,
      binary left right "<=" line = .ok v ↔ binary right left ">=" line = .ok v) ∧
    ∀ left right : Value, left.isInteger = true → right.isInteger = true →
      ∃ less same greater : Bool, binary left right "<" line = .ok (bool less) ∧
        binary left right "==" line = .ok (bool same) ∧
        binary left right ">" line = .ok (bool greater) ∧
        less.toNat + same.toNat + greater.toNat = 1 := by
  refine ⟨binary_eq_ok_iff .eq line, binary_eq_ok_iff .ne line, fun _ _ _ _ => opposite_of_ok,
    binary_eq_ok_iff .lt line, binary_eq_ok_iff .le line, fun left right hleft hright => ?_⟩
  obtain ⟨a, ha⟩ := exists_integer? hleft
  obtain ⟨b, hb⟩ := exists_integer? hright
  simp only [binary_of_integers _ line ha hb]
  exact integerOp_trichotomy line a b

/-- A null pointer equals the null value, and an integer has its place in the order whatever its
width. -/
theorem comparisons_coherent_null :
    (∃ t : Bool, bool true = bool t ∧ bool false = bool !t) ∧
    binary (pointer (.null "int")) null "==" 1 = .ok (bool true) ∧
    binary (pointer (.null "int")) null "!=" 1 = .ok (bool false) ∧
    ∃ less same greater : Bool, binary (int 2) (long 3) "<" 1 = .ok (bool less) ∧
      binary (int 2) (long 3) "==" 1 = .ok (bool same) ∧
      binary (int 2) (long 3) ">" 1 = .ok (bool greater) ∧
      less.toNat + same.toNat + greater.toNat = 1 := by
  have heq : binary (pointer (.null "int")) null "==" 1 = .ok (bool true) := rfl
  have hne : binary (pointer (.null "int")) null "!=" 1 = .ok (bool false) := rfl
  obtain ⟨-, -, hopposite, -, -, hintegers⟩ := comparisons_coherent 1
  exact ⟨hopposite _ _ _ _ heq hne, heq, hne, hintegers (int 2) (long 3) rfl rfl⟩

end Value

end StackMachine
