import StackMachine.Proofs.Native.Arithmetic
import StackMachine.Proofs.Native.Frame

/-!
# The code of operators

Compiled code takes its operands from the stack into registers, works on them, and pushes the
result. Whatever registers the ring hands out, the result is what the operator gives.

## Main definitions

* `Native.Computes`: code that replaces operands on the stack by a result.
* `Native.Known.word`: the word that stands for a known value.

## Main results

* `Native.Draft.binaryCode_computes`: the code of a binary operator on integers.
* `Native.Draft.negate_computes`, `Native.Draft.truthOf_computes`: the code of the unary operators.
-/

namespace StackMachine.Native

open Layout (IsFree)

/-! ### Registers in turn -/

namespace RegisterRing

/-- A register only depends on its position in the ring. -/
theorem nth_mod (position : Nat) : nth position = nth (position % 14) := by
  rw [nth, nth]
  congr 2
  exact (Nat.mod_mod _ _).symm

theorem isFree_nth (position : Nat) : IsFree (nth position) := by
  have h : ∀ position < 14, IsFree (nth position) := by decide
  rw [nth_mod]
  exact h _ (Nat.mod_lt _ (by decide))

/-- The compiler takes only registers that are free to change. -/
theorem isFree_allocate (ring : RegisterRing) : IsFree ring.allocate.1 := isFree_nth _

/-- Two registers in turn are different. -/
theorem allocate_ne (ring : RegisterRing) : ring.allocate.2.allocate.1 ≠ ring.allocate.1 := by
  have h : ∀ position < 14, nth ((position + 1) % 14) ≠ nth position := by decide
  change nth ((ring.next + 1) % 14) ≠ nth ring.next
  rw [Nat.add_mod, nth_mod ring.next]
  exact h _ (Nat.mod_lt _ (by decide))

/-- There is a register apart from those that a division needs. -/
theorem allocateExcept_not_mem (ring : RegisterRing) :
    (ring.allocateExcept [.rax, .rdx]).1 ∉ [Register.rax, .rdx] := by
  -- The ring goes past `rcx`, so the search does not fail.
  obtain ⟨k, hk, hrcx⟩ : ∃ k < 14, nth (ring.next + k) = .rcx := by
    have h : ∀ m < 14, ∃ k < 14, nth ((m + k) % 14) = .rcx := by decide
    obtain ⟨k, hk, hrcx⟩ := h (ring.next % 14) (Nat.mod_lt _ (by decide))
    rw [Nat.mod_add_mod, ← nth_mod] at hrcx
    exact ⟨k, hk, hrcx⟩
  rw [allocateExcept]
  cases hfind : (List.range registers.length).find? fun k =>
      !([.rax, .rdx] : List Register).contains (nth (ring.next + k)) with
  | none =>
    have hnot := List.find?_eq_none.mp hfind k (List.mem_range.mpr hk)
    rw [hrcx] at hnot
    exact absurd rfl hnot
  | some skipped =>
    have hfound := List.find?_some hfind
    simpa [allocate] using hfound

end RegisterRing

/-- A computation that fails does so in one of its parts. -/
theorem error_or_of_bind_eq_error {ε α β : Type} {x : Except ε α} {f : α → Except ε β} {e : ε}
    (h : (x >>= f) = .error e) : x = .error e ∨ ∃ a, x = .ok a ∧ f a = .error e := by
  cases x with
  | error reason =>
    cases h
    exact Or.inl rfl
  | ok a => exact Or.inr ⟨a, rfl, h⟩

/-- A computation that succeeds has parts that succeed. -/
theorem exists_of_bind_eq_ok {ε α β : Type} {x : Except ε α} {f : α → Except ε β} {result : β}
    (h : (x >>= f) = .ok result) : ∃ a, x = .ok a ∧ f a = .ok result := by
  cases x with
  | error e => cases h
  | ok a => exact ⟨a, rfl, h⟩

/-! ### Known values -/

namespace Known

/-- The word that stands for a value in compiled code. -/
def word (known : Known) : Int64 := known.constant.getD 0

variable {known : Known} {v : Value}

/-- The values that have a native form, with what is known about them. -/
theorem ofValue?_cases (h : ofValue? v = some known) :
    (∃ n, v = .int n ∧ known = ⟨.int, some n.toInt64⟩) ∨
      (∃ n, v = .long n ∧ known = ⟨.long, some n⟩) ∨
      ∃ b, v = .bool b ∧ known = ⟨.bool, some (if b then 1 else 0)⟩ := by
  cases v <;> simp only [ofValue?, Option.some.injEq, reduceCtorEq] at h
  case int n => exact .inl ⟨n, rfl, h.symm⟩
  case long n => exact .inr (.inl ⟨n, rfl, h.symm⟩)
  case bool b => exact .inr (.inr ⟨b, rfl, h.symm⟩)

/-- The compiler knows a value exactly. -/
theorem constant_of_ofValue? (h : ofValue? v = some known) : known.constant = some known.word := by
  rcases ofValue?_cases h with ⟨n, rfl, rfl⟩ | ⟨n, rfl, rfl⟩ | ⟨b, rfl, rfl⟩ <;> rfl

/-- What is known determines the value. -/
theorem value?_of_ofValue? (h : ofValue? v = some known) : known.value? = some v := by
  rcases ofValue?_cases h with ⟨n, rfl, rfl⟩ | ⟨n, rfl, rfl⟩ | ⟨b, rfl, rfl⟩
  · simp [value?]
  · rfl
  · cases b <;> rfl

/-- A known value that is no truth value is an integer. -/
theorem integer?_of_ofValue? (h : ofValue? v = some known) (hkind : known.kind ≠ .bool) :
    v.integer? = some known.word := by
  rcases ofValue?_cases h with ⟨n, rfl, rfl⟩ | ⟨n, rfl, rfl⟩ | ⟨b, rfl, rfl⟩
  · rfl
  · rfl
  · exact absurd rfl hkind

/-- Negating a number that is not the least of its kind. -/
theorem unary_minus (h : ofValue? v = some known)
    (hkind : ¬ (known.kind = .bool ∨ known.kind = .int ∧ (known.constant = none ∨
      known.constant = some Int32.minValue.toInt64))) :
    ∃ value, (∀ line, Value.unary v "-" line = .ok value) ∧
      ofValue? value = some ⟨known.kind, some (-known.word)⟩ := by
  rcases ofValue?_cases h with ⟨n, rfl, rfl⟩ | ⟨n, rfl, rfl⟩ | ⟨b, rfl, rfl⟩
  · -- The interpreter negates 32 bits and the processor 64; only the least number tells them apart.
    have hne : n ≠ -2147483648 := by
      rintro rfl
      exact hkind (Or.inr ⟨rfl, Or.inr rfl⟩)
    refine ⟨.int (-n), fun _ => if_pos rfl, ?_⟩
    rw [ofValue?, Int32.toInt64_neg_of_ne hne]
    rfl
  · exact ⟨.long (-n), fun _ => if_pos rfl, rfl⟩
  · exact absurd (Or.inl rfl) hkind

/-- A value is true if its word is not zero. -/
theorem isTruthy_of_ofValue? (h : ofValue? v = some known) :
    v.isTruthy = decide (known.word ≠ 0) := by
  rcases ofValue?_cases h with ⟨n, rfl, rfl⟩ | ⟨n, rfl, rfl⟩ | ⟨b, rfl, rfl⟩
  · have hzero : n.toInt64 = 0 ↔ n = 0 := by
      rw [← Int64.toInt_inj, ← Int32.toInt_inj, Int32.toInt_toInt64]
      rfl
    exact decide_eq_decide.mpr (not_congr hzero.symm)
  · rfl
  · cases b <;> rfl

end Known

/-! ### Code between registers -/

/-- Code that leaves the frame alone and makes a result in `l` of what is in `l` and `r`. -/
def Works (work : (l r : Register) → List Operation) (a b result : Int64) : Prop :=
  ∀ ⦃σ : Type⦄ ⦃handler : CallHandler σ⦄ ⦃layout : Layout⦄ ⦃l r : Register⦄ ⦃stack : List Int64⦄
    ⦃slots : Nat → Int64⦄ ⦃cpu : Processor⦄ ⦃host : σ⦄, IsFree l → IsFree r → l ≠ r →
    layout.Holds stack slots cpu → cpu.registers l = a.toUInt64 → cpu.registers r = b.toUInt64 →
    Wp handler (work l r) (fun next after => layout.Holds stack slots next ∧
      next.registers l = result.toUInt64 ∧ after = host) cpu host

/-- Code that replaces operands, top first, by a result. -/
def Computes (code : List Operation) (operands : List Int64) (result : Int64) : Prop :=
  ∀ ⦃σ : Type⦄ ⦃handler : CallHandler σ⦄ ⦃layout : Layout⦄ ⦃stack : List Int64⦄
    ⦃slots : Nat → Int64⦄ ⦃cpu : Processor⦄ ⦃host : σ⦄,
    layout.Holds (operands ++ stack) slots cpu →
    Wp handler code (fun next after => layout.Holds (result :: stack) slots next ∧ after = host)
      cpu host

/-- Working on two operands between the registers that are next in the ring. -/
theorem Works.computes {work : (l r : Register) → List Operation} {a b result : Int64}
    (h : Works work a b result) (draft : Draft) :
    Computes (draft.onOperands work).1 [b, a] result := by
  intro σ handler layout stack slots cpu host hholds
  have hr := draft.ring.isFree_allocate
  have hl := draft.ring.allocate.2.isFree_allocate
  have hne := draft.ring.allocate_ne
  change layout.Holds (b :: a :: stack) slots cpu at hholds
  have hfits : stack.length + 2 ≤ layout.depth := hholds.fits
  -- The right operand is on top; its register survives the second pop.
  refine hholds.wp_pop hr fun first hfirst hright _ => ?_
  refine hfirst.wp_pop hl fun second hsecond hleft hsame => ?_
  have hright' := (hsame _ hr hne.symm).trans hright
  refine Wp.append ((h hl hr hne hsecond hleft hright').mono ?_)
  rintro third _ ⟨hthird, hresult, rfl⟩
  exact hthird.wp_push (by omega) hresult fun last hlast => Wp.nil ⟨hlast, rfl⟩

/-- An operation that stores its result in its first register. -/
theorem works_arith {kind : Arithmetic} {flags : Flags} {a b result : Int64}
    (h : Processor.compute kind a.toUInt64 b.toUInt64 = (some result.toUInt64, flags)) :
    Works (fun l r => [.arith kind l r]) a b result := by
  intro σ handler layout l r stack slots cpu host hl _ _ hholds hleft hright
  have hexecute : cpu.execute (.arith kind l r) =
      .go ((cpu.set l result.toUInt64).setFlags flags) := by
    rw [Processor.execute, hleft, hright, h]
  exact Wp.go hexecute (Wp.nil ⟨(hholds.set hl _).setFlags _, if_pos rfl, rfl⟩)

theorem works_imul (a b : Int64) : Works (fun l r => [.imul l r]) a b (a * b) := by
  intro σ handler layout l r stack slots cpu host hl _ _ hholds hleft hright
  refine Wp.go rfl (Wp.nil ⟨hholds.set hl _, ?_, rfl⟩)
  rw [hleft, hright]
  exact if_pos rfl

/-- A condition of the flags, set into a register and extended. -/
theorem wp_setcc {σ : Type} {handler : CallHandler σ} {layout : Layout} {r : Register}
    {stack : List Int64} {slots : Nat → Int64} {cpu : Processor} {host : σ}
    (condition : Condition) (h : layout.Holds stack slots cpu) (hr : IsFree r) :
    Wp handler [.setcc condition r, .movzx r r] (fun next after => layout.Holds stack slots next ∧
      next.registers r = truthWord (cpu.flags.holds condition) ∧
      (∀ other, other ≠ r → next.registers other = cpu.registers other) ∧ after = host)
      cpu host := by
  refine Wp.go rfl (Wp.go rfl (Wp.nil ⟨(h.set hr _).set hr _, ?_, ?_, rfl⟩))
  · refine (if_pos rfl).trans ?_
    refine Eq.trans ?_ (extended_truthWord (cpu.registers r) (cpu.flags.holds condition))
    congr 1
    exact if_pos rfl
  · intro other hne
    exact (if_neg hne).trans (if_neg hne)

/-- A comparison. -/
theorem works_compare {condition : Condition} {a b : Int64} :
    Works (fun l r => [.arith .cmp l r, .setcc condition l, .movzx l l]) a b
      (if (Flags.ofSub a.toUInt64 b.toUInt64).holds condition then 1 else 0) := by
  intro σ handler layout l r stack slots cpu host hl _ _ hholds hleft hright
  have hexecute : cpu.execute (.arith .cmp l r) =
      .go (cpu.setFlags (.ofSub a.toUInt64 b.toUInt64)) := by
    rw [Processor.execute, hleft, hright]
    rfl
  refine Wp.go hexecute ((wp_setcc condition (hholds.setFlags _) hl).mono ?_)
  rintro next after ⟨hnext, hresult, _, rfl⟩
  refine ⟨hnext, hresult.trans ?_, rfl⟩
  exact truthWord_eq _

/-- A register becomes the truth of what it holds, or its opposite. -/
theorem wp_truthOf {σ : Type} {handler : CallHandler σ} {layout : Layout} {r : Register}
    {stack : List Int64} {slots : Nat → Int64} {cpu : Processor} {host : σ} {n : Int64}
    (condition : Condition) (h : layout.Holds stack slots cpu) (hr : IsFree r)
    (hvalue : cpu.registers r = n.toUInt64) :
    Wp handler (Draft.truthOf condition r) (fun next after => layout.Holds stack slots next ∧
      next.registers r =
        truthWord ((Flags.ofResult (n.toUInt64 &&& n.toUInt64) false false).holds condition) ∧
      (∀ other, other ≠ r → next.registers other = cpu.registers other) ∧ after = host)
      cpu host := by
  have hexecute : cpu.execute (.arith .test r r) =
      .go (cpu.setFlags (.ofResult (n.toUInt64 &&& n.toUInt64) false false)) := by
    rw [Processor.execute, hvalue]
    rfl
  exact Wp.go hexecute (wp_setcc condition (h.setFlags _) hr)

/-- Whether a number is not zero. -/
theorem holds_ne_test (n : Int64) :
    (Flags.ofResult (n.toUInt64 &&& n.toUInt64) false false).holds .ne = decide (n ≠ 0) := by
  rw [Flags.holds, Flags.zero_ofResult_and_self, decide_not]

/-- A connective of two truth values. -/
theorem works_connective {kind : Arithmetic} {flags : Flags} {a b : Int64} {result : Bool}
    (h : Processor.compute kind (truthWord (a ≠ 0)) (truthWord (b ≠ 0)) =
      (some (truthWord result), flags)) :
    Works (fun l r => Draft.truthOf .ne l ++ Draft.truthOf .ne r ++ [.arith kind l r]) a b
      (if result then 1 else 0) := by
  intro σ handler layout l r stack slots cpu host hl hr hne hholds hleft hright
  dsimp only
  rw [List.append_assoc]
  -- Each operand becomes zero or one first, so that the bits can be combined.
  refine Wp.append ((wp_truthOf .ne hholds hl hleft).mono ?_)
  rintro first _ ⟨hfirst, hfirstl, hothers, rfl⟩
  have hfirstr := (hothers r hne.symm).trans hright
  refine Wp.append ((wp_truthOf .ne hfirst hr hfirstr).mono ?_)
  rintro second _ ⟨hsecond, hsecondr, hothers', rfl⟩
  rw [holds_ne_test] at hfirstl hsecondr
  have hexecute : second.execute (.arith kind l r) =
      .go ((second.set l (truthWord result)).setFlags flags) := by
    rw [Processor.execute, hsecondr, hothers' l hne, hfirstl, h]
  refine Wp.go hexecute (Wp.nil ⟨(hsecond.set hl _).setFlags _, ?_, rfl⟩)
  rw [← truthWord_eq]
  exact if_pos rfl

/-! ### Division -/

/-- Division gives the quotient in `rax` and the remainder in `rdx`. -/
theorem wp_divide {σ : Type} {handler : CallHandler σ} {layout : Layout} {d : Register}
    {stack : List Int64} {slots : Nat → Int64} {cpu : Processor} {host : σ} {a b : Int64}
    (h : layout.Holds stack slots cpu) (hrax : cpu.registers .rax = a.toUInt64)
    (hd : cpu.registers d = b.toUInt64) (hne : d ≠ .rdx) (hb : b ≠ 0)
    (hfits : ¬ (b = -1 ∧ a = Int64.minValue)) :
    Wp handler [.cqo, .idiv d] (fun next after => layout.Holds stack slots next ∧
      next.registers .rax = (a / b).toUInt64 ∧ next.registers .rdx = (a % b).toUInt64 ∧
      after = host) cpu host := by
  refine Wp.go rfl ?_
  rw [hrax]
  generalize hsign : (if Flags.isNegative a.toUInt64 then -1 else 0 : Word) = sign
  have hdivisor : (cpu.set .rdx sign).registers d = b.toUInt64 := (if_neg hne).trans hd
  have hdivide : (cpu.set .rdx sign).divide? b.toUInt64 = some
      (((cpu.set .rdx sign).set .rax (a / b).toUInt64).set .rdx (a % b).toUInt64) :=
    Processor.divide?_of_extended hrax hsign.symm hb hfits
  have hexecute : (cpu.set .rdx sign).execute (.idiv d) =
      .go (((cpu.set .rdx sign).set .rax (a / b).toUInt64).set .rdx (a % b).toUInt64) := by
    rw [Processor.execute, hdivisor, hdivide]
  refine Wp.go hexecute (Wp.nil ⟨?_, rfl, rfl, rfl⟩)
  exact ((h.set (by decide) _).set (by decide) _).set (by decide) _

namespace Draft

theorem divide_computes {d result : Register} {a b value : Int64} (hd : IsFree d)
    (hapart : d ∉ [Register.rax, .rdx]) (hb : b ≠ 0) (hfits : ¬ (b = -1 ∧ a = Int64.minValue))
    (hresult : ∀ cpu : Processor, cpu.registers .rax = (a / b).toUInt64 →
      cpu.registers .rdx = (a % b).toUInt64 → cpu.registers result = value.toUInt64) :
    Computes [.pop d, .pop .rax, .cqo, .idiv d, .push result] [b, a] value := by
  intro σ handler layout stack slots cpu host hholds
  change layout.Holds (b :: a :: stack) slots cpu at hholds
  have hroom : stack.length + 2 ≤ layout.depth := hholds.fits
  -- The divisor must be in neither of the registers that division itself uses.
  have hrax : d ≠ .rax := fun h => hapart (h ▸ List.mem_cons_self)
  have hrdx : d ≠ .rdx := fun h => hapart (h ▸ List.mem_cons_of_mem _ List.mem_cons_self)
  refine hholds.wp_pop hd fun first hfirst hdivisor _ => ?_
  refine hfirst.wp_pop (by decide) fun second hsecond hdividend hsame => ?_
  have hdivisor' := (hsame d hd hrax).trans hdivisor
  change Wp handler ([.cqo, .idiv d] ++ [.push result]) _ second host
  refine Wp.append ((wp_divide hsecond hdividend hdivisor' hrdx hb hfits).mono ?_)
  rintro third _ ⟨hthird, hquotient, hremainder, rfl⟩
  exact hthird.wp_push (by omega) (hresult third hquotient hremainder)
    fun last hlast => Wp.nil ⟨hlast, rfl⟩

/-- The code of a division by a known divisor. -/
theorem divideBy_computes {draft next : Draft} {code : List Operation} {operator : String}
    {result : Register} {left right : Known} {a b value : Int64}
    (h : draft.divideBy operator result left right = .ok (code, next))
    (hleft : left.constant = some a) (hright : right.constant = some b)
    (hresult : ∀ cpu : Processor, cpu.registers .rax = (a / b).toUInt64 →
      cpu.registers .rdx = (a % b).toUInt64 → cpu.registers result = value.toUInt64) :
    b ≠ 0 ∧ Computes code [b, a] value ∧ next = { draft with ring := next.ring } := by
  rw [divideBy, hright, hleft] at h
  dsimp only at h
  split at h
  next => cases h
  next hb =>
    split at h
    next => cases h
    next hfits =>
      cases h
      refine ⟨hb, divide_computes (RegisterRing.isFree_allocate _)
        (RegisterRing.allocateExcept_not_mem _) hb ?_ hresult, rfl⟩
      rintro ⟨hminus, hmin⟩
      exact hfits ⟨hminus, Or.inr (by rw [hmin])⟩

/-- The code of a binary operator computes what the operator gives, and the operator does not
fail. -/
theorem binaryCode_computes {draft next : Draft} {code : List Operation} {operator : String}
    {left right : Known} {a b : Int64}
    (h : draft.binaryCode operator left right = .ok (code, next))
    (hleft : left.constant = some a) (hright : right.constant = some b) :
    ∃ value known, (∀ line, Value.integerOp a b operator line = .ok value) ∧
      Known.ofValue? value = some known ∧
      Computes code [b, a] known.word ∧ next = { draft with ring := next.ring } := by
  rw [binaryCode] at h
  simp only [Value.integerOp]
  -- In the order of the operators: sum, difference, product, quotient, remainder, and, or. What is
  -- left are the comparisons.
  split at h
  next hop =>
    cases h
    rw [hop]
    exact ⟨_, _, fun _ => rfl, rfl, (works_arith rfl).computes draft, rfl⟩
  next hop =>
    cases h
    rw [hop]
    exact ⟨_, _, fun _ => rfl, rfl, (works_arith rfl).computes draft, rfl⟩
  next hop =>
    cases h
    rw [hop]
    exact ⟨_, _, fun _ => rfl, rfl, (works_imul a b).computes draft, rfl⟩
  next hop =>
    obtain ⟨hb, hcode, hnext⟩ := divideBy_computes h hleft hright fun _ hrax _ => hrax
    rw [hop]
    exact ⟨_, _, fun _ => if_neg hb, rfl, hcode, hnext⟩
  next hop =>
    obtain ⟨hb, hcode, hnext⟩ := divideBy_computes h hleft hright fun _ _ hrdx => hrdx
    rw [hop]
    exact ⟨_, _, fun _ => if_neg hb, rfl, hcode, hnext⟩
  next hop =>
    cases h
    rw [hop]
    exact ⟨_, _, fun _ => rfl, rfl,
      (works_connective (by rw [Processor.compute, truthWord_and])).computes draft, rfl⟩
  next hop =>
    cases h
    rw [hop]
    exact ⟨_, _, fun _ => rfl, rfl,
      (works_connective (by rw [Processor.compute, truthWord_or])).computes draft, rfl⟩
  next =>
    split at h
    next condition hcondition =>
      cases h
      exact ⟨_, _, Flags.integerOp_of_comparison a b hcondition, rfl,
        works_compare.computes draft, rfl⟩
    next => cases h

/-- A binary operator on known values: it does not fail, what is known about the result is right,
and the code computes it. -/
theorem binary_computes {draft next : Draft} {code : List Operation} {operator : String} {pc : Nat}
    {left right : Known} {rest : List Known} {l r : Value}
    (h : draft.binary operator pc = .ok (code, next)) (hstack : draft.stack = right :: left :: rest)
    (hleft : Known.ofValue? l = some left) (hright : Known.ofValue? r = some right) :
    ∃ value known, (∀ line, Value.binary l r operator line = .ok value) ∧
      Known.ofValue? value = some known ∧
      Computes code [right.word, left.word] known.word ∧
      next = { draft with ring := next.ring, stack := known :: rest } := by
  rw [binary, hstack] at h
  dsimp only at h
  split at h
  next => cases h
  next hkinds =>
    have hbinary (line : Nat) : Value.binary l r operator line =
        Value.integerOp left.word right.word operator line :=
      Value.binary_of_integers operator line
        (Known.integer?_of_ofValue? hleft fun hk => hkinds (Or.inl hk))
        (Known.integer?_of_ofValue? hright fun hk => hkinds (Or.inr hk))
    obtain ⟨⟨operations, after⟩, hcode, h⟩ := exists_of_bind_eq_ok h
    obtain ⟨value, known, hvalue, hknown, hcomputes, hafter⟩ := binaryCode_computes hcode
      (Known.constant_of_ofValue? hleft) (Known.constant_of_ofValue? hright)
    have hresult (line : Nat) := (hbinary line).trans (hvalue line)
    -- Folding the constants gives what the operator gives.
    simp only [Known.value?_of_ofValue? hleft, Known.value?_of_ofValue? hright,
      Option.bind_eq_bind, Option.bind_some, hresult, Except.toOption, hknown] at h
    cases h
    refine ⟨value, known, hresult, hknown, hcomputes, ?_⟩
    rw [hafter]
    rfl

/-- Negation of a register. -/
theorem negate_computes {r : Register} (hr : IsFree r) (n : Int64) :
    Computes [.pop r, .neg r, .push r] [n] (-n) := by
  intro σ handler layout stack slots cpu host hholds
  change layout.Holds (n :: stack) slots cpu at hholds
  have hroom : stack.length + 1 ≤ layout.depth := hholds.fits
  refine hholds.wp_pop hr fun first hfirst hvalue _ => ?_
  refine Wp.go rfl ?_
  have hnegated : 0 - first.registers r = (-n).toUInt64 := by
    rw [hvalue, UInt64.zero_sub]
    rfl
  rw [hnegated]
  exact ((hfirst.set hr _).setFlags _).wp_push hroom (if_pos rfl)
    fun last hlast => Wp.nil ⟨hlast, rfl⟩

/-- Whether a register holds zero. -/
theorem truthOf_computes {r : Register} (hr : IsFree r) (n : Int64) :
    Computes ([.pop r] ++ truthOf .e r ++ [.push r]) [n] (if n = 0 then 1 else 0) := by
  intro σ handler layout stack slots cpu host hholds
  change layout.Holds (n :: stack) slots cpu at hholds
  have hroom : stack.length + 1 ≤ layout.depth := hholds.fits
  refine hholds.wp_pop hr fun first hfirst hvalue _ => ?_
  refine Wp.append ((wp_truthOf .e hfirst hr hvalue).mono ?_)
  rintro second _ ⟨hsecond, hresult, _, rfl⟩
  rw [Flags.holds, Flags.zero_ofResult_and_self, truthWord_eq] at hresult
  simp only [decide_eq_true_eq] at hresult
  exact hsecond.wp_push hroom hresult fun last hlast => Wp.nil ⟨hlast, rfl⟩

/-- A unary operator on a known value: it does not fail, what is known about the result is right,
and the code computes it. -/
theorem unary_computes {draft next : Draft} {code : List Operation} {operator : String} {pc : Nat}
    {operand : Known} {rest : List Known} {v : Value}
    (h : draft.unary operator pc = .ok (code, next)) (hstack : draft.stack = operand :: rest)
    (hoperand : Known.ofValue? v = some operand) :
    ∃ value known, (∀ line, Value.unary v operator line = .ok value) ∧
      Known.ofValue? value = some known ∧
      Computes code [operand.word] known.word ∧
      next = { draft with ring := next.ring, stack := known :: rest } := by
  have hregister : IsFree draft.register.1 := draft.ring.isFree_allocate
  rw [unary, hstack] at h
  dsimp only at h
  -- The compiler applies the operator to the value that it knows.
  rw [Known.value?_of_ofValue? hoperand] at h
  split at h
  next hminus =>
    subst hminus
    split at h
    next => cases h
    next hkind =>
      obtain ⟨value, hvalue, hknown⟩ := Known.unary_minus hoperand hkind
      simp only [Option.bind_eq_bind, Option.bind_some, hvalue, Except.toOption, hknown] at h
      cases h
      exact ⟨value, _, hvalue, hknown, negate_computes hregister operand.word, rfl⟩
  next hminus =>
    split at h
    next hnot =>
      have hvalue (line : Nat) : Value.unary v operator line = .ok (.bool (!v.isTruthy)) :=
        (if_neg hminus).trans (if_pos hnot)
      have hword : (if !v.isTruthy then 1 else 0 : Int64) = if operand.word = 0 then 1 else 0 := by
        rw [Known.isTruthy_of_ofValue? hoperand]
        by_cases hzero : operand.word = 0 <;> simp [hzero]
      simp only [Option.bind_eq_bind, Option.bind_some, hvalue, Except.toOption,
        Known.ofValue?] at h
      cases h
      refine ⟨_, _, hvalue, rfl, ?_, rfl⟩
      change Computes _ _ (if !v.isTruthy then 1 else 0)
      rw [hword]
      exact truthOf_computes hregister operand.word
    next => cases h

end Draft

end StackMachine.Native
