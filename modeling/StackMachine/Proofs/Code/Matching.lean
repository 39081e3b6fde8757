import Mathlib.Algebra.Order.Interval.Finset.SuccPred
import Mathlib.Data.Nat.SuccPred
import Mathlib.Order.ConditionallyCompleteLattice.Basic
import Mathlib.Order.Interval.Finset.Nat
import Mathlib.Order.Lattice.Nat
import StackMachine.Proofs.Code.Positions

/-!
# Matching delimiters

A scan for the end of a block counts the blocks that open and close on its way. Its depth is the
number of openers less the number of `END`s that it has passed, so it stops at the first position
where the `END`s outnumber the openers. Nothing here supposes that the delimiters of a program are
balanced: there may be too few of them, or too many.

## Main definitions

* `Program.opened`, `Program.closed`: how many blocks open and how many close at some positions.
* `Program.StopsAt`: what makes a scan stop, said with these numbers.

## Main results

* `Program.scan_of_stopsAt`, `Program.exists_scan_of_not_stopsAt`: what a scan does at one position.
* `Program.exists_scan_of_forall`: the depth of a scan that has not stopped yet.
* `Program.scan_eq_some_iff`, `Program.scan_eq_none_iff`: where a scan ends.
* `Program.exists_endAfter?_lt`: a block that opens inside another one ends before it does.
* `Program.delimiters_matched`: what the searches for `END` and `ELSE` find, and how blocks lie to
  each other.
-/

namespace StackMachine.Program

open Finset (Ioc Ioo)

/-- Whether the instruction at a position is of some kind. -/
def hasAt (program : Program) (p : Opcode → Bool) (position : ℕ) : Bool :=
  program[position]?.any fun instruction => p instruction.opcode

/-- The number of instructions of some kind at the given positions. -/
def tally (program : Program) (p : Opcode → Bool) (positions : Finset ℕ) : ℕ :=
  (positions.filter fun position => program.hasAt p position = true).card

/-- The number of blocks that open at the given positions. -/
def opened (program : Program) (positions : Finset ℕ) : ℕ :=
  program.tally Opcode.opensBlock positions

/-- The number of `END`s at the given positions. -/
def closed (program : Program) (positions : Finset ℕ) : ℕ :=
  program.tally (· = .endBlock) positions

variable {program : Program} {p : Opcode → Bool} {atElse : Bool} {depth i j k : ℕ}

/-! ### Counting -/

/-- What holds at a position is said by the opcode there. -/
theorem hasAt_of_getElem? {instruction : Instruction} (h : program[k]? = some instruction) :
    program.hasAt p k = p instruction.opcode := by
  rw [hasAt, h, Option.any_some]

theorem hasAt_of_length_le (h : program.length ≤ k) : program.hasAt p k = false := by
  rw [hasAt, List.getElem?_eq_none h, Option.any_none]

/-- There is one kind of instruction at a position. -/
theorem hasAt_eq {opcode : Opcode} (h : program.hasAt (· = opcode) k = true) :
    program.hasAt p k = p opcode := by
  simp only [hasAt, Option.any_eq_true, decide_eq_true_eq] at h
  obtain ⟨instruction, hat, rfl⟩ := h
  exact hasAt_of_getElem? hat

/-- Positions in a row are counted up to one of them and from there on. -/
theorem tally_add_tally (program : Program) (p : Opcode → Bool) (hik : i ≤ k) (hkj : k ≤ j) :
    program.tally p (Ioc i k) + program.tally p (Ioc k j) = program.tally p (Ioc i j) := by
  rw [tally, tally, tally, ← Finset.Ioc_union_Ioc_eq_Ioc hik hkj, Finset.filter_union,
    Finset.card_union_of_disjoint]
  exact Finset.disjoint_filter_filter (Finset.Ioc_disjoint_Ioc_of_le le_rfl)

/-- One position more is counted if the property holds there. -/
theorem tally_succ (program : Program) (p : Opcode → Bool) (hik : i ≤ k) :
    program.tally p (Ioc i (k + 1)) =
      program.tally p (Ioc i k) + (program.hasAt p (k + 1)).toNat := by
  rw [← tally_add_tally program p hik k.le_succ, Nat.Ioc_succ_singleton, tally, tally,
    Finset.filter_singleton]
  cases program.hasAt p (k + 1) <;> rfl

/-- One position more opens at most one block. -/
theorem opened_succ (program : Program) (hik : i ≤ k) :
    program.opened (Ioc i (k + 1)) =
      program.opened (Ioc i k) + (program.hasAt Opcode.opensBlock (k + 1)).toNat :=
  tally_succ program _ hik

theorem closed_succ (program : Program) (hik : i ≤ k) :
    program.closed (Ioc i (k + 1)) =
      program.closed (Ioc i k) + (program.hasAt (· = .endBlock) (k + 1)).toNat :=
  tally_succ program _ hik

/-! ### Scanning -/

/-- A scan that begins behind `i` has a reason to stop at `j`: more `END`s than openers on the way,
or an `ELSE` of the block itself, if it looks for one. -/
def StopsAt (program : Program) (atElse : Bool) (i j : ℕ) : Prop :=
  i < j ∧ (program.opened (Ioc i j) < program.closed (Ioc i j) ∨
    atElse = true ∧ program.hasAt (· = .elseBegin) j = true ∧
      program.opened (Ioo i j) = program.closed (Ioo i j))

/-- A scan can only stop where its depth is zero. -/
theorem stopsAt_succ_iff (hik : i ≤ k)
    (hdepth : depth + program.closed (Ioc i k) = program.opened (Ioc i k)) :
    program.StopsAt atElse i (k + 1) ↔
      depth = 0 ∧ (program.hasAt (· = .endBlock) (k + 1) = true ∨
        atElse = true ∧ program.hasAt (· = .elseBegin) (k + 1) = true) := by
  rw [StopsAt, opened_succ program hik, closed_succ program hik, Finset.Ioo_add_one_right_eq_Ioc]
  constructor
  · rintro ⟨-, hmore | ⟨hatElse, helse, hequal⟩⟩
    · have hle := (program.hasAt (· = .endBlock) (k + 1)).toNat_le
      have hend : program.hasAt (· = .endBlock) (k + 1) = true := by
        rw [← Bool.toNat_eq_one]
        omega
      exact ⟨by omega, .inl hend⟩
    · exact ⟨by omega, .inr ⟨hatElse, helse⟩⟩
  · rintro ⟨rfl, hend | ⟨hatElse, helse⟩⟩
    · have hopens : program.hasAt Opcode.opensBlock (k + 1) = false := hasAt_eq hend
      refine ⟨by omega, .inl ?_⟩
      rw [hend, hopens, Bool.toNat_true, Bool.toNat_false]
      omega
    · exact ⟨by omega, .inr ⟨hatElse, helse, by omega⟩⟩

/-- One step of a scan. -/
theorem scan_drop {instruction : Instruction} (h : program[k]? = some instruction) :
    scan atElse depth k (program.drop k) =
      if instruction.opcode.opensBlock then scan atElse (depth + 1) (k + 1) (program.drop (k + 1))
      else if instruction.opcode = .endBlock then
        if depth = 0 then some k else scan atElse (depth - 1) (k + 1) (program.drop (k + 1))
      else if instruction.opcode = .elseBegin ∧ atElse = true ∧ depth = 0 then some k
      else scan atElse depth (k + 1) (program.drop (k + 1)) := by
  obtain ⟨hk, rfl⟩ := List.getElem?_eq_some_iff.mp h
  rw [List.drop_eq_getElem_cons hk, scan.eq_def]
  dsimp only
  cases program[k].opcode <;> cases depth <;> simp [Opcode.opensBlock]

/-- A scan stops where it has a reason to. -/
theorem scan_of_stopsAt (hik : i ≤ k)
    (hdepth : depth + program.closed (Ioc i k) = program.opened (Ioc i k))
    (hstop : program.StopsAt atElse i (k + 1)) :
    scan atElse depth (k + 1) (program.drop (k + 1)) = some (k + 1) := by
  obtain ⟨rfl, hkind⟩ := (stopsAt_succ_iff hik hdepth).mp hstop
  have hlength : ¬ program.length ≤ k + 1 := fun h => by simp [hasAt_of_length_le h] at hkind
  have hat := List.getElem?_eq_getElem (not_le.mp hlength)
  rw [hasAt_of_getElem? hat, hasAt_of_getElem? hat, decide_eq_true_eq, decide_eq_true_eq] at hkind
  rw [scan_drop hat]
  rcases hkind with hop | ⟨rfl, hop⟩ <;> simp [hop, Opcode.opensBlock]

/-- Where it has none it goes on, with the depth that the counts say. -/
theorem exists_scan_of_not_stopsAt (hik : i ≤ k)
    (hdepth : depth + program.closed (Ioc i k) = program.opened (Ioc i k))
    (hstop : ¬ program.StopsAt atElse i (k + 1)) :
    ∃ next, next + program.closed (Ioc i (k + 1)) = program.opened (Ioc i (k + 1)) ∧
      scan atElse depth (k + 1) (program.drop (k + 1)) =
        scan atElse next (k + 2) (program.drop (k + 2)) := by
  rw [stopsAt_succ_iff hik hdepth] at hstop
  rw [opened_succ program hik, closed_succ program hik]
  by_cases hlength : program.length ≤ k + 1
  · -- Behind the end of the program there is nothing left to scan or to count.
    refine ⟨depth, by simpa [hasAt_of_length_le hlength] using hdepth, ?_⟩
    rw [List.drop_eq_nil_of_le hlength, List.drop_eq_nil_of_le (hlength.trans (Nat.le_succ _))]
    rfl
  have hat := List.getElem?_eq_getElem (not_le.mp hlength)
  rw [scan_drop hat]
  simp only [hasAt_of_getElem? hat, decide_eq_true_eq] at hstop ⊢
  generalize program[k + 1].opcode = opcode at hstop
  by_cases hopens : opcode.opensBlock = true
  · have hend : opcode ≠ .endBlock := by
      rintro rfl
      cases hopens
    refine ⟨depth + 1, ?_, by rw [if_pos hopens]⟩
    rw [hopens, decide_eq_false hend, Bool.toNat_true, Bool.toNat_false]
    omega
  by_cases hend : opcode = .endBlock
  -- The end of an inner block: at depth zero the scan would stop here.
  · have hpos : depth ≠ 0 := fun hzero => hstop ⟨hzero, .inl hend⟩
    refine ⟨depth - 1, ?_, by rw [if_neg hopens, if_pos hend, if_neg hpos]⟩
    rw [eq_false_of_ne_true hopens, decide_eq_true hend, Bool.toNat_true, Bool.toNat_false]
    omega
  · have helse : ¬ (opcode = .elseBegin ∧ atElse = true ∧ depth = 0) :=
      fun ⟨hop, hatElse, hzero⟩ => hstop ⟨hzero, .inr ⟨hatElse, hop⟩⟩
    exact ⟨depth, by simp [hopens, hend, hdepth], by rw [if_neg hopens, if_neg hend, if_neg helse]⟩

/-- As long as a scan has had no reason to stop, its depth is the number of openers that it has
passed less the number of `END`s, and this is never negative. -/
theorem exists_scan_of_forall (hik : i ≤ k)
    (h : ∀ j, i < j → j ≤ k → ¬ program.StopsAt atElse i j) :
    ∃ depth, depth + program.closed (Ioc i k) = program.opened (Ioc i k) ∧
      scan atElse 0 (i + 1) (program.drop (i + 1)) =
        scan atElse depth (k + 1) (program.drop (k + 1)) := by
  induction k, hik using Nat.le_induction with
  | base => exact ⟨0, by simp [opened, closed, tally], rfl⟩
  | succ k hik ih =>
    obtain ⟨depth, hdepth, hscan⟩ := ih fun j hij hjk => h j hij (hjk.trans k.le_succ)
    obtain ⟨next, hnext, hstep⟩ :=
      exists_scan_of_not_stopsAt hik hdepth (h (k + 1) (Nat.lt_succ_of_le hik) le_rfl)
    exact ⟨next, hnext, hscan.trans hstep⟩

/-- The depth of a scan right in front of a position that it reaches. -/
theorem exists_scan_before (hij : i < j)
    (h : ∀ k, i < k → k < j → ¬ program.StopsAt atElse i k) :
    ∃ k depth, j = k + 1 ∧ i ≤ k ∧
      depth + program.closed (Ioc i k) = program.opened (Ioc i k) ∧
        scan atElse 0 (i + 1) (program.drop (i + 1)) =
          scan atElse depth (k + 1) (program.drop (k + 1)) := by
  obtain ⟨k, rfl⟩ := Nat.exists_eq_succ_of_ne_zero (Nat.ne_zero_of_lt hij)
  have hik : i ≤ k := Nat.le_of_lt_succ hij
  obtain ⟨depth, hdepth, hscan⟩ := exists_scan_of_forall hik fun j hij hjk =>
    h j hij (Nat.lt_succ_of_le hjk)
  exact ⟨k, depth, rfl, hik, hdepth, hscan⟩

/-- A scan finds the first position at which it may stop. -/
theorem scan_of_isLeast (h : IsLeast {j | program.StopsAt atElse i j} j) :
    scan atElse 0 (i + 1) (program.drop (i + 1)) = some j := by
  obtain ⟨hstop, hleast⟩ := h
  obtain ⟨k, depth, rfl, hik, hdepth, hscan⟩ := exists_scan_before hstop.1 fun k _ hkj hstop' =>
    absurd (hleast hstop') (not_le.mpr hkj)
  rw [hscan, scan_of_stopsAt hik hdepth hstop]

/-- A scan that never has a reason to stop finds nothing. -/
theorem scan_eq_none_iff :
    scan atElse 0 (i + 1) (program.drop (i + 1)) = none ↔ ∀ j, ¬ program.StopsAt atElse i j := by
  constructor
  · intro hnone j hstop
    have hfound := scan_of_isLeast (isLeast_csInf ⟨j, hstop⟩)
    rw [hnone] at hfound
    cases hfound
  · intro h
    obtain ⟨depth, -, hscan⟩ :=
      exists_scan_of_forall (k := i + program.length) (Nat.le_add_right _ _) fun j _ _ => h j
    rw [hscan, List.drop_eq_nil_of_le (by omega)]
    rfl

/-- A scan stops at the first position where it has a reason to. -/
theorem scan_eq_some_iff :
    scan atElse 0 (i + 1) (program.drop (i + 1)) = some j ↔
      IsLeast {j | program.StopsAt atElse i j} j := by
  refine ⟨fun h => ?_, scan_of_isLeast⟩
  have hstops : ∃ j, program.StopsAt atElse i j := by
    by_contra hnone
    rw [not_exists, ← scan_eq_none_iff, h] at hnone
    cases hnone
  have hleast := isLeast_csInf hstops
  rw [scan_of_isLeast hleast, Option.some.injEq] at h
  rwa [← h]

/-- A scan has no reason to stop before the position that it finds. -/
theorem not_stopsAt_of_lt (h : scan atElse 0 (i + 1) (program.drop (i + 1)) = some j)
    (hkj : k < j) : ¬ program.StopsAt atElse i k := fun hstop =>
  absurd ((scan_eq_some_iff.mp h).2 hstop) (not_le.mpr hkj)

/-! ### The searches -/

/-- A search for the `END` stops where more blocks were closed than opened. -/
theorem stopsAt_false_iff :
    program.StopsAt false i j ↔ i < j ∧ program.opened (Ioc i j) < program.closed (Ioc i j) := by
  simp [StopsAt]

/-- The end of a block is the first position where the `END`s outnumber the openers. -/
theorem endAfter?_eq_some_iff :
    endAfter? program i = some j ↔
      IsLeast {j | i < j ∧ program.opened (Ioc i j) < program.closed (Ioc i j)} j := by
  simp only [endAfter?, scan_eq_some_iff, stopsAt_false_iff]

/-- There is no `END` if nowhere more blocks were closed than opened. -/
theorem endAfter?_eq_none_iff :
    endAfter? program i = none ↔
      ∀ j, i < j → program.closed (Ioc i j) ≤ program.opened (Ioc i j) := by
  simp only [endAfter?, scan_eq_none_iff, stopsAt_false_iff, not_and, not_lt]

/-- At the end of a block there is an `END`, and up to it one more of them than openers. -/
theorem closed_eq_opened_add_one (h : endAfter? program i = some j) :
    program.hasAt (· = .endBlock) j = true ∧
      program.closed (Ioc i j) = program.opened (Ioc i j) + 1 := by
  have hstop := (scan_eq_some_iff.mp h).1
  obtain ⟨k, depth, rfl, hik, hdepth, -⟩ := exists_scan_before hstop.1 fun _ _ =>
    not_stopsAt_of_lt h
  obtain ⟨rfl, hkind⟩ := (stopsAt_succ_iff hik hdepth).mp hstop
  have hend : program.hasAt (· = .endBlock) (k + 1) = true := by simpa using hkind
  have hopens : program.hasAt Opcode.opensBlock (k + 1) = false := hasAt_eq hend
  refine ⟨hend, ?_⟩
  rw [opened_succ program hik, closed_succ program hik, hend, hopens, Bool.toNat_true,
    Bool.toNat_false]
  omega

/-- A search that minds `ELSE` stops there, too, if all blocks opened so far are closed. -/
theorem stopsAt_true_iff :
    program.StopsAt true i j ↔ program.StopsAt false i j ∨ i < j ∧
      program.hasAt (· = .elseBegin) j = true ∧
        program.opened (Ioo i j) = program.closed (Ioo i j) := by
  simp only [StopsAt, true_and, Bool.false_eq_true, false_and, or_false, and_or_left]

/-- A search that also looks for an `ELSE` finds the end of the block, or an `ELSE` of the block
before it. -/
theorem elseOrEndAfter?_eq_some_iff :
    elseOrEndAfter? program i = some j ↔
      IsLeast {j | endAfter? program i = some j ∨ i < j ∧
        program.hasAt (· = .elseBegin) j = true ∧
          program.opened (Ioo i j) = program.closed (Ioo i j)} j := by
  simp only [elseOrEndAfter?, endAfter?, scan_eq_some_iff, stopsAt_true_iff]
  constructor
  · rintro ⟨hstop, hleast⟩
    refine ⟨hstop.imp_left fun hend => ⟨hend, fun k hk => hleast (.inl hk)⟩, ?_⟩
    rintro k (hend | helse)
    · exact hleast (.inl hend.1)
    · exact hleast (.inr helse)
  · rintro ⟨hstop, hleast⟩
    refine ⟨hstop.imp_left fun hend => hend.1, ?_⟩
    rintro k (hend | helse)
    · -- The first `END` that closes the block is not behind any other.
      have hfirst := isLeast_csInf (s := {k | program.StopsAt false i k}) ⟨k, hend⟩
      exact (hleast (.inl hfirst)).trans (hfirst.2 hend)
    · exact hleast (.inr helse)

/-- The part behind an `ELSE` ends where the whole block does. -/
theorem endAfter?_of_elseOrEndAfter? (h : elseOrEndAfter? program i = some j)
    (helse : program.hasAt (· = .elseBegin) j = true) :
    endAfter? program j = endAfter? program i := by
  have hstop := (scan_eq_some_iff.mp h).1
  obtain ⟨k, depth, rfl, hik, hdepth, -⟩ := exists_scan_before hstop.1 fun _ _ =>
    not_stopsAt_of_lt h
  obtain ⟨rfl, -⟩ := (stopsAt_succ_iff hik hdepth).mp hstop
  -- The `ELSE` counts neither as an opener nor as an `END`, so the other search passes it.
  have hopens : program.hasAt Opcode.opensBlock (k + 1) = false := hasAt_eq helse
  have hend : program.hasAt (· = .endBlock) (k + 1) = false := hasAt_eq helse
  obtain ⟨depth, hdepth', hscan⟩ := exists_scan_of_forall (hik.trans k.le_succ) fun j hij hjk => by
    rcases hjk.lt_or_eq with hlt | rfl
    · exact fun hstop' => not_stopsAt_of_lt h hlt (stopsAt_true_iff.mpr (.inl hstop'))
    · simp [stopsAt_succ_iff hik hdepth, hend]
  rw [opened_succ program hik, closed_succ program hik, hopens, hend] at hdepth'
  obtain rfl : depth = 0 := by omega
  exact hscan.symm

/-- A block that opens inside another one ends, and before the other one does. -/
theorem exists_endAfter?_lt (hopens : program.hasAt Opcode.opensBlock k = true) (hik : i < k)
    (hkj : k < j) (h : endAfter? program i = some j) :
    ∃ inner, endAfter? program k = some inner ∧ inner < j := by
  obtain ⟨before, depth, rfl, hle, hdepth, -⟩ := exists_scan_before hik fun _ _ hlt =>
    not_stopsAt_of_lt h (hlt.trans hkj)
  have hend : program.hasAt (· = .endBlock) (before + 1) = false := by
    by_contra hend
    rw [hasAt_eq (eq_true_of_ne_false hend)] at hopens
    cases hopens
  have hopened := opened_succ program hle
  have hclosed := closed_succ program hle
  rw [hopens, Bool.toNat_true] at hopened
  rw [hend, Bool.toNat_false] at hclosed
  -- The opener is left without an `END` before it, so behind it there are two `END`s too many.
  have htwo : program.opened (Ioc (before + 1) j) + 2 ≤ program.closed (Ioc (before + 1) j) := by
    have hwhole := (closed_eq_opened_add_one h).2
    have hsplit : program.opened (Ioc i (before + 1)) + program.opened (Ioc (before + 1) j) =
        program.opened (Ioc i j) := tally_add_tally program _ hik.le hkj.le
    have hsplit' : program.closed (Ioc i (before + 1)) + program.closed (Ioc (before + 1) j) =
        program.closed (Ioc i j) := tally_add_tally program _ hik.le hkj.le
    omega
  cases hinner : endAfter? program (before + 1) with
  | none =>
    have hfew := endAfter?_eq_none_iff.mp hinner j hkj
    omega
  | some inner =>
    have hone := (closed_eq_opened_add_one hinner).2
    have hinner_le : inner ≤ j := (endAfter?_eq_some_iff.mp hinner).2 ⟨hkj, by omega⟩
    refine ⟨inner, rfl, hinner_le.lt_of_ne ?_⟩
    rintro rfl
    omega

/-- The scan for delimiters is right in every program, balanced or not. The end of a block is the
first position where the `END`s outnumber the openers, and on the way the depth of the scan is the
difference of the two numbers and not negative. A search that also looks for an `ELSE` finds that
end or an earlier `ELSE` between as many openers as `END`s, and the part behind this `ELSE` has the
same end. Two openers do not share their end, and a block that opens inside another one ends before
it does. -/
theorem delimiters_matched (program : Program) :
    (∀ i j, endAfter? program i = some j ↔
      IsLeast {j | i < j ∧ program.opened (Ioc i j) < program.closed (Ioc i j)} j) ∧
    (∀ i, endAfter? program i = none ↔
      ∀ j, i < j → program.closed (Ioc i j) ≤ program.opened (Ioc i j)) ∧
    (∀ i j, endAfter? program i = some j → program.hasAt (· = .endBlock) j = true) ∧
    (∀ atElse i k, i ≤ k → (∀ j, i < j → j ≤ k → ¬ program.StopsAt atElse i j) →
      ∃ depth, depth + program.closed (Ioc i k) = program.opened (Ioc i k) ∧
        scan atElse 0 (i + 1) (program.drop (i + 1)) =
          scan atElse depth (k + 1) (program.drop (k + 1))) ∧
    (∀ i j, elseOrEndAfter? program i = some j ↔
      IsLeast {j | endAfter? program i = some j ∨ i < j ∧
        program.hasAt (· = .elseBegin) j = true ∧
          program.opened (Ioo i j) = program.closed (Ioo i j)} j) ∧
    (∀ i e, elseOrEndAfter? program i = some e → program.hasAt (· = .elseBegin) e = true →
      endAfter? program e = endAfter? program i) ∧
    (∀ i i' j, program.hasAt Opcode.opensBlock i = true →
      program.hasAt Opcode.opensBlock i' = true →
        endAfter? program i = some j → endAfter? program i' = some j → i = i') ∧
    ∀ i i' j, program.hasAt Opcode.opensBlock i = true →
      program.hasAt Opcode.opensBlock i' = true → i < i' →
        endAfter? program i = some j → i' < j → ∃ j', endAfter? program i' = some j' ∧ j' < j := by
  refine ⟨fun _ _ => endAfter?_eq_some_iff, fun _ => endAfter?_eq_none_iff,
    fun _ _ h => (closed_eq_opened_add_one h).1, fun _ _ _ => exists_scan_of_forall,
    fun _ _ => elseOrEndAfter?_eq_some_iff, fun _ _ => endAfter?_of_elseOrEndAfter?, ?_,
    fun i i' j _ hopens hlt h hinside => exists_endAfter?_lt hopens hlt hinside h⟩
  -- Of two openers the later one lies inside the block of the other, and cannot share its end.
  have hdistinct {i i' j : ℕ} (hopens : program.hasAt Opcode.opensBlock i' = true)
      (h : endAfter? program i = some j) (h' : endAfter? program i' = some j) : ¬ i < i' := by
    intro hlt
    obtain ⟨inner, hinner, hinner_lt⟩ := exists_endAfter?_lt hopens hlt (endAfter?_bounds h').1 h
    rw [h', Option.some.injEq] at hinner
    omega
  intro i i' j hopens hopens' h h'
  exact le_antisymm (not_lt.mp (hdistinct hopens h' h)) (not_lt.mp (hdistinct hopens' h h'))

/-- A conditional with an alternative inside a loop, and one `END` too many behind it. -/
def surplusEnd : Program :=
  [.whileBegin, .ifBegin, .elseBegin, .endBlock, .endBlock, .endBlock].map fun opcode =>
    { opcode, operands := [], line := 1 }

/-- A block inside another one, and an `END` that closes nothing. -/
theorem delimiters_matched_surplusEnd :
    elseOrEndAfter? surplusEnd 1 = some 2 ∧
      endAfter? surplusEnd 2 = endAfter? surplusEnd 1 ∧
      (∃ j, endAfter? surplusEnd 1 = some j ∧ j < 4) ∧
      endAfter? surplusEnd 0 ≠ endAfter? surplusEnd 1 ∧
      endAfter? surplusEnd 5 = none := by
  obtain ⟨-, -, -, -, -, helse, hdistinct, hnested⟩ := delimiters_matched surplusEnd
  exact ⟨by decide, helse 1 2 (by decide) (by decide),
    hnested 0 1 4 (by decide) (by decide) (by decide) (by decide) (by decide),
    fun hsame => absurd (hdistinct 0 1 4 (by decide) (by decide) (by decide)
      (hsame.symm.trans (by decide))) (by decide), by decide⟩

end StackMachine.Program
