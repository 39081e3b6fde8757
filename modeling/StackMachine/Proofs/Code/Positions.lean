import Mathlib.Data.List.Basic
import StackMachine.Code.Block
import StackMachine.Code.Source

/-!
# Positions and lines of a program

Where a search in a program can end, and which source lines its instructions can have.

## Main results

* `Program.scan_bounds`: a scan ends in the code that it goes through.
* `Program.endAfter?_bounds`, `Program.elseOrEndAfter?_bounds`, `Program.labelled?_lt`: what a jump
  looks up is a position of the program.
* `Program.one_le_line`: the instructions of a source text have lines from one on.
-/

namespace StackMachine

namespace Program

variable {program : Program} {pc target : Nat} {atElse : Bool}

/-- A scan finds nothing outside of the code that it goes through. -/
theorem scan_bounds {depth : Nat} {code : List Instruction}
    (h : scan atElse depth pc code = some target) : pc ≤ target ∧ target < pc + code.length := by
  induction code generalizing depth pc with
  | nil => cases h
  | cons instruction rest ih =>
    have hhere : some pc = some target →
        pc ≤ target ∧ target < pc + (instruction :: rest).length := by
      rintro ⟨⟩
      simp
    have hlater : ∀ {depth}, scan atElse depth (pc + 1) rest = some target →
        pc ≤ target ∧ target < pc + (instruction :: rest).length := by
      intro depth hscan
      obtain ⟨hle, hlt⟩ := ih hscan
      rw [List.length_cons]
      omega
    rw [scan.eq_def] at h
    dsimp only at h
    -- One case for each opcode that the scan looks at.
    split at h
    · exact hlater h
    · exact hlater h
    · split at h
      · exact hhere h
      · exact hlater h
    · split at h
      · exact hhere h
      · exact hlater h
    · exact hlater h

/-- A scan from behind a position finds something behind it, in the program. -/
theorem scan_drop_bounds (h : scan atElse 0 (pc + 1) (program.drop (pc + 1)) = some target) :
    pc < target ∧ target < program.length := by
  obtain ⟨hle, hlt⟩ := scan_bounds h
  rw [List.length_drop] at hlt
  by_cases hpc : pc + 1 ≤ program.length
  · omega
  · -- There is no code behind the end of the program.
    rw [List.drop_eq_nil_of_le (by omega)] at h
    cases h

/-- The end of a block lies behind its beginning. -/
theorem endAfter?_bounds (h : endAfter? program pc = some target) :
    pc < target ∧ target < program.length :=
  scan_drop_bounds h

/-- The mark that ends a first branch is behind its `IF`, in the program. -/
theorem elseOrEndAfter?_bounds (h : elseOrEndAfter? program pc = some target) :
    pc < target ∧ target < program.length :=
  scan_drop_bounds h

theorem labelled?_lt {label : String} (h : labelled? program label = some target) :
    target < program.length := by
  rw [labelled?, List.findIdx?_eq_some_iff_findIdx_eq] at h
  exact h.1

end Program

/-! ### Source lines -/

/-- An instruction knows the number of its line. -/
theorem Instruction.line_of_ofLine? {line : Nat} {cs : List Char} {instruction : Instruction}
    (h : ofLine? line cs = some instruction) : instruction.line = line := by
  simp only [ofLine?] at h
  split at h
  · cases h
  · generalize Token.ofLine (Text.trim cs) = tokens at h
    cases tokens with
    | nil => cases h
    | cons head operands =>
      cases h
      rfl

/-- The instructions of a source text have lines from one on. -/
theorem Program.one_le_line {source : String} {instruction : Instruction}
    (h : instruction ∈ Program.ofSource source) : 1 ≤ instruction.line := by
  simp only [Program.ofSource, List.mem_filterMap, Prod.exists] at h
  obtain ⟨cs, line, hmem, hline⟩ := h
  rw [Instruction.line_of_ofLine? hline]
  exact List.le_snd_of_mem_zipIdx hmem

end StackMachine
