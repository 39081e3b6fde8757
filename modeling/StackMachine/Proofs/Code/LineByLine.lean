import Mathlib.Data.List.Nodup
import StackMachine.Code.Block
import StackMachine.Proofs.Code.Positions
import StackMachine.Proofs.Code.Rendering

/-!
# Source text is read line by line

A program is read from the pieces of its source between line feeds, each by itself. The carriage
return that a line loses before a line feed is a blank, and trimming takes it away in any case; the
piece behind the last line feed is read like the others, and gives nothing if it is empty. So a
quote that is not closed, a comment or a frame mark never reaches beyond its line, and lines that
give no instruction are counted all the same.

## Main definitions

* `Instruction.below`: the same instruction on a later line.

## Main results

* `Program.ofSource_eq_pieces`: a program is read from the pieces between line feeds.
* `Program.ofSource_append_lineFeed`: the texts around a line feed are read independently.
* `Program.pairwise_line_ofSource`: instructions stand on later and later lines.
* `Program.ofSource_line_by_line`: these together, with the position of a line.
-/

namespace StackMachine

namespace Instruction

/-- The same instruction so many lines below. -/
def below (count : Nat) (instruction : Instruction) : Instruction :=
  { instruction with line := instruction.line + count }

/-- The number of a line is all that an instruction depends on besides the text of the line. -/
theorem ofLine?_add (number count : Nat) (cs : List Char) :
    ofLine? (number + count) cs = (ofLine? number cs).map (below count) := by
  simp only [ofLine?]
  split
  · rfl
  · cases Token.ofLine (Text.trim cs) <;> rfl

end Instruction

namespace Program

/-- The instructions of lines that are numbered from a given one on. -/
def readFrom (start : Nat) (lines : List (List Char)) : Program :=
  (lines.zipIdx start).filterMap fun (cs, line) => Instruction.ofLine? line cs

theorem readFrom_append (start : Nat) (lines more : List (List Char)) :
    readFrom start (lines ++ more) =
      readFrom start lines ++ readFrom (start + lines.length) more := by
  rw [readFrom, List.zipIdx_append, List.filterMap_append]
  rfl

/-- Counting from a later line on moves all instructions down. -/
theorem readFrom_add (start count : Nat) (lines : List (List Char)) :
    readFrom (start + count) lines = (readFrom start lines).map (Instruction.below count) := by
  rw [readFrom, Nat.add_comm, ← List.map_snd_add_zipIdx_eq_zipIdx, List.filterMap_map, readFrom,
    List.map_filterMap]
  exact List.filterMap_congr fun line _ => Instruction.ofLine?_add line.2 count line.1

/-- A carriage return at the end of a line does not matter. -/
theorem readFrom_map_dropReturn (start : Nat) (lines : List (List Char)) :
    readFrom start (lines.map Text.dropReturn) = readFrom start lines := by
  rw [readFrom, List.zipIdx_map, List.filterMap_map]
  exact List.filterMap_congr fun line _ => Instruction.ofLine?_dropReturn line.2 line.1

/-- A program is read from the pieces of its source between line feeds. -/
theorem ofSource_eq_pieces (source : String) :
    ofSource source = readFrom 1 (Text.splitAll (· == '\n') source.toList) := by
  obtain hnil | ⟨pieces, last, hsplit⟩ :=
    List.eq_nil_or_concat' (Text.splitAll (· == '\n') source.toList)
  · exact absurd hnil (Text.splitAll_ne_nil _ _)
  · have hsource : ofSource source = readFrom 1 (Text.lines source.toList) := rfl
    rw [hsource, Text.lines_of_splitAll hsplit, hsplit, readFrom_append, readFrom_append,
      readFrom_map_dropReturn, List.length_map]
    congr 1
    split
    next hempty =>
      -- An empty piece at the end is no line, and would give no instruction.
      rw [List.isEmpty_iff.mp hempty]
      rfl
    next => rfl

/-- The texts before and behind a line feed are read independently of each other. -/
theorem ofSource_append_lineFeed (first second : String) :
    ofSource (first ++ "\n" ++ second) =
      ofSource first ++
        (ofSource second).map (Instruction.below (1 + first.toList.count '\n')) := by
  have htext : (first ++ "\n" ++ second).toList = first.toList ++ '\n' :: second.toList := by
    simp
  rw [ofSource_eq_pieces, ofSource_eq_pieces, ofSource_eq_pieces, htext,
    Text.splitAll_append_cons rfl, readFrom_append, readFrom_add, Text.length_splitAll,
    Nat.add_comm 1]
  rfl

/-- Instructions stand on later and later lines. -/
theorem pairwise_line_ofSource (source : String) :
    (ofSource source).Pairwise fun first second => first.line < second.line := by
  have hnumbers : ((Text.lines source.toList).zipIdx 1).Pairwise
      fun first second => first.2 < second.2 := by
    rw [← List.pairwise_map, List.zipIdx_map_snd]
    exact List.pairwise_lt_range'
  refine hnumbers.filterMap _ fun first second hlt instruction hfirst other hsecond => ?_
  rw [Instruction.line_of_ofLine? hfirst, Instruction.line_of_ofLine? hsecond]
  exact hlt

variable {program : Program}

/-- On a line with one instruction, that instruction is found. -/
theorem onLine?_line (h : program.Pairwise fun first second => first.line < second.line) {pc : Nat}
    (hpc : pc < program.length) : program.onLine? program[pc].line = some pc := by
  rw [onLine?, List.findIdx?_eq_some_iff_getElem]
  refine ⟨hpc, decide_eq_true rfl, fun earlier hearlier => ?_⟩
  have hlt := List.pairwise_iff_getElem.mp h earlier pc (hearlier.trans hpc) hpc hearlier
  simpa using hlt.ne

/-- Source text is read line by line. The text behind a line feed is read as if it stood alone, with
its lines counted from there on, and the text before it as if nothing followed. Every line gives at
most one instruction, the lines of the instructions increase, and the position of the line of an
instruction is that of the instruction. -/
theorem ofSource_line_by_line :
    (∀ first second : String,
      ofSource (first ++ "\n" ++ second) =
        ofSource first ++
          (ofSource second).map (Instruction.below (1 + first.toList.count '\n'))) ∧
    ∀ source : String,
      (∀ line, ((ofSource source).map (·.line)).count line ≤ 1) ∧
      (ofSource source).Pairwise (fun first second => first.line < second.line) ∧
      ∀ pc (h : pc < (ofSource source).length),
        onLine? (ofSource source) (ofSource source)[pc].line = some pc := by
  refine ⟨ofSource_append_lineFeed, fun source => ?_⟩
  have hlines := pairwise_line_ofSource source
  refine ⟨List.nodup_iff_count_le_one.mp ?_, hlines, fun pc hpc => onLine?_line hlines hpc⟩
  exact List.pairwise_map.mpr (hlines.imp Nat.ne_of_lt)

-- The quote on the first line is not closed, and the two lines behind it give no instruction.
example : (ofSource "PUSH \"a ; b\r\n# IR BEGIN\n\nPOP\r").map (·.line) = [1, 4] := by
  decide +kernel

end Program

end StackMachine
