import StackMachine.Native.CodeBuffer
import StackMachine.Proofs.Native.Code

/-!
# Machine code has one reading

Operations are emitted one after the other, without anything between them. Since every operation is
read back from its bytes whatever follows them, reading the code from its beginning finds the ends
of all operations. Two sequences of operations have the same bytes only if they are the same, and
the bytes of one begin with the bytes of the other only if its operations do.

## Main definitions

* `CodeBuffer.emitAll`: the buffer after a sequence of operations was emitted.

## Main results

* `Operation.decodeUpTo?_encodeAll`: a sequence of operations is read back from its bytes.
* `Operation.isPrefix_of_encodeAll`: code that begins with other code begins with its operations.
* `CodeBuffer.read_emitAll`: emitted code has exactly one reading.
-/

namespace StackMachine.Native

namespace Operation

@[simp]
theorem encodeAll_nil : encodeAll [] = [] := rfl

@[simp]
theorem encodeAll_cons (operation : Operation) (operations : List Operation) :
    encodeAll (operation :: operations) = operation.encode ++ encodeAll operations := rfl

theorem encodeAll_append (operations more : List Operation) :
    encodeAll (operations ++ more) = encodeAll operations ++ encodeAll more :=
  List.flatMap_append

/-- Once an operation was read, the others are read from what is left. -/
theorem decodeUpTo?_succ {count : Nat} {bytes rest : List UInt8} {operation : Operation}
    (h : decode? bytes = some (operation, rest)) :
    decodeUpTo? (count + 1) bytes = (decodeUpTo? count rest).map (operation :: ·) := by
  cases bytes with
  | nil => cases h
  | cons byte bytes => simp only [decodeUpTo?, h]

/-- A sequence of operations is read back from its bytes, if as many operations may be read. -/
theorem decodeUpTo?_encodeAll {count : Nat} {operations : List Operation}
    (h : operations.length ≤ count) :
    decodeUpTo? count (encodeAll operations) = some operations := by
  induction operations generalizing count with
  | nil => simp [decodeUpTo?]
  | cons operation operations ih =>
    cases count with
    | zero => simp at h
    | succ count =>
      rw [encodeAll_cons, decodeUpTo?_succ (decode?_encode operation _),
        ih (Nat.le_of_succ_le_succ h), Option.map_some]

/-- Every operation takes a byte, so as many operations as bytes are enough. -/
theorem decodeAll?_encodeAll (operations : List Operation) :
    decodeAll? (encodeAll operations) = some operations :=
  decodeUpTo?_encodeAll (length_le_encodeAll operations)

/-- Code that begins with the bytes of some operations begins with these operations: at each place
the two readings find the same operation. -/
theorem isPrefix_of_encodeAll {operations other : List Operation}
    (h : encodeAll operations <+: encodeAll other) : operations <+: other := by
  induction operations generalizing other with
  | nil => exact List.nil_prefix
  | cons operation operations ih =>
    obtain ⟨rest, hrest⟩ := h
    rw [encodeAll_cons, List.append_assoc] at hrest
    have hread : decode? (encodeAll other) = some (operation, encodeAll operations ++ rest) := by
      rw [← hrest, decode?_encode]
    cases other with
    | nil => cases hread
    | cons first other =>
      rw [encodeAll_cons, decode?_encode, Option.some_inj, Prod.mk.injEq] at hread
      obtain ⟨rfl, hsame⟩ := hread
      rw [List.cons_prefix_cons]
      exact ⟨rfl, ih ⟨rest, hsame.symm⟩⟩

end Operation

namespace CodeBuffer

open Operation

/-- The buffer after operations were emitted one after the other. -/
def emitAll (buffer : CodeBuffer) (operations : List Operation) : CodeBuffer :=
  operations.foldl (fun buffer operation => buffer.emit operation.encode) buffer

/-- Emitting operations appends their code. -/
@[simp]
theorem code_emitAll (buffer : CodeBuffer) (operations : List Operation) :
    (buffer.emitAll operations).code = buffer.code ++ encodeAll operations := by
  induction operations generalizing buffer with
  | nil => simp [emitAll]
  | cons operation operations ih =>
    have hrest := ih (buffer.emit operation.encode)
    rw [encodeAll_cons, ← List.append_assoc]
    exact hrest

/-- Emitted code has exactly one reading. Read as a whole, it is the sequence of operations that was
emitted. Where an operation begins, that operation is read, whatever bytes stand behind the code.
And the code of one sequence begins with the code of another exactly if the one sequence begins with
the other. -/
theorem read_emitAll (operations : List Operation) :
    decodeAll? (({} : CodeBuffer).emitAll operations).code = some operations ∧
    (∀ before operation after rest, operations = before ++ operation :: after →
      decode? (((({} : CodeBuffer).emitAll operations).code ++ rest).drop
          (({} : CodeBuffer).emitAll before).code.length) =
        some (operation, (({} : CodeBuffer).emitAll after).code ++ rest)) ∧
    ∀ other, (({} : CodeBuffer).emitAll operations).code <+:
      (({} : CodeBuffer).emitAll other).code ↔ operations <+: other := by
  simp only [code_emitAll, List.nil_append]
  refine ⟨decodeAll?_encodeAll operations, ?_, fun other => ⟨isPrefix_of_encodeAll, ?_⟩⟩
  · rintro before operation after rest rfl
    rw [encodeAll_append, List.append_assoc, List.drop_left, encodeAll_cons, List.append_assoc,
      decode?_encode]
  · rintro ⟨more, rfl⟩
    rw [encodeAll_append]
    exact List.prefix_append _ _

end CodeBuffer

end StackMachine.Native
