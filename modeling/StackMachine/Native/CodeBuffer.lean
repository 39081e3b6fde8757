import StackMachine.Collection.Entries
import StackMachine.Native.Operation

/-!
# Code under construction

Machine code with labels. A reference to a label is a field of four bytes, zero at first; patching
fills every pending field with the distance from its end to the label. Pending references are
dropped by patching whether or not it succeeds.
-/

namespace StackMachine.Native

/-- Why patching fails. -/
inductive PatchError
  /-- The label was never defined. -/
  | undefinedLabel (label : String)
  /-- The distance has more than 32 bits. -/
  | outOfRange (label : String)
  deriving DecidableEq, Repr

/-- The wording of a patch error. -/
def PatchError.message : PatchError → String
  | undefinedLabel label => "undefined label: " ++ label
  | outOfRange label => "relative offset out of range for label: " ++ label

/-- Code with its labels and pending references. -/
structure CodeBuffer where
  /-- The bytes so far. -/
  code : List UInt8 := []
  /-- Where each label was last defined. -/
  labels : Entries String Nat := []
  /-- The fields to patch, with their labels, in the order in which they were emitted. -/
  pending : List (Nat × String) := []
  deriving DecidableEq, Repr, Inhabited

namespace CodeBuffer

/-- Appends bytes. -/
def emit (buffer : CodeBuffer) (bytes : List UInt8) : CodeBuffer :=
  { buffer with code := buffer.code ++ bytes }

/-- Defines a label at the end of the code. -/
def defineLabel (buffer : CodeBuffer) (label : String) : CodeBuffer :=
  { buffer with labels := Entries.insert label buffer.code.length buffer.labels }

/-- Where a label was last defined. -/
def label? (buffer : CodeBuffer) (label : String) : Option Nat :=
  Entries.find? label buffer.labels

/-- Appends a reference to a label. -/
def emitReference (buffer : CodeBuffer) (label : String) : CodeBuffer :=
  { buffer with
    code := buffer.code ++ littleEndian 4 0
    pending := buffer.pending ++ [(buffer.code.length, label)] }

/-- Appends a jump to a label. -/
def emitJump (buffer : CodeBuffer) (label : String) : CodeBuffer :=
  (buffer.emit [0xE9]).emitReference label

/-- Appends a conditional jump to a label. -/
def emitBranch (buffer : CodeBuffer) (condition : Condition) (label : String) : CodeBuffer :=
  (buffer.emit [0x0F, UInt8.ofNat (0x80 + condition.number)]).emitReference label

/-- Replaces the bytes at an offset. -/
def overwrite (code : List UInt8) (offset : Nat) (bytes : List UInt8) : List UInt8 :=
  code.take offset ++ bytes ++ code.drop (offset + bytes.length)

/-- Fills fields one after the other, up to the first that cannot be filled. -/
def patchFields (labels : Entries String Nat) (code : List UInt8) :
    List (Nat × String) → Except PatchError Unit × List UInt8
  | [] => (.ok (), code)
  | (offset, label) :: rest =>
    match Entries.find? label labels with
    | none => (.error (.undefinedLabel label), code)
    | some target =>
      let distance : Int := (target : Int) - (offset + 4)
      if distance < -0x80000000 ∨ 0x80000000 ≤ distance then (.error (.outOfRange label), code)
      else patchFields labels (overwrite code offset (bytes32 (Int32.ofInt distance))) rest

/-- Fills every pending field. -/
def patch (buffer : CodeBuffer) : Except PatchError Unit × CodeBuffer :=
  let (result, code) := patchFields buffer.labels buffer.code buffer.pending
  (result, { buffer with code, pending := [] })

end CodeBuffer

end StackMachine.Native
