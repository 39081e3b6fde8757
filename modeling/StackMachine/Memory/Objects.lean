import StackMachine.Collection.Entries
import StackMachine.Memory.Allocator
import StackMachine.Value.Basic

/-!
# Managed objects and raw blocks

Two tables of blocks that a program holds by number. A managed object has a type tag, which says
how its bytes are read as a value; a raw block is just bytes. Numbers are never used twice, and
removing an entry hands its block back exactly once.
-/

namespace StackMachine

/-- A typed block. -/
structure ManagedObject where
  /-- Its memory. -/
  block : Block
  /-- The name of its type. -/
  tag : String
  deriving DecidableEq, Repr, Inhabited

namespace ManagedObject

/-- The number of bytes it was created with. -/
def size (object : ManagedObject) : Nat := object.block.size

/-- The first bytes of an object as a number, least significant first; missing bytes count as
zero. -/
def word (object : ManagedObject) (count : Nat) : Nat :=
  (object.block.bytes.take count).foldr (fun byte rest => byte.toNat + 256 * rest) 0

/-- The value that an object holds, read as its tag says. -/
def load (object : ManagedObject) : Value :=
  if object.tag = "int" then .int (Int32.ofNat (object.word 4))
  else if object.tag = "float" ∨ object.tag = "double" then
    .double ⟨UInt64.ofNat (object.word 8)⟩
  else if object.tag = "bool" then .bool (object.word 1 ≠ 0)
  else .long (Int64.ofNat (object.word 8))

/-- The number of bytes of an object with a given tag. -/
def sizeFor (tag : String) : Nat :=
  if tag = "int" ∨ tag = "bool" then 4 else if tag = "string" then 24 else 8

end ManagedObject

/-- Entries that are numbered in the order of their creation. -/
structure Numbered (ν : Type) where
  /-- The entries by number. -/
  entries : Entries Int ν := []
  /-- The number of the next entry. -/
  next : Int := 1
  deriving Inhabited

namespace Numbered

variable {ν : Type}

/-- Adds an entry under the next number. -/
def add (table : Numbered ν) (entry : ν) : Int × Numbered ν :=
  (table.next,
    { entries := Entries.insert table.next entry table.entries, next := table.next + 1 })

/-- The entry with a given number. -/
def get? (table : Numbered ν) (number : Int) : Option ν := Entries.find? number table.entries

/-- Whether there is an entry with a given number. -/
def has (table : Numbered ν) (number : Int) : Bool := Entries.has number table.entries

/-- Replaces the entry with a given number. -/
def set (table : Numbered ν) (number : Int) (entry : ν) : Numbered ν :=
  { table with entries := Entries.insert number entry table.entries }

/-- Removes the entry with a given number. -/
def remove (table : Numbered ν) (number : Int) : Numbered ν :=
  { table with entries := Entries.erase number table.entries }

/-- Removes all entries; their numbers stay used. -/
def clear (table : Numbered ν) : Numbered ν := { table with entries := [] }

/-- The number of entries. -/
def size (table : Numbered ν) : Nat := table.entries.length

end Numbered

/-- The managed objects by number. -/
abbrev ObjectTable := Numbered ManagedObject

namespace ObjectTable

/-- Creates an object of zeros. -/
def create (host : Host) (table : ObjectTable) (allocator : Allocator) (tag : String)
    (size : Nat) : Option Int × ObjectTable × Allocator :=
  match allocator.allocate host size with
  | (some block, allocator) =>
    let (number, table) := Numbered.add table { block, tag }
    (some number, table, allocator)
  | (none, allocator) => (none, table, allocator)

/-- Frees an object; the flag says whether there was one. -/
def free (table : ObjectTable) (allocator : Allocator) (number : Int) :
    Bool × ObjectTable × Allocator :=
  match table.get? number with
  | some object => (true, Numbered.remove table number, allocator.deallocate object.block)
  | none => (false, table, allocator)

/-- Frees every object. -/
def release (table : ObjectTable) (allocator : Allocator) : ObjectTable × Allocator :=
  (Numbered.clear table, allocator.deallocateAll (table.entries.values.map (·.block)))

/-- The bytes that the objects were created with. -/
def bytesInUse (table : ObjectTable) : Nat := Entries.total ManagedObject.size table.entries

end ObjectTable

/-- The raw blocks by address. -/
abbrev BlockTable := Numbered Block

namespace BlockTable

/-- Creates a block of zeros. -/
def create (host : Host) (table : BlockTable) (allocator : Allocator) (size : Nat) :
    Option Int × BlockTable × Allocator :=
  match allocator.allocate host size with
  | (some block, allocator) =>
    let (address, table) := Numbered.add table block
    (some address, table, allocator)
  | (none, allocator) => (none, table, allocator)

/-- Frees a block; the flag says whether there was one. -/
def free (table : BlockTable) (allocator : Allocator) (address : Int) :
    Bool × BlockTable × Allocator :=
  match table.get? address with
  | some block => (true, Numbered.remove table address, allocator.deallocate block)
  | none => (false, table, allocator)

/-- Frees every block. -/
def release (table : BlockTable) (allocator : Allocator) : BlockTable × Allocator :=
  (Numbered.clear table, allocator.deallocateAll table.entries.values)

/-- The bytes that the blocks were asked for with. -/
def bytesInUse (table : BlockTable) : Nat := Entries.total Block.size table.entries

end BlockTable

end StackMachine
