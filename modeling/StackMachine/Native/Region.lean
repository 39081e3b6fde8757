import StackMachine.Memory.Allocator
import StackMachine.Native.CodeBuffer

/-!
# Executable memory

Pages of memory that are writable until they are sealed and executable from then on, never both.
-/

namespace StackMachine.Native

/-- Why an operation on executable memory fails. -/
inductive RegionError
  /-- The host has no memory. -/
  | refused
  /-- The region is sealed, or cannot be. -/
  | isProtected
  /-- The size or the range does not fit. -/
  | invalidSize
  deriving DecidableEq, Repr

/-- The wording of a region error. -/
def RegionError.message : RegionError → String
  | refused => "memory allocation failed"
  | isProtected => "memory protection change failed"
  | invalidSize => "invalid memory size"

/-- What the host does with requests for pages. -/
structure Paging where
  /-- The number of bytes in a page, a power of two. -/
  pageSize : Nat := 4096
  /-- Whether it grants a mapping of so many bytes. -/
  maps : Host := Host.ample
  /-- Whether it grants making so many bytes executable. -/
  protects : Host := fun _ => true
  deriving Inhabited

/-- The number of bytes that addresses can count. -/
def addressSpace : Nat := 0x10000000000000000

/-- A size rounded up to whole pages. -/
def Paging.roundUp (paging : Paging) (size : Nat) : Nat :=
  (size + paging.pageSize - 1) / paging.pageSize * paging.pageSize

/-- A region of whole pages. -/
structure Region where
  /-- Its bytes. -/
  bytes : List UInt8
  /-- Whether it can be executed, and no longer written. -/
  executable : Bool := false
  deriving DecidableEq, Repr, Inhabited

namespace Region

/-- The size of a region. -/
def size (region : Region) : Nat := region.bytes.length

/-- Maps a region of at least `size` bytes, all zero. -/
def map (paging : Paging) (size : Nat) : Except RegionError Region :=
  if size = 0 ∨ addressSpace ≤ size + paging.pageSize - 1 then .error .invalidSize
  else if paging.maps (paging.roundUp size) then
    .ok { bytes := List.replicate (paging.roundUp size) 0 }
  else .error .refused

/-- Replaces the bytes at an offset. -/
def write (region : Region) (offset : Nat) (data : List UInt8) : Except RegionError Region :=
  if region.executable then .error .isProtected
  else if addressSpace ≤ offset + data.length ∨ region.size < offset + data.length then
    .error .invalidSize
  else .ok { region with bytes := CodeBuffer.overwrite region.bytes offset data }

/-- Makes a region executable. Nothing is left to do for one that already is. -/
def protect (paging : Paging) (region : Region) : Except RegionError Region :=
  if region.executable then .ok region
  else if paging.protects region.size then .ok { region with executable := true }
  else .error .isProtected

/-- Whether the region yields a function pointer of so many bytes: it is sealed, and the pointer
has the size of an address. -/
def givesFunction (region : Region) (pointerSize : Nat) : Bool :=
  region.executable && pointerSize = 8

end Region

/-- Patches code and puts it into a sealed region. -/
def CodeBuffer.finalize (paging : Paging) (buffer : CodeBuffer) : Except RegionError Region :=
  match buffer.patch with
  | (.error _, _) => .error .invalidSize
  | (.ok (), buffer) =>
    match Region.map paging buffer.code.length with
    | .error error => .error error
    | .ok region =>
      match region.write 0 buffer.code with
      | .error error => .error error
      | .ok region => region.protect paging

end StackMachine.Native
