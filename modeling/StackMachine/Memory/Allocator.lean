/-!
# Allocators

Where blocks of memory come from. A pool serves small requests from size classes: each class
lends a bounded number of blocks and keeps returned ones for reuse. Requests that are too large
for every class, or that come while their class is exhausted, get a block of exactly their size.
Every block is handed out filled with zeros. A fresh block needs a reservation from the host,
which may refuse it.
-/

namespace StackMachine

/-- A block of memory. -/
structure Block where
  /-- Its bytes; their number is the capacity. -/
  contents : Array UInt8
  /-- The number of bytes that were asked for. -/
  size : Nat
  /-- The size class it belongs to, if it is pooled. -/
  sizeClass : Option Nat
  deriving DecidableEq, Repr, Inhabited

namespace Block

/-- The number of bytes a block really has. -/
def capacity (block : Block) : Nat := block.contents.size

/-- The bytes that were asked for. -/
def bytes (block : Block) : List UInt8 := block.contents.toList.take block.size

/-- A block of zeros. -/
def zeros (capacity size : Nat) (sizeClass : Option Nat) : Block :=
  ⟨Array.replicate capacity 0, size, sizeClass⟩

end Block

/-- What an allocator has done so far. -/
structure AllocationCounts where
  /-- Blocks handed out. -/
  allocations : Nat := 0
  /-- Blocks taken back. -/
  deallocations : Nat := 0
  /-- The capacity of the blocks in use. -/
  bytesInUse : Nat := 0
  /-- Blocks handed out outside the size classes of a pool. -/
  fallbacks : Nat := 0
  deriving DecidableEq, Repr, Inhabited

namespace AllocationCounts

/-- Counts a block handed out. -/
def lend (counts : AllocationCounts) (capacity : Nat) : AllocationCounts :=
  { counts with
    allocations := counts.allocations + 1
    bytesInUse := counts.bytesInUse + capacity }

/-- Counts a block taken back. -/
def takeBack (counts : AllocationCounts) (capacity : Nat) : AllocationCounts :=
  { counts with
    deallocations := counts.deallocations + 1
    bytesInUse := counts.bytesInUse - capacity }

end AllocationCounts

/-- Whether the host grants a reservation of so many bytes. -/
abbrev Host := Nat → Bool

/-- A host with four gibibytes to spare: no reservation reaches `2 ^ 32` bytes. -/
def Host.ample : Host := fun size => size < 0x100000000

/-- One size class of a pool. -/
structure SizeClass where
  /-- The capacity of its blocks. -/
  size : Nat
  /-- The contents of returned blocks, most recent first. -/
  cached : List (Array UInt8) := []
  /-- The number of its blocks in use. -/
  outstanding : Nat := 0
  deriving DecidableEq, Repr, Inhabited

/-- A pool of size classes. -/
structure Pool where
  /-- The number of blocks that a class may have in use. -/
  blocksPerClass : Nat
  /-- The classes by increasing size. -/
  classes : List SizeClass
  /-- What it has done so far. -/
  counts : AllocationCounts := {}
  deriving DecidableEq, Repr, Inhabited

namespace Pool

/-- The capacities of the size classes. -/
def classSizes : List Nat := [16, 32, 64, 128, 256, 512, 1024, 2048, 4096, 8192]

/-- The number of blocks that a class may have in use unless told otherwise. -/
def defaultBlocks : Nat := 100

/-- A pool that has lent nothing. -/
def fresh (blocksPerClass : Nat) : Pool :=
  { blocksPerClass, classes := classSizes.map fun size => { size } }

/-- The position of the smallest class whose blocks have at least `size` bytes. -/
def classFor? (size : Nat) : Option Nat := classSizes.findIdx? fun capacity => size ≤ capacity

/-- The number of returned blocks that a class keeps. -/
def cachedIn (pool : Pool) (index : Nat) : Nat :=
  match pool.classes[index]? with
  | some sizeClass => sizeClass.cached.length
  | none => 0

/-- Lends a block of exactly the requested size. -/
def lendExact (host : Host) (pool : Pool) (size : Nat) : Option (Block × Pool) :=
  if host size then
    let counts := { pool.counts with fallbacks := pool.counts.fallbacks + 1 }
    some (Block.zeros size size none, { pool with counts := counts.lend size })
  else none

/-- Lends a block of the class at `index`, a returned one if there is any. -/
def lendFrom (host : Host) (pool : Pool) (index : Nat) (sizeClass : SizeClass) (size : Nat) :
    Option (Block × Pool) :=
  let lend (contents : Array UInt8) (cached : List (Array UInt8)) : Block × Pool :=
    let busier := { sizeClass with cached, outstanding := sizeClass.outstanding + 1 }
    (⟨contents, size, some index⟩,
      { pool with
        classes := pool.classes.set index busier
        counts := pool.counts.lend contents.size })
  match sizeClass.cached with
  | returned :: cached => some (lend (returned.map fun _ => 0) cached)
  | [] =>
    if host sizeClass.size then some (lend (Array.replicate sizeClass.size 0) []) else none

/-- Lends a block of at least `size` bytes. There is none for size zero and none if the host
refuses. -/
def allocate (host : Host) (pool : Pool) (size : Nat) : Option (Block × Pool) :=
  if size = 0 then none
  else
    match classFor? size with
    | none => lendExact host pool size
    | some index =>
      match pool.classes[index]? with
      | none => lendExact host pool size
      | some sizeClass =>
        if sizeClass.outstanding < pool.blocksPerClass then
          lendFrom host pool index sizeClass size
        else lendExact host pool size

/-- Takes a block back. -/
def deallocate (pool : Pool) (block : Block) : Pool :=
  let counted := { pool with counts := pool.counts.takeBack block.capacity }
  match block.sizeClass with
  | none => counted
  | some index =>
    match pool.classes[index]? with
    | none => counted
    | some sizeClass =>
      let idler := { sizeClass with
        cached := block.contents :: sizeClass.cached
        outstanding := sizeClass.outstanding - 1 }
      { counted with classes := pool.classes.set index idler }

end Pool

/-- The kinds of allocators. -/
inductive Allocator
  /-- Blocks come from a pool. -/
  | pooled (pool : Pool)
  /-- Every block is fresh and has exactly the requested size. -/
  | direct (counts : AllocationCounts)
  /-- As `direct`, but only so many more requests are considered. -/
  | rationed (requests : Nat) (counts : AllocationCounts)
  deriving DecidableEq, Repr

namespace Allocator

instance : Inhabited Allocator := ⟨.direct {}⟩

/-- A block of exactly the requested size, with the counts after lending it. -/
def lendFresh (host : Host) (counts : AllocationCounts) (size : Nat) :
    Option (Block × AllocationCounts) :=
  if size ≠ 0 && host size then some (Block.zeros size size none, counts.lend size) else none

/-- Asks for a block of at least `size` bytes. The allocator afterwards is given in either case:
a refused request can still use up a ration. -/
def allocate (host : Host) (allocator : Allocator) (size : Nat) : Option Block × Allocator :=
  match allocator with
  | pooled pool =>
    match pool.allocate host size with
    | some (block, pool) => (some block, pooled pool)
    | none => (none, pooled pool)
  | direct counts =>
    match lendFresh host counts size with
    | some (block, counts) => (some block, direct counts)
    | none => (none, direct counts)
  | rationed 0 counts => (none, rationed 0 counts)
  | rationed (requests + 1) counts =>
    match lendFresh host counts size with
    | some (block, counts) => (some block, rationed requests counts)
    | none => (none, rationed requests counts)

/-- Takes a block back. -/
def deallocate (allocator : Allocator) (block : Block) : Allocator :=
  match allocator with
  | pooled pool => pooled (pool.deallocate block)
  | direct counts => direct (counts.takeBack block.capacity)
  | rationed requests counts => rationed requests (counts.takeBack block.capacity)

/-- Takes blocks back one after the other. -/
def deallocateAll (allocator : Allocator) (blocks : List Block) : Allocator :=
  blocks.foldl deallocate allocator

/-- What the allocator has done so far. -/
def counts : Allocator → AllocationCounts
  | pooled pool => pool.counts
  | direct counts => counts
  | rationed _ counts => counts

end Allocator

end StackMachine
