import StackMachine.Collection.Entries
import StackMachine.Memory.Allocator

/-!
# The garbage collector

Objects on a heap, named by handles that are never used twice, with a set of roots and a graph of
references between objects. Collecting frees exactly the objects that no chain of references
reaches from a root.
-/

namespace StackMachine

/-- What a collector has done so far. -/
structure CollectorCounts where
  /-- Collections made. -/
  collections : Nat := 0
  /-- Objects freed by collections. -/
  collected : Nat := 0
  /-- Objects freed one by one. -/
  frees : Nat := 0
  deriving DecidableEq, Repr, Inhabited

/-- A heap with its roots and references. -/
structure Collector where
  /-- The objects by their handles. -/
  heap : Entries Nat Block := []
  /-- The handles that collection starts from. -/
  roots : List Nat := []
  /-- The references of each object, in the order in which they were added. -/
  references : Entries Nat (List Nat) := []
  /-- The handle of the next object. -/
  nextHandle : Nat := 1
  /-- What it has done so far. -/
  counts : CollectorCounts := {}
  deriving DecidableEq, Repr, Inhabited

namespace Collector

/-- Whether an object is on the heap. -/
def contains (c : Collector) (handle : Nat) : Bool := Entries.has handle c.heap

/-- Whether an object is a root. -/
def isRoot (c : Collector) (handle : Nat) : Bool := c.roots.contains handle

/-- The references of an object. -/
def referencesOf (c : Collector) (handle : Nat) : List Nat :=
  (Entries.find? handle c.references).getD []

/-- Whether an object occurs in the graph of references. -/
def isReferenced (c : Collector) (handle : Nat) : Bool :=
  Entries.has handle c.references || c.references.any fun entry => entry.2.contains handle

/-- The number of objects on the heap. -/
def heapSize (c : Collector) : Nat := c.heap.length

/-- The bytes that the objects on the heap were asked for with. -/
def heapBytes (c : Collector) : Nat := Entries.total Block.size c.heap

/-- Allocates an object. Nothing but the allocator changes if there is no memory. -/
def allocate (host : Host) (c : Collector) (allocator : Allocator) (size : Nat) :
    Option Nat × Collector × Allocator :=
  match allocator.allocate host size with
  | (some block, allocator) =>
    (some c.nextHandle,
      { c with
        heap := Entries.insert c.nextHandle block c.heap
        nextHandle := c.nextHandle + 1 },
      allocator)
  | (none, allocator) => (none, c, allocator)

/-- Makes an object a root; what is not on the heap never becomes one. -/
def addRoot (c : Collector) (handle : Nat) : Collector :=
  if c.contains handle && !c.isRoot handle then { c with roots := c.roots ++ [handle] } else c

/-- Forgets all roots. -/
def clearRoots (c : Collector) : Collector := { c with roots := [] }

/-- Adds a reference between two objects on the heap. -/
def addReference (c : Collector) (source target : Nat) : Collector :=
  if c.contains source && c.contains target then
    { c with
      references := Entries.insert source (c.referencesOf source ++ [target]) c.references }
  else c

/-- The number of objects on the heap that are not among those visited. -/
def unvisited (c : Collector) (visited : List Nat) : Nat :=
  (c.heap.keys.filter fun handle => !visited.contains handle).length

/-- Visiting an object on the heap for the first time leaves fewer objects unvisited. -/
theorem unvisited_cons_lt {c : Collector} {handle : Nat} {visited : List Nat}
    (h : (visited.contains handle || !c.contains handle) = false) :
    c.unvisited (handle :: visited) < c.unvisited visited := by
  obtain ⟨hnew, hheap⟩ : handle ∉ visited ∧ handle ∈ c.heap.keys := by
    simpa [contains, Entries.has_iff_mem_keys] using h
  have hsplit : c.heap.keys.filter (fun other => !(handle :: visited).contains other) =
      (c.heap.keys.filter fun other => !visited.contains other).filter (· ≠ handle) := by
    rw [List.filter_filter]
    exact List.filter_congr fun other _ => by simp
  rw [unvisited, unvisited, hsplit]
  exact List.length_filter_lt_length_iff_exists.mpr ⟨handle, by simp [hnew, hheap], by simp⟩

/-- Visits the objects on the work list and what they refer to, skipping what was visited before
and what is not on the heap. -/
def visit (c : Collector) (work visited : List Nat) : List Nat :=
  match work with
  | [] => visited
  | handle :: work =>
    if visited.contains handle || !c.contains handle then visit c work visited
    else visit c (c.referencesOf handle ++ work) (handle :: visited)
termination_by (c.unvisited visited, work.length)
decreasing_by
  · exact Prod.Lex.right _ (Nat.lt_succ_self _)
  · exact Prod.Lex.left _ _ (unvisited_cons_lt (by simp_all))

/-- The objects that chains of references reach from the roots. -/
def reachable (c : Collector) : List Nat := c.visit c.roots []

/-- The number of objects that the next collection would keep. -/
def liveObjects (c : Collector) : Nat := c.reachable.length

/-- Removes objects from the heap, the roots and the references; an object left without references
leaves the graph. -/
def discard (c : Collector) (dead : Nat → Bool) : Collector :=
  let heap := c.heap.filter fun entry => !dead entry.1
  { c with
    heap
    roots := c.roots.filter fun handle => !dead handle
    references := c.references.filterMap fun entry =>
      let targets := entry.2.filter fun target => !dead target && Entries.has target heap
      if dead entry.1 || !Entries.has entry.1 heap || targets.isEmpty then none
      else some (entry.1, targets) }

/-- The blocks of the objects that satisfy `dead`. -/
def blocksOf (c : Collector) (dead : Nat → Bool) : List Block :=
  (c.heap.filter fun entry => dead entry.1).map (·.2)

/-- Frees every object that is not reachable and returns the number of objects freed. -/
def collect (c : Collector) (allocator : Allocator) : Nat × Collector × Allocator :=
  let live := c.reachable
  let dead (handle : Nat) : Bool := c.contains handle && !live.contains handle
  let garbage := c.blocksOf dead
  let kept := c.discard dead
  (garbage.length,
    { kept with counts := { c.counts with
        collections := c.counts.collections + 1
        collected := c.counts.collected + garbage.length } },
    allocator.deallocateAll garbage)

/-- Frees one object at once. A handle that is not on the heap is ignored. -/
def deallocate (c : Collector) (allocator : Allocator) (handle : Nat) : Collector × Allocator :=
  if c.contains handle then
    let kept := c.discard fun other => other = handle
    ({ kept with counts := { c.counts with frees := c.counts.frees + 1 } },
      allocator.deallocateAll (c.blocksOf fun other => other = handle))
  else (c, allocator)

/-- Frees every object. -/
def clear (c : Collector) (allocator : Allocator) : Collector × Allocator :=
  ({ c with heap := [], roots := [], references := [] },
    allocator.deallocateAll c.heap.values)

end Collector

end StackMachine
